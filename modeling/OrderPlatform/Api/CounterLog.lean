import Mathlib.Data.Int.Order.Basic
import OrderPlatform.Async.Contract
import OrderPlatform.Api.AuthContract
import OrderPlatform.Api.RateLimit

/-!
# What a request has sent to Redis

Rules for following a request through its operations, whatever other requests do meanwhile: what
Redis has executed for it stays what it was (`Rely`).  Where a request stands when it sends a command
is a parameter of the discipline, since it is a different matter for each of its uses.
-/

namespace OrderPlatform

namespace RateLimit

open Async (Tid Contract Discipline Regime)
open AuthRoutes (AuthError Choice Operation)
open Counters (Command Counter Fault live)

variable {ctx : RateLimitContext} {t u : Tid} {s s' : State}

/-! ### What an operation does -/

/-- A command of a request has been executed. -/
def State.after (s : State) (t : Tid) (c : Command) : State where
  base := { s.base with
    server := { s.base.server with store := (c.apply s.base.clock s.base.server.store).2 } }
  log := s.executed (some t) c :: s.log

theorem store_after_incr (t : Tid) (key : String) (s : State) :
    (s.after t (.incr key)).base.server.store = Function.update s.base.server.store key
      (some { (s.met (.incr key)).getD ⟨0, none⟩ with
        value := ((s.met (.incr key)).getD ⟨0, none⟩).value + 1 }) := rfl

theorem store_after_expire (t : Tid) (key : String) (seconds : ℤ) (s : State) :
    (s.after t (.expire key seconds)).base.server.store = Function.update s.base.server.store key
      ((s.met (.expire key seconds)).map fun c =>
        { c with expiresAt := some (s.base.clock + seconds * 1000) }) := rfl

/-- A counter that is found is stored. -/
theorem stored_of_met {c : Command} {counter : Counter} (found : s.met c = some counter) :
    s.base.server.store (keyOf c) = some counter := (Option.filter_eq_some_iff.mp found).1

/-- Everything but a command leaves Redis and the clock alone. -/
theorem exec_aside {choice : Choice} {o : Operation} {r : o.Reply} (aside : ∀ c, o ≠ .redis c)
    (done : exec ctx t choice o s = some (r, s')) :
    s'.base.server = s.base.server ∧ s'.base.clock = s.base.clock ∧ s'.log = s.log := by
  obtain ⟨⟨r', base⟩, executed, same⟩ := Option.map_eq_some_iff.mp done
  cases same
  have nothing : sent choice o = none := by
    cases o with
    | redis c => exact absurd rfl (aside c)
    | _ => rfl
  rw [nothing]
  cases o with
  | redis c => exact absurd rfl (aside c)
  | query st =>
      obtain ⟨_, _, rfl⟩ | ⟨_, _, _, _, _, rfl⟩ := AuthRoutes.exec_query executed
      · exact ⟨rfl, rfl, rfl⟩
      · exact ⟨rfl, rfl, rfl⟩
  | now => cases choice <;> cases executed; exact ⟨rfl, rfl, rfl⟩
  | randomUUID => cases choice <;> cases executed; exact ⟨rfl, rfl, rfl⟩
  | newRefreshToken => cases choice <;> cases executed; exact ⟨rfl, rfl, rfl⟩
  | argon2Hash password => cases choice <;> cases executed; exact ⟨rfl, rfl, rfl⟩
  | argon2Verify hash password => cases choice <;> cases executed; exact ⟨rfl, rfl, rfl⟩

theorem exec_now {choice : Choice} {r : ℤ} (done : exec ctx t choice .now s = some (r, s')) :
    r = s.base.clock := by
  cases choice <;> cases done
  rfl

/-- A command is executed and answered, or its caller gets an error. -/
theorem exec_redis {choice : Choice} {c : Command} {r : Option c.Reply}
    (done : exec ctx t choice (.redis c) s = some (r, s')) :
    (choice = .redis .none ∧ r = some (c.apply s.base.clock s.base.server.store).1 ∧
        s' = s.after t c) ∨
      ∃ fault, choice = .redis fault ∧ fault ≠ .none ∧ r = none ∧
        s'.base.clock = s.base.clock ∧ s'.base.server.store = s.base.server.store ∧
        s'.log = s.log ∧ (s'.base.server.inFlight = s.base.server.inFlight ∨
          fault = .late ∧ s'.base.server.inFlight = c :: s.base.server.inFlight) := by
  cases choice with
  | redis fault =>
      cases fault with
      | none => cases done; exact .inl ⟨rfl, rfl, rfl⟩
      | refused => cases done; exact .inr ⟨.refused, rfl, nofun, rfl, rfl, rfl, rfl, .inl rfl⟩
      | late => cases done; exact .inr ⟨.late, rfl, nofun, rfl, rfl, rfl, rfl, .inr ⟨rfl, rfl⟩⟩
  | succeeds => cases done
  | fails => cases done
  | fresh id => cases done
  | draws text => cases done

/-! ### What a request tolerates -/

/-- What Redis has executed for a request stays what it was. -/
structure Rely (t : Tid) (s s' : State) : Prop where
  own : own t s' = own t s
  clock : s.base.clock ≤ s'.base.clock

theorem Rely.refl (t : Tid) (s : State) : Rely t s s := ⟨rfl, le_rfl⟩

theorem Rely.trans {s'' : State} (h : Rely t s s') (h' : Rely t s' s'') : Rely t s s'' :=
  ⟨h'.own.trans h.own, le_trans h.clock h'.clock⟩

theorem Rely.of_same (log : s'.log = s.log) (clock : s'.base.clock = s.base.clock) :
    Rely t s s' := by
  refine ⟨?_, le_of_eq clock.symm⟩
  unfold RateLimit.own
  rw [log]

theorem own_after (t : Tid) (c : Command) (s : State) :
    own t (s.after t c) = s.executed (some t) c :: own t s :=
  List.filter_cons_of_pos (decide_eq_true rfl)

theorem own_after_other (other : u ≠ t) (c : Command) : own u (s.after t c) = own u s := by
  refine List.filter_cons_of_neg fun same => ?_
  exact other (Option.some.inj (of_decide_eq_true same)).symm

/-- **Whatever another request does** is tolerated. -/
theorem rely_of_exec {choice : Choice} {o : Operation} {r : o.Reply} (other : u ≠ t)
    (done : exec ctx t choice o s = some (r, s')) : Rely u s s' := by
  by_cases command : ∃ c, o = .redis c
  · obtain ⟨c, rfl⟩ := command
    obtain ⟨_, _, rfl⟩ | ⟨_, _, _, _, clock, _, log, _⟩ := exec_redis done
    · exact ⟨own_after_other other c, le_rfl⟩
    · exact .of_same log clock
  · obtain ⟨_, clock, log⟩ := exec_aside (fun c same => command ⟨c, same⟩) done
    exact .of_same log clock

theorem rely_of_event {e : Event} (hevent : s.event e = some s') : Rely t s s' := by
  cases e with
  | tick =>
      cases hevent
      exact ⟨rfl, Int.le_add_one le_rfl⟩
  | land position =>
      obtain ⟨base, landed, rfl⟩ := Option.map_eq_some_iff.mp hevent
      obtain ⟨server, _, rfl⟩ := Option.map_eq_some_iff.mp landed
      refine ⟨?_, le_rfl⟩
      unfold RateLimit.own
      rw [List.filter_append]
      cases s.base.server.inFlight[position]? with
      | none => rfl
      | some c => rfl
  | write key counter =>
      cases hevent
      exact ⟨rfl, le_rfl⟩

/-! ### Following a request -/

/-- What all requests agree on, wherever they stand before their operations. -/
def discipline (ctx : RateLimitContext) (before : Tid → Operation → State → Prop) :
    Discipline (machine ctx) where
  inv _ := True
  fresh t s := own t s = []
  before := before
  rely := Rely
  rely_refl := Rely.refl
  rely_trans := Rely.trans
  fresh_rely fresh step := step.own.trans fresh

variable {before : Tid → Operation → State → Prop} {R : Regime (machine ctx)}

theorem environment : (discipline ctx before).Environment R where
  event _ _ hevent := ⟨trivial, fun _ => rely_of_event hevent⟩
  crash _ _ := ⟨trivial, fun _ _ => .refl _ _⟩

/-- Everything but a command. -/
def NoCommand (o : Operation) : Prop := ∀ c, o ≠ .redis c

section Rules

variable {α : Type} {Q : α → State → Prop} {E : AuthError → State → Prop}

/-- The clock. -/
theorem holds_now {f : ℤ → (machine ctx).Task α} (standing : ∀ s', Rely t s s' → before t .now s')
    (next : ∀ s', Rely t s s' →
      ((discipline ctx before).contract R t).Holds Q E (f s'.base.clock) s') :
    ((discipline ctx before).contract R t).Holds Q E (AuthRoutes.now.bind f) s := by
  intro s₁ step
  refine ⟨standing s₁ step.2, fun choice r s₂ _ done => ?_⟩
  refine ⟨⟨trivial, fun _ other => rely_of_exec other done⟩, ?_⟩
  obtain ⟨_, clock, log⟩ := exec_aside (fun _ other => by cases other) done
  obtain rfl := exec_now done
  have read := next s₂ (step.2.trans (.of_same log clock))
  rw [clock] at read
  exact read

/-- A command, and what is done when it is answered. -/
theorem holds_redis {c : Command} {k : Option c.Reply → (machine ctx).Task α}
    (standing : ∀ s', Rely t s s' → before t (.redis c) s')
    (answered : ∀ s', Rely t s s' → R.advance t (.redis .none) (.redis c) s' →
      ((discipline ctx before).contract R t).Holds Q E
        (k (some (c.apply s'.base.clock s'.base.server.store).1)) (s'.after t c))
    (refused : ∀ fault s₁ s', Rely t s s₁ → fault ≠ .none → R.advance t (.redis fault) (.redis c) s₁ →
      Rely t s s' → ((discipline ctx before).contract R t).Holds Q E (k none) s') :
    ((discipline ctx before).contract R t).Holds Q E (.await (.redis c) k) s := by
  intro s₁ step
  refine ⟨standing s₁ step.2, fun choice r s₂ allowed done => ?_⟩
  refine ⟨⟨trivial, fun _ other => rely_of_exec other done⟩, ?_⟩
  obtain ⟨rfl, rfl, rfl⟩ | ⟨fault, rfl, faulty, rfl, clock, _, log, _⟩ := exec_redis done
  · exact answered s₁ step.2 allowed
  · exact refused fault s₁ s₂ step.2 faulty allowed (step.2.trans (.of_same log clock))

/-- A command, where Redis does not fail. -/
theorem holds_answered {c : Command} {f : c.Reply → (machine ctx).Task α}
    (healthy : ∀ fault o s, R.advance t (.redis fault) o s → fault = .none)
    (standing : ∀ s', Rely t s s' → before t (.redis c) s')
    (answered : ∀ s', Rely t s s' → ((discipline ctx before).contract R t).Holds Q E
      (f (c.apply s'.base.clock s'.base.server.store).1) (s'.after t c)) :
    ((discipline ctx before).contract R t).Holds Q E ((AuthRoutes.redis c).bind f) s := by
  refine holds_redis standing (fun s' step _ => answered s' step) ?_
  intro fault s₁ s' _ faulty allowed _
  exact absurd (healthy fault _ _ allowed) faulty

/-- A task without commands keeps what is known of the commands of its request. -/
theorem holds_only {I : List Execution → Prop} {task : (machine ctx).Task α}
    (only : task.Only NoCommand) (here : I (own t s))
    (standing : ∀ o s', NoCommand o → I (own t s') → before t o s') :
    ((discipline ctx before).contract R t).Holds (fun _ s' => I (own t s'))
      (fun _ s' => I (own t s')) task s := by
  refine Contract.Holds.only only here (fun _ _ step known => step.2.own ▸ known) ?_
  intro o s₁ aside known
  refine ⟨standing o s₁ aside known, fun c r s₂ _ done => ?_⟩
  refine ⟨⟨trivial, fun _ other => rely_of_exec other done⟩, ?_⟩
  obtain ⟨_, clock, log⟩ := exec_aside aside done
  exact (Rely.of_same (t := t) log clock).own ▸ known

end Rules

/-! ### Runs without a fault -/

/-- Redis does not fail, nobody dies, and nobody else writes a key. -/
def flawless (ctx : RateLimitContext) : Regime (machine ctx) where
  advance _ c _ _ := c ≠ .redis .refused ∧ c ≠ .redis .late
  event e _ := e = .tick
  crash _ _ := False

instance decidableFlawlessAdvance (t : Tid) (c : Choice) (o : Operation) (s : State) :
    Decidable ((flawless ctx).advance t c o s) :=
  inferInstanceAs (Decidable (c ≠ .redis .refused ∧ c ≠ .redis .late))

instance decidableFlawlessEvent (e : Event) (s : State) : Decidable ((flawless ctx).event e s) :=
  inferInstanceAs (Decidable (e = .tick))

instance decidableFlawlessCrash (t : Tid) (s : State) : Decidable ((flawless ctx).crash t s) :=
  inferInstanceAs (Decidable False)

theorem flawless_redis {c : Choice} {o : Operation} (allowed : (flawless ctx).advance t c o s)
    (fault : Fault) (same : c = .redis fault) : fault = .none := by
  subst same
  cases fault with
  | none => rfl
  | refused => exact absurd rfl allowed.1
  | late => exact absurd rfl allowed.2

/-! ### Routes that leave the counters alone -/

theorem query_noCommand (st : AuthStatement) :
    (AuthRoutes.query st).Only NoCommand := by
  refine ⟨nofun, fun r => ?_⟩
  cases r <;> trivial

theorem secondsFromNow_noCommand (seconds : ℤ) :
    (AuthRoutes.secondsFromNow seconds).Only NoCommand := ⟨nofun, fun _ => trivial⟩

theorem createTokens_noCommand (ctx : AuthRoutes.AuthContext) (userId : Uuid) (email : String) :
    (AuthRoutes.createTokens ctx userId email).Only NoCommand := by
  refine ⟨nofun, fun _ => ⟨nofun, fun _ => ⟨nofun, fun _ => ?_⟩⟩⟩
  refine (secondsFromNow_noCommand _).bind fun _ => ?_
  exact (query_noCommand _).bind fun _ => trivial

theorem isLocked_noCommand (user : Option UserRow) :
    (AuthRoutes.isLocked user).Only NoCommand := by
  unfold AuthRoutes.isLocked
  split
  · exact ⟨nofun, fun _ => trivial⟩
  · trivial

theorem passwordMatches_noCommand (user : Option UserRow) (password : String) :
    (AuthRoutes.passwordMatches user password).Only NoCommand := by
  cases user with
  | some user => exact ⟨nofun, fun _ => trivial⟩
  | none => trivial

theorem countAccountFailure_noCommand (ctx : AuthRoutes.AuthContext) (user : UserRow) :
    (AuthRoutes.countAccountFailure ctx user).Only NoCommand := by
  refine Async.Program.Only.bind ?_ fun _ => query_noCommand _
  unfold AuthRoutes.lockAfter
  split
  · exact (secondsFromNow_noCommand _).bind fun _ => trivial
  · trivial

theorem acceptLogin_noCommand (ctx : AuthRoutes.AuthContext) (user : UserRow) :
    (AuthRoutes.acceptLogin ctx user).Only NoCommand :=
  (query_noCommand _).bind fun _ => (createTokens_noCommand ctx _ _).bind fun _ => trivial

theorem register_noCommand (ctx : AuthRoutes.AuthContext)
    (body : Except String AuthRoutes.Credentials) : (AuthRoutes.register ctx body).Only NoCommand := by
  cases body with
  | error message => trivial
  | ok body =>
      refine ⟨nofun, fun passwordHash => Async.Program.Only.attempt ?_ fun e => ?_⟩
      · refine ⟨nofun, fun id => (query_noCommand _).bind fun user => ?_⟩
        exact (createTokens_noCommand ctx _ _).bind fun _ => trivial
      · split <;> trivial

theorem refresh_noCommand (ctx : AuthRoutes.AuthContext) (body : Except String String) :
    (AuthRoutes.refresh ctx body).Only NoCommand := by
  cases body with
  | error message => trivial
  | ok refreshToken =>
      refine (query_noCommand _).bind fun found => ?_
      split
      · trivial
      · refine Async.Program.Only.bind ⟨nofun, fun _ => trivial⟩ fun ms => ?_
        split
        · trivial
        · unfold AuthRoutes.exchange
          split
          · exact (query_noCommand _).bind fun _ => trivial
          · refine (query_noCommand _).bind fun _ => ?_
            exact (createTokens_noCommand ctx _ _).bind fun _ => trivial

theorem logout_noCommand (ctx : AuthRoutes.AuthContext) (body : Except String String) :
    (AuthRoutes.logout ctx body).Only NoCommand := by
  cases body with
  | error message => trivial
  | ok refreshToken => exact (query_noCommand _).bind fun _ => trivial

end RateLimit

end OrderPlatform
