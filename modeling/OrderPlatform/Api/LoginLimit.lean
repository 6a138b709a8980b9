import OrderPlatform.Api.RateWindow

/-!
# How many logins of a client may fail

A login reads the counter of its client before it looks at the password, and counts a failure only
behind that.  It is turned away when the counter is above the limit, not when the limit has been
reached; and what it has read may be out of date when it counts.

So a life of the counter, from the `INCR` that has created it to its expiry, holds no more failures
than the limit as long as none of them is counted on a counter that has reached it; and a login that
finds at least the limit is turned away, without a look at the password, exactly when it does not
find the limit itself (`failed_logins_bounded`).
-/

namespace OrderPlatform

namespace RateLimit

open Async (Tid Contract Discipline Regime)
open AuthRoutes (AuthError Choice ClientRequest Credentials Operation Route failedIpKey
  authRateLimited getClientIdentifier invalidCredentials tooManyFailures)
open Counters (Command Counter live)

variable {ctx : RateLimitContext} {t : Tid} {s s' : State} {key : String}

/-! ### Logins -/

/-- A login as the limit sees it: who sends it, and the parsed body. -/
structure LoginRequest where
  client : ClientRequest
  body : Except String Credentials

/-- The address under which the failures of the request are counted. -/
def LoginRequest.clientId (ctx : RateLimitContext) (request : LoginRequest) : String :=
  getClientIdentifier request.client ctx.auth.config

/-- `POST /v1/auth/login`. -/
def logIn (ctx : RateLimitContext) (request : LoginRequest) : Route HttpResponse :=
  AuthRoutes.login ctx.auth request.client request.body

/-- Redis does not fail, and nobody else writes such a counter.  Everything else may happen: logins
overlap, processes die, and keys expire. -/
def healthy (ctx : RateLimitContext) : Regime (machine ctx) where
  advance _ c _ _ := ∀ fault, c = .redis fault → fault = .none
  event e _ := ∀ key counter, e = .write key counter → ∀ clientId, key ≠ failedIpKey clientId
  crash _ _ := True

/-! ### The lives of a counter -/

/-- What was counted, by the life of the counter; the latest first, in each life and of all lives. -/
def lives : List Execution → List (List Execution)
  | [] => []
  | e :: earlier =>
      match e.met, lives earlier with
      | some _, life :: rest => (e :: life) :: rest
      | _, all => [e] :: all

/-- The failures that a command has found. -/
def Execution.found (e : Execution) : ℤ := (e.met.getD ⟨0, none⟩).value

theorem lives_created {e : Execution} (met : e.met = none) (earlier : List Execution) :
    lives (e :: earlier) = [e] :: lives earlier := by
  rw [lives, met]

theorem lives_counted {e : Execution} {c : Counter} {earlier life : List Execution}
    {rest : List (List Execution)} (met : e.met = some c) (same : lives earlier = life :: rest) :
    lives (e :: earlier) = (e :: life) :: rest := by
  rw [lives, met, same]

/-- Nothing that was counted is outside all lives. -/
theorem lives_flatten (counted : List Execution) : (lives counted).flatten = counted := by
  induction counted with
  | nil => rfl
  | cons e earlier ih =>
      unfold lives
      split
      · rename_i same
        rw [same, List.flatten_cons] at ih
        rw [List.flatten_cons, List.cons_append, ih]
      · rw [List.flatten_cons, ih]
        rfl

theorem lives_nonempty {counted life : List Execution} (mem : life ∈ lives counted) :
    life ≠ [] := by
  induction counted with
  | nil => cases mem
  | cons e earlier ih =>
      unfold lives at mem
      split at mem
      · rename_i same
        rcases List.mem_cons.mp mem with rfl | old
        · exact List.cons_ne_nil _ _
        · exact ih (same ▸ List.mem_cons_of_mem _ old)
      · rcases List.mem_cons.mp mem with rfl | old
        · exact List.cons_ne_nil _ _
        · exact ih old

/-- A life none of whose failures has found the limit reached is within the limit. -/
theorem Ranked.length_le {life : List Execution} (h : Ranked life) (nonempty : life ≠ [])
    {limit : ℤ} (below : ∀ e ∈ life, e.found < limit) : (life.length : ℤ) ≤ limit := by
  cases life with
  | nil => exact absurd rfl nonempty
  | cons e earlier =>
      have reached : e.found < limit := below e List.mem_cons_self
      calc
        ((e :: earlier).length : ℤ) = e.found + 1 := by
          rw [List.length_cons]
          exact_mod_cast h.1.symm
        _ ≤ limit := reached

/-! ### The counters -/

/-- The counter of a key holds what was counted in its last life. -/
structure CountedUnder (key : String) (s : State) : Prop where
  ranked : ∀ life ∈ lives (increments key s), Ranked life
  current : ∀ c ∈ s.base.server.store key,
    ∃ life ∈ (lives (increments key s)).head?, c.value = life.length

/-- What Redis knows of the failed logins. -/
structure Counted (s : State) : Prop where
  nothingInFlight : s.base.server.inFlight = []
  keys : ∀ clientId, CountedUnder (failedIpKey clientId) s
  natural : ∀ clientId, ∀ e ∈ s.log, keyOf e.command = failedIpKey clientId →
    ∃ n : ℕ, e.found = n

namespace CountedUnder

/-- Nothing that concerns the counts changes. -/
theorem same (h : CountedUnder key s) (log : increments key s' = increments key s)
    (values : ∀ c ∈ s'.base.server.store key, ∃ c' ∈ s.base.server.store key, c.value = c'.value) :
    CountedUnder key s' := by
  refine ⟨log ▸ h.ranked, fun c stored => ?_⟩
  obtain ⟨c', before, same⟩ := values c stored
  rw [log, same]
  exact h.current c' before

/-- A failure is counted. -/
theorem count (h : CountedUnder key s) : CountedUnder key (s.after t (.incr key)) := by
  set e := s.executed (some t) (.incr key) with executed
  have stored : ∀ c ∈ (s.after t (.incr key)).base.server.store key, c.value = e.count := by
    intro c mem
    rw [store_after_incr, Function.update_self] at mem
    rw [← Option.some.inj mem]
    rfl
  cases met : s.met (.incr key) with
  | none =>
      have split := lives_created (e := e) met (increments key s)
      have count : e.count = 1 := by
        unfold Execution.count
        rw [show e.met = none from met]
        rfl
      constructor
      · intro life mem
        rw [increments_after, split] at mem
        rcases List.mem_cons.mp mem with rfl | old
        · exact ⟨count, trivial⟩
        · exact h.ranked life old
      · intro c mem
        rw [increments_after, split]
        exact ⟨[e], rfl, (stored c mem).trans count⟩
  | some found =>
      obtain ⟨life, head, value⟩ := h.current found (stored_of_met met)
      obtain ⟨rest, lived⟩ : ∃ rest, lives (increments key s) = life :: rest :=
        List.head?_eq_some_iff.mp head
      have split := lives_counted (e := e) met lived
      have count : e.count = life.length + 1 := by
        unfold Execution.count
        rw [show e.met = some found from met, ← value]
        rfl
      constructor
      · intro life' mem
        rw [increments_after, split] at mem
        rcases List.mem_cons.mp mem with rfl | old
        · exact ⟨count, h.ranked life (lived ▸ List.mem_cons_self)⟩
        · exact h.ranked life' (lived ▸ List.mem_cons_of_mem _ old)
      · intro c mem
        rw [increments_after, split]
        exact ⟨e :: life, rfl, (stored c mem).trans (count.trans (Nat.cast_succ _).symm)⟩

end CountedUnder

/-- **A command keeps the counts.** -/
theorem Counted.command (h : Counted s) (c : Command) : Counted (s.after t c) := by
  refine ⟨h.nothingInFlight, fun clientId => ?_, fun clientId e mem same => ?_⟩
  · have here := h.keys clientId
    cases c with
    | get key =>
        refine here.same (increments_after_other ?_ t s) fun c stored => ⟨c, stored, rfl⟩
        nofun
    | ttl key =>
        refine here.same (increments_after_other ?_ t s) fun c stored => ⟨c, stored, rfl⟩
        nofun
    | incr key =>
        by_cases own : key = failedIpKey clientId
        · subst own
          exact here.count
        · refine here.same (increments_after_other (fun same => own ?_) t s) fun c stored => ?_
          · exact Command.incr.inj same
          · rw [store_after_incr, Function.update_of_ne (Ne.symm own)] at stored
            exact ⟨c, stored, rfl⟩
    | expire key seconds =>
        have aside : Command.expire key seconds ≠ .incr (failedIpKey clientId) := nofun
        refine here.same (increments_after_other aside t s) fun c stored => ?_
        by_cases own : key = failedIpKey clientId
        · subst own
          rw [store_after_expire, Function.update_self] at stored
          obtain ⟨found, met, rfl⟩ := Option.map_eq_some_iff.mp stored
          exact ⟨found, stored_of_met met, rfl⟩
        · rw [store_after_expire, Function.update_of_ne (Ne.symm own)] at stored
          exact ⟨c, stored, rfl⟩
  · rcases List.mem_cons.mp mem with rfl | old
    · unfold Execution.found
      show ∃ n : ℕ, ((s.met c).getD ⟨0, none⟩).value = n
      cases met : s.met c with
      | none => exact ⟨0, rfl⟩
      | some found =>
          have stored := stored_of_met met
          rw [show keyOf c = failedIpKey clientId from same] at stored
          obtain ⟨life, _, value⟩ := (h.keys clientId).current found stored
          exact ⟨life.length, value⟩
    · exact h.natural clientId e old same

namespace Counted

/-- Redis executes nothing, and the counters stay as they are. -/
theorem still (h : Counted s) (inFlight : s'.base.server.inFlight = s.base.server.inFlight)
    (store : ∀ clientId, s'.base.server.store (failedIpKey clientId) =
      s.base.server.store (failedIpKey clientId)) (log : s'.log = s.log) : Counted s' := by
  refine ⟨inFlight.trans h.nothingInFlight, fun clientId => ?_, log ▸ h.natural⟩
  refine (h.keys clientId).same ?_ fun c stored => ⟨c, store clientId ▸ stored, rfl⟩
  unfold increments
  rw [log]

/-- **An operation keeps the counts.** -/
theorem operation (h : Counted s) {c : Choice} {o : Operation} {r : o.Reply}
    (allowed : (healthy ctx).advance t c o s) (done : exec ctx t c o s = some (r, s')) :
    Counted s' := by
  by_cases command : ∃ c, o = .redis c
  · obtain ⟨command, rfl⟩ := command
    obtain ⟨_, _, rfl⟩ | ⟨fault, rfl, faulty, _⟩ := exec_redis done
    · exact h.command command
    · exact absurd (allowed fault rfl) faulty
  · obtain ⟨server, _, log⟩ := exec_aside (fun c same => command ⟨c, same⟩) done
    exact h.still (by rw [server]) (fun _ => by rw [server]) log

/-- **What happens beside the logins keeps the counts.** -/
theorem event (h : Counted s) {e : Event} (allowed : (healthy ctx).event e s)
    (happens : s.event e = some s') : Counted s' := by
  cases e with
  | tick =>
      cases happens
      exact h.still rfl (fun _ => rfl) rfl
  | land position =>
      obtain ⟨base, landed, rfl⟩ := Option.map_eq_some_iff.mp happens
      obtain ⟨server, executed, rfl⟩ := Option.map_eq_some_iff.mp landed
      obtain ⟨c, waiting, _⟩ := Option.map_eq_some_iff.mp executed
      rw [h.nothingInFlight] at waiting
      cases waiting
  | write key counter =>
      cases happens
      refine h.still rfl (fun clientId => ?_) rfl
      exact Function.update_of_ne (Ne.symm (allowed key counter rfl clientId)) _ _

end Counted

/-! ### A login -/

/-- What a `GET` has been answered. -/
def Execution.text (e : Execution) : Option String := e.met.map fun c => toString c.value

/-- The login has found no more failures than the limit. -/
def Admitted (ctx : RateLimitContext) (own : List Execution) : Prop :=
  ∀ g ∈ own, ∀ key, g.command = .get key → tooManyFailures ctx.auth g.text = false

theorem Admitted.cons {own : List Execution} {e : Execution} (h : Admitted ctx own)
    (other : ∀ key, e.command ≠ .get key) : Admitted ctx (e :: own) := by
  intro g mem key get
  rcases List.mem_cons.mp mem with rfl | old
  · exact absurd get (other key)
  · exact h g old key get

/-- The login was admitted, and counted under the key. -/
structure Failed (ctx : RateLimitContext) (key : String) (own : List Execution) : Prop where
  admitted : Admitted ctx own
  counted : ∃ e ∈ own, e.command = .incr key

theorem Failed.cons {own : List Execution} {e : Execution} (h : Failed ctx key own)
    (other : ∀ key, e.command ≠ .get key) : Failed ctx key (e :: own) := by
  obtain ⟨e', mem, incr⟩ := h.counted
  exact ⟨h.admitted.cons other, e', List.mem_cons_of_mem _ mem, incr⟩

/-- Where a login stands before it looks at the password. -/
def BeforePassword (ctx : RateLimitContext) (t : Tid) : Operation → State → Prop
  | .argon2Verify _ _, s => Admitted ctx (own t s)
  | _, _ => True

/-- How a login ends that finds these failures. -/
structure Concluded (ctx : RateLimitContext) (t : Tid) (key : String) (answer : HttpResponse)
    (s : State) : Prop where
  limited : ∀ g ∈ own t s, ∀ key', g.command = .get key' →
    (answer = authRateLimited ↔ tooManyFailures ctx.auth g.text = true)
  counted : answer = invalidCredentials → ∃ e ∈ own t s, e.command = .incr key

/-- The contract of a login. -/
def LoggingIn (ctx : RateLimitContext) (t : Tid) {α : Type} (Q : α → State → Prop)
    (task : Route α) (s : State) : Prop :=
  ((discipline ctx (BeforePassword ctx)).contract (healthy ctx) t).Holds (M := machine ctx) Q
    (fun _ _ => True) task s

theorem healthy_redis (fault : Counters.Fault) (o : Operation) (s : State)
    (allowed : (healthy ctx).advance t (.redis fault) o s) : fault = .none := allowed fault rfl

namespace LoggingIn

variable {α β : Type} {I : List Execution → Prop}

/-- A part of a login that sends no command. -/
theorem only {task : Route α} (only : task.Only NoCommand) (here : I (own t s))
    (admitted : ∀ own, I own → Admitted ctx own) :
    LoggingIn ctx t (fun _ s' => I (own t s')) task s := by
  refine (holds_only only here fun o s' _ known => ?_).mono (fun _ _ h => h) fun _ _ _ => trivial
  cases o with
  | argon2Verify hash password => exact admitted _ known
  | _ => trivial

/-- Sequencing. -/
theorem bind {Q : β → State → Prop} {p : Route α} {f : α → Route β}
    (h : LoggingIn ctx t (fun _ s' => I (own t s')) p s)
    (next : ∀ a s', I (own t s') → LoggingIn ctx t Q (f a) s') :
    LoggingIn ctx t Q (p.bind f) s :=
  Contract.Holds.chain h ⟨trivial, .refl _ _⟩ fun a s' here _ => next a s' here

/-- An admitted login is answered with something else. -/
theorem answered {answer : HttpResponse} (here : Admitted ctx (own t s))
    (status : answer.status ≠ 429)
    (counted : answer = invalidCredentials → ∃ e ∈ own t s, e.command = .incr key) :
    LoggingIn ctx t (Concluded ctx t key) (.done answer) s := by
  intro s' step
  refine ⟨fun g mem key' get => ?_, fun same => step.2.own ▸ counted same⟩
  have admitted := here g (step.2.own ▸ mem) key' get
  refine iff_of_false (fun same => status ?_) (Bool.eq_false_iff.mp admitted)
  rw [same]
  rfl

/-- The password is wrong, or there is no such user. -/
theorem rejectLogin (user : Option UserRow) (here : Admitted ctx (own t s)) :
    LoggingIn ctx t (Concluded ctx t key) (AuthRoutes.rejectLogin ctx.auth key user) s := by
  have counted : LoggingIn ctx t (fun _ s' => Failed ctx key (own t s'))
      (AuthRoutes.countClientFailure ctx.auth key) s := by
    refine holds_answered healthy_redis (fun _ _ => trivial) fun s₁ step₁ => ?_
    have failed : Failed ctx key (own t (s₁.after t (.incr key))) := by
      rw [own_after, step₁.own]
      exact ⟨here.cons nofun, _, List.mem_cons_self, rfl⟩
    split
    · refine holds_answered healthy_redis (fun _ _ => trivial) fun s₂ step₂ s₃ step₃ => ?_
      rw [step₃.2.own, own_after, step₂.own]
      exact failed.cons nofun
    · intro s₂ step₂
      rw [step₂.2.own]
      exact failed
  have refused : ∀ s', Failed ctx key (own t s') →
      LoggingIn ctx t (Concluded ctx t key) (.done invalidCredentials) s' :=
    fun s' failed => answered failed.admitted (by decide) fun _ => failed.counted
  refine counted.bind fun _ s₁ failed => ?_
  cases user with
  | none => exact refused s₁ failed
  | some user =>
      refine (only (countAccountFailure_noCommand ctx.auth user) failed fun _ h => h.admitted).bind ?_
      exact fun _ s₂ failed₂ => refused s₂ failed₂

/-- The password is right. -/
theorem acceptLogin (user : UserRow) (here : Admitted ctx (own t s)) :
    LoggingIn ctx t (Concluded ctx t key) (AuthRoutes.acceptLogin ctx.auth user) s := by
  refine (only (query_noCommand _) here fun _ h => h).bind fun _ s₁ here₁ => ?_
  refine (only (createTokens_noCommand ctx.auth _ _) here₁ fun _ h => h).bind fun tokens s₂ here₂ => ?_
  refine answered here₂ (by decide : (200 : ℕ) ≠ 429) fun same => ?_
  exact absurd (congrArg HttpResponse.status same) (by decide : (200 : ℕ) ≠ 401)

/-- **A login** is turned away when it finds too many failures, and is counted when it fails. -/
theorem logIn (request : LoginRequest) (fresh : own t s = []) :
    LoggingIn ctx t (Concluded ctx t (failedIpKey (request.clientId ctx)))
      (RateLimit.logIn ctx request) s := by
  obtain ⟨client, body⟩ := request
  cases body with
  | error message =>
      intro s' step
      have nothing : own t s' = [] := step.2.own.trans fresh
      refine ⟨fun g mem => ?_, fun same => ?_⟩
      · rw [nothing] at mem
        cases mem
      · exact absurd (congrArg HttpResponse.status same) (by decide : (400 : ℕ) ≠ 401)
  | ok body =>
      refine holds_answered healthy_redis (fun _ _ => trivial) fun s₁ step₁ => ?_
      set key := failedIpKey (getClientIdentifier client ctx.auth.config)
      set g := s₁.executed (some t) (.get key)
      have own₁ : own t (s₁.after t (.get key)) = [g] := by
        rw [own_after, step₁.own, fresh]
      split
      -- turned away: nothing but the `GET` has been sent
      · rename_i tooMany
        intro s₂ step₂
        have same : own t s₂ = [g] := step₂.2.own.trans own₁
        refine ⟨fun g' mem _ _ => ?_, fun other => ?_⟩
        · rw [same] at mem
          obtain rfl := List.mem_singleton.mp mem
          exact iff_of_true rfl tooMany
        · exact absurd (congrArg HttpResponse.status other) (by decide)
      -- let in: what follows sends no command before the password has been looked at
      · rename_i few
        have here : Admitted ctx (own t (s₁.after t (.get key))) := by
          rw [own₁]
          intro g' mem _ _
          obtain rfl := List.mem_singleton.mp mem
          exact Bool.eq_false_iff.mpr few
        refine (only (query_noCommand _) here fun _ h => h).bind fun user s₂ here₂ => ?_
        refine (only (isLocked_noCommand user) here₂ fun _ h => h).bind fun locked s₃ here₃ => ?_
        split
        · refine answered here₃ (by decide) fun same => ?_
          exact absurd (congrArg HttpResponse.status same) (by decide)
        · refine (only (passwordMatches_noCommand user _) here₃ fun _ h => h).bind ?_
          intro matched s₄ here₄
          cases user with
          | none => exact rejectLogin none here₄
          | some user =>
              cases matched with
              | true => exact acceptLogin user here₄
              | false => exact rejectLogin (some user) here₄

end LoggingIn

/-! ### Whole runs -/

/-- What a login makes of the failures that it has found. -/
theorem tooManyFailures_text {e : Execution} {n : ℕ} (natural : e.found = n) :
    tooManyFailures ctx.auth e.text = decide (ctx.auth.config.failedLoginIpLimit < e.found) := by
  have parsed : Text.parseInt (e.text.getD "0") = some e.found := by
    unfold Execution.text
    unfold Execution.found at natural ⊢
    cases met : e.met with
    | none => exact Text.parseInt_repr 0
    | some c =>
        rw [met] at natural
        show Text.parseInt (toString c.value) = some c.value
        rw [show c.value = n from natural]
        exact Text.parseInt_repr n
  unfold tooManyFailures
  rw [parsed]
  rfl

section Runs

variable {s₀ : AuthRoutes.State} {p : Async.Pool (machine ctx) LoginRequest HttpResponse}

/-- The login was answered 401, and counted in this life. -/
def FailedIn (p : Async.Pool (machine ctx) LoginRequest HttpResponse) (life : List Execution)
    (t : Tid) : Prop :=
  (∃ request, p.Answered t request invalidCredentials) ∧ ∃ e ∈ life, e.caller = some t

/-- The login is answered 429, without a look at the password. -/
def TurnedAway (p : Async.Pool (machine ctx) LoginRequest HttpResponse) (t : Tid) : Prop :=
  (∀ request answer, p.Answered t request answer → answer = authRateLimited) ∧
    ∀ request hash password k, p.slot t ≠ .busy request (.await (.argon2Verify hash password) k)

theorem length_failed {life : List Execution} {failed : List Tid} (distinct : failed.Nodup)
    (all : ∀ t ∈ failed, FailedIn p life t) : failed.length ≤ life.length := by
  have callers : failed.map some ⊆ life.map Execution.caller := by
    intro caller mem
    obtain ⟨t, memFailed, rfl⟩ := List.mem_map.mp mem
    obtain ⟨_, e, memLife, same⟩ := all t memFailed
    exact List.mem_map.mpr ⟨e, memLife, same⟩
  have length := (distinct.map (Option.some_injective _)).length_le_of_subset callers
  rw [List.length_map, List.length_map] at length
  exact length

/-- **Failed logins of a client are bounded**, as far as they are.  Every login that is answered 401
is counted in a life of the counter.  A life none of whose failures has found the limit reached holds
no more than the limit.  A login that has found at least the limit is turned away if it has not found
the limit itself, and is not if it has. -/
theorem failed_logins_bounded
    (empty : ∀ clientId, s₀.server.store (failedIpKey clientId) = none)
    (idle : s₀.server.inFlight = [])
    (run : Async.Pool.Steps (healthy ctx) (logIn ctx) (Async.Pool.idle ⟨s₀, []⟩) p)
    (clientId : String) :
    (∀ t request, p.Answered t request invalidCredentials → request.clientId ctx = clientId →
        ∃ life ∈ lives (increments (failedIpKey clientId) p.shared), FailedIn p life t) ∧
      (∀ life ∈ lives (increments (failedIpKey clientId) p.shared),
        (∀ e ∈ life, e.found < ctx.auth.config.failedLoginIpLimit) →
        ∀ failed : List Tid, failed.Nodup → (∀ t ∈ failed, FailedIn p life t) →
          (failed.length : ℤ) ≤ ctx.auth.config.failedLoginIpLimit) ∧
      ∀ t, ∀ g ∈ own t p.shared, g.command = .get (failedIpKey clientId) →
        ctx.auth.config.failedLoginIpLimit ≤ g.found →
        (g.found ≠ ctx.auth.config.failedLoginIpLimit → TurnedAway p t) ∧
        (g.found = ctx.auth.config.failedLoginIpLimit →
          ∀ request answer, p.Answered t request answer → answer ≠ authRateLimited) := by
  set D := discipline ctx (BeforePassword ctx)
  have handles : D.Handles (healthy ctx) (logIn ctx)
      (fun t request => Concluded ctx t (failedIpKey (request.clientId ctx)))
      (fun _ _ _ _ => True) :=
    fun t request s _ fresh => LoggingIn.logIn request fresh
  have initial : D.Sound (healthy ctx)
      (fun t request => Concluded ctx t (failedIpKey (request.clientId ctx)))
      (fun _ _ _ _ => True)
      (Async.Pool.idle ⟨s₀, []⟩ : Async.Pool (machine ctx) LoginRequest HttpResponse) :=
    Discipline.sound_idle trivial fun _ => rfl
  have sound := initial.steps environment handles run
  have none : Counted (⟨s₀, []⟩ : State) := by
    refine ⟨idle, fun clientId => ⟨List.forall_mem_nil _, fun c stored => ?_⟩,
      fun _ => List.forall_mem_nil _⟩
    have nothing : s₀.server.store (failedIpKey clientId) = some c := stored
    rw [empty] at nothing
    cases nothing
  have counted : Counted p.shared := by
    refine initial.invariant (I := Counted) environment handles none ?_ ?_ ?_ run
    · exact fun t c o s r s' _ _ allowed done here => here.operation allowed done
    · exact fun e s s' _ allowed happens here => here.event allowed happens
    · exact fun _ _ _ _ here => here
  refine ⟨?_, ?_, ?_⟩
  -- a login that is answered 401 has incremented the counter, so that some life has it
  · rintro t request answered rfl
    obtain ⟨e, mem, incr⟩ := (sound.answered answered).counted rfl
    have counted : e ∈ increments (failedIpKey (request.clientId ctx)) p.shared :=
      List.mem_filter.mpr ⟨List.mem_of_mem_filter mem, decide_eq_true incr⟩
    rw [← lives_flatten (increments _ _)] at counted
    obtain ⟨life, memLives, memLife⟩ := List.mem_flatten.mp counted
    exact ⟨life, memLives, ⟨request, answered⟩, e, memLife,
      of_decide_eq_true (List.mem_filter.mp mem).2⟩
  -- the values found in a life count up from 0, so that the latest of them tells its length
  · intro life mem below failed distinct all
    calc
      (failed.length : ℤ) ≤ life.length := by exact_mod_cast length_failed distinct all
      _ ≤ _ := ((counted.keys clientId).ranked life mem).length_le (lives_nonempty mem) below
  · intro t g mem get reached
    obtain ⟨n, natural⟩ := counted.natural clientId g (List.mem_of_mem_filter mem)
      (congrArg keyOf get)
    have answer : tooManyFailures ctx.auth g.text = decide _ := tooManyFailures_text natural
    constructor
    · intro other
      have above := lt_of_le_of_ne reached other.symm
      have tooMany := answer.trans (decide_eq_true above)
      refine ⟨fun request v answered => ((sound.answered answered).limited g mem _ get).mpr tooMany, ?_⟩
      intro request hash password k busy
      have admitted : Admitted ctx (own t p.shared) := sound.standing busy
      exact absurd tooMany (Bool.eq_false_iff.mp (admitted g mem _ get))
    · intro same request v answered limited
      have tooMany := ((sound.answered answered).limited g mem _ get).mp limited
      rw [answer, same] at tooMany
      exact absurd (of_decide_eq_true tooMany) (lt_irrefl _)

end Runs

/-! ### Worked example -/

/-- One failure a minute. -/
def oneFailureContext : RateLimitContext :=
  { limitContext with auth := { AuthRoutes.authContext with
    config := { AuthRoutes.authContext.config with failedLoginIpLimit := 1 } } }

/-- A login with an unknown email. -/
def unknownEmail : LoginRequest :=
  ⟨⟨fun _ => .missing, "203.0.113.7"⟩, .ok ⟨"bob@example.com", "correct horse battery"⟩⟩

/-- A failing login; the first one also sets the time to live. -/
def failMoves (t : Tid) (first : Bool) :
    List (Async.Move (machine oneFailureContext) LoginRequest) :=
  [.start t unknownEmail, .advance t (.redis .none), .advance t .succeeds,
    .advance t (.redis .none)] ++ bif first then [.advance t (.redis .none)] else []

/-- **One failure too many.**  The limit is one, and of two logins that follow each other both are
answered 401, in one life of the counter. -/
theorem limit_exceeded :
    ∃ p, Async.Pool.Steps (flawless oneFailureContext) (logIn oneFailureContext)
        (Async.Pool.idle ⟨AuthRoutes.oneAccountState, []⟩) p ∧
      oneFailureContext.auth.config.failedLoginIpLimit = 1 ∧
      p.answer 0 = some invalidCredentials ∧ p.answer 1 = some invalidCredentials ∧
      (lives (increments (failedIpKey "203.0.113.7") p.shared)).map (List.map Execution.caller) =
        [[some 1, some 0]] := by
  obtain ⟨p, run, first, second, life⟩ := Async.Pool.steps_of_check (flawless oneFailureContext)
    (logIn oneFailureContext) (Async.Pool.idle ⟨AuthRoutes.oneAccountState, []⟩)
    (failMoves 0 true ++ failMoves 1 false)
    (fun p => p.answer 0 = some invalidCredentials ∧ p.answer 1 = some invalidCredentials ∧
      (lives (increments (failedIpKey "203.0.113.7") p.shared)).map (List.map Execution.caller) =
        [[some 1, some 0]]) (by decide)
  exact ⟨p, run, rfl, first, second, life⟩

/-- A third login is turned away. -/
theorem failed_logins_bounded_of_three :
    ∃ p, Async.Pool.Steps (healthy oneFailureContext) (logIn oneFailureContext)
        (Async.Pool.idle ⟨AuthRoutes.oneAccountState, []⟩) p ∧
      p.answer 2 = some authRateLimited ∧ TurnedAway p 2 := by
  obtain ⟨p, run, third, g, mem, get, found⟩ := Async.Pool.steps_of_check
    (flawless oneFailureContext) (logIn oneFailureContext)
    (Async.Pool.idle ⟨AuthRoutes.oneAccountState, []⟩)
    (failMoves 0 true ++ failMoves 1 false ++ [.start 2 unknownEmail, .advance 2 (.redis .none)])
    (fun p => p.answer 2 = some authRateLimited ∧ ∃ g ∈ own 2 p.shared,
      g.command = .get (failedIpKey "203.0.113.7") ∧ g.found = 2) (by decide)
  have healthy : Async.Pool.Steps (healthy oneFailureContext) (logIn oneFailureContext)
      (Async.Pool.idle ⟨AuthRoutes.oneAccountState, []⟩) p := by
    refine Async.Pool.Steps.mono (fun _ _ _ _ => flawless_redis) ?_
      (fun _ _ impossible => False.elim impossible) run
    rintro e s rfl
    nofun
  obtain ⟨_, _, turned⟩ := failed_logins_bounded (fun _ => rfl) rfl healthy "203.0.113.7"
  obtain ⟨away, _⟩ := turned 2 g mem get (by rw [found]; decide)
  exact ⟨p, healthy, third, away (by rw [found]; decide)⟩

end RateLimit

end OrderPlatform
