import OrderPlatform.Async.Schedule
import OrderPlatform.Api.RateWindow

/-!
# Whether counters expire

A counter is created by one command, `INCR`, and given a time to live by another, `EXPIRE`, which
only the request sends whose `INCR` has been answered by 1.  Until then the request owes it (`owed`).

No counter outlives its window as long as every request pays: no `EXPIRE` fails, nobody dies owing,
and no `INCR` creates a counter after its caller has got an error (`paid`, `counters_expire`).  One
`EXPIRE` that fails is enough for a counter to stay forever (`counter_stays`).
-/

namespace OrderPlatform

namespace RateLimit

open Async (Tid Contract Discipline Regime)
open AuthRoutes (AuthError Choice ClientRequest Credentials Operation Route failedIpKey)
open Counters (Command Counter live)
open RedisKeys (rateKey_inj)

variable {ctx : RateLimitContext} {t : Tid} {s s' : State} {key : String} {seconds : ℤ}

/-! ### Requests -/

/-- What a request asks for.  The routes of the orders use no counter. -/
inductive Endpoint
  | register (body : Except String Credentials)
  | login (body : Except String Credentials)
  | refresh (body : Except String String)
  | logout (body : Except String String)
  | other (answer : HttpResponse)

/-- A request as the rate limit and the routes see it: its url, its client, and the route it goes
to. -/
structure ApiRequest where
  url : String
  client : ClientRequest
  endpoint : Endpoint

/-- The route behind the rate limit.  Of the routes outside `auth.routes.ts` only the answer matters
here, since they touch no counter. -/
def route (ctx : RateLimitContext) (client : ClientRequest) : Endpoint → Route HttpResponse
  | .register body => AuthRoutes.register ctx.auth body
  | .login body => AuthRoutes.login ctx.auth client body
  | .refresh body => AuthRoutes.refresh ctx.auth body
  | .logout body => AuthRoutes.logout ctx.auth body
  | .other answer => .done answer

/-- A request is handled behind the hook. -/
def serve (ctx : RateLimitContext) (request : ApiRequest) : Route HttpResponse :=
  (enforceRateLimit ctx ⟨request.url, request.client⟩).bind fun limit =>
    match limit.refusal with
    | some refused => .done refused
    | none => route ctx request.client request.endpoint

/-! ### Counters and who owes them -/

/-- The key counts what a client does, and its counter is to be forgotten after that long. -/
inductive Abuse (ctx : RateLimitContext) : String → ℤ → Prop
  | rate (clientId : String) (bucket : ℤ) :
      Abuse ctx (rateKey clientId bucket) ctx.rateLimitWindowSeconds
  | failedIp (clientId : String) :
      Abuse ctx (failedIpKey clientId) ctx.auth.config.failedLoginIpWindowSeconds

theorem rateKey_ne_failedIpKey (clientId clientId' : String) (bucket : ℤ) :
    rateKey clientId bucket ≠ failedIpKey clientId' := by
  intro same
  have first := congrArg (fun text : String => text.toList.head?) same
  simp [rateKey, failedIpKey] at first

/-- A key has one window. -/
theorem Abuse.unique {seconds' : ℤ} (h : Abuse ctx key seconds) (h' : Abuse ctx key seconds') :
    seconds = seconds' := by
  generalize same : key = key' at h'
  cases h with
  | rate clientId bucket =>
      cases h' with
      | rate clientId' bucket' => rfl
      | failedIp clientId' => exact absurd same (rateKey_ne_failedIpKey _ _ _)
  | failedIp clientId =>
      cases h' with
      | rate clientId' bucket' => exact absurd same.symm (rateKey_ne_failedIpKey _ _ _)
      | failedIp clientId' => rfl

/-- The key whose counter an execution has created. -/
def created? (e : Execution) : Option String :=
  match e.command, e.met with
  | .incr key, none => some key
  | _, _ => none

theorem created?_of_met {caller : Option Tid} (met : s.met (.incr key) = none) :
    created? (s.executed caller (.incr key)) = some key := by
  unfold created? State.executed
  rw [met]

/-- The key whose counter the request has created with its last command. -/
def owed (t : Tid) (s : State) : Option String := (own t s).head?.bind created?

theorem owed_rely (step : Rely t s s') : owed t s' = owed t s := by
  unfold owed
  rw [step.own]

theorem owed_fresh (fresh : own t s = []) : owed t s = none := by
  unfold owed
  rw [fresh]
  rfl

theorem owed_after (t : Tid) (c : Command) (s : State) :
    owed t (s.after t c) = created? (s.executed (some t) c) := by
  unfold owed
  rw [own_after]
  rfl

/-! ### The runs -/

/-- Whether an operation is an `EXPIRE`. -/
def isExpire : Operation → Bool
  | .redis (.expire _ _) => true
  | _ => false

/-- Every `EXPIRE` is executed at once, nobody dies owing one, no command whose caller has got an
error creates a counter, and nobody else writes such a key.  A counter without a time to live then
always has somebody who is about to give it one. -/
def paid (ctx : RateLimitContext) : Regime (machine ctx) where
  advance _ c o _ := isExpire o = true → ∀ fault, c = .redis fault → fault = .none
  event e s := (∀ position, e = .land position → ∀ key,
      s.base.server.inFlight[position]? = some (.incr key) → s.met (.incr key) ≠ none) ∧
    ∀ key counter, e = .write key counter → ∀ seconds, ¬ Abuse ctx key seconds
  crash t s := owed t s = none

/-- Where a request stands before a command. -/
def Paying (ctx : RateLimitContext) (t : Tid) : Operation → State → Prop
  | .redis (.expire key seconds), s => Abuse ctx key seconds ∧ ∀ key' ∈ owed t s, key' = key
  | .redis _, s => owed t s = none
  | _, _ => True

/-! ### The counters -/

/-- A counter has at most that long to live. -/
def Lasts (ctx : RateLimitContext) (seconds : ℤ) (s : State) (c : Counter) : Prop :=
  ∃ moment ∈ c.expiresAt, moment ≤ s.base.clock + seconds * 1000

/-- Every counter has a time to live, or somebody owes it one. -/
structure Paid (ctx : RateLimitContext) (s : State) : Prop where
  inFlight : ∀ key seconds, .expire key seconds ∉ s.base.server.inFlight
  counters : ∀ key seconds, Abuse ctx key seconds → ∀ c ∈ s.base.server.store key,
    Lasts ctx seconds s c ∨ ∃ t, owed t s = some key

theorem Lasts.later {c : Counter} (h : Lasts ctx seconds s c)
    (clock : s.base.clock ≤ s'.base.clock) : Lasts ctx seconds s' c := by
  obtain ⟨moment, expires, bounded⟩ := h
  exact ⟨moment, expires, by linarith⟩

namespace Paid

/-- Nothing happens to the counters. -/
theorem same (h : Paid ctx s) (clock : s.base.clock ≤ s'.base.clock)
    (inFlight : ∀ c ∈ s'.base.server.inFlight,
      c ∈ s.base.server.inFlight ∨ ∀ key seconds, c ≠ .expire key seconds)
    (store : ∀ key seconds, Abuse ctx key seconds →
      s'.base.server.store key = s.base.server.store key)
    (own : ∀ t, owed t s' = owed t s) : Paid ctx s' := by
  refine ⟨fun key seconds mem => ?_, fun key seconds abuse c stored => ?_⟩
  · rcases inFlight _ mem with old | other
    · exact h.inFlight key seconds old
    · exact other key seconds rfl
  · rw [store key seconds abuse] at stored
    rcases h.counters key seconds abuse c stored with lasts | ⟨t, owes⟩
    · exact .inl (lasts.later clock)
    · exact .inr ⟨t, (own t).trans owes⟩

/-- A request that owes nothing counts. -/
theorem incr (h : Paid ctx s) (clear : owed t s = none) (key : String) :
    Paid ctx (s.after t (.incr key)) := by
  refine ⟨h.inFlight, fun key' seconds abuse c stored => ?_⟩
  -- whoever else owed before owes still
  have others : ∀ u, owed u s = some key' → ∃ t', owed t' (s.after t (.incr key)) = some key' := by
    intro u owes
    refine ⟨u, ?_⟩
    have other : u ≠ t := by
      rintro rfl
      rw [clear] at owes
      cases owes
    unfold owed
    rw [own_after_other other]
    exact owes
  by_cases counted : key' = key
  · subst counted
    rw [store_after_incr, Function.update_self] at stored
    cases met : s.met (.incr key') with
    | none => exact .inr ⟨t, (owed_after t _ s).trans (created?_of_met met)⟩
    | some found =>
        rw [met] at stored
        obtain rfl := Option.some.inj stored
        rcases h.counters key' seconds abuse found (stored_of_met met) with lasts | ⟨u, owes⟩
        · exact .inl lasts
        · exact .inr (others u owes)
  · have before : s.base.server.store key' = some c := by
      rw [store_after_incr, Function.update_of_ne counted] at stored
      exact stored
    rcases h.counters key' seconds abuse c before with lasts | ⟨u, owes⟩
    · exact .inl lasts
    · exact .inr (others u owes)

/-- A request pays what it owes. -/
theorem expire (h : Paid ctx s) (abuse : Abuse ctx key seconds)
    (owes : ∀ key' ∈ owed t s, key' = key) : Paid ctx (s.after t (.expire key seconds)) := by
  refine ⟨h.inFlight, fun key' seconds' abuse' c stored => ?_⟩
  by_cases payment : key' = key
  · subst payment
    obtain rfl := abuse.unique abuse'
    rw [store_after_expire, Function.update_self] at stored
    obtain ⟨found, _, rfl⟩ := Option.map_eq_some_iff.mp stored
    exact .inl ⟨_, rfl, le_rfl⟩
  · have before : s.base.server.store key' = some c := by
      rw [store_after_expire, Function.update_of_ne payment] at stored
      exact stored
    rcases h.counters key' seconds' abuse' c before with lasts | ⟨u, owes'⟩
    · exact .inl lasts
    · refine .inr ⟨u, ?_⟩
      have other : u ≠ t := by
        rintro rfl
        exact payment (owes key' owes')
      unfold owed
      rw [own_after_other other]
      exact owes'

/-- A request that owes nothing looks at a counter. -/
theorem look (h : Paid ctx s) (clear : owed t s = none) {c : Command}
    (same : (c.apply s.base.clock s.base.server.store).2 = s.base.server.store)
    (looks : ∀ key, c ≠ .incr key) : Paid ctx (s.after t c) := by
  refine h.same le_rfl (fun _ mem => .inl mem) (fun key _ _ => congrFun same key) fun u => ?_
  by_cases self : u = t
  · subst self
    rw [owed_after, clear]
    unfold created?
    split
    · rename_i incr _
      exact absurd incr (looks _)
    · rfl
  · unfold owed
    rw [own_after_other self]

/-- **A command keeps the counters.** -/
theorem command (h : Paid ctx s) {c : Command} (standing : Paying ctx t (.redis c) s) :
    Paid ctx (s.after t c) := by
  cases c with
  | get key => exact h.look standing rfl nofun
  | ttl key => exact h.look standing rfl nofun
  | incr key => exact h.incr standing key
  | expire key seconds => exact h.expire standing.1 standing.2

end Paid

namespace Paid

/-- **An operation keeps the counters.** -/
theorem operation (h : Paid ctx s) {c : Choice} {o : Operation} {r : o.Reply}
    (standing : Paying ctx t o s) (allowed : (paid ctx).advance t c o s)
    (done : exec ctx t c o s = some (r, s')) : Paid ctx s' := by
  by_cases command : ∃ c, o = .redis c
  · obtain ⟨command, rfl⟩ := command
    obtain ⟨_, _, rfl⟩ | ⟨fault, rfl, faulty, _, clock, store, log, inFlight⟩ := exec_redis done
    · exact h.command standing
    · refine h.same (le_of_eq clock.symm) (fun c mem => ?_) (fun key _ _ => congrFun store key)
        fun u => owed_rely (.of_same log clock)
      rcases inFlight with old | ⟨_, new⟩
      · exact .inl (old ▸ mem)
      · rw [new] at mem
        rcases List.mem_cons.mp mem with rfl | old
        · refine .inr fun key seconds same => faulty ?_
          subst same
          exact allowed rfl fault rfl
        · exact .inl old
  · obtain ⟨server, clock, log⟩ := exec_aside (fun c same => command ⟨c, same⟩) done
    exact h.same (le_of_eq clock.symm) (fun _ mem => .inl (server ▸ mem))
      (fun _ _ _ => by rw [server]) fun u => owed_rely (.of_same log clock)

/-- A command whose caller has got an error is executed. -/
theorem land (h : Paid ctx s) {position : ℕ} (allowed : (paid ctx).event (.land position) s)
    (happens : s.event (.land position) = some s') : Paid ctx s' := by
  have owes : ∀ u, owed u s' = owed u s := fun u => owed_rely (rely_of_event happens)
  obtain ⟨base, landed, rfl⟩ := Option.map_eq_some_iff.mp happens
  obtain ⟨server, executed, rfl⟩ := Option.map_eq_some_iff.mp landed
  obtain ⟨c, waiting, rfl⟩ := Option.map_eq_some_iff.mp executed
  have mem : c ∈ s.base.server.inFlight := List.mem_of_getElem? waiting
  refine ⟨fun key seconds left => h.inFlight key seconds (List.mem_of_mem_eraseIdx left), ?_⟩
  intro key seconds abuse counter stored
  change counter ∈ (c.apply s.base.clock s.base.server.store).2 key at stored
  -- a counter that was there has kept its moment of expiry
  have kept : ∃ old ∈ s.base.server.store key, counter.expiresAt = old.expiresAt := by
    cases c with
    | get key' => exact ⟨counter, stored, rfl⟩
    | ttl key' => exact ⟨counter, stored, rfl⟩
    | expire key' seconds' => exact absurd mem (h.inFlight key' seconds')
    | incr key' =>
        by_cases counted : key = key'
        · subst counted
          obtain ⟨found, met⟩ := Option.ne_none_iff_exists'.mp (allowed.1 position rfl key waiting)
          have updated := (Function.update_self _ _ _).symm.trans stored
          rw [show live s.base.clock s.base.server.store key = some found from met] at updated
          refine ⟨found, stored_of_met met, ?_⟩
          rw [← Option.some.inj updated]
          rfl
        · exact ⟨counter, (Function.update_of_ne counted _ _).symm.trans stored, rfl⟩
  obtain ⟨old, before, expires⟩ := kept
  rcases h.counters key seconds abuse old before with ⟨moment, same, bounded⟩ | ⟨u, owing⟩
  · exact .inl ⟨moment, expires ▸ same, bounded⟩
  · exact .inr ⟨u, (owes u).trans owing⟩

/-- **What happens beside the requests keeps the counters.** -/
theorem event (h : Paid ctx s) {e : Event} (allowed : (paid ctx).event e s)
    (happens : s.event e = some s') : Paid ctx s' := by
  cases e with
  | tick =>
      cases happens
      exact h.same (Int.le_add_one le_rfl) (fun _ mem => .inl mem) (fun _ _ _ => rfl) fun _ => rfl
  | land position => exact h.land allowed happens
  | write key counter =>
      cases happens
      refine h.same le_rfl (fun _ mem => .inl mem) (fun key' seconds abuse => ?_) fun _ => rfl
      refine Function.update_of_ne ?_ _ _
      rintro rfl
      exact allowed.2 key' counter rfl seconds abuse

end Paid

/-! ### A request -/

/-- The task ends owing nothing. -/
def Pays (ctx : RateLimitContext) (t : Tid) {α : Type} (task : Route α) (s : State) : Prop :=
  ((discipline ctx (Paying ctx)).contract (paid ctx) t).Holds (M := machine ctx)
    (fun _ s' => owed t s' = none) (fun _ s' => owed t s' = none) task s

namespace Pays

variable {α β : Type}

theorem ended (clear : owed t s = none) (step : True ∧ Rely t s s') : owed t s' = none :=
  (owed_rely step.2).trans clear

/-- Sequencing. -/
theorem bind {p : Route α} {f : α → Route β} (h : Pays ctx t p s)
    (next : ∀ a s', owed t s' = none → Pays ctx t (f a) s') : Pays ctx t (p.bind f) s :=
  Contract.Holds.chain h ⟨trivial, .refl _ _⟩ fun a s' clear _ => next a s' clear

/-- A request that owes nothing, and sends no command. -/
theorem only {task : Route α} (only : task.Only NoCommand) (clear : owed t s = none) :
    Pays ctx t task s := by
  refine holds_only (I := fun own => own.head?.bind created? = none) only clear ?_
  intro o _ aside _
  cases o with
  | redis c => exact absurd rfl (aside c)
  | _ => trivial

theorem done {a : α} (clear : owed t s = none) : Pays ctx t (.done a) s :=
  only trivial clear

/-- A request that owes nothing sends a command. -/
theorem command {c : Command} {f : c.Reply → Route α} (clear : owed t s = none)
    (free : isExpire (.redis c) = false)
    (next : ∀ s', Rely t s s' →
      Pays ctx t (f (c.apply s'.base.clock s'.base.server.store).1) (s'.after t c)) :
    Pays ctx t ((AuthRoutes.redis c).bind f) s := by
  have standing : ∀ s', Rely t s s' → Paying ctx t (.redis c) s' := by
    intro s' step
    have here := (owed_rely step).trans clear
    cases c with
    | expire key seconds => cases free
    | get key => exact here
    | incr key => exact here
    | ttl key => exact here
  refine holds_redis standing (fun s' step _ => next s' step) ?_
  intro _ _ s' _ _ _ step s'' later
  exact ended ((owed_rely step).trans clear) later

/-- What follows an `INCR`: whoever has been answered by 1 sets the time to live. -/
theorem expireIfFirst (abuse : Abuse ctx key seconds) :
    Pays ctx t (if ((s.met (.incr key)).getD ⟨0, none⟩).value + 1 = 1 then
      (AuthRoutes.redis (.expire key seconds)).bind fun _ => .done ()
    else .done ()) (s.after t (.incr key)) := by
  split
  · refine holds_redis (fun s' step => ⟨abuse, fun key' owes => ?_⟩) (fun s' _ _ => ?_) ?_
    · rw [owed_rely step, owed_after] at owes
      revert owes
      unfold created? State.executed
      split
      · rename_i incr _
        intro owes
        cases incr
        exact (Option.some.inj owes).symm
      · nofun
    · exact done (owed_after t _ s')
    · intro fault _ _ _ faulty allowed _
      exact absurd (allowed rfl fault rfl) faulty
  · rename_i later
    refine done ?_
    rw [owed_after]
    unfold created? State.executed
    split
    · rename_i first
      refine absurd ?_ later
      rw [show s.met (.incr key) = none from first]
      rfl
    · rfl

/-- A failed login is counted. -/
theorem countClientFailure (clientId : String) (clear : owed t s = none) :
    Pays ctx t (AuthRoutes.countClientFailure ctx.auth (failedIpKey clientId)) s :=
  command clear rfl fun _ _ => expireIfFirst (.failedIp clientId)

/-- A request is counted. -/
theorem limitByKey (clientId : String) (bucket : ℤ) (clear : owed t s = none) :
    Pays ctx t (RateLimit.limitByKey ctx (rateKey clientId bucket)) s := by
  refine command clear rfl fun s₁ _ => ?_
  refine (expireIfFirst (.rate clientId bucket)).bind fun _ s₂ clear₂ => ?_
  exact command clear₂ rfl fun s₃ _ => done (owed_after t _ s₃)

end Pays

namespace Pays

theorem enforceRateLimit (request : LimitedRequest) (clear : owed t s = none) :
    Pays ctx t (RateLimit.enforceRateLimit ctx request) s := by
  unfold RateLimit.enforceRateLimit
  split
  · exact done clear
  · refine bind (only ⟨nofun, fun _ => trivial⟩ clear) fun ms s₁ clear₁ => ?_
    refine Contract.Holds.attempt ?_ ⟨trivial, .refl _ _⟩
    exact (limitByKey _ _ clear₁).mono (fun _ _ here => here) fun _ _ here _ => done here

theorem rejectLogin (clientId : String) (user : Option UserRow)
    (clear : owed t s = none) :
    Pays ctx t (AuthRoutes.rejectLogin ctx.auth (failedIpKey clientId) user) s := by
  refine (countClientFailure clientId clear).bind fun _ s₁ clear₁ => ?_
  cases user with
  | some user =>
      exact only ((countAccountFailure_noCommand ctx.auth user).bind fun _ => trivial) clear₁
  | none => exact done clear₁

theorem login (client : ClientRequest) (body : Except String Credentials)
    (clear : owed t s = none) : Pays ctx t (AuthRoutes.login ctx.auth client body) s := by
  cases body with
  | error message => exact done clear
  | ok body =>
      refine command clear rfl fun s₁ _ => ?_
      set ipKey := failedIpKey (AuthRoutes.getClientIdentifier client ctx.auth.config)
      have clear₁ : owed t (s₁.after t (.get ipKey)) = none := owed_after t _ s₁
      split
      · exact done clear₁
      · refine bind (only (query_noCommand _) clear₁) fun user s₂ clear₂ => ?_
        refine bind (only (isLocked_noCommand user) clear₂) fun locked s₃ clear₃ => ?_
        split
        · exact done clear₃
        · refine bind (only (passwordMatches_noCommand user _) clear₃) fun matched s₄ clear₄ => ?_
          cases user with
          | none => exact rejectLogin _ none clear₄
          | some user =>
              cases matched with
              | true => exact only (acceptLogin_noCommand ctx.auth user) clear₄
              | false => exact rejectLogin _ (some user) clear₄

theorem route (client : ClientRequest) (endpoint : Endpoint) (clear : owed t s = none) :
    Pays ctx t (RateLimit.route ctx client endpoint) s := by
  cases endpoint with
  | register body => exact only (register_noCommand ctx.auth body) clear
  | login body => exact login client body clear
  | refresh body => exact only (refresh_noCommand ctx.auth body) clear
  | logout body => exact only (logout_noCommand ctx.auth body) clear
  | other answer => exact done clear

/-- **A request ends owing nothing.** -/
theorem serve (request : ApiRequest) (clear : owed t s = none) :
    Pays ctx t (RateLimit.serve ctx request) s := by
  refine (enforceRateLimit _ clear).bind fun limit s₁ clear₁ => ?_
  split
  · exact done clear₁
  · exact route _ _ clear₁

end Pays

/-! ### Whole runs -/

section Runs

variable {s₀ : AuthRoutes.State} {p : Async.Pool (machine ctx) ApiRequest HttpResponse}

/-- The counters of a state in which no request is in progress. -/
theorem counters_of_clear (h : Paid ctx s) (clear : ∀ t, owed t s = none)
    (abuse : Abuse ctx key seconds) {c : Counter}
    (found : live s.base.clock s.base.server.store key = some c) : Lasts ctx seconds s c := by
  rcases h.counters key seconds abuse c (stored_of_met (c := .get key) found) with
    lasts | ⟨t, owes⟩
  · exact lasts
  · rw [clear t] at owes
    cases owes

/-- A counter with a time to live is gone when that is over. -/
theorem live_of_lasts
    (lasts : ∀ c, live s.base.clock s.base.server.store key = some c → Lasts ctx seconds s c)
    {later : ℤ} (passed : s.base.clock + seconds * 1000 ≤ later) (forward : s.base.clock ≤ later) :
    live later s.base.server.store key = none := by
  by_contra alive
  obtain ⟨c, found⟩ := Option.ne_none_iff_exists'.mp alive
  obtain ⟨stored, fresh⟩ := Option.filter_eq_some_iff.mp found
  have before : live s.base.clock s.base.server.store key = some c := by
    refine Option.filter_eq_some_iff.mpr ⟨stored, ?_⟩
    cases expires : c.expiresAt with
    | none => rfl
    | some moment =>
        rw [expires] at fresh
        exact decide_eq_true (lt_of_le_of_lt forward (of_decide_eq_true fresh))
  obtain ⟨moment, expires, bounded⟩ := lasts c before
  rw [Option.mem_def.mp expires] at fresh
  exact absurd (of_decide_eq_true fresh) (not_lt.mpr (le_trans bounded passed))

/-- **Counters expire.**  When every request pays what it owes, and none is in progress, every
counter has at most its window to live.

The invariant is `Paid`: a counter has a time to live, or some request owes it one.  When nothing is
in progress nobody owes anything. -/
theorem counters_expire (nothingInFlight : s₀.server.inFlight = [])
    (initially : ∀ key seconds, Abuse ctx key seconds → ∀ c ∈ s₀.server.store key,
      Lasts ctx seconds ⟨s₀, []⟩ c)
    (run : Async.Pool.Steps (paid ctx) (serve ctx) (Async.Pool.idle ⟨s₀, []⟩) p)
    (settled : p.Settled) (abuse : Abuse ctx key seconds) :
    (∀ c, live p.shared.base.clock p.shared.base.server.store key = some c →
      Lasts ctx seconds p.shared c) ∧
    ∀ later, p.shared.base.clock ≤ later → p.shared.base.clock + seconds * 1000 ≤ later →
      live later p.shared.base.server.store key = none := by
  set D := discipline ctx (Paying ctx)
  have handles : D.Handles (paid ctx) (serve ctx) (fun t _ _ s => owed t s = none)
      (fun t _ _ s => owed t s = none) :=
    fun t request s _ fresh => Pays.serve request (owed_fresh fresh)
  have initial : D.Sound (paid ctx) (fun t _ _ s => owed t s = none)
      (fun t _ _ s => owed t s = none)
      (Async.Pool.idle ⟨s₀, []⟩ : Async.Pool (machine ctx) ApiRequest HttpResponse) :=
    Discipline.sound_idle trivial fun _ => rfl
  have here : Paid ctx (⟨s₀, []⟩ : State) :=
    ⟨fun key seconds mem => List.not_mem_nil (nothingInFlight ▸ mem),
      fun key seconds abuse c stored => .inl (initially key seconds abuse c stored)⟩
  have counters : Paid ctx p.shared := by
    refine initial.invariant (I := Paid ctx) environment handles here ?_ ?_ ?_ run
    · exact fun t c o s r s' _ standing allowed done kept => kept.operation standing allowed done
    · exact fun e s s' _ allowed happens kept => kept.event allowed happens
    · exact fun _ _ _ _ kept => kept
  have clear : ∀ t, owed t p.shared = none :=
    (initial.steps environment handles run).settled settled (fun _ _ fresh => owed_fresh fresh)
      (fun _ _ _ _ here => here) (fun _ _ _ _ here => here)
      (initial.dead environment handles nofun (fun _ _ _ step here => (owed_rely step).trans here)
        (fun _ _ _ allowed => allowed) run)
  have lasts := fun c found => counters_of_clear (c := c) counters clear abuse found
  exact ⟨lasts, fun later forward passed => live_of_lasts lasts passed forward⟩

end Runs

/-! ### Worked example -/

/-- A login with an unknown email. -/
def failingLogin : ApiRequest :=
  ⟨"/v1/auth/login", ⟨fun _ => .missing, "203.0.113.7"⟩,
    .login (.ok ⟨"bob@example.com", "correct horse battery"⟩)⟩

/-- A failing login up to the last command. -/
def loginMoves (t : Tid) : List (Async.Move (machine limitContext) ApiRequest) :=
  [.start t failingLogin, .advance t .succeeds, .advance t (.redis .none),
    .advance t (.redis .none), .advance t (.redis .none), .advance t (.redis .none),
    .advance t .succeeds, .advance t (.redis .none)]

theorem paid_of_flawless {s₀ : State} {p : Async.Pool (machine ctx) ApiRequest HttpResponse}
    (run : Async.Pool.Steps (flawless ctx) (serve ctx) (Async.Pool.idle s₀) p) :
    Async.Pool.Steps (paid ctx) (serve ctx) (Async.Pool.idle s₀) p := by
  refine Async.Pool.Steps.mono (fun _ _ _ _ allowed _ => flawless_redis allowed) ?_
    (fun _ _ impossible => False.elim impossible) run
  rintro e s rfl
  constructor <;> nofun

/-- The failed login of a client is forgotten after a minute. -/
theorem counters_expire_of_login :
    ∃ p, Async.Pool.Steps (paid limitContext) (serve limitContext)
        (Async.Pool.idle ⟨AuthRoutes.oneAccountState, []⟩) p ∧ p.Settled ∧
      live 0 p.shared.base.server.store (failedIpKey "203.0.113.7") = some ⟨1, some 60000⟩ ∧
      ∀ later : ℤ, 60000 ≤ later →
        live later p.shared.base.server.store (failedIpKey "203.0.113.7") = none := by
  obtain ⟨p, met, free, below, clock, counted⟩ := Async.Pool.stepsWhere_of_check
    (flawless limitContext) (C := fun _ _ => True) (fun _ _ => True) (serve limitContext) 1
    (fun _ _ _ _ => trivial) ⟨AuthRoutes.oneAccountState, []⟩
    (loginMoves 0 ++ [.advance 0 (.redis .none)])
    (fun p => (∀ t : ℕ, t < 1 → (p.slot t).isSettled = true) ∧ p.shared.base.clock = 0 ∧
      live 0 p.shared.base.server.store (failedIpKey "203.0.113.7") = some ⟨1, some 60000⟩)
    (by decide)
  have run := paid_of_flawless met.steps
  have settled := free.settled below
  refine ⟨p, run, settled, counted, fun later passed => ?_⟩
  have abuse : Abuse limitContext (failedIpKey "203.0.113.7") 60 := .failedIp _
  have gone := (counters_expire rfl (fun _ _ _ _ stored => by cases stored) run settled abuse).2
  refine gone later ?_ ?_
  · rw [clock]
    omega
  · rw [clock]
    omega

/-- Nothing fails but the `EXPIRE` behind a failed login. -/
def expireRefused : Regime (machine limitContext) where
  advance _ c o _ := c ≠ .redis .late ∧
    (c = .redis .refused → o = .redis (.expire (failedIpKey "203.0.113.7") 60))
  event e _ := e = .tick
  crash _ _ := False

instance (t : Tid) (c : Choice) (o : Operation) (s : State) :
    Decidable (expireRefused.advance t c o s) :=
  inferInstanceAs (Decidable (c ≠ .redis .late ∧
    (c = .redis .refused → o = .redis (.expire (failedIpKey "203.0.113.7") 60))))

instance (e : Event) (s : State) : Decidable (expireRefused.event e s) :=
  inferInstanceAs (Decidable (e = .tick))

instance (t : Tid) (s : State) : Decidable (expireRefused.crash t s) :=
  inferInstanceAs (Decidable False)

/-- **A counter that nothing removes.**  One `EXPIRE` is refused, and the failed login stays counted
however much time passes. -/
theorem counter_stays :
    ∃ p, Async.Pool.Steps expireRefused (serve limitContext)
        (Async.Pool.idle ⟨AuthRoutes.oneAccountState, []⟩) p ∧ p.Settled ∧
      Abuse limitContext (failedIpKey "203.0.113.7") 60 ∧
      ∀ later,
        live later p.shared.base.server.store (failedIpKey "203.0.113.7") = some ⟨1, none⟩ := by
  obtain ⟨p, met, free, below, stored⟩ := Async.Pool.stepsWhere_of_check
    expireRefused (C := fun _ _ => True) (fun _ _ => True) (serve limitContext) 1
    (fun _ _ _ _ => trivial) ⟨AuthRoutes.oneAccountState, []⟩
    (loginMoves 0 ++ [.advance 0 (.redis .refused)])
    (fun p => (∀ t : ℕ, t < 1 → (p.slot t).isSettled = true) ∧
      p.shared.base.server.store (failedIpKey "203.0.113.7") = some ⟨1, none⟩)
    (by decide)
  refine ⟨p, met.steps, free.settled below, .failedIp _, fun later => ?_⟩
  unfold live
  rw [stored]
  rfl

end RateLimit

end OrderPlatform
