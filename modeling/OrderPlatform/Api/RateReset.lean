import OrderPlatform.Api.RateWindow
import OrderPlatform.Async.Evaluation

/-!
# What a client is told about the next window

`X-RateLimit-Reset` and `Retry-After` are the time to live of the counter, which begins with the
first request of the window bucket; the bucket itself ends at a multiple of the window.  So the header
is late by what the first request was behind the beginning of the bucket, and it is right only when
the rounding makes up for that (`reset_iff`).

Requests come one after another, each at a moment of its own, and Redis does not fail (`Visits`).
What Redis holds of a bucket is then determined by the moment of its first request (`Anchored`).
-/

namespace OrderPlatform

namespace RateLimit

open Async (Tid Evaluates Performed Contract)
open AuthRoutes (AuthError Choice Operation getClientIdentifier)
open Counters (Command Counter Fault live secondsLeft)
open RedisKeys (rateKey_inj)

variable {ctx : RateLimitContext} {t : Tid} {s s' s₀ : State}

/-! ### Requests at their moments -/

/-- A request that was answered, and when. -/
structure Visit where
  request : LimitedRequest
  moment : ℤ
  limit : Limit

/-- Redis does not fail. -/
def Healthy (log : List (Performed (machine ctx))) : Prop :=
  ∀ x ∈ log, ∀ fault, x.choice = .redis fault → fault = .none

/-- Requests that come one after another, latest first.  Between them time passes, and whatever else
uses Redis leaves the rate keys alone. -/
inductive Visits (ctx : RateLimitContext) (s₀ : State) : List Visit → State → Prop
  | none : Visits ctx s₀ [] s₀
  | elapse {visits : List Visit} {s s' : State} (earlier : Visits ctx s₀ visits s)
      (clock : s.base.clock ≤ s'.base.clock)
      (keys : ∀ clientId bucket, s'.base.server.store (rateKey clientId bucket) =
        s.base.server.store (rateKey clientId bucket)) : Visits ctx s₀ visits s'
  | visit {visits : List Visit} {s s' : State} {t : Tid} {request : LimitedRequest} {limit : Limit}
      {log : List (Performed (machine ctx))} (earlier : Visits ctx s₀ visits s)
      (answers : Evaluates (M := machine ctx) t (enforceRateLimit ctx request) s log (.ok limit) s')
      (healthy : Healthy log) : Visits ctx s₀ (⟨request, s.base.clock, limit⟩ :: visits) s'

/-- The client under which the visit is counted. -/
def Visit.client (ctx : RateLimitContext) (v : Visit) : String :=
  getClientIdentifier v.request.client ctx.auth.config

/-- The window that the visit falls into. -/
def Visit.bucket (ctx : RateLimitContext) (v : Visit) : ℤ :=
  windowBucket ctx.rateLimitWindowSeconds v.moment

/-- The request was counted in a bucket of a client. -/
def Visit.isIn (ctx : RateLimitContext) (clientId : String) (bucket : ℤ) (v : Visit) : Bool :=
  !isExempt v.request && decide (v.client ctx = clientId) && decide (v.bucket ctx = bucket)

/-- The moment of the first request of a bucket. -/
def firstMoment (ctx : RateLimitContext) (clientId : String) (bucket : ℤ) : List Visit → Option ℤ
  | [] => .none
  | v :: earlier => (firstMoment ctx clientId bucket earlier).or
      (if v.isIn ctx clientId bucket then some v.moment else .none)

/-! ### One request -/

/-- The operations of a request that nobody disturbs, where Redis does not fail. -/
abbrev untroubled (ctx : RateLimitContext) (t : Tid) : Contract (machine ctx) :=
  Contract.alone t fun c _ _ => ∀ fault, c = .redis fault → fault = .none

section Rules

variable {α : Type} {Q : α → State → Prop} {E : AuthError → State → Prop}

theorem alone_now {f : ℤ → (machine ctx).Task α}
    (next : ∀ s', s'.base.server = s.base.server → s'.base.clock = s.base.clock →
      (untroubled ctx t).Holds Q E (f s.base.clock) s') :
    (untroubled ctx t).Holds Q E (AuthRoutes.now.bind f) s := by
  refine Contract.alone_await fun c r s' _ done => ?_
  obtain ⟨server, clock, _⟩ := exec_aside (fun _ other => by cases other) done
  obtain rfl := exec_now done
  exact next s' server clock

theorem alone_command {c : Command} {f : c.Reply → (machine ctx).Task α}
    (next : (untroubled ctx t).Holds Q E (f (c.apply s.base.clock s.base.server.store).1)
      (s.after t c)) : (untroubled ctx t).Holds Q E ((AuthRoutes.redis c).bind f) s := by
  refine Contract.alone_await fun choice r s' allowed done => ?_
  obtain ⟨rfl, rfl, rfl⟩ | ⟨fault, rfl, faulty, _⟩ := exec_redis done
  · exact next
  · exact absurd (allowed fault rfl) faulty

end Rules

theorem secondsLeft_eq {now moment : ℤ} {c : Counter} (expires : c.expiresAt = some moment) :
    secondsLeft now (some c) = (moment - now + 500) / 1000 := by
  show c.expiresAt.elim _ _ = _
  rw [expires]
  rfl

/-- What the counter of a bucket is after another request. -/
def countedAt (ctx : RateLimitContext) (now : ℤ) : Option Counter → Counter
  | .none => ⟨1, some (now + ctx.rateLimitWindowSeconds * 1000)⟩
  | some c => { c with value := c.value + 1 }

/-- The counter of a bucket that has not ended: there is none, or it was counted before, and it
expires. -/
def Going (now : ℤ) (c : Option Counter) : Prop :=
  ∀ counter ∈ c, 1 ≤ counter.value ∧ ∃ moment, counter.expiresAt = some moment ∧ now < moment

theorem live_eq_of_going {now : ℤ} {store : Counters.Store} {key : String}
    (going : Going now (store key)) : live now store key = store key := by
  unfold live
  cases stored : store key with
  | none => rfl
  | some c =>
      obtain ⟨_, moment, expires, ahead⟩ := going c stored
      refine Option.filter_some.trans (if_pos ?_)
      rw [expires]
      exact decide_eq_true ahead

theorem going_countedAt {now : ℤ} (positive : 1 ≤ ctx.rateLimitWindowSeconds) {c : Option Counter}
    (going : Going now c) : Going now (some (countedAt ctx now c)) := by
  rintro counter ⟨⟩
  cases c with
  | none => exact ⟨le_rfl, _, rfl, by linarith⟩
  | some c =>
      obtain ⟨value, moment, expires, ahead⟩ := going c rfl
      exact ⟨by show 1 ≤ c.value + 1; linarith, moment, expires, ahead⟩

/-- The request is counted, and the first one gives the counter its time to live. -/
theorem holds_counted {key : String} (going : Going s.base.clock (s.base.server.store key)) :
    (untroubled ctx t).Holds
      (fun _ s' => s'.base.clock = s.base.clock ∧ s'.base.server.store =
        Function.update s.base.server.store key
          (some (countedAt ctx s.base.clock (s.base.server.store key))))
      (fun _ _ => False)
      (if ((live s.base.clock s.base.server.store key).getD ⟨0, none⟩).value + 1 = 1 then
        (AuthRoutes.redis (.expire key ctx.rateLimitWindowSeconds)).bind fun _ => .done ()
      else .done () : AuthRoutes.Route Unit) (s.after t (.incr key)) := by
  have found := live_eq_of_going going
  have met : s.met (.incr key) = s.base.server.store key := found
  have stored := store_after_incr t key s
  rw [met] at stored
  rw [found]
  cases known : s.base.server.store key with
  | none =>
      rw [known] at stored
      rw [if_pos (show ((Option.none : Option Counter).getD ⟨0, none⟩).value + 1 = 1 from rfl)]
      refine alone_command (Contract.alone_done ⟨rfl, ?_⟩)
      rw [store_after_expire]
      have here : (s.after t (.incr key)).met (.expire key ctx.rateLimitWindowSeconds) =
          some ⟨1, none⟩ := by
        show live _ _ key = _
        unfold live
        rw [stored, Function.update_self]
        rfl
      rw [here, stored, Function.update_idem]
      rfl
  | some c =>
      rw [known] at stored
      have several : ¬ ((some c).getD ⟨0, none⟩).value + 1 = 1 := by
        have value := (going c known).1
        show ¬ c.value + 1 = 1
        linarith
      rw [if_neg several]
      exact Contract.alone_done ⟨rfl, stored⟩

/-- A request that is limited. -/
theorem holds_limited {key : String} (positive : 1 ≤ ctx.rateLimitWindowSeconds)
    (going : Going s.base.clock (s.base.server.store key)) :
    (untroubled ctx t).Holds
      (fun limit s' => s'.base.clock = s.base.clock ∧
        s'.base.server.store = Function.update s.base.server.store key
          (some (countedAt ctx s.base.clock (s.base.server.store key))) ∧
        limit = limitOf ctx (countedAt ctx s.base.clock (s.base.server.store key)).value
          (secondsLeft s.base.clock (some (countedAt ctx s.base.clock (s.base.server.store key)))))
      (fun _ _ => False) (limitByKey ctx key) s := by
  have found := live_eq_of_going going
  refine alone_command ((holds_counted going).chain rfl fun _ s₂ counted _ => ?_)
  obtain ⟨clock, store⟩ := counted
  refine alone_command (Contract.alone_done ⟨clock, store, ?_⟩)
  have count : ((live s.base.clock s.base.server.store key).getD ⟨0, none⟩).value + 1 =
      (countedAt ctx s.base.clock (s.base.server.store key)).value := by
    rw [found]
    cases s.base.server.store key <;> rfl
  have left : ((Command.ttl key).apply s₂.base.clock s₂.base.server.store).1 =
      secondsLeft s.base.clock (some (countedAt ctx s.base.clock (s.base.server.store key))) := by
    show secondsLeft _ (live _ _ key) = _
    have stored : s₂.base.server.store key =
        some (countedAt ctx s.base.clock (s.base.server.store key)) := by
      rw [store, Function.update_self]
    rw [live_eq_of_going (by rw [stored, clock]; exact going_countedAt positive going), stored, clock]
  show limitOf ctx (((live _ _ key).getD ⟨0, none⟩).value + 1) _ = _
  rw [count, left]

/-- What the hook does with a request that is limited. -/
theorem holds_hook {request : LimitedRequest} (limited : isExempt request = false)
    (positive : 1 ≤ ctx.rateLimitWindowSeconds) {key : String}
    (named : key = rateKey (getClientIdentifier request.client ctx.auth.config)
      (windowBucket ctx.rateLimitWindowSeconds s.base.clock))
    (going : Going s.base.clock (s.base.server.store key)) :
    (untroubled ctx t).Holds
      (fun limit s' => s'.base.clock = s.base.clock ∧
        s'.base.server.store = Function.update s.base.server.store key
          (some (countedAt ctx s.base.clock (s.base.server.store key))) ∧
        limit = limitOf ctx (countedAt ctx s.base.clock (s.base.server.store key)).value
          (secondsLeft s.base.clock (some (countedAt ctx s.base.clock (s.base.server.store key)))))
      (fun _ _ => False) (enforceRateLimit ctx request) s := by
  unfold enforceRateLimit
  rw [if_neg (ne_true_of_eq_false limited)]
  refine alone_now fun s₁ server clock => ?_
  rw [← server, ← clock] at going ⊢
  have goes := holds_limited (t := t) positive going
  rw [named, clock] at goes ⊢
  refine Contract.Holds.attempt (goes.mono (fun _ _ known => known) ?_) rfl
  exact fun _ _ impossible => impossible.elim

/-! ### The counter of a bucket -/

/-- The counter of a bucket lasts a window from the moment of the first request. -/
inductive Anchored (ctx : RateLimitContext) (bucket : ℤ) : Option ℤ → Option Counter → Prop
  | absent : Anchored ctx bucket none none
  | present {c : Counter} {first : ℤ} (value : 1 ≤ c.value)
      (expires : c.expiresAt = some (first + ctx.rateLimitWindowSeconds * 1000))
      (begun : bucketStart ctx bucket ≤ first) : Anchored ctx bucket (some first) (some c)

section Anchors

variable {clientId : String} {bucket now : ℤ} {first : Option ℤ} {c : Option Counter}

/-- The counter is there until the bucket ends. -/
theorem Anchored.going (h : Anchored ctx bucket first c) (lasting : now < bucketEnd ctx bucket) :
    Going now c := by
  rintro counter rfl
  cases h with
  | present value expires begun =>
      rw [bucketEnd_eq] at lasting
      exact ⟨value, _, expires, by linarith⟩

theorem Anchored.expires {counter : Counter} (h : Anchored ctx bucket first (some counter)) :
    ∃ moment, first = some moment ∧
      counter.expiresAt = some (moment + ctx.rateLimitWindowSeconds * 1000) := by
  cases h with
  | present value expires begun => exact ⟨_, rfl, expires⟩

/-- Another request is counted. -/
theorem Anchored.next (h : Anchored ctx bucket first c) (begun : bucketStart ctx bucket ≤ now) :
    Anchored ctx bucket (first.or (some now)) (some (countedAt ctx now c)) := by
  cases h with
  | absent => exact .present le_rfl rfl begun
  | present value expires begun =>
      refine .present ?_ expires begun
      show 1 ≤ _ + 1
      linarith

/-- A request elsewhere is of no concern. -/
theorem firstMoment_other {v : Visit} {earlier : List Visit} (other : v.isIn ctx clientId bucket = false) :
    firstMoment ctx clientId bucket (v :: earlier) = firstMoment ctx clientId bucket earlier := by
  show (firstMoment _ _ _ _).or _ = _
  rw [other, if_neg Bool.false_ne_true, Option.or_none]

theorem firstMoment_own {v : Visit} {earlier : List Visit} (limited : isExempt v.request = false) :
    firstMoment ctx (v.client ctx) (v.bucket ctx) (v :: earlier) =
      (firstMoment ctx (v.client ctx) (v.bucket ctx) earlier).or (some v.moment) := by
  have own : v.isIn ctx (v.client ctx) (v.bucket ctx) = true := by
    unfold Visit.isIn
    rw [limited, decide_eq_true rfl, decide_eq_true rfl]
    rfl
  show (firstMoment _ _ _ _).or _ = _
  rw [own, if_pos rfl]

theorem firstMoment_of_pair (v v₁ : Visit) (limited : isExempt v.request = false)
    (limited₁ : isExempt v₁.request = false) (client : v₁.client ctx = v.client ctx)
    (bucket : v₁.bucket ctx = v.bucket ctx) :
    firstMoment ctx (v.client ctx) (v.bucket ctx) [v, v₁] = some v₁.moment := by
  rw [firstMoment_own limited, ← client, ← bucket, firstMoment_own limited₁]
  rfl

end Anchors

/-- What is known of a request that was limited. -/
def Announced (ctx : RateLimitContext) (v : Visit) (earlier : List Visit) : Prop :=
  ∃ first count, firstMoment ctx (v.client ctx) (v.bucket ctx) (v :: earlier) = some first ∧
    v.limit = limitOf ctx count
      ((first + ctx.rateLimitWindowSeconds * 1000 - v.moment + 500) / 1000)

/-- **One request.** -/
theorem anchored_visit (positive : 1 ≤ ctx.rateLimitWindowSeconds) {visits : List Visit}
    (here : ∀ clientId bucket, Anchored ctx bucket (firstMoment ctx clientId bucket visits)
      (s.base.server.store (rateKey clientId bucket)))
    {request : LimitedRequest} {limit : Limit} {log : List (Performed (machine ctx))}
    (answers : Evaluates (M := machine ctx) t (enforceRateLimit ctx request) s log (.ok limit) s')
    (healthy : Healthy log) :
    (∀ clientId bucket, Anchored ctx bucket
        (firstMoment ctx clientId bucket (⟨request, s.base.clock, limit⟩ :: visits))
        (s'.base.server.store (rateKey clientId bucket))) ∧
      (isExempt request = false → Announced ctx ⟨request, s.base.clock, limit⟩ visits) := by
  set v : Visit := ⟨request, s.base.clock, limit⟩ with visited
  by_cases exempt : isExempt request = true
  -- an exempt request touches no counter
  · unfold enforceRateLimit at answers
    rw [if_pos exempt] at answers
    obtain ⟨_, _, rfl⟩ := answers.done_inv
    refine ⟨fun clientId bucket => ?_, fun limited => ?_⟩
    · rw [firstMoment_other]
      · exact here clientId bucket
      · show (!isExempt request && _ && _) = false
        rw [exempt]
        rfl
    · rw [limited] at exempt
      cases exempt
  -- any other moves the counter of its own window, and no other counter
  · have limited := eq_false_of_ne_true exempt
    have inside := (@windowBucket_iff _ _ positive s.base.clock).mp rfl
    have own := here (v.client ctx) (v.bucket ctx)
    have named : rateKey (v.client ctx) (v.bucket ctx) =
      rateKey (getClientIdentifier request.client ctx.auth.config)
        (windowBucket ctx.rateLimitWindowSeconds s.base.clock) := rfl
    obtain ⟨goes, _⟩ := (holds_hook (t := t) limited positive named (own.going inside.2)).evaluates
      answers healthy
    obtain ⟨_, store, said⟩ := goes limit rfl
    have next := own.next inside.1
    rw [← firstMoment_own (v := v) limited] at next
    constructor
    · intro clientId bucket
      rw [store]
      by_cases same : rateKey clientId bucket = rateKey (v.client ctx) (v.bucket ctx)
      · obtain ⟨rfl, rfl⟩ := rateKey_inj same
        rw [Function.update_self]
        exact next
      · rw [Function.update_of_ne same, firstMoment_other]
        · exact here clientId bucket
        · by_contra counted
          have counted := eq_true_of_ne_false counted
          unfold Visit.isIn at counted
          rw [Bool.and_eq_true, Bool.and_eq_true, decide_eq_true_iff, decide_eq_true_iff] at counted
          exact same (by rw [counted.1.2, counted.2])
    · intro _
      obtain ⟨first, began, expires⟩ := next.expires
      rw [secondsLeft_eq expires] at said
      exact ⟨first, _, began, said⟩

/-! ### Runs -/

/-- **What Redis holds of every bucket**, and what every request was told. -/
theorem anchored_of_visits (positive : 1 ≤ ctx.rateLimitWindowSeconds)
    (empty : ∀ clientId bucket, s₀.base.server.store (rateKey clientId bucket) = none)
    {visits : List Visit} (run : Visits ctx s₀ visits s) :
    (∀ clientId bucket, Anchored ctx bucket (firstMoment ctx clientId bucket visits)
        (s.base.server.store (rateKey clientId bucket))) ∧
      ∀ v earlier, v :: earlier <:+ visits → isExempt v.request = false →
        Announced ctx v earlier := by
  induction run with
  | none =>
      refine ⟨fun clientId bucket => ?_, fun v earlier suffix => ?_⟩
      · rw [empty]
        exact .absent
      · cases List.suffix_nil.mp suffix
  | elapse earlier clock keys ih =>
      refine ⟨fun clientId bucket => ?_, ih.2⟩
      rw [keys]
      exact ih.1 clientId bucket
  | visit earlier answers healthy ih =>
      obtain ⟨next, announced⟩ := anchored_visit positive ih.1 answers healthy
      refine ⟨next, fun v earlier suffix limited => ?_⟩
      rcases List.suffix_cons_iff.mp suffix with same | before
      · cases same
        exact announced limited
      · exact ih.2 v earlier before limited

/-- The whole seconds from a moment until its bucket ends, rounded up, and at least 1. -/
def secondsToEnd (ctx : RateLimitContext) (moment : ℤ) : ℤ :=
  max ((bucketEnd ctx (windowBucket ctx.rateLimitWindowSeconds moment) - moment + 999) / 1000) 1

/-- What a response says about the next window. -/
def AnnouncesEnd (ctx : RateLimitContext) (v : Visit) : Prop :=
  v.limit.headers.lookup "X-RateLimit-Reset" = some (toString (secondsToEnd ctx v.moment)) ∧
    ∀ value, v.limit.headers.lookup "Retry-After" = some value →
      value = toString (secondsToEnd ctx v.moment)

/-- The delay of the first request is what the rounding makes up for: `delay` is how long the bucket
had begun, `left` how long it still lasts, in milliseconds. -/
def RoundsAway (delay left : ℤ) : Prop :=
  (-left % 1000 ≤ delay + 500 ∧ delay < -left % 1000 + 500) ∨ (left ≤ 1000 ∧ left + delay < 500)

theorem roundsAway_iff {delay left : ℤ} (lasting : 0 < left) (late : 0 ≤ delay) :
    max ((delay + left + 500) / 1000) 1 = max ((left + 999) / 1000) 1 ↔ RoundsAway delay left := by
  unfold RoundsAway
  omega

theorem lookup_limitOf (ctx : RateLimitContext) (count ttl : ℤ) :
    (limitOf ctx count ttl).headers.lookup "X-RateLimit-Reset" = some (toString (max ttl 1)) ∧
      ∀ value, (limitOf ctx count ttl).headers.lookup "Retry-After" = some value →
        value = toString (max ttl 1) := by
  unfold limitOf
  dsimp only
  split
  · refine ⟨rfl, fun value found => ?_⟩
    exact (Option.some.inj found).symm
  · exact ⟨rfl, nofun⟩

theorem bucketStart_le_of_firstMoment (positive : 1 ≤ ctx.rateLimitWindowSeconds)
    {clientId : String} {bucket first : ℤ} {visits : List Visit}
    (began : firstMoment ctx clientId bucket visits = some first) : bucketStart ctx bucket ≤ first := by
  induction visits with
  | nil => cases began
  | cons v earlier ih =>
      by_cases counted : v.isIn ctx clientId bucket = true
      · have whole : (firstMoment ctx clientId bucket earlier).or (some v.moment) = some first := by
          rw [← began]
          show _ = (firstMoment _ _ _ _).or _
          rw [counted, if_pos rfl]
        rcases Option.or_eq_some_iff.mp whole with before | ⟨_, same⟩
        · exact ih before
        · obtain rfl := Option.some.inj same
          have here := (Bool.and_eq_true_iff.mp counted).2
          exact ((windowBucket_iff positive).mp (of_decide_eq_true here)).1
      · rw [firstMoment_other (eq_false_of_ne_true counted)] at began
        exact ih began

/-- **When the announced time is the time to the next window.**  Exactly when the first request of
the bucket came so soon after its beginning, or so late, that the time to live of the counter is
rounded to the same number of seconds.

The counter of a bucket is created by the first visit and gets its time to live then (`Anchored`),
so that what is announced depends on the moment of that visit. -/
theorem reset_iff (positive : 1 ≤ ctx.rateLimitWindowSeconds)
    (empty : ∀ clientId bucket, s₀.base.server.store (rateKey clientId bucket) = none)
    {visits : List Visit} (run : Visits ctx s₀ visits s) {v : Visit} {earlier : List Visit}
    (visited : v :: earlier <:+ visits) (limited : isExempt v.request = false) :
    ∃ first, firstMoment ctx (v.client ctx) (v.bucket ctx) (v :: earlier) = some first ∧
      (AnnouncesEnd ctx v ↔
        RoundsAway (first - bucketStart ctx (v.bucket ctx)) (bucketEnd ctx (v.bucket ctx) - v.moment)) := by
  obtain ⟨first, count, began, said⟩ := (anchored_of_visits positive empty run).2 v earlier visited limited
  refine ⟨first, began, ?_⟩
  have inside : bucketStart ctx (v.bucket ctx) ≤ v.moment ∧ v.moment < bucketEnd ctx (v.bucket ctx) :=
    (windowBucket_iff positive).mp rfl
  have late := bucketStart_le_of_firstMoment positive began
  have whole : first - bucketStart ctx (v.bucket ctx) + (bucketEnd ctx (v.bucket ctx) - v.moment) +
      500 = first + ctx.rateLimitWindowSeconds * 1000 - v.moment + 500 := by
    rw [bucketEnd_eq]
    ring
  have rounds := roundsAway_iff (sub_pos.mpr inside.2) (sub_nonneg.mpr late)
  rw [whole] at rounds
  obtain ⟨resets, retries⟩ := lookup_limitOf ctx count
    ((first + ctx.rateLimitWindowSeconds * 1000 - v.moment + 500) / 1000)
  rw [← said] at resets retries
  refine Iff.trans ?_ rounds
  unfold AnnouncesEnd
  rw [resets]
  constructor
  · rintro ⟨same, _⟩
    exact Int.repr_injective (Option.some.inj same)
  · intro same
    rw [same] at retries ⊢
    exact ⟨rfl, retries⟩

/-! ### Worked example -/

/-- The state in which a request comes at a moment. -/
def stateAt (moment : ℤ) : State := ⟨{ AuthRoutes.oneAccountState with clock := moment }, []⟩

/-- What a request is told, if it is answered. -/
def resetOf : Except AuthError Limit → Option String
  | .ok limit => limit.headers.lookup "X-RateLimit-Reset"
  | .error _ => none

/-- The choices of the first request of a bucket. -/
def firstChoices : List Choice := [.succeeds, .redis .none, .redis .none, .redis .none]

def nextChoices : List Choice := [.succeeds, .redis .none, .redis .none]

/-- Time passes. -/
def State.waitUntil (moment : ℤ) (s : State) : State := { s with base := { s.base with clock := moment } }

theorem healthy_of_flawless {log : List (Performed (machine ctx))}
    (h : ∀ x ∈ log, x.choice ≠ .redis .refused ∧ x.choice ≠ .redis .late) : Healthy log := by
  intro x mem fault same
  exact flawless_redis (t := 0) (o := .now) (s := stateAt 0) (h x mem) fault same

theorem exampleRequest_limited : isExempt exampleRequest = false := by decide

/-- The first request of a bucket, 59 seconds behind its beginning, is told to wait for 60 seconds
when the bucket ends in one second. -/
theorem reset_too_late :
    ∃ v s', Visits limitContext (stateAt 59000) [v] s' ∧ v.moment = 59000 ∧
      isExempt v.request = false ∧ v.limit.headers.lookup "X-RateLimit-Reset" = some "60" ∧
      secondsToEnd limitContext v.moment = 1 ∧ ¬ AnnouncesEnd limitContext v := by
  obtain ⟨log, result, s', answers, told, healthy⟩ := Async.evaluates_of_check
    (M := machine limitContext) 0 firstChoices (enforceRateLimit limitContext exampleRequest)
    (stateAt 59000) (fun log result _ => resetOf result = some "60" ∧
      ∀ x ∈ log, x.choice ≠ .redis .refused ∧ x.choice ≠ .redis .late) (by decide)
  cases result with
  | error e => cases told
  | ok limit =>
      refine ⟨_, s', .visit .none answers (healthy_of_flawless healthy), rfl,
        exampleRequest_limited, told, rfl, ?_⟩
      rintro ⟨announced, _⟩
      rw [show limit.headers.lookup "X-RateLimit-Reset" = some "60" from told] at announced
      have differ : some "60" ≠ some (toString (secondsToEnd limitContext 59000)) := by decide
      exact differ announced

/-- The moments of a window that began with a request: half of it is left, and this is announced. -/
theorem reset_iff_of_prompt_client :
    ∃ v v₁ s', Visits limitContext (stateAt 0) [v, v₁] s' ∧ v.moment = 30000 ∧
      secondsToEnd limitContext v.moment = 30 ∧ AnnouncesEnd limitContext v := by
  obtain ⟨log, result, s₁, answers, told, healthy, clock, next⟩ := Async.evaluates_of_check
    (M := machine limitContext) 0 firstChoices (enforceRateLimit limitContext exampleRequest)
    (stateAt 0) (fun log result s => (resetOf result).isSome = true ∧
      (∀ x ∈ log, x.choice ≠ .redis .refused ∧ x.choice ≠ .redis .late) ∧ s.base.clock ≤ 30000 ∧
      (Async.evaluate (M := machine limitContext) 1 (enforceRateLimit limitContext exampleRequest)
        nextChoices (s.waitUntil 30000)).any (fun x =>
          decide ((resetOf x.2.1).isSome = true ∧
            ∀ y ∈ x.1, y.choice ≠ .redis .refused ∧ y.choice ≠ .redis .late)) = true)
    (by decide)
  obtain ⟨log', result', s₂, answers', told', healthy'⟩ := Async.evaluates_of_check
    (M := machine limitContext) 1 nextChoices (enforceRateLimit limitContext exampleRequest)
    (s₁.waitUntil 30000) (fun log result _ => (resetOf result).isSome = true ∧
      ∀ y ∈ log, y.choice ≠ .redis .refused ∧ y.choice ≠ .redis .late) next
  cases result with
  | error e => cases told
  | ok limit =>
      cases result' with
      | error e => cases told'
      | ok limit' =>
          have first : Visits limitContext (stateAt 0) [⟨exampleRequest, 0, limit⟩] s₁ :=
            .visit .none answers (healthy_of_flawless healthy)
          have waited := @Visits.elapse limitContext _ _ _ (s₁.waitUntil 30000) first clock
            fun _ _ => rfl
          have run := waited.visit answers' (healthy_of_flawless healthy')
          refine ⟨_, _, s₂, run, rfl, rfl, ?_⟩
          obtain ⟨moment, began, iff⟩ := reset_iff (by decide) (fun _ _ => rfl) run List.suffix_rfl
            exampleRequest_limited
          have early : moment = 0 := by
            have pair := @firstMoment_of_pair limitContext ⟨exampleRequest, 30000, limit'⟩
              ⟨exampleRequest, 0, limit⟩ exampleRequest_limited exampleRequest_limited rfl rfl
            exact Option.some.inj (began.symm.trans pair)
          have rounds : RoundsAway (0 - bucketStart limitContext 0)
              (bucketEnd limitContext 0 - 30000) := by
            unfold RoundsAway
            decide
          rw [early] at iff
          exact iff.mpr rounds

end RateLimit

end OrderPlatform
