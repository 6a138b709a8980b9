import OrderPlatform.Async.Schedule
import OrderPlatform.Api.CounterLog
import OrderPlatform.Api.RedisKeys

/-!
# How many requests a window lets through

All API replicas share one clock and one Redis that does not fail, and every `INCR` reaches Redis
before the window bucket that its request has computed ends.  Then the counter of a bucket is there
until the bucket ends (`Enforced`): its time to live begins with the first `EXPIRE`, which is not
before the bucket has begun.  So the counts of a bucket are 1, 2, 3, …, and a request is let through
exactly when its count is within the limit (`rate_limit_exact`).

What carries the proof is that the `INCR` of a request is executed before the bucket ends that the
request has computed (`inTime`): a late `INCR` could create the counter of a bucket that is over, and
count from 1 again.
-/

namespace OrderPlatform

namespace RateLimit

open Async (Tid Discipline Regime)
open AuthRoutes (AuthError Choice ClientRequest Operation getClientIdentifier)
open Counters (Command Counter live)
open RedisKeys (rateKey_inj)

variable {ctx : RateLimitContext} {t : Tid} {s s' : State} {clientId : String} {bucket : ℤ}

/-! ### Windows -/

/-- The first millisecond of a bucket. -/
def bucketStart (ctx : RateLimitContext) (bucket : ℤ) : ℤ :=
  bucket * (1000 * ctx.rateLimitWindowSeconds)

/-- The first millisecond behind a bucket. -/
def bucketEnd (ctx : RateLimitContext) (bucket : ℤ) : ℤ :=
  (bucket + 1) * (1000 * ctx.rateLimitWindowSeconds)

theorem bucketEnd_eq (ctx : RateLimitContext) (bucket : ℤ) :
    bucketEnd ctx bucket = bucketStart ctx bucket + ctx.rateLimitWindowSeconds * 1000 := by
  unfold bucketEnd bucketStart
  ring

section Positive

variable (positive : 1 ≤ ctx.rateLimitWindowSeconds)
include positive

theorem windowBucket_iff {ms : ℤ} : windowBucket ctx.rateLimitWindowSeconds ms = bucket ↔
    bucketStart ctx bucket ≤ ms ∧ ms < bucketEnd ctx bucket := by
  have width : 0 < 1000 * ctx.rateLimitWindowSeconds := by linarith
  unfold windowBucket bucketStart bucketEnd
  rw [← Int.le_ediv_iff_mul_le width, ← Int.ediv_lt_iff_lt_mul width]
  omega

/-- A window long, and no more than two buckets. -/
theorem windowBucket_within {start ms : ℤ} (lo : start ≤ ms)
    (hi : ms ≤ start + ctx.rateLimitWindowSeconds * 1000) :
    windowBucket ctx.rateLimitWindowSeconds ms = windowBucket ctx.rateLimitWindowSeconds start ∨
      windowBucket ctx.rateLimitWindowSeconds ms =
        windowBucket ctx.rateLimitWindowSeconds start + 1 := by
  have width : 0 < 1000 * ctx.rateLimitWindowSeconds := by linarith
  have below : windowBucket ctx.rateLimitWindowSeconds start ≤
      windowBucket ctx.rateLimitWindowSeconds ms := Int.ediv_le_ediv width lo
  have above : windowBucket ctx.rateLimitWindowSeconds ms ≤
      windowBucket ctx.rateLimitWindowSeconds start + 1 := by
    have next : (start + 1 * (1000 * ctx.rateLimitWindowSeconds)) /
        (1000 * ctx.rateLimitWindowSeconds) = start / (1000 * ctx.rateLimitWindowSeconds) + 1 :=
      Int.add_mul_ediv_right start 1 width.ne'
    unfold windowBucket
    rw [← next]
    exact Int.ediv_le_ediv width (by linarith)
  omega

end Positive

/-! ### The runs -/

/-- Redis does not fail, every `INCR` of a rate key reaches it before its bucket ends, and nobody
else writes such a key.  The second condition is what keeps the counter of a bucket from being
created again when it has expired. -/
def inTime (ctx : RateLimitContext) : Regime (machine ctx) where
  advance _ c o s := (∀ fault, c = .redis fault → fault = .none) ∧
    ∀ clientId bucket, o = .redis (.incr (rateKey clientId bucket)) →
      s.base.clock < bucketEnd ctx bucket
  event e _ := ∀ key counter, e = .write key counter → ∀ clientId bucket, key ≠ rateKey clientId bucket
  crash _ _ := True

/-- Where a request stands before it counts, and before it sets the time to live. -/
def Standing (ctx : RateLimitContext) (_ : Tid) : Operation → State → Prop
  | .redis (.incr key), s => ∃ clientId bucket, key = rateKey clientId bucket ∧
      bucketStart ctx bucket ≤ s.base.clock
  | .redis (.expire key seconds), s => ∃ clientId bucket, key = rateKey clientId bucket ∧
      seconds = ctx.rateLimitWindowSeconds ∧ bucketStart ctx bucket ≤ s.base.clock
  | _, _ => True

/-! ### The counter of a bucket -/

/-- The counts are 1, 2, 3, …, in the order in which they were made. -/
def Ranked : List Execution → Prop
  | [] => True
  | e :: earlier => e.count = earlier.length + 1 ∧ Ranked earlier

/-- A key that was counted this often has this counter while the bucket lasts. -/
inductive Keeps (ctx : RateLimitContext) (bucket : ℤ) : ℕ → Option Counter → Prop
  | none : Keeps ctx bucket 0 none
  | some (c : Counter) {n : ℕ} (value : c.value = n + 1)
      (lasts : ∀ moment ∈ c.expiresAt, bucketEnd ctx bucket ≤ moment) :
      Keeps ctx bucket (n + 1) (some c)

/-- What Redis knows of a bucket. -/
structure BucketOk (ctx : RateLimitContext) (clientId : String) (bucket : ℤ) (s : State) : Prop where
  ranked : Ranked (increments (rateKey clientId bucket) s)
  within : ∀ e ∈ increments (rateKey clientId bucket) s,
    bucketStart ctx bucket ≤ e.moment ∧ e.moment < bucketEnd ctx bucket
  keeps : s.base.clock < bucketEnd ctx bucket →
    Keeps ctx bucket (increments (rateKey clientId bucket) s).length
      (s.base.server.store (rateKey clientId bucket))

/-- Every bucket is counted as it should be. -/
structure Enforced (ctx : RateLimitContext) (s : State) : Prop where
  nothingInFlight : s.base.server.inFlight = []
  buckets : ∀ clientId bucket, BucketOk ctx clientId bucket s

namespace BucketOk

/-- Nothing that concerns the bucket changes. -/
theorem same (h : BucketOk ctx clientId bucket s) (clock : s.base.clock ≤ s'.base.clock)
    (log : increments (rateKey clientId bucket) s' = increments (rateKey clientId bucket) s)
    (store : s'.base.server.store (rateKey clientId bucket) =
      s.base.server.store (rateKey clientId bucket)) : BucketOk ctx clientId bucket s' := by
  refine ⟨log ▸ h.ranked, log ▸ h.within, fun lasting => ?_⟩
  rw [log, store]
  exact h.keeps (lt_of_le_of_lt clock lasting)

/-- While the bucket lasts, its counter is alive. -/
theorem live_eq (h : BucketOk ctx clientId bucket s) (lasting : s.base.clock < bucketEnd ctx bucket) :
    live s.base.clock s.base.server.store (rateKey clientId bucket) =
      s.base.server.store (rateKey clientId bucket) := by
  unfold live
  have keeps := h.keeps lasting
  cases stored : s.base.server.store (rateKey clientId bucket) with
  | none => rfl
  | some c =>
      rw [stored] at keeps
      generalize (increments (rateKey clientId bucket) s).length = n at keeps
      cases keeps with
      | some _ value lasts =>
          refine Option.filter_some.trans (if_pos ?_)
          cases expires : c.expiresAt with
          | none => rfl
          | some moment =>
              exact decide_eq_true (lt_of_lt_of_le lasting (lasts moment expires))

end BucketOk

/-! ### What keeps the counters -/

theorem increments_after (key : String) (t : Tid) (s : State) :
    increments key (s.after t (.incr key)) = s.executed (some t) (.incr key) :: increments key s :=
  List.filter_cons_of_pos (decide_eq_true rfl)

theorem increments_after_other {key : String} {c : Command} (other : c ≠ .incr key) (t : Tid)
    (s : State) : increments key (s.after t c) = increments key s :=
  List.filter_cons_of_neg fun same => other (of_decide_eq_true same)

namespace BucketOk

/-- A request is counted. -/
theorem count (h : BucketOk ctx clientId bucket s) (begun : bucketStart ctx bucket ≤ s.base.clock)
    (lasting : s.base.clock < bucketEnd ctx bucket) :
    BucketOk ctx clientId bucket (s.after t (.incr (rateKey clientId bucket))) := by
  have keeps := h.keeps lasting
  have found := h.live_eq lasting
  set key := rateKey clientId bucket
  have counted := increments_after key t s
  set s' := s.after t (.incr key) with after
  have stored : s'.base.server.store key =
      some { (s.base.server.store key).getD ⟨0, none⟩ with
        value := ((s.base.server.store key).getD ⟨0, none⟩).value + 1 } := by
    rw [← found]
    exact Function.update_self _ _ _
  have value : (((s.base.server.store key).getD ⟨0, none⟩).value : ℤ) =
      (increments key s).length := by
    generalize (increments key s).length = n at keeps
    generalize s.base.server.store key = c at keeps
    cases keeps with
    | none => rfl
    | some c value _ => exact_mod_cast value
  refine ⟨?_, ?_, fun _ => ?_⟩
  · rw [counted]
    refine ⟨?_, h.ranked⟩
    show ((live s.base.clock s.base.server.store key).getD ⟨0, none⟩).value + 1 = _
    rw [found, value]
  · rw [counted]
    intro e mem
    rcases List.mem_cons.mp mem with rfl | old
    · exact ⟨begun, lasting⟩
    · exact h.within e old
  · rw [counted, stored, List.length_cons]
    refine .some _ (by dsimp only; rw [value]) fun moment expires => ?_
    generalize (increments key s).length = n at keeps
    generalize s.base.server.store key = c at keeps expires
    cases keeps with
    | none => cases expires
    | some c _ lasts => exact lasts moment expires

/-- The time to live is set. -/
theorem expire (h : BucketOk ctx clientId bucket s) (begun : bucketStart ctx bucket ≤ s.base.clock) :
    BucketOk ctx clientId bucket
      (s.after t (.expire (rateKey clientId bucket) ctx.rateLimitWindowSeconds)) := by
  have counted : increments (rateKey clientId bucket)
      (s.after t (.expire (rateKey clientId bucket) ctx.rateLimitWindowSeconds)) =
        increments (rateKey clientId bucket) s := by
    refine increments_after_other ?_ t s
    nofun
  refine ⟨counted ▸ h.ranked, counted ▸ h.within, fun lasting => ?_⟩
  have keeps := h.keeps lasting
  have found := h.live_eq lasting
  have stored : (s.after t (.expire (rateKey clientId bucket)
      ctx.rateLimitWindowSeconds)).base.server.store (rateKey clientId bucket) =
        (s.base.server.store (rateKey clientId bucket)).map fun c =>
          { c with expiresAt := some (s.base.clock + ctx.rateLimitWindowSeconds * 1000) } := by
    rw [← found]
    exact Function.update_self _ _ _
  rw [counted, stored]
  generalize (increments (rateKey clientId bucket) s).length = n at keeps
  generalize s.base.server.store (rateKey clientId bucket) = c at keeps
  cases keeps with
  | none => exact .none
  | some c value lasts =>
      refine .some _ value fun moment expires => ?_
      obtain rfl : s.base.clock + ctx.rateLimitWindowSeconds * 1000 = moment :=
        Option.some.inj expires
      rw [bucketEnd_eq]
      exact Int.add_le_add_right begun _

end BucketOk

/-- **A command keeps the counters.** -/
theorem Enforced.command (h : Enforced ctx s) {c : Command} (standing : Standing ctx t (.redis c) s)
    (early : ∀ clientId bucket, c = .incr (rateKey clientId bucket) →
      s.base.clock < bucketEnd ctx bucket) : Enforced ctx (s.after t c) := by
  refine ⟨h.nothingInFlight, fun clientId bucket => ?_⟩
  have here := h.buckets clientId bucket
  cases c with
  | get key =>
      refine here.same le_rfl (increments_after_other ?_ t s) rfl
      nofun
  | ttl key =>
      refine here.same le_rfl (increments_after_other ?_ t s) rfl
      nofun
  | incr key =>
      by_cases own : key = rateKey clientId bucket
      · subst own
        obtain ⟨clientId', bucket', same, begun⟩ := standing
        obtain ⟨rfl, rfl⟩ := rateKey_inj same
        exact here.count begun (early clientId bucket rfl)
      · refine here.same le_rfl (increments_after_other (fun same => own ?_) t s) ?_
        · exact Command.incr.inj same
        · exact Function.update_of_ne (Ne.symm own) _ _
  | expire key seconds =>
      by_cases own : key = rateKey clientId bucket
      · subst own
        obtain ⟨clientId', bucket', same, rfl, begun⟩ := standing
        obtain ⟨rfl, rfl⟩ := rateKey_inj same
        exact here.expire begun
      · refine here.same le_rfl (increments_after_other ?_ t s)
          (Function.update_of_ne (Ne.symm own) _ _)
        nofun

/-- **An operation keeps the counters.** -/
theorem Enforced.operation (h : Enforced ctx s) {c : Choice} {o : Operation} {r : o.Reply}
    (standing : Standing ctx t o s) (allowed : (inTime ctx).advance t c o s)
    (done : exec ctx t c o s = some (r, s')) : Enforced ctx s' := by
  by_cases command : ∃ c, o = .redis c
  · obtain ⟨command, rfl⟩ := command
    obtain ⟨_, _, rfl⟩ | ⟨fault, rfl, faulty, _⟩ := exec_redis done
    · exact h.command standing fun clientId bucket same => allowed.2 clientId bucket (by rw [same])
    · exact absurd (allowed.1 fault rfl) faulty
  · obtain ⟨server, clock, log⟩ := exec_aside (fun c same => command ⟨c, same⟩) done
    refine ⟨by rw [server]; exact h.nothingInFlight, fun clientId bucket => ?_⟩
    refine (h.buckets clientId bucket).same (le_of_eq clock.symm) ?_ (by rw [server])
    unfold increments
    rw [log]

/-- **What happens beside the requests keeps the counters.** -/
theorem Enforced.event (h : Enforced ctx s) {e : Event} (allowed : (inTime ctx).event e s)
    (happens : s.event e = some s') : Enforced ctx s' := by
  cases e with
  | tick =>
      cases happens
      exact ⟨h.nothingInFlight, fun clientId bucket =>
        (h.buckets clientId bucket).same (Int.le_add_one le_rfl) rfl rfl⟩
  | land position =>
      obtain ⟨base, landed, rfl⟩ := Option.map_eq_some_iff.mp happens
      obtain ⟨server, executed, rfl⟩ := Option.map_eq_some_iff.mp landed
      obtain ⟨c, waiting, _⟩ := Option.map_eq_some_iff.mp executed
      rw [h.nothingInFlight] at waiting
      cases waiting
  | write key counter =>
      cases happens
      refine ⟨h.nothingInFlight, fun clientId bucket => ?_⟩
      have other := allowed key counter rfl clientId bucket
      exact (h.buckets clientId bucket).same le_rfl rfl (Function.update_of_ne (Ne.symm other) _ _)

/-! ### A request -/

/-- The request was counted once, and what becomes of it depends on its count. -/
structure Decided (ctx : RateLimitContext) (t : Tid) (clientId : String) (limit : Limit)
    (e : Execution) (s : State) : Prop where
  counted : e ∈ own t s
  once : ∀ e' ∈ own t s, ∀ key, e'.command = .incr key → e' = e
  key : ∃ bucket, e.command = .incr (rateKey clientId bucket)
  limit : ∃ ttl, limit = limitOf ctx e.count ttl

theorem Decided.later {limit : Limit} {e : Execution} (h : Decided ctx t clientId limit e s)
    (step : Rely t s s') : Decided ctx t clientId limit e s' :=
  ⟨step.own ▸ h.counted, step.own ▸ h.once, h.key, h.limit⟩

/-- What the hook does. -/
def Answer (ctx : RateLimitContext) (t : Tid) (request : LimitedRequest) (limit : Limit)
    (s : State) : Prop :=
  (isExempt request = true → limit = unlimited) ∧
    (isExempt request = false →
      ∃ e, Decided ctx t (getClientIdentifier request.client ctx.auth.config) limit e s)

section Hook

/-- Redis does not fail. -/
private theorem inTime_healthy (fault : Counters.Fault) (o : Operation) (s : State)
    (allowed : (inTime ctx).advance t (.redis fault) o s) : fault = .none := allowed.1 fault rfl

/-- The request is counted under a key of its bucket. -/
private theorem holds_limitByKey (fresh : own t s = [])
    (begun : bucketStart ctx bucket ≤ s.base.clock) :
    ((discipline ctx (Standing ctx)).contract (inTime ctx) t).Holds
      (fun limit s' => ∃ e, Decided ctx t clientId limit e s') (fun _ _ => False)
      (limitByKey ctx (rateKey clientId bucket)) s := by
  refine holds_answered inTime_healthy
    (fun s' step => ⟨clientId, bucket, rfl, le_trans begun step.clock⟩) ?_
  intro s₁ step₁
  set key := rateKey clientId bucket
  -- the one `INCR` of the request
  set e := s₁.executed (some t) (.incr key) with counted
  have own₁ : own t (s₁.after t (.incr key)) = [e] := by
    rw [own_after, step₁.own, fresh]
  have begun₁ : bucketStart ctx bucket ≤ (s₁.after t (.incr key)).base.clock :=
    le_trans begun step₁.clock
  have expired : ((discipline ctx (Standing ctx)).contract (inTime ctx) t).Holds
      (fun _ s' => e ∈ own t s' ∧ ∀ e' ∈ own t s', ∀ key, e'.command = .incr key → e' = e)
      (fun _ _ => False)
      (if e.count = 1 then
        (AuthRoutes.redis (.expire key ctx.rateLimitWindowSeconds)).bind fun _ => .done ()
      else .done () : AuthRoutes.Route Unit) (s₁.after t (.incr key)) := by
    split
    · refine holds_answered inTime_healthy
        (fun s' step => ⟨clientId, bucket, rfl, rfl, le_trans begun₁ step.clock⟩)
        fun s₂ step₂ s₃ step₃ => ?_
      rw [step₃.2.own, own_after, step₂.own, own₁]
      refine ⟨List.mem_cons_of_mem _ List.mem_cons_self, fun e' mem key' incr => ?_⟩
      rcases List.mem_cons.mp mem with rfl | mem
      · cases incr
      · exact List.mem_singleton.mp mem
    · intro s₂ step₂
      rw [step₂.2.own, own₁]
      exact ⟨List.mem_cons_self, fun e' mem _ _ => List.mem_singleton.mp mem⟩
  refine expired.chain ⟨trivial, .refl _ _⟩ fun _ s₂ known _ => ?_
  refine holds_answered inTime_healthy (fun _ _ => trivial) fun s₃ step₃ s₄ step₄ => ?_
  refine ⟨e, Decided.later ⟨?_, fun e' mem key' incr => ?_, ⟨bucket, rfl⟩, _, rfl⟩ step₄.2⟩
  · rw [own_after, step₃.own]
    exact List.mem_cons_of_mem _ known.1
  · rw [own_after, step₃.own] at mem
    rcases List.mem_cons.mp mem with rfl | mem
    · cases incr
    · exact known.2 e' mem key' incr

variable (positive : 1 ≤ ctx.rateLimitWindowSeconds)
include positive

/-- **The hook.** -/
private theorem holds_enforceRateLimit (request : LimitedRequest) (fresh : own t s = []) :
    ((discipline ctx (Standing ctx)).contract (inTime ctx) t).Holds (Answer ctx t request)
      (fun _ _ => False) (enforceRateLimit ctx request) s := by
  unfold enforceRateLimit
  split
  · rename_i exempt
    exact fun _ _ => ⟨fun _ => rfl, fun other => absurd exempt (Bool.eq_false_iff.mp other)⟩
  · rename_i limited
    refine holds_now (fun _ _ => trivial) fun s₁ step₁ => ?_
    have begun : bucketStart ctx (windowBucket ctx.rateLimitWindowSeconds s₁.base.clock) ≤
        s₁.base.clock := ((windowBucket_iff positive).mp rfl).1
    refine Async.Contract.Holds.attempt ?_ ⟨trivial, .refl _ _⟩
    refine (holds_limitByKey (step₁.own.trans fresh) begun).mono ?_ fun _ _ impossible =>
      impossible.elim
    exact fun limit s' decided => ⟨fun exempt => absurd exempt limited, fun _ => decided⟩

end Hook

/-! ### Whole runs -/

theorem Ranked.counts {counted : List Execution} (h : Ranked counted) :
    counted.reverse.map Execution.count =
      (List.range counted.length).map fun i : ℕ => (i : ℤ) + 1 := by
  induction counted with
  | nil => rfl
  | cons e earlier ih =>
      rw [List.reverse_cons, List.map_append, ih h.2, List.length_cons, List.range_succ,
        List.map_append]
      exact congrArg (_ ++ [·]) h.1

/-- No more than the limit are within the limit. -/
theorem Ranked.length_filter {counted : List Execution} (h : Ranked counted) {limit : ℤ}
    (nonneg : 0 ≤ limit) :
    ((counted.filter fun e => e.count ≤ limit).length : ℤ) ≤ limit := by
  induction counted with
  | nil => exact nonneg
  | cons e earlier ih =>
      by_cases within : e.count ≤ limit
      · calc
          (((e :: earlier).filter fun e => e.count ≤ limit).length : ℤ) ≤ (e :: earlier).length :=
            Int.ofNat_le.mpr (List.length_filter_le _ _)
          _ = e.count := by rw [h.1, List.length_cons]; push_cast; rfl
          _ ≤ limit := within
      · rw [List.filter_cons_of_neg (by simpa using within)]
        exact ih h.2

/-- A request is let through when its count is within the limit. -/
theorem refusal_limitOf (ctx : RateLimitContext) (count ttl : ℤ) :
    (limitOf ctx count ttl).refusal =
      if count ≤ ctx.rateLimitRequests then none else some rateLimitExceeded := by
  unfold limitOf
  dsimp only
  split_ifs with above within within
  · exact absurd above (not_lt.mpr within)
  · rfl
  · rfl
  · exact absurd (not_lt.mp above) within

theorem remaining_limitOf (ctx : RateLimitContext) (count ttl : ℤ) :
    ("X-RateLimit-Remaining", toString (remaining ctx count)) ∈ (limitOf ctx count ttl).headers := by
  unfold limitOf
  dsimp only
  split_ifs <;> simp

/-- The runs of the hook. -/
abbrev Run (ctx : RateLimitContext) (R : Regime (machine ctx)) (s : AuthRoutes.State)
    (p : Async.Pool (machine ctx) LimitedRequest Limit) : Prop :=
  Async.Pool.Steps R (enforceRateLimit ctx) (Async.Pool.idle ⟨s, []⟩) p

section Runs

variable {s₀ : AuthRoutes.State} {p : Async.Pool (machine ctx) LimitedRequest Limit}

theorem enforced_of_run (positive : 1 ≤ ctx.rateLimitWindowSeconds)
    (empty : ∀ clientId bucket, s₀.server.store (rateKey clientId bucket) = none)
    (idle : s₀.server.inFlight = []) (run : Run ctx (inTime ctx) s₀ p) :
    Enforced ctx p.shared ∧ Discipline.Sound (discipline ctx (Standing ctx)) (inTime ctx)
      (Answer ctx) (fun _ _ _ _ => False) p := by
  have handles : (discipline ctx (Standing ctx)).Handles (inTime ctx) (enforceRateLimit ctx)
      (Answer ctx) (fun _ _ _ _ => False) :=
    fun t request s _ fresh => holds_enforceRateLimit positive request fresh
  have sound : Discipline.Sound (discipline ctx (Standing ctx)) (inTime ctx) (Answer ctx)
      (fun _ _ _ _ => False) (Async.Pool.idle ⟨s₀, []⟩ : Async.Pool (machine ctx) _ _) :=
    Discipline.sound_idle trivial fun _ => rfl
  refine ⟨sound.invariant (I := Enforced ctx) environment handles ?_ ?_ ?_ (fun _ _ _ _ h => h) run,
    sound.steps environment handles run⟩
  · refine ⟨idle, fun clientId bucket => ⟨trivial, List.forall_mem_nil _, fun _ => ?_⟩⟩
    show Keeps ctx bucket 0 (s₀.server.store (rateKey clientId bucket))
    rw [empty]
    exact .none
  · exact fun t c o s r s' _ standing allowed done here => here.operation standing allowed done
  · exact fun e s s' _ allowed happens here => here.event allowed happens

/-- The request of a client was let through, and counted at this moment. -/
def LetThrough (p : Async.Pool (machine ctx) LimitedRequest Limit) (clientId : String) (moment : ℤ)
    (t : Tid) : Prop :=
  ∃ request limit, p.Answered t request limit ∧ isExempt request = false ∧
    getClientIdentifier request.client ctx.auth.config = clientId ∧ limit.refusal = none ∧
    ∃ e ∈ own t p.shared, ∃ key, e.command = .incr key ∧ e.moment = moment

/-- The execution by which a request was counted belongs to the bucket of its moment. -/
private theorem increment_of_decided (enforced : Enforced ctx p.shared)
    (positive : 1 ≤ ctx.rateLimitWindowSeconds) {limit : Limit} {e : Execution}
    (decided : Decided ctx t clientId limit e p.shared) :
    e.command = .incr (rateKey clientId (windowBucket ctx.rateLimitWindowSeconds e.moment)) ∧
      e ∈ increments (rateKey clientId (windowBucket ctx.rateLimitWindowSeconds e.moment))
        p.shared := by
  obtain ⟨bucket, key⟩ := decided.key
  have mem : e ∈ increments (rateKey clientId bucket) p.shared :=
    List.mem_filter.mpr ⟨List.mem_of_mem_filter decided.counted, decide_eq_true key⟩
  have here := (windowBucket_iff positive).mpr ((enforced.buckets clientId bucket).within e mem)
  rw [here]
  exact ⟨key, mem⟩

/-- The requests that two buckets let through. -/
private theorem length_through (enforced : Enforced ctx p.shared)
    (answers : ∀ t request limit, p.Answered t request limit → Answer ctx t request limit p.shared)
    (nonneg : 0 ≤ ctx.rateLimitRequests) (positive : 1 ≤ ctx.rateLimitWindowSeconds) {start : ℤ}
    {through : List Tid} (distinct : through.Nodup)
    (all : ∀ t ∈ through, ∃ moment, LetThrough p clientId moment t ∧ start ≤ moment ∧
      moment ≤ start + ctx.rateLimitWindowSeconds * 1000) :
    (through.length : ℤ) ≤ 2 * ctx.rateLimitRequests := by
  let first := windowBucket ctx.rateLimitWindowSeconds start
  let within (bucket : ℤ) : List Execution :=
    (increments (rateKey clientId bucket) p.shared).filter fun e =>
      e.count ≤ ctx.rateLimitRequests
  have callers : through.map some ⊆ (within first ++ within (first + 1)).map Execution.caller := by
    intro caller mem
    obtain ⟨t, memThrough, rfl⟩ := List.mem_map.mp mem
    obtain ⟨moment, ⟨request, limit, answered, limited, client, letThrough, e', mem', key, incr,
      same⟩, lo, hi⟩ := all t memThrough
    obtain ⟨e, decided⟩ := (answers t request limit answered).2 limited
    obtain rfl := decided.once e' mem' key incr
    rw [client] at decided
    obtain ⟨_, counted⟩ := increment_of_decided enforced positive decided
    obtain ⟨ttl, rfl⟩ := decided.limit
    have count : e'.count ≤ ctx.rateLimitRequests := by
      by_contra above
      rw [refusal_limitOf, if_neg above] at letThrough
      cases letThrough
    refine List.mem_map.mpr ⟨e', ?_, of_decide_eq_true (List.mem_filter.mp decided.counted).2⟩
    rcases windowBucket_within positive (same ▸ lo) (same ▸ hi) with here | next
    · refine List.mem_append_left _ (List.mem_filter.mpr ⟨?_, decide_eq_true count⟩)
      rw [here] at counted
      exact counted
    · refine List.mem_append_right _ (List.mem_filter.mpr ⟨?_, decide_eq_true count⟩)
      rw [next] at counted
      exact counted
  have length := (distinct.map (Option.some_injective _)).length_le_of_subset callers
  rw [List.length_map, List.length_map, List.length_append] at length
  have one := (enforced.buckets clientId first).ranked.length_filter nonneg
  have two := (enforced.buckets clientId (first + 1)).ranked.length_filter nonneg
  calc
    (through.length : ℤ) ≤ (within first).length + (within (first + 1)).length := by
      exact_mod_cast length
    _ ≤ 2 * ctx.rateLimitRequests := by linarith

/-- **The rate limit is exact.**  The counts of a bucket are 1, 2, 3, … in the order of their
`INCR`s; its counter does not expire before it ends; a request is let through exactly when its count
is within the limit, is told what remains, and is refused otherwise; and no client gets more than
twice the limit through in an interval of the length of the window.

`Enforced` ties every counter to the log of the executed `INCR`s.  The factor two comes from an
interval of this length meeting at most two windows, each of which may be used up. -/
theorem rate_limit_exact (requests : 1 ≤ ctx.rateLimitRequests)
    (positive : 1 ≤ ctx.rateLimitWindowSeconds)
    (empty : ∀ clientId bucket, s₀.server.store (rateKey clientId bucket) = none)
    (idle : s₀.server.inFlight = []) (run : Run ctx (inTime ctx) s₀ p) :
    (∀ clientId bucket, (increments (rateKey clientId bucket) p.shared).reverse.map
        Execution.count = (List.range (increments (rateKey clientId bucket) p.shared).length).map
          fun i : ℕ => (i : ℤ) + 1) ∧
      (∀ clientId bucket, increments (rateKey clientId bucket) p.shared ≠ [] →
        p.shared.base.clock < bucketEnd ctx bucket →
        live p.shared.base.clock p.shared.base.server.store (rateKey clientId bucket) ≠ none) ∧
      (∀ t request limit, p.Answered t request limit → isExempt request = false →
        ∃ e ∈ own t p.shared, (∀ e' ∈ own t p.shared, ∀ key, e'.command = .incr key → e' = e) ∧
          e.command = .incr (rateKey (getClientIdentifier request.client ctx.auth.config)
            (windowBucket ctx.rateLimitWindowSeconds e.moment)) ∧
          limit.refusal =
            (if e.count ≤ ctx.rateLimitRequests then none else some rateLimitExceeded) ∧
          ("X-RateLimit-Remaining", toString (remaining ctx e.count)) ∈ limit.headers) ∧
      ∀ (clientId : String) (start : ℤ) (through : List Tid), through.Nodup →
        (∀ t ∈ through, ∃ moment, LetThrough p clientId moment t ∧ start ≤ moment ∧
          moment ≤ start + ctx.rateLimitWindowSeconds * 1000) →
        (through.length : ℤ) ≤ 2 * ctx.rateLimitRequests := by
  obtain ⟨enforced, sound⟩ := enforced_of_run positive empty idle run
  refine ⟨fun clientId bucket => (enforced.buckets clientId bucket).ranked.counts, ?_, ?_, ?_⟩
  · intro clientId bucket counted lasting
    have here := enforced.buckets clientId bucket
    rw [here.live_eq lasting]
    have keeps := here.keeps lasting
    intro expired
    rw [expired] at keeps
    generalize length : (increments (rateKey clientId bucket) p.shared).length = n at keeps
    cases keeps
    exact counted (List.eq_nil_of_length_eq_zero length)
  · intro t request limit answered limited
    obtain ⟨e, decided⟩ := (sound.answered answered).2 limited
    obtain ⟨key, _⟩ := increment_of_decided enforced positive decided
    obtain ⟨ttl, rfl⟩ := decided.limit
    exact ⟨e, decided.counted, decided.once, key, refusal_limitOf ctx e.count ttl,
      remaining_limitOf ctx e.count ttl⟩
  · intro clientId start through distinct all
    exact length_through enforced (fun _ _ _ answered => sound.answered answered)
      (by linarith) positive distinct all

end Runs

/-! ### Worked example -/

/-- One request a minute. -/
def limitContext : RateLimitContext := ⟨AuthRoutes.authContext, 1, 60⟩

/-- A request of a client. -/
def exampleRequest : LimitedRequest := ⟨"/v1/orders", ⟨fun _ => .missing, "203.0.113.7"⟩⟩

/-- The key that an operation increments. -/
def incremented? : Operation → Option String
  | .redis (.incr key) => some key
  | _ => none

/-- The first minute of one client. -/
def firstMinute : Regime (machine limitContext) where
  advance _ c o s := (c ≠ .redis .refused ∧ c ≠ .redis .late) ∧
    ∀ key ∈ incremented? o, key = rateKey "203.0.113.7" 0 ∧ s.base.clock < 60000
  event e _ := e = .tick
  crash _ _ := False

instance (t : Tid) (c : Choice) (o : Operation) (s : State) :
    Decidable (firstMinute.advance t c o s) :=
  inferInstanceAs (Decidable ((c ≠ .redis .refused ∧ c ≠ .redis .late) ∧
    ∀ key ∈ incremented? o, key = rateKey "203.0.113.7" 0 ∧ s.base.clock < 60000))

instance (e : Event) (s : State) : Decidable (firstMinute.event e s) :=
  inferInstanceAs (Decidable (e = .tick))

instance (t : Tid) (s : State) : Decidable (firstMinute.crash t s) :=
  inferInstanceAs (Decidable False)

theorem inTime_of_firstMinute {s₀ : AuthRoutes.State}
    {p : Async.Pool (machine limitContext) LimitedRequest Limit}
    (run : Run limitContext firstMinute s₀ p) : Run limitContext (inTime limitContext) s₀ p := by
  refine Async.Pool.Steps.mono ?_ (fun e s tick key counter same => ?_)
    (fun _ _ impossible => False.elim impossible) run
  · rintro t c o s ⟨⟨refused, late⟩, early⟩
    refine ⟨fun fault same => ?_, fun clientId bucket same => ?_⟩
    · cases fault with
      | none => rfl
      | refused => exact absurd same refused
      | late => exact absurd same late
    · subst same
      obtain ⟨key, clock⟩ := early _ rfl
      obtain ⟨_, rfl⟩ := rateKey_inj key
      exact clock
  · rw [tick] at same
    cases same

/-- Two requests of a client in one window, the second of which is counted between the `INCR` and the
`EXPIRE` of the first. -/
theorem rate_limit_exact_of_two :
    ∃ p, Run limitContext (inTime limitContext) AuthRoutes.oneAccountState p ∧
      (p.answer 0).map Limit.refusal = some none ∧
      (p.answer 1).map Limit.refusal = some (some rateLimitExceeded) ∧
      ∃ e ∈ own 1 p.shared, 1 < e.count := by
  obtain ⟨p, run, first, second, third⟩ := Async.Pool.steps_of_check firstMinute
    (enforceRateLimit limitContext) (Async.Pool.idle ⟨AuthRoutes.oneAccountState, []⟩)
    ([.start 0 exampleRequest, .start 1 exampleRequest, .advance 0 .succeeds,
      .advance 0 (.redis .none), .event .tick, .advance 1 .succeeds, .advance 1 (.redis .none),
      .advance 0 (.redis .none), .advance 1 (.redis .none), .advance 0 (.redis .none)])
    (fun p => (p.answer 0).map Limit.refusal = some none ∧
      (p.answer 1).map Limit.refusal = some (some rateLimitExceeded) ∧
      (p.exchange 1).map (fun x => (isExempt x.1, x.2.refusal)) =
        some (false, some rateLimitExceeded)) (by decide)
  obtain ⟨⟨request, limit⟩, exchanged, same⟩ := Option.map_eq_some_iff.mp third
  obtain ⟨limited, refused⟩ := Prod.mk.inj same
  have within := inTime_of_firstMinute run
  have requests : 1 ≤ limitContext.rateLimitRequests := by decide
  obtain ⟨_, _, decided, _⟩ := rate_limit_exact requests (by decide) (fun _ _ => rfl) rfl within
  obtain ⟨e, counted, _, _, refusal, _⟩ :=
    decided 1 request limit (Async.Pool.answered_of_exchange exchanged) limited
  refine ⟨p, within, first, second, e, counted, ?_⟩
  by_contra above
  have below : e.count ≤ limitContext.rateLimitRequests := not_lt.mp above
  rw [if_pos below] at refusal
  exact absurd (refused.symm.trans refusal) (by nofun)

end RateLimit

end OrderPlatform
