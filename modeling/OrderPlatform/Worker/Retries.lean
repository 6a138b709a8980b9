import OrderPlatform.Worker.Cycles

/-!
# Retries and dead letters

What a run without losses does to each message.  `retries_conserve` follows the copies of all
messages at once: each is there exactly once, unchanged but for the headers that say how often it
has failed, and it is a dead letter when it has failed more often than `maxRetries`.
`bounded_iff_exhausted` is about a message with an arbitrary `x-retry-count`: whether it becomes a
dead letter is decided by what `Number` makes of that header.

The number of retries is a double, and counting ends at `2 ^ 53`.

Both are read off what is known of every copy in a run without losses (`Fits`); the other direction of
`bounded_iff_exhausted` needs runs that do the worst, which `Cycles` builds.
-/

namespace OrderPlatform

namespace Worker

open Rabbit

variable {ctx : WorkerContext} {p q : Service ctx}

/-! ### Every message once -/

/-- A message that is published gets the next number. -/
theorem published_item {m : Message} {s s' : State} (h : State.event ctx (.publish m) s = some s') :
    ∃ x ∈ items s', x.place = .ready .primary ∧ x.serial = s.server.nextSerial ∧
      x.copy.origin = m := by
  obtain ⟨server, published, rfl⟩ := Option.map_eq_some_iff.mp h
  unfold Server.publish at published
  split at published
  · cases published
    next there =>
      refine ⟨item _ (.ready .primary, ⟨m, s.server.nextSerial, m, 0⟩), Multiset.mem_map_of_mem _ ?_,
        rfl, rfl, rfl⟩
      have new := placed_append .primary ⟨m, s.server.nextSerial, m, 0⟩ s.server
      unfold Server.enqueue
      rw [if_pos there]
      exact new ▸ Multiset.mem_cons_self _ _
  · cases published

/-- Along its life cycle a message keeps its number, and what was published. -/
theorem same_of_transits {a b : Item} (path : Relation.ReflTransGen (Transit ctx) a b) :
    b.serial = a.serial ∧ b.copy.origin = a.copy.origin := by
  induction path with
  | refl => exact ⟨rfl, rfl⟩
  | tail _ last ih => exact ⟨last.serial.trans ih.1, last.origin.trans ih.2⟩

/-! ### Counting -/

/-- The number of retries of a message that was published without one. -/
theorem counted_new {m : Message} (new : m.header "x-retry-count" = none) {n : ℕ}
    (small : n ≤ 2 ^ 53) : counted ctx m n = .finite n := by
  have new : m.properties.headers "x-retry-count" = none := new
  induction n with
  | zero =>
      show retryCount ctx m.properties.headers = _
      unfold retryCount readRetryCount
      rw [new]
      rfl
  | succ n ih =>
      have next : counted ctx m (n + 1) = (counted ctx m n).plusOne :=
        Function.iterate_succ_apply' _ _ _
      rw [next, ih (Nat.le_of_succ_le small)]
      exact Double.add_one (Nat.lt_of_succ_le small)

theorem exhausted_new {m : Message} (new : m.header "x-retry-count" = none) {n : ℕ}
    (small : n ≤ 2 ^ 53) : exhausted ctx m n = true ↔ ctx.config.maxRetries ≤ n := by
  unfold exhausted
  rw [counted_new new small]
  show decide ((ctx.config.maxRetries : ℚ) ≤ (n : ℚ)) = true ↔ _
  rw [decide_eq_true_iff]
  exact_mod_cast Iff.rfl

/-- A message and what was published, when all went as it should. -/
structure Intact (ctx : WorkerContext) (x : Item) : Prop where
  content : x.copy.message.content = x.copy.origin.content
  headers : ∀ name ∉ ctx.deadLettering.own, name ≠ "x-retry-count" → name ≠ "x-last-error" →
    x.copy.message.header name = x.copy.origin.header name
  /-- All that was done with the message was in vain, but for the last time perhaps. -/
  failed : x.handlings = x.copy.failures + x.place.unfailed
  count : x.copy.origin.header "x-retry-count" = none →
    x.copy.message.header "x-retry-count" =
      if x.copy.failures = 0 then none else some (.number (.finite x.copy.failures))
  dead : x.copy.origin.header "x-retry-count" = none →
    (x.place = .ready .deadLetter ↔ ctx.config.maxRetries < x.copy.failures)

theorem Fits.intact {x : Item} (fits : Fits ctx x) (nonneg : 0 ≤ ctx.config.maxRetries)
    (small : ctx.config.maxRetries < 2 ^ 53) : Intact ctx x := by
  obtain ⟨M, maxRetries⟩ := Int.eq_ofNat_of_zero_le nonneg
  rw [maxRetries] at small
  have small : M < 2 ^ 53 := by exact_mod_cast small
  -- nobody fails more often than the last retry
  have bound (new : x.copy.origin.header "x-retry-count" = none) : x.copy.failures ≤ M + 1 := by
    by_contra more
    have early := fits.early M (by omega)
    have reached : exhausted ctx x.copy.origin M = true :=
      (exhausted_new new (by omega)).mpr (by rw [maxRetries])
    rw [reached] at early
    cases early
  refine ⟨fits.content, fits.headers, fits.handlings, fun new => ?_, fun new => ?_⟩
  · rw [fits.count, new, counted_new new (by have := bound new; omega)]
  · rw [fits.dead, maxRetries]
    constructor
    · rintro ⟨n, failures, reached⟩
      have le := bound new
      have reached := (exhausted_new new (by omega)).mp reached
      rw [maxRetries] at reached
      omega
    · intro lt
      have le := bound new
      refine ⟨M, by omega, ?_⟩
      exact (exhausted_new new (by omega)).mpr (by rw [maxRetries])

/-- **Retries conserve messages.**  In every run without losses each published message is there
exactly once at every moment, and unchanged but for the headers of the worker and of the broker.

What is kept of every copy is `Fits`; the bounds on `maxRetries` are used only where its count is
read as a number, a double being exact below `2 ^ 53`. -/
theorem retries_conserve (nonneg : 0 ≤ ctx.config.maxRetries)
    (small : ctx.config.maxRetries < 2 ^ 53) (run : LosslessRun p) :
    (items p.shared).map Item.serial = Multiset.range p.shared.server.nextSerial ∧
    (∀ x ∈ items p.shared, Intact ctx x) ∧
    (∀ q, Run (lossless ctx) p q → ∀ x ∈ items p.shared, ∃ y ∈ items q.shared,
      y.serial = x.serial ∧ y.copy.origin = x.copy.origin) ∧
    ∀ m s', State.event ctx (.publish m) p.shared = some s' → ∃ x ∈ items s',
      x.place = .ready .primary ∧ x.serial = p.shared.server.nextSerial ∧ x.copy.origin = m := by
  have kept := fits_of_run run
  refine ⟨kept.tracked.serials, fun x mem => (kept.items x mem).intact nonneg small, ?_,
    fun m s' => published_item⟩
  intro q further x mem
  obtain ⟨y, mem', path⟩ := follows_of_run run further x mem
  exact ⟨y, mem', same_of_transits path⟩

/-- One message that cannot be read: it fails, and comes back from the retry queue. -/
def retryMoves : List (WorkerMove 1) :=
  startMoves 1 0 0 ++ deliverMoves 1 emptyMessage 0 0 1 ++
    [.advance 1 (.concludes .none 2), .event (.expire 0)]

/-- One retry, and the message is a dead letter. -/
theorem retries_conserve_of_two_failures :
    ∃ p : Service (workerContext 1), LosslessRun p ∧
      (p.shared.server.ready .deadLetter).map Copy.failures = [2] ∧
      (items p.shared).map Item.serial = Multiset.range p.shared.server.nextSerial ∧
      ∀ x ∈ items p.shared, Intact (workerContext 1) x := by
  obtain ⟨p, run, dead⟩ := Async.Pool.steps_of_check (lossless (workerContext 1))
    (handler (workerContext 1)) (Async.Pool.idle .initial)
    (retryMoves ++ [.start 2 (.message 0), .advance 2 (.delivers 0 0),
      .advance 2 (.concludes .none 2)])
    (fun p => (p.shared.server.ready .deadLetter).map Copy.failures = [2]) (by decide +kernel)
  have conserved := retries_conserve (show 0 ≤ (1 : ℤ) by decide)
    (show (1 : ℤ) < 2 ^ 53 by decide) run
  exact ⟨p, run, dead, conserved.1, conserved.2.1⟩

/-- The broker writes more headers than `x-death`, and the number of retries is exact as long as a
double can count it: with `2 ^ 53` retries, a message fails once more than it says. -/
theorem retries_inexact :
    (∃ p : Service (workerContext 1), LosslessRun p ∧
      ∃ x ∈ items p.shared, x.copy.origin.header "x-first-death-queue" = none ∧
        x.copy.message.header "x-first-death-queue" = some (.text "order.created.retry")) ∧
    ∃ p : Service (workerContext (2 ^ 53)), LosslessRun p ∧
      ∃ x ∈ items p.shared, x.copy.origin.header "x-retry-count" = none ∧
        x.copy.failures = 2 ^ 53 + 1 ∧
        x.copy.message.header "x-retry-count" = some (.number (.finite (2 ^ 53 : ℕ))) := by
  constructor
  -- the first retry is enough: the broker adds its header when the message expires
  · obtain ⟨p, run, headers⟩ := Async.Pool.steps_of_check (lossless (workerContext 1))
      (handler (workerContext 1)) (Async.Pool.idle .initial) retryMoves
      (fun p => ∃ copy ∈ p.shared.server.ready .primary,
        copy.origin.header "x-first-death-queue" = none ∧
        copy.message.header "x-first-death-queue" = some (.text "order.created.retry"))
      (by decide +kernel)
    obtain ⟨copy, mem, headers⟩ := headers
    exact ⟨p, run, _, item_of_ready mem, headers⟩
  · have new : emptyMessage.header "x-retry-count" = none := rfl
    obtain ⟨p, copy, waiting, origin, failures⟩ := waiting_after (workerContext (2 ^ 53))
      emptyMessage (2 ^ 53) fun k lt => by
        refine Bool.eq_false_iff.mpr fun reached => ?_
        have le : (2 ^ 53 : ℤ) ≤ k := (exhausted_new new (Nat.le_of_lt lt)).mp reached
        have le : 2 ^ 53 ≤ k := by exact_mod_cast le
        exact Nat.not_lt.mpr le lt
    have fits := (fits_of_run waiting.run).items _ waiting.item
    have type : copy.message.properties.headers "x-event-type" = none := by
      have kept := fits.headers "x-event-type" (by decide) (by decide) (by decide)
      have none : emptyMessage.header "x-event-type" = none := rfl
      rw [← origin] at none
      exact kept.trans none
    -- the headers convert, so that one more failure is handled like the others
    have converts : convertible (workerContext (2 ^ 53)) copy.message.properties.headers = true :=
      convertible_of_total (fun _ => rfl) (by unfold eventTypeLabel; rw [type]; rfl)
    obtain ⟨q, e, run, _, _, ready⟩ := waiting.fails converts
    have mem : failedCopy (workerContext (2 ^ 53)) copy e ∈ q.shared.server.ready
        (retryTarget (workerContext (2 ^ 53)) copy.message.properties.headers) := by
      rw [ready]
      exact List.mem_append_right _ (List.mem_singleton_self _)
    have failed : (failedCopy (workerContext (2 ^ 53)) copy e).failures = 2 ^ 53 + 1 :=
      congrArg (· + 1) failures
    have last : counted (workerContext (2 ^ 53)) emptyMessage (2 ^ 53 + 1) =
        .finite (2 ^ 53 : ℕ) := by
      have next : counted (workerContext (2 ^ 53)) emptyMessage (2 ^ 53 + 1) =
          (counted (workerContext (2 ^ 53)) emptyMessage (2 ^ 53)).plusOne :=
        Function.iterate_succ_apply' _ _ _
      rw [next, counted_new new (Nat.le_refl _)]
      exact Double.add_one_end
    have count := ((fits_of_run run).items _ (item_of_ready mem)).count
    refine ⟨q, run, _, item_of_ready mem, ?_, failed, ?_⟩
    · show copy.origin.header "x-retry-count" = none
      rw [origin]
      rfl
    · show (failedCopy (workerContext (2 ^ 53)) copy e).message.header "x-retry-count" = _
      refine count.trans ?_
      show (if (failedCopy (workerContext (2 ^ 53)) copy e).failures = 0 then _ else
        some (HeaderValue.number (counted (workerContext (2 ^ 53)) copy.origin
          (failedCopy (workerContext (2 ^ 53)) copy e).failures))) = _
      rw [failed, origin, last]
      rfl

/-! ### Any number of retries -/

theorem Place.unfailed_le (place : Place) : place.unfailed ≤ 1 := by
  cases place with
  | ready => exact Nat.zero_le 1
  | unacked => exact Nat.le_refl 1
  | completed => exact Nat.le_refl 1

/-- **What bounds the handling of a message** whose processing fails: with whatever header it was
published, it is handled `maxRetries + 1` times at most, and then a dead letter, exactly if the
number of retries that is read off the header has reached `maxRetries` by then.

One direction is an invariant of every copy (`Fits`).  For the other one a run is built in which
the message fails again and again (`waiting_after`). -/
theorem bounded_iff_exhausted (nonneg : 0 ≤ ctx.config.maxRetries) (m : Message) :
    (∀ p : Service ctx, LosslessRun p → ∀ x ∈ items p.shared, x.copy.origin = m →
      x.handlings ≤ ctx.config.maxRetries + 1 ∧
      (ctx.config.maxRetries < x.copy.failures → x.place = .ready .deadLetter)) ↔
    ∃ n : ℕ, n ≤ ctx.config.maxRetries ∧ exhausted ctx m n = true := by
  obtain ⟨M, maxRetries⟩ := Int.eq_ofNat_of_zero_le nonneg
  rw [maxRetries]
  constructor
  · intro bounded
    by_contra never
    have again : ∀ k < M + 1, exhausted ctx m k = false := fun k lt =>
      Bool.eq_false_iff.mpr fun reached => never ⟨k, by exact_mod_cast Nat.le_of_lt_succ lt, reached⟩
    -- after so many failures the message is handled once more
    obtain ⟨p, copy, waiting, rfl, failures⟩ := waiting_after ctx m (M + 1) again
    have dead := (bounded p waiting.run _ waiting.item rfl).2 (by
      show (M : ℤ) < copy.failures
      rw [failures]
      exact_mod_cast Nat.lt_succ_self M)
    cases dead
  · rintro ⟨n, le, reached⟩ p run x mem rfl
    have le : n ≤ M := by exact_mod_cast le
    have fits := (fits_of_run run).items x mem
    have bound : x.copy.failures ≤ n + 1 := by
      by_contra more
      have early := fits.early n (by omega)
      rw [reached] at early
      cases early
    refine ⟨?_, fun more => fits.dead.mpr ⟨n, by omega, reached⟩⟩
    by_cases dead : x.place = .ready .deadLetter
    · have handlings : x.handlings = x.copy.failures + 0 := by rw [fits.handlings, dead]; rfl
      omega
    · have alive : x.copy.failures ≤ n := by
        by_contra more
        have untouched := fits.elsewhere dead n (by omega)
        rw [reached] at untouched
        cases untouched
      have handlings := fits.handlings
      have once := x.place.unfailed_le
      omega

/-- A message that cannot be read, and is said to have been retried less than never. -/
def negativeMessage : Message :=
  ⟨[], { exampleProperties with
    headers := fun name =>
      if name = "x-retry-count" then some (.number (.finite (-5))) else none }⟩

/-- A message that was published with a negative number of retries is handled more often: here,
three times in vain with one retry. -/
theorem handled_too_often :
    ∃ p : Service (workerContext 1), LosslessRun p ∧ ∃ x ∈ items p.shared,
      x.copy.origin.header "x-retry-count" = some (.number (.finite (-5))) ∧
      3 ≤ x.handlings ∧ x.copy.failures = 3 ∧ x.place = .ready .retry := by
  obtain ⟨p, run, found⟩ := Async.Pool.steps_of_check (lossless (workerContext 1))
    (handler (workerContext 1)) (Async.Pool.idle .initial)
    (startMoves 1 0 0 ++ deliverMoves 1 negativeMessage 0 0 1 ++
      [.advance 1 (.concludes .none 2), .event (.expire 0),
        .start 2 (.message 0), .advance 2 (.delivers 0 0), .advance 2 (.concludes .none 2),
        .event (.expire 0),
        .start 3 (.message 0), .advance 3 (.delivers 0 0), .advance 3 (.concludes .none 2)])
    (fun p => ∃ copy ∈ p.shared.server.ready .retry,
      copy.origin.header "x-retry-count" = some (.number (.finite (-5))) ∧
      3 ≤ handlings p.shared copy.serial ∧ copy.failures = 3) (by decide +kernel)
  obtain ⟨copy, mem, header, handled, failures⟩ := found
  exact ⟨p, run, _, item_of_ready mem, header, handled, failures, rfl⟩

/-- That message is not bounded. -/
theorem unbounded_of_negativeMessage :
    ¬ ∀ p : Service (workerContext 1), LosslessRun p → ∀ x ∈ items p.shared,
      x.copy.origin = negativeMessage → x.handlings ≤ (1 : ℤ) + 1 ∧
      ((1 : ℤ) < x.copy.failures → x.place = .ready .deadLetter) := by
  intro bounded
  obtain ⟨n, le, reached⟩ := (bounded_iff_exhausted
    (show 0 ≤ (workerContext 1).config.maxRetries by decide) negativeMessage).mp bounded
  have le : (n : ℤ) ≤ 1 := le
  obtain rfl | rfl : n = 0 ∨ n = 1 := by omega
  · exact absurd reached (by decide)
  · exact absurd reached (by decide +kernel)

end Worker

end OrderPlatform
