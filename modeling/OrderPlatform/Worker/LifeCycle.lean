import OrderPlatform.Worker.Contents
import OrderPlatform.Worker.Prefetch
import OrderPlatform.Worker.Retries

/-!
# The life of a message

What the invariants of the worker say of whole runs.

* `life_cycle` — broker and workers together do to a message what `Transit` allows, one step after
  the other, as long as no connection is lost.
* `settled_stays` — what is completed or dead stays so.
* `in_flight_exact` — `inFlight`, the handlers and the unacknowledged deliveries are one number.
* `in_flight_counts`, `read_again` — what holds of lossy runs as well.
-/

namespace OrderPlatform

namespace Worker

open Async (Tid Regime)
open Rabbit

variable {ctx : WorkerContext} {s : State} {p q : Service ctx}

/-! ### The life cycle -/

/-- No two things in the broker stem from the same publication. -/
theorem Tracked.unique (tracked : Tracked s) {x y : Item} (mem : x ∈ items s) (mem' : y ∈ items s)
    (same : x.serial = y.serial) : x = y := by
  have nodup : ((items s).map Item.serial).Nodup := by
    rw [tracked.serials]
    exact Multiset.nodup_range _
  exact Multiset.inj_on_of_nodup_map nodup x mem y mem' same

/-- Nothing happens to what is completed or dead. -/
theorem Transit.not_settled {a b : Item} (turn : Transit ctx a b) :
    a.place ≠ .completed ∧ a.place ≠ .ready .deadLetter := by
  cases turn with
  | delivered copy n => exact ⟨nofun, nofun⟩
  | completed copy n => exact ⟨nofun, nofun⟩
  | failed copy n e => exact ⟨nofun, nofun⟩
  | expired copy n => exact ⟨nofun, nofun⟩

/-- **The life of a message.**  At any later moment there is exactly one copy of it, and it has
moved along the life cycle.  A life is a path of moves, one for each step that concerns the
message, so the statement relates any two moments of a run and not only the end to the beginning. -/
theorem life_cycle (start : LosslessRun p) (run : Run (lossless ctx) p q) :
    ∀ a ∈ items p.shared, ∃ b ∈ items q.shared, Relation.ReflTransGen (Transit ctx) a b ∧
      ∀ c ∈ items q.shared, c.serial = a.serial → c = b := by
  intro a mem
  obtain ⟨b, mem', path⟩ := follows_of_run start run a mem
  have tracked := (fits_of_run (start.trans run)).tracked
  refine ⟨b, mem', path, fun c mem'' same => ?_⟩
  exact tracked.unique mem'' mem' (same.trans (same_of_transits path).1.symm)

/-- **What is settled stays settled**: the same copy in the same place, and nobody has handled it
again. -/
theorem settled_stays (start : LosslessRun p) (run : Run (lossless ctx) p q) :
    ∀ a ∈ items p.shared, a.place = .completed ∨ a.place = .ready .deadLetter →
      a ∈ items q.shared := by
  intro a mem settled
  obtain ⟨b, mem', path⟩ := follows_of_run start run a mem
  rcases Relation.ReflTransGen.cases_head path with rfl | ⟨c, turn, _⟩
  · exact mem'
  · obtain ⟨done, dead⟩ := turn.not_settled
    exact absurd settled (not_or.mpr ⟨done, dead⟩)

/-- What follows `retryMoves`: the message fails once more. -/
def lastMoves : List (WorkerMove 1) :=
  [.start 2 (.message 0), .advance 2 (.delivers 0 0), .advance 2 (.concludes .none 2)]

/-- A message that has failed once becomes a dead letter. -/
theorem life_cycle_of_two_failures :
    ∃ p q : Service (workerContext 1), LosslessRun p ∧ Run (lossless _) p q ∧
      (p.shared.server.ready .primary).map Copy.failures = [1] ∧
      (q.shared.server.ready .deadLetter).map Copy.failures = [2] ∧
      ∀ a ∈ items p.shared, ∃ b ∈ items q.shared,
        Relation.ReflTransGen (Transit (workerContext 1)) a b ∧
        ∀ c ∈ items q.shared, c.serial = a.serial → c = b := by
  obtain ⟨p, start, failed, again⟩ := Async.Pool.steps_of_check (lossless (workerContext 1))
    (handler (workerContext 1)) (Async.Pool.idle .initial) retryMoves
    (fun p => (p.shared.server.ready .primary).map Copy.failures = [1] ∧
      (Async.Pool.run (lossless _) (handler _) p lastMoves).any (fun q =>
        decide ((q.shared.server.ready .deadLetter).map Copy.failures = [2])) = true)
    (by decide +kernel)
  obtain ⟨q, run, dead⟩ := Async.Pool.steps_of_check (lossless (workerContext 1))
    (handler (workerContext 1)) p lastMoves
    (fun q => (q.shared.server.ready .deadLetter).map Copy.failures = [2]) again
  exact ⟨p, q, start, run, failed, dead, life_cycle start run⟩

/-- A dead letter stays one while another message arrives. -/
theorem settled_stays_of_deadLetter :
    ∃ p q : Service (workerContext 1), LosslessRun p ∧ Run (lossless _) p q ∧
      (p.shared.server.ready .deadLetter).map Copy.failures = [2] ∧
      (q.shared.server.ready .primary).length = 1 ∧
      ∀ a ∈ items p.shared, a.place = .completed ∨ a.place = .ready .deadLetter →
        a ∈ items q.shared := by
  obtain ⟨p, start, dead, again⟩ := Async.Pool.steps_of_check (lossless (workerContext 1))
    (handler (workerContext 1)) (Async.Pool.idle .initial) (retryMoves ++ lastMoves)
    (fun p => (p.shared.server.ready .deadLetter).map Copy.failures = [2] ∧
      (Async.Pool.run (lossless _) (handler _) p [.event (.publish emptyMessage)]).any (fun q =>
        decide ((q.shared.server.ready .primary).length = 1)) = true)
    (by decide +kernel)
  obtain ⟨q, run, arrived⟩ := Async.Pool.steps_of_check (lossless (workerContext 1))
    (handler (workerContext 1)) p [.event (.publish emptyMessage)]
    (fun q => (q.shared.server.ready .primary).length = 1) again
  exact ⟨p, q, start, run, dead, arrived, settled_stays start run⟩

/-! ### Handlers, deliveries and `inFlight` -/

/-- The delivery that a call of `handleMessage` of a process is at work on. -/
def atWork (s : State) (w : ℕ) (t : Tid) : Option Delivery :=
  if runs s w t = true then (s.history.handling t).map Handling.delivery else none

theorem atWork_eq_some {w : ℕ} {t : Tid} {d : Delivery} :
    atWork s w t = some d ↔
      s.history.concluded t = false ∧ s.history.handling t = some ⟨w, d⟩ := by
  unfold atWork
  constructor
  · intro h
    split at h
    · rename_i running
      obtain ⟨unconcluded, ⟨w', d'⟩, known, rfl⟩ := runs_iff.mp running
      rw [known] at h
      obtain rfl : d' = d := Option.some.inj h
      exact ⟨unconcluded, known⟩
    · cases h
  · rintro ⟨unconcluded, known⟩
    rw [if_pos (runs_iff.mpr ⟨unconcluded, _, known, rfl⟩), known]
    rfl

/-- The unacknowledged deliveries on the connections of a process. -/
def unackedBy (s : State) (w : ℕ) : List Delivery :=
  s.server.unacked.filter fun d => s.owns w d.channel

/-- What the handlers of a process are at work on is what it has not acknowledged. -/
theorem atWork_perm (steady : Steady s) (counted : Counted s) (w : ℕ) :
    (s.history.handlers.filterMap (atWork s w)).Perm (unackedBy s w) := by
  have distinct : s.server.unacked.Nodup := steady.numbered.distinct.of_map _
  refine (List.perm_ext_iff_of_nodup ?_ (distinct.filter _)).mpr fun d => ?_
  · -- two handlers never have the same delivery
    refine counted.once.filterMap fun t u d here there => ?_
    obtain ⟨_, known⟩ := atWork_eq_some.mp here
    obtain ⟨_, known'⟩ := atWork_eq_some.mp there
    exact steady.numbered.single t u _ _ known known' rfl
  · rw [List.mem_filterMap, List.mem_filter]
    constructor
    · rintro ⟨t, _, here⟩
      obtain ⟨unconcluded, known⟩ := atWork_eq_some.mp here
      obtain ⟨mem, stored⟩ := steady.inHand.handled t _ known unconcluded
      exact ⟨mem, steady.connected.owned w d.channel stored⟩
    · rintro ⟨mem, own⟩
      obtain ⟨t, w', known, unconcluded⟩ := steady.inHand.delivered d mem
      obtain ⟨x, connection, owner, _⟩ := steady.numbered.handled t _ known
      obtain ⟨x', connection', owner'⟩ := owns_iff.mp own
      obtain rfl : x = x' := Option.some.inj (connection.symm.trans connection')
      obtain rfl : w' = w := owner.symm.trans owner'
      exact ⟨t, (counted.listed t).mpr (by rw [known]; rfl), atWork_eq_some.mpr ⟨unconcluded, known⟩⟩

/-- The calls of `handleMessage` at work are counted by what they are at work on. -/
theorem running_eq_length (counted : Counted s) (w : ℕ) :
    running s w = (s.history.handlers.filterMap (atWork s w)).length := by
  rw [List.length_filterMap_eq_countP]
  refine List.countP_congr fun t mem => ?_
  unfold atWork
  split
  · rename_i here
    rw [Option.isSome_map, here, (counted.listed t).mp mem]
  · rename_i here
    simpa using here

/-- **`inFlight` is exact**: as long as no connection is lost it counts the deliveries that the
process has not acknowledged, and each of them is in the hands of one handler.  The count is a
module variable, and an acknowledgement a fact about the broker; that they agree rests on the
handlers writing both at one moment, in the code behind their last `await`. -/
theorem in_flight_exact (run : LosslessRun p) :
    (∀ w P, p.shared.processes w = some P → P.inFlight = (unackedBy p.shared w).length) ∧
    ∀ d ∈ p.shared.server.unacked, ∃! t, p.shared.history.concluded t = false ∧
      ∃ w, p.shared.history.handling t = some ⟨w, d⟩ := by
  have steady := steady_of_run run
  have counted := Counted.of_run run
  refine ⟨fun w P process => ?_, fun d mem => ?_⟩
  · rw [counted.count w P process, running_eq_length counted, (atWork_perm steady counted w).length_eq]
  · obtain ⟨t, w, known, unconcluded⟩ := steady.inHand.delivered d mem
    refine ⟨t, ⟨unconcluded, w, known⟩, ?_⟩
    rintro u ⟨_, w', known'⟩
    exact steady.numbered.single u t _ _ known' known rfl

theorem in_flight_exact_of_delivery :
    ∃ p : Service (workerContext 1), LosslessRun p ∧
      (p.shared.processes 0).map Process.inFlight = some 1 ∧
      (∀ w P, p.shared.processes w = some P → P.inFlight = (unackedBy p.shared w).length) ∧
      ∀ d ∈ p.shared.server.unacked, ∃! t, p.shared.history.concluded t = false ∧
        ∃ w, p.shared.history.handling t = some ⟨w, d⟩ := by
  obtain ⟨p, run, one⟩ := Async.Pool.steps_of_check (lossless (workerContext 1))
    (handler (workerContext 1)) (Async.Pool.idle .initial)
    (startMoves 1 0 0 ++ deliverMoves 1 emptyMessage 0 0 1)
    (fun p => (p.shared.processes 0).map Process.inFlight = some 1) (by decide)
  exact ⟨p, run, one, in_flight_exact run⟩

/-! ### Whatever is lost -/

/-- **`inFlight` counts handlers** in every run: it is the number of calls of `handleMessage` that have
begun and have not come to their end, whatever times out, throws or is lost. -/
theorem in_flight_counts {R : Regime (machine ctx)} (run : Run R (Async.Pool.idle .initial) p)
    {w : ℕ} {P : Process} (process : p.shared.processes w = some P) :
    P.inFlight = (p.shared.history.handlers.filter (runs p.shared w)).length ∧
      p.shared.history.handlers.Nodup ∧
      ∀ t, t ∈ p.shared.history.handlers ↔ (p.shared.history.handling t).isSome := by
  have counted := Counted.of_run run
  refine ⟨?_, counted.once, counted.listed⟩
  rw [counted.count w P process, ← List.countP_eq_length_filter]
  rfl

/-- After a reconnect the old handler still counts. -/
theorem in_flight_counts_of_reconnect :
    ∃ (p : Service (workerContext 3)) (P : Process), Run (unrestricted _) (Async.Pool.idle .initial) p ∧
      p.shared.processes 0 = some P ∧ P.inFlight = 2 ∧
      P.inFlight = (p.shared.history.handlers.filter (runs p.shared 0)).length := by
  obtain ⟨p, run, two⟩ := Async.Pool.steps_of_check (unrestricted (workerContext 3))
    (handler (workerContext 3)) (Async.Pool.idle .initial)
    (startMoves 3 0 0 ++ deliverMoves 3 emptyMessage 0 0 1 ++ lossMoves 3 0 0 2 ++
      [.start 3 (.message 0), .advance 3 (.delivers 1 0)])
    (fun p => (p.shared.processes 0).map Process.inFlight = some 2) (by decide)
  obtain ⟨P, process, count⟩ := Option.map_eq_some_iff.mp two
  exact ⟨p, P, run, process, count, (in_flight_counts run process).1⟩

/-- **Every delivery of a message reads the same**, however often it is sent again, put back or
delivered twice: the worker finds the same event in it, or the same error, and the same correlation
id. -/
theorem read_again {R : Regime (machine ctx)} (run : Run R (Async.Pool.idle .initial) p) {t : Tid}
    {h : Handling} (handling : p.shared.history.handling t = some h) :
    parseEvent ctx h.delivery.copy.message = parseEvent ctx h.delivery.copy.origin ∧
      ("x-correlation-id" ∉ ctx.deadLettering.own →
        correlationId h.delivery.copy.message = correlationId h.delivery.copy.origin) ∧
      ∀ q, ∀ copy ∈ p.shared.server.ready q, Resent ctx copy := by
  have everywhere := resent_of_run run
  have resent := everywhere.handled t h handling
  exact ⟨resent.parseEvent, resent.correlationId, everywhere.server.ready⟩

/-- A message is read again after a retry. -/
theorem read_again_of_retry :
    ∃ (p : Service (workerContext 1)) (h : Handling), LosslessRun p ∧
      p.shared.history.handling 2 = some h ∧ h.delivery.copy.failures = 1 ∧
      parseEvent (workerContext 1) h.delivery.copy.message =
        parseEvent (workerContext 1) h.delivery.copy.origin := by
  obtain ⟨p, run, again⟩ := Async.Pool.steps_of_check (lossless (workerContext 1))
    (handler (workerContext 1)) (Async.Pool.idle .initial)
    (retryMoves ++ [.start 2 (.message 0), .advance 2 (.delivers 0 0)])
    (fun p => (p.shared.history.handling 2).map (fun h => h.delivery.copy.failures) = some 1)
    (by decide +kernel)
  obtain ⟨h, handling, failures⟩ := Option.map_eq_some_iff.mp again
  exact ⟨p, h, run, handling, failures, (read_again run handling).1⟩

end Worker

end OrderPlatform
