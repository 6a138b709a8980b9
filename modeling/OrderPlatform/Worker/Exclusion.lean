import OrderPlatform.Worker.Contract

/-!
# One execution at a time

The row of an event in `processed_events` is a lock as long as its `processed_at` is not set: the
call whose `INSERT` has inserted it performs the work, and every other call finds the row and does
nothing.  Once `processed_at` is set the row stays, and nobody performs the work again.

This holds whatever fails, is late or dies: a call that was given up by its handler still holds
its row, and it is the only one to remove it.

No condition is put on the runs: a statement that fails has no effect, and the claim of a row is a
fact about the table and the thread (`Claimed`), which neither a timeout nor a crash changes.
-/

namespace OrderPlatform

namespace Worker

open Async (Tid)

variable {ctx : WorkerContext} {p q : Service ctx} {t u : Tid}

/-- A call awaits something, or the scheduler may let it. -/
def Awaiting (p : Service ctx) (t : Tid) (c : Call) : Prop :=
  ∃ request task w, p.slot t = .busy request task ∧ task.Awaits ⟨w, c⟩

/-- What `processEvent` awaits between its `INSERT` and its end, for a given event. -/
inductive Execution (ctx : WorkerContext) (id : Uuid) : Call → Prop
  | work {event : OrderCreatedEvent} : ctx.uuid event.eventId = some id → Execution ctx id (.work event)
  | mark {eventId : String} :
      ctx.uuid eventId = some id → Execution ctx id (.query (.markProcessed eventId))
  | cleanup {eventId : String} :
      ctx.uuid eventId = some id → Execution ctx id (.query (.delete eventId))

/-- A call is between its successful `INSERT` and the end of its work or cleanup. -/
def Executing (p : Service ctx) (id : Uuid) (t : Tid) : Prop :=
  ∃ c, Execution ctx id c ∧ Awaiting p t c

/-- Whoever executes the work of an event has its row. -/
theorem Executing.claimed {R : Async.Regime (machine ctx)} {id : Uuid}
    (run : Run R (Async.Pool.idle .initial) p) (executing : Executing p id t) :
    p.shared.events.Claimed t id := by
  obtain ⟨c, execution, request, task, w, busy, awaits⟩ := executing
  have before : Before ctx t ⟨w, c⟩ p.shared := (sound_of_run run).awaiting busy awaits
  have holding : ∀ {eventId : String}, ctx.uuid eventId = some id →
      Holding ctx t eventId p.shared → p.shared.events.Claimed t id := by
    rintro eventId uuid ⟨id', uuid', claimed⟩
    obtain rfl := Option.some.inj (uuid.symm.trans uuid')
    exact claimed
  cases execution with
  | work uuid => exact holding uuid before
  | mark uuid => exact holding uuid before
  | cleanup uuid => exact holding uuid before

/-- An event whose work is done stays so. -/
theorem processed_of_step {R : Async.Regime (machine ctx)} {id : Uuid}
    (run : Run R (Async.Pool.idle .initial) p) (step : Async.Pool.Step R (handler ctx) p q)
    (processed : p.shared.events.Processed id) : q.shared.events.Processed id := by
  rcases Async.Pool.step_cases step with ⟨_, _, _, rfl⟩ |
    ⟨t, request, choice, o, k, r, s, busy, _, hexec, rfl⟩ | ⟨_, _, _, _, _, _, _, rfl⟩ |
    ⟨e, s, _, hevent, rfl⟩ | ⟨_, _, _, _, _, _, rfl⟩
  · exact processed
  · -- there is always another call to vouch for it
    have before := (sound_of_run run).standing busy
    have kept : Rely (t + 1) p.shared s := rely_of_exec before (Nat.succ_ne_self t) hexec
    exact kept.claim.events.processed id processed
  · exact processed
  · obtain ⟨_, events, _⟩ := event_aside hevent
    show s.events.Processed id
    rw [events]
    exact processed
  · exact processed

theorem processed_of_run {R : Async.Regime (machine ctx)} {id : Uuid}
    (run : Run R (Async.Pool.idle .initial) p) (later : Run R p q)
    (processed : p.shared.events.Processed id) : q.shared.events.Processed id := by
  induction later with
  | refl => exact processed
  | tail before step ih => exact processed_of_step (run.trans before) step ih

/-- **The work of an event is executed by one call at a time**, only the call that has inserted the
row removes it, and nobody executes the work of an event that is done.

`Executing.claimed` carries all three parts: whoever works for an event owns its row, and the row is
not marked as processed. -/
theorem one_execution (run : Run (unrestricted ctx) (Async.Pool.idle .initial) p) (id : Uuid) :
    (∀ t u, Executing p id t → Executing p id u → t = u) ∧
      (∀ t eventId, ctx.uuid eventId = some id → Awaiting p t (.query (.delete eventId)) →
        ∃ row ∈ p.shared.events.rows, row.eventId = id ∧ row.owner = t) ∧
      (p.shared.events.Processed id → ∀ q, Run (unrestricted ctx) p q →
        q.shared.events.Processed id ∧
          ∀ t event, ctx.uuid event.eventId = some id → ¬ Awaiting q t (.work event)) := by
  refine ⟨?_, ?_, ?_⟩
  · intro t u executing executing'
    exact (executing.claimed run).owner (executing'.claimed run)
  · intro t eventId uuid awaiting
    obtain ⟨row, mem, event, owner, _⟩ := Executing.claimed run ⟨_, .cleanup uuid, awaiting⟩
    exact ⟨row, mem, event, owner⟩
  · intro processed q later
    have still := processed_of_run run later processed
    refine ⟨still, fun t event uuid awaiting => ?_⟩
    have claimed := Executing.claimed (run.trans later) ⟨_, .work uuid, awaiting⟩
    exact claimed.not_processed still

/-- The event that a call performs the work of. -/
def workingOn (p : Service ctx) (t : Tid) : Option OrderCreatedEvent :=
  match p.slot t with
  | .busy _ (.await ⟨_, .work event⟩ _) => some event
  | _ => none

theorem awaiting_of_workingOn {event : OrderCreatedEvent} (h : workingOn p t = some event) :
    Awaiting p t (.work event) := by
  unfold workingOn at h
  split at h
  · rename_i request w _ k busy
    cases h
    exact ⟨request, _, w, busy, rfl⟩
  · cases h

/-- The event of the worked examples, as the worker reads it. -/
def exampleEvent : OrderCreatedEvent :=
  ⟨exampleEventId, "order.created", exampleOrderId, "2026-01-01T00:00:00.000Z"⟩

/-- Two deliveries of one event: the first one is being worked on, for longer than its handler
waits, and the second one has found its row. -/
theorem one_execution_of_two_deliveries :
    ∃ p : Service (workerContext 3), Run (unrestricted _) (Async.Pool.idle .initial) p ∧
      p.shared.history.concluded 1 = true ∧ p.shared.history.inserts 2 = some false ∧
      Executing p (.ofText exampleEventId) 1 ∧
      ∀ u, Executing p (.ofText exampleEventId) u → u = 1 := by
  obtain ⟨p, run, given, found, working⟩ := Async.Pool.steps_of_check
    (unrestricted (workerContext 3)) (handler (workerContext 3)) (Async.Pool.idle .initial)
    (startMoves 3 0 0 ++ deliverMoves 3 exampleMessage 0 0 1 ++
      [.pick 1 true, .advance 1 (.executes 0), .pick 1 false, .pick 1 false,
        .advance 1 (.concludes .none 2)] ++
      deliverMoves 3 exampleMessage 0 0 2 ++ [.pick 2 true, .advance 2 (.executes 1)])
    (fun p => p.shared.history.concluded 1 = true ∧ p.shared.history.inserts 2 = some false ∧
      workingOn p 1 = some exampleEvent) (by decide +kernel)
  have executing : Executing p (.ofText exampleEventId) 1 :=
    ⟨_, .work rfl, awaiting_of_workingOn working⟩
  exact ⟨p, run, given, found, executing, fun u other =>
    (one_execution run _).1 u 1 other executing⟩

end Worker

end OrderPlatform
