import OrderPlatform.Worker.Exclusion

/-!
# What is acknowledged is done

A row in `processed_events` says that the work of an event has been begun, and only `processed_at` says
that it is done.  The `INSERT` of `processEvent` does not look at it: a delivery that comes back while
the row of a dead process is still there is a duplicate to it, and is acknowledged.  Nothing is left of
the event then but a row that says that it is not done (`event_acknowledged_away`).

In the runs in which no `INSERT` meets such a row (`finishedRows`), whatever else fails, is late or
dies, an event that is acknowledged as processed or as a duplicate is done (`acknowledged_done`).

The condition is on the state before the `INSERT` alone.  That is enough because the row of an event
is the only thing that two deliveries of it share: what a handler knows when its call has returned
(`Outcome`) is a fact about that row, and no step of another call takes it back.
-/

namespace OrderPlatform

namespace Worker

open Async (Tid Regime)
open Rabbit

variable {ctx : WorkerContext} {s s' : State} {t u : Tid}

/-- The work of the event has been begun, and is not known to be done. -/
def ProcessedEvents.Unfinished (id : Uuid) (T : ProcessedEvents) : Prop :=
  ∃ row ∈ T.rows, row.eventId = id ∧ row.processedAt = none

instance decidableUnfinished (id : Uuid) (T : ProcessedEvents) : Decidable (T.Unfinished id) :=
  inferInstanceAs (Decidable (∃ row ∈ T.rows, row.eventId = id ∧ row.processedAt = none))

/-- No `INSERT` finds the row of an event whose work is not done.  The condition is on the state
before the step, and on nothing else: the row of a process that has died, or of one that is still
at work, is what the code takes for a finished event. -/
def finishedRows (ctx : WorkerContext) : Regime (machine ctx) where
  advance := fun _ choice o s =>
    match choice, o.call with
    | .executes _, .query (.insert eventId _) =>
        ∀ id ∈ ctx.uuid eventId, ¬s.events.Unfinished id
    | _, _ => True
  event := fun _ _ => True
  crash := fun _ _ => True

/-- A row that an `INSERT` finds is one of an event that is done. -/
theorem ProcessedEvents.processed_of_conflict {T : ProcessedEvents} {row : ProcessedEventRow}
    (finished : ¬T.Unfinished row.eventId) (conflict : (T.insert row).1 = 0) :
    (T.insert row).2.Processed row.eventId := by
  obtain ⟨same, old, mem, event⟩ := insert_conflict conflict
  rw [same]
  refine ⟨old, mem, event, ?_⟩
  cases marked : old.processedAt with
  | none => exact absurd ⟨old, mem, event, marked⟩ finished
  | some moment => rfl

/-- The event of a call that has found its row is done. -/
def DuplicatesDone (ctx : WorkerContext) (s : State) : Prop :=
  ∀ t, s.history.inserts t = some false → ∃ h id, s.history.handling t = some h ∧
    eventOf ctx h.delivery.copy.message = some id ∧ s.events.Processed id

/-- What leaves a call its delivery and what its `INSERT` has said, and no event undone. -/
theorem DuplicatesDone.later_at {h : Handling} {id : Uuid}
    (handling : s'.history.handling t = s.history.handling t)
    (processed : ∀ id, s.events.Processed id → s'.events.Processed id)
    (before : s.history.handling t = some h ∧ eventOf ctx h.delivery.copy.message = some id ∧
      s.events.Processed id) :
    ∃ h id, s'.history.handling t = some h ∧ eventOf ctx h.delivery.copy.message = some id ∧
      s'.events.Processed id :=
  ⟨h, id, handling.trans before.1, before.2.1, processed id before.2.2⟩

/-- **What a call does to the duplicates.** -/
theorem duplicatesDone_of_perform {w : ℕ} {c : Call} {choice : Choice} {p : Process}
    {r : Except String c.Result} (before : Before ctx t ⟨w, c⟩ s)
    (allowed : (finishedRows ctx).advance t choice ⟨w, c⟩ s)
    (processed : ∀ id, s.events.Processed id → s'.events.Processed id)
    (others : ∀ u, u ≠ t → Rely u s s')
    (h : perform ctx t w p choice c s = some (r, s')) (inv : DuplicatesDone ctx s) :
    DuplicatesDone ctx s' := by
  intro u found
  by_cases other : u ≠ t
  · have kept := (others u other).claim
    obtain ⟨h, id, done⟩ := inv u (kept.inserts.symm.trans found)
    exact DuplicatesDone.later_at kept.handling processed done
  · obtain rfl : u = t := Classical.not_not.mp other
    have quiet : s'.history.inserts u = s.history.inserts u →
        s'.history.handling u = s.history.handling u →
        ∃ h id, s'.history.handling u = some h ∧
          eventOf ctx h.delivery.copy.message = some id ∧ s'.events.Processed id := by
      intro inserts handling
      obtain ⟨h, id, done⟩ := inv u (inserts.symm.trans found)
      exact DuplicatesDone.later_at handling processed done
    by_cases aside : c.ofHandler = false
    · obtain ⟨_, history⟩ := perform_aside aside h
      exact quiet (by rw [history]) (by rw [history])
    · cases c with
      | receive =>
          -- a call that receives has not sent its `INSERT` yet
          obtain ⟨none', _⟩ : s.history.handling u = none ∧ _ := before
          have inserts : s'.history.inserts u = s.history.inserts u := by
            obtain ⟨_, _, _, _, _, _, _, ⟨_, _, rfl⟩ | ⟨_, _, rfl⟩⟩ := perform_receive h
            · rfl
            · rfl
          obtain ⟨_, _, handled, _⟩ := inv u (inserts.symm.trans found)
          rw [none'] at handled
          cases handled
      | query st =>
          obtain ⟨_, _, rfl⟩ | ⟨now, n, T, rfl, executed, _, rfl⟩ := perform_query h
          · exact inv u found
          · cases st with
            | markProcessed eventId => exact quiet rfl rfl
            | delete eventId => exact quiet rfl rfl
            | insert eventId eventType =>
                obtain ⟨_, d, event, handling, parsed, rfl⟩ := before
                obtain ⟨id, uuid, same⟩ := ProcessedEvents.effect_of_exec executed
                have same : (n, T) = s.events.insert _ := same
                have zero : n = 0 := by
                  have found : Function.update s.history.inserts u (some (decide (n ≠ 0))) u =
                    some false := found
                  rw [Function.update_self] at found
                  simpa using found
                refine ⟨_, id, handling, ?_, ?_⟩
                · unfold eventOf
                  rw [parsed]
                  exact uuid
                · have finished : ¬s.events.Unfinished id := allowed id uuid
                  show T.Processed id
                  rw [show T = _ from congrArg Prod.snd same]
                  exact ProcessedEvents.processed_of_conflict finished
                    ((congrArg Prod.fst same).symm.trans zero)
      | conclude d outcome =>
          obtain ⟨_, _, _, _, _, _, rfl⟩ := perform_conclude h
          exact quiet rfl rfl
      | _ => exact absurd rfl aside

theorem duplicatesDone_of_run {p : Service ctx}
    (run : Run (finishedRows ctx) (Async.Pool.idle .initial) p) : DuplicatesDone ctx p.shared := by
  induction run with
  | refl => exact fun _ found => by cases found
  | tail before step ih =>
      have kept := fun id (processed : ProcessedEvents.Processed id _) =>
        processed_of_step before step processed
      rcases Async.Pool.step_cases step with ⟨_, _, _, rfl⟩ |
        ⟨t, request, choice, o, k, r, s, busy, allowed, hexec, rfl⟩ | ⟨_, _, _, _, _, _, _, rfl⟩ |
        ⟨e, s, _, hevent, rfl⟩ | ⟨_, _, _, _, _, _, rfl⟩
      · exact ih
      · have here := (sound_of_run before).standing busy
        obtain ⟨p, _, _, done⟩ := perform_of_exec hexec
        exact duplicatesDone_of_perform (w := o.process) (c := o.call) here allowed kept
          (fun u other => rely_of_exec here other hexec) done ih
      · exact ih
      · obtain ⟨_, events, history⟩ := event_aside hevent
        intro t found
        have found : s.history.inserts t = some false := found
        rw [history] at found
        obtain ⟨h, id, handling, about, processed⟩ := ih t found
        exact ⟨h, id, by rw [history]; exact handling, about, kept id processed⟩
      · exact ih

/-- **What is acknowledged is done.**  Whoever is about to acknowledge a delivery as processed or
as a duplicate acknowledges an event that is done.

`processed` is known from the call itself, which has marked the row; `duplicate` only from the row
that its `INSERT` has found, and there the regime is used: the row was done by then, and done rows
stay. -/
theorem acknowledged_done {p : Service ctx}
    (run : Run (finishedRows ctx) (Async.Pool.idle .initial) p) {d : Delivery}
    {result : ProcessingResult} (acknowledges : Awaiting p t (.conclude d (.ok result))) :
    ∃ id, eventOf ctx d.copy.message = some id ∧ p.shared.events.Processed id := by
  obtain ⟨request, task, w, busy, awaits⟩ := acknowledges
  obtain ⟨handling, _, outcome⟩ : Before ctx t ⟨w, .conclude d (.ok result)⟩ p.shared :=
    (sound_of_run run).awaiting busy awaits
  cases result with
  | processed => exact outcome
  | duplicate =>
      obtain ⟨_, _, found⟩ := outcome
      obtain ⟨h, id, handling', about, processed⟩ := duplicatesDone_of_run run t found
      obtain rfl : ⟨w, d⟩ = h := Option.some.inj (handling.symm.trans handling')
      exact ⟨id, about, processed⟩

/-! ### Two schedules -/

instance decidableFinishedRowsAdvance (t : Tid) :
    (choice : Choice) → (o : Operation) → (s : State) →
      Decidable ((finishedRows ctx).advance t choice o s)
  | .executes _, ⟨_, .query (.insert eventId _)⟩, s =>
      inferInstanceAs (Decidable (∀ id ∈ ctx.uuid eventId, ¬s.events.Unfinished id))
  | .executes _, ⟨_, .query (.markProcessed _)⟩, _ => .isTrue trivial
  | .executes _, ⟨_, .query (.delete _)⟩, _ => .isTrue trivial
  | .executes _, ⟨_, .receive⟩, _ => .isTrue trivial
  | .executes _, ⟨_, .work _⟩, _ => .isTrue trivial
  | .executes _, ⟨_, .conclude _ _⟩, _ => .isTrue trivial
  | .executes _, ⟨_, .enter⟩, _ => .isTrue trivial
  | .executes _, ⟨_, .connect⟩, _ => .isTrue trivial
  | .executes _, ⟨_, .createChannel _⟩, _ => .isTrue trivial
  | .executes _, ⟨_, .declare _ _⟩, _ => .isTrue trivial
  | .executes _, ⟨_, .prefetch _ _⟩, _ => .isTrue trivial
  | .executes _, ⟨_, .consume _⟩, _ => .isTrue trivial
  | .executes _, ⟨_, .sleep _⟩, _ => .isTrue trivial
  | .delivers _ _, _, _ => .isTrue trivial
  | .succeeds, _, _ => .isTrue trivial
  | .fails _, _, _ => .isTrue trivial
  | .concludes _ _, _, _ => .isTrue trivial

instance decidableFinishedRowsEvent (e : Event) (s : State) :
    Decidable ((finishedRows ctx).event e s) := .isTrue trivial

instance decidableFinishedRowsCrash (t : Tid) (s : State) :
    Decidable ((finishedRows ctx).crash t s) := .isTrue trivial

/-- The delivery that a call is about to acknowledge, and what its processing has returned. -/
def acknowledging (p : Service ctx) (t : Tid) : Option (Delivery × ProcessingResult) :=
  match p.slot t with
  | .busy _ (.await ⟨_, .conclude d (.ok result)⟩ _) => some (d, result)
  | _ => none

theorem awaiting_of_acknowledging {p : Service ctx} {d : Delivery} {result : ProcessingResult}
    (h : acknowledging p t = some (d, result)) : Awaiting p t (.conclude d (.ok result)) := by
  unfold acknowledging at h
  split at h
  · rename_i request w _ _ k busy
    cases h
    exact ⟨request, _, w, busy, rfl⟩
  · cases h

/-- An event is processed, and its message is published once more: the second delivery is a duplicate
of an event that is done. -/
theorem acknowledged_done_of_two_messages :
    ∃ (p : Service (workerContext 3)) (d : Delivery),
      Run (finishedRows _) (Async.Pool.idle .initial) p ∧
      Awaiting p 2 (.conclude d (.ok .duplicate)) ∧
      ∃ id, eventOf (workerContext 3) d.copy.message = some id ∧ p.shared.events.Processed id := by
  obtain ⟨p, run, returned⟩ := Async.Pool.steps_of_check
    (finishedRows (workerContext 3)) (handler (workerContext 3)) (Async.Pool.idle .initial)
    (startMoves 3 0 0 ++ deliverMoves 3 exampleMessage 0 0 1 ++
      [.pick 1 true, .advance 1 (.executes 0), .pick 1 true, .advance 1 .succeeds, .pick 1 true,
        .advance 1 (.executes 1), .advance 1 (.concludes .none 1)] ++
      deliverMoves 3 exampleMessage 0 0 2 ++ [.pick 2 true, .advance 2 (.executes 2)])
    (fun p => (acknowledging p 2).map Prod.snd = some .duplicate) (by decide +kernel)
  obtain ⟨⟨d, result⟩, answered, same⟩ := Option.map_eq_some_iff.mp returned
  obtain rfl : result = .duplicate := same
  have acknowledges := awaiting_of_acknowledging answered
  exact ⟨p, d, run, acknowledges, acknowledged_done run acknowledges⟩

/-- What is left of the messages in the broker: those in its queues, and those that are being
handled. -/
def remaining (s : State) : ℕ :=
  (s.server.ready .primary).length + (s.server.ready .retry).length +
    (s.server.ready .deadLetter).length + s.server.unacked.length

/-- **An event is acknowledged away.**  A process dies between its `INSERT` and the work, and the
delivery goes to another one, which takes it for a duplicate.  After its `ack` there is no message any
more, neither to be handled nor dead, and the event is not done. -/
theorem event_acknowledged_away :
    ∃ p : Service (workerContext 3), Run (unrestricted _) (Async.Pool.idle .initial) p ∧
      p.shared.history.acks = [⟨3, 1, 1⟩] ∧ p.shared.history.inserts 3 = some false ∧
      remaining p.shared = 0 ∧ p.shared.events.Unfinished (.ofText exampleEventId) := by
  obtain ⟨p, run, final⟩ := Async.Pool.steps_of_check
    (unrestricted (workerContext 3)) (handler (workerContext 3)) (Async.Pool.idle .initial)
    (startMoves 3 0 0 ++ deliverMoves 3 exampleMessage 0 0 1 ++
      [.pick 1 true, .advance 1 (.executes 0), .event (.die 0), .event (.requeue 0)] ++
      startMoves 3 1 2 ++
      [.start 3 (.message 1), .advance 3 (.delivers 1 0), .pick 3 true, .advance 3 (.executes 1),
        .advance 3 (.concludes .none 1)])
    (fun p => p.shared.history.acks = [⟨3, 1, 1⟩] ∧ p.shared.history.inserts 3 = some false ∧
      remaining p.shared = 0 ∧ p.shared.events.Unfinished (.ofText exampleEventId))
    (by decide +kernel)
  exact ⟨p, run, final⟩

end Worker

end OrderPlatform
