import OrderPlatform.Async.Evaluation
import OrderPlatform.Async.Notes
import OrderPlatform.Outbox.SinglePublication
import OrderPlatform.Worker.Acknowledgement

/-!
# Promises that nobody handles

`schedulePoll` attaches nothing but `finally` to `pollOnce()`, and the consumer callback drops the
promise of `handleMessage(message)`.  If one of them is rejected, nobody handles the rejection.

* `pollOnce` is rejected when `pool.connect()` throws, which stands before its `try`, or when
  `ROLLBACK` throws, which stands in its `catch`; no other call can do it.
* `handleMessage` is rejected when `requeueOrDeadLetter` throws, which stands in its `catch`: on a
  channel that is closed, or because a header of the message cannot be converted to a number or to a
  text.

Both are followed with all replies that their calls may get (`Async.Program.Notes`): a flag is raised
by the errors that nothing catches, and a task throws just when the flag is up.  That they end at all
is a fact about their trees (`Async.Program.Terminates`), which no reply can change.
-/

namespace OrderPlatform

open Async (Tid Performed Path Regime)

/-- A reply that is an error. -/
def isError {α : Type} : Except String α → Bool
  | .ok _ => false
  | .error _ => true

/-! ### The publisher -/

namespace Outbox

variable {ctx : PublisherContext} {t : Tid} {s s' : State} {w : ℕ}

/-- The calls of `pollOnce` whose errors nothing catches.  A release does not fail. -/
def Call.isExposed : Call → Bool
  | .acquire => true
  | .query .rollback => true
  | .release => true
  | _ => false

/-- A call whose error nothing catches has thrown. -/
def uncaught (o : Operation) (r : o.Reply) : Bool := o.call.isExposed && isError r

/-- The operations whose errors are caught. -/
def Sheltered (o : Operation) : Prop := o.call.isExposed = false

theorem flag_sheltered (raised : Bool) (o : Operation) (r : o.Reply) (h : Sheltered o) :
    Async.flag uncaught raised o r = raised := by
  simp [Async.flag, uncaught, show o.call.isExposed = false from h]

theorem call_sheltered {c : Call} (h : c.isExposed = false) :
    (call w c).Only Sheltered := by
  refine ⟨h, fun r => ?_⟩
  cases r with
  | ok v => trivial
  | error e => trivial

theorem pollBatch_sheltered (limit : ℕ) : (pollBatch w limit).Only Sheltered := by
  have connected : (connectRabbit w).Only Sheltered := by
    refine (call_sheltered (c := .channel) rfl).bind fun channel => ?_
    cases channel with
    | some c => trivial
    | none =>
        refine (call_sheltered (c := .connect) rfl).bind fun connection => ?_
        refine (call_sheltered (c := .createConfirmChannel connection) rfl).bind fun _ => ?_
        exact (call_sheltered (c := .assertExchange connection) rfl).bind fun _ => trivial
  have published : ∀ row, (publishRow w row).Only Sheltered := by
    intro row
    refine Async.Program.Only.attempt ?_ fun e => call_sheltered (c := .query (.markFailed ..)) rfl
    refine Async.Program.Only.bind ?_ fun _ => call_sheltered (c := .query (.markPublished row.id)) rfl
    refine connected.bind fun c => (call_sheltered (c := .publish c row) rfl).bind fun awaited => ?_
    exact call_sheltered (c := .waitForConfirms c awaited) rfl
  have all : ∀ rows, (publishRows w rows).Only Sheltered := by
    intro rows
    induction rows with
    | nil => trivial
    | cons row rest ih => exact (published row).bind fun _ => ih
  refine (call_sheltered (c := .query .begin) rfl).bind fun _ => ?_
  refine (call_sheltered (c := .query (.selectBatch limit)) rfl).bind fun rows => ?_
  exact (all rows).bind fun _ => call_sheltered (c := .query .commit) rfl

/-- The `finally` block of `pollOnce`. -/
theorem released_notes (raised : Bool) :
    Async.Program.Notes (Async.flag uncaught) (fun after _ => after = raised)
      (fun after _ => after = true) raised
      ((call w .release).bind fun _ =>
        Async.Program.attempt (refreshUnpublishedGauge w) fun _ => return ()) := by
  intro r
  cases r with
  | error e => exact Bool.or_true raised
  | ok v =>
      intro counted
      cases counted with
      | ok n => simp [Async.flag, uncaught, isError, Call.isExposed, Async.Program.Notes]
      | error e => simp [Async.flag, uncaught, isError, Call.isExposed, Async.Program.Notes]

/-- **`pollOnce` throws only what nothing catches.** -/
theorem pollOnce_notes (limit : ℕ) :
    Async.Program.Notes (Async.flag uncaught) (fun raised _ => raised = false)
      (fun raised _ => raised = true) false
      (pollOnce w limit) := by
  intro r
  cases r with
  | error e => rfl
  | ok v =>
      refine Async.Program.Notes.ensuring (Async.Program.Notes.attempt
        ((Async.Program.Notes.unnoted flag_sheltered (pollBatch_sheltered limit)).mono ?_ ?_))
      · rintro raised _ rfl
        exact released_notes false
      · rintro raised _ rfl r
        cases r with
        | ok v => exact released_notes false
        | error e => exact released_notes true

theorem call_terminates (c : Call) : (call w c).Terminates := by
  intro r
  cases r with
  | ok v => trivial
  | error e => trivial

theorem connectRabbit_terminates : (connectRabbit w).Terminates := by
  refine (call_terminates .channel).bind fun channel => ?_
  cases channel with
  | some c => trivial
  | none =>
      refine (call_terminates .connect).bind fun connection => ?_
      refine (call_terminates (.createConfirmChannel connection)).bind fun _ => ?_
      exact (call_terminates (.assertExchange connection)).bind fun _ => trivial

theorem publishRow_terminates (row : OutboxRow) : (publishRow w row).Terminates := by
  refine Async.Program.Terminates.attempt ?_ fun e => call_terminates (.query (.markFailed ..))
  refine Async.Program.Terminates.bind ?_ fun _ => call_terminates (.query (.markPublished row.id))
  refine connectRabbit_terminates.bind fun c => ?_
  exact (call_terminates (.publish c row)).bind fun awaited =>
    call_terminates (.waitForConfirms c awaited)

theorem publishRows_terminates (rows : List OutboxRow) : (publishRows w rows).Terminates := by
  induction rows with
  | nil => trivial
  | cons row rest ih => exact (publishRow_terminates row).bind fun _ => ih

/-- **A poll comes to an end** when each of its calls does. -/
theorem pollOnce_terminates (limit : ℕ) : (pollOnce w limit).Terminates := by
  refine (call_terminates .acquire).bind fun _ => Async.Program.Terminates.ensuring ?_ ?_
  · refine Async.Program.Terminates.attempt ?_ fun _ => call_terminates (.query .rollback)
    refine (call_terminates (.query .begin)).bind fun _ => ?_
    refine (call_terminates (.query (.selectBatch limit))).bind fun rows => ?_
    exact (publishRows_terminates rows).bind fun _ => call_terminates (.query .commit)
  · refine (call_terminates .release).bind fun _ => ?_
    refine Async.Program.Terminates.attempt ?_ fun _ => trivial
    exact (call_terminates .count).bind fun _ => trivial

/-- A call has thrown. -/
def Threw (t : Tid) (x : Performed (machine ctx)) : Prop :=
  ∃ e s', exec ctx t x.choice x.op x.state = some (.error e, s')

/-- `pool.connect()` or `ROLLBACK` has thrown. -/
def Fatal (t : Tid) (x : Performed (machine ctx)) : Prop :=
  (x.op.call = .acquire ∨ x.op.call = .query .rollback) ∧ Threw t x

theorem isError_iff {α : Type} {r : Except String α} : isError r = true ↔ ∃ e, r = .error e := by
  cases r with
  | ok v => simp [isError]
  | error e => simp [isError]

/-- A release does not throw. -/
theorem release_ok {choice : Choice} {r : Except String Unit}
    (h : exec ctx t choice ⟨w, .release⟩ s = some (r, s')) : isError r = false := by
  obtain ⟨p, _, _, h⟩ := perform_of_exec h
  cases choice <;> cases h
  rfl

/-- What raises the flag. -/
theorem bad_iff {x : Performed (machine ctx)} : x.Bad t uncaught ↔ Fatal t x := by
  obtain ⟨choice, ⟨w, c⟩, s⟩ := x
  constructor
  · rintro ⟨r, s', performed, worse⟩
    simp only [uncaught, Bool.and_eq_true] at worse
    obtain ⟨exposed, error⟩ := worse
    refine ⟨?_, ?_⟩
    · cases c with
      | acquire => exact .inl rfl
      | query st => cases st <;> first | exact .inr rfl | cases exposed
      | release =>
          cases (release_ok performed).symm.trans error
      | _ => cases exposed
    · obtain ⟨e, rfl⟩ := isError_iff.mp error
      exact ⟨e, s', performed⟩
  · rintro ⟨rfl | rfl, e, s', performed⟩
    · exact ⟨_, s', performed, rfl⟩
    · exact ⟨_, s', performed, rfl⟩

end Outbox

/-! ### The worker -/

namespace Worker

variable {ctx : WorkerContext} {t : Tid} {s s' : State} {w : ℕ}

/-- The operations that stand outside the `try` of `handleMessage`, its `catch` among them.  The
consumer callback does not fail. -/
def Call.isExposed : Call → Bool
  | .receive => true
  | .conclude _ _ => true
  | _ => false

/-- An operation outside every `try` of its call has failed. -/
def uncaught (o : Operation) (r : o.Reply) : Bool := o.call.isExposed && isError r

/-- The operation stands inside a `try`. -/
def Sheltered (o : Operation) : Prop := o.call.isExposed = false

theorem flag_sheltered (raised : Bool) (o : Operation) (r : o.Reply) (h : Sheltered o) :
    Async.flag uncaught raised o r = raised := by
  simp [Async.flag, uncaught, show o.call.isExposed = false from h]

theorem call_sheltered {c : Call} (h : c.isExposed = false) : (call w c).Only Sheltered := by
  refine ⟨h, fun r => ?_⟩
  cases r with
  | ok v => trivial
  | error e => trivial

theorem processEvent_sheltered (event : OrderCreatedEvent) :
    (processEvent w event).Only Sheltered := by
  refine (call_sheltered (c := .query (.insert event.eventId event.eventType)) rfl).bind
    fun (inserted : ℕ) => ?_
  show Async.Program.Only Sheltered (if inserted = 0 then _ else _)
  split
  · trivial
  · refine Async.Program.Only.attempt ?_ fun e =>
      (call_sheltered (c := .query (.delete event.eventId)) rfl).bind fun _ => trivial
    refine (call_sheltered (c := .work event) rfl).bind fun _ => ?_
    exact (call_sheltered (c := .query (.markProcessed event.eventId)) rfl).bind fun _ => trivial

/-- **`handleMessage` throws only what its `catch` throws.** -/
theorem handleMessage_notes :
    Async.Program.Notes (Async.flag uncaught) (fun raised _ => raised = false)
      (fun raised _ => raised = true) false (handleMessage w ctx) := by
  have concludes : ∀ d outcome, Async.Program.Notes (Async.flag uncaught)
      (fun raised _ => raised = false) (fun raised _ => raised = true) false
      (call w (.conclude d outcome)) := by
    intro d outcome r
    cases r with
    | ok v => rfl
    | error e => rfl
  intro r
  cases r with
  | error e => rfl
  | ok received =>
      cases received with
      | none => rfl
      | some d =>
          show Async.Program.Notes _ _ _ false (handleDelivery w ctx d)
          unfold handleDelivery
          split
          · exact concludes d _
          · exact Async.Program.Notes.deadline flag_sheltered (processEvent_sheltered _)
              fun outcome => concludes d outcome

theorem call_terminates (c : Call) : (call w c).Terminates := by
  intro r
  cases r with
  | ok v => trivial
  | error e => trivial

theorem processEvent_terminates (event : OrderCreatedEvent) :
    (processEvent w event).Terminates := by
  refine (call_terminates (.query (.insert event.eventId event.eventType))).bind
    fun (inserted : ℕ) => ?_
  show Async.Program.Terminates (if inserted = 0 then _ else _)
  split
  · trivial
  · refine Async.Program.Terminates.attempt ?_ fun e =>
      (call_terminates (.query (.delete event.eventId))).bind fun _ => trivial
    refine (call_terminates (.work event)).bind fun _ => ?_
    exact (call_terminates (.query (.markProcessed event.eventId))).bind fun _ => trivial

/-- **The handling of a message comes to an end** when each of its calls does, in time or not. -/
theorem handleMessage_terminates : (handleMessage w ctx).Terminates := by
  refine (call_terminates .receive).bind fun received => ?_
  cases received with
  | none => trivial
  | some d =>
      show (handleDelivery w ctx d).Terminates
      unfold handleDelivery
      split
      · exact call_terminates (.conclude d _)
      · exact (processEvent_terminates _).deadline fun outcome => call_terminates (.conclude d outcome)

theorem isError_outcome (a : Segment) : isError a.outcome = a.error.isSome := by
  obtain ⟨frames, error⟩ := a
  cases error with
  | none => rfl
  | some e => rfl

/-- When `requeueOrDeadLetter` throws: one of its calls on the channel does, or the conversion of a
header. -/
theorem requeue_throws (c : ℕ) (live : Bool) (faults : Faults) (d : Rabbit.Delivery) (e : String) :
    isError (requeueOrDeadLetter ctx (some c) live faults d e).outcome = true ↔
      ¬(live = true ∧ faults.send = none ∧ faults.settle = none ∧
        convertible ctx d.copy.message.properties.headers = true) := by
  rw [isError_outcome]
  cases converts : convertible ctx d.copy.message.properties.headers with
  | false =>
      have throws : (requeueOrDeadLetter ctx (some c) live faults d e).error.isSome = true :=
        requeueOrDeadLetter_of_not_convertible converts
      simp [throws]
  | true =>
      rw [requeueOrDeadLetter_of_convertible converts]
      obtain ⟨ack, send, settle⟩ := faults
      cases live <;> cases send <;> cases settle <;>
        simp [resent, Segment.write, Segment.andThen]

/-- When the end of a handler throws: it has a channel, and neither the ack of a message that has
been processed nor the way of a message that has failed goes well on it. -/
theorem conclude_throws (channel : Option ℕ) (live : Bool) (faults : Faults) (d : Rabbit.Delivery)
    (outcome : Except String ProcessingResult) :
    isError (conclude ctx channel live faults d outcome).outcome = true ↔
      channel.isSome = true ∧ ¬(live = true ∧
        ((isError outcome = false ∧ faults.ack = none) ∨
          (faults.send = none ∧ faults.settle = none ∧
            convertible ctx d.copy.message.properties.headers = true))) := by
  cases channel with
  | none =>
      cases outcome <;>
        simp [conclude, acknowledge, requeueOrDeadLetter, Segment.rescue, Segment.nothing,
          Segment.outcome, isError]
  | some c =>
      cases outcome with
      | error e =>
          show isError (requeueOrDeadLetter ctx (some c) live faults d e).outcome = true ↔ _
          rw [requeue_throws]
          simp [isError]
      | ok result =>
          cases acked : (acknowledge (some c) live faults d).error with
          | none =>
              -- the message is acknowledged
              have fine : live = true ∧ faults.ack = none := by
                obtain ⟨ack, send, settle⟩ := faults
                cases live <;> cases ack <;>
                  simp [acknowledge, Segment.write] at acked ⊢
              rw [isError_outcome]
              simp only [conclude, Segment.rescue, acked, Option.isSome_some, true_and]
              simp [fine, isError]
          | some e =>
              -- the `catch` is entered, and nothing has been written by then
              have faulty : ¬(live = true ∧ faults.ack = none) := by
                obtain ⟨ack, send, settle⟩ := faults
                cases live <;> cases ack <;>
                  simp [acknowledge, Segment.write] at acked ⊢
              have caught : isError
                  (conclude ctx (some c) live faults d (.ok result)).outcome =
                  isError (requeueOrDeadLetter ctx (some c) live faults d e).outcome := by
                rw [isError_outcome, isError_outcome]
                simp [conclude, Segment.rescue, acked]
              rw [caught, requeue_throws]
              simp only [Option.isSome_some, true_and, isError]
              tauto

/-- The module variable `channel` refers to a channel, and the code that ends a handler throws: the
channel is closed, or the calls on it throw, also those that are made because the first one has
thrown, or a header of a message that has failed cannot be converted. -/
def Fatal (x : Performed (machine ctx)) : Prop :=
  ∃ d outcome faults n p, x.op.call = .conclude d outcome ∧ x.choice = .concludes faults n ∧
    x.state.processes x.op.process = some p ∧ p.alive = true ∧ p.channel.isSome = true ∧
    ¬(x.state.writable p.channel = true ∧
      ((isError outcome = false ∧ faults.ack = none) ∨
        (faults.send = none ∧ faults.settle = none ∧
          convertible ctx d.copy.message.properties.headers = true)))

theorem bad_iff {x : Performed (machine ctx)} : x.Bad t uncaught ↔ Fatal x := by
  obtain ⟨choice, ⟨w, c⟩, s⟩ := x
  constructor
  · rintro ⟨r, s', performed, worse⟩
    simp only [uncaught, Bool.and_eq_true] at worse
    obtain ⟨exposed, error⟩ := worse
    obtain ⟨p, process, alive, done⟩ := perform_of_exec performed
    cases c with
    | receive =>
        obtain ⟨_, _, _, _, _, _, _, ⟨_, rfl, _⟩ | ⟨_, rfl, _⟩⟩ := perform_receive done
        · cases error
        · cases error
    | conclude d outcome =>
        obtain ⟨faults, n, rfl, _, rfl, rfl, _⟩ := perform_conclude done
        obtain ⟨channel, throws⟩ := (conclude_throws _ _ _ _ _).mp error
        exact ⟨d, outcome, faults, n, p, rfl, rfl, process, alive, channel, throws⟩
    | _ => cases exposed
  · rintro ⟨d, outcome, faults, n, p, rfl, rfl, process, alive, channel, throws⟩
    have process : s.processes w = some p := process
    have performed : ∃ s', exec ctx t (.concludes faults n) ⟨w, .conclude d outcome⟩ s =
        some ((conclude ctx p.channel (s.writable p.channel) faults d outcome).outcome, s') := by
      simp only [exec, process, Option.bind_some, alive, if_true]
      exact ⟨_, rfl⟩
    obtain ⟨s', performed⟩ := performed
    refine ⟨_, s', performed, ?_⟩
    exact (conclude_throws p.channel (s.writable p.channel) faults d outcome).mpr ⟨channel, throws⟩

end Worker

/-! ### Both -/

/-- A path that is followed with a flag and has nothing left to do has returned just when the flag was
never raised. -/
theorem returned_iff {M : Async.Machine} {bad : (o : M.Op) → M.Reply o → Bool}
    {Fatal : Performed M → Prop} {t : Tid} {task task' : M.Task Unit} {s s' : M.State}
    {log : List (Performed M)} (path : Path (fun _ _ => True) t task s log task' s')
    (notes : Async.Program.Notes (Async.flag bad) (fun raised _ => raised = false)
      (fun raised _ => raised = true) false task)
    (raised : ∀ x : Performed M, x.Bad t bad ↔ Fatal x) (terminates : task.Terminates)
    (settled : task'.Settled) :
    task'.Ended ∧ (task' = .done () ↔ ∀ x ∈ log, ¬Fatal x) := by
  have ends := Async.Program.Notes.returns_iff path notes
  simp only [raised] at ends
  have ended := path.ended terminates settled
  refine ⟨ended, fun returned => ends.1 () returned, fun harmless => ?_⟩
  obtain ⟨_, returned⟩ | ⟨e, thrown⟩ := ended
  · exact returned
  · obtain ⟨x, mem, fatal⟩ := ends.2 e thrown
    exact absurd fatal (harmless x mem)

/-- **When the promises that nobody handles are fulfilled.**  Both handlers come to their end: what
has no call left to wait for has returned or thrown.  `pollOnce` has returned just when neither
`pool.connect()` nor `ROLLBACK` has thrown, and `handleMessage` just when the code that ends it has
not; whatever else fails, and whatever happens in between. -/
theorem handlers_resolve_iff (publisher : Outbox.PublisherContext) (worker : Worker.WorkerContext)
    (t : Tid) (w : ℕ) :
    (∀ (limit : ℕ) (s s' : Outbox.State) (log : List (Performed (Outbox.machine publisher)))
      (task : (Outbox.machine publisher).Task Unit),
      Path (fun _ _ => True) t (Outbox.pollOnce w limit) s log task s' → task.Settled →
      task.Ended ∧ (task = .done () ↔ ∀ x ∈ log, ¬Outbox.Fatal t x)) ∧
    ∀ (s s' : Worker.State) (log : List (Performed (Worker.machine worker)))
      (task : (Worker.machine worker).Task Unit),
      Path (fun _ _ => True) t (Worker.handleMessage w worker) s log task s' → task.Settled →
      task.Ended ∧ (task = .done () ↔ ∀ x ∈ log, ¬Worker.Fatal x) := by
  constructor
  · intro limit s s' log task path settled
    exact returned_iff path (Outbox.pollOnce_notes limit) (fun _ => Outbox.bad_iff)
      (Outbox.pollOnce_terminates limit) settled
  · intro s s' log task path settled
    exact returned_iff path Worker.handleMessage_notes (fun _ => Worker.bad_iff)
      Worker.handleMessage_terminates settled

/-- A publisher has been started. -/
def publisherStarted : Outbox.State := ⟨.initial, .empty, [], fun _ => some .started⟩

/-- A worker has its channel and its consumer, and a message that is not JSON waits for it. -/
def messageWaiting : Worker.State where
  server :=
    { Rabbit.Server.empty with
      topology := ⟨true, fun _ => true, true⟩
      connections := fun _ => some ⟨0, true, true, true, 1, 1⟩
      ready := fun _ => [⟨Worker.emptyMessage, 0, Worker.emptyMessage, 0⟩] }
  processes := fun _ => some ⟨true, some 0, false, 0, 0⟩
  events := .empty
  history := .initial

/-- A poll whose `SELECT` fails is rolled back, and a message that is not JSON is sent to the retry
queue. -/
theorem handlers_resolve_of_failures :
    (∃ (log : List (Performed (Outbox.machine Outbox.publisherContext))) (s' : Outbox.State),
      Path (fun _ _ => True) 0 (Outbox.pollOnce 0 100) publisherStarted log (.done ()) s' ∧
        ∀ x ∈ log, ¬Outbox.Fatal 0 x) ∧
    ∃ (log : List (Performed (Worker.machine (Worker.workerContext 3)))) (s' : Worker.State),
      Path (fun _ _ => True) 1 (Worker.handleMessage 0 (Worker.workerContext 3)) messageWaiting log
        (.done ()) s' ∧ ∀ x ∈ log, ¬Worker.Fatal x := by
  constructor
  · obtain ⟨log, result, s', evaluates, rfl⟩ := Async.evaluates_of_check
      (M := Outbox.machine Outbox.publisherContext) 0
      [.succeeds, .executes [], .fails "canceling statement due to statement timeout", .executes [],
        .succeeds, .succeeds] (Outbox.pollOnce 0 100) publisherStarted
      (fun _ result _ => result = .ok ()) (by decide)
    have path : Path (fun _ _ => True) 0 _ publisherStarted log (.done ()) s' :=
      evaluates.path.mono fun _ _ _ => trivial
    have resolved := (handlers_resolve_iff Outbox.publisherContext (Worker.workerContext 3) 0 0).1 100
      publisherStarted s' log (.done ()) path (Async.Program.settled_done ())
    exact ⟨log, s', path, resolved.2.mp rfl⟩
  · obtain ⟨log, result, s', evaluates, rfl⟩ := Async.evaluates_of_check
      (M := Worker.machine (Worker.workerContext 3)) 1 [.delivers 0 0, .concludes .none 2]
      (Worker.handleMessage 0 (Worker.workerContext 3)) messageWaiting
      (fun _ result _ => result = .ok ()) (by decide +kernel)
    have path : Path (fun _ _ => True) 1 _ messageWaiting log (.done ()) s' :=
      evaluates.path.mono fun _ _ _ => trivial
    have resolved := (handlers_resolve_iff Outbox.publisherContext (Worker.workerContext 3) 1 0).2
      messageWaiting s' log (.done ()) path (Async.Program.settled_done ())
    exact ⟨log, s', path, resolved.2.mp rfl⟩

/-- **Rejections that nobody handles.**  The pool has no connection for a poll; and a message that is
not JSON arrives, and the channel is closed when it is sent to the retry queue. -/
theorem handlers_reject :
    (∃ p : Outbox.Service Outbox.publisherContext,
      Outbox.Run (Outbox.unrestricted _) (Async.Pool.idle .initial) p ∧
        p.failure 0 = some "timeout exceeded when trying to connect") ∧
    ∃ p : Worker.Service (Worker.workerContext 3),
      Worker.Run (Worker.unrestricted _) (Async.Pool.idle .initial) p ∧
        p.failure 1 = some "Channel closed" := by
  constructor
  · exact Async.Pool.steps_of_check (Outbox.unrestricted Outbox.publisherContext)
      (Outbox.handler Outbox.publisherContext) (Async.Pool.idle .initial)
      [.event (.boot 0), .start 0 (.poll 0), .advance 0 .succeeds,
        .advance 0 (.fails "timeout exceeded when trying to connect"), .advance 0 .succeeds]
      (fun p => p.failure 0 = some "timeout exceeded when trying to connect") (by decide)
  · exact Async.Pool.steps_of_check (Worker.unrestricted (Worker.workerContext 3))
      (Worker.handler (Worker.workerContext 3)) (Async.Pool.idle .initial)
      (Worker.startMoves 3 0 0 ++ Worker.deliverMoves 3 Worker.emptyMessage 0 0 1 ++
        [.advance 1 (.concludes ⟨none, some "Channel closed", none⟩ 0)])
      (fun p => p.failure 1 = some "Channel closed") (by decide +kernel)

end OrderPlatform
