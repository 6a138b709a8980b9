import OrderPlatform.Broker.Server
import OrderPlatform.Outbox.Publisher

/-!
# The publisher service

Any number of publisher processes, the broker, and the outbox table.  `Outbox.machine` gives the
calls of the publisher their meaning.  Rows get into the table when the API commits an order, and
exchange, queues and binding get into the broker when some service declares them; both are events
here (`Event`), as are the answers of the broker to what has been published, the loss of
connections, and the death of a process.

The broker answers a publication when it has handled it.  It confirms one that no queue is bound to:
the message is dropped then.

* `Publisher`, `Publication`, `State` — the shared state.
* `Choice`, `perform`, `Event`, `machine` — the meaning of the calls, and what happens beside them.
* `Request`, `handler` — what runs in a process.
-/

namespace OrderPlatform

namespace Outbox

open Async (Tid Machine)
open Rabbit (Message Server Declaration)

/-- The module variables of a process, and whether it runs. -/
structure Publisher where
  alive : Bool
  /-- The variable `channel`, by the connection of the channel. -/
  channel : Option ℕ
  shuttingDown : Bool
  /-- The timer of `schedulePoll` is set. -/
  scheduled : Bool
  /-- The call that polls; no operation looks at it. -/
  polling : Option Tid

namespace Publisher

/-- The process has called `schedulePoll` for the first time. -/
def started : Publisher := ⟨true, none, false, true, none⟩

end Publisher

/-- What has been published on a channel, for which row and by which call, and the answer of the
broker. -/
structure Publication where
  connection : ℕ
  session : Tid
  rowId : Uuid
  message : Message
  answer : Option Bool

/-- The database, the broker, what has been published, and the publisher processes. -/
structure State where
  db : Database
  server : Server
  /-- In the order in which they were written. -/
  publications : List Publication
  processes : ℕ → Option Publisher

/-- Nothing has been started yet. -/
def State.initial : State := ⟨.initial, .empty, [], fun _ => none⟩

namespace State

/-- Change one process and nothing else. -/
def setProcess (w : ℕ) (p : Publisher) (s : State) : State :=
  { s with processes := Function.update s.processes w (some p) }

/-- The client takes a connection to be open. -/
def live (s : State) (c : ℕ) : Bool := (s.server.connections c).any (·.live)

/-- The publications on a channel that have not been answered. -/
def unanswered (s : State) (c : ℕ) : List ℕ :=
  (List.range s.publications.length).filter fun i =>
    (s.publications[i]?).any fun pub => decide (pub.connection = c) && pub.answer.isNone

/-- The answer to a publication. -/
def answer (s : State) (i : ℕ) : Option Bool := s.publications[i]?.bind Publication.answer

/-- The broker has answered a publication. -/
def setAnswer (i : ℕ) (confirmed : Bool) (s : State) : State :=
  { s with publications := s.publications.modify i fun pub => { pub with answer := some confirmed } }

end State

/-- How a call goes. -/
inductive Choice
  | succeeds
  | fails (message : String)
  /-- A statement is executed; a scan finds these rows. -/
  | executes (ids : List Uuid)
  /-- A statement is executed, but the connection is lost before the answer arrives. -/
  | unanswered (ids : List Uuid) (message : String)
  /-- A frame is written; `Date.now()` shows this. -/
  | writes (now : ℕ)

/-- The reply to a statement. -/
def replyOf {α : Type} : Option α → Except String α
  | some v => .ok v
  | none => .error "current transaction is aborted, commands ignored until end of transaction block"

/-- What a call of a running process does. -/
def perform (ctx : PublisherContext) (t : Tid) (w : ℕ) (p : Publisher) :
    Choice → (c : Call) → State → Option (Except String c.Result × State)
  | .succeeds, .enter, s =>
      if p.scheduled then
        some (.ok (), s.setProcess w { p with scheduled := false, polling := some t })
      else none
  | .succeeds, .settled, s =>
      some (.ok (), s.setProcess w { p with scheduled := !p.shuttingDown, polling := none })
  | .succeeds, .acquire, s => some (.ok (), s)
  | .fails e, .acquire, s => some (.error e, s)
  | .executes ids, .query st, s =>
      if s.db.lost t then none
      else (s.db.exec t false ids st).map fun (r, db) => (replyOf r, { s with db })
  | .unanswered ids e, .query st, s =>
      if s.db.lost t then none
      else (s.db.exec t false ids st).map fun (_, db) => (.error e, { s with db := db.disconnect t })
  | .fails e, .query _, s => some (.error e, { s with db := s.db.abort t })
  | .succeeds, .release, s => some (.ok (), s)
  | .succeeds, .count, s =>
      some (.ok (s.db.table.rows.filter fun row => row.publishedAt.isNone).length, s)
  | .fails e, .count, s => some (.error e, s)
  | .succeeds, .ping, s => some (.ok (), s)
  | .fails e, .ping, s => some (.error e, s)
  | .succeeds, .channel, s => some (.ok p.channel, s)
  | .succeeds, .connect, s =>
      some (.ok (s.server.connect w).1, { s with server := (s.server.connect w).2 })
  | .fails e, .connect, s => some (.error e, s)
  | .succeeds, .createConfirmChannel c, s =>
      if s.server.usable c then
        some (.ok (), { s.setProcess w { p with channel := some c } with
          server := s.server.updateConnection c fun x => { x with channel := true } })
      else none
  | .fails e, .createConfirmChannel _, s => some (.error e, s)
  | .succeeds, .assertExchange c, s =>
      if s.server.usable c then
        (s.server.topology.declare .exchange).map fun topology =>
          (.ok (), { s with server := { s.server with topology } })
      else none
  | .fails e, .assertExchange _, s => some (.error e, s)
  | .writes now, .publish c row, s =>
      if s.live c then
        let pub : Publication := ⟨c, t, row.id, messageOf ctx now row, none⟩
        let s' := { s with publications := s.publications ++ [pub] }
        some (.ok (s'.unanswered c), s')
      else some (.error "Channel closed", s)
  | .fails e, .publish _ _, s => some (.error e, s)
  | .succeeds, .waitForConfirms _ awaited, s =>
      if awaited.any fun i => s.answer i = some false then some (.error "message nacked", s)
      else if awaited.all fun i => s.answer i = some true then some (.ok (), s)
      else none
  -- an answer of the broker may not arrive
  | .fails e, .waitForConfirms c _, s => if s.live c then none else some (.error e, s)
  | _, _, _ => none

/-- One operation of a poll, which only a process that is alive can perform. -/
def exec (ctx : PublisherContext) (t : Tid) (choice : Choice) (o : Operation) (s : State) :
    Option (o.Reply × State) :=
  (s.processes o.process).bind fun p =>
    if p.alive then perform ctx t o.process p choice o.call s else none

/-- The row that the API writes. -/
def newRow (id : Uuid) (eventType : String) (payload : Text.Fields) (occurredAt startedAt : ℤ) :
    OutboxRow :=
  ⟨id, eventType, payload, 0, none, startedAt, occurredAt, none, startedAt, none⟩

/-- A message is published to the exchange as `order.created`. -/
def place (m : Message) (s : Server) : Server :=
  { s.route ⟨m, s.nextSerial, m, 0⟩ with nextSerial := s.nextSerial + 1 }

/-- What happens without any poll doing it. -/
inductive Event
  /-- The API commits an order whose transaction began at a moment.  The id of the row is that of
  the event in its payload. -/
  | insert (id : Uuid) (eventType : String) (payload : Text.Fields) (occurredAt startedAt : ℤ)
  /-- Some service declares something. -/
  | declare (d : Declaration)
  /-- The broker handles a publication and confirms it. -/
  | confirm (i : ℕ)
  /-- The broker rejects a publication, which may have got into a queue all the same. -/
  | reject (i : ℕ) (stored : Bool)
  /-- Time passes. -/
  | tick (microseconds : ℕ)
  /-- The database connection of a session is lost. -/
  | disconnect (session : Tid)
  /-- The broker takes no more frames from a connection. -/
  | cut (connection : ℕ)
  /-- The `close` handler of a connection runs. -/
  | closed (connection : ℕ)
  | boot (process : ℕ)
  | die (process : ℕ)
  /-- A process is asked to shut down. -/
  | terminate (process : ℕ)

/-- The broker can handle a publication: it has not been answered, its connection is open, and the
exchange is there. -/
def State.pending (s : State) (i : ℕ) : Option Publication :=
  s.publications[i]?.bind fun pub =>
    if pub.answer.isNone && s.server.accepts pub.connection && s.server.topology.exchange then
      some pub
    else none

/-- An event in a state. -/
def State.event : Event → State → Option State
  | .insert id eventType payload occurredAt startedAt, s =>
      if startedAt ≤ s.db.now ∧ Text.Json.string? (payload.get? "eventId") = some id.text then
        (s.db.table.insert (newRow id eventType payload occurredAt startedAt)).map fun table =>
          { s with db := { s.db with table } }
      else none
  | .declare d, s =>
      (s.server.topology.declare d).map fun topology =>
        { s with server := { s.server with topology } }
  | .confirm i, s =>
      (s.pending i).map fun pub => { s.setAnswer i true with server := place pub.message s.server }
  | .reject i stored, s =>
      (s.pending i).map fun pub =>
        { s.setAnswer i false with
          server := if stored then place pub.message s.server else s.server }
  | .tick n, s => some { s with db := { s.db with now := s.db.now + n } }
  | .disconnect t, s => some { s with db := s.db.disconnect t }
  | .cut c, s => some { s with server := s.server.cut c }
  | .closed c, s => do
      let x ← s.server.connections c
      let p ← s.processes x.owner
      if x.live && p.alive then
        some { s.setProcess x.owner { p with channel := none } with server := s.server.close c }
      else none
  | .boot w, s =>
      match s.processes w with
      | none => some (s.setProcess w .started)
      | some _ => none
  | .die w, s =>
      (s.processes w).map fun p =>
        { s.setProcess w { p with alive := false, scheduled := false } with
          server := { s.server with
            connections := fun c => (s.server.connections c).map fun x =>
              if x.owner = w then { x with isOpen := false, live := false } else x } }
  | .terminate w, s =>
      (s.processes w).map fun p => s.setProcess w { p with shuttingDown := true, scheduled := false }

/-- The publisher service as a machine.  The transaction of a call that dies is rolled back. -/
@[reducible] def machine (ctx : PublisherContext) : Machine where
  Op := Operation
  Reply := Operation.Reply
  Error := String
  State := State
  Choice := Choice
  Event := Event
  exec := exec ctx
  event := State.event
  crash t s := { s with db := s.db.disconnect t }

/-- What runs in a process: the timer of `schedulePoll`, or a request to `/health/ready`. -/
inductive Request
  | poll (process : ℕ)
  | ready (process : ℕ)
deriving DecidableEq

/-- What is run for a tick of the timer and for a health check. -/
def handler (ctx : PublisherContext) : Request → (machine ctx).Task (Option Readiness)
  | .poll w => schedulePoll w ctx.config.batchSize
  | .ready w => healthReady w

/-- The pools of the publisher service. -/
abbrev Service (ctx : PublisherContext) := Async.Pool (machine ctx) Request (Option Readiness)

end Outbox

end OrderPlatform
