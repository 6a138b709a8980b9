import OrderPlatform.Async.Pool
import OrderPlatform.Worker.Consumer

/-!
# The worker service

Any number of worker processes, the broker, and the table `processed_events`.  `Worker.machine`
gives the calls of the worker their meaning.  A process that has died performs no more calls; a
process that is started again is another process.

The broker loses connections, delivers again what was not acknowledged, and gets messages from
others (`Event`).  A statement that fails has no effect.

Beside that the state keeps a `History` that no step looks at: which delivery a call of
`handleMessage` handles, whether it has come to its end, what its `INSERT` has said, which acks
have been sent, and who has begun a reconnect loop.

* `Process`, `History`, `State` — the shared state.
* `Choice`, `perform`, `Event`, `machine` — the meaning of the calls, and what happens beside them.
* `Request`, `handler` — what runs in a process.
-/

namespace OrderPlatform

namespace Worker

open Async (Tid Machine)
open Rabbit

/-- The module variables of a process, and whether it runs. -/
structure Process where
  alive : Bool
  /-- The variable `channel`, by the connection of the channel. -/
  channel : Option ℕ
  shuttingDown : Bool
  inFlight : ℤ
  /-- Calls of `reconnectLoop` that have been made and have not begun. -/
  loops : ℕ
deriving DecidableEq

namespace Process

/-- A process right after its start: it has no channel, and `reconnectLoop` has been called once. -/
def started : Process := ⟨true, none, false, 0, 1⟩

/-- What a call reads from its process after an await. -/
def snapshot (p : Process) : Snapshot := ⟨p.shuttingDown, p.channel⟩

end Process

/-- An ack, and the call of `handleMessage` that has sent it. -/
structure Acknowledgement where
  tid : Tid
  channel : ℕ
  tag : ℕ
deriving DecidableEq

/-- What a call of `handleMessage` handles, and where. -/
structure Handling where
  process : ℕ
  delivery : Delivery

/-- What the calls have done so far, as the theorems need it.  No operation looks at it. -/
structure History where
  handling : Tid → Option Handling
  /-- The calls of `handleMessage` that handle something. -/
  handlers : List Tid
  /-- Whether a call of `handleMessage` has come to its end. -/
  concluded : Tid → Bool
  /-- Whether the `INSERT` of a call has inserted a row. -/
  inserts : Tid → Option Bool
  acks : List Acknowledgement
  /-- The call of `reconnectLoop` that has begun last in a process. -/
  looping : ℕ → Option Tid

/-- No call has done anything. -/
def History.initial : History :=
  ⟨fun _ => none, [], fun _ => false, fun _ => none, [], fun _ => none⟩

/-- The broker, the worker processes, the table of processed events, and the history. -/
structure State where
  server : Server
  processes : ℕ → Option Process
  events : ProcessedEvents
  history : History

/-- Nothing has been started yet. -/
def State.initial : State := ⟨.empty, fun _ => none, .empty, .initial⟩

namespace State

/-- Change one process and nothing else. -/
def setProcess (w : ℕ) (p : Process) (s : State) : State :=
  { s with processes := Function.update s.processes w (some p) }

/-- A process has a channel as its `channel`, and its client takes it to be open. -/
def writable (s : State) (channel : Option ℕ) : Bool :=
  channel.any fun c => (s.server.connections c).any (·.live)

/-- Whether a connection was made by this process. -/
def owns (s : State) (w c : ℕ) : Bool :=
  (s.server.connections c).any fun x => decide (x.owner = w)

end State

/-- How a call goes. -/
inductive Choice
  /-- The message at a position of the primary queue is delivered on a connection. -/
  | delivers (connection position : ℕ)
  /-- The statement is executed at a moment. -/
  | executes (now : ℤ)
  | succeeds
  | fails (message : String)
  /-- Some calls throw, and so many of the frames reach the broker. -/
  | concludes (faults : Faults) (arriving : ℕ)
deriving DecidableEq

/-- The acks among the frames that a call writes. -/
def acksOf (t : Tid) (fs : List Frame) : List Acknowledgement :=
  fs.filterMap fun
    | .ack c tag _ => some ⟨t, c, tag⟩
    | .publish .. => none

/-- What the `INSERT` of a call has said. -/
def History.noteInsert (t : Tid) (rows : ℕ) : EventStatement → History → History
  | .insert .., h => { h with inserts := Function.update h.inserts t (some (decide (rows ≠ 0))) }
  | .markProcessed _, h => h
  | .delete _, h => h

/-- What a call of a running process does.  A statement is executed and answered, or it fails and has
had no effect; that it is executed and its answer is lost is left out. -/
def perform (ctx : WorkerContext) (t : Tid) (w : ℕ) (p : Process) :
    Choice → (c : Call) → State → Option (Except String c.Result × State)
  | .delivers c i, .receive, s =>
      if s.owns w c then
        (s.server.deliver c i).map fun (d, server) =>
          match p.channel with
          | none => (.ok none, { s with server })
          | some _ =>
              (.ok (some d),
                { s.setProcess w { p with inFlight := p.inFlight + 1 } with
                  server
                  history :=
                    { s.history with
                      handling := Function.update s.history.handling t (some ⟨w, d⟩)
                      handlers := t :: s.history.handlers } })
      else none
  | .executes now, .query st, s =>
      match s.events.exec ctx.uuid now t st with
      | .error e => some (.error e, s)
      | .ok (n, events) =>
          some (.ok n, { s with events, history := s.history.noteInsert t n st })
  | .fails e, .query _, s => some (.error e, s)
  | .succeeds, .work _, s => some (.ok (), s)
  | .fails e, .work _, s => some (.error e, s)
  | .concludes faults n, .conclude d outcome, s =>
      let segment := conclude ctx p.channel (s.writable p.channel) faults d outcome
      some (segment.outcome,
        { s.setProcess w { p with inFlight := p.inFlight - 1 } with
          server := s.server.frames segment.frames n
          history :=
            { s.history with
              concluded := Function.update s.history.concluded t true
              acks := acksOf t segment.frames ++ s.history.acks } })
  | .succeeds, .enter, s =>
      if 0 < p.loops then
        some (.ok p.snapshot,
          { s.setProcess w { p with loops := p.loops - 1 } with
            history :=
              { s.history with looping := Function.update s.history.looping w (some t) } })
      else none
  | .succeeds, .connect, s =>
      some (.ok (s.server.connect w).1, { s with server := (s.server.connect w).2 })
  | .fails e, .connect, s => some (.error e, s)
  | .succeeds, .createChannel c, s =>
      if s.server.usable c then
        some (.ok (), { s.setProcess w { p with channel := some c } with
          server := s.server.updateConnection c fun x => { x with channel := true } })
      else none
  | .fails e, .createChannel _, s => some (.error e, s)
  | .succeeds, .declare c d, s =>
      if s.server.usable c then
        (s.server.topology.declare d).map fun topology =>
          (.ok (), { s with server := { s.server with topology } })
      else none
  | .fails e, .declare _ _, s => some (.error e, s)
  | .succeeds, .prefetch c _, s => if s.server.usable c then some (.ok p.channel, s) else none
  | .fails e, .prefetch _ _, s => some (.error e, s)
  | .succeeds, .consume c, s =>
      if s.server.usable c then
        some (.ok (), { s with
          server := s.server.updateConnection c fun x => { x with consumers := x.consumers + 1 } })
      else none
  | .fails e, .consume _, s => some (.error e, s)
  | .succeeds, .sleep _, s => some (.ok p.snapshot, s)
  | _, _, _ => none

/-- One operation of a call, which only a process that is alive can perform. -/
def exec (ctx : WorkerContext) (t : Tid) (choice : Choice) (o : Operation) (s : State) :
    Option (o.Reply × State) :=
  (s.processes o.process).bind fun p =>
    if p.alive then perform ctx t o.process p choice o.call s else none

/-- What happens without any call doing it. -/
inductive Event
  /-- A message is published to the primary queue. -/
  | publish (m : Message)
  /-- The time of a message in the retry queue is over. -/
  | expire (position : ℕ)
  /-- The broker takes no more frames from a connection. -/
  | cut (connection : ℕ)
  /-- The broker puts back what was delivered on a connection that is gone. -/
  | requeue (connection : ℕ)
  /-- The `close` handler of a connection runs. -/
  | closed (connection : ℕ)
  | boot (process : ℕ)
  | die (process : ℕ)
  /-- A process is asked to shut down. -/
  | terminate (process : ℕ)

/-- An event in a state.  The `close` handler starts `reconnectLoop` unless the process is shutting
down. -/
def State.event (ctx : WorkerContext) : Event → State → Option State
  | .publish m, s => (s.server.publish m).map fun server => { s with server }
  | .expire i, s => (s.server.expire ctx.deadLettering i).map fun server => { s with server }
  | .cut c, s => some { s with server := s.server.cut c }
  | .requeue c, s => (s.server.requeue c).map fun server => { s with server }
  | .closed c, s => do
      let x ← s.server.connections c
      let p ← s.processes x.owner
      if x.live && p.alive then
        some { s.setProcess x.owner
            { p with channel := none, loops := if p.shuttingDown then p.loops else p.loops + 1 } with
          server := s.server.close c }
      else none
  | .boot w, s =>
      match s.processes w with
      | none => some (s.setProcess w .started)
      | some _ => none
  | .die w, s =>
      (s.processes w).map fun p =>
        { s.setProcess w { p with alive := false } with
          server := { s.server with
            connections := fun c => (s.server.connections c).map fun x =>
              if x.owner = w then { x with isOpen := false, live := false, consumers := 0 } else x } }
  | .terminate w, s => (s.processes w).map fun p => s.setProcess w { p with shuttingDown := true }

/-- The worker service as a machine. -/
@[reducible] def machine (ctx : WorkerContext) : Machine where
  Op := Operation
  Reply := Operation.Reply
  Error := String
  State := State
  Choice := Choice
  Event := Event
  exec := exec ctx
  event := State.event ctx
  crash _ s := s

/-- What runs in a process: the consumer callback for one message, or the reconnect loop, of which
so many rounds are followed. -/
inductive Request
  | message (process : ℕ)
  | reconnect (process rounds : ℕ)
deriving DecidableEq

/-- What is run for a message and for a call of `reconnectLoop`. -/
def handler (ctx : WorkerContext) : Request → (machine ctx).Task Unit
  | .message w => handleMessage w ctx
  | .reconnect w rounds => reconnectLoop w ctx.config.prefetch rounds

/-- The pools of the worker service. -/
abbrev Service (ctx : WorkerContext) := Async.Pool (machine ctx) Request Unit

end Worker

end OrderPlatform
