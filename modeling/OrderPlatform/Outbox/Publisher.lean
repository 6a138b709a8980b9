import OrderPlatform.Broker.Messages
import OrderPlatform.Outbox.Events

/-!
# The outbox publisher

A publisher process polls the outbox table: in one transaction it selects a batch of rows that are
due, publishes each of them on a confirm channel and waits for the confirmation, and marks the row
as published; a row that could not be published is tried again later.

`publish` writes its frame and asks for the confirmations in one stretch without an `await`.  So the
publications that it waits for are those that have not been answered when the frame has been
written, its own one among them.

* `backoffSeconds`, `messageOf` — how long to wait, what to send.
* `Call`, `Operation` — what is awaited.
* `connectRabbit`, `publish`, `pollOnce`, `refreshUnpublishedGauge` — the code.
* `schedulePoll`, `healthReady` — what runs in a process.
-/

namespace OrderPlatform

namespace Outbox

open Async (Program)
open Rabbit (Message Headers)
open Text (Json)

/-! ### The context -/

/-- The settings that the modelled code reads. -/
structure PublisherConfig where
  batchSize : ℕ

/-- The configuration of the publisher and the encoding of its messages. -/
structure PublisherContext where
  config : PublisherConfig
  /-- `Buffer.from(text)`. -/
  buffer : String → List UInt8

/-! ### Messages -/

/-- `Math.min(60, Math.max(1, 2 ** Math.min(attempts, 6)))`. -/
def backoffSeconds (attempts : ℕ) : ℕ := min 60 (max 1 (2 ^ min attempts 6))

theorem backoffSeconds_le (attempts : ℕ) : backoffSeconds attempts ≤ 60 := min_le_left _ _

/-- What `amqplib` makes of the value of a header. -/
def headerOf : Json → Rabbit.HeaderValue
  | .str s => .text s
  | .num n => .number (.finite n)
  | .null => .null
  | v => .other v.stringify

/-- `payload.correlationId ?? payload.eventId`. -/
def correlationOf (payload : Text.Fields) : Option Json :=
  match payload.get? "correlationId" with
  | none => payload.get? "eventId"
  | some .null => payload.get? "eventId"
  | some v => some v

/-- The message about a row, given what `Date.now()` shows. -/
def messageOf (ctx : PublisherContext) (now : ℕ) (row : OutboxRow) : Message where
  content := ctx.buffer (Json.obj row.payload).stringify
  properties :=
    { contentType := some "application/json"
      deliveryMode := some 2
      messageId := Json.string? (row.payload.get? "eventId")
      timestamp := some (now / 1000 : ℕ)
      type := some row.eventType
      headers := fun name =>
        if name = "x-correlation-id" then (correlationOf row.payload).map headerOf
        else if name = "x-event-type" then some (.text row.eventType)
        else none }

/-! ### Operations -/

/-- What a publisher asks of its process, of the database and of the broker. -/
inductive Call
  /-- The timer of `schedulePoll` fires. -/
  | enter
  /-- The callback of `finally` in `schedulePoll`. -/
  | settled
  /-- `pool.connect()`. -/
  | acquire
  | query (st : Statement)
  /-- `client.release()`. -/
  | release
  /-- `SELECT count(*)::text … WHERE published_at IS NULL`. -/
  | count
  /-- `SELECT 1`. -/
  | ping
  /-- The module variable `channel` is read. -/
  | channel
  /-- `amqp.connect`, and the registration of the `close` handler. -/
  | connect
  /-- `createConfirmChannel()`, and the assignment of `channel`. -/
  | createConfirmChannel (connection : ℕ)
  | assertExchange (connection : ℕ)
  /-- `publish(…)` on a channel: the publications that have not been answered yet. -/
  | publish (connection : ℕ) (row : OutboxRow)
  | waitForConfirms (connection : ℕ) (awaited : List ℕ)

/-- What an operation yields when it succeeds. -/
def Call.Result : Call → Type
  | enter => Unit
  | settled => Unit
  | acquire => Unit
  | query st => st.Result
  | release => Unit
  | count => ℕ
  | ping => Unit
  | channel => Option ℕ
  | connect => ℕ
  | createConfirmChannel _ => Unit
  | assertExchange _ => Unit
  | publish _ _ => List ℕ
  | waitForConfirms _ _ => Unit

/-- A call awaited by a process. -/
structure Operation where
  process : ℕ
  call : Call

/-- The result of a call, or the message of the error that it throws. -/
abbrev Operation.Reply (o : Operation) : Type := Except String o.call.Result

/-- A task of the publisher. -/
abbrev Task (α : Type) := Program Operation Operation.Reply String α

section

variable (w : ℕ)

/-- Await a call. -/
def call (c : Call) : Task c.Result :=
  .await ⟨w, c⟩ fun
    | .ok v => .done v
    | .error e => .thrown e

/-- `client.query(…)`. -/
def query (st : Statement) : Task st.Result := call w (.query st)

/-! ### The broker -/

/-- `connectRabbit`: the stored channel, or a new connection on which the exchange is declared.
Nothing declares the queue here. -/
def connectRabbit : Task ℕ :=
  (call w .channel).bind fun
    | some c => .done c
    | none =>
        (call w .connect).bind fun connection => do
          call w (.createConfirmChannel connection)
          call w (.assertExchange connection)
          return connection

/-- The publication of a row, up to its confirmation. -/
def publish (row : OutboxRow) : Task Unit :=
  (connectRabbit w).bind fun c =>
    (call w (.publish c row)).bind fun awaited => call w (.waitForConfirms c awaited)

/-! ### A poll -/

/-- `refreshUnpublishedGauge`. -/
def refreshUnpublishedGauge : Task Unit := (call w .count).bind fun _ => .done ()

/-- What is done about one row. -/
def publishRow (row : OutboxRow) : Task Unit :=
  Program.attempt (do
    publish w row
    query w (.markPublished row.id)) fun e =>
      query w (.markFailed row.id (row.attempts + 1) e (backoffSeconds (row.attempts + 1)))

/-- The rows of a batch one after the other.  A publication that fails does not stop the others,
unless its failure cannot be recorded. -/
def publishRows : List OutboxRow → Task Unit
  | [] => .done ()
  | row :: rest => do
      publishRow w row
      publishRows rest

/-- The body of the `try` in `pollOnce`. -/
def pollBatch (batchSize : ℕ) : Task Unit :=
  (query w .begin).bind fun _ =>
    (query w (.selectBatch batchSize)).bind fun rows =>
      (publishRows w rows).bind fun _ => query w .commit

/-- `pollOnce`: the connection is given back whatever happens, and the gauge is refreshed after
that. -/
def pollOnce (batchSize : ℕ) : Task Unit :=
  (call w .acquire).bind fun _ =>
    ((pollBatch w batchSize).attempt fun _ => query w .rollback).ensuring do
      call w .release
      Program.attempt (refreshUnpublishedGauge w) fun _ => return ()

/-! ### What runs in a process -/

/-- What `/health/ready` has found. -/
structure Readiness where
  datastore : Bool
  messageBroker : Bool
deriving DecidableEq

/-- The timer of `schedulePoll`. -/
def schedulePoll (batchSize : ℕ) : Task (Option Readiness) :=
  (call w .enter).bind fun _ =>
    ((pollOnce w batchSize).bind fun _ => .done none).ensuring (call w .settled)

/-- Whether a task returns. -/
def succeeds {α : Type} (p : Task α) : Task Bool :=
  (p.bind fun _ => .done true).attempt fun _ => .done false

/-- `GET /health/ready`. -/
def healthReady : Task (Option Readiness) :=
  (succeeds (call w .ping)).bind fun datastore =>
    (succeeds (connectRabbit w)).bind fun messageBroker => .done (some ⟨datastore, messageBroker⟩)

end

end Outbox

end OrderPlatform
