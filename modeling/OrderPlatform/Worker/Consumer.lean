import OrderPlatform.Async.Background
import OrderPlatform.Broker.Server
import OrderPlatform.Text.Json
import OrderPlatform.Text.Numeral
import OrderPlatform.Worker.ProcessedEvents

/-!
# The worker

What a worker process does with its connection to the broker and with the messages it gets.  Two
kinds of asynchronous calls run in a process, any number of each at a time: `handleMessage`, once
for every delivery, and `reconnectLoop`, at the start and after every loss of a connection.

They share the module variables of the process.  Code that runs without an `await` in between is
one operation.  That is why the reply of some operations contains the module variables as the code
behind it finds them (`Snapshot`), and why everything that `handleMessage` does once the event has
been processed is one operation, `Call.conclude`: the `Segment` of frames it writes, and whether it
throws.

* `parseEvent`, `readRetryCount`, `failedCopy` — messages.
* `Segment`, `acknowledge`, `requeueOrDeadLetter`, `conclude` — the end of a handler.
* `convertible` — the header tables that `requeueOrDeadLetter` gets along with.
* `Call`, `Operation` — what is awaited.
* `processEvent`, `handleMessage` — the handling of a message.
* `setupRabbit`, `startConsumer`, `reconnectLoop` — the connection.
-/

namespace OrderPlatform

namespace Worker

open Async (Program)
open Rabbit
open Text (Json)

/-! ### The context -/

/-- The settings that the modelled code reads. -/
structure WorkerConfig where
  processingTimeoutMs : ℤ
  maxRetries : ℤ
  prefetch : ℕ

/-- The configuration of the worker and what it uses from outside: `JSON.parse`, the `uuid` type of
Postgres, and the conversions of headers, which may throw. -/
structure WorkerContext where
  config : WorkerConfig
  /-- `JSON.parse(content.toString("utf8"))`; the error is the message of a `SyntaxError`. -/
  parse : List UInt8 → Except String Json
  /-- A text read as `uuid` by Postgres. -/
  uuid : String → Option Uuid
  /-- `Number(value)` of a header that is not a number.  A table among the headers is an object with
  the properties that it was sent with; one that is called `toString` makes this throw. -/
  number : Rabbit.HeaderValue → Except String JsNumber
  /-- `String(value)` of a header that is neither a number nor a text, which may throw as well. -/
  string : Rabbit.HeaderValue → Except String String
  deadLettering : DeadLettering

/-! ### Messages -/

/-- An `order.created` event, as far as the worker looks at it. -/
structure OrderCreatedEvent where
  eventId : String
  eventType : String
  orderId : String
  occurredAt : String
deriving DecidableEq

/-- `parseEvent`: the four properties are texts and the type is the expected one.  Reading a
property of `null` throws its own error. -/
def parseEvent (ctx : WorkerContext) (message : Message) : Except String OrderCreatedEvent :=
  match ctx.parse message.content with
  | .error e => .error e
  | .ok .null => .error "Cannot read properties of null (reading 'eventType')"
  | .ok parsed =>
      match Json.string? (parsed.get? "eventType"), Json.string? (parsed.get? "eventId"),
        Json.string? (parsed.get? "orderId"), Json.string? (parsed.get? "occurredAt") with
      | some "order.created", some eventId, some orderId, some occurredAt =>
          .ok ⟨eventId, "order.created", orderId, occurredAt⟩
      | _, _, _, _ => .error "Invalid order.created event payload"

/-- `Number(headers["x-retry-count"] ?? 0)`. -/
def readRetryCount (ctx : WorkerContext) (headers : Headers) : Except String JsNumber :=
  match headers "x-retry-count" with
  | none => .ok (.finite 0)
  | some .null => .ok (.finite 0)
  | some (.number n) => .ok n
  | some value => ctx.number value

/-- `String(headers["x-event-type"] ?? "unknown")`. -/
def eventTypeLabel (ctx : WorkerContext) (headers : Headers) : Except String String :=
  match headers "x-event-type" with
  | none => .ok "unknown"
  | some .null => .ok "unknown"
  | some (.number n) => .ok n.text
  | some (.text s) => .ok s
  | some value => ctx.string value

/-- The number of retries.  A message for which reading it throws is not sent anywhere; its number
is then taken for infinite, so that it counts as one that is not tried again. -/
def retryCount (ctx : WorkerContext) (headers : Headers) : JsNumber :=
  match readRetryCount ctx headers with
  | .ok count => count
  | .error _ => .infinite false

/-- The headers of a message whose handling has failed. -/
def nextHeaders (ctx : WorkerContext) (headers : Headers) (error : String) : Headers :=
  Function.update
    (Function.update headers "x-retry-count" (some (.number (retryCount ctx headers).plusOne)))
    "x-last-error" (some (.text error))

/-- What is sent again of a message whose handling has failed. -/
def failedMessage (ctx : WorkerContext) (message : Message) (error : String) : Message :=
  { message with
    properties :=
      { message.properties with
        headers := nextHeaders ctx message.properties.headers error
        deliveryMode := some 2 } }

/-- The copy that is sent again or to the dead letters.  It keeps its serial number, so that the
theorems can follow it. -/
def failedCopy (ctx : WorkerContext) (copy : Copy) (error : String) : Copy :=
  { copy with message := failedMessage ctx copy.message error, failures := copy.failures + 1 }

/-- Where a message whose handling has failed is sent to. -/
def retryTarget (ctx : WorkerContext) (headers : Headers) : Queue :=
  if (retryCount ctx headers).atLeast ctx.config.maxRetries then .deadLetter else .retry

/-- Whether a header table can be converted as far as `requeueOrDeadLetter` does it: the number of
retries, and for a message that is not tried again the type of its event. -/
def convertible (ctx : WorkerContext) (headers : Headers) : Bool :=
  (readRetryCount ctx headers).isOk &&
    (retryTarget ctx headers = .retry || (eventTypeLabel ctx headers).isOk)

/-! ### The end of a handler -/

/-- What a stretch of code without an `await` writes to the broker, and the message of the error it
ends with, if it throws. -/
structure Segment where
  frames : List Frame
  error : Option String

namespace Segment

/-- Nothing is sent and nothing is thrown. -/
def nothing : Segment := ⟨[], none⟩

/-- An expression is evaluated, which may throw. -/
def evaluate {α : Type} : Except String α → Segment
  | .ok _ => nothing
  | .error e => ⟨[], some e⟩

/-- One statement after another. -/
def andThen (a b : Segment) : Segment :=
  match a.error with
  | none => ⟨a.frames ++ b.frames, b.error⟩
  | some _ => a

/-- `try`/`catch`. -/
def rescue (a : Segment) (handler : String → Segment) : Segment :=
  match a.error with
  | none => a
  | some e => ⟨a.frames ++ (handler e).frames, (handler e).error⟩

/-- A call on a channel: it throws when the client knows that the channel is closed, and it may
throw for other reasons. -/
def write (live : Bool) (fault : Option String) (f : Frame) : Segment :=
  match live, fault with
  | false, _ => ⟨[], some "Channel closed"⟩
  | true, some e => ⟨[], some e⟩
  | true, none => ⟨[f], none⟩

/-- How a segment ends for the code that runs it. -/
def outcome (a : Segment) : Except String Unit :=
  match a.error with
  | none => .ok ()
  | some e => .error e

end Segment

/-- Which calls of a stretch throw although the channel is open. -/
structure Faults where
  /-- `channel.ack` in `handleMessage`. -/
  ack : Option String
  /-- `channel.sendToQueue`. -/
  send : Option String
  /-- `channel.ack` in `requeueOrDeadLetter`. -/
  settle : Option String
deriving DecidableEq

/-- Every write is taken. -/
def Faults.none : Faults := ⟨.none, .none, .none⟩

/-- What `processEvent` resolves with. -/
inductive ProcessingResult
  | processed
  | duplicate
deriving DecidableEq

section

variable (ctx : WorkerContext) (channel : Option ℕ) (live : Bool) (faults : Faults) (d : Delivery)

/-- `channel.ack(message)` on the channel that the module variable refers to. -/
def acknowledge : Segment :=
  match channel with
  | none => ⟨[], some "Cannot read properties of null (reading 'ack')"⟩
  | some c => .write live faults.ack (.ack c d.tag true)

/-- `requeueOrDeadLetter`: the retry count is read first, which may throw; then the copy is sent and
the delivery acknowledged on the current channel; the label of the counter of dead letters is
converted last, which may throw as well. -/
def requeueOrDeadLetter (error : String) : Segment :=
  match channel with
  | none => .nothing
  | some c =>
      let headers := d.copy.message.properties.headers
      let target := retryTarget ctx headers
      let resent := (Segment.write live faults.send
        (.publish c target (failedCopy ctx d.copy error))).andThen
          (.write live faults.settle (.ack c d.tag false))
      (Segment.evaluate (readRetryCount ctx headers)).andThen <|
        -- the counter of dead letters has the type of the event for a label
        if target = .deadLetter then
          resent.andThen (.evaluate (eventTypeLabel ctx (nextHeaders ctx headers error)))
        else resent

/-- What `handleMessage` does once the event has been processed, or its processing has failed or
taken too long. -/
def conclude : Except String ProcessingResult → Segment
  | .ok _ =>
      (acknowledge channel live faults d).rescue
        (requeueOrDeadLetter ctx channel live faults d)
  | .error e => requeueOrDeadLetter ctx channel live faults d e

end

/-- Whether the end of a handler comes to `requeueOrDeadLetter`. -/
def resends (faults : Faults) : Except String ProcessingResult → Bool
  | .ok _ => faults.ack.isSome
  | .error _ => true

/-! ### Operations -/

/-- The module variables, as the code that runs next finds them. -/
structure Snapshot where
  shuttingDown : Bool
  channel : Option ℕ
deriving DecidableEq

/-- What the worker asks of its process, of the database and of the broker. -/
inductive Call
  /-- The consumer callback is called, and `handleMessage` enters. -/
  | receive
  | query (st : EventStatement)
  /-- `simulateNotificationWork(event)`. -/
  | work (event : OrderCreatedEvent)
  | conclude (d : Delivery) (outcome : Except String ProcessingResult)
  /-- `reconnectLoop` is called. -/
  | enter
  /-- `amqp.connect`, and the registration of the `close` handler. -/
  | connect
  /-- `createChannel()`, and the assignment of `channel`. -/
  | createChannel (connection : ℕ)
  | declare (connection : ℕ) (d : Declaration)
  | prefetch (connection count : ℕ)
  | consume (connection : ℕ)
  /-- `delay(ms)`. -/
  | sleep (ms : ℕ)

/-- What an operation yields when it succeeds. -/
def Call.Result : Call → Type
  | receive => Option Delivery
  | query _ => ℕ
  | work _ => Unit
  | conclude _ _ => Unit
  | enter => Snapshot
  | connect => ℕ
  | createChannel _ => Unit
  | declare _ _ => Unit
  | prefetch _ _ => Option ℕ
  | consume _ => Unit
  | sleep _ => Snapshot

/-- Whether a call converts the headers of its message without an error, if it does so at all. -/
def Call.converts (ctx : WorkerContext) (faults : Faults) : Call → Bool
  | conclude d outcome =>
      !resends faults outcome || convertible ctx d.copy.message.properties.headers
  | _ => true

/-- A call awaited by a process. -/
structure Operation where
  process : ℕ
  call : Call

/-- The result of a call, or the message of the error that it throws. -/
abbrev Operation.Reply (o : Operation) : Type := Except String o.call.Result

/-- A task of the worker. -/
abbrev Task (α : Type) := Program Operation Operation.Reply String α

section

variable (w : ℕ)

/-- Await a call. -/
def call (c : Call) : Task c.Result :=
  .await ⟨w, c⟩ fun
    | .ok v => .done v
    | .error e => .thrown e

/-- `pool.query(…)`; the number of returned rows is all that is looked at. -/
def query (st : EventStatement) : Task ℕ := call w (.query st)

/-! ### Messages -/

/-- The work between the `INSERT` and the answer of `processEvent`. -/
def performWork (event : OrderCreatedEvent) : Task ProcessingResult := do
  call w (.work event)
  let _ ← query w (.markProcessed event.eventId)
  return .processed

/-- `processEvent`: the row is inserted first, and only the call that has inserted it does the work.
A call whose work throws deletes the row again, so that a retry finds none. -/
def processEvent (event : OrderCreatedEvent) : Task ProcessingResult := do
  let inserted ← query w (.insert event.eventId event.eventType)
  if inserted = 0 then
    return .duplicate
  else
    (performWork w event).attempt fun e => do
      let _ ← query w (.delete event.eventId)
      .thrown e

/-- The message of the error that `withProcessingTimeout` throws. -/
def timeoutMessage (config : WorkerConfig) : String :=
  "Message processing exceeded " ++ toString config.processingTimeoutMs ++ " ms"

/-- The rest of `handleMessage`, from the parsing on.  The timeout only decides how the delivery is
concluded: `processEvent` itself goes on. -/
def handleDelivery (ctx : WorkerContext) (d : Delivery) : Task Unit :=
  match parseEvent ctx d.copy.message with
  | .error e => call w (.conclude d (.error e))
  | .ok event =>
      (processEvent w event).deadline (timeoutMessage ctx.config)
        fun outcome => call w (.conclude d outcome)

/-- `handleMessage`; it returns at once where there is no message or no channel. -/
def handleMessage (ctx : WorkerContext) : Task Unit :=
  (call w .receive).bind fun
    | none => .done ()
    | some d => handleDelivery w ctx d

/-! ### The connection -/

/-- The declarations of `setupRabbit`, in their order. -/
def declarations : List Declaration :=
  [.exchange, .queue .primary, .binding, .queue .retry, .queue .deadLetter]

/-- The declarations of `setupRabbit` one after the other. -/
def declareAll (connection : ℕ) : List Declaration → Task Unit
  | [] => .done ()
  | d :: rest => do
      call w (.declare connection d)
      declareAll connection rest

/-- The channel to use, and what `channel` refers to when the caller goes on. -/
def setupRabbit (prefetch : ℕ) : Option ℕ → Task (ℕ × Option ℕ)
  | some c => return (c, some c)
  | none => do
      let connection ← call w .connect
      call w (.createChannel connection)
      declareAll w connection declarations
      let channel ← call w (.prefetch connection prefetch)
      return (connection, channel)

/-- `startConsumer`. -/
def startConsumer (prefetch : ℕ) (channel : Option ℕ) : Task Unit := do
  let (active, _) ← setupRabbit w prefetch channel
  call w (.consume active)

/-- The body of the loop: whether it returns. -/
def reconnect (prefetch : ℕ) (channel : Option ℕ) : Task Bool :=
  Program.attempt (do
    let (_, channel) ← setupRabbit w prefetch channel
    startConsumer w prefetch channel
    return true) fun _ => return false

/-- The loop of `reconnectLoop`, cut off after a number of rounds. -/
def reconnectFrom (prefetch : ℕ) : ℕ → ℕ → Snapshot → Task Unit
  | 0, _, _ => .pending
  | rounds + 1, delayMs, now =>
      if now.shuttingDown || now.channel.isSome then return ()
      else do
        let returns ← reconnect w prefetch now.channel
        if returns then return ()
        else (call w (.sleep delayMs)).bind fun now =>
          reconnectFrom prefetch rounds (min (delayMs * 2) 30000) now

/-- `reconnectLoop`; the pause after a failed attempt is one second at first. -/
def reconnectLoop (prefetch rounds : ℕ) : Task Unit :=
  (call w .enter).bind fun now => reconnectFrom w prefetch rounds 1000 now

end

end Worker

end OrderPlatform
