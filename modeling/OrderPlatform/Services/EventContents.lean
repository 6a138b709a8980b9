import OrderPlatform.Api.Lifecycle
import OrderPlatform.Api.Orders
import OrderPlatform.Outbox.Publisher
import OrderPlatform.Worker.Contents
import OrderPlatform.Worker.Retries

/-!
# From the API to the worker

The API writes an event into the outbox table, Postgres stores its payload as `jsonb`, the publisher
reads it and sends it as the content of a message, and the worker parses that.  Each of the three
finds the ids, the moment and the correlation id of the event on its own: the API in the header of
the request, the publisher in the payload, the worker in the content, the headers and the message id.
`read_as_written` says that they agree, for whatever the client has sent and however often the
message has been tried.
-/

namespace OrderPlatform

open Async (Program Regime)
open Text (Json Fields)

/-! ### What the API writes -/

namespace OrderRoutes

variable {ctx : ApiContext}

/-- The request as the hook `onRequest` leaves it to the handler. -/
def received (incoming : Lifecycle.IncomingRequest) (request : FastifyRequest) : FastifyRequest :=
  { request with id := incoming.id, correlationId := some (Lifecycle.correlationId incoming) }

/-- A row that is inserted into the outbox table is an event of this request. -/
def Writes (request : FastifyRequest) (o : Op Work) : Prop :=
  ∀ event, o = .work (.sql (.insertOutboxEvent event)) → ∃ eventId orderId occurredAt,
    event = orderCreatedEvent request eventId orderId occurredAt

private theorem writes_query {request : FastifyRequest} {st : Statement}
    (other : ∀ event, st ≠ .insertOutboxEvent event) : (query st).Only (Writes request) := by
  refine ⟨fun event same => ?_, fun r => ?_⟩
  · cases same
    exact absurd rfl (other event)
  · cases r with
    | none => trivial
    | some result => trivial

private theorem writes_withClient {request : FastifyRequest} {α : Type} {work : Route α}
    (only : work.Only (Writes request)) : (withClient work).Only (Writes request) := by
  refine Program.Only.ensuring (only.attempt fun e => ?_) ⟨nofun, fun _ => trivial⟩
  refine Program.Only.bind (Program.Only.attempt (writes_query nofun) fun _ => trivial) fun _ => ?_
  trivial

/-- **What `POST /v1/orders` writes into the outbox**, whatever its statements answer. -/
theorem createOrderTransactionally_writes (request : FastifyRequest) (user : Uuid)
    (data : CreateOrder) :
    (createOrderTransactionally ctx request user data).Only (Writes request) := by
  refine Program.Only.bind (⟨nofun, fun _ => trivial⟩ : randomUUID.Only _) fun orderId => ?_
  refine Program.Only.bind (⟨nofun, fun _ => trivial⟩ : randomUUID.Only _) fun eventId => ?_
  refine Program.Only.bind (⟨nofun, fun _ => trivial⟩ : clock.Only _) fun now => ?_
  refine Program.Only.bind ?_ fun _ => writes_withClient ?_
  · refine ⟨nofun, fun r => ?_⟩
    cases r with
    | none => trivial
    | some _ => trivial
  refine Program.Only.bind (writes_query nofun) fun _ => ?_
  refine Program.Only.bind (writes_query nofun) fun order => ?_
  refine Program.Only.bind (⟨nofun, fun _ => trivial⟩ : randomUUID.Only _) fun createdId => ?_
  refine Program.Only.bind (writes_query nofun) fun _ => ?_
  refine Program.Only.bind ?_ fun _ => ?_
  · refine ⟨?_, fun r => ?_⟩
    · rintro event ⟨⟩
      exact ⟨eventId, orderId, Text.toISOString now, rfl⟩
    · cases r with
      | none => trivial
      | some _ => trivial
  refine Program.Only.bind (writes_query nofun) fun _ => ?_
  refine Program.Only.bind ?_ fun _ => trivial
  unfold invalidateListNamespace
  split
  · refine Program.Only.attempt (Program.Only.bind ?_ fun _ => trivial) fun _ => trivial
    refine ⟨nofun, fun r => ?_⟩
    cases r <;> trivial
  · trivial

end OrderRoutes

/-! ### What is stored and sent -/

/-- Another object that has the texts of a payload, as `jsonb` keeps them. -/
def StoredAs (payload : Json) (stored : Fields) : Prop :=
  ∀ key text, payload.get? key = some (.str text) → stored.get? key = some (.str text)

/-- What the worker's `JSON.parse(content.toString("utf8"))` makes of what the publisher's
`Buffer.from(JSON.stringify(payload))` has made of an object: an object that has the texts of the
first one.  Of other values nothing is asked: a number is read as a double, which need not be the one
that was written. -/
def ReadsBack (publisher : Outbox.PublisherContext) (worker : Worker.WorkerContext) : Prop :=
  ∀ payload : Fields, ∃ parsed : Fields,
    worker.parse (publisher.buffer (Json.obj payload).stringify) = .ok (.obj parsed) ∧
      StoredAs (.obj payload) parsed

section Message

variable {publisher : Outbox.PublisherContext} {worker : Worker.WorkerContext}
variable {request : FastifyRequest} {eventId orderId : Uuid} {occurredAt : String}
variable {row : Outbox.OutboxRow} {now : ℕ}

/-- The texts of a payload. -/
theorem payload_orderCreatedEvent (request : FastifyRequest) (eventId orderId : Uuid)
    (occurredAt : String) :
    let payload := (OrderRoutes.orderCreatedEvent request eventId orderId occurredAt).payload
    payload.get? "eventId" = some (.str eventId.text) ∧
    payload.get? "eventType" = some (.str "order.created") ∧
    payload.get? "orderId" = some (.str orderId.text) ∧
    payload.get? "occurredAt" = some (.str occurredAt) ∧
    payload.get? "correlationId" = some (.str (request.correlationId.getD request.id)) := by
  simp [OrderRoutes.orderCreatedEvent, Json.object, Text.Fields.ofList, Json.get?, Text.Fields.get?]

variable (stored : StoredAs
  (OrderRoutes.orderCreatedEvent request eventId orderId occurredAt).payload row.payload)
include stored

theorem parseEvent_messageOf (reads : ReadsBack publisher worker) :
    Worker.parseEvent worker (Outbox.messageOf publisher now row) =
      .ok ⟨eventId.text, "order.created", orderId.text, occurredAt⟩ := by
  obtain ⟨id, type, order, moment, _⟩ := payload_orderCreatedEvent request eventId orderId
    occurredAt
  obtain ⟨parsed, read, same⟩ := reads row.payload
  have read : worker.parse (Outbox.messageOf publisher now row).content = .ok (.obj parsed) := read
  -- what is written comes through the database and through the message
  have kept {key text : String} (written : (OrderRoutes.orderCreatedEvent request eventId orderId
      occurredAt).payload.get? key = some (.str text)) : parsed.get? key = some (.str text) :=
    same _ _ (stored _ _ written)
  unfold Worker.parseEvent
  rw [read]
  dsimp only [Text.Json.get?]
  rw [kept id, kept type, kept order, kept moment]
  rfl

theorem messageId_messageOf :
    (Outbox.messageOf publisher now row).properties.messageId = some eventId.text := by
  have id := (payload_orderCreatedEvent request eventId orderId occurredAt).1
  show Json.string? (row.payload.get? "eventId") = _
  rw [stored _ _ id]
  rfl

/-- An empty correlation id is one, too. -/
theorem correlationId_messageOf :
    Worker.correlationId (Outbox.messageOf publisher now row) =
      request.correlationId.getD request.id := by
  have id := (payload_orderCreatedEvent request eventId orderId occurredAt).2.2.2.2
  have header : (Outbox.messageOf publisher now row).header "x-correlation-id" =
      some (.text (request.correlationId.getD request.id)) := by
    show (Outbox.correlationOf row.payload).map Outbox.headerOf = _
    unfold Outbox.correlationOf
    rw [stored _ _ id]
    rfl
  unfold Worker.correlationId
  rw [header]

end Message

/-! ### What the worker reads -/

/-- The worker reads the event of a row that the API has written, in each attempt, and logs it under
the correlation id that the client has been told. -/
def ReadAsWritten (publisher : Outbox.PublisherContext) (worker : Worker.WorkerContext)
    (incoming : Lifecycle.IncomingRequest) (event : OutboxEventRow) : Prop :=
  ∀ row : Outbox.OutboxRow, StoredAs event.payload row.payload → ∀ (now : ℕ)
    (R : Regime (Worker.machine worker)) (p : Worker.Service worker),
    Worker.Run R (Async.Pool.idle .initial) p →
    ∀ t h, p.shared.history.handling t = some h →
      h.delivery.copy.origin = Outbox.messageOf publisher now row →
      Worker.parseEvent worker h.delivery.copy.message =
        .ok ⟨event.id.text, event.eventType, event.aggregateId.text, event.occurredAt⟩ ∧
      h.delivery.copy.message.properties.messageId = some event.id.text ∧
      ("X-Correlation-Id", Worker.correlationId h.delivery.copy.message) ∈
        Lifecycle.responseHeaders incoming

/-- **The event that the worker reads is the event that the API wrote.**  For every order, and for
whatever correlation id the client has sent: what is inserted into the outbox table is an event of
the request, and however often its message is handled, by whichever process and over whichever
connections, the worker reads the ids and the moment that were written, and logs under the
correlation id of the response. -/
theorem read_as_written (api : ApiContext) {publisher : Outbox.PublisherContext}
    {worker : Worker.WorkerContext} (reads : ReadsBack publisher worker)
    (other : "x-correlation-id" ∉ worker.deadLettering.own)
    (incoming : Lifecycle.IncomingRequest) (request : FastifyRequest) (user : Uuid)
    (data : OrderRoutes.CreateOrder) :
    (OrderRoutes.createOrderTransactionally api (OrderRoutes.received incoming request) user
      data).Only (OrderRoutes.Writes (OrderRoutes.received incoming request)) ∧
    ∀ eventId orderId occurredAt, ReadAsWritten publisher worker incoming
      (OrderRoutes.orderCreatedEvent (OrderRoutes.received incoming request) eventId orderId
        occurredAt) := by
  refine ⟨OrderRoutes.createOrderTransactionally_writes _ user data, ?_⟩
  intro eventId orderId occurredAt row stored now R p run t h handling origin
  have resent := (Worker.resent_of_run run).handled t h handling
  refine ⟨?_, ?_, ?_⟩
  · rw [resent.parseEvent, origin]
    exact parseEvent_messageOf stored reads
  · rw [resent.messageId, origin]
    exact messageId_messageOf stored
  · rw [resent.correlationId other, origin, correlationId_messageOf stored]
    exact List.mem_cons_of_mem _ List.mem_cons_self

/-! ### A worked example -/

/-- `Buffer.from`: the bytes of a text in UTF-8. -/
def utf8Publisher : Outbox.PublisherContext := ⟨⟨100⟩, fun text => text.toUTF8.data.toList⟩

/-- A worker that reads UTF-8. -/
def utf8Worker : Worker.WorkerContext :=
  { Worker.workerContext 3 with
    parse := fun content =>
      match (String.fromUTF8? ⟨content.toArray⟩).bind Json.parse with
      | some v => .ok v
      | none => .error "Unexpected end of JSON input" }

theorem readsBack_utf8 : ReadsBack utf8Publisher utf8Worker := by
  intro payload
  refine ⟨payload, ?_, fun key text known => known⟩
  let text := (Json.obj payload).stringify
  have decoded : String.fromUTF8? ⟨text.toUTF8.data.toList.toArray⟩ = some text := by
    rw [Array.toArray_toList]
    exact dif_pos text.isValidUTF8
  show (match (String.fromUTF8? ⟨text.toUTF8.data.toList.toArray⟩).bind Json.parse with
    | some v => Except.ok v
    | none => .error "Unexpected end of JSON input") = _
  rw [decoded, Option.bind_some, Text.Json.parse_stringify]

/-- A request with an empty correlation id. -/
def emptyIdRequest : Lifecycle.IncomingRequest := ⟨"r1", .single "", "POST", "/v1/orders"⟩

/-- The row of its event, as the publisher finds it: `jsonb` has sorted the keys. -/
def emptyIdRow : Outbox.OutboxRow where
  id := .ofText Worker.exampleEventId
  eventType := "order.created"
  payload := .ofList [("eventId", .str Worker.exampleEventId),
    ("orderId", .str Worker.exampleOrderId), ("eventType", .str "order.created"),
    ("occurredAt", .str "2026-01-01T00:00:00.000Z"), ("correlationId", .str "")]
  attempts := 0
  lastError := none
  nextAttemptAt := 0
  occurredAt := 0
  publishedAt := none
  updatedAt := 0
  publishedBy := none

/-- A message with an empty correlation id fails twice, and is tried again. -/
theorem read_as_written_of_empty_id :
    ∃ (p : Worker.Service utf8Worker) (t : Async.Tid) (h : Worker.Handling),
      Worker.LosslessRun p ∧ p.shared.history.handling t = some h ∧ h.delivery.copy.failures = 2 ∧
      Worker.parseEvent utf8Worker h.delivery.copy.message =
        .ok ⟨Worker.exampleEventId, "order.created", Worker.exampleOrderId,
          "2026-01-01T00:00:00.000Z"⟩ ∧
      ("X-Correlation-Id", Worker.correlationId h.delivery.copy.message) ∈
        [("X-Request-Id", "r1"), ("X-Correlation-Id", "")] := by
  have new : (Outbox.messageOf utf8Publisher 0 emptyIdRow).header "x-retry-count" = none := rfl
  obtain ⟨p, copy, waiting, origin, failures⟩ := Worker.waiting_after utf8Worker
    (Outbox.messageOf utf8Publisher 0 emptyIdRow) 2 fun k lt => by
      refine Bool.eq_false_iff.mpr fun reached => ?_
      have le : (3 : ℤ) ≤ k := (Worker.exhausted_new new (by omega)).mp reached
      omega
  obtain ⟨q, t, d, handed, rfl⟩ := Worker.deliver_once waiting.run waiting.serving waiting.ready
  have written := (read_as_written (exampleContext id) readsBack_utf8 (by decide)
    emptyIdRequest ⟨"", "POST", none, "/v1/orders", .missing, none⟩ (.ofText "") ⟨"", []⟩).2
    (.ofText Worker.exampleEventId) (.ofText Worker.exampleOrderId) "2026-01-01T00:00:00.000Z"
    emptyIdRow ?_ 0 _ q handed.run t _ handed.handling origin
  · exact ⟨q, t, _, handed.run, handed.handling, failures, written.1, written.2.2⟩
  · intro key text known
    have known : (Json.object [("eventId", .str Worker.exampleEventId),
        ("eventType", .str "order.created"), ("orderId", .str Worker.exampleOrderId),
        ("occurredAt", .str "2026-01-01T00:00:00.000Z"), ("correlationId", .str "")]).get? key =
      some (.str text) := known
    simp only [Json.object, Fields.ofList, Json.get?, Fields.get?] at known
    simp only [emptyIdRow, Fields.ofList, Fields.get?]
    by_cases order : "orderId" = key
    · subst order
      simpa using known
    by_cases type : "eventType" = key
    · subst type
      simpa using known
    · simpa only [if_neg order, if_neg type] using known

end OrderPlatform
