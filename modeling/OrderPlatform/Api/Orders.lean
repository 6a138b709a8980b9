import OrderPlatform.Api.Cache
import OrderPlatform.Api.Database
import OrderPlatform.Api.Idempotency

/-!
# The order routes

The four handlers of `/v1/orders`, behind authentication and validation: what they are given
is a user and parameters that have passed their schema.  Each is a program over Redis commands,
SQL statements and the few things a handler takes from its process, so every `await` of the
source is a point at which other requests may run.

What the validation of a list request promises is a field of `ListOrdersQuery`.  An order id in
a path is kept as the text the client sent: the schema accepts a uuid in either case, Postgres
does not tell the cases apart, and the cache key does.

* `createOrder`, `getOrder`, `listOrders`, `patchOrder` — the handlers.
* `createOrderTransactionally`, `fetchOrdersPage` — what they wrap.
* `withClient` — the `try`/`catch`/`finally` around a transaction, which is the same in both
  handlers that write.
-/

namespace OrderPlatform

namespace OrderRoutes

open Async (Program)
open Text (Json)

/-! ### Operations -/

/-- What a handler awaits or does, Redis commands apart. -/
inductive Work
  /-- `ctx.pool.connect()`. -/
  | connect
  /-- `client.release()`. -/
  | release
  | sql (statement : Statement)
  | randomUUID
  /-- `new Date()`, in milliseconds since the epoch. -/
  | clock
  /-- `reply.header("X-Cache", value)`. -/
  | header (value : XCache)

/-- A connection may not be had and a statement may fail; both are answered by `none`. -/
def Work.Reply : Work → Type
  | connect => Option Unit
  | release => Unit
  | sql statement => Option statement.Result
  | randomUUID => Uuid
  | clock => ℕ
  | header _ => Unit

/-- The programs of the order routes. -/
abbrev Route (α : Type) := Api Work Work.Reply α

/-- `pool.connect()`, which throws when no connection is to be had. -/
def connect : Route Unit :=
  .await (.work .connect) fun
    | some _ => .done ()
    | none => .thrown .database

/-- `client.release()`. -/
def release : Route Unit := .await (.work .release) fun _ => .done ()

/-- `await client.query(…)`, or `ctx.pool.query(…)` where no transaction is open. -/
def query (statement : Statement) : Route statement.Result :=
  .await (.work (.sql statement)) fun
    | some result => .done result
    | none => .thrown .database

/-- `randomUUID()`; the environment chooses an identifier that no request has had before. -/
def randomUUID : Route Uuid := .await (.work .randomUUID) fun id => .done id

/-- `Date.now()`. -/
def clock : Route ℕ := .await (.work .clock) fun ms => .done ms

/-- `reply.header("X-Cache", …)`. -/
def header (value : XCache) : Route Unit := .await (.work (.header value)) fun _ => .done ()

/-- `await client.query("ROLLBACK").catch(() => undefined)`. -/
def rollbackIgnoring : Route Unit := (query .rollback).attempt fun _ => .done ()

/-- `try { … } catch (error) { ROLLBACK; throw error } finally { release }` around the work on a
client. -/
def withClient {α : Type} (work : Route α) : Route α :=
  (work.attempt fun error => rollbackIgnoring.bind fun _ => .thrown error).ensuring release

/-! ### Responses -/

/-- The answer for an order that does not exist and for one of another user. -/
def orderNotFound : HttpResponse :=
  ⟨404, some (errorBody "ORDER_NOT_FOUND" "Order not found")⟩

/-- `{ order }`; a property that is `undefined` is not written. -/
def orderBody (order : Option OrderRow) : Json :=
  .object (order.map fun row => ("order", row.toJson)).toList

/-- The answer to a transition that is not allowed, with those that are. -/
def invalidStatusTransition (current target : OrderStatus) : HttpResponse :=
  ⟨422, some (.object [("error", .object [
    ("code", .str "INVALID_STATUS_TRANSITION"),
    ("message", .str ("Cannot transition from " ++ current.text ++ " to " ++ target.text)),
    ("details", .object [
      ("from", .str current.text),
      ("to", .str target.text),
      ("allowed", .array ((orderStatusTransitions current).map fun s => .str s.text))])])])⟩

/-- `reply.code(result.status).send(result.body)`; a status that is none is refused. -/
def sendResult (result : IdempotencyResult) : Route HttpResponse :=
  match result.status with
  | .num status =>
      if 100 ≤ status ∧ status ≤ 599 then .done ⟨status.toNat, result.body⟩
      else .thrown (.error "FST_ERR_BAD_STATUS_CODE")
  | _ => .thrown (.error "FST_ERR_BAD_STATUS_CODE")

/-! ### `POST /v1/orders` -/

/-- An item of a validated body. -/
structure OrderItem where
  sku : String
  quantity : ℕ
  unitPriceCents : ℕ
deriving DecidableEq

/-- An item as it is serialised. -/
def OrderItem.toJson (item : OrderItem) : Json :=
  .object [("sku", .str item.sku), ("quantity", .num item.quantity),
    ("unitPriceCents", .num item.unitPriceCents)]

/-- The validated body of a `POST`. -/
structure CreateOrder where
  customerEmail : String
  items : List OrderItem
deriving DecidableEq

namespace CreateOrder

/-- `JSON.stringify(data.items)` before it is made a text. -/
def itemsJson (data : CreateOrder) : Json := .array (data.items.map OrderItem.toJson)

/-- The body that `canonicalRequestHash` is given. -/
def toJson (data : CreateOrder) : Json :=
  .object [("customerEmail", .str data.customerEmail), ("items", data.itemsJson)]

/-- `items.reduce((sum, item) => sum + item.quantity * item.unitPriceCents, 0)`. -/
def totalCents (data : CreateOrder) : ℕ :=
  data.items.foldl (fun total item => total + item.quantity * item.unitPriceCents) 0

end CreateOrder

/-- The event that tells the other services of a new order. -/
def orderCreatedEvent (request : FastifyRequest) (eventId orderId : Uuid) (occurredAt : String) :
    OutboxEventRow where
  id := eventId
  eventType := "order.created"
  aggregateType := "order"
  aggregateId := orderId
  payload := .object [
    ("eventId", .str eventId.text),
    ("eventType", .str "order.created"),
    ("orderId", .str orderId.text),
    ("occurredAt", .str occurredAt),
    ("correlationId", .str (request.correlationId.getD request.id))]
  occurredAt := occurredAt

/-- The statements of the transaction that creates an order, and what follows its commit. -/
def insertNewOrder (ctx : ApiContext) (userId : Uuid) (data : CreateOrder) (orderId : Uuid)
    (event : OutboxEventRow) : Route IdempotencyResult := do
  query .begin
  let order ← query (.insertOrder orderId userId data.customerEmail data.itemsJson data.totalCents)
  let createdId ← randomUUID
  query (.insertOrderEvent createdId orderId.text .created none .pending userId)
  query (.insertOutboxEvent event)
  query .commit
  invalidateListNamespace ctx cacheNamespaces.ordersList
  return ⟨.num 201, some (orderBody (some order))⟩

/-- `createOrderTransactionally`: the order, its event and the outbox event in one transaction. -/
def createOrderTransactionally (ctx : ApiContext) (request : FastifyRequest) (userId : Uuid)
    (data : CreateOrder) : Route IdempotencyResult := do
  let orderId ← randomUUID
  let eventId ← randomUUID
  let now ← clock
  connect
  withClient (insertNewOrder ctx userId data orderId
    (orderCreatedEvent request eventId orderId (Text.toISOString now)))

/-- `POST /v1/orders`: creates an order, safe to retry under an `Idempotency-Key`. -/
def createOrder (ctx : ApiContext) (user : Uuid) (request : FastifyRequest) (data : CreateOrder)
    (attempts : ℕ) : Route HttpResponse :=
  (withIdempotency ctx ⟨"orders:create", user.text, request, data.toJson⟩
    (createOrderTransactionally ctx request user data) attempts).bind sendResult

/-! ### `GET /v1/orders/:id` -/

/-- The key under which an order is cached, built from the spelling of the id in the path. -/
def orderEntityKey (id : String) : String := cacheNamespaces.order ++ ":" ++ id

/-- The fetcher: `{ order }`, or `null` where there is no such row. -/
def fetchOrder (id : String) : Route (Option Json) :=
  (query (.selectOrder id)).bind fun (row : Option OrderRow) =>
    .done (row.map fun row => orderBody (some row))

/-- Whether a value counts as `false` in a condition. -/
def isFalsy : Json → Bool
  | .null => true
  | .bool b => !b
  | .num n => n = 0
  | .str s => s.isEmpty
  | _ => false

/-- The ownership check: `!response || response.order.user_id !== user.id`. -/
def checkOwner (user : Uuid) : Option Json → Route HttpResponse
  | none => .done orderNotFound
  | some response =>
      if isFalsy response then .done orderNotFound
      else
        match response.get? "order" with
        | none | some .null => .thrown .typeError
        | some order =>
            if order.get? "user_id" = some (.str user.text) then .done ⟨200, some response⟩
            else .done orderNotFound

/-- `GET /v1/orders/:id`: one order, through a cache that all users share. -/
def getOrder (ctx : ApiContext) (user : Uuid) (id : String) : Route HttpResponse :=
  (withEntityCache ctx ⟨orderEntityKey id, header, none⟩ (fetchOrder id)).bind (checkOwner user)

/-! ### `GET /v1/orders` -/

/-- A validated list request. -/
structure ListOrdersQuery where
  page : ℕ
  pageSize : ℕ
  status : Option OrderStatus
  customerEmail : Option String
  createdAfter : Option String
  createdBefore : Option String
  page_pos : 1 ≤ page
  pageSize_pos : 1 ≤ pageSize
  pageSize_le : pageSize ≤ 100
  /-- An email address has its sign. -/
  email : ∀ s, customerEmail = some s → '@' ∈ s.toList
  /-- A date begins with the digit of a year. -/
  after_digit : ∀ s, createdAfter = some s → ∃ c, s.toList.head? = some c ∧ c.isDigit
  before_digit : ∀ s, createdBefore = some s → ∃ c, s.toList.head? = some c ∧ c.isDigit
deriving DecidableEq

/-- SQL `OFFSET` of the requested page. -/
def paginationOffset (query : ListOrdersQuery) : ℕ := (query.page - 1) * query.pageSize

/-- The properties of the pagination metadata. -/
def buildPaginationMeta (total : ℕ) (query : ListOrdersQuery) : List (String × Json) :=
  let totalPages := if total = 0 then 0 else (total + query.pageSize - 1) / query.pageSize
  [("page", .num query.page), ("pageSize", .num query.pageSize), ("total", .num total),
    ("totalPages", .num totalPages), ("hasNext", .bool (query.page < totalPages)),
    ("hasPrev", .bool (1 < query.page))]

namespace ListOrdersQuery

/-- The `WHERE` clause. -/
def filter (ctx : ApiContext) (query : ListOrdersQuery) (userId : Uuid) : OrderFilter where
  userId := userId
  status := query.status
  customerEmail := query.customerEmail.map ctx.toLowerCase
  createdAfter := query.createdAfter
  createdBefore := query.createdBefore

/-- `{ ...query, userId }`, the query of the page cache. -/
def listCacheQuery (query : ListOrdersQuery) (userId : Uuid) : Query :=
  [("page", some (toString query.page)), ("pageSize", some (toString query.pageSize))] ++
    (query.status.map fun s => ("status", some s.text)).toList ++
    (query.customerEmail.map fun s => ("customerEmail", some s)).toList ++
    (query.createdAfter.map fun s => ("createdAfter", some s)).toList ++
    (query.createdBefore.map fun s => ("createdBefore", some s)).toList ++
    [("userId", some userId.text)]

/-- The filters as the client gave them. -/
def filtersJson (query : ListOrdersQuery) : Json :=
  let orNull (value : Option String) : Json := (value.map Json.str).getD .null
  .object [("status", orNull (query.status.map OrderStatus.text)),
    ("customerEmail", orNull query.customerEmail),
    ("createdAfter", orNull query.createdAfter),
    ("createdBefore", orNull query.createdBefore)]

end ListOrdersQuery

/-- The query of the count cache: the filters alone, so that all pages share one count. -/
def countCacheQuery (filter : OrderFilter) : Query :=
  [("userId", some filter.userId.text), ("status", filter.status.map OrderStatus.text),
    ("customerEmail", filter.customerEmail), ("createdAfter", filter.createdAfter),
    ("createdBefore", filter.createdBefore)]

/-- `Number.parseInt(count, 10)` of a `count(*)::text`, which is the text of a natural
number. -/
def fetchCount (filter : OrderFilter) : Route ℕ :=
  (query (.countOrders filter)).bind fun (count : String) => .done ((countOf count).getD 0)

/-- The body of a list response. -/
def pageBody (query : ListOrdersQuery) (rows : List OrderRow) (total : ℕ) : Json :=
  .object (buildPaginationMeta total query ++
    [("orders", .array (rows.map OrderRow.toJson)), ("filters", query.filtersJson)])

/-- `fetchOrdersPage`: `Promise.all` of the page and the count, so that the two may see different
tables. -/
def fetchOrdersPage (ctx : ApiContext) (query' : ListOrdersQuery) (userId : Uuid) : Route Json :=
  let filter := query'.filter ctx userId
  (Program.both
    (query (.selectOrders filter query'.pageSize (paginationOffset query')))
    (withCountCache ctx ⟨cacheNamespaces.ordersList, countCacheQuery filter, none⟩
      (fetchCount filter))).bind fun ((rows : List OrderRow), total) =>
    .done (pageBody query' rows total)

/-- `GET /v1/orders`: a page of the user's own orders. -/
def listOrders (ctx : ApiContext) (user : Uuid) (query : ListOrdersQuery) : Route HttpResponse :=
  (withListCache ctx
    ⟨cacheNamespaces.ordersList, query.listCacheQuery user, header, none⟩
    (fetchOrdersPage ctx query user)).bind fun body => .done ⟨200, some body⟩

/-! ### `PATCH /v1/orders/:id` -/

/-- The write of a status change: the row and its audit row. -/
def changeStatus (user : Uuid) (id : String) (current target : OrderStatus) :
    Route (Option OrderRow) := do
  let order ← query (.updateOrder id target)
  let eventId ← randomUUID
  query (.insertOrderEvent eventId id .statusChanged (some current) target user)
  return order

/-- What a `PATCH` does once the transition is known to be allowed. -/
def applyTransition (ctx : ApiContext) (user : Uuid) (id : String) (current target : OrderStatus) :
    Route HttpResponse := do
  let order ← if current = target then query (.selectOrder id)
    else changeStatus user id current target
  query .commit
  -- a no-op changes no state, and leaves the caches alone
  if current ≠ target then
    let _ ← Program.both (invalidateEntity ctx (orderEntityKey id))
      (invalidateListNamespace ctx cacheNamespaces.ordersList)
  return ⟨200, some (orderBody order)⟩

/-- The work of a `PATCH` on its client. -/
def transition (ctx : ApiContext) (user : Uuid) (id : String) (target : OrderStatus) :
    Route HttpResponse := do
  query .begin
  let current ← query (.selectOrderForUpdate id)
  match (current : Option (OrderStatus × Uuid)) with
  | none =>
      query .rollback
      return orderNotFound
  | some (status, owner) =>
      if owner ≠ user then
        query .rollback
        return orderNotFound
      else if isAllowedOrderStatusTransition status target then
        applyTransition ctx user id status target
      else
        query .rollback
        return invalidStatusTransition status target

/-- `PATCH /v1/orders/:id`: moves an order along its state machine. -/
def patchOrder (ctx : ApiContext) (user : Uuid) (id : String) (target : OrderStatus) :
    Route HttpResponse := do
  connect
  withClient (transition ctx user id target)

end OrderRoutes

end OrderPlatform
