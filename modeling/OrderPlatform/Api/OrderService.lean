import OrderPlatform.Async.Pool
import OrderPlatform.Api.Orders

/-!
# The order service

Any number of requests to the order routes, handled by any number of API processes, share one
Redis and one Postgres.  `OrderRoutes.machine` gives the operations of the handlers their
meaning there, one command or one statement at a time.

Next to the two servers the state keeps the answer headers, how often a request has been given a
connection and has given one back, the identifiers that were generated, and a `History` that no
step looks at:
what has been committed and by whom, who has deleted which key, who has raised the list
version, and how much was committed when a request last read a single order.

A connection that was given back with a failed transaction on it keeps that transaction, and
its locks, until whoever uses the connection next rolls it back.  That moment is the event
`Event.reset`.

* `State`, `History` — the shared state.
* `machine` — the meaning of the operations.
* `Request`, `handler` — the four routes.
-/

namespace OrderPlatform

namespace OrderRoutes

open Async (Tid Machine)

/-- How an operation goes. -/
inductive Choice
  | redis (fault : Redis.Fault)
  | succeeds
  | fails
  /-- A statement succeeds; a list query finds the rows in this order. -/
  | rows (sorted : List OrderRow)
  /-- The identifier that is generated. -/
  | fresh (id : Uuid)
  /-- What the clock of the process shows. -/
  | time (ms : ℕ)
deriving DecidableEq

/-- A committed transaction that wrote something, and the tables it left. -/
structure Commit where
  tid : Tid
  tables : Tables
deriving DecidableEq

/-- What the requests have done so far, as the theorems need it.  No operation looks at it. -/
structure History where
  /-- Oldest first. -/
  commits : List Commit
  /-- Who has deleted which key. -/
  deleted : List (Tid × String)
  /-- Who has raised the version of the order lists. -/
  bumped : List Tid
  /-- How many commits there were when a request last read a single order. -/
  readAt : Tid → ℕ

namespace History

/-- No request has done anything. -/
def initial : History := ⟨[], [], [], fun _ => 0⟩

/-- The committed states of the tables, from the first one on. -/
def states (h : History) : List Tables := .empty :: h.commits.map Commit.tables

/-- What an answered command adds. -/
def redis (t : Tid) : (c : Redis.Command) → Option c.Reply → History → History
  | .del key, some _, h => { h with deleted := h.deleted ++ [(t, key)] }
  | .incr _, some _, h => { h with bumped := h.bumped ++ [t] }
  | _, _, h => h

/-- What a statement adds, given what its session had written before and the tables
afterwards. -/
def sql (t : Tid) (writes : List Write) (tables : Tables) :
    (st : Statement) → Option st.Result → History → History
  | .commit, some _, h =>
      if writes = [] then h else { h with commits := h.commits ++ [⟨t, tables⟩] }
  | .selectOrder _, _, h => { h with readAt := Function.update h.readAt t h.commits.length }
  | _, _, h => h

end History

/-- The state that the requests share: Redis, Postgres, and what the theorems say about connections,
headers and commits. -/
structure State where
  server : Redis.Server
  db : Database
  /-- Who has generated an identifier. -/
  generated : Uuid → Option Tid
  /-- The `X-Cache` header of the response. -/
  header : Tid → Option XCache
  /-- How often a request has been given a connection. -/
  opened : Tid → ℕ
  /-- How often a request has given a connection back. -/
  released : Tid → ℕ
  history : History

/-- Before the first request. -/
def State.initial : State where
  server := .empty
  db := .initial
  generated := fun _ => none
  header := fun _ => none
  opened := fun _ => 0
  released := fun _ => 0
  history := .initial

/-- What session `t` would commit now. -/
def State.pending (t : Tid) (s : State) : List Write :=
  match s.db.transaction t with
  | some ⟨_, writes, false⟩ => writes
  | _ => []

/-- One Redis command of a request. -/
def State.redis (t : Tid) (fault : Redis.Fault) (c : Redis.Command) (s : State) :
    Option c.Reply × State :=
  let x := s.server.call fault c
  (x.1, { s with server := x.2, history := s.history.redis t c x.1 })

/-- One statement of a request. -/
def State.sql (ctx : ApiContext) (t : Tid) (fails : Bool) (sorted : List OrderRow)
    (st : Statement) (s : State) : Option (Option st.Result × State) :=
  (s.db.exec ctx t fails sorted st).map fun x =>
    (x.1, { s with db := x.2, history := s.history.sql t (s.pending t) x.2.tables st x.1 })

/-- An operation on the database, the pool or the response, with the choice of the environment. -/
def execWork (ctx : ApiContext) (t : Tid) :
    Choice → (o : Work) → State → Option (o.Reply × State)
  | .succeeds, .connect, s =>
      some (some (), { s with opened := Function.update s.opened t (s.opened t + 1) })
  | .fails, .connect, s => some (none, s)
  | .succeeds, .release, s =>
      some ((), { s with released := Function.update s.released t (s.released t + 1) })
  | .succeeds, .sql st, s => s.sql ctx t false [] st
  | .fails, .sql st, s => s.sql ctx t true [] st
  | .rows sorted, .sql st, s => s.sql ctx t false sorted st
  | .fresh id, .randomUUID, s =>
      if s.generated id = none then
        some (id, { s with generated := Function.update s.generated id (some t) })
      else none
  | .time ms, .clock, s => some (ms, s)
  | .succeeds, .header value, s =>
      some ((), { s with header := Function.update s.header t (some value) })
  | _, _, _ => none

/-- One operation of a request; the commands of the cache and of the idempotency records go to the
same Redis. -/
def exec (ctx : ApiContext) (t : Tid) :
    Choice → (o : Op Work) → State → Option (o.Reply Work.Reply × State)
  | .redis fault, .redis c, s => some (s.redis t fault c)
  | _, .redis _, _ => none
  | choice, .work o, s => execWork ctx t choice o s

/-- What happens without any request doing it. -/
inductive Event
  | redis (e : Redis.Event)
  /-- Time passes on the database server. -/
  | tick
  /-- The failed transaction on a returned connection is rolled back by its next user. -/
  | reset (t : Tid)
deriving DecidableEq

/-- An event in a state; a transaction is reset on a connection that has been given back. -/
def State.event : Event → State → Option State
  | .redis e, s => (s.server.event e).map fun server => { s with server }
  | .tick, s => some { s with db := { s.db with now := s.db.now + 1 } }
  | .reset t, s => if 0 < s.released t then some { s with db := s.db.endTransaction t } else none

/-- The order service as a machine.  The transaction of a request that dies is rolled back. -/
@[reducible] def machine (ctx : ApiContext) : Machine where
  Op := Op Work
  Reply := Op.Reply Work.Reply
  Error := ApiError
  State := State
  Choice := Choice
  Event := Event
  exec := exec ctx
  event := State.event
  crash t s := { s with db := s.db.endTransaction t }

/-- A request, after authentication and validation.  A `POST` may make a bounded number of
attempts to claim its key. -/
inductive Request
  | createOrder (user : Uuid) (request : FastifyRequest) (data : CreateOrder) (attempts : ℕ)
  | getOrder (user : Uuid) (id : String)
  | listOrders (user : Uuid) (query : ListOrdersQuery)
  | patchOrder (user : Uuid) (id : String) (target : OrderStatus)
deriving DecidableEq

namespace Request

/-- Who makes the request. -/
def user : Request → Uuid
  | createOrder user .. => user
  | getOrder user _ => user
  | listOrders user _ => user
  | patchOrder user .. => user

end Request

/-- The handler of each route of `orders.routes.ts`. -/
def handler (ctx : ApiContext) : Request → (machine ctx).Task HttpResponse
  | .createOrder user request data attempts => createOrder ctx user request data attempts
  | .getOrder user id => getOrder ctx user id
  | .listOrders user query => listOrders ctx user query
  | .patchOrder user id target => patchOrder ctx user id target

/-- The pools of the order service. -/
abbrev Service (ctx : ApiContext) := Async.Pool (machine ctx) Request HttpResponse

/-- The service before the first request. -/
def Service.initial (ctx : ApiContext) : Service ctx := Async.Pool.idle State.initial

end OrderRoutes

end OrderPlatform
