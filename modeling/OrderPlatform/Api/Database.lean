import Mathlib.Data.List.Perm.Basic
import Mathlib.Logic.Function.Basic
import OrderPlatform.Async.Pool
import OrderPlatform.Api.Types
import OrderPlatform.Shared.OrderStatus
import OrderPlatform.Text.Date

/-!
# The order tables and the statements on them

The three tables that the order routes write (`orders`, `order_events`, `outbox_events`), the
statements the routes send, and what Postgres does with them under READ COMMITTED: a
transaction reads the committed tables with its own writes on top, its writes become visible
when it commits, a locked row keeps other transactions waiting, and a statement that fails has
no effect and aborts its transaction.

`Database.exec` performs one statement for one session.  It is undefined where the statement
has to wait.  What Postgres leaves open is passed in: whether the statement fails, and the
order in which a `SELECT … ORDER BY created_at DESC` returns rows of equal time.

* `OrderRow`, `OrderEventRow`, `OutboxEventRow`, `Tables` — the data.
* `OrderFilter` — the `WHERE` clause of a list request.
* `Statement`, `Statement.Result` — the statements and what they return.
* `Database`, `Database.exec` — sessions, row locks, and their steps.
-/

namespace OrderPlatform

open Async (Tid)
open Text (Json)

/-! ### Data -/

/-- A character of a uuid as Postgres prints it. -/
def isUuidChar (c : Char) : Bool := c.isDigit || ('a' ≤ c && c ≤ 'f') || c = '-'

/-- A uuid, in the text that Postgres prints. -/
structure Uuid where
  text : String
  canonical : ∀ c ∈ text.toList, isUuidChar c = true

namespace Uuid

theorem injective_text : Function.Injective Uuid.text := by
  rintro ⟨a, ha⟩ ⟨b, hb⟩ h
  cases h
  rfl

instance : DecidableEq Uuid := fun a b => decidable_of_iff (a.text = b.text) injective_text.eq_iff

/-- The uuid that a text stands for: the case of its digits is of no matter. -/
def ofText (text : String) : Uuid where
  text := String.ofList ((text.toList.map Char.toLower).filter isUuidChar)
  canonical := by simp

private theorem toLower_of_isUuidChar {c : Char} (h : isUuidChar c = true) : c.toLower = c := by
  refine dif_neg fun upper => ?_
  simp only [isUuidChar, Char.isDigit, Bool.or_eq_true, Bool.and_eq_true, decide_eq_true_eq,
    Char.le_def] at h
  obtain ⟨lo, hi⟩ := upper
  rcases h with (⟨_, digit⟩ | ⟨letter, _⟩) | rfl
  · exact absurd (UInt32.le_trans lo digit) (by decide)
  · exact absurd (UInt32.le_trans letter hi) (by decide)
  · exact absurd lo (by decide)

@[simp] theorem ofText_text (id : Uuid) : ofText id.text = id := by
  have lower : id.text.toList.map Char.toLower = id.text.toList :=
    (List.map_congr_left fun c mem => toLower_of_isUuidChar (id.canonical c mem)).trans
      (List.map_id _)
  have canonical : id.text.toList.filter isUuidChar = id.text.toList :=
    List.filter_eq_self.mpr id.canonical
  exact injective_text (by simp [ofText, lower, canonical])

end Uuid

/-- A row of `orders`.  Times are microseconds since the epoch. -/
structure OrderRow where
  id : Uuid
  userId : Uuid
  customerEmail : String
  items : Json
  totalCents : ℤ
  status : OrderStatus
  createdAt : ℕ
  updatedAt : ℕ
deriving DecidableEq

/-- The row as `JSON.stringify` writes it. -/
def OrderRow.toJson (row : OrderRow) : Json :=
  .object [("id", .str row.id.text), ("user_id", .str row.userId.text),
    ("customer_email", .str row.customerEmail), ("items", row.items),
    ("total_cents", .num row.totalCents), ("status", .str row.status.text),
    ("created_at", .str (Text.toISOString (row.createdAt / 1000))),
    ("updated_at", .str (Text.toISOString (row.updatedAt / 1000)))]

/-- The values of `order_events.event_type`. -/
inductive OrderEventType
  | created
  | statusChanged
deriving DecidableEq

/-- A row of `order_events`, the audit trail of an order. -/
structure OrderEventRow where
  id : Uuid
  orderId : Uuid
  eventType : OrderEventType
  fromStatus : Option OrderStatus
  toStatus : OrderStatus
  actorUserId : Uuid
  occurredAt : ℕ
deriving DecidableEq

/-- A row of `outbox_events` as the API writes it. -/
structure OutboxEventRow where
  id : Uuid
  eventType : String
  aggregateType : String
  aggregateId : Uuid
  payload : Json
  occurredAt : String
deriving DecidableEq

/-- The tables.  Rows stand in the order in which they were committed. -/
structure Tables where
  orders : List OrderRow
  orderEvents : List OrderEventRow
  outboxEvents : List OutboxEventRow
deriving DecidableEq

namespace Tables

/-- No order has been placed. -/
def empty : Tables := ⟨[], [], []⟩

/-- The row of an order. -/
def order? (id : Uuid) (tables : Tables) : Option OrderRow := tables.orders.find? (·.id = id)

/-- The audit rows of an order. -/
def trail (id : Uuid) (tables : Tables) : List OrderEventRow :=
  tables.orderEvents.filter (·.orderId = id)

end Tables

/-- A change that a statement makes to the tables. -/
inductive Write
  | insertOrder (row : OrderRow)
  | updateOrder (id : Uuid) (status : OrderStatus) (updatedAt : ℕ)
  | insertOrderEvent (row : OrderEventRow)
  | insertOutboxEvent (row : OutboxEventRow)
deriving DecidableEq

/-- What a write does to the tables when its transaction commits. -/
def Write.apply : Write → Tables → Tables
  | insertOrder row, tables => { tables with orders := tables.orders ++ [row] }
  | updateOrder id status updatedAt, tables =>
      { tables with
        orders := tables.orders.map fun row =>
          if row.id = id then { row with status, updatedAt } else row }
  | insertOrderEvent row, tables => { tables with orderEvents := tables.orderEvents ++ [row] }
  | insertOutboxEvent row, tables => { tables with outboxEvents := tables.outboxEvents ++ [row] }

/-- Apply the writes of a transaction, oldest first. -/
def Tables.applyAll (tables : Tables) (writes : List Write) : Tables :=
  writes.foldl (fun tables write => write.apply tables) tables

/-! ### List queries -/

/-- The `WHERE` clause of a list request: its user and the filters that were given. -/
structure OrderFilter where
  userId : Uuid
  status : Option OrderStatus
  customerEmail : Option String
  createdAfter : Option String
  createdBefore : Option String
deriving DecidableEq

/-- Whether a row satisfies the clause. -/
def OrderFilter.selects (ctx : ApiContext) (filter : OrderFilter) (row : OrderRow) : Bool :=
  row.userId = filter.userId &&
    filter.status.all (row.status = ·) &&
    filter.customerEmail.all (row.customerEmail = ·) &&
    (filter.createdAfter.all fun text =>
      (ctx.timestamptz text).any fun (time : ℤ) => time ≤ row.createdAt) &&
    filter.createdBefore.all fun text =>
      (ctx.timestamptz text).any fun (time : ℤ) => row.createdAt ≤ time

/-- Whether Postgres accepts the parameters of the clause.  No text of its own has a null character,
and a date has to be one of its own too. -/
def OrderFilter.Readable (ctx : ApiContext) (filter : OrderFilter) : Prop :=
  (∀ email ∈ filter.customerEmail, '\x00' ∉ email.toList) ∧
    (∀ text ∈ filter.createdAfter, (ctx.timestamptz text).isSome = true) ∧
    ∀ text ∈ filter.createdBefore, (ctx.timestamptz text).isSome = true

instance (ctx : ApiContext) (filter : OrderFilter) : Decidable (filter.Readable ctx) :=
  inferInstanceAs (Decidable (_ ∧ _ ∧ _))

/-- The rows that satisfy the clause. -/
def Tables.select (ctx : ApiContext) (filter : OrderFilter) (tables : Tables) : List OrderRow :=
  tables.orders.filter (filter.selects ctx)

/-- Newest first. -/
def newestFirst (a b : OrderRow) : Prop := b.createdAt ≤ a.createdAt

instance : DecidableRel newestFirst := fun _ _ => inferInstanceAs (Decidable (_ ≤ _))

/-- `rows` is a page that `ORDER BY created_at DESC LIMIT limit OFFSET offset` may return. -/
def IsPage (ctx : ApiContext) (filter : OrderFilter) (limit offset : ℕ) (tables : Tables)
    (rows : List OrderRow) : Prop :=
  ∃ sorted : List OrderRow, sorted.Perm (tables.select ctx filter) ∧
    sorted.Pairwise newestFirst ∧ rows = (sorted.drop offset).take limit

/-! ### Statements -/

/-- The statements of the order routes. -/
inductive Statement
  | begin
  | commit
  | rollback
  /-- `SELECT … FROM orders WHERE id = $1` -/
  | selectOrder (id : String)
  /-- `SELECT status, user_id FROM orders WHERE id = $1 FOR UPDATE` -/
  | selectOrderForUpdate (id : String)
  /-- `UPDATE orders SET status = $2, updated_at = now() WHERE id = $1 RETURNING …` -/
  | updateOrder (id : String) (status : OrderStatus)
  /-- `INSERT INTO orders (…) VALUES ($1, $2, lower($3), $4::jsonb, $5, 'pending') RETURNING …` -/
  | insertOrder (id userId : Uuid) (customerEmail : String) (items : Json) (totalCents : ℤ)
  | insertOrderEvent (id : Uuid) (orderId : String) (eventType : OrderEventType)
      (fromStatus : Option OrderStatus) (toStatus : OrderStatus) (actorUserId : Uuid)
  | insertOutboxEvent (row : OutboxEventRow)
  /-- `SELECT … WHERE … ORDER BY created_at DESC LIMIT … OFFSET …` -/
  | selectOrders (filter : OrderFilter) (limit offset : ℕ)
  /-- `SELECT count(*)::text AS count FROM orders WHERE …` -/
  | countOrders (filter : OrderFilter)

/-- What a statement returns. -/
def Statement.Result : Statement → Type
  | begin => Unit
  | commit => Unit
  | rollback => Unit
  | selectOrder _ => Option OrderRow
  | selectOrderForUpdate _ => Option (OrderStatus × Uuid)
  | updateOrder .. => Option OrderRow
  | insertOrder .. => OrderRow
  | insertOrderEvent .. => Unit
  | insertOutboxEvent _ => Unit
  | selectOrders .. => List OrderRow
  | countOrders _ => String

/-! ### Sessions -/

/-- An open transaction. -/
structure Transaction where
  /-- The value of `now()` throughout the transaction. -/
  startedAt : ℕ
  writes : List Write
  aborted : Bool
deriving DecidableEq

/-- Postgres as the order routes use it: what is committed, the open transactions with their pending
writes, and the locks on rows that `FOR UPDATE` has taken. -/
structure Database where
  /-- What has been committed. -/
  tables : Tables
  transaction : Tid → Option Transaction
  /-- Who holds the lock on the row of an order. -/
  holder : Uuid → Option Tid
  now : ℕ

namespace Database

/-- The database before the first request. -/
def initial : Database := ⟨.empty, fun _ => none, fun _ => none, 0⟩

/-- What a statement of session `t` reads. -/
def view (t : Tid) (db : Database) : Tables :=
  match db.transaction t with
  | some tx => db.tables.applyAll tx.writes
  | none => db.tables

/-- `now()` in session `t`. -/
def nowOf (t : Tid) (db : Database) : ℕ :=
  match db.transaction t with
  | some tx => tx.startedAt
  | none => db.now

/-- The transaction of `t` is over; its locks are free and its writes are gone. -/
def endTransaction (t : Tid) (db : Database) : Database :=
  { db with
    transaction := Function.update db.transaction t none
    holder := fun id => if db.holder id = some t then none else db.holder id }

/-- A statement of `t` has failed. -/
def abort (t : Tid) (db : Database) : Database :=
  { db with
    transaction := Function.update db.transaction t
      ((db.transaction t).map fun tx => { tx with aborted := true }) }

/-- Session `t` writes: into its transaction, or at once where it has none. -/
def write (t : Tid) (w : Write) (db : Database) : Database :=
  match db.transaction t with
  | some tx =>
      { db with
        transaction := Function.update db.transaction t
          (some { tx with writes := tx.writes ++ [w] }) }
  | none => { db with tables := w.apply db.tables }

/-- Whether session `t` may lock the row of an order. -/
def mayLock (t : Tid) (id : Uuid) (db : Database) : Bool :=
  match db.holder id with
  | some u => u = t
  | none => true

/-- Session `t` locks the row of an order, where the order exists and there is a transaction to
hold the lock. -/
def lock (t : Tid) (id : Uuid) (db : Database) : Database :=
  if (db.transaction t).isSome && ((db.view t).order? id).isSome then
    { db with holder := Function.update db.holder id (some t) }
  else db

/-- What a statement does when nothing goes wrong: `none` where it has to wait, and
`some (none, _)` where Postgres rejects it.  `sorted` is the order in which a list query
returns its rows. -/
def perform (ctx : ApiContext) (t : Tid) (sorted : List OrderRow) (db : Database) :
    (st : Statement) → Option (Option st.Result × Database)
  | .begin =>
      match db.transaction t with
      | some _ => some (some (), db)
      | none =>
          some (some (),
            { db with transaction := Function.update db.transaction t (some ⟨db.now, [], false⟩) })
  | .commit =>
      match db.transaction t with
      | some tx =>
          some (some (), { db.endTransaction t with tables := db.tables.applyAll tx.writes })
      | none => some (some (), db)
  | .rollback => some (some (), db.endTransaction t)
  | .selectOrder id => some (some ((db.view t).order? (.ofText id)), db)
  | .selectOrderForUpdate id =>
      if db.mayLock t (.ofText id) then
        some (some (((db.view t).order? (.ofText id)).map fun row => (row.status, row.userId)),
          db.lock t (.ofText id))
      else none
  | .updateOrder id status =>
      if db.mayLock t (.ofText id) then
        let db' := (db.lock t (.ofText id)).write t (.updateOrder (.ofText id) status (db.nowOf t))
        some (some ((db'.view t).order? (.ofText id)), db')
      else none
  | .insertOrder id userId customerEmail items totalCents =>
      if ((db.view t).order? id).isSome then some (none, db.abort t)
      else
        let now := db.nowOf t
        let row : OrderRow :=
          ⟨id, userId, ctx.lower customerEmail, items, totalCents, .pending, now, now⟩
        some (some row, db.write t (.insertOrder row))
  | .insertOrderEvent id orderId eventType fromStatus toStatus actorUserId =>
      if ((db.view t).order? (.ofText orderId)).isSome then
        some (some (), db.write t (.insertOrderEvent
          ⟨id, .ofText orderId, eventType, fromStatus, toStatus, actorUserId, db.nowOf t⟩))
      else some (none, db.abort t)
  | .insertOutboxEvent row => some (some (), db.write t (.insertOutboxEvent row))
  | .selectOrders filter limit offset =>
      if sorted.Perm ((db.view t).select ctx filter) ∧ sorted.Pairwise newestFirst then
        some (some ((sorted.drop offset).take limit), db)
      else none
  | .countOrders filter =>
      some (some (toString ((db.view t).select ctx filter).length), db)

/-- One statement of session `t`.  A failed statement has no effect and aborts its transaction.
In an aborted transaction `COMMIT` and `ROLLBACK` both roll back, and every other statement is
rejected. -/
def exec (ctx : ApiContext) (t : Tid) (fails : Bool) (sorted : List OrderRow) (st : Statement)
    (db : Database) : Option (Option st.Result × Database) :=
  if fails then some (none, db.abort t)
  else
    match db.transaction t with
    | some ⟨_, _, true⟩ =>
        match st with
        | .commit => some (some (), db.endTransaction t)
        | .rollback => some (some (), db.endTransaction t)
        | _ => some (none, db)
    | _ => perform ctx t sorted db st

end Database

end OrderPlatform
