import Mathlib.Data.List.Nodup
import OrderPlatform.Api.Database

/-!
# The outbox table

The rows of `outbox_events`, the statements that the publisher sends, and what Postgres does with
them under READ COMMITTED.  A row that a transaction has selected `FOR UPDATE` or updated is locked
until the transaction ends.  `SKIP LOCKED` passes over the rows that others have locked; a scan that
runs while others commit may pass over rows that have been unlocked or have become due in the
meantime, so which of the rows in question are found is left open (`Database.IsBatch`).

* `OutboxRow`, `OutboxTable` — the data.  The ids of a table are distinct.
* `Statement`, `Write` — what is asked, and what it changes.
* `Database`, `Database.exec` — sessions, row locks, and their steps.
-/

namespace OrderPlatform

namespace Outbox

open Async (Tid)
open Text (Json)

/-! ### Rows -/

/-- A row of `outbox_events`.  Times are microseconds since the epoch. -/
structure OutboxRow where
  id : Uuid
  eventType : String
  /-- An object, as the driver parses it. -/
  payload : Text.Fields
  attempts : ℕ
  lastError : Option String
  nextAttemptAt : ℤ
  occurredAt : ℤ
  publishedAt : Option ℤ
  updatedAt : ℤ
  /-- The session that has set `published_at`; no statement looks at it. -/
  publishedBy : Option Tid

/-- `published_at IS NULL AND next_attempt_at <= now()`. -/
def OutboxRow.isDue (now : ℤ) (row : OutboxRow) : Bool :=
  row.publishedAt.isNone && decide (row.nextAttemptAt ≤ now)

/-- What an `UPDATE` sets. -/
inductive Write
  | published (id : Uuid) (now : ℤ) (session : Tid)
  | failed (id : Uuid) (attempts : ℕ) (error : String) (nextAttemptAt now : ℤ)

namespace Write

/-- The row that a write changes. -/
def id : Write → Uuid
  | published id _ _ => id
  | failed id _ _ _ _ => id

/-- The row that is updated. -/
def update : Write → OutboxRow → OutboxRow
  | published _ now t, row =>
      { row with publishedAt := some now, lastError := none, updatedAt := now, publishedBy := some t }
  | failed _ attempts e nextAttemptAt now, row =>
      { row with attempts, lastError := some e, nextAttemptAt, updatedAt := now }

/-- One row under an `UPDATE`. -/
def onRow (w : Write) (row : OutboxRow) : OutboxRow :=
  if row.id = w.id then w.update row else row

@[simp] theorem update_id (w : Write) (row : OutboxRow) : (w.update row).id = row.id := by
  cases w <;> rfl

@[simp] theorem onRow_id (w : Write) (row : OutboxRow) : (w.onRow row).id = row.id := by
  unfold onRow
  split <;> simp

@[simp] theorem onRow_payload (w : Write) (row : OutboxRow) :
    (w.onRow row).payload = row.payload := by
  unfold onRow
  split
  · cases w <;> rfl
  · rfl

@[simp] theorem onRow_eventType (w : Write) (row : OutboxRow) :
    (w.onRow row).eventType = row.eventType := by
  unfold onRow
  split
  · cases w <;> rfl
  · rfl

end Write

/-- The table `outbox_events`, with its primary key as a field. -/
structure OutboxTable where
  rows : List OutboxRow
  ids : (rows.map OutboxRow.id).Nodup

namespace OutboxTable

/-- No event has been written. -/
def empty : OutboxTable := ⟨[], List.nodup_nil⟩

/-- A write on the row that it is about; no write adds or removes a row. -/
def apply (T : OutboxTable) (w : Write) : OutboxTable where
  rows := T.rows.map w.onRow
  ids := by
    have same : OutboxRow.id ∘ w.onRow = OutboxRow.id := by
      funext row
      exact w.onRow_id row
    rw [List.map_map, same]
    exact T.ids

/-- The writes of a transaction, oldest first. -/
def applyAll (T : OutboxTable) (ws : List Write) : OutboxTable := ws.foldl apply T

/-- A row whose id is new. -/
def insert (T : OutboxTable) (row : OutboxRow) : Option OutboxTable :=
  if fresh : row.id ∉ T.rows.map OutboxRow.id then
    some ⟨row :: T.rows, List.nodup_cons.mpr ⟨fresh, T.ids⟩⟩
  else none

/-- An id has one row. -/
theorem row_unique {T : OutboxTable} {row row' : OutboxRow} (mem : row ∈ T.rows)
    (mem' : row' ∈ T.rows) (same : row.id = row'.id) : row = row' :=
  List.inj_on_of_nodup_map T.ids mem mem' same

end OutboxTable

/-! ### Statements -/

/-- The SQL statements of a poll. -/
inductive Statement
  | begin
  | commit
  | rollback
  /-- `SELECT … WHERE … ORDER BY occurred_at ASC LIMIT $1 FOR UPDATE SKIP LOCKED` -/
  | selectBatch (limit : ℕ)
  /-- `UPDATE … SET published_at = now(), last_error = NULL, updated_at = now() WHERE id = $1` -/
  | markPublished (id : Uuid)
  /-- `UPDATE … SET attempts = $2, last_error = $3, next_attempt_at = now() + …, updated_at = now()
  WHERE id = $1` -/
  | markFailed (id : Uuid) (attempts : ℕ) (error : String) (seconds : ℕ)

/-- What a statement returns. -/
def Statement.Result : Statement → Type
  | selectBatch _ => List OutboxRow
  | _ => Unit

/-! ### Sessions -/

/-- An open transaction with its pending writes. -/
structure Transaction where
  /-- The value of `now()` throughout the transaction. -/
  startedAt : ℤ
  writes : List Write
  aborted : Bool

/-- Postgres as the publishers use it. -/
structure Database where
  /-- What has been committed. -/
  table : OutboxTable
  transaction : Tid → Option Transaction
  /-- Who holds the lock on a row. -/
  holder : Uuid → Option Tid
  /-- The connection of a session is gone. -/
  lost : Tid → Bool
  now : ℤ

namespace Database

/-- A database without events and without sessions. -/
def initial : Database := ⟨.empty, fun _ => none, fun _ => none, fun _ => false, 0⟩

/-- What a statement of session `t` reads. -/
def view (t : Tid) (db : Database) : OutboxTable :=
  match db.transaction t with
  | some tx => db.table.applyAll tx.writes
  | none => db.table

/-- `now()` in session `t`. -/
def nowOf (t : Tid) (db : Database) : ℤ :=
  match db.transaction t with
  | some tx => tx.startedAt
  | none => db.now

/-- The transaction of `t` is over; its locks are free and its writes are gone. -/
def endTransaction (t : Tid) (db : Database) : Database :=
  { db with
    transaction := Function.update db.transaction t none
    holder := fun id => if db.holder id = some t then none else db.holder id }

/-- A statement of `t` has failed. -/
def abort (t : Tid) (db : Database) : Database :=
  { db with
    transaction := Function.update db.transaction t
      ((db.transaction t).map fun tx => { tx with aborted := true }) }

/-- The connection of a session is lost, and with it its transaction. -/
def disconnect (t : Tid) (db : Database) : Database :=
  { db.endTransaction t with lost := Function.update db.lost t true }

/-- Session `t` writes: into its transaction, or at once where it has none. -/
def write (t : Tid) (w : Write) (db : Database) : Database :=
  match db.transaction t with
  | some tx =>
      { db with
        transaction := Function.update db.transaction t (some { tx with writes := tx.writes ++ [w] })
        holder := Function.update db.holder w.id (some t) }
  | none => { db with table := db.table.apply w }

/-- Whether session `t` may lock a row. -/
def mayLock (t : Tid) (id : Uuid) (db : Database) : Bool :=
  match db.holder id with
  | some u => u = t
  | none => true

/-- Session `t` locks rows, where there is a transaction to hold the locks. -/
def lock (t : Tid) (ids : List Uuid) (db : Database) : Database :=
  match db.transaction t with
  | some _ => { db with holder := fun id => if id ∈ ids then some t else db.holder id }
  | none => db

/-- What the `SELECT` may find: rows that are due and not locked by others, oldest first. -/
structure IsBatch (t : Tid) (limit : ℕ) (rows : List OutboxRow) (db : Database) : Prop where
  length : rows.length ≤ limit
  distinct : (rows.map OutboxRow.id).Nodup
  oldestFirst : rows.Pairwise fun a b => a.occurredAt ≤ b.occurredAt
  due : ∀ row ∈ rows, row ∈ (db.view t).rows ∧ row.isDue (db.nowOf t) = true ∧
    db.mayLock t row.id = true

/-- The ids of the rows that a scan finds stand for the rows. -/
def batch (t : Tid) (ids : List Uuid) (db : Database) : List OutboxRow :=
  ids.filterMap fun id => (db.view t).rows.find? fun row => row.id = id

instance decidableIsBatch (t : Tid) (limit : ℕ) (ids : List Uuid) (db : Database) :
    Decidable (db.IsBatch t limit (db.batch t ids)) :=
  have found : ∀ row ∈ db.batch t ids, row ∈ (db.view t).rows := by
    intro row mem
    obtain ⟨id, _, found⟩ := List.mem_filterMap.mp mem
    exact List.mem_of_find?_eq_some found
  decidable_of_iff ((db.batch t ids).length ≤ limit ∧ ((db.batch t ids).map OutboxRow.id).Nodup ∧
      (db.batch t ids).Pairwise (fun a b => a.occurredAt ≤ b.occurredAt) ∧
      ∀ row ∈ db.batch t ids, row.isDue (db.nowOf t) = true ∧ db.mayLock t row.id = true)
    ⟨fun h => ⟨h.1, h.2.1, h.2.2.1, fun row mem => ⟨found row mem, h.2.2.2 row mem⟩⟩,
      fun h => ⟨h.length, h.distinct, h.oldestFirst, fun row mem => (h.due row mem).2⟩⟩

/-- What a statement does when nothing goes wrong: `none` where it has to wait, and
`some (none, _)` where Postgres rejects it.  `ids` are the rows that a scan finds. -/
def perform (t : Tid) (ids : List Uuid) (db : Database) :
    (st : Statement) → Option (Option st.Result × Database)
  | .begin =>
      match db.transaction t with
      | some _ => some (some (), db)
      | none =>
          some (some (),
            { db with transaction := Function.update db.transaction t (some ⟨db.now, [], false⟩) })
  | .commit =>
      match db.transaction t with
      | some tx =>
          some (some (), { db.endTransaction t with table := db.table.applyAll tx.writes })
      | none => some (some (), db)
  | .rollback => some (some (), db.endTransaction t)
  | .selectBatch limit =>
      if db.IsBatch t limit (db.batch t ids) then
        some (some (db.batch t ids), db.lock t ((db.batch t ids).map OutboxRow.id))
      else none
  | .markPublished id =>
      if db.mayLock t id then some (some (), db.write t (.published id (db.nowOf t) t)) else none
  | .markFailed id attempts e seconds =>
      -- `attempts` is an `integer` column
      if 2147483647 < attempts then some (none, db.abort t)
      else if db.mayLock t id then
        some (some (), db.write t
          (.failed id attempts e (db.nowOf t + seconds * 1000000) (db.nowOf t)))
      else none

/-- One statement of session `t` on a connection that is not lost.  A failed statement has no effect
and aborts its transaction.  In an aborted transaction `COMMIT` and `ROLLBACK` both roll back, and
every other statement is rejected. -/
def exec (t : Tid) (fails : Bool) (ids : List Uuid) (st : Statement) (db : Database) :
    Option (Option st.Result × Database) :=
  if fails then some (none, db.abort t)
  else
    match db.transaction t with
    | some ⟨_, _, true⟩ =>
        match st with
        | .commit => some (some (), db.endTransaction t)
        | .rollback => some (some (), db.endTransaction t)
        | .begin => some (none, db)
        | .selectBatch _ => some (none, db)
        | .markPublished _ => some (none, db)
        | .markFailed .. => some (none, db)
    | _ => db.perform t ids st

/-! ### What a statement does -/

/-- No statement of the transaction has failed. -/
def Healthy (t : Tid) (db : Database) : Prop :=
  ∀ tx, db.transaction t = some tx → tx.aborted = false

/-- What a statement of session `t` returns and does; `none` is an error. -/
inductive Executed (t : Tid) (db : Database) : (st : Statement) → Option st.Result → Database → Prop
  | rejected {st : Statement} {tx : Transaction} (running : db.transaction t = some tx)
      (aborted : tx.aborted = true) : Executed t db st none db
  | failed {st : Statement} : Executed t db st none (db.abort t)
  | nested {tx : Transaction} (running : db.transaction t = some tx) :
      Executed t db .begin (some ()) db
  | begun (free : db.transaction t = none) :
      Executed t db .begin (some ())
        { db with transaction := Function.update db.transaction t (some ⟨db.now, [], false⟩) }
  | committed {tx : Transaction} (running : db.transaction t = some tx) (healthy : db.Healthy t) :
      Executed t db .commit (some ())
        { db.endTransaction t with table := db.table.applyAll tx.writes }
  | idle (free : db.transaction t = none) : Executed t db .commit (some ()) db
  | withdrawn {tx : Transaction} (running : db.transaction t = some tx)
      (aborted : tx.aborted = true) : Executed t db .commit (some ()) (db.endTransaction t)
  | rolledBack : Executed t db .rollback (some ()) (db.endTransaction t)
  | found {limit : ℕ} {rows : List OutboxRow} (healthy : db.Healthy t)
      (batch : db.IsBatch t limit rows) :
      Executed t db (.selectBatch limit) (some rows) (db.lock t (rows.map OutboxRow.id))
  | marked {id : Uuid} (healthy : db.Healthy t) (free : db.mayLock t id = true) :
      Executed t db (.markPublished id) (some ()) (db.write t (.published id (db.nowOf t) t))
  | postponed {id : Uuid} {attempts : ℕ} {e : String} {seconds : ℕ} (healthy : db.Healthy t)
      (free : db.mayLock t id = true) :
      Executed t db (.markFailed id attempts e seconds) (some ())
        (db.write t (.failed id attempts e (db.nowOf t + seconds * 1000000) (db.nowOf t)))

variable {t : Tid} {db db' : Database} {ids : List Uuid}

private theorem executed_of_perform {st : Statement} {r : Option st.Result} (healthy : db.Healthy t)
    (h : db.perform t ids st = some (r, db')) : Executed t db st r db' := by
  cases st with
  | begin =>
      simp only [perform] at h
      split at h
      · rename_i tx running
        cases h
        exact .nested running
      · rename_i free
        cases h
        exact .begun free
  | commit =>
      simp only [perform] at h
      split at h
      · rename_i tx running
        cases h
        exact .committed running healthy
      · rename_i free
        cases h
        exact .idle free
  | rollback =>
      cases h
      exact .rolledBack
  | selectBatch limit =>
      simp only [perform] at h
      split at h
      · rename_i batch
        cases h
        exact .found healthy batch
      · cases h
  | markPublished id =>
      simp only [perform] at h
      split at h
      · rename_i free
        cases h
        exact .marked healthy free
      · cases h
  | markFailed id attempts e seconds =>
      simp only [perform] at h
      split at h
      · cases h
        exact .failed
      · split at h
        · rename_i free
          cases h
          exact .postponed healthy free
        · cases h

/-- **What one statement does.** -/
theorem executed_of_exec {fails : Bool} {st : Statement} {r : Option st.Result}
    (h : db.exec t fails ids st = some (r, db')) : Executed t db st r db' := by
  unfold exec at h
  cases fails with
  | true =>
      cases h
      exact .failed
  | false =>
      simp only [Bool.false_eq_true, if_false] at h
      split at h
      · rename_i startedAt writes running
        cases st with
        | commit =>
            cases h
            exact .withdrawn running rfl
        | rollback =>
            cases h
            exact .rolledBack
        | begin =>
            cases h
            exact .rejected running rfl
        | selectBatch limit =>
            cases h
            exact .rejected running rfl
        | markPublished id =>
            cases h
            exact .rejected running rfl
        | markFailed id attempts e seconds =>
            cases h
            exact .rejected running rfl
      · rename_i running
        refine executed_of_perform ?_ h
        intro tx known
        obtain ⟨startedAt, writes, aborted⟩ := tx
        cases aborted with
        | false => rfl
        | true => exact absurd known (running startedAt writes)

end Database

end Outbox

end OrderPlatform
