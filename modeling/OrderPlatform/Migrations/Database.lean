import Mathlib.Data.List.Nodup
import Mathlib.Data.Int.Notation
import OrderPlatform.Async.Pool

/-!
# The database that is migrated

The table `schema_migrations`, and the rest of the database, about which nothing is known but what
the contents of the migration files do to it.

What a transaction has done is kept as a list of changes until it commits: its statements see the
committed data with these changes (`READ COMMITTED`), and `COMMIT` makes them part of it.

* `MigrationRow`, `MigrationTable` — `schema_migrations`.
* `Data`, `Change` — what is committed, and what a statement changes.
* `Transaction`, `Database`, `Statement`, `Database.exec` — the statements of the runner.
-/

namespace OrderPlatform

namespace Migrations

open Async (Tid)

/-- A row of `schema_migrations`. -/
structure MigrationRow where
  version : String
  description : String
  appliedAt : ℤ
  checksum : String
deriving DecidableEq

/-- The table `schema_migrations`, with its primary key as a field. -/
structure MigrationTable where
  rows : List MigrationRow
  versions : (rows.map MigrationRow.version).Nodup

namespace MigrationTable

/-- No migration has been applied. -/
def empty : MigrationTable := ⟨[], List.nodup_nil⟩

/-- `ON CONFLICT (version) DO UPDATE SET checksum = …, applied_at = now()`. -/
def touch (row old : MigrationRow) : MigrationRow :=
  if old.version = row.version then
    { old with checksum := row.checksum, appliedAt := row.appliedAt }
  else old

theorem touch_version (row old : MigrationRow) : (touch row old).version = old.version := by
  unfold touch
  split <;> rfl

/-- The upsert: a new version is appended, and a known one keeps its description and gets the new
checksum and moment. -/
def record (row : MigrationRow) (T : MigrationTable) : MigrationTable :=
  if fresh : row.version ∉ T.rows.map MigrationRow.version then
    ⟨T.rows ++ [row], by
      rw [List.map_append]
      refine List.Nodup.append T.versions (List.nodup_singleton _) fun version mem mem' => ?_
      rw [List.mem_singleton.mp mem'] at mem
      exact fresh mem⟩
  else
    ⟨T.rows.map (touch row), by
      have same : MigrationRow.version ∘ touch row = MigrationRow.version :=
        funext (touch_version row)
      rw [List.map_map, same]
      exact T.versions⟩

end MigrationTable

section

variable (D : Type)

/-- What is committed. -/
structure Data where
  table : Option MigrationTable
  /-- Everything else. -/
  rest : D

end

variable {D : Type}

namespace Data

/-- The rows of the table; before it is created there are none. -/
def rows (d : Data D) : List MigrationRow := d.table.elim [] MigrationTable.rows

/-- A version has been recorded. -/
def Recorded (version : String) (d : Data D) : Prop := ∃ row ∈ d.rows, row.version = version

end Data

/-- What a statement of a transaction changes. -/
inductive Change
  /-- The content of a migration file is executed. -/
  | content (sql : String)
  | record (row : MigrationRow)
deriving DecidableEq

/-- What Postgres does to the rest of the database when a text is executed that does not end the
transaction; the error is its message. -/
abbrev Executes (D : Type) := String → D → Except String D

/-- What a change does to the data.  Recording fails while the table does not exist. -/
def Change.apply (executes : Executes D) : Change → Data D → Except String (Data D)
  | .content sql, d => (executes sql d.rest).map fun rest => { d with rest }
  | .record row, d =>
      match d.table with
      | some table => .ok { d with table := some (table.record row) }
      | none => .error "relation \"schema_migrations\" does not exist"

/-- Changes in their order, up to the first that fails. -/
def applyChanges (executes : Executes D) : List Change → Data D → Except String (Data D)
  | [], d => .ok d
  | c :: rest, d => (c.apply executes d).bind (applyChanges executes rest)

section Changes

variable {executes : Executes D} {d d' : Data D}

theorem apply_content {sql : String} (h : (Change.content sql).apply executes d = .ok d') :
    ∃ rest, executes sql d.rest = .ok rest ∧ d' = { d with rest } := by
  simp only [Change.apply] at h
  cases executed : executes sql d.rest with
  | error e => rw [executed] at h; cases h
  | ok rest => rw [executed] at h; cases h; exact ⟨rest, rfl, rfl⟩

theorem apply_record {row : MigrationRow} (h : (Change.record row).apply executes d = .ok d') :
    ∃ table, d.table = some table ∧ d' = { d with table := some (table.record row) } := by
  simp only [Change.apply] at h
  split at h
  · rename_i table known
    cases h
    exact ⟨table, known, rfl⟩
  · cases h

/-- One change after another. -/
theorem applyChanges_cons {c : Change} {rest : List Change}
    (h : applyChanges executes (c :: rest) d = .ok d') :
    ∃ d₁, c.apply executes d = .ok d₁ ∧ applyChanges executes rest d₁ = .ok d' := by
  unfold applyChanges at h
  cases first : c.apply executes d with
  | error e => rw [first] at h; cases h
  | ok d₁ => rw [first] at h; exact ⟨d₁, rfl, h⟩

/-- A migration, and its record. -/
theorem applyChanges_migration {sql : String} {row : MigrationRow}
    (h : applyChanges executes [.content sql, .record row] d = .ok d') :
    ∃ rest table, executes sql d.rest = .ok rest ∧ d.table = some table ∧
      d' = ⟨some (table.record row), rest⟩ := by
  obtain ⟨d₁, first, h⟩ := applyChanges_cons h
  obtain ⟨rest, executed, rfl⟩ := apply_content first
  obtain ⟨d₂, second, h⟩ := applyChanges_cons h
  obtain ⟨table, known, rfl⟩ := apply_record second
  cases h
  exact ⟨rest, table, executed, known, rfl⟩

theorem rows_of_table {table : MigrationTable} (h : d.table = some table) : d.rows = table.rows := by
  unfold Data.rows
  rw [h]
  rfl

/-- A version that is recorded for the first time. -/
theorem record_rows {row : MigrationRow} {table : MigrationTable}
    (fresh : row.version ∉ table.rows.map MigrationRow.version) :
    (table.record row).rows = table.rows ++ [row] := by
  unfold MigrationTable.record
  rw [dif_pos fresh]

end Changes

/-! ### Statements -/

/-- An open transaction. -/
structure Transaction where
  owner : Tid
  changes : List Change
  /-- Every statement but `COMMIT` and `ROLLBACK` is refused after an error. -/
  failed : Bool
deriving DecidableEq

section

variable (D : Type)

/-- Postgres as the runner uses it: the committed data, the open transactions, and a record of what
has been committed. -/
structure Database where
  data : Data D
  transactions : List Transaction
  /-- The changes of the transactions that have committed, latest first; no statement looks at
  it. -/
  committed : List (Tid × List Change)

end

/-- The SQL statements of `migrate.mjs`. -/
inductive Statement
  /-- `CREATE TABLE IF NOT EXISTS schema_migrations (…)` -/
  | createTable
  /-- `SELECT version, checksum FROM schema_migrations ORDER BY version` -/
  | selectVersions
  | begin
  | content (sql : String)
  /-- `INSERT INTO schema_migrations … ON CONFLICT (version) DO UPDATE …` -/
  | record (version description checksum : String)
  | commit
  | rollback
deriving DecidableEq

/-- What a statement returns. -/
abbrev Statement.Result : Statement → Type
  | selectVersions => List (String × String)
  | _ => Unit

namespace Database

/-- The open transaction of a run. -/
def transaction? (t : Tid) (s : Database D) : Option Transaction :=
  s.transactions.find? fun x => x.owner = t

/-- The transaction of a session is gone, with all it has done. -/
def abort (t : Tid) (s : Database D) : Database D :=
  { s with transactions := s.transactions.filter fun x => x.owner ≠ t }

/-- The transaction of a session is replaced. -/
def setTransaction (x : Transaction) (s : Database D) : Database D :=
  { s with transactions := x :: (s.abort x.owner).transactions }

/-- A statement of a transaction has failed. -/
def fail (t : Tid) (s : Database D) : Database D :=
  match s.transaction? t with
  | some x => s.setTransaction { x with failed := true }
  | none => s

/-- Another transaction has recorded this version and is still open; one that has failed is
waiting for its `ROLLBACK` only. -/
def isLocked (t : Tid) (version : String) (s : Database D) : Bool :=
  s.transactions.any fun x => decide (x.owner ≠ t) && !x.failed && x.changes.any fun
    | .record row => decide (row.version = version)
    | .content _ => false

/-- A statement of a transaction that changes something. -/
def change (executes : Executes D) (t : Tid) (c : Change) (s : Database D) :
    Except String Unit × Database D :=
  match s.transaction? t with
  | none => (.error "there is no transaction in progress", s)
  | some x =>
      if x.failed then
        (.error "current transaction is aborted, commands ignored until end of transaction block",
          s)
      else
        match applyChanges executes (x.changes ++ [c]) s.data with
        | .ok _ => (.ok (), s.setTransaction { x with changes := x.changes ++ [c] })
        | .error e => (.error e, s.setTransaction { x with failed := true })

/-- `COMMIT`: a failed transaction is rolled back. -/
def commit (executes : Executes D) (t : Tid) (s : Database D) : Except String Unit × Database D :=
  match s.transaction? t with
  | none => (.ok (), s)
  | some x =>
      if x.failed then (.ok (), s.abort t)
      else
        match applyChanges executes x.changes s.data with
        | .ok data =>
            (.ok (), { s.abort t with data, committed := (t, x.changes) :: s.committed })
        | .error e => (.error e, s.abort t)

/-- Execute a statement at a moment; `none` where it has to wait for another transaction. -/
def exec (executes : Executes D) (now : ℤ) (t : Tid) :
    (st : Statement) → Database D → Option (Except String st.Result × Database D)
  | .createTable, s =>
      some (.ok (), { s with data := { s.data with table := some (s.data.table.getD .empty) } })
  | .selectVersions, s =>
      match s.data.table with
      | some table => some (.ok (table.rows.map fun row => (row.version, row.checksum)), s)
      | none => some (.error "relation \"schema_migrations\" does not exist", s)
  | .begin, s => some (.ok (), s.setTransaction ⟨t, [], false⟩)
  | .content sql, s => some (s.change executes t (.content sql))
  | .record version description checksum, s =>
      if s.isLocked t version then none
      else some (s.change executes t (.record ⟨version, description, now, checksum⟩))
  | .commit, s => some (s.commit executes t)
  | .rollback, s => some (.ok (), s.abort t)

end Database

end Migrations

end OrderPlatform
