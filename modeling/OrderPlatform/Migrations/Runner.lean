import OrderPlatform.Migrations.Database
import OrderPlatform.Migrations.Files

/-!
# The migration runner

`scripts/migrate.mjs`.  A process reads the migration files, asks which versions have been applied,
and applies the others in the order of their names, each in a transaction of its own.  A process
that has met an error ends with exit code 1; one that returns has succeeded.

Any number of processes may run on the same database.  When a process ends, or dies, its session is
closed, and with it goes its open transaction.

* `MigrationContext`, `Operation`, `machine` — the files, and what is awaited.
* `loadMigrationFiles`, `getAppliedVersions`, `applyMigration`, `main`, `runner` — the program.
-/

namespace OrderPlatform

namespace Migrations

open Async (Tid Machine Program)

variable {D : Type}

/-- The files, and what is taken from `node:crypto` and from Postgres. -/
structure MigrationContext (D : Type) where
  /-- The names and the contents of the files in the directory, if there is one. -/
  directory : Option (List (String × String))
  /-- `createHash("sha256").update(content).digest("hex")`. -/
  sha256 : String → String
  executes : Executes D

/-! ### Operations -/

/-- What `migrate.mjs` asks of the file system, of the database and of its process. -/
inductive Operation
  /-- `readdir(MIGRATIONS_DIR)`; there may be no such directory. -/
  | readdir
  | readFile (name : String)
  | connect
  | query (st : Statement)
  /-- `client.end()`. -/
  | disconnect
  /-- `process.exit(1)`. -/
  | exit

/-- What an operation yields when it succeeds. -/
abbrev Operation.Result : Operation → Type
  | readdir => Option (List String)
  | readFile _ => String
  | connect => Unit
  | query st => st.Result
  | disconnect => Unit
  | exit => Unit

/-- The reply to an operation: any of them may fail with a message. -/
abbrev Operation.Reply (o : Operation) : Type := Except String o.Result

/-- What the environment decides about an operation. -/
inductive Choice
  /-- The operation succeeds; a statement is executed at a moment. -/
  | succeeds (now : ℤ)
  /-- It fails, and nothing has happened. -/
  | fails (message : String)
  /-- A statement is executed, and its caller gets an error. -/
  | loses (now : ℤ) (message : String)
deriving DecidableEq

/-- The statements that belong to a transaction. -/
def Statement.inTransaction : Statement → Bool
  | .content _ => true
  | .record .. => true
  | .commit => true
  | _ => false

/-- One operation of a run.  A statement that fails aborts the open transaction, and a process that
exits takes its transaction with it. -/
def exec (ctx : MigrationContext D) (t : Tid) :
    Choice → (o : Operation) → Database D → Option (o.Reply × Database D)
  | .succeeds _, .readdir, s => some (.ok (ctx.directory.map fun files => files.map Prod.fst), s)
  | .succeeds _, .readFile name, s =>
      some ((ctx.directory.bind fun files => files.lookup name).elim (.error "ENOENT") .ok, s)
  | .succeeds _, .connect, s => some (.ok (), s)
  | .succeeds now, .query st, s => s.exec ctx.executes now t st
  | .loses now e, .query st, s =>
      (s.exec ctx.executes now t st).map fun x => (.error e, x.2)
  | .fails e, .query st, s =>
      some (.error e, if st.inTransaction then s.fail t else s)
  | .succeeds _, .disconnect, s => some (.ok (), s.abort t)
  | .succeeds _, .exit, s => some (.ok (), s.abort t)
  | .fails e, .readdir, s => some (.error e, s)
  | .fails e, .readFile _, s => some (.error e, s)
  | .fails e, .connect, s => some (.error e, s)
  | .fails e, .disconnect, s => some (.error e, s)
  | _, _, _ => none

/-- The database with its sessions, as a machine. -/
@[reducible] def machine (ctx : MigrationContext D) : Machine where
  Op := Operation
  Reply := Operation.Reply
  Error := String
  State := Database D
  Choice := Choice
  Event := Empty
  exec := exec ctx
  event e := e.elim
  crash t s := s.abort t

/-! ### The program -/

/-- A part of a run. -/
abbrev Task (α : Type) := Program Operation Operation.Reply String α

/-- Await an operation. -/
def call (o : Operation) : Task o.Result :=
  .await o fun
    | .ok v => .done v
    | .error e => .thrown e

/-- `client.query(…)`. -/
def query (st : Statement) : Task st.Result := call (.query st)

/-- `process.exit(1)`: nothing is executed behind it. -/
def exit {α : Type} : Task α := (call .exit).bind fun _ => .pending

/-- The contents of the files with a name of the expected format. -/
def readFiles (ctx : MigrationContext D) : List String → Task (List Migration)
  | [] => .done []
  | file :: rest =>
      match parseName file with
      | none => readFiles ctx rest
      | some _ =>
          (call (.readFile file)).bind fun (content : String) =>
            (readFiles ctx rest).bind fun migrations =>
              .done ((toMigration ctx.sha256 file content).toList ++ migrations)

/-- `loadMigrationFiles`: the matching files in the order of their names. -/
def loadMigrationFiles (ctx : MigrationContext D) : Task (List Migration) :=
  (call .readdir).bind fun (files : Option (List String)) =>
    match files with
    | none => .done []
    | some files => readFiles ctx (sqlFiles files)

/-- `new Map(result.rows.map((r) => [r.version, r.checksum]))`, as the list of its entries. -/
def getAppliedVersions : Task (List (String × String)) :=
  (query .createTable).bind fun _ => query .selectVersions

/-- The file of an applied migration has been modified. -/
def isModified (applied : List (String × String)) (m : Migration) : Bool :=
  (applied.lookup m.version).any fun recorded => decide (recorded ≠ m.checksum)

/-- The migration has not been applied. -/
def isPending (applied : List (String × String)) (m : Migration) : Bool :=
  (applied.lookup m.version).isNone

/-- One turn of the loop over the pending migrations. -/
def applyMigration (m : Migration) : Task Unit :=
  (query .begin).bind fun _ =>
    ((query (.content m.content)).bind fun _ =>
      (query (.record m.version m.description m.checksum)).bind fun _ =>
        query .commit).attempt fun _ =>
      (query .rollback).bind fun _ => exit

/-- The pending migrations one after the other; the first that fails ends the run. -/
def applyMigrations : List Migration → Task Unit
  | [] => .done ()
  | m :: rest => (applyMigration m).bind fun _ => applyMigrations rest

/-- The body of the `try` in `main`. -/
def migrate (migrations : List Migration) : Task Unit :=
  getAppliedVersions.bind fun applied =>
    if migrations.any (isModified applied) then exit
    else applyMigrations (migrations.filter (isPending applied))

/-- `main`: without files there is no connection, and with files it is closed in every case. -/
def main (ctx : MigrationContext D) : Task Unit :=
  (loadMigrationFiles ctx).bind fun migrations =>
    if migrations = [] then .done ()
    else (call .connect).bind fun _ => (migrate migrations).ensuring (call .disconnect)

/-- The process: `main().catch(…)`. -/
def runner (ctx : MigrationContext D) : Task Unit := (main ctx).attempt fun _ => exit

end Migrations

end OrderPlatform
