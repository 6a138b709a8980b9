import Mathlib.Data.List.Pairwise
import OrderPlatform.Async.Evaluation
import OrderPlatform.Migrations.Overlap

/-!
# The order of the versions

One run of the migration runner, and the next one, on the same files.  The files are applied in the
order of their names as texts, and a version is recorded with an upsert.  So the runner applies them
in the order of their versions exactly when no two accepted files have the same version and, of two
pending ones, the one whose name comes first has the smaller version (`applies_in_order_iff`);
otherwise `2_…` follows `10_…`, and of two files with one version the second overwrites the record
of the first.

* `Directory`, `migrationsIn`, `contextOf` — what a run is given.
* `started`, `recorded`, `printed` — what is seen of a run.
* `Seen` — what is seen depends on the rows that the `SELECT` has found.
-/

namespace OrderPlatform

namespace Migrations

open Async (Tid Path Evaluates Performed Contract)

variable {D : Type} {ctx : MigrationContext D} {t : Tid} {s s' : Database D}

/-! ### What a run is given -/

/-- A directory; no two of its files have the same name. -/
structure Directory where
  files : List (String × String)
  names : (files.map Prod.fst).Nodup

/-- The files whose names have the expected format. -/
def migrationsIn (sha256 : String → String) (directory : Option Directory) : List Migration :=
  (directory.elim [] Directory.files).filterMap fun file => toMigration sha256 file.1 file.2

/-- The files, and a database. -/
abbrev contextOf (sha256 : String → String) (directory : Option Directory) (executes : Executes D) :
    MigrationContext D :=
  ⟨directory.map Directory.files, sha256, executes⟩

/-- A name of the expected format ends as it should. -/
theorem dropEnding_of_parseName {file : String} {groups : String × String}
    (parsed : parseName file = some groups) :
    (dropEnding ".sql".toList file.toList).isSome = true := by
  unfold parseName at parsed
  split at parsed
  · rename_i digit digits rest taken dropped
    split at parsed
    · rename_i c cs kept
      have split : (c :: cs) ++ ".sql".toList = rest := by
        unfold dropEnding at kept
        dsimp only at kept
        split at kept
        · rename_i whole
          rw [← Option.some.inj kept]
          exact whole
        · cases kept
      have whole : (digit :: digits ++ '_' :: (c :: cs)) ++ ".sql".toList = file.toList := by
        rw [← List.takeWhile_append_dropWhile (p := Char.isDigit) (l := file.toList), taken, dropped,
          ← split, List.append_assoc]
        rfl
      unfold dropEnding
      rw [← whole, List.length_append, Nat.add_sub_cancel, List.take_left]
      exact congrArg Option.isSome (if_pos rfl)
    · cases parsed
  · cases parsed

section Reading

variable {sha256 : String → String} {directory : Option Directory} {executes : Executes D}

/-- The file of a name. -/
theorem lookup_file (directory : Directory) {name content : String}
    (mem : (name, content) ∈ directory.files) :
    directory.files.lookup name = some content := by
  have names := directory.names
  generalize directory.files = files at mem names
  induction files with
  | nil => cases mem
  | cons file rest ih =>
      rw [List.map_cons, List.nodup_cons] at names
      rw [List.lookup_cons]
      rcases List.mem_cons.mp mem with rfl | later
      · rw [beq_self_eq_true]
      · have other : (name == file.1) = false := by
          refine beq_eq_false_iff_ne.mpr fun same => names.1 ?_
          rw [← same]
          exact List.mem_map_of_mem later
        rw [other]
        exact ih later names.2

/-- The migrations that are read are those of the directory. -/
theorem mem_migrations {m : Migration} :
    m ∈ (contextOf sha256 directory executes).migrations ↔ m ∈ migrationsIn sha256 directory := by
  cases directory with
  | none => exact Iff.rfl
  | some directory =>
      unfold MigrationContext.migrations migrationsIn
      rw [List.mem_filterMap, List.mem_filterMap]
      constructor
      · rintro ⟨file, _, made⟩
        obtain ⟨content, found, parsed⟩ := Option.bind_eq_some_iff.mp made
        obtain ⟨before, after, split, _⟩ := List.lookup_eq_some_iff.mp found
        refine ⟨(file, content), ?_, parsed⟩
        rw [show (some directory).elim [] Directory.files = directory.files from rfl,
          show directory.files = _ from split]
        exact List.mem_append_right _ List.mem_cons_self
      · rintro ⟨⟨file, content⟩, mem, parsed⟩
        obtain ⟨groups, named, _⟩ := Option.map_eq_some_iff.mp parsed
        refine ⟨file, ?_, Option.bind_eq_some_iff.mpr ⟨content, lookup_file directory mem, parsed⟩⟩
        refine (List.mem_insertionSort _).mpr (List.mem_filter.mpr ⟨?_, ?_⟩)
        · exact List.mem_map_of_mem mem
        · exact dropEnding_of_parseName named

/-- They are the same, but for their order. -/
theorem migrations_perm :
    (contextOf sha256 directory executes).migrations.Perm (migrationsIn sha256 directory) := by
  cases directory with
  | none => exact .refl _
  | some directory =>
      refine (List.perm_ext_iff_of_nodup ?_ ?_).mpr fun m => mem_migrations
      · refine List.Nodup.filterMap ?_ ?_
        · intro file file' m made made'
          obtain ⟨_, _, parsed⟩ := Option.bind_eq_some_iff.mp made
          obtain ⟨_, _, parsed'⟩ := Option.bind_eq_some_iff.mp made'
          rw [← (version_of_toMigration parsed).1, ← (version_of_toMigration parsed').1]
        · exact ((List.perm_insertionSort _ _).nodup_iff).mpr (directory.names.filter _)
      · refine List.Nodup.filterMap ?_ (List.Nodup.of_map Prod.fst directory.names)
        intro file file' m made made'
        obtain ⟨name, content, _⟩ := version_of_toMigration made
        obtain ⟨name', content', _⟩ := version_of_toMigration made'
        exact Prod.ext (name.symm.trans name') (content.symm.trans content')

end Reading

/-! ### What is seen of a run -/

/-- A version as a number. -/
def versionNumber (version : String) : ℕ := Nat.ofDigitChars 10 version.toList 0

/-- Whether an operation opens a transaction. -/
def Operation.begins : Operation → Bool
  | .query .begin => true
  | _ => false

/-- The application of a file has been started. -/
def started (log : List (Performed (machine ctx))) : Bool := log.any fun p => p.op.begins

/-- The versions that were recorded, in order. -/
def recorded (log : List (Performed (machine ctx))) : List String :=
  log.filterMap fun p => p.op.version?

/-- The message about an applied file that has been edited. -/
def checksumMismatch (m : Migration) : String :=
  "Checksum mismatch for applied migration " ++ m.version ++ " (" ++ m.filename ++ "). " ++
    "Create a new forward migration instead of editing an applied file."

/-- The message when nothing is pending. -/
def upToDate (total : ℕ) : String :=
  "All " ++ toString total ++ " migration(s) already applied. Database is up to date."

/-- The message before the pending migrations are applied. -/
def foundPending (pending total : ℕ) : String :=
  "Found " ++ toString pending ++ " pending migration(s) out of " ++ toString total ++ " total."

/-- What `main` prints when it knows which versions have been applied. -/
def report (migrations : List Migration) (applied : List (String × String)) : List String :=
  if migrations.any (isModified applied) then
    (migrations.filter (isModified applied)).map checksumMismatch
  else if migrations.filter (isPending applied) = [] then [upToDate migrations.length]
  else [foundPending (migrations.filter (isPending applied)).length migrations.length]

/-- The versions of some rows with their checksums. -/
def entries (rows : List MigrationRow) : List (String × String) :=
  rows.map fun row => (row.version, row.checksum)

/-- What is printed behind an operation: the report, when the versions have been selected. -/
def printedBehind (p : Performed (machine ctx)) : List String :=
  match p.choice, p.op with
  | .succeeds _, .query .selectVersions =>
      p.state.data.table.elim [] fun table => report ctx.migrations (entries table.rows)
  | _, _ => []

/-- What a run has printed so far. -/
def printed (log : List (Performed (machine ctx))) : List String := log.flatMap printedBehind

/-- Nothing is seen of an operation. -/
def Silent (o : Operation) : Prop :=
  o.begins = false ∧ o.version? = none ∧ o ≠ .query .selectVersions

/-- Everything that is seen. -/
def view (log : List (Performed (machine ctx))) : Bool × List String × List String :=
  (started log, recorded log, printed log)

theorem view_eq_iff {log : List (Performed (machine ctx))} {begins : Bool}
    {records prints : List String} : view log = (begins, records, prints) ↔
      started log = begins ∧ recorded log = records ∧ printed log = prints := by
  unfold view
  rw [Prod.mk.injEq, Prod.mk.injEq]

section Views

variable {before after : List (Performed (machine ctx))}

theorem view_silent (silent : ∀ p ∈ before, Silent p.op) : view before = (false, [], []) := by
  have begins : started before = false := List.any_eq_false.mpr fun p mem =>
    ne_true_of_eq_false (silent p mem).1
  have records : recorded before = [] := List.filterMap_eq_nil_iff.mpr fun p mem => (silent p mem).2.1
  have prints : printed before = [] := by
    refine List.flatMap_eq_nil_iff.mpr fun p mem => ?_
    unfold printedBehind
    split
    · rename_i selects
      exact absurd selects (silent p mem).2.2
    · rfl
  unfold view
  rw [begins, records, prints]

theorem view_append (before after : List (Performed (machine ctx))) :
    view (before ++ after) = (started before || started after, recorded before ++ recorded after,
      printed before ++ printed after) := by
  unfold view started recorded printed
  rw [List.any_append, List.filterMap_append, List.flatMap_append]

theorem view_before (silent : ∀ p ∈ before, Silent p.op) : view (before ++ after) = view after := by
  obtain ⟨begins, records, prints⟩ := view_eq_iff.mp (view_silent silent)
  rw [view_append, begins, records, prints]
  rfl

theorem view_behind (silent : ∀ p ∈ after, Silent p.op) : view (before ++ after) = view before := by
  obtain ⟨begins, records, prints⟩ := view_eq_iff.mp (view_silent silent)
  rw [view_append, begins, records, prints, Bool.or_false, List.append_nil, List.append_nil]
  rfl

end Views

/-! ### What a run is seen to do -/

section Parts

variable {log : List (Performed (machine ctx))}

theorem silent_of_other {o : Operation} (other : ∀ st, o ≠ .query st) : Silent o := by
  cases o with
  | query st => exact absurd rfl (other st)
  | _ => exact ⟨rfl, rfl, nofun⟩

theorem silent_single (p : Performed (machine ctx)) (other : ∀ st, p.op ≠ .query st) :
    ∀ x ∈ [p], Silent x.op := List.forall_mem_singleton.mpr (silent_of_other other)

/-- A statement, and what is done behind it. -/
theorem path_query {α : Type} {st : Statement} {f : st.Result → Task α} {task : Task α}
    (path : Path (M := machine ctx) (fun s s' => s' = s) t ((query st).bind f) s log task s') :
    (log = [] ∧ task = (query st).bind f ∧ s' = s) ∨
      (∃ c e, log = [⟨c, .query st, s⟩] ∧ exec ctx t c (.query st) s = some (.error e, s') ∧
        task = .thrown e) ∨
      ∃ c v s₁ rest, log = ⟨c, .query st, s⟩ :: rest ∧
        exec ctx t c (.query st) s = some (.ok v, s₁) ∧
        Path (M := machine ctx) (fun s s' => s' = s) t (f v) s₁ rest task s' := by
  obtain ⟨rfl, rfl, same⟩ | ⟨c, r, s₁, s₂, rest, rfl, rfl, executed, later⟩ := path.await_inv
  · exact .inl ⟨rfl, rfl, same⟩
  · cases r with
    | ok v => exact .inr (.inr ⟨c, v, s₂, rest, rfl, executed, later⟩)
    | error e =>
        obtain ⟨rfl, rfl, rfl⟩ := later.thrown_inv
        exact .inr (.inl ⟨c, e, rfl, executed, rfl⟩)

theorem exit_silent {α : Type} : (exit : Task α).Only Silent := by
  refine ⟨silent_of_other nofun, fun r => ?_⟩
  cases r <;> trivial

theorem call_silent {o : Operation} (silent : Silent o) : (call o).Only Silent := by
  refine ⟨silent, fun r => ?_⟩
  cases r <;> trivial

/-- A statement that selects nothing. -/
theorem view_statement (c : Choice) (s : Database D) (st : Statement) (other : st ≠ .selectVersions)
    (rest : List (Performed (machine ctx))) :
    view (⟨c, .query st, s⟩ :: rest) = ((Operation.query st).begins || started rest,
      (Operation.query st).version?.toList ++ recorded rest, printed rest) := by
  have prints : @printedBehind D ctx ⟨c, .query st, s⟩ = [] := by
    unfold printedBehind
    split
    · rename_i selects
      exact absurd (Operation.query.inj selects) other
    · rfl
  rw [← List.singleton_append, view_append]
  refine Prod.ext (congrArg (· || started rest) (Bool.or_false _)) (Prod.ext ?_ ?_)
  · show List.filterMap _ [_] ++ recorded rest = _
    cases st <;> rfl
  · show List.flatMap _ [_] ++ printed rest = printed rest
    rw [List.flatMap_singleton, prints]
    rfl

/-- Nobody returns from `process.exit`. -/
theorem exit_never {α : Type} {task : Task α}
    (path : Path (M := machine ctx) (fun s s' => s' = s) t exit s log task s') (a : α) :
    task ≠ .done a := by
  obtain ⟨_, rfl, _⟩ | ⟨_, r, _, _, _, _, _, _, later⟩ := path.await_inv
  · nofun
  · cases r with
    | ok v =>
        obtain ⟨_, rfl, _⟩ := later.pending_inv
        nofun
    | error e =>
        obtain ⟨_, rfl, _⟩ := later.thrown_inv
        nofun

/-- The `catch` of a migration. -/
theorem rollback_never {task : Task Unit}
    (path : Path (M := machine ctx) (fun s s' => s' = s) t
      ((query .rollback).bind fun _ => exit) s log task s') (a : Unit) : task ≠ .done a := by
  obtain ⟨_, rfl, _⟩ | ⟨_, _, _, _, rfl⟩ | ⟨_, _, _, _, _, _, later⟩ := path_query path
  · nofun
  · nofun
  · exact exit_never later a

/-- The body of the `try` of a migration. -/
theorem view_body {m : Migration} {task : Task Unit}
    (path : Path (M := machine ctx) (fun s s' => s' = s) t
      ((query (.content m.content)).bind fun _ =>
        (query (.record m.version m.description m.checksum)).bind fun _ => query .commit)
      s log task s') :
    view log = (false, [m.version], []) ∨ view log = (false, [], []) ∧ ∀ a, task ≠ .done a := by
  obtain ⟨rfl, rfl, _⟩ | ⟨c, e, rfl, _, rfl⟩ | ⟨c, _, s₁, rest, rfl, _, path⟩ := path_query path
  · exact .inr ⟨rfl, nofun⟩
  · refine .inr ⟨?_, nofun⟩
    rw [view_statement c s (.content m.content) nofun]
    rfl
  · rw [view_statement c s (.content m.content) nofun]
    obtain ⟨rfl, rfl, _⟩ | ⟨c, e, rfl, _, rfl⟩ | ⟨c, _, s₂, rest, rfl, _, path⟩ := path_query path
    · exact .inr ⟨rfl, nofun⟩
    · refine .inl ?_
      show view [_] = _
      rw [view_statement c s₁ (.record m.version m.description m.checksum) nofun]
      rfl
    · refine .inl ?_
      have silent := path.only (call_silent (o := .query .commit) ⟨rfl, rfl, nofun⟩)
      obtain ⟨begins, records, prints⟩ := view_eq_iff.mp (view_silent silent)
      show view (_ :: rest) = _
      rw [view_statement c s₁ (.record m.version m.description m.checksum) nofun]
      rw [begins, records, prints]
      rfl

/-- **One migration.**  It is recorded at most once, and it is when it has been applied. -/
theorem view_applyMigration {m : Migration} {task : Task Unit}
    (path : Path (M := machine ctx) (fun s s' => s' = s) t (applyMigration m) s log task s') :
    (∃ begins, view log = (begins, [m.version], [])) ∨
      (∃ begins, view log = (begins, [], [])) ∧ ∀ a, task ≠ .done a := by
  obtain ⟨rfl, rfl, _⟩ | ⟨c, e, rfl, _, rfl⟩ | ⟨c, _, s₁, rest, rfl, _, path⟩ := path_query path
  · exact .inr ⟨⟨false, rfl⟩, nofun⟩
  · refine .inr ⟨⟨true, ?_⟩, nofun⟩
    rw [view_statement c s .begin nofun]
    rfl
  · have behind : ∃ begins, view (⟨c, .query .begin, s⟩ :: rest) =
        (begins, recorded rest, printed rest) := ⟨_, view_statement c s .begin nofun rest⟩
    obtain ⟨begins, seen⟩ := behind
    have known : (view rest = (false, [m.version], [])) ∨
        view rest = (false, [], []) ∧ ∀ a, task ≠ .done a := by
      obtain ⟨p', first, rfl, -⟩ | ⟨e, s₂, before, after, rfl, first, second⟩ :=
        Path.attempt_cases (M := machine ctx) (J := fun s s' => s' = s) (fun _ => rfl) path
      · refine (view_body first).imp_right fun ⟨silent, never⟩ => ⟨silent, fun a => ?_⟩
        cases p' with
        | done b => exact absurd rfl (never b)
        | _ => nofun
      · rw [view_behind (second.only ?_)]
        · exact (view_body first).imp_right fun ⟨silent, _⟩ => ⟨silent, rollback_never second⟩
        · exact (call_silent (o := .query .rollback) ⟨rfl, rfl, nofun⟩).bind fun _ => exit_silent
    rw [seen]
    rcases known with once | ⟨silent, never⟩
    · obtain ⟨_, records, prints⟩ := view_eq_iff.mp once
      exact .inl ⟨begins, by rw [records, prints]⟩
    · obtain ⟨_, records, prints⟩ := view_eq_iff.mp silent
      exact .inr ⟨⟨begins, by rw [records, prints]⟩, never⟩

/-- The loop over the pending migrations. -/
theorem view_applyMigrations {migrations : List Migration} {task : Task Unit}
    (path : Path (M := machine ctx) (fun s s' => s' = s) t (applyMigrations migrations) s log task s') :
    ∃ begins records, view log = (begins, records, []) ∧
      records <+: migrations.map Migration.version ∧ (begins = true → migrations ≠ []) := by
  induction migrations generalizing s log with
  | nil =>
      obtain ⟨rfl, _, _⟩ := path.done_inv
      exact ⟨false, [], rfl, List.prefix_rfl, nofun⟩
  | cons m rest ih =>
      obtain ⟨p', first, rfl, never⟩ | ⟨_, s₁, before, after, rfl, first, second⟩ :=
        Path.bind_cases (M := machine ctx) (J := fun s s' => s' = s) (fun _ => rfl) path
      · obtain ⟨begins, once⟩ | ⟨⟨begins, silent⟩, _⟩ := view_applyMigration first
        · exact ⟨begins, _, once, ⟨rest.map Migration.version, rfl⟩, fun _ => List.cons_ne_nil m rest⟩
        · exact ⟨begins, _, silent, List.nil_prefix, fun _ => List.cons_ne_nil m rest⟩
      · obtain ⟨begins, once⟩ | ⟨_, never⟩ := view_applyMigration first
        · obtain ⟨begins', records, seen, isPrefix, _⟩ := ih second
          obtain ⟨h₁, h₂, h₃⟩ := view_eq_iff.mp once
          obtain ⟨h₁', h₂', h₃'⟩ := view_eq_iff.mp seen
          refine ⟨begins || begins', m.version :: records, ?_, ?_, fun _ => List.cons_ne_nil m rest⟩
          · rw [view_append, h₁, h₂, h₃, h₁', h₂', h₃']
            rfl
          · exact (List.prefix_cons_inj m.version).mpr isPrefix
        · exact absurd rfl (never _)

/-- The versions that are selected are those of the table. -/
theorem select_ok {c : Choice} {applied : List (String × String)}
    (h : exec ctx t c (.query .selectVersions) s = some (.ok applied, s')) :
    applied = entries s.data.rows ∧ s' = s ∧
      @printedBehind D ctx ⟨c, .query .selectVersions, s⟩ =
        report ctx.migrations (entries s.data.rows) := by
  cases c with
  | succeeds now =>
      have selected : s.exec ctx.executes now t .selectVersions = some (.ok applied, s') := h
      simp only [Database.exec] at selected
      split at selected
      · rename_i table known
        cases selected
        refine ⟨by rw [rows_of_table known]; rfl, rfl, ?_⟩
        show s.data.table.elim [] _ = _
        rw [known, rows_of_table known]
        rfl
      · cases selected
  | fails e => cases h
  | loses now e =>
      obtain ⟨_, _, same⟩ := Option.map_eq_some_iff.mp h
      cases same

/-- When nothing is selected nothing is printed. -/
theorem select_error {c : Choice} {e : String}
    (h : exec ctx t c (.query .selectVersions) s = some (.error e, s')) :
    @printedBehind D ctx ⟨c, .query .selectVersions, s⟩ = [] := by
  cases c with
  | succeeds now =>
      have selected : s.exec ctx.executes now t .selectVersions = some (.error e, s') := h
      simp only [Database.exec] at selected
      split at selected
      · cases selected
      · rename_i unknown
        show s.data.table.elim [] _ = _
        rw [unknown]
        rfl
  | fails e => rfl
  | loses now e => rfl

/-- The table is created without a row. -/
theorem createTable_rows {c : Choice} {r : Except String Unit}
    (h : exec ctx t c (.query .createTable) s = some (r, s')) : s'.data.rows = s.data.rows := by
  obtain ⟨_, _, rfl⟩ | ⟨now, r', created, _⟩ := exec_query h
  · rfl
  · cases created
    unfold Data.rows
    cases s.data.table <;> rfl

theorem view_select (c : Choice) (s : Database D) :
    @view D ctx [⟨c, .query .selectVersions, s⟩] =
      (false, [], @printedBehind D ctx ⟨c, .query .selectVersions, s⟩) :=
  view_eq_iff.mpr ⟨rfl, rfl, List.flatMap_singleton _ _⟩

/-- Which versions have been applied, and what is printed then. -/
theorem view_getAppliedVersions {task : Task (List (String × String))}
    (path : Path (M := machine ctx) (fun s s' => s' = s) t getAppliedVersions s log task s') :
    (view log = (false, [], []) ∧ ∀ a, task ≠ .done a) ∨
      task = .done (entries s.data.rows) ∧
        view log = (false, [], report ctx.migrations (entries s.data.rows)) := by
  obtain ⟨rfl, rfl, _⟩ | ⟨c, e, rfl, _, rfl⟩ | ⟨c, _, s₁, rest, rfl, created, path⟩ :=
    path_query path
  · exact .inl ⟨rfl, nofun⟩
  · exact .inl ⟨view_statement c s .createTable nofun [], nofun⟩
  · rw [view_statement c s .createTable nofun rest]
    rw [← Async.Program.bind_done_right (query .selectVersions)] at path
    have rows := createTable_rows created
    obtain ⟨rfl, rfl, _⟩ | ⟨c', e, rfl, refused, rfl⟩ | ⟨c', v, s₂, rest, rfl, selected, path⟩ :=
      path_query path
    · exact .inl ⟨rfl, nofun⟩
    · have seen := @view_select D ctx c' s₁
      rw [select_error refused] at seen
      obtain ⟨begins, records, prints⟩ := view_eq_iff.mp seen
      rw [begins, records, prints]
      exact .inl ⟨rfl, nofun⟩
    · obtain ⟨rfl, rfl, _⟩ := path.done_inv
      obtain ⟨rfl, _, reported⟩ := select_ok selected
      have seen := @view_select D ctx c' s₁
      rw [reported] at seen
      obtain ⟨begins, records, prints⟩ := view_eq_iff.mp seen
      rw [begins, records, prints, rows]
      exact .inr ⟨rfl, rfl⟩

end Parts

/-! ### What is seen of a run -/

/-- What a run applies that has found these rows. -/
def toApply (migrations : List Migration) (rows : List MigrationRow) : List Migration :=
  if migrations.any (isModified (entries rows)) then []
  else migrations.filter (isPending (entries rows))

/-- What is seen of a run that has found these rows. -/
structure Seen (ctx : MigrationContext D) (rows : List MigrationRow)
    (log : List (Performed (machine ctx))) (ended : Prop) : Prop where
  started : started log = true → toApply ctx.migrations rows ≠ []
  recorded : recorded log <+: (toApply ctx.migrations rows).map Migration.version
  printed : printed log = [] ∨ printed log = report ctx.migrations (entries rows)
  returned : ended → ctx.migrations.any (isModified (entries rows)) = false ∧
    Migrations.printed log = report ctx.migrations (entries rows)

namespace Seen

variable {rows : List MigrationRow} {log log' : List (Performed (machine ctx))} {ended ended' : Prop}

theorem of_view (h : Seen ctx rows log ended) (same : view log' = view log)
    (ends : ended' → ended) : Seen ctx rows log' ended' := by
  obtain ⟨h₁, h₂, h₃⟩ := view_eq_iff.mp same
  refine ⟨h₁ ▸ h.started, h₂ ▸ h.recorded, h₃ ▸ h.printed, fun ended => ?_⟩
  rw [h₃]
  exact h.returned (ends ended)

theorem of_silent (silent : ∀ p ∈ log, Silent p.op) (never : ¬ ended) : Seen ctx rows log ended := by
  obtain ⟨h₁, h₂, h₃⟩ := view_eq_iff.mp (view_silent silent)
  refine ⟨fun begins => ?_, h₂ ▸ List.nil_prefix, .inl h₃, fun ended => absurd ended never⟩
  rw [h₁] at begins
  cases begins

end Seen

section Whole

variable {log : List (Performed (machine ctx))} {task : Task Unit}

/-- The body of the `try`. -/
theorem seen_migrate
    (path : Path (M := machine ctx) (fun s s' => s' = s) t (migrate ctx.migrations) s log task s') :
    Seen ctx s.data.rows log (∃ a, task = .done a) := by
  obtain ⟨p', first, rfl, never⟩ | ⟨applied, s₂, before, after, rfl, first, second⟩ :=
    Path.bind_cases (M := machine ctx) (J := fun s s' => s' = s) (fun _ => rfl) path
  · obtain ⟨silent, _⟩ | ⟨returned, _⟩ := view_getAppliedVersions first
    · obtain ⟨begins, records, prints⟩ := view_eq_iff.mp silent
      refine ⟨fun h => ?_, records ▸ List.nil_prefix, .inl prints, ?_⟩
      · rw [begins] at h
        cases h
      · rintro ⟨a, ended⟩
        cases p' with
        | done b => exact absurd rfl (never b)
        | _ => cases ended
    · exact absurd returned (never _)
  · obtain ⟨_, never⟩ | ⟨returned, seen⟩ := view_getAppliedVersions first
    · exact absurd rfl (never applied)
    · obtain rfl : applied = entries s.data.rows := Async.Program.done.inj returned
      obtain ⟨h₁, h₂, h₃⟩ := view_eq_iff.mp seen
      -- an edited file ends the run before anything is applied
      by_cases modified : ctx.migrations.any (isModified (entries s.data.rows)) = true
      · rw [if_pos modified] at second
        rw [← List.append_nil before] at seen
        have silent := second.only exit_silent
        obtain ⟨h₁, h₂, h₃⟩ := view_eq_iff.mp ((view_behind silent).trans (view_eq_iff.mpr ⟨h₁, h₂, h₃⟩))
        refine ⟨fun h => ?_, h₂ ▸ List.nil_prefix, .inr h₃, ?_⟩
        · rw [h₁] at h
          cases h
        · rintro ⟨a, ended⟩
          exact absurd ended (exit_never second a)
      · rw [if_neg modified] at second
        have unmodified := eq_false_of_ne_true modified
        obtain ⟨begins, records, seen', isPrefix, some⟩ := view_applyMigrations second
        obtain ⟨h₁', h₂', h₃'⟩ := view_eq_iff.mp seen'
        have whole := view_append before after
        rw [h₁, h₂, h₃, h₁', h₂', h₃', List.append_nil] at whole
        obtain ⟨w₁, w₂, w₃⟩ := view_eq_iff.mp whole
        have all : toApply ctx.migrations s.data.rows =
            ctx.migrations.filter (isPending (entries s.data.rows)) := if_neg modified
        refine ⟨fun h => ?_, ?_, .inr w₃, fun _ => ⟨unmodified, w₃⟩⟩
        · rw [all]
          rw [w₁] at h
          exact some h
        · rw [all, w₂]
          exact isPrefix

theorem readFiles_silent (files : List String) : (readFiles ctx files).Only Silent := by
  induction files with
  | nil => trivial
  | cons file rest ih =>
      unfold readFiles
      split
      · exact ih
      · refine (call_silent (o := .readFile file) (silent_of_other nofun)).bind fun content => ?_
        exact ih.bind fun migrations => trivial

theorem loadMigrationFiles_silent : (loadMigrationFiles ctx).Only Silent := by
  refine (call_silent (o := .readdir) (silent_of_other nofun)).bind fun files => ?_
  cases files with
  | none => trivial
  | some files => exact readFiles_silent _

/-- Behind the `connect`. -/
theorem seen_connected
    (path : Path (M := machine ctx) (fun s s' => s' = s) t
      ((migrate ctx.migrations).ensuring (call .disconnect)) s log task s') :
    Seen ctx s.data.rows log (∃ a, task = .done a) := by
  have disconnects : (call .disconnect).Only Silent :=
    call_silent (o := .disconnect) (silent_of_other nofun)
  obtain ⟨p', first, rfl, never, _⟩ | ⟨_, s₁, before, after, rfl, first, ends⟩ :=
    Path.ensuring_cases (M := machine ctx) (J := fun s s' => s' = s) (fun _ => rfl) path
  · refine (seen_migrate first).of_view rfl ?_
    rintro ⟨a, ended⟩
    cases p' with
    | done b => exact absurd rfl (never b)
    | thrown e => cases ended
    | _ => cases ended
  · rcases ends with ⟨a, rfl, second⟩ | ⟨e, rfl, second⟩
    · have silent := second.only (disconnects.bind fun _ => trivial)
      exact (seen_migrate first).of_view (view_behind silent) fun _ => ⟨a, rfl⟩
    · have silent := second.only (disconnects.bind fun _ => trivial)
      refine (seen_migrate first).of_view (view_behind silent) ?_
      rintro ⟨a, rfl⟩
      obtain ⟨p', _, ended, never⟩ | ⟨_, s₂, _, _, _, _, third⟩ :=
        Path.bind_cases (M := machine ctx) (J := fun s s' => s' = s) (fun _ => rfl) second
      · cases p' with
        | done b => exact absurd rfl (never b)
        | _ => cases ended
      · cases third.thrown_inv.2.1

/-- `main`. -/
theorem seen_main (idle : s.transactions = [])
    (path : Path (M := machine ctx) (fun s s' => s' = s) t (main ctx) s log task s') :
    Seen ctx s.data.rows log ((∃ a, task = .done a) ∧ ctx.migrations ≠ []) := by
  obtain ⟨p', first, rfl, never⟩ | ⟨migrations, s₁, before, after, rfl, first, second⟩ :=
    Path.bind_cases (M := machine ctx) (J := fun s s' => s' = s) (fun _ => rfl) path
  · refine .of_silent (first.only loadMigrationFiles_silent) ?_
    rintro ⟨⟨a, ended⟩, _⟩
    cases p' with
    | done b => exact absurd rfl (never b)
    | _ => cases ended
  · have here : Kept (fun d => d.rows = s.data.rows) t s := ⟨rfl, fun x mem => by rw [idle] at mem; cases mem⟩
    obtain ⟨_, loaded⟩ := first.undisturbed (holds_loadMigrationFiles keeping_serves here) here
    obtain ⟨kept, rfl⟩ := loaded migrations rfl
    have silent := first.only loadMigrationFiles_silent
    rw [← kept.data]
    by_cases empty : ctx.migrations = []
    · rw [if_pos empty] at second
      obtain ⟨rfl, rfl, _⟩ := second.done_inv
      rw [List.append_nil]
      exact .of_silent silent fun ended => ended.2 empty
    · rw [if_neg empty] at second
      obtain ⟨rfl, rfl, _⟩ | ⟨c, r, _, s₂, rest, rfl, rfl, connected, later⟩ := second.await_inv
      · rw [List.append_nil]
        exact .of_silent silent fun ended => by
          obtain ⟨⟨a, ended⟩, _⟩ := ended
          cases ended
      · have kept₂ := kept_of_other kept (fun _ other => by cases other) connected
        rw [kept.data, ← kept₂.data]
        cases r with
        | ok v =>
            refine (seen_connected later).of_view ((view_before silent).trans ?_) fun ended => ended.1
            exact view_before (List.forall_mem_singleton.mpr (silent_of_other (o := .connect) nofun))
        | error e =>
            obtain ⟨rfl, rfl, _⟩ := later.thrown_inv
            refine .of_silent ?_ fun ended => by
              obtain ⟨⟨a, ended⟩, _⟩ := ended
              cases ended
            refine List.forall_mem_append.mpr ⟨silent, ?_⟩
            exact List.forall_mem_singleton.mpr (silent_of_other (o := .connect) nofun)

/-- **A run.** -/
theorem seen_runner (idle : s.transactions = [])
    (path : Path (M := machine ctx) (fun s s' => s' = s) t (runner ctx) s log task s') :
    Seen ctx s.data.rows log (succeeded task = true ∧ ctx.migrations ≠ []) := by
  obtain ⟨p', first, rfl, never⟩ | ⟨e, s₁, before, after, rfl, first, second⟩ :=
    Path.attempt_cases (M := machine ctx) (J := fun s s' => s' = s) (fun _ => rfl) path
  · refine (seen_main idle first).of_view rfl ?_
    rintro ⟨ended, some⟩
    refine ⟨?_, some⟩
    cases p' with
    | done a => exact ⟨a, rfl⟩
    | thrown e => exact absurd rfl (never e)
    | _ => cases ended
  · refine (seen_main idle first).of_view (view_behind (second.only exit_silent)) ?_
    rintro ⟨ended, _⟩
    cases task with
    | done a => exact absurd rfl (exit_never second a)
    | _ => cases ended

end Whole

/-! ### A run in which everything succeeds -/

section Success

variable {s₁ : Database D}

theorem evaluates_done {α : Type} (v : α) :
    Evaluates (M := machine ctx) t (.done v) s [] (.ok v) s := .done (M := machine ctx) v s

/-- An operation that succeeds. -/
theorem evaluates_call {c : Choice} {o : Operation} {v : o.Result}
    (done : exec ctx t c o s = some (.ok v, s')) :
    Evaluates (M := machine ctx) t (call o) s [⟨c, o, s⟩] (.ok v) s' :=
  .await done (.done (M := machine ctx) v s')

theorem change_eq {executes : Executes D} {changes : List Change} {c : Change} {d : Data D}
    (known : s.transaction? t = some ⟨t, changes, false⟩)
    (applied : applyChanges executes (changes ++ [c]) s.data = .ok d) :
    s.change executes t c = (.ok (), s.setTransaction ⟨t, changes ++ [c], false⟩) := by
  unfold Database.change
  rw [known]
  dsimp only
  rw [if_neg Bool.false_ne_true, applied]

theorem record_eq {executes : Executes D} {d : Data D} {table : MigrationTable}
    (known : d.table = some table) (row : MigrationRow) :
    (Change.record row).apply executes d = .ok { d with table := some (table.record row) } := by
  unfold Change.apply
  dsimp only
  rw [known]

theorem isLocked_eq_false (own : ∀ x ∈ s.transactions, x.owner = t) (version : String) :
    s.isLocked t version = false := by
  refine List.any_eq_false.mpr fun x mem => ?_
  rw [own x mem, decide_eq_false (not_not_intro rfl)]
  exact Bool.false_ne_true

/-- There is a table, and no open transaction. -/
structure Ready (s : Database D) : Prop where
  idle : s.transactions = []
  table : ∃ table, s.data.table = some table

/-- A migration is applied. -/
theorem evaluates_applyMigration (accepts : ∀ sql d, ctx.executes sql d = .ok d) (m : Migration)
    (ready : Ready s) :
    ∃ log s', Evaluates (M := machine ctx) t (applyMigration m) s log (.ok ()) s' ∧ Ready s' ∧
      view log = (true, [m.version], []) := by
  obtain ⟨table, known⟩ := ready.table
  have kept : Kept (fun _ => True) t s := ⟨trivial, fun x mem => by rw [ready.idle] at mem; cases mem⟩
  have content : applyChanges ctx.executes [.content m.content] s.data = .ok s.data := by
    show ((ctx.executes m.content s.data.rest).map _).bind _ = _
    rw [accepts]
    rfl
  -- the two changes of the migration, as the `COMMIT` applies them
  have both : applyChanges ctx.executes
      [.content m.content, .record ⟨m.version, m.description, 0, m.checksum⟩] s.data =
      .ok { s.data with table := some (table.record ⟨m.version, m.description, 0, m.checksum⟩) } := by
    show ((ctx.executes m.content s.data.rest).map _).bind _ = _
    rw [accepts]
    show (Change.apply ctx.executes (.record _) s.data).bind _ = _
    rw [record_eq known]
    rfl
  have begun : exec ctx t (.succeeds 0) (.query .begin) s =
    some (.ok (), s.setTransaction ⟨t, [], false⟩) := rfl
  have kept₁ := kept.setTransaction ⟨t, [], false⟩ rfl
  have executed : exec ctx t (.succeeds 0) (.query (.content m.content))
      (s.setTransaction ⟨t, [], false⟩) =
      some (.ok (), (s.setTransaction ⟨t, [], false⟩).setTransaction
        ⟨t, [.content m.content], false⟩) :=
    congrArg some (change_eq (transaction_setTransaction [] s) content)
  have kept₂ := kept₁.setTransaction ⟨t, [.content m.content], false⟩ rfl
  set s₂ := (s.setTransaction ⟨t, [], false⟩).setTransaction ⟨t, [.content m.content], false⟩
  have recorded : exec ctx t (.succeeds 0)
      (.query (.record m.version m.description m.checksum)) s₂ =
      some (.ok (), s₂.setTransaction ⟨t, [.content m.content,
        .record ⟨m.version, m.description, 0, m.checksum⟩], false⟩) := by
    show (if s₂.isLocked t m.version = true then none else some (s₂.change ctx.executes t _)) = _
    rw [isLocked_eq_false kept₂.own, if_neg Bool.false_ne_true]
    exact congrArg some (change_eq (transaction_setTransaction [.content m.content] _) both)
  set s₃ := s₂.setTransaction ⟨t, [.content m.content,
    .record ⟨m.version, m.description, 0, m.checksum⟩], false⟩
  have kept₃ : Kept (fun _ => True) t s₃ := kept₂.setTransaction _ rfl
  have committed : exec ctx t (.succeeds 0) (.query .commit) s₃ = some (.ok (), _) :=
    congrArg some (commit_eq (transaction_setTransaction _ s₂) rfl both)
  have body := (evaluates_call executed).bind
    (f := fun _ => (query (.record m.version m.description m.checksum)).bind fun _ => query .commit)
    rfl ((evaluates_call recorded).bind (f := fun _ => query .commit) rfl (evaluates_call committed))
  refine ⟨_, _, (evaluates_call begun).bind rfl (body.attempt rfl), ⟨?_, _, rfl⟩, ?_⟩
  · refine List.filter_eq_nil_iff.mpr fun x mem => ?_
    rw [kept₃.own x mem]
    simp
  · rfl

/-- Migrations are applied, one after the other. -/
theorem evaluates_applyMigrations (accepts : ∀ sql d, ctx.executes sql d = .ok d)
    (migrations : List Migration) (ready : Ready s) :
    ∃ log s', Evaluates (M := machine ctx) t (applyMigrations migrations) s log (.ok ()) s' ∧
      started log = (migrations ≠ [] : Bool) ∧ recorded log = migrations.map Migration.version := by
  induction migrations generalizing s with
  | nil => exact ⟨[], s, evaluates_done (), rfl, rfl⟩
  | cons m rest ih =>
      obtain ⟨before, s₁, first, ready₁, seen⟩ := evaluates_applyMigration (t := t) accepts m ready
      obtain ⟨after, s₂, second, _, records⟩ := ih ready₁
      obtain ⟨h₁, h₂, _⟩ := view_eq_iff.mp seen
      obtain ⟨w₁, w₂, _⟩ := view_eq_iff.mp (view_append before after)
      refine ⟨_, s₂, first.bind rfl second, ?_, ?_⟩
      · rw [w₁, h₁]
        rfl
      · rw [w₂, h₂, records]
        rfl

/-- The files are read. -/
theorem evaluates_readFiles (files : List String)
    (known : ∀ file ∈ files, ∃ content, (ctx.directory.getD []).lookup file = some content) :
    ∃ log, Evaluates (M := machine ctx) t (readFiles ctx files) s log
      (.ok (files.filterMap ctx.migrationIn)) s := by
  induction files with
  | nil => exact ⟨[], evaluates_done []⟩
  | cons file rest ih =>
      obtain ⟨content, found⟩ := known file List.mem_cons_self
      obtain ⟨log, later⟩ := ih fun file mem => known file (List.mem_cons_of_mem _ mem)
      have made : ctx.migrationIn file = toMigration ctx.sha256 file content := by
        unfold MigrationContext.migrationIn
        rw [found]
        rfl
      unfold readFiles
      split
      · rename_i skipped
        have nothing : ctx.migrationIn file = none := by
          rw [made]
          unfold toMigration
          rw [skipped]
          rfl
        rw [List.filterMap_cons_none nothing]
        exact ⟨log, later⟩
      · have read : exec ctx t (.succeeds 0) (.readFile file) s = some (.ok content, s) := by
          show some ((ctx.directory.bind fun files => files.lookup file).elim _ _, s) = _
          cases directory : ctx.directory with
          | none => rw [directory] at found; cases found
          | some files =>
              rw [directory] at found
              show some ((files.lookup file).elim _ _, s) = _
              rw [show files.lookup file = some content from found]
              rfl
        have whole : (toMigration ctx.sha256 file content).toList ++ rest.filterMap ctx.migrationIn =
            (file :: rest).filterMap ctx.migrationIn := by
          rw [← made]
          cases known : ctx.migrationIn file with
          | none => rw [List.filterMap_cons_none known]; rfl
          | some m => rw [List.filterMap_cons_some known]; rfl
        rw [← whole]
        exact ⟨_, (evaluates_call read).bind rfl (later.bind rfl (evaluates_done _))⟩

theorem evaluates_loadMigrationFiles {sha256 : String → String} {directory : Option Directory}
    {executes : Executes D} :
    ∃ log, Evaluates (M := machine (contextOf sha256 directory executes)) t
      (loadMigrationFiles (contextOf sha256 directory executes)) s log
      (.ok (contextOf sha256 directory executes).migrations) s := by
  have listed : exec (contextOf sha256 directory executes) t (.succeeds 0) .readdir s =
      some (.ok ((directory.map Directory.files).map fun files => files.map Prod.fst), s) := rfl
  cases directory with
  | none => exact ⟨_, (evaluates_call listed).bind rfl (evaluates_done [])⟩
  | some directory =>
      have reads := @evaluates_readFiles D (contextOf sha256 (some directory) executes) t s
      obtain ⟨log, read⟩ := reads (sqlFiles (directory.files.map Prod.fst)) (fun file mem => by
          have listed : file ∈ directory.files.map Prod.fst :=
            List.mem_of_mem_filter ((List.mem_insertionSort _).mp mem)
          obtain ⟨⟨name, content⟩, known, rfl⟩ := List.mem_map.mp listed
          exact ⟨content, lookup_file directory known⟩)
      exact ⟨_, (evaluates_call listed).bind rfl read⟩

/-- **A run in which everything succeeds** records all that is pending. -/
theorem evaluates_runner {sha256 : String → String} {directory : Option Directory}
    {executes : Executes D} (accepts : ∀ sql d, executes sql d = .ok d) (idle : s.transactions = [])
    (unmodified : (contextOf sha256 directory executes).migrations.any
      (isModified (entries s.data.rows)) = false)
    (some : (contextOf sha256 directory executes).migrations.filter
      (isPending (entries s.data.rows)) ≠ []) :
    ∃ log s', Evaluates (M := machine (contextOf sha256 directory executes)) t
      (runner (contextOf sha256 directory executes)) s log (.ok ()) s' ∧ started log = true ∧
      recorded log = ((contextOf sha256 directory executes).migrations.filter
        (isPending (entries s.data.rows))).map Migration.version := by
  set ctx := contextOf sha256 directory executes
  have nonempty : ctx.migrations ≠ [] := fun empty => some (by rw [empty]; rfl)
  obtain ⟨before, loaded⟩ := evaluates_loadMigrationFiles (t := t) (s := s)
  have connected : exec ctx t (.succeeds 0) .connect s = .some (.ok (), s) := rfl
  let s₁ : Database D := { s with data := { s.data with table := s.data.table.getD .empty } }
  have created : exec ctx t (.succeeds 0) (.query .createTable) s = .some (.ok (), s₁) := rfl
  have rows := createTable_rows created
  have selected : exec ctx t (.succeeds 0) (.query .selectVersions) s₁ =
      .some (.ok (entries s.data.rows), s₁) := by
    rw [← rows]
    rfl
  have ready : Ready s₁ := ⟨idle, _, rfl⟩
  obtain ⟨applying, s₂, applied, begins, records⟩ :=
    @evaluates_applyMigrations D ctx t _ accepts
      (ctx.migrations.filter (isPending (entries s.data.rows))) ready
  have disconnected : exec ctx t (.succeeds 0) .disconnect s₂ = .some (.ok (), s₂.abort t) := rfl
  have asked := (evaluates_call created).bind (f := fun _ => query .selectVersions) rfl
    (evaluates_call selected)
  have migrates := asked.bind (f := fun applied =>
    if ctx.migrations.any (isModified applied) then exit
    else applyMigrations (ctx.migrations.filter (isPending applied))) rfl
    (applied.of_eq (if_neg (ne_true_of_eq_false unmodified)))
  have goes := (evaluates_call connected).bind (f := fun _ =>
    (migrate ctx.migrations).ensuring (call .disconnect)) rfl
    (migrates.ensuring rfl (evaluates_call disconnected))
  have whole := loaded.bind (f := fun migrations => if migrations = [] then .done ()
    else (call .connect).bind fun _ => (migrate migrations).ensuring (call .disconnect)) rfl
    (goes.of_eq (if_neg nonempty))
  have seen := (view_before (loaded.path.only loadMigrationFiles_silent)).trans
    ((view_before (silent_single ⟨.succeeds 0, .connect, s⟩ nofun)).trans
      ((view_behind (silent_single ⟨.succeeds 0, .disconnect, s₂⟩ nofun)).trans
        (view_append [⟨.succeeds 0, .query .createTable, s⟩,
          ⟨.succeeds 0, .query .selectVersions, s₁⟩] applying)))
  obtain ⟨h₁, h₂, _⟩ := view_eq_iff.mp seen
  refine ⟨_, _, whole.attempt rfl, h₁.trans ?_, h₂.trans ?_⟩
  · rw [begins, decide_eq_true some, Bool.or_true]
  · rw [records]
    rfl

end Success

/-! ### When the files are applied in order -/

/-- The file of an applied version is not what was applied. -/
def HasChanged (rows : List MigrationRow) (m : Migration) : Prop :=
  ∃ row ∈ rows, row.version = m.version ∧ row.checksum ≠ m.checksum

/-- No row has the version of the migration. -/
def Unrecorded (rows : List MigrationRow) (m : Migration) : Prop :=
  m.version ∉ rows.map MigrationRow.version

/-- No two files have the same version, and of two pending ones the one whose name comes first has
the smaller version. -/
structure NumberedInOrder (migrations : List Migration) (rows : List MigrationRow) : Prop where
  distinct : (migrations.map Migration.version).Nodup
  ordered : ∀ m ∈ migrations, ∀ m' ∈ migrations, Unrecorded rows m → Unrecorded rows m' → m ≠ m' →
    SortedBefore m.filename m'.filename → m.number < m'.number

/-- Nothing is applied, or the files are numbered in the order of their names. -/
def AppliesInOrder (migrations : List Migration) (rows : List MigrationRow) : Prop :=
  (∃ m ∈ migrations, HasChanged rows m) ∨ (∀ m ∈ migrations, ¬ Unrecorded rows m) ∨
    NumberedInOrder migrations rows

/-- What is promised of a run, and of the next one on the same files. -/
structure RunsInOrder (ctx : MigrationContext D) (t : Tid) (log : List (Performed (machine ctx)))
    (task : Task Unit) (s' : Database D) : Prop where
  distinct : started log = true → (ctx.migrations.map Migration.version).Nodup
  increasing : ((recorded log).map versionNumber).Pairwise (· < ·)
  again : succeeded task = true → ∀ u log' task' s'',
    Path (M := machine ctx) (fun s s' => s' = s) u (runner ctx) (s'.abort t) log' task' s'' →
      started log' = false ∧
        (printed log' = [] ∨ printed log' = [upToDate ctx.migrations.length]) ∧
        (succeeded task' = true → ctx.migrations ≠ [] →
          printed log' = [upToDate ctx.migrations.length])

/-- The order in which the files are listed is of no importance. -/
theorem AppliesInOrder.of_perm {migrations migrations' : List Migration} {rows : List MigrationRow}
    (h : AppliesInOrder migrations rows) (perm : migrations.Perm migrations') :
    AppliesInOrder migrations' rows := by
  rcases h with ⟨m, mem, changed⟩ | recorded | numbered
  · exact .inl ⟨m, perm.mem_iff.mp mem, changed⟩
  · exact .inr (.inl fun m mem => recorded m (perm.mem_iff.mpr mem))
  · refine .inr (.inr ⟨((perm.map Migration.version).nodup_iff).mp numbered.distinct, ?_⟩)
    exact fun m mem m' mem' => numbered.ordered m (perm.mem_iff.mpr mem) m' (perm.mem_iff.mpr mem')

theorem utf16_injective : Function.Injective utf16 := by
  intro text text' same
  exact Utf16.units_injective (List.map_injective_iff.mpr (fun _ _ => UInt16.toNat_inj.mp) same)

/-- Of two migrations that are read, each comes before the other only if they are the same. -/
theorem eq_of_sortedBefore {m m' : Migration} (mem : m ∈ ctx.migrations) (mem' : m' ∈ ctx.migrations)
    (before : SortedBefore m.filename m'.filename) (after : SortedBefore m'.filename m.filename) :
    m = m' := by
  obtain ⟨file, _, made⟩ := List.mem_filterMap.mp mem
  obtain ⟨file', _, made'⟩ := List.mem_filterMap.mp mem'
  obtain ⟨_, _, parsed⟩ := Option.bind_eq_some_iff.mp made
  obtain ⟨_, _, parsed'⟩ := Option.bind_eq_some_iff.mp made'
  have same : m.filename = m'.filename :=
    String.toList_inj.mp (utf16_injective (le_antisymm before after))
  rw [(version_of_toMigration parsed).1, (version_of_toMigration parsed').1] at same
  subst same
  exact Option.some.inj (made.symm.trans made')

theorem isModified_iff (d : Data D) (m : Migration) :
    isModified (entries d.rows) m = true ↔ HasChanged d.rows m := by
  unfold isModified
  constructor
  · intro modified
    obtain ⟨checksum, found, differs⟩ := (Option.any_eq_true _ _).mp modified
    obtain ⟨row, mem, version, rfl⟩ := row_of_lookup found
    exact ⟨row, mem, version, of_decide_eq_true differs⟩
  · rintro ⟨row, mem, version, differs⟩
    rw [← version, show (entries d.rows).lookup row.version = _ from lookup_of_mem d.versions mem]
    exact decide_eq_true differs

theorem isPending_iff (rows : List MigrationRow) (m : Migration) :
    isPending (entries rows) m = true ↔ Unrecorded rows m := isNone_lookup

section Order

variable {d : Data D}

theorem any_isModified : ctx.migrations.any (isModified (entries d.rows)) = true ↔
    ∃ m ∈ ctx.migrations, HasChanged d.rows m := by
  rw [List.any_eq_true]
  exact exists_congr fun m => and_congr_right fun _ => isModified_iff d m

theorem mem_pending {m : Migration} : m ∈ ctx.migrations.filter (isPending (entries d.rows)) ↔
    m ∈ ctx.migrations ∧ Unrecorded d.rows m := by
  rw [List.mem_filter, isPending_iff]

/-- **What is applied is applied in the order of the versions**, if the files are numbered so. -/
theorem toApply_increasing (h : AppliesInOrder ctx.migrations d.rows) :
    ((toApply ctx.migrations d.rows).map Migration.number).Pairwise (· < ·) := by
  unfold toApply
  split
  · exact List.Pairwise.nil
  · rename_i unmodified
    rcases h with changed | recorded | numbered
    · exact absurd (any_isModified.mpr changed) unmodified
    · have none : ctx.migrations.filter (isPending (entries d.rows)) = [] :=
        List.eq_nil_iff_forall_not_mem.mpr fun m mem =>
          recorded m (mem_pending.mp mem).1 (mem_pending.mp mem).2
      rw [none]
      exact List.Pairwise.nil
    · refine List.pairwise_map.mpr ?_
      have sorted := ctx.sorted.and (List.pairwise_map.mp numbered.distinct)
      refine (sorted.filter _).imp_of_mem fun {m m'} mem mem' both => ?_
      obtain ⟨known, pends⟩ := mem_pending.mp mem
      obtain ⟨known', pends'⟩ := mem_pending.mp mem'
      refine numbered.ordered m known m' known' pends pends' ?_ both.1
      exact fun same => both.2 (congrArg Migration.version same)

/-- **And only then.** -/
theorem ordered_of_increasing
    (increasing : ((ctx.migrations.filter (isPending (entries d.rows))).map
      Migration.number).Pairwise (· < ·)) {m m' : Migration}
    (mem : m ∈ ctx.migrations) (mem' : m' ∈ ctx.migrations) (pends : Unrecorded d.rows m)
    (pends' : Unrecorded d.rows m') (other : m ≠ m')
    (before : SortedBefore m.filename m'.filename) : m.number < m'.number := by
  have both := (ctx.sorted.filter (isPending (entries d.rows))).and (List.pairwise_map.mp increasing)
  let Ranked (a b : Migration) : Prop := SortedBefore a.filename b.filename ∧ a.number < b.number
  have symmetric : Std.Symm fun a b => Ranked a b ∨ Ranked b a := ⟨fun _ _ => Or.symm⟩
  have either := List.Pairwise.forall (R := fun a b => Ranked a b ∨ Ranked b a) (both.imp Or.inl)
  rcases either (mem_pending.mpr ⟨mem, pends⟩) (mem_pending.mpr ⟨mem', pends'⟩) other with
    first | second
  · exact first.2
  · exact absurd (eq_of_sortedBefore mem mem' before second.1) other

end Order

/-- Nothing is left to do. -/
theorem again_of_stage {d₀ : Data D} (distinct : ((pending ctx d₀).map Migration.version).Nodup)
    (checked : ∀ m ∈ ctx.migrations, ∀ row ∈ d₀.rows, row.version = m.version →
      row.checksum = m.checksum) (stage : Stage ctx d₀ (pending ctx d₀).length s.data) :
    toApply ctx.migrations s.data.rows = [] ∧
      report ctx.migrations (entries s.data.rows) = [upToDate ctx.migrations.length] := by
  have unmodified : ctx.migrations.any (isModified (entries s.data.rows)) = false :=
    stage.not_isModified distinct checked
  have none : ctx.migrations.filter (isPending (entries s.data.rows)) = [] :=
    (stage.isPending_iff distinct).trans List.drop_length
  unfold toApply report
  rw [unmodified, none]
  exact ⟨rfl, rfl⟩

/-- What a run leaves to the next one. -/
theorem stage_of_succeeded {log : List (Performed (machine ctx))} {task : Task Unit}
    (idle : s.transactions = [])
    (distinct : ((pending ctx s.data).map Migration.version).Nodup)
    (checked : ∀ m ∈ ctx.migrations, ∀ row ∈ s.data.rows, row.version = m.version →
      row.checksum = m.checksum)
    (path : Path (M := machine ctx) (fun s s' => s' = s) t (runner ctx) s log task s')
    (success : succeeded task = true) :
    (s'.abort t).transactions = [] ∧ Stage ctx s.data (pending ctx s.data).length s'.data := by
  have here : Kept (AtStage ctx s.data) t s :=
    ⟨⟨0, .start ctx s.data⟩, fun x mem => by rw [idle] at mem; cases mem⟩
  have goes := holds_runner here
    (fun _ stage => ⟨_, stage⟩) stage_of_empty
    (fun s₁ kept => holds_migrate distinct checked kept)
  obtain ⟨kept, ends⟩ := path.undisturbed goes here
  constructor
  · refine List.filter_eq_nil_iff.mpr fun x mem => ?_
    rw [kept.own x mem]
    simp
  · cases task with
    | done a => exact (ends a rfl).data
    | _ => cases success

/-- The pending versions are distinct. -/
theorem distinct_of_appliesInOrder {d : Data D} (h : AppliesInOrder ctx.migrations d.rows)
    (unmodified : ¬ ctx.migrations.any (isModified (entries d.rows)) = true) :
    ((pending ctx d).map Migration.version).Nodup := by
  rcases h with changed | recorded | numbered
  · exact absurd (any_isModified.mpr changed) unmodified
  · have none : pending ctx d = [] := List.filter_eq_nil_iff.mpr fun m mem pends =>
      recorded m mem (of_decide_eq_true (p := m.version ∉ d.rows.map MigrationRow.version) pends)
    rw [none]
    exact List.nodup_nil
  · exact numbered.distinct.sublist (List.filter_sublist.map Migration.version)

/-- A run on files that are numbered in order. -/
theorem runs_in_order {log : List (Performed (machine ctx))} {task : Task Unit}
    (h : AppliesInOrder ctx.migrations s.data.rows) (idle : s.transactions = [])
    (path : Path (M := machine ctx) (fun s s' => s' = s) t (runner ctx) s log task s') :
    RunsInOrder ctx t log task s' := by
  have seen := seen_runner idle path
  refine ⟨fun starts => ?_, ?_, fun success u log' task' s'' next => ?_⟩
  · have some := seen.started starts
    unfold toApply at some
    split at some
    · exact absurd rfl some
    · rename_i unmodified
      rcases h with changed | recorded | numbered
      · exact absurd (any_isModified.mpr changed) unmodified
      · refine absurd (List.eq_nil_iff_forall_not_mem.mpr fun m mem => ?_) some
        exact recorded m (mem_pending.mp mem).1 (mem_pending.mp mem).2
      · exact numbered.distinct
  · have increasing := toApply_increasing h
    have isPrefix := (seen.recorded.map versionNumber).sublist
    rw [List.map_map] at isPrefix
    exact increasing.sublist isPrefix
  · have unmodified : ¬ ctx.migrations.any (isModified (entries s.data.rows)) = true := by
      by_cases empty : ctx.migrations = []
      · rw [empty]
        exact Bool.false_ne_true
      · exact ne_true_of_eq_false (seen.returned ⟨success, empty⟩).1
    have checked : ∀ m ∈ ctx.migrations, ∀ row ∈ s.data.rows, row.version = m.version →
        row.checksum = m.checksum := fun m mem row known version => by
      by_contra differs
      exact unmodified (any_isModified.mpr ⟨m, mem, row, known, version, differs⟩)
    obtain ⟨idle', stage⟩ := stage_of_succeeded idle (distinct_of_appliesInOrder h unmodified)
      checked path success
    obtain ⟨none, reported⟩ := again_of_stage (s := s'.abort t)
      (distinct_of_appliesInOrder h unmodified) checked stage
    have seen' := seen_runner idle' next
    refine ⟨eq_false_of_ne_true fun starts => seen'.started starts none, ?_, ?_⟩
    · rw [← reported]
      exact seen'.printed
    · intro success' nonempty
      rw [← reported]
      exact (seen'.returned ⟨success', nonempty⟩).2

theorem unpadded_names : ([("2_users.sql", "CREATE TABLE users"),
    ("10_orders.sql", "CREATE TABLE orders")].map Prod.fst).Nodup := by decide

theorem repeated_names : ([("003_users.sql", "CREATE TABLE users"),
    ("003_orders.sql", "CREATE TABLE orders")].map Prod.fst).Nodup := by decide

/-- Versions that do not have the same number of digits. -/
def unpadded : Directory := ⟨_, unpadded_names⟩

/-- Two files with one version. -/
def repeated : Directory := ⟨_, repeated_names⟩

/-- A database that is the list of the texts that were executed on it. -/
def executingContext (directory : Directory) : MigrationContext (List String) :=
  contextOf (fun content => content) (some directory) fun sql executed => .ok (executed ++ [sql])

theorem done_of_succeeded {task : Task Unit} (success : succeeded task = true) : task = .done () := by
  cases task with
  | done a => rfl
  | _ => cases success

end Migrations

end OrderPlatform
