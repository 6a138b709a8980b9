import OrderPlatform.Async.Contract
import OrderPlatform.Migrations.Runner

/-!
# What the runner does

How a statement goes, and what the runner has read when it has loaded its files.  Both are needed
for runners that follow each other and for runners that overlap; what a contract has to tolerate for
that is `Serves`.
-/

namespace OrderPlatform

namespace Migrations

open Async (Tid Contract)

variable {D : Type} {ctx : MigrationContext D} {t : Tid} {s s' : Database D}

/-! ### Statements -/

/-- How a statement goes. -/
theorem exec_query {choice : Choice} {st : Statement} {r : Except String st.Result}
    (h : exec ctx t choice (.query st) s = some (r, s')) :
    (∃ e, r = .error e ∧ s' = if st.inTransaction then s.fail t else s) ∨
      ∃ now r', s.exec ctx.executes now t st = some (r', s') ∧ (r = r' ∨ ∃ e, r = .error e) := by
  cases choice with
  | succeeds now => exact .inr ⟨now, r, h, .inl rfl⟩
  | fails e => cases h; exact .inl ⟨e, rfl, rfl⟩
  | loses now e =>
      obtain ⟨⟨r', s₁⟩, done, same⟩ := Option.map_eq_some_iff.mp h
      cases same
      exact .inr ⟨now, r', done, .inr ⟨e, rfl⟩⟩

section Transactions

variable {executes : Executes D}

theorem owner_of_transaction {x : Transaction} (h : s.transaction? t = some x) : x.owner = t := by
  simpa using List.find?_some h

theorem transaction_setTransaction (changes : List Change) (s : Database D) :
    (s.setTransaction ⟨t, changes, false⟩).transaction? t = some ⟨t, changes, false⟩ := by
  unfold Database.transaction? Database.setTransaction
  exact List.find?_cons_of_pos (decide_eq_true rfl)

/-- A change that was accepted. -/
theorem change_ok {c : Change} (h : s.change executes t c = (.ok (), s')) :
    ∃ x d, s.transaction? t = some x ∧ x.failed = false ∧
      applyChanges executes (x.changes ++ [c]) s.data = .ok d ∧
      s' = s.setTransaction { x with changes := x.changes ++ [c] } := by
  unfold Database.change at h
  split at h
  · cases h
  · rename_i x known
    split at h
    · cases h
    · rename_i open'
      split at h
      · rename_i d applied
        exact ⟨x, d, known, Bool.eq_false_iff.mpr open', applied, (congrArg Prod.snd h).symm⟩
      · cases h

/-- What is committed of a transaction whose changes are accepted. -/
theorem commit_eq {x : Transaction} {d : Data D} (known : s.transaction? t = some x)
    (going : x.failed = false) (applied : applyChanges executes x.changes s.data = .ok d) :
    s.commit executes t =
      (.ok (), { s.abort t with data := d, committed := (t, x.changes) :: s.committed }) := by
  unfold Database.commit
  rw [known]
  dsimp only
  rw [going, if_neg Bool.false_ne_true, applied]

end Transactions

/-! ### The files -/

/-- The migrations of the directory, in the order in which they are read. -/
def MigrationContext.migrations (ctx : MigrationContext D) : List Migration :=
  (sqlFiles ((ctx.directory.getD []).map Prod.fst)).filterMap fun file =>
    ((ctx.directory.getD []).lookup file).bind (toMigration ctx.sha256 file)

/-- The migration in a file. -/
abbrev MigrationContext.migrationIn (ctx : MigrationContext D) (file : String) : Option Migration :=
  ((ctx.directory.getD []).lookup file).bind (toMigration ctx.sha256 file)

/-- A contract under which everything that is no statement leaves a fact alone. -/
structure Serves (C : Contract (machine ctx)) (K : Database D → Prop) : Prop where
  here : ∀ {s}, K s → C.rely s s
  stable : ∀ {s s'}, C.rely s s' → K s → K s'
  before : ∀ {o s}, (∀ st, o ≠ .query st) → C.before o s
  step : ∀ {o c r s s'}, (∀ st, o ≠ .query st) → exec ctx C.tid c o s = some (r, s') → K s →
    C.guar s s' ∧ K s'

section Loading

variable {C : Contract (machine ctx)} {K : Database D → Prop} {α : Type}
variable {Q : α → Database D → Prop} {E : String → Database D → Prop}

/-- An operation that is no statement. -/
theorem holds_call {o : Operation} {f : o.Result → Task α} (serves : Serves C K) (here : K s)
    (other : ∀ st, o ≠ .query st)
    (next : ∀ choice v s₁ s', exec ctx C.tid choice o s₁ = some (.ok v, s') → K s' →
      C.Holds Q E (f v) s')
    (failed : ∀ e s', K s' → E e s') : C.Holds Q E ((call o).bind f) s := by
  intro s₁ step
  refine ⟨serves.before other, fun choice r s' _ done => ?_⟩
  obtain ⟨guar, kept⟩ := serves.step other done (serves.stable step here)
  refine ⟨guar, ?_⟩
  cases r with
  | ok v => exact next choice v s₁ s' done kept
  | error e => exact fun s'' later => failed e s'' (serves.stable later kept)

theorem holds_exit (serves : Serves C K) (here : K s) (failed : ∀ e s', K s' → E e s') :
    C.Holds Q E (exit : Task α) s :=
  holds_call serves here (fun _ other => by cases other) (fun _ _ _ _ _ _ => trivial) failed

/-- The content that is read is that of the file. -/
theorem content_of_read {choice : Choice} {file content : String}
    (h : exec ctx t choice (.readFile file) s = some (.ok content, s')) :
    (ctx.directory.getD []).lookup file = some content := by
  cases choice with
  | succeeds now =>
      have reply : (ctx.directory.bind fun files => files.lookup file).elim
          (.error "ENOENT" : Except String String) .ok = .ok content :=
        congrArg Prod.fst (Option.some.inj h)
      cases found : ctx.directory.bind fun files => files.lookup file with
      | none => rw [found] at reply; cases reply
      | some c =>
          rw [found] at reply
          obtain rfl := Except.ok.inj reply
          obtain ⟨files, directory, known⟩ := Option.bind_eq_some_iff.mp found
          rw [directory]
          exact known
  | fails e => cases h
  | loses now e => cases h

/-- The files that are read. -/
private theorem holds_readFiles (serves : Serves C K) (files : List String) (here : K s) :
    C.Holds (fun migrations s' => K s' ∧ migrations = files.filterMap ctx.migrationIn)
      (fun _ => K) (readFiles ctx files) s := by
  induction files generalizing s with
  | nil =>
      exact fun s₁ step => ⟨serves.stable step here, rfl⟩
  | cons file rest ih =>
      unfold readFiles
      split
      · rename_i skipped
        have nothing : ctx.migrationIn file = none := by
          refine Option.bind_eq_none_iff.mpr fun content _ => ?_
          unfold toMigration
          rw [skipped]
          rfl
        rw [List.filterMap_cons_none nothing]
        exact ih here
      · refine holds_call serves here (fun _ other => by cases other) ?_ fun _ _ kept => kept
        intro choice content s₀ s₁ read kept₁
        have made : ctx.migrationIn file = toMigration ctx.sha256 file content := by
          unfold MigrationContext.migrationIn
          rw [content_of_read read]
          rfl
        refine (ih kept₁).chain (serves.here kept₁) fun migrations s₂ loaded _ => ?_
        intro s₃ later
        refine ⟨serves.stable later loaded.1, ?_⟩
        rw [loaded.2, ← made]
        cases known : ctx.migrationIn file with
        | none => rw [List.filterMap_cons_none known]; rfl
        | some m => rw [List.filterMap_cons_some known]; rfl

/-- **The migrations that are loaded** are those of the directory. -/
theorem holds_loadMigrationFiles (serves : Serves C K) (here : K s) :
    C.Holds (fun migrations s' => K s' ∧ migrations = ctx.migrations)
      (fun _ => K) (loadMigrationFiles ctx) s := by
  refine holds_call serves here (fun _ other => by cases other) ?_ fun _ _ kept => kept
  intro choice files s₀ s₁ listed kept₁
  have known : files = ctx.directory.map fun files => files.map Prod.fst := by
    cases choice <;> cases listed
    rfl
  rw [known]
  have all : ctx.migrations =
      (sqlFiles ((ctx.directory.getD []).map Prod.fst)).filterMap ctx.migrationIn := rfl
  cases directory : ctx.directory with
  | none =>
      rw [directory] at all
      exact fun s₂ later => ⟨serves.stable later kept₁, all.symm⟩
  | some files =>
      rw [directory] at all
      rw [all]
      exact holds_readFiles serves _ kept₁

end Loading

end Migrations

end OrderPlatform
