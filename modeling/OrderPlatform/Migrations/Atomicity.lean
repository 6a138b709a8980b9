import OrderPlatform.Async.Path
import OrderPlatform.Migrations.Steps

/-!
# One runner after another

Runs of the migration runner that follow each other, each of which may fail at any statement, or die
at any point (`Runs`).  The pending migrations are applied in the order of their versions, each
exactly once, and what is recorded is always what has been applied (`migrations_atomic`).

`Stage k` is the database after the first `k` of the pending migrations.  A run that starts at a
stage applies the migrations from there on; only a `COMMIT` gets from one stage to the next.
-/

namespace OrderPlatform

namespace Migrations

open Async (Tid Path Contract)

variable {D : Type} {ctx : MigrationContext D} {t : Tid} {s s' : Database D}

/-! ### The files -/

/-- The versions are distinct and have the same number of digits. -/
structure MigrationContext.WellFormed (ctx : MigrationContext D) : Prop where
  distinct : (ctx.migrations.map Migration.version).Nodup
  digits : ∀ m ∈ ctx.migrations, ∀ m' ∈ ctx.migrations, m.digits = m'.digits

/-- The migrations are read in the order of the names of their files. -/
theorem MigrationContext.sorted (ctx : MigrationContext D) :
    ctx.migrations.Pairwise fun m m' => SortedBefore m.filename m'.filename := by
  have sorted : (sqlFiles ((ctx.directory.getD []).map Prod.fst)).Pairwise SortedBefore := by
    have total : Std.Total SortedBefore := ⟨fun a b => le_total (utf16 a.toList) (utf16 b.toList)⟩
    have transitive : IsTrans String SortedBefore := ⟨fun _ _ _ => le_trans⟩
    exact List.pairwise_insertionSort SortedBefore _
  refine List.Pairwise.filterMap _ ?_ sorted
  intro file file' sortedBefore m made m' made'
  obtain ⟨content, _, parsed⟩ := Option.bind_eq_some_iff.mp made
  obtain ⟨content', _, parsed'⟩ := Option.bind_eq_some_iff.mp made'
  rw [(version_of_toMigration parsed).1, (version_of_toMigration parsed').1]
  exact sortedBefore

/-- **The migrations are read in the order of their versions.** -/
theorem MigrationContext.WellFormed.ordered (h : ctx.WellFormed) :
    ctx.migrations.Pairwise fun m m' => m.number < m'.number := by
  have made : ∀ m ∈ ctx.migrations, ∃ content, toMigration ctx.sha256 m.filename content = some m := by
    intro m mem
    obtain ⟨file, _, made⟩ := List.mem_filterMap.mp mem
    obtain ⟨content, _, parsed⟩ := Option.bind_eq_some_iff.mp made
    rw [(version_of_toMigration parsed).1]
    exact ⟨content, parsed⟩
  have differ := List.pairwise_map.mp h.distinct
  refine (ctx.sorted.and differ).imp_of_mem fun {m m'} mem mem' both => ?_
  obtain ⟨content, parsed⟩ := made m mem
  obtain ⟨content', parsed'⟩ := made m' mem'
  exact number_lt_of_sortedBefore parsed parsed' both.1 both.2 (h.digits m mem m' mem')

/-! ### The rows -/

theorem Data.versions (d : Data D) : (d.rows.map MigrationRow.version).Nodup := by
  unfold Data.rows
  cases d.table with
  | none => exact List.nodup_nil
  | some table => exact table.versions

section Lookup

variable {rows : List MigrationRow} {version checksum : String}

theorem row_of_lookup
    (h : (rows.map fun row => (row.version, row.checksum)).lookup version = some checksum) :
    ∃ row ∈ rows, row.version = version ∧ row.checksum = checksum := by
  obtain ⟨before, after, split, _⟩ := List.lookup_eq_some_iff.mp h
  have mem : (version, checksum) ∈ rows.map fun row => (row.version, row.checksum) := by
    rw [split]
    exact List.mem_append_right _ List.mem_cons_self
  obtain ⟨row, found, same⟩ := List.mem_map.mp mem
  obtain ⟨rfl, rfl⟩ := Prod.mk.inj same
  exact ⟨row, found, rfl, rfl⟩

theorem isNone_lookup :
    ((rows.map fun row => (row.version, row.checksum)).lookup version).isNone = true ↔
      version ∉ rows.map MigrationRow.version := by
  rw [Option.isNone_iff_eq_none, List.lookup_eq_none_iff]
  constructor
  · intro none mem
    obtain ⟨row, found, rfl⟩ := List.mem_map.mp mem
    have differ := none _ (List.mem_map_of_mem found)
    exact absurd rfl (bne_iff_ne.mp differ)
  · intro absent pair mem
    obtain ⟨row, found, rfl⟩ := List.mem_map.mp mem
    refine bne_iff_ne.mpr fun same => absent ?_
    rw [same]
    exact List.mem_map_of_mem found

theorem lookup_of_mem (distinct : (rows.map MigrationRow.version).Nodup) {row : MigrationRow}
    (mem : row ∈ rows) :
    (rows.map fun row => (row.version, row.checksum)).lookup row.version = some row.checksum := by
  cases found : (rows.map fun row => (row.version, row.checksum)).lookup row.version with
  | none =>
      have absent := isNone_lookup.mp (Option.isNone_iff_eq_none.mpr found)
      exact absurd (List.mem_map_of_mem mem) absent
  | some checksum =>
      obtain ⟨row', mem', same, rfl⟩ := row_of_lookup found
      rw [List.inj_on_of_nodup_map distinct mem' mem same]

end Lookup

/-! ### Stages -/

/-- The migrations that are not recorded. -/
def pending (ctx : MigrationContext D) (d₀ : Data D) : List Migration :=
  ctx.migrations.filter fun m => m.version ∉ d₀.rows.map MigrationRow.version

/-- Some texts are executed, one after the other. -/
def applyContents (executes : Executes D) : List String → D → Except String D
  | [], d => .ok d
  | sql :: rest, d => (executes sql d).bind (applyContents executes rest)

theorem applyContents_append (executes : Executes D) (before after : List String) (d : D) :
    applyContents executes (before ++ after) d =
      (applyContents executes before d).bind (applyContents executes after) := by
  induction before generalizing d with
  | nil => rfl
  | cons sql rest ih =>
      simp only [List.cons_append, applyContents]
      cases executes sql d with
      | error e => rfl
      | ok d' => exact ih d'

/-- What is recorded of a migration. -/
def MigrationRow.stamp (row : MigrationRow) : String × String × String :=
  (row.version, row.description, row.checksum)

/-- What a migration leaves in `schema_migrations`, apart from the moment. -/
def Migration.stamp (m : Migration) : String × String × String :=
  (m.version, m.description, m.checksum)

/-- The first `k` of the pending migrations have been applied and recorded, and nothing else. -/
structure Stage (ctx : MigrationContext D) (d₀ : Data D) (k : ℕ) (d : Data D) : Prop where
  le : k ≤ (pending ctx d₀).length
  rest : applyContents ctx.executes (((pending ctx d₀).take k).map Migration.content) d₀.rest =
    .ok d.rest
  rows : ∃ rows, d.rows = d₀.rows ++ rows ∧
    rows.map MigrationRow.stamp = ((pending ctx d₀).take k).map Migration.stamp

namespace Stage

variable {d₀ d d' : Data D} {k : ℕ}

theorem start (ctx : MigrationContext D) (d₀ : Data D) : Stage ctx d₀ 0 d₀ :=
  ⟨Nat.zero_le _, rfl, [], (List.append_nil _).symm, rfl⟩

theorem same (h : Stage ctx d₀ k d) (rest : d'.rest = d.rest)
    (rows : d'.rows = d.rows) : Stage ctx d₀ k d' :=
  ⟨h.le, by rw [rest]; exact h.rest, by rw [rows]; exact h.rows⟩

theorem versions (h : Stage ctx d₀ k d) :
    d.rows.map MigrationRow.version =
      d₀.rows.map MigrationRow.version ++
        ((pending ctx d₀).take k).map Migration.version := by
  obtain ⟨rows, split, stamps⟩ := h.rows
  rw [split, List.map_append]
  congr 1
  have firsts := congrArg (List.map Prod.fst) stamps
  rw [List.map_map, List.map_map] at firsts
  exact firsts

theorem notMem_pending {m : Migration} (mem : m ∈ pending ctx d₀) :
    m.version ∉ d₀.rows.map MigrationRow.version :=
  of_decide_eq_true (List.mem_filter.mp mem).2

theorem distinct_pending (h : ctx.WellFormed) :
    ((pending ctx d₀).map Migration.version).Nodup :=
  h.distinct.sublist (List.filter_sublist.map Migration.version)

/-- **The next migration** is applied and recorded. -/
theorem next (distinct : ((pending ctx d₀).map Migration.version).Nodup)
    (h : Stage ctx d₀ k d) {m : Migration} {rest : List Migration}
    (split : (pending ctx d₀).drop k = m :: rest) {now : ℤ}
    (applied : applyChanges ctx.executes
      [.content m.content, .record ⟨m.version, m.description, now, m.checksum⟩] d = .ok d') :
    Stage ctx d₀ (k + 1) d' := by
  have whole : (pending ctx d₀).take k ++ m :: rest = pending ctx d₀ := by
    rw [← split]
    exact List.take_append_drop k _
  have lt : k < (pending ctx d₀).length := by
    have positive : 0 < ((pending ctx d₀).drop k).length := by rw [split]; exact Nat.succ_pos _
    rw [List.length_drop] at positive
    omega
  have more : (pending ctx d₀).take (k + 1) = (pending ctx d₀).take k ++ [m] := by
    rw [List.take_add_one, ← List.head?_drop, split]
    rfl
  -- a pending version is in no row, and the versions of the pending migrations differ
  have fresh : m.version ∉ d.rows.map MigrationRow.version := by
    rw [h.versions]
    intro mem
    rcases List.mem_append.mp mem with old | earlier
    · have pends : m ∈ pending ctx d₀ := by
        rw [← whole]
        exact List.mem_append_right _ List.mem_cons_self
      exact notMem_pending pends old
    · rw [← whole, List.map_append] at distinct
      exact List.disjoint_of_nodup_append distinct earlier List.mem_cons_self
  obtain ⟨rest', table, executed, known, rfl⟩ := applyChanges_migration applied
  rw [rows_of_table known] at fresh
  have recorded : (table.record ⟨m.version, m.description, now, m.checksum⟩).rows =
      d.rows ++ [⟨m.version, m.description, now, m.checksum⟩] := by
    rw [rows_of_table known]
    exact record_rows fresh
  refine ⟨lt, ?_, ?_⟩
  · rw [more, List.map_append, applyContents_append, h.rest]
    show (ctx.executes m.content d.rest).bind _ = _
    rw [executed]
    rfl
  · obtain ⟨new, rows, stamps⟩ := h.rows
    refine ⟨new ++ [⟨m.version, m.description, now, m.checksum⟩], ?_, ?_⟩
    · refine recorded.trans ?_
      rw [rows, List.append_assoc]
    · rw [more, List.map_append, List.map_append, stamps]
      rfl

/-- What is left to do at a stage. -/
theorem isPending_iff (h : Stage ctx d₀ k d)
    (distinct : ((pending ctx d₀).map Migration.version).Nodup) :
    ctx.migrations.filter (isPending (d.rows.map fun row => (row.version, row.checksum))) =
      (pending ctx d₀).drop k := by
  have both : ctx.migrations.filter
      (isPending (d.rows.map fun row => (row.version, row.checksum))) =
      (pending ctx d₀).filter fun m =>
        m.version ∉ ((pending ctx d₀).take k).map Migration.version := by
    rw [show pending ctx d₀ = ctx.migrations.filter fun m =>
      m.version ∉ d₀.rows.map MigrationRow.version from rfl, List.filter_filter]
    refine List.filter_congr fun m _ => ?_
    rw [Bool.eq_iff_iff, isPending, isNone_lookup, h.versions, List.mem_append, not_or,
      Bool.and_eq_true, decide_eq_true_iff, decide_eq_true_iff]
    exact And.comm
  rw [both]
  have whole := List.take_append_drop k (pending ctx d₀)
  rw [← whole, List.map_append] at distinct
  calc
    (pending ctx d₀).filter (fun m => m.version ∉ ((pending ctx d₀).take k).map Migration.version)
      = ((pending ctx d₀).take k ++ (pending ctx d₀).drop k).filter fun m =>
          m.version ∉ ((pending ctx d₀).take k).map Migration.version := by rw [whole]
    _ = (pending ctx d₀).drop k := by
        rw [List.filter_append, List.filter_eq_nil_iff.mpr, List.nil_append, List.filter_eq_self]
        · intro m mem
          exact decide_eq_true fun mem' =>
            List.disjoint_of_nodup_append distinct mem' (List.mem_map_of_mem mem)
        · intro m mem absent
          exact of_decide_eq_true absent (List.mem_map_of_mem mem)

/-- Nothing that has been applied looks modified. -/
theorem not_isModified (h : Stage ctx d₀ k d)
    (distinct : ((pending ctx d₀).map Migration.version).Nodup)
    (checked : ∀ m ∈ ctx.migrations, ∀ row ∈ d₀.rows, row.version = m.version →
      row.checksum = m.checksum) :
    ctx.migrations.any (isModified (d.rows.map fun row => (row.version, row.checksum))) = false := by
  rw [List.any_eq_false]
  intro m mem modified
  obtain ⟨recorded, found, differs⟩ := (Option.any_eq_true _ _).mp modified
  obtain ⟨row, known, version, rfl⟩ := row_of_lookup found
  refine of_decide_eq_true differs ?_
  obtain ⟨new, rows, stamps⟩ := h.rows
  rw [rows] at known
  rcases List.mem_append.mp known with old | applied
  · exact checked m mem row old version
  · have stamp : row.stamp ∈ ((pending ctx d₀).take k).map Migration.stamp := by
      rw [← stamps]
      exact List.mem_map_of_mem applied
    obtain ⟨m', earlier, same⟩ := List.mem_map.mp stamp
    have mem' : m' ∈ pending ctx d₀ := List.mem_of_mem_take earlier
    have version' : m'.version = m.version := (congrArg Prod.fst same).trans version
    have pends : m ∈ pending ctx d₀ :=
      List.mem_filter.mpr ⟨mem, decide_eq_true (version' ▸ notMem_pending mem')⟩
    obtain rfl := List.inj_on_of_nodup_map distinct mem' pends version'
    exact (congrArg (fun stamp => stamp.2.2) same).symm

end Stage

/-! ### What the statements leave alone -/

/-- The data has a property, and there is no transaction but that of one session. -/
structure Kept (P : Data D → Prop) (t : Tid) (s : Database D) : Prop where
  data : P s.data
  own : ∀ x ∈ s.transactions, x.owner = t

/-- A property that looks at the rows and at the rest of the database. -/
def OfContents (P : Data D → Prop) : Prop :=
  ∀ d d' : Data D, d'.rest = d.rest → d'.rows = d.rows → P d → P d'

section Statements

variable {P : Data D → Prop} {executes : Executes D}

theorem Kept.abort (h : Kept P t s) : Kept P t (s.abort t) :=
  ⟨h.data, fun x mem => h.own x (List.mem_of_mem_filter mem)⟩

theorem Kept.setTransaction (h : Kept P t s) (x : Transaction) (owner : x.owner = t) :
    Kept P t (s.setTransaction x) := by
  refine ⟨h.data, fun y mem => ?_⟩
  rcases List.mem_cons.mp mem with rfl | mem
  · exact owner
  · exact h.own y (List.mem_of_mem_filter mem)

theorem Kept.fail (h : Kept P t s) : Kept P t (s.fail t) := by
  unfold Database.fail
  split
  · rename_i x known
    have owner := owner_of_transaction known
    exact h.setTransaction _ owner
  · exact h

theorem Kept.change (h : Kept P t s) (c : Change) : Kept P t (s.change executes t c).2 := by
  unfold Database.change
  split
  · exact h
  · rename_i x known
    have owner := owner_of_transaction known
    split
    · exact h
    · split
      · exact h.setTransaction _ owner
      · exact h.setTransaction _ owner

/-- Every statement but `COMMIT` leaves the contents alone. -/
theorem Kept.statement {now : ℤ} {st : Statement} {r : Except String st.Result}
    (contents : OfContents P) (h : Kept P t s) (other : st ≠ .commit)
    (done : s.exec executes now t st = some (r, s')) : Kept P t s' := by
  cases st with
  | createTable =>
      cases done
      refine ⟨contents s.data _ rfl ?_ h.data, h.own⟩
      unfold Data.rows
      cases s.data.table <;> rfl
  | selectVersions =>
      simp only [Database.exec] at done
      split at done <;> cases done <;> exact h
  | begin => cases done; exact h.setTransaction _ rfl
  | content sql =>
      rw [show s' = (s.change executes t (.content sql)).2 from
        (congrArg Prod.snd (Option.some.inj done)).symm]
      exact h.change _
  | record version description checksum =>
      simp only [Database.exec] at done
      split at done
      · cases done
      · rw [show s' = (s.change executes t (.record ⟨version, description, now, checksum⟩)).2 from
          (congrArg Prod.snd (Option.some.inj done)).symm]
        exact h.change _
  | commit => exact absurd rfl other
  | rollback => cases done; exact h.abort

end Statements

/-! ### A run -/

section Run

variable {P : Data D → Prop} {α : Type}
variable {Q : α → Database D → Prop} {E : String → Database D → Prop}

/-- The contract of a run: whatever it does, the data keeps a property. -/
abbrev keeping (ctx : MigrationContext D) (P : Data D → Prop) (t : Tid) : Contract (machine ctx) :=
  Contract.undisturbed t (Kept P t)

/-- An awaited operation that is no `COMMIT`. -/
theorem holds_query {st : Statement} {f : st.Result → Task α} (contents : OfContents P)
    (here : Kept P t s) (other : st ≠ .commit)
    (next : ∀ now v s', s.exec ctx.executes now t st = some (.ok v, s') → Kept P t s' →
      (keeping ctx P t).Holds Q E (f v) s')
    (failed : ∀ e s', Kept P t s' → E e s') :
    (keeping ctx P t).Holds Q E ((query st).bind f) s := by
  rintro s₁ rfl
  refine ⟨trivial, fun choice r s' _ done => ?_⟩
  obtain ⟨e, rfl, rfl⟩ | ⟨now, r', executed, reply⟩ := exec_query done
  · have kept : Kept P t (if st.inTransaction then s₁.fail t else s₁) := by
      split
      · exact here.fail
      · exact here
    exact ⟨kept, fun s'' same => failed e s'' (same ▸ kept)⟩
  · have kept := here.statement contents other executed
    refine ⟨kept, ?_⟩
    rcases reply with rfl | ⟨e, rfl⟩
    · cases r with
      | ok v => exact next now v s' executed kept
      | error e => exact fun s'' same => failed e s'' (same ▸ kept)
    · exact fun s'' same => failed e s'' (same ▸ kept)

/-- Everything that is no statement leaves the data alone. -/
theorem kept_of_other {choice : Choice} {o : Operation} {r : o.Reply} (here : Kept P t s)
    (other : ∀ st, o ≠ .query st) (done : exec ctx t choice o s = some (r, s')) :
    Kept P t s' := by
  cases o with
  | query st => exact absurd rfl (other st)
  | readdir => cases choice <;> cases done <;> exact here
  | readFile name => cases choice <;> cases done <;> exact here
  | connect => cases choice <;> cases done <;> exact here
  | disconnect =>
      cases choice with
      | succeeds now => cases done; exact here.abort
      | fails e => cases done; exact here
      | loses now e => cases done
  | exit =>
      cases choice with
      | succeeds now => cases done; exact here.abort
      | fails e => cases done
      | loses now e => cases done

/-- A run keeps what it keeps. -/
theorem keeping_serves : Serves (keeping ctx P t) (Kept P t) where
  here := fun _ => rfl
  stable := fun same kept => same ▸ kept
  before := fun _ => trivial
  step := fun other done kept =>
    have kept' := kept_of_other kept other done
    ⟨kept', kept'⟩

end Run

section Applying

variable {d₀ : Data D}

/-- The data is at a stage. -/
def AtStage (ctx : MigrationContext D) (d₀ d : Data D) : Prop := ∃ k, Stage ctx d₀ k d

theorem atStage_contents : OfContents (AtStage ctx d₀) := by
  rintro d d' rest rows ⟨k, stage⟩
  exact ⟨k, stage.same rest rows⟩

/-- Where there are no files, nothing is left to do. -/
theorem stage_of_empty (empty : ctx.migrations = []) (d : Data D) (h : AtStage ctx d₀ d) :
    Stage ctx d₀ (pending ctx d₀).length d := by
  obtain ⟨k, stage⟩ := h
  have none : pending ctx d₀ = [] := by
    unfold pending
    rw [empty]
    rfl
  have le := stage.le
  rw [none] at le ⊢
  rw [Nat.le_zero.mp le] at stage
  exact stage

/-- The data is at this stage, with no transaction but that of the run. -/
abbrev Reached (ctx : MigrationContext D) (d₀ : Data D) (t : Tid) (k : ℕ) (s : Database D) : Prop :=
  Kept (Stage ctx d₀ k) t s

theorem Reached.kept {k : ℕ} (h : Reached ctx d₀ t k s) : Kept (AtStage ctx d₀) t s :=
  ⟨⟨k, h.data⟩, h.own⟩

/-- `COMMIT`, behind the two statements of a migration. -/
private theorem holds_commit (distinct : ((pending ctx d₀).map Migration.version).Nodup)
    {k : ℕ} {m : Migration} {rest : List Migration}
    (split : (pending ctx d₀).drop k = m :: rest) {now : ℤ} {d : Data D}
    (here : Reached ctx d₀ t k s)
    (known : s.transaction? t = some ⟨t, [.content m.content,
      .record ⟨m.version, m.description, now, m.checksum⟩], false⟩)
    (applied : applyChanges ctx.executes [.content m.content,
      .record ⟨m.version, m.description, now, m.checksum⟩] s.data = .ok d) :
    (keeping ctx (AtStage ctx d₀) t).Holds (fun _ => Reached ctx d₀ t (k + 1))
      (fun _ => Kept (AtStage ctx d₀) t) (query .commit) s := by
  rintro s₁ rfl
  refine ⟨trivial, fun choice r s' _ done => ?_⟩
  obtain ⟨e, rfl, rfl⟩ | ⟨now', r', executed, reply⟩ := exec_query done
  · have kept := here.kept.fail
    exact ⟨kept, fun s'' same => same ▸ kept⟩
  · have committed := commit_eq known rfl applied
    obtain ⟨rfl, same⟩ := Prod.mk.inj (committed.symm.trans (Option.some.inj executed))
    have next : Reached ctx d₀ t (k + 1) s' := by
      rw [← same]
      exact ⟨here.data.next distinct split applied, here.abort.own⟩
    refine ⟨next.kept, ?_⟩
    rcases reply with rfl | ⟨e, rfl⟩
    · exact fun s'' same => same ▸ next
    · exact fun s'' same => same ▸ next.kept

/-- **One migration**: from a stage to the next. -/
private theorem holds_applyMigration
    (distinct : ((pending ctx d₀).map Migration.version).Nodup) {k : ℕ} {m : Migration}
    {rest : List Migration} (split : (pending ctx d₀).drop k = m :: rest)
    (here : Reached ctx d₀ t k s) :
    (keeping ctx (AtStage ctx d₀) t).Holds (fun _ => Reached ctx d₀ t (k + 1))
      (fun _ => Kept (AtStage ctx d₀) t) (applyMigration m) s := by
  have contents : OfContents (AtStage ctx d₀) := atStage_contents
  refine holds_query contents here.kept (fun other => by cases other) ?_ fun _ _ kept => kept
  intro now _ s₁ begun kept₁
  obtain ⟨-, rfl⟩ := Prod.mk.inj (Option.some.inj begun)
  -- `catch`: whatever has gone wrong, the transaction is rolled back
  refine Contract.Holds.attempt (Contract.Holds.mono
    (E := fun _ => Kept (AtStage ctx d₀) t) ?_ (fun _ _ done => done) ?_) rfl
  · refine holds_query contents kept₁ (fun other => by cases other) ?_ fun _ _ kept => kept
    intro now₂ _ s₂ executed kept₂
    obtain ⟨x, d, known, _, _, rfl⟩ := change_ok (Option.some.inj executed)
    obtain rfl := Option.some.inj ((transaction_setTransaction _ _).symm.trans known)
    refine holds_query contents kept₂ (fun other => by cases other) ?_ fun _ _ kept => kept
    intro now₃ _ s₃ recorded kept₃
    simp only [Database.exec] at recorded
    split at recorded
    · cases recorded
    · obtain ⟨x, d, known, _, applied, rfl⟩ := change_ok (Option.some.inj recorded)
      obtain rfl := Option.some.inj ((transaction_setTransaction _ _).symm.trans known)
      exact holds_commit distinct split ⟨here.data, kept₃.own⟩ (transaction_setTransaction _ _) applied
  · intro e s₂ kept₂ _
    refine holds_query contents kept₂ (fun other => by cases other) ?_ fun _ _ kept => kept
    exact fun _ _ _ _ kept => holds_exit keeping_serves kept fun _ _ kept => kept

/-- The loop over the pending migrations. -/
private theorem holds_applyMigrations
    (distinct : ((pending ctx d₀).map Migration.version).Nodup)
    {migrations : List Migration} {k : ℕ}
    (split : (pending ctx d₀).drop k = migrations) (here : Reached ctx d₀ t k s) :
    (keeping ctx (AtStage ctx d₀) t).Holds
      (fun _ => Reached ctx d₀ t (pending ctx d₀).length)
      (fun _ => Kept (AtStage ctx d₀) t) (applyMigrations migrations) s := by
  induction migrations generalizing k s with
  | nil =>
      rintro s₁ rfl
      have all : k = (pending ctx d₀).length :=
        Nat.le_antisymm here.data.le (List.drop_eq_nil_iff.mp split)
      rw [← all]
      exact here
  | cons m rest ih =>
      refine (holds_applyMigration distinct split here).chain rfl fun _ s' next _ => ih ?_ next
      rw [← List.tail_drop, split]
      rfl

end Applying

section Loading

variable {P : Data D → Prop}

/-- The versions that are recorded. -/
theorem holds_getAppliedVersions (contents : OfContents P) (here : Kept P t s) :
    (keeping ctx P t).Holds
      (fun applied s' => Kept P t s' ∧
        applied = s'.data.rows.map fun row => (row.version, row.checksum))
      (fun _ => Kept P t) getAppliedVersions s := by
  refine holds_query contents here (fun other => by cases other) ?_ fun _ _ kept => kept
  intro _ _ s₁ _ kept₁
  rw [← Async.Program.bind_done_right (query .selectVersions)]
  refine holds_query contents kept₁ (fun other => by cases other) ?_ fun _ _ kept => kept
  intro now applied s₂ selected kept₂
  rintro s₃ rfl
  simp only [Database.exec] at selected
  split at selected
  · rename_i table known
    cases selected
    exact ⟨kept₁, by rw [rows_of_table known]⟩
  · cases selected

/-- **A run**, from what its `try` does. -/
theorem holds_runner {P' : Data D → Prop} (here : Kept P t s) (weaker : ∀ d, P' d → P d)
    (nothing : ctx.migrations = [] → ∀ d, P d → P' d)
    (migrates : ∀ s', Kept P t s' → (keeping ctx P t).Holds (fun _ => Kept P' t)
      (fun _ => Kept P t) (migrate ctx.migrations) s') :
    (keeping ctx P t).Holds (fun _ => Kept P' t) (fun _ _ => True) (runner ctx) s := by
  have disconnects : ∀ {R : Data D → Prop} {s' : Database D}, Kept R t s' →
      (∀ d, R d → P d) → (keeping ctx P t).Holds (fun _ => Kept R t)
        (fun _ => Kept P t) (call .disconnect) s' := by
    intro R s' kept weaker
    rintro s₁ rfl
    refine ⟨trivial, fun choice r s₂ _ done => ?_⟩
    have still : Kept R t s₂ := kept_of_other kept (fun _ other => by cases other) done
    refine ⟨⟨weaker _ still.data, still.own⟩, ?_⟩
    cases r with
    | ok v => exact fun s₃ same => same ▸ still
    | error e => exact fun s₃ same => same ▸ ⟨weaker _ still.data, still.own⟩
  refine Contract.Holds.attempt (Contract.Holds.mono (E := fun _ => Kept P t) ?_
    (fun _ _ done => done) fun _ _ kept _ => holds_exit keeping_serves kept fun _ _ _ => trivial) rfl
  refine (holds_loadMigrationFiles keeping_serves here).chain rfl fun migrations s₁ loaded _ => ?_
  obtain ⟨kept₁, rfl⟩ := loaded
  split
  · rename_i empty
    rintro s₂ rfl
    exact ⟨nothing empty _ kept₁.data, kept₁.own⟩
  · refine holds_call keeping_serves kept₁ (fun _ other => by cases other) ?_ fun _ _ kept => kept
    intro _ _ _ s₂ _ kept₂
    refine Contract.Holds.ensuring ((migrates s₂ kept₂).mono ?_ ?_) rfl
    · exact fun _ s₃ done _ => disconnects done weaker
    · exact fun _ s₃ kept _ => disconnects kept fun _ kept => kept

end Loading

/-! ### Runs -/

/-- The process has ended by returning. -/
def succeeded : Task Unit → Bool
  | .done _ => true
  | _ => false

/-- Runs of the runner that follow each other, and which of them have succeeded, latest first.  A
run may end anywhere; its session is closed then. -/
inductive Runs (ctx : MigrationContext D) : Database D → List Bool → Database D → Prop
  | none (s : Database D) : Runs ctx s [] s
  | run {s₀ s s' : Database D} {outcomes : List Bool} {t : Tid} {task : Task Unit}
      {log : List (Async.Performed (machine ctx))} (earlier : Runs ctx s₀ outcomes s)
      (path : Path (M := machine ctx) (fun s s' => s' = s) t (runner ctx) s log task s') :
      Runs ctx s₀ (succeeded task :: outcomes) (s'.abort t)

/-- **What every run keeps**, and what it has reached when it has succeeded. -/
theorem Runs.keeps {P P' : Data D → Prop} {s₀ : Database D} {outcomes : List Bool}
    (runs : Runs ctx s₀ outcomes s) (weaker : ∀ d, P' d → P d)
    (nothing : ctx.migrations = [] → ∀ d, P d → P' d)
    (migrates : ∀ t s', Kept P t s' → (keeping ctx P t).Holds (fun _ => Kept P' t)
      (fun _ => Kept P t) (migrate ctx.migrations) s')
    (idle : s₀.transactions = []) (here : P s₀.data) :
    s.transactions = [] ∧ P s.data ∧ (outcomes.head? = some true → P' s.data) := by
  induction runs with
  | none => exact ⟨idle, here, nofun⟩
  | run earlier path ih =>
      rename_i s s' outcomes t task log
      obtain ⟨idle, here, _⟩ := ih
      have kept : Kept P t s := ⟨here, fun x mem => by rw [idle] at mem; cases mem⟩
      obtain ⟨kept', ends⟩ := path.undisturbed
        (holds_runner kept weaker nothing (migrates t)) kept
      refine ⟨?_, kept'.data, fun success => ?_⟩
      · refine List.filter_eq_nil_iff.mpr fun x mem => ?_
        rw [kept'.own x mem]
        simp
      · have success : succeeded task = true := Option.some.inj success
        cases task with
        | done a => exact (ends a rfl).data
        | thrown e => cases success
        | await o k => cases success
        | either p q => cases success
        | pending => cases success

/-- The body of the `try`, from a stage. -/
theorem holds_migrate {d₀ : Data D}
    (distinct : ((pending ctx d₀).map Migration.version).Nodup)
    (checked : ∀ m ∈ ctx.migrations, ∀ row ∈ d₀.rows, row.version = m.version →
      row.checksum = m.checksum) (here : Kept (AtStage ctx d₀) t s) :
    (keeping ctx (AtStage ctx d₀) t).Holds
      (fun _ => Reached ctx d₀ t (pending ctx d₀).length)
      (fun _ => Kept (AtStage ctx d₀) t) (migrate ctx.migrations) s := by
  refine (holds_getAppliedVersions atStage_contents here).chain rfl fun applied s₁ known _ => ?_
  obtain ⟨kept, rfl⟩ := known
  obtain ⟨k, stage⟩ := kept.data
  rw [stage.not_isModified distinct checked, if_neg Bool.false_ne_true, stage.isPending_iff distinct]
  exact holds_applyMigrations distinct rfl ⟨stage, kept.own⟩

/-- A migration that has been modified is found out before anything is done. -/
private theorem holds_refused {d₀ : Data D} {m : Migration} (mem : m ∈ ctx.migrations)
    {row : MigrationRow} (known : row ∈ d₀.rows) (version : row.version = m.version)
    (differs : row.checksum ≠ m.checksum) {P : Data D → Prop} (contents : OfContents P)
    (rows : ∀ d, P d → d.rows = d₀.rows) (here : Kept P t s) :
    (keeping ctx P t).Holds (fun _ => Kept P t) (fun _ => Kept P t) (migrate ctx.migrations) s := by
  refine (holds_getAppliedVersions contents here).chain rfl fun applied s₁ found _ => ?_
  obtain ⟨kept, rfl⟩ := found
  have modified : ctx.migrations.any
      (isModified (s₁.data.rows.map fun row => (row.version, row.checksum))) = true := by
    refine List.any_eq_true.mpr ⟨m, mem, ?_⟩
    unfold isModified
    rw [rows _ kept.data, ← version, lookup_of_mem d₀.versions known]
    exact decide_eq_true differs
  rw [modified, if_pos rfl]
  exact holds_exit keeping_serves kept fun _ _ kept => kept

/-- A database that is the list of the texts that were executed on it; one of them is rejected while
the database is empty. -/
def exampleContext : MigrationContext (List String) where
  directory := some [("004_events.sql", "CREATE TABLE events"), ("README.md", "…"),
    ("003_orders.sql", "CREATE TABLE orders")]
  sha256 := fun content => content
  executes := fun sql executed =>
    if sql = "CREATE TABLE events" ∧ executed = [] then .error "no orders"
    else .ok (executed ++ [sql])

/-- A database in which an earlier version is recorded. -/
def exampleDatabase : Database (List String) where
  data :=
    { table := some ⟨[⟨"002", "schema version", 0, "c2"⟩], List.nodup_singleton _⟩
      rest := [] }
  transactions := []
  committed := []

/-- The choices of a run up to the `SELECT`. -/
def exampleStart (now : ℤ) : List Choice := List.replicate 6 (.succeeds now)

theorem exampleContext_wellFormed : exampleContext.WellFormed :=
  ⟨by decide, by decide⟩

/-- The choices of a run that fails in the second migration. -/
def exampleFailure : List Choice :=
  exampleStart 10 ++ List.replicate 5 (.succeeds 10) ++
    [.fails "terminating connection", .succeeds 11, .succeeds 11]

/-- The choices of a run that applies one migration. -/
def exampleSuccess : List Choice := exampleStart 20 ++ List.replicate 5 (.succeeds 20)

end Migrations

end OrderPlatform
