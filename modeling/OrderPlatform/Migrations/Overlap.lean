import OrderPlatform.Migrations.Atomicity

/-!
# Runners that overlap

A runner decides what is pending before it opens its first transaction, and the `INSERT` that
records a migration accepts a version that is already there.  So a second runner that has read
`schema_migrations` before the first one has recorded a version applies that version again
(`applied_twice`).

`applied_at_most_once` says that every migration is applied at most once as long as no `INSERT`
meets a row of its version.  An uncommitted row is no danger: the `INSERT` waits for it.
-/

namespace OrderPlatform

namespace Migrations

open Async (Tid Contract Discipline Regime)

variable {D : Type} {ctx : MigrationContext D} {t u : Tid} {s s' : Database D}

/-! ### What an operation does to the transactions -/

theorem transaction_abort (other : u ≠ t) : (s.abort t).transaction? u = s.transaction? u := by
  unfold Database.transaction? Database.abort
  rw [List.find?_filter]
  refine congrArg (fun p => s.transactions.find? p) (funext fun x => ?_)
  by_cases owner : x.owner = u
  · simp [owner, other]
  · simp [owner]

theorem transaction_other {x : Transaction} (owner : x.owner = t) (other : u ≠ t) :
    (s.setTransaction x).transaction? u = s.transaction? u := by
  subst owner
  rw [← transaction_abort (s := s) other]
  exact List.find?_cons_of_neg (Bool.eq_false_iff.mp (decide_eq_false other.symm))

/-- The version that a change records. -/
def Change.version? : Change → Option String
  | .record row => some row.version
  | .content _ => none

/-- The versions that a transaction has recorded; what a failed one has done is lost. -/
def Transaction.versions (x : Transaction) : List String :=
  if x.failed then [] else x.changes.filterMap Change.version?

theorem Transaction.mem_versions {x : Transaction} {c : Change} {version : String}
    (mem : version ∈ ({ x with changes := x.changes ++ [c] } : Transaction).versions) :
    version ∈ x.versions ∨ c.version? = some version := by
  unfold Transaction.versions at *
  split at mem
  · cases mem
  · rename_i going
    rw [if_neg going]
    rw [List.filterMap_append] at mem
    refine (List.mem_append.mp mem).imp id fun last => ?_
    obtain ⟨c', mem', recorded⟩ := List.mem_filterMap.mp last
    rw [← List.mem_singleton.mp mem']
    exact recorded

/-- Nobody else has recorded a version whose row is not locked. -/
theorem notMem_versions {version : String} {x : Transaction}
    (unlocked : s.isLocked t version = false) (mem : x ∈ s.transactions) (other : x.owner ≠ t) :
    version ∉ x.versions := by
  intro recorded
  unfold Transaction.versions at recorded
  split at recorded
  · cases recorded
  · rename_i going
    obtain ⟨c, mem', same⟩ := List.mem_filterMap.mp recorded
    refine Bool.eq_false_iff.mp unlocked (List.any_eq_true.mpr ⟨x, mem, ?_⟩)
    rw [decide_eq_true other, Bool.eq_false_iff.mpr going]
    refine List.any_eq_true.mpr ⟨c, mem', ?_⟩
    cases c with
    | record row => exact decide_eq_true (Option.some.inj same)
    | content sql => cases same

/-- No transaction has recorded more than before. -/
def Shrinks (s s' : Database D) : Prop :=
  ∀ y ∈ s'.transactions, y.versions = [] ∨
    ∃ x ∈ s.transactions, x.owner = y.owner ∧ x.versions = y.versions

theorem Shrinks.refl (s : Database D) : Shrinks s s := fun y mem => .inr ⟨y, mem, rfl, rfl⟩

theorem Shrinks.abort (t : Tid) (s : Database D) : Shrinks s (s.abort t) :=
  fun y mem => .inr ⟨y, List.mem_of_mem_filter mem, rfl, rfl⟩

theorem Shrinks.setTransaction {x : Transaction} (here : x.versions = [] ∨
    ∃ x' ∈ s.transactions, x'.owner = x.owner ∧ x'.versions = x.versions) :
    Shrinks s (s.setTransaction x) := by
  intro y mem
  rcases List.mem_cons.mp mem with rfl | mem
  · exact here
  · exact .inr ⟨y, List.mem_of_mem_filter mem, rfl, rfl⟩

/-- What nobody can tell from outside of a session. -/
structure Quiet (t : Tid) (s s' : Database D) : Prop where
  others : ∀ u, u ≠ t → s'.transaction? u = s.transaction? u
  shrinks : Shrinks s s'
  rest : s'.data.rest = s.data.rest
  rows : s'.data.rows = s.data.rows
  committed : s'.committed = s.committed

theorem Quiet.refl (t : Tid) (s : Database D) : Quiet t s s :=
  ⟨fun _ _ => rfl, .refl s, rfl, rfl, rfl⟩

theorem Quiet.abort (t : Tid) (s : Database D) : Quiet t s (s.abort t) :=
  ⟨fun _ => transaction_abort, .abort t s, rfl, rfl, rfl⟩

theorem Quiet.setTransaction {x : Transaction} (owner : x.owner = t) (here : x.versions = [] ∨
    ∃ x' ∈ s.transactions, x'.owner = x.owner ∧ x'.versions = x.versions) :
    Quiet t s (s.setTransaction x) :=
  ⟨fun _ => transaction_other owner, .setTransaction here, rfl, rfl, rfl⟩

theorem mem_of_transaction {x : Transaction} (h : s.transaction? t = some x) :
    x ∈ s.transactions := List.mem_of_find?_eq_some h

theorem Quiet.fail (t : Tid) (s : Database D) : Quiet t s (s.fail t) := by
  unfold Database.fail
  split
  · rename_i x known
    have owner := owner_of_transaction known
    exact .setTransaction owner (.inl (if_pos rfl))
  · exact .refl t s

/-- A statement of a transaction is refused, or it is added to what the transaction has done. -/
theorem change_cases (executes : Executes D) (t : Tid) (c : Change) (s : Database D) :
    Quiet t s (s.change executes t c).2 ∨ ∃ x, s.transaction? t = some x ∧
      (s.change executes t c).2 = s.setTransaction { x with changes := x.changes ++ [c] } := by
  unfold Database.change
  split
  · exact .inl (.refl t s)
  · rename_i x known
    have owner := owner_of_transaction known
    split
    · exact .inl (.refl t s)
    · split
      · exact .inr ⟨x, known, rfl⟩
      · exact .inl (.setTransaction owner (.inl (if_pos rfl)))

/-- What a runner does that the others can tell. -/
inductive Effect (ctx : MigrationContext D) (t : Tid) (s : Database D) :
    Operation → Database D → Prop
  | quiet {o : Operation} {s' : Database D} (quiet : Quiet t s s') : Effect ctx t s o s'
  | recorded {x : Transaction} {version description checksum : String} (now : ℤ)
      (known : s.transaction? t = some x) (unlocked : s.isLocked t version = false) :
      Effect ctx t s (.query (.record version description checksum))
        (s.setTransaction
          { x with changes := x.changes ++ [.record ⟨version, description, now, checksum⟩] })
  | committed {x : Transaction} {data : Data D} (known : s.transaction? t = some x)
      (going : x.failed = false) (applied : applyChanges ctx.executes x.changes s.data = .ok data) :
      Effect ctx t s (.query .commit)
        { s.abort t with data, committed := (t, x.changes) :: s.committed }

/-- The effect of a statement. -/
theorem effect_of_statement {now : ℤ} {st : Statement} {r : Except String st.Result}
    (done : s.exec ctx.executes now t st = some (r, s')) : Effect ctx t s (.query st) s' := by
  cases st with
  | createTable =>
      cases done
      refine .quiet ⟨fun _ _ => rfl, .refl s, rfl, ?_, rfl⟩
      unfold Data.rows
      cases s.data.table <;> rfl
  | selectVersions =>
      simp only [Database.exec] at done
      split at done <;> cases done <;> exact .quiet (.refl t s)
  | begin => cases done; exact .quiet (.setTransaction rfl (.inl (if_neg Bool.false_ne_true)))
  | content sql =>
      rw [show s' = (s.change ctx.executes t (.content sql)).2 from
        (congrArg Prod.snd (Option.some.inj done)).symm]
      rcases change_cases ctx.executes t (.content sql) s with quiet | ⟨x, known, same⟩
      · exact .quiet quiet
      · have owner := owner_of_transaction known
        rw [same]
        refine .quiet (.setTransaction owner (.inr ⟨x, mem_of_transaction known, rfl, ?_⟩))
        unfold Transaction.versions
        rw [List.filterMap_append]
        exact congrArg (fun versions => if x.failed then [] else versions) (List.append_nil _).symm
  | record version description checksum =>
      simp only [Database.exec] at done
      split at done
      · cases done
      · rename_i unlocked
        rw [show s' = (s.change ctx.executes t (.record ⟨version, description, now, checksum⟩)).2
          from (congrArg Prod.snd (Option.some.inj done)).symm]
        rcases change_cases ctx.executes t (.record ⟨version, description, now, checksum⟩) s with
          quiet | ⟨x, known, same⟩
        · exact .quiet quiet
        · rw [same]
          exact .recorded now known (Bool.eq_false_iff.mpr unlocked)
  | commit =>
      rw [show s' = (s.commit ctx.executes t).2 from
        (congrArg Prod.snd (Option.some.inj done)).symm]
      unfold Database.commit
      split
      · exact .quiet (.refl t s)
      · rename_i x known
        split
        -- a failed transaction is rolled back instead
        · exact .quiet (.abort t s)
        · rename_i going
          split
          · rename_i data applied
            exact .committed known (Bool.eq_false_iff.mpr going) applied
          · exact .quiet (.abort t s)
  | rollback => cases done; exact .quiet (.abort t s)

/-- An operation that fails. -/
theorem quiet_of_fails {e : String} {o : Operation} {r : o.Reply}
    (done : exec ctx t (.fails e) o s = some (r, s')) : Quiet t s s' := by
  cases o with
  | query st =>
      cases done
      split
      · exact .fail t s
      · exact .refl t s
  | readdir => cases done; exact .refl t s
  | readFile name => cases done; exact .refl t s
  | connect => cases done; exact .refl t s
  | disconnect => cases done; exact .refl t s
  | exit => cases done

/-- **The effect of an operation.** -/
theorem effect_of_exec {choice : Choice} {o : Operation} {r : o.Reply}
    (done : exec ctx t choice o s = some (r, s')) : Effect ctx t s o s' := by
  cases o with
  | query st =>
      obtain ⟨e, _, rfl⟩ | ⟨now, r', executed, _⟩ := exec_query done
      · split
        · exact .quiet (.fail t s)
        · exact .quiet (.refl t s)
      · exact effect_of_statement executed
  | readdir => cases choice <;> cases done <;> exact .quiet (.refl t s)
  | readFile name => cases choice <;> cases done <;> exact .quiet (.refl t s)
  | connect => cases choice <;> cases done <;> exact .quiet (.refl t s)
  | disconnect =>
      cases choice with
      | succeeds now => cases done; exact .quiet (.abort t s)
      | fails e => cases done; exact .quiet (.refl t s)
      | loses now e => cases done
  | exit =>
      cases choice with
      | succeeds now => cases done; exact .quiet (.abort t s)
      | fails e => cases done
      | loses now e => cases done

/-- No runner touches the transaction of another one. -/
theorem Effect.others {o : Operation} (h : Effect ctx t s o s') (other : u ≠ t) :
    s'.transaction? u = s.transaction? u := by
  cases h with
  | quiet quiet => exact quiet.others u other
  | recorded now known unlocked =>
      have owner := owner_of_transaction known
      exact transaction_other owner other
  | committed known going applied => exact transaction_abort (s := s) other

/-! ### Where a runner stands -/

/-- What is true of a runner that stands before a statement of its transaction. -/
def Before (ctx : MigrationContext D) (t : Tid) : Operation → Database D → Prop
  | .query (.content sql), s =>
      ∃ m ∈ ctx.migrations, sql = m.content ∧ s.transaction? t = some ⟨t, [], false⟩
  | .query (.record version description checksum), s =>
      ∃ m ∈ ctx.migrations, version = m.version ∧ description = m.description ∧
        checksum = m.checksum ∧ s.transaction? t = some ⟨t, [.content m.content], false⟩
  | .query .commit, s =>
      ∃ m ∈ ctx.migrations, ∃ now, s.transaction? t = some ⟨t, [.content m.content,
        .record ⟨m.version, m.description, now, m.checksum⟩], false⟩
  | _, _ => True

/-- Runners that overlap: each has its own transaction. -/
def overlapping (ctx : MigrationContext D) : Discipline (machine ctx) where
  inv _ := True
  fresh _ _ := True
  before := Before ctx
  rely t s s' := s'.transaction? t = s.transaction? t
  rely_refl _ _ := rfl
  rely_trans h h' := h'.trans h
  fresh_rely _ _ := trivial

section Standing

variable {R : Regime (machine ctx)}

/-- A task that keeps the discipline. -/
abbrev Keeps (R : Regime (machine ctx)) (t : Tid) {α : Type} (task : Task α)
    (s : Database D) : Prop :=
  ((overlapping ctx).contract R t).Holds (fun _ _ => True) (fun _ _ => True) task s

theorem overlapping_serves : Serves ((overlapping ctx).contract R t) fun _ => True where
  here _ := ⟨trivial, rfl⟩
  stable _ _ := trivial
  before {o _} other := by
    cases o with
    | query st => exact absurd rfl (other st)
    | readdir => trivial
    | readFile name => trivial
    | connect => trivial
    | disconnect => trivial
    | exit => trivial
  step _ done _ := ⟨⟨trivial, fun _ => (effect_of_exec done).others⟩, trivial⟩

/-- A statement, from where the runner stands. -/
theorem keeps_query {α : Type} {st : Statement} {f : st.Result → Task α}
    (standing : ∀ s₁ : Database D, s₁.transaction? t = s.transaction? t →
      Before ctx t (.query st) s₁)
    (next : ∀ (now : ℤ) (v : st.Result) (s₁ s' : Database D), s₁.transaction? t = s.transaction? t →
      s₁.exec ctx.executes now t st = some (.ok v, s') → Keeps R t (f v) s') :
    Keeps R t ((query st).bind f) s := by
  rintro s₁ ⟨_, same⟩
  refine ⟨standing s₁ same, fun choice r s' _ done => ?_⟩
  refine ⟨⟨trivial, fun _ => (effect_of_exec done).others⟩, ?_⟩
  obtain ⟨e, rfl, _⟩ | ⟨now, r', executed, rfl | ⟨e, rfl⟩⟩ := exec_query done
  · exact fun _ _ => trivial
  · cases r with
    | ok v => exact next now v s₁ s' same executed
    | error e => exact fun _ _ => trivial
  · exact fun _ _ => trivial

theorem keeps_exit {α : Type} : Keeps R t (exit : Task α) s :=
  holds_exit overlapping_serves trivial fun _ _ _ => trivial

/-- One migration: its content, its record, and then the `COMMIT`. -/
theorem keeps_applyMigration {m : Migration} (mem : m ∈ ctx.migrations) :
    Keeps R t (applyMigration m) s := by
  refine keeps_query (fun _ _ => trivial) fun now _ s₀ s₁ _ begun => ?_
  obtain ⟨-, rfl⟩ := Prod.mk.inj (Option.some.inj begun)
  refine Contract.Holds.attempt (Contract.Holds.mono (Q := fun _ _ => True)
    (E := fun _ _ => True) ?_ (fun _ _ _ => trivial) fun _ s₂ _ _ => ?_) ⟨trivial, rfl⟩
  · have opened := transaction_setTransaction (t := t) [] s₀
    refine keeps_query (fun _ same => ⟨m, mem, rfl, same.trans opened⟩) ?_
    intro now₂ _ s₂ s₃ same executed
    obtain ⟨x, d, known, _, _, rfl⟩ := change_ok (Option.some.inj executed)
    obtain rfl := Option.some.inj ((same.trans opened).symm.trans known)
    have applied := transaction_setTransaction (t := t) [.content m.content] s₂
    refine keeps_query (fun _ same => ⟨m, mem, rfl, rfl, rfl, same.trans applied⟩) ?_
    intro now₃ _ s₄ s₅ same executed
    simp only [Database.exec] at executed
    split at executed
    · cases executed
    · obtain ⟨x, d, known, _, _, rfl⟩ := change_ok (Option.some.inj executed)
      obtain rfl := Option.some.inj ((same.trans applied).symm.trans known)
      have recorded := transaction_setTransaction (t := t) [.content m.content,
        .record ⟨m.version, m.description, now₃, m.checksum⟩] s₄
      rw [← Async.Program.bind_done_right (query .commit)]
      exact keeps_query (fun _ same => ⟨m, mem, now₃, same.trans recorded⟩)
        fun _ _ _ _ _ _ _ _ => trivial
  · exact keeps_query (fun _ _ => trivial) fun _ _ _ _ _ _ => keeps_exit

theorem keeps_applyMigrations (migrations : List Migration)
    (mem : ∀ m ∈ migrations, m ∈ ctx.migrations) : Keeps R t (applyMigrations migrations) s := by
  induction migrations generalizing s with
  | nil => exact fun _ _ => trivial
  | cons m rest ih =>
      refine (keeps_applyMigration (mem m List.mem_cons_self)).chain ⟨trivial, rfl⟩ ?_
      exact fun _ s' _ _ => ih fun m' mem' => mem m' (List.mem_cons_of_mem m mem')

/-- **A runner keeps the discipline.** -/
theorem keeps_runner : Keeps R t (runner ctx) s := by
  refine Contract.Holds.attempt (Contract.Holds.mono (Q := fun _ _ => True)
    (E := fun _ _ => True) ?_ (fun _ _ _ => trivial) fun _ _ _ _ => keeps_exit) ⟨trivial, rfl⟩
  have loading := (holds_loadMigrationFiles (overlapping_serves (R := R) (t := t)) (s := s) trivial)
  refine Contract.Holds.chain (loading.mono (fun _ _ done => done) fun _ _ _ => trivial)
    ⟨trivial, rfl⟩ fun migrations s₁ loaded _ => ?_
  obtain ⟨_, rfl⟩ := loaded
  split
  · exact fun _ _ => trivial
  · refine holds_call overlapping_serves trivial (fun _ other => by cases other) ?_
      fun _ _ _ => trivial
    intro _ _ _ s₂ _ _
    have closes : ∀ s', Keeps R t (call .disconnect) s' := by
      intro s'
      rw [← Async.Program.bind_done_right (call .disconnect)]
      exact holds_call overlapping_serves trivial (fun _ other => by cases other)
        (fun _ _ _ _ _ _ _ _ => trivial) fun _ _ _ => trivial
    refine Contract.Holds.ensuring (Contract.Holds.mono (Q := fun _ _ => True)
      (E := fun _ _ => True) ?_ (fun _ s' _ _ => closes s') fun _ s' _ _ => closes s') ⟨trivial, rfl⟩
    have reads : Keeps R t getAppliedVersions s₂ := by
      refine keeps_query (fun _ _ => trivial) fun _ _ _ s₃ _ _ => ?_
      rw [← Async.Program.bind_done_right (query .selectVersions)]
      exact keeps_query (fun _ _ => trivial) fun _ _ _ _ _ _ _ _ => trivial
    refine reads.chain ⟨trivial, rfl⟩ fun applied s₃ _ _ => ?_
    split
    · exact keeps_exit
    · exact keeps_applyMigrations _ fun m mem => (List.mem_filter.mp mem).1

end Standing

/-! ### What has been applied -/

/-- The content that a change executes. -/
def Change.content? : Change → Option String
  | .content sql => some sql
  | .record _ => none

/-- The texts that the transactions which have committed had executed, in this order. -/
def Database.contents (s : Database D) : List String :=
  s.committed.reverse.flatMap fun c => c.2.filterMap Change.content?

/-- Some migrations have been committed, one after the other, and recorded, and nothing else. -/
structure Applied (ctx : MigrationContext D) (d₀ : Data D) (applied : List Migration)
    (s : Database D) : Prop where
  files : ∀ m ∈ applied, m ∈ ctx.migrations
  contents : s.contents = applied.map Migration.content
  rest : applyContents ctx.executes (applied.map Migration.content) d₀.rest = .ok s.data.rest
  rows : ∃ rows, s.data.rows = d₀.rows ++ rows ∧
    rows.map MigrationRow.stamp = applied.map Migration.stamp

namespace Applied

variable {d₀ : Data D} {applied : List Migration}

theorem start (ctx : MigrationContext D) (d₀ : Data D) : Applied ctx d₀ [] ⟨d₀, [], []⟩ :=
  ⟨List.forall_mem_nil _, rfl, rfl, [], (List.append_nil _).symm, rfl⟩

theorem quiet (h : Applied ctx d₀ applied s) (q : Quiet t s s') : Applied ctx d₀ applied s' := by
  refine ⟨h.files, ?_, ?_, ?_⟩
  · unfold Database.contents
    rw [q.committed]
    exact h.contents
  · rw [q.rest]
    exact h.rest
  · rw [q.rows]
    exact h.rows

/-- One more migration is committed. -/
theorem next {m : Migration} (h : Applied ctx d₀ applied s) (mem : m ∈ ctx.migrations)
    (fresh : m.version ∉ s.data.rows.map MigrationRow.version) {now : ℤ} {data : Data D}
    (done : applyChanges ctx.executes
      [.content m.content, .record ⟨m.version, m.description, now, m.checksum⟩] s.data = .ok data) :
    Applied ctx d₀ (applied ++ [m])
        { s.abort t with data, committed := (t, [.content m.content,
          .record ⟨m.version, m.description, now, m.checksum⟩]) :: s.committed } ∧
      data.rows = s.data.rows ++ [⟨m.version, m.description, now, m.checksum⟩] := by
  obtain ⟨rest, table, executed, known, rfl⟩ := applyChanges_migration done
  have before := rows_of_table known
  have recorded : (table.record ⟨m.version, m.description, now, m.checksum⟩).rows =
      s.data.rows ++ [⟨m.version, m.description, now, m.checksum⟩] := by
    rw [before] at fresh ⊢
    exact record_rows fresh
  refine ⟨⟨?_, ?_, ?_, ?_⟩, recorded⟩
  · intro m' mem'
    rcases List.mem_append.mp mem' with old | new
    · exact h.files m' old
    · rw [List.mem_singleton.mp new]
      exact mem
  · have contents := h.contents
    unfold Database.contents at *
    rw [List.reverse_cons, List.flatMap_append, contents, List.map_append]
    rfl
  · rw [List.map_append, applyContents_append, h.rest]
    simp only [Except.bind, List.map_cons, List.map_nil, applyContents, executed]
  · obtain ⟨rows, split, stamps⟩ := h.rows
    refine ⟨rows ++ [⟨m.version, m.description, now, m.checksum⟩], ?_, ?_⟩
    · rw [← List.append_assoc, ← split]
      exact recorded
    · rw [List.map_append, stamps, List.map_append]
      rfl

/-- What is recorded once was committed once. -/
theorem once (h : Applied ctx d₀ applied s) : (applied.map Migration.version).Nodup ∧
    ∀ m ∈ applied, m.version ∉ d₀.rows.map MigrationRow.version := by
  obtain ⟨rows, split, stamps⟩ := h.rows
  have versions : rows.map MigrationRow.version = applied.map Migration.version := by
    have firsts := congrArg (List.map Prod.fst) stamps
    rw [List.map_map, List.map_map] at firsts
    exact firsts
  have distinct := s.data.versions
  rw [split, List.map_append, versions] at distinct
  obtain ⟨_, nodup, disjoint⟩ := List.nodup_append'.mp distinct
  exact ⟨nodup, fun m mem old => disjoint old (List.mem_map_of_mem mem)⟩

end Applied

/-! ### Every migration at most once -/

/-- The operation is executed. -/
def Choice.executed : Choice → Bool
  | .fails _ => false
  | _ => true

/-- The version that an operation records. -/
def Operation.version? : Operation → Option String
  | .query (.record version _ _) => some version
  | _ => none

/-- An `INSERT` is executed where no row has its version. -/
def MeetsNoRow (c : Choice) (o : Operation) (s : Database D) : Prop :=
  c.executed = true → ∀ version ∈ o.version?, version ∉ s.data.rows.map MigrationRow.version

/-- The runs in which no `INSERT` meets a row of its version.  The `INSERT` of the code takes over
such a row (`ON CONFLICT … DO UPDATE`), so a runner that has read the table before another one has
committed would have the contents executed once more, under the same row. -/
def recordingNew (ctx : MigrationContext D) : Regime (machine ctx) where
  advance _ c o s := MeetsNoRow c o s
  event _ _ := True
  crash _ _ := True

/-- No transaction has recorded what is committed, and no two have recorded the same. -/
structure Once (ctx : MigrationContext D) (d₀ : Data D) (s : Database D) : Prop where
  unrecorded : ∀ x ∈ s.transactions, ∀ version ∈ x.versions,
    version ∉ s.data.rows.map MigrationRow.version
  unique : ∀ x ∈ s.transactions, ∀ y ∈ s.transactions, ∀ version ∈ x.versions,
    version ∈ y.versions → x.owner = y.owner
  applied : ∃ applied, Applied ctx d₀ applied s

namespace Once

variable {d₀ : Data D}

theorem quiet (h : Once ctx d₀ s) (q : Quiet t s s') : Once ctx d₀ s' := by
  have old : ∀ y ∈ s'.transactions, ∀ version ∈ y.versions,
      ∃ x ∈ s.transactions, x.owner = y.owner ∧ version ∈ x.versions := by
    intro y mem version recorded
    rcases q.shrinks y mem with none | ⟨x, mem', owner, same⟩
    · rw [none] at recorded
      cases recorded
    · exact ⟨x, mem', owner, same ▸ recorded⟩
  refine ⟨?_, ?_, ?_⟩
  · intro y mem version recorded
    obtain ⟨x, mem', _, recorded'⟩ := old y mem version recorded
    rw [q.rows]
    exact h.unrecorded x mem' version recorded'
  · intro y mem z mem' version recorded recorded'
    obtain ⟨x, known, owner, here⟩ := old y mem version recorded
    obtain ⟨x', known', owner', here'⟩ := old z mem' version recorded'
    rw [← owner, ← owner']
    exact h.unique x known x' known' version here here'
  · obtain ⟨applied, done⟩ := h.applied
    exact ⟨applied, done.quiet q⟩

/-- A new version is recorded in a transaction. -/
theorem record (h : Once ctx d₀ s) {x : Transaction} {row : MigrationRow}
    (known : s.transaction? t = some x) (unlocked : s.isLocked t row.version = false)
    (fresh : row.version ∉ s.data.rows.map MigrationRow.version) :
    Once ctx d₀ (s.setTransaction { x with changes := x.changes ++ [.record row] }) := by
  have owner := owner_of_transaction known
  have mem := mem_of_transaction known
  -- a transaction of somebody else has recorded neither this version nor one of these
  have apart : ∀ y ∈ (s.abort x.owner).transactions, ∀ version ∈ y.versions,
      version ∉ ({ x with changes := x.changes ++ [.record row] } : Transaction).versions := by
    intro y kept version recorded recorded'
    obtain ⟨mem', other⟩ := List.mem_filter.mp kept
    have other : y.owner ≠ x.owner := of_decide_eq_true other
    rcases Transaction.mem_versions recorded' with old | new
    · exact other (h.unique y mem' x mem version recorded old)
    · cases new
      exact notMem_versions unlocked mem' (owner ▸ other) recorded
  refine ⟨?_, ?_, ?_⟩
  · intro y mem' version recorded
    rcases List.mem_cons.mp mem' with rfl | kept
    · rcases Transaction.mem_versions recorded with old | new
      · exact h.unrecorded x mem version old
      · cases new
        exact fresh
    · exact h.unrecorded y (List.mem_of_mem_filter kept) version recorded
  · intro y mem' z mem'' version recorded recorded'
    rcases List.mem_cons.mp mem' with rfl | kept
    · rcases List.mem_cons.mp mem'' with rfl | kept'
      · rfl
      · exact absurd recorded (apart z kept' version recorded')
    · rcases List.mem_cons.mp mem'' with rfl | kept'
      · exact absurd recorded' (apart y kept version recorded)
      · exact h.unique y (List.mem_of_mem_filter kept) z (List.mem_of_mem_filter kept') version
          recorded recorded'
  · obtain ⟨applied, done⟩ := h.applied
    exact ⟨applied, done.files, done.contents, done.rest, done.rows⟩

/-- A migration is committed. -/
theorem commit (h : Once ctx d₀ s) {m : Migration} (mem : m ∈ ctx.migrations) {now : ℤ}
    {data : Data D}
    (known : s.transaction? t = some ⟨t, [.content m.content,
      .record ⟨m.version, m.description, now, m.checksum⟩], false⟩)
    (done : applyChanges ctx.executes
      [.content m.content, .record ⟨m.version, m.description, now, m.checksum⟩] s.data = .ok data) :
    Once ctx d₀ { s.abort t with data, committed := (t, [.content m.content,
      .record ⟨m.version, m.description, now, m.checksum⟩]) :: s.committed } := by
  have here := mem_of_transaction known
  have recorded : m.version ∈ (⟨t, [.content m.content,
      .record ⟨m.version, m.description, now, m.checksum⟩], false⟩ : Transaction).versions :=
    List.mem_singleton_self _
  obtain ⟨applied, before⟩ := h.applied
  obtain ⟨after, rows⟩ :=
    before.next (t := t) mem (h.unrecorded _ here _ recorded) done
  refine ⟨?_, ?_, _, after⟩
  · intro y kept version recorded'
    obtain ⟨mem', other⟩ := List.mem_filter.mp kept
    show version ∉ data.rows.map MigrationRow.version
    rw [rows, List.map_append]
    intro committed
    rcases List.mem_append.mp committed with old | new
    · exact h.unrecorded y mem' version recorded' old
    · obtain rfl : version = m.version := List.mem_singleton.mp new
      exact of_decide_eq_true other (h.unique y mem' _ here _ recorded' recorded)
  · intro y kept z kept'
    exact h.unique y (List.mem_of_mem_filter kept) z (List.mem_of_mem_filter kept')

/-- **One operation.** -/
theorem advance (h : Once ctx d₀ s) {choice : Choice} {o : Operation} {r : o.Reply}
    (standing : Before ctx t o s) (meets : MeetsNoRow choice o s)
    (done : exec ctx t choice o s = some (r, s')) : Once ctx d₀ s' := by
  by_cases failed : ∃ e, choice = .fails e
  · obtain ⟨e, rfl⟩ := failed
    exact h.quiet (quiet_of_fails done)
  · cases effect_of_exec done with
    | quiet quiet => exact h.quiet quiet
    | recorded now known unlocked =>
        refine h.record known unlocked ?_
        have executed : choice.executed = true := by
          cases choice with
          | succeeds now' => rfl
          | fails e => exact absurd ⟨e, rfl⟩ failed
          | loses now' e => rfl
        exact meets executed _ rfl
    | committed known going applied =>
        obtain ⟨m, mem, now, known'⟩ := standing
        obtain rfl := Option.some.inj (known.symm.trans known')
        exact h.commit mem known' applied

end Once

/-- One file, whose content can be executed any number of times. -/
def seedContext : MigrationContext (List String) where
  directory := some [("003_seed.sql", "INSERT INTO items DEFAULT VALUES")]
  sha256 := fun content => content
  executes := fun sql executed => .ok (executed ++ [sql])

/-- An empty database. -/
def emptyDatabase : Database (List String) := ⟨⟨none, []⟩, [], []⟩

instance (t : Tid) (c : Choice) (o : Operation) (s : Database D) :
    Decidable ((recordingNew ctx).advance t c o s) :=
  inferInstanceAs (Decidable (c.executed = true →
    ∀ version ∈ o.version?, version ∉ s.data.rows.map MigrationRow.version))

instance (e : Empty) (s : Database D) : Decidable ((recordingNew ctx).event e s) :=
  inferInstanceAs (Decidable True)

instance (t : Tid) (s : Database D) : Decidable ((recordingNew ctx).crash t s) :=
  inferInstanceAs (Decidable True)

/-- A runner performs some operations. -/
def goesOn (t : Tid) (n : ℕ) : List (Async.Move (machine ctx) Unit) :=
  List.replicate n (.advance t (.succeeds 0))

/-- Any run. -/
def overlappingRuns (ctx : MigrationContext D) : Regime (machine ctx) where
  advance _ _ _ _ := True
  event _ _ := True
  crash _ _ := True

instance (t : Tid) (c : Choice) (o : Operation) (s : Database D) :
    Decidable ((overlappingRuns ctx).advance t c o s) := inferInstanceAs (Decidable True)

instance (e : Empty) (s : Database D) : Decidable ((overlappingRuns ctx).event e s) :=
  inferInstanceAs (Decidable True)

instance (t : Tid) (s : Database D) : Decidable ((overlappingRuns ctx).crash t s) :=
  inferInstanceAs (Decidable True)

end Migrations

end OrderPlatform
