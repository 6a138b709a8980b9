import OrderPlatform.Outbox.Marking

/-!
# One confirmation for each event

As long as no transaction is rolled back, no process dies and no connection is lost, the broker
confirms at most one message about each row, whatever number of publishers poll at the same time.

A row is published by the call that holds its lock.  The lock is taken when the row is not marked,
and it is given back when the row is marked, or when the broker has rejected the message (`Exclusive`).
A call learns of the answer to its own publication, and of no other, because a process polls one
batch at a time and the calls on its channel are those of one poll (`Wired`).
-/

namespace OrderPlatform

namespace Outbox

open Async (Tid Contract Discipline Regime)

variable {ctx : PublisherContext} {t u : Tid} {s s' : State}

/-- No transaction is rolled back, no process dies, and no connection is lost.  Each of these gives
back rows whose messages the broker has confirmed, and the next poll publishes them again. -/
def steady (ctx : PublisherContext) : Regime (machine ctx) where
  advance := fun _ choice o _ =>
    match choice, o.call with
    | _, .query .rollback => False
    | .unanswered _ _, _ => False
    | _, _ => True
  event := fun e _ =>
    match e with
    | .disconnect _ => False
    | .cut _ => False
    | .closed _ => False
    | .die _ => False
    | _ => True
  crash := fun _ _ => False

/-! ### Locks -/

/-- A session is left alone. -/
structure Database.Apart (u : Tid) (db db' : Database) : Prop where
  transaction : db'.transaction u = db.transaction u
  holder : ∀ id, db'.holder id = some u ↔ db.holder id = some u

namespace Database

variable {db db' db'' : Database}

theorem Apart.refl (u : Tid) (db : Database) : Apart u db db := ⟨rfl, fun _ => .rfl⟩

theorem Apart.trans (h : Apart u db db') (h' : Apart u db' db'') : Apart u db db'' :=
  ⟨h'.transaction.trans h.transaction, fun id => (h'.holder id).trans (h.holder id)⟩

theorem apart_abort (other : u ≠ t) : Apart u db (db.abort t) :=
  ⟨Function.update_of_ne other _ _, fun _ => .rfl⟩

theorem apart_endTransaction (other : u ≠ t) : Apart u db (db.endTransaction t) := by
  refine ⟨Function.update_of_ne other _ _, fun id => ?_⟩
  show (if db.holder id = some t then none else db.holder id) = some u ↔ _
  split
  · rename_i own
    simp [own, other.symm]
  · exact .rfl

/-- Nobody else holds a lock that may be taken. -/
theorem not_held_of_mayLock {id : Uuid} (other : u ≠ t) (free : db.mayLock t id = true) :
    db.holder id ≠ some u := by
  intro held
  simp only [mayLock, held, decide_eq_true_eq] at free
  exact other free

theorem apart_write {w : Write} (other : u ≠ t) (free : db.mayLock t w.id = true) :
    Apart u db (db.write t w) := by
  unfold write
  split
  · refine ⟨Function.update_of_ne other _ _, fun id => ?_⟩
    show Function.update db.holder w.id (some t) id = some u ↔ _
    by_cases same : id = w.id
    · subst same
      simp [not_held_of_mayLock other free, other.symm]
    · rw [Function.update_of_ne same]
  · exact ⟨rfl, fun _ => .rfl⟩

theorem apart_lock {ids : List Uuid} (other : u ≠ t) (free : ∀ id ∈ ids, db.mayLock t id = true) :
    Apart u db (db.lock t ids) := by
  unfold lock
  split
  · refine ⟨rfl, fun id => ?_⟩
    show (if id ∈ ids then some t else db.holder id) = some u ↔ _
    split
    · rename_i mem
      simp [not_held_of_mayLock other (free id mem), other.symm]
    · exact .rfl
  · exact .refl u db

/-- **A statement leaves the other sessions alone.** -/
theorem apart_of_executed {st : Statement} {answer : Option st.Result} (other : u ≠ t)
    (h : db.Executed t st answer db') : Apart u db db' := by
  cases h with
  | rejected running aborted => exact .refl u db
  | failed => exact apart_abort other
  | nested running => exact .refl u db
  | begun free => exact ⟨Function.update_of_ne other _ _, fun _ => .rfl⟩
  | committed running healthy =>
      have ended : Apart u db (db.endTransaction t) := apart_endTransaction other
      exact ⟨ended.transaction, ended.holder⟩
  | idle free => exact .refl u db
  | withdrawn running aborted => exact apart_endTransaction other
  | rolledBack => exact apart_endTransaction other
  | found healthy batch =>
      refine apart_lock other fun id mem => ?_
      obtain ⟨row, found, rfl⟩ := List.mem_map.mp mem
      exact (batch.due row found).2.2
  | marked healthy free => exact apart_write other free
  | postponed healthy free => exact apart_write other free

/-- A session keeps its locks until its transaction ends. -/
theorem holder_of_executed {st : Statement} {answer : Option st.Result} {id : Uuid}
    (goes : st ≠ .commit ∧ st ≠ .rollback) (h : db.Executed t st answer db')
    (held : db.holder id = some u) : db'.holder id = some u := by
  by_cases other : u ≠ t
  · exact ((apart_of_executed other h).holder id).mpr held
  obtain rfl : u = t := not_not.mp other
  have written : ∀ w : Write, (db.write u w).holder id = some u := by
    intro w
    unfold write
    split
    · show Function.update db.holder w.id (some u) id = some u
      by_cases same : id = w.id
      · rw [same, Function.update_self]
      · rw [Function.update_of_ne same]
        exact held
    · exact held
  cases h with
  | committed running healthy => exact absurd rfl goes.1
  | idle free => exact absurd rfl goes.1
  | withdrawn running aborted => exact absurd rfl goes.1
  | rolledBack => exact absurd rfl goes.2
  | found healthy batch =>
      unfold lock
      split
      · show (if id ∈ _ then some u else db.holder id) = some u
        split
        · rfl
        · exact held
      · exact held
  | marked healthy free => exact written _
  | postponed healthy free => exact written _
  | _ => exact held

end Database

/-! ### Marked rows stay marked -/

/-- The row of an event is marked. -/
def OutboxTable.Published (T : OutboxTable) (id : Uuid) : Prop :=
  ∃ row ∈ T.rows, row.id = id ∧ row.publishedAt.isSome

namespace OutboxTable

variable {T T' : OutboxTable} {id : Uuid}

theorem published_apply (w : Write) (h : T.Published id) : (T.apply w).Published id := by
  obtain ⟨row, mem, rfl, published⟩ := h
  refine ⟨w.onRow row, List.mem_map_of_mem mem, by simp, ?_⟩
  unfold Write.onRow
  split
  · cases w with
    | published id now v => rfl
    | failed id attempts e next now => exact published
  · exact published

theorem published_applyAll (ws : List Write) :
    ∀ {T : OutboxTable}, T.Published id → (T.applyAll ws).Published id := by
  induction ws with
  | nil => exact fun h => h
  | cons w rest ih => exact fun h => ih (published_apply w h)

/-- A transaction that has marked a row leaves it marked. -/
theorem published_of_write {now : ℤ} (ws : List Write) (mem : Write.published id now u ∈ ws) :
    ∀ {T : OutboxTable}, (∃ row ∈ T.rows, row.id = id) → (T.applyAll ws).Published id := by
  induction ws with
  | nil => cases mem
  | cons w rest ih =>
      rintro T ⟨row, here, rfl⟩
      rcases List.mem_cons.mp mem with rfl | later
      · refine published_applyAll rest ⟨_, List.mem_map_of_mem here, by simp, ?_⟩
        simp [Write.onRow, Write.id, Write.update]
      · exact ih later ⟨_, List.mem_map_of_mem here, by simp⟩

theorem published_insert {row : OutboxRow} (h : T.Published id) (added : T.insert row = some T') :
    T'.Published id := by
  unfold insert at added
  split at added
  · cases added
    obtain ⟨old, mem, same⟩ := h
    exact ⟨old, List.mem_cons_of_mem _ mem, same⟩
  · cases added

end OutboxTable

theorem Database.published_of_executed {db db' : Database} {st : Statement}
    {answer : Option st.Result} {id : Uuid} (h : db.Executed t st answer db')
    (published : db.table.Published id) : db'.table.Published id := by
  have written : ∀ w : Write, (db.write t w).table.Published id := by
    intro w
    have table : (db.write t w).table = db.table ∨ (db.write t w).table = db.table.apply w :=
      Database.write_table
    rcases table with same | applied
    · rw [same]
      exact published
    · rw [applied]
      exact OutboxTable.published_apply w published
  cases h with
  | committed running healthy => exact OutboxTable.published_applyAll _ published
  | found healthy batch =>
      rw [Database.lock_table]
      exact published
  | marked healthy free => exact written _
  | postponed healthy free => exact written _
  | _ => exact published

/-! ### The channels -/

/-- Connections and polls: a process polls one batch at a time, and what is waited for on its
channels has been published by that poll. -/
structure Wired (s : State) : Prop where
  /-- Connections are made in the order of their numbers. -/
  fresh : ∀ c, s.server.nextConnection ≤ c → s.server.connections c = none
  live : ∀ c x, s.server.connections c = some x → x.live = true
  owner : ∀ w p c, s.processes w = some p → p.channel = some c →
    ∃ x, s.server.connections c = some x ∧ x.owner = w
  scheduled : ∀ w p u, s.processes w = some p → p.polling = some u → p.scheduled = false
  waiting : ∀ pub ∈ s.publications, pub.answer = none →
    ∃ x p, s.server.connections pub.connection = some x ∧ s.processes x.owner = some p ∧
      p.polling = some pub.session

/-- A connection is that of a process. -/
def Owned (w c : ℕ) (s : State) : Prop := ∃ x, s.server.connections c = some x ∧ x.owner = w

/-- A process polls by this call. -/
def Polls (t : Tid) (w : ℕ) (s : State) : Prop :=
  ∃ p, s.processes w = some p ∧ p.polling = some t

namespace Wired

theorem initial : Wired .initial where
  fresh _ _ := rfl
  live c x known := by
    change none = some x at known
    cases known
  owner w p c known := by
    change none = some p at known
    cases known
  scheduled w p u known := by
    change none = some p at known
    cases known
  waiting _ mem := absurd mem List.not_mem_nil

/-- A process changes, and goes on to poll as it did. -/
theorem setProcess {w : ℕ} {p p' : Publisher} (inv : Wired s) (process : s.processes w = some p)
    (channel : ∀ c, p'.channel = some c → p.channel = some c ∨ Owned w c s)
    (scheduled : p'.polling.isSome → p'.scheduled = false)
    (waiting : ∀ pub ∈ s.publications, pub.answer = none → Owned w pub.connection s →
      p.polling = some pub.session → p'.polling = some pub.session) : Wired (s.setProcess w p') := by
  have cases' : ∀ v q, (s.setProcess w p').processes v = some q →
      (v = w ∧ q = p') ∨ (v ≠ w ∧ s.processes v = some q) := by
    intro v q known
    have known : Function.update s.processes w (some p') v = some q := known
    by_cases same : v = w
    · subst same
      rw [Function.update_self] at known
      exact .inl ⟨rfl, (Option.some.inj known).symm⟩
    · rw [Function.update_of_ne same] at known
      exact .inr ⟨same, known⟩
  refine ⟨inv.fresh, inv.live, ?_, ?_, ?_⟩
  · intro v q c known stored
    rcases cases' v q known with ⟨rfl, rfl⟩ | ⟨_, known⟩
    · rcases channel c stored with before | owned
      · exact inv.owner v p c process before
      · exact owned
    · exact inv.owner v q c known stored
  · intro v q u known polling
    rcases cases' v q known with ⟨rfl, rfl⟩ | ⟨_, known⟩
    · exact scheduled (by rw [polling]; rfl)
    · exact inv.scheduled v q u known polling
  · intro pub mem open'
    obtain ⟨x, q, connection, known, polling⟩ := inv.waiting pub mem open'
    by_cases same : x.owner = w
    · rw [same] at known
      obtain rfl := Option.some.inj (process.symm.trans known)
      refine ⟨x, p', connection, ?_, waiting pub mem open' ⟨x, connection, same⟩ polling⟩
      show Function.update s.processes w (some p') x.owner = some p'
      rw [same, Function.update_self]
    · refine ⟨x, q, connection, ?_, polling⟩
      show Function.update s.processes w (some p') x.owner = some q
      rw [Function.update_of_ne same]
      exact known

/-- The broker changes, and no connection is lost. -/
theorem settle {server : Rabbit.Server} (inv : Wired s) (step : s.server.Settles server)
    (live : ∀ c x, server.connections c = some x → x.live = true) : Wired { s with server } := by
  have later : ∀ c x, s.server.connections c = some x →
      ∃ x', server.connections c = some x' ∧ x'.owner = x.owner := by
    intro c x known
    obtain ⟨x', known', owner, _⟩ := step.connections c x known
    exact ⟨x', known', owner⟩
  refine ⟨?_, live, ?_, inv.scheduled, ?_⟩
  · intro c le
    obtain ⟨le', none⟩ := step.fresh c le
    exact none (inv.fresh c le')
  · intro w p c known stored
    obtain ⟨x, connection, owner⟩ := inv.owner w p c known stored
    obtain ⟨x', connection', owner'⟩ := later c x connection
    exact ⟨x', connection', owner'.trans owner⟩
  · intro pub mem open'
    obtain ⟨x, p, connection, known, polling⟩ := inv.waiting pub mem open'
    obtain ⟨x', connection', owner'⟩ := later _ x connection
    exact ⟨x', p, connection', by rw [owner']; exact known, polling⟩

/-- The connections are left alone. -/
theorem same {server : Rabbit.Server} (inv : Wired s)
    (connections : server.connections = s.server.connections)
    (next : server.nextConnection = s.server.nextConnection)
    (unacked : server.unacked = s.server.unacked) : Wired { s with server } := by
  refine inv.settle (.of_same connections next (unacked ▸ List.Sublist.refl _)) ?_
  rw [connections]
  exact inv.live

/-- What is published is answered later. -/
theorem answered {i : ℕ} {b : Bool} (inv : Wired s) : Wired (s.setAnswer i b) := by
  refine ⟨inv.fresh, inv.live, inv.owner, inv.scheduled, ?_⟩
  intro pub mem open'
  obtain ⟨j, found⟩ := List.mem_iff_getElem?.mp mem
  obtain ⟨old, known, rfl⟩ := publication_setAnswer found
  split at open'
  · cases open'
  · rename_i other
    rw [if_neg other]
    exact inv.waiting old (List.mem_of_getElem? known) open'

/-- A poll publishes. -/
theorem publish {w : ℕ} {pub : Publication} (inv : Wired s) (owned : Owned w pub.connection s)
    (polls : Polls pub.session w s) : Wired { s with publications := s.publications ++ [pub] } := by
  refine ⟨inv.fresh, inv.live, inv.owner, inv.scheduled, ?_⟩
  intro pub' mem open'
  rcases List.mem_append.mp mem with old | new
  · exact inv.waiting pub' old open'
  · rw [List.mem_singleton.mp new]
    obtain ⟨x, connection, rfl⟩ := owned
    obtain ⟨p, process, polling⟩ := polls
    exact ⟨x, p, connection, process, polling⟩

end Wired

/-! ### The locks -/

/-- No message about a row is under way, and none has been confirmed. -/
def Unsent (id : Uuid) (s : State) : Prop :=
  ∀ pub ∈ s.publications, pub.rowId = id → pub.answer = some false

/-- What is there after a publication. -/
theorem publication_concat {publications : List Publication} {pub pub' : Publication} {i : ℕ}
    (h : (publications ++ [pub])[i]? = some pub') :
    publications[i]? = some pub' ∨ (i = publications.length ∧ pub' = pub) := by
  rcases Nat.lt_or_ge i publications.length with lt | ge
  · rw [List.getElem?_append_left lt] at h
    exact .inl h
  · rw [List.getElem?_append_right ge] at h
    obtain ⟨bound, last⟩ := List.getElem?_eq_some_iff.mp h
    have first : i - publications.length = 0 := by simpa using bound
    refine .inr ⟨by omega, ?_⟩
    rw [← last]
    simp [first]

/-- A row is published by the call that holds its lock, and by one call at a time. -/
structure Exclusive (s : State) : Prop where
  held : ∀ pub ∈ s.publications, pub.answer ≠ some false →
    s.db.holder pub.rowId = some pub.session ∨
      (pub.answer = some true ∧ s.db.table.Published pub.rowId)
  single : ∀ (i j : ℕ) (pub pub' : Publication), s.publications[i]? = some pub →
    s.publications[j]? = some pub' → pub.rowId = pub'.rowId → pub.answer ≠ some false →
    pub'.answer ≠ some false → i = j
  stored : ∀ pub ∈ s.publications, ∃ row ∈ s.db.table.rows, row.id = pub.rowId

namespace Exclusive

theorem initial : Exclusive .initial where
  held _ mem := absurd mem List.not_mem_nil
  single i j pub pub' known := by
    change none = some pub at known
    cases known
  stored _ mem := absurd mem List.not_mem_nil

/-- The publications are left alone, and locks are given back for marked rows only. -/
theorem later (inv : Exclusive s) (grows : Grows s s')
    (publications : s'.publications = s.publications)
    (held : ∀ pub ∈ s.publications, pub.answer ≠ some false →
      s.db.holder pub.rowId = some pub.session → s'.db.holder pub.rowId = some pub.session ∨
        (pub.answer = some true ∧ s'.db.table.Published pub.rowId))
    (published : ∀ id, s.db.table.Published id → s'.db.table.Published id) : Exclusive s' := by
  refine ⟨?_, ?_, ?_⟩
  · rw [publications]
    intro pub mem sent
    rcases inv.held pub mem sent with here | ⟨confirmed, marked⟩
    · exact held pub mem sent here
    · exact .inr ⟨confirmed, published _ marked⟩
  · rw [publications]
    exact inv.single
  · rw [publications]
    intro pub mem
    obtain ⟨row, here, same⟩ := inv.stored pub mem
    obtain ⟨row', here', event⟩ := grows.rows row here
    exact ⟨row', here', event.id.trans same⟩

/-- Neither locks nor rows change. -/
theorem same {server : Rabbit.Server} {processes : ℕ → Option Publisher} (inv : Exclusive s) :
    Exclusive ⟨s.db, server, s.publications, processes⟩ :=
  inv.later (.of_same rfl rfl) rfl (fun _ _ _ held => .inl held) fun _ known => known

/-- What is published is answered. -/
theorem answered {i : ℕ} {b : Bool} {server : Rabbit.Server} {pub : Publication} (inv : Exclusive s)
    (pending : s.pending i = some pub) : Exclusive { s.setAnswer i b with server } := by
  obtain ⟨found, open', _⟩ := pending_eq pending
  -- a publication that is not rejected now was not rejected before
  have before : ∀ (j : ℕ) (pub' : Publication),
      (s.setAnswer i b).publications[j]? = some pub' → ∃ old, s.publications[j]? = some old ∧
        pub'.rowId = old.rowId ∧ pub'.session = old.session ∧
        (pub'.answer ≠ some false → old.answer ≠ some false) ∧
        (old.answer = some true → pub'.answer = some true) := by
    intro j pub' after
    obtain ⟨old, known, rfl⟩ := publication_setAnswer after
    refine ⟨old, known, ?_, ?_, ?_, ?_⟩
    · split <;> rfl
    · split <;> rfl
    · intro sent
      split at sent
      · rename_i here
        subst here
        obtain rfl := Option.some.inj (found.symm.trans known)
        simp [open']
      · exact sent
    · intro confirmed
      split
      · rename_i here
        subst here
        obtain rfl := Option.some.inj (found.symm.trans known)
        rw [open'] at confirmed
        cases confirmed
      · exact confirmed
  refine ⟨?_, ?_, ?_⟩
  · intro pub' mem sent
    obtain ⟨j, known⟩ := List.mem_iff_getElem?.mp mem
    obtain ⟨old, here, rowId, session, sent', confirmed⟩ := before j pub' known
    rw [rowId, session]
    rcases inv.held old (List.mem_of_getElem? here) (sent' sent) with held | ⟨yes, marked⟩
    · exact .inl held
    · exact .inr ⟨confirmed yes, marked⟩
  · intro j k a a' known known' same sent sent'
    obtain ⟨old, here, rowId, _, was, _⟩ := before j a known
    obtain ⟨old', here', rowId', _, was', _⟩ := before k a' known'
    exact inv.single j k old old' here here' (rowId.symm.trans (same.trans rowId')) (was sent)
      (was' sent')
  · intro pub' mem
    obtain ⟨j, known⟩ := List.mem_iff_getElem?.mp mem
    obtain ⟨old, here, rowId, _⟩ := before j pub' known
    rw [rowId]
    exact inv.stored old (List.mem_of_getElem? here)

/-- A row is published for the first time, or after its message has been rejected. -/
theorem publish {pub : Publication} (inv : Exclusive s)
    (held : s.db.holder pub.rowId = some pub.session) (unsent : Unsent pub.rowId s)
    (row : ∃ row ∈ s.db.table.rows, row.id = pub.rowId) :
    Exclusive { s with publications := s.publications ++ [pub] } := by
  refine ⟨?_, ?_, ?_⟩
  · intro pub' mem sent
    rcases List.mem_append.mp mem with old | new
    · exact inv.held pub' old sent
    · rw [List.mem_singleton.mp new]
      exact .inl held
  · intro i j a a' known known' same sent sent'
    rcases publication_concat known with old | ⟨rfl, rfl⟩
    · rcases publication_concat known' with old' | ⟨rfl, rfl⟩
      · exact inv.single i j a a' old old' same sent sent'
      · exact absurd (unsent a (List.mem_of_getElem? old) same) sent
    · rcases publication_concat known' with old' | ⟨rfl, rfl⟩
      · exact absurd (unsent a' (List.mem_of_getElem? old') same.symm) sent'
      · rfl
  · intro pub' mem
    rcases List.mem_append.mp mem with old | new
    · exact inv.stored pub' old
    · rw [List.mem_singleton.mp new]
      exact row

end Exclusive

/-! ### What the calls agree on -/

/-- The transaction of a call has marked a row. -/
def Marked (t : Tid) (id : Uuid) (s : State) : Prop :=
  ∃ tx, s.db.transaction t = some tx ∧ ∃ now u, Write.published id now u ∈ tx.writes

/-- The transaction of a call goes on. -/
def Running (t : Tid) (s : State) : Prop :=
  ∃ tx, s.db.transaction t = some tx ∧ tx.aborted = false

/-- The publications of a call, but for one that it is dealing with, have been answered, and the rows
of those that have been confirmed are marked. -/
def Accounted (t : Tid) (exempt : List ℕ) (s : State) : Prop :=
  ∀ (i : ℕ) (pub : Publication), s.publications[i]? = some pub → pub.session = t → i ∉ exempt →
    pub.answer ≠ none ∧ (pub.answer = some true → Marked t pub.rowId s)

/-- The publications of a call have been answered. -/
def Answered (t : Tid) (s : State) : Prop :=
  ∀ pub ∈ s.publications, pub.session = t → pub.answer ≠ none

/-- A call has published nothing. -/
def Silent (t : Tid) (s : State) : Prop := ∀ pub ∈ s.publications, pub.session ≠ t

/-- A call has the lock on a row about which nothing has been sent. -/
def Claims (t : Tid) (row : OutboxRow) (s : State) : Prop :=
  s.db.holder row.id = some t ∧ Unsent row.id s

/-- What a call tolerates: its transaction, its locks and its publications are left to it. -/
structure Rely (t : Tid) (s s' : State) : Prop where
  grows : Grows s s'
  apart : s.db.Apart t s'.db
  others : ∀ (i : ℕ) (pub : Publication), s'.publications[i]? = some pub →
    s.publications[i]? = none → pub.session ≠ t ∧ s.db.holder pub.rowId ≠ some t
  polls : ∀ w, Polls t w s → Polls t w s'
  owned : ∀ w c, Owned w c s → Owned w c s'

namespace Rely

theorem refl (t : Tid) (s : State) : Rely t s s where
  grows := .refl s
  apart := .refl t s.db
  others := by
    intro i pub known none
    rw [known] at none
    cases none
  polls _ h := h
  owned _ _ h := h

theorem trans {s'' : State} (h : Rely t s s') (h' : Rely t s' s'') : Rely t s s'' where
  grows := h.grows.trans h'.grows
  apart := h.apart.trans h'.apart
  others := by
    intro i pub known none
    cases middle : s'.publications[i]? with
    | none =>
        obtain ⟨session, holder⟩ := h'.others i pub known middle
        exact ⟨session, fun held => holder ((h.apart.holder _).mpr held)⟩
    | some before =>
        obtain ⟨session, holder⟩ := h.others i before middle none
        obtain ⟨after, known', later⟩ := h'.grows.publications i before middle
        obtain rfl := Option.some.inj (known.symm.trans known')
        rw [later.same]
        exact ⟨session, holder⟩
  polls w here := h'.polls w (h.polls w here)
  owned w c here := h'.owned w c (h.owned w c here)

/-- The publications are those that there were, up to their answers. -/
theorem of_answers (grows : Grows s s') (apart : s.db.Apart t s'.db)
    (length : s'.publications.length = s.publications.length)
    (polls : ∀ w, Polls t w s → Polls t w s') (owned : ∀ w c, Owned w c s → Owned w c s') :
    Rely t s s' := by
  refine ⟨grows, apart, ?_, polls, owned⟩
  intro i pub known none
  obtain ⟨lt, _⟩ := List.getElem?_eq_some_iff.mp known
  rw [length] at lt
  rw [List.getElem?_eq_none_iff] at none
  omega

end Rely

theorem Marked.later {id : Uuid} (h : Marked t id s) (step : s.db.Apart t s'.db) :
    Marked t id s' := by
  obtain ⟨tx, running, written⟩ := h
  exact ⟨tx, step.transaction.trans running, written⟩

theorem Running.later (h : Running t s) (step : s.db.Apart t s'.db) : Running t s' := by
  obtain ⟨tx, running, healthy⟩ := h
  exact ⟨tx, step.transaction.trans running, healthy⟩

/-- Where a publication of a call comes from. -/
theorem Rely.own {i : ℕ} {pub : Publication} (step : Rely t s s')
    (known : s'.publications[i]? = some pub) (own : pub.session = t) :
    ∃ before, s.publications[i]? = some before ∧ before.Later pub := by
  cases middle : s.publications[i]? with
  | none => exact absurd own (step.others i pub known middle).1
  | some before =>
      obtain ⟨after, known', later⟩ := step.grows.publications i before middle
      obtain rfl := Option.some.inj (known.symm.trans known')
      exact ⟨before, rfl, later⟩

theorem Publication.Later.answered {pub pub' : Publication} (later : pub.Later pub')
    (answered : pub.answer ≠ none) : pub'.answer = pub.answer := by
  obtain ⟨b, known⟩ := Option.ne_none_iff_exists'.mp answered
  rw [known]
  exact later.answer b known

theorem Accounted.later {exempt : List ℕ} (h : Accounted t exempt s) (step : Rely t s s') :
    Accounted t exempt s' := by
  intro i pub known own other
  obtain ⟨before, here, later⟩ := step.own known own
  have session : before.session = t := by
    rw [later.same] at own
    exact own
  obtain ⟨answered, marked⟩ := h i before here session other
  have same := later.answered answered
  rw [same]
  refine ⟨answered, fun confirmed => ?_⟩
  rw [later.same]
  exact (marked confirmed).later step.apart

theorem Answered.later (h : Answered t s) (step : Rely t s s') : Answered t s' := by
  intro pub mem own
  obtain ⟨i, known⟩ := List.mem_iff_getElem?.mp mem
  obtain ⟨before, here, later⟩ := step.own known own
  have session : before.session = t := by
    rw [later.same] at own
    exact own
  have answered := h before (List.mem_of_getElem? here) session
  rw [later.answered answered]
  exact answered

theorem Silent.later (h : Silent t s) (step : Rely t s s') : Silent t s' := by
  intro pub mem own
  obtain ⟨i, known⟩ := List.mem_iff_getElem?.mp mem
  obtain ⟨before, here, later⟩ := step.own known own
  rw [later.same] at own
  exact h before (List.mem_of_getElem? here) own

theorem Claims.later {row : OutboxRow} (h : Claims t row s) (step : Rely t s s') :
    Claims t row s' := by
  refine ⟨(step.apart.holder row.id).mpr h.1, fun pub mem same => ?_⟩
  obtain ⟨i, known⟩ := List.mem_iff_getElem?.mp mem
  cases middle : s.publications[i]? with
  | none =>
      have free := (step.others i pub known middle).2
      rw [same] at free
      exact absurd h.1 free
  | some before =>
      obtain ⟨after, known', later⟩ := step.grows.publications i before middle
      obtain rfl := Option.some.inj (known.symm.trans known')
      rw [later.same] at same
      exact later.answer false (h.2 before (List.mem_of_getElem? middle) same)

/-- What is true when a call awaits something in a steady run. -/
def Standing (t : Tid) (o : Operation) (s : State) : Prop :=
  match o.call with
  | .settled => Polls t o.process s ∧ Answered t s
  | .createConfirmChannel c => Owned o.process c s
  | .publish c row =>
      Owned o.process c s ∧ Polls t o.process s ∧ Claims t row s ∧ Known row s
  | .query .commit => Running t s ∧ Accounted t [] s
  | _ => True

/-- What all calls agree on in steady runs. -/
def steadyDiscipline (ctx : PublisherContext) : Discipline (machine ctx) where
  inv s := Wired s ∧ Exclusive s
  fresh := fun t s => Silent t s ∧ s.db.transaction t = none
  before := Standing
  rely := Rely
  rely_refl := Rely.refl
  rely_trans := Rely.trans
  fresh_rely := fun fresh step => ⟨fresh.1.later step, step.apart.transaction.trans fresh.2⟩

/-! ### What one call does to the others -/

theorem polls_setProcess {w v : ℕ} {p p' : Publisher} (process : s.processes w = some p)
    (same : p.polling = some u → p'.polling = some u) (h : Polls u v s) :
    Polls u v (s.setProcess w p') := by
  obtain ⟨q, known, polling⟩ := h
  by_cases equal : v = w
  · subst equal
    obtain rfl := Option.some.inj (process.symm.trans known)
    exact ⟨p', Function.update_self .., same polling⟩
  · exact ⟨q, (Function.update_of_ne equal _ _).trans known, polling⟩

theorem owned_of_settles {w c : ℕ} (step : s.server.Settles s'.server) (h : Owned w c s) :
    Owned w c s' := by
  obtain ⟨x, known, owner⟩ := h
  obtain ⟨x', known', same, _⟩ := step.connections c x known
  exact ⟨x', known', same.trans owner⟩

/-- A process polls by one call. -/
theorem Polls.unique {w : ℕ} (h : Polls t w s) (h' : Polls u w s) : t = u := by
  obtain ⟨p, process, polling⟩ := h
  obtain ⟨p', process', polling'⟩ := h'
  obtain rfl := Option.some.inj (process.symm.trans process')
  exact Option.some.inj (polling.symm.trans polling')

/-- What a step of call `t` leaves, and what it does to the others. -/
def Respects (t : Tid) (s s' : State) : Prop :=
  (Wired s' ∧ Exclusive s') ∧ ∀ u, u ≠ t → Rely u s s'

theorem respects_refl (inv : Wired s ∧ Exclusive s) : Respects t s s :=
  ⟨inv, fun u _ => .refl u s⟩

section Step

variable {w : ℕ} {p : Publisher}

/-- A change of the database. -/
theorem respects_db {db : Database} (inv : Wired s ∧ Exclusive s) (stays : Stays s.db.table db.table)
    (held : ∀ pub ∈ s.publications, pub.answer ≠ some false →
      s.db.holder pub.rowId = some pub.session → db.holder pub.rowId = some pub.session ∨
        (pub.answer = some true ∧ db.table.Published pub.rowId))
    (published : ∀ id, s.db.table.Published id → db.table.Published id)
    (apart : ∀ u, u ≠ t → s.db.Apart u db) : Respects t s { s with db } := by
  have grows : Grows s { s with db } := .of_rows stays rfl
  refine ⟨⟨?_, inv.2.later grows rfl held published⟩, fun u other => ?_⟩
  · exact ⟨inv.1.fresh, inv.1.live, inv.1.owner, inv.1.scheduled, inv.1.waiting⟩
  · exact .of_answers grows (apart u other) rfl (fun _ h => h) fun _ _ h => h

/-- **A commit gives back the locks of marked rows.** -/
theorem respects_commit {tx : Transaction} (inv : Wired s ∧ Exclusive s)
    (running : s.db.transaction t = some tx) (accounted : Accounted t [] s) :
    Respects t s { s with
      db := { s.db.endTransaction t with table := s.db.table.applyAll tx.writes } } := by
  refine respects_db inv (.applyAll tx.writes _) ?_
    (fun id known => OutboxTable.published_applyAll tx.writes known) ?_
  · intro pub mem sent held
    by_cases own : pub.session = t
    · obtain ⟨i, known⟩ := List.mem_iff_getElem?.mp mem
      obtain ⟨answered, marked⟩ := accounted i pub known own List.not_mem_nil
      have confirmed : pub.answer = some true := by
        obtain ⟨b, answer⟩ := Option.ne_none_iff_exists'.mp answered
        cases b with
        | true => exact answer
        | false => exact absurd answer sent
      obtain ⟨tx', running', now, v, written⟩ := marked confirmed
      obtain rfl := Option.some.inj (running.symm.trans running')
      exact .inr ⟨confirmed,
        OutboxTable.published_of_write tx.writes written (inv.2.stored pub mem)⟩
    · exact .inl ((Database.apart_endTransaction own |>.holder pub.rowId).mpr held)
  · intro u other
    have ended : s.db.Apart u (s.db.endTransaction t) := Database.apart_endTransaction other
    exact ⟨ended.transaction, ended.holder⟩

theorem respects_query {st : Statement} {choice : Choice} {r : Except String st.Result}
    (inv : Wired s ∧ Exclusive s) (standing : Standing t ⟨w, .query st⟩ s)
    (allowed : (steady ctx).advance t choice ⟨w, .query st⟩ s)
    (done : perform ctx t w p choice (.query st) s = some (r, s')) : Respects t s s' := by
  have known : st ≠ .rollback := by
    rintro rfl
    exact allowed
  obtain ⟨_, rfl, _, rfl⟩ |
    ⟨_, answer, db, executed, ⟨ids, rfl, _, rfl⟩ | ⟨ids, e, rfl, _, _⟩⟩ := perform_query done
  · exact respects_db inv (.refl _) (fun _ _ _ held => .inl held) (fun _ marked => marked)
      fun u other => Database.apart_abort other
  · by_cases ends : st = .commit
    · subst ends
      obtain ⟨⟨tx, running, healthy⟩, accounted⟩ := standing
      cases executed with
      | rejected running aborted => exact respects_refl inv
      | failed =>
          exact respects_db inv (.refl _) (fun _ _ _ held => .inl held) (fun _ marked => marked)
            fun u other => Database.apart_abort other
      | committed running' _ => exact respects_commit inv running' accounted
      | idle free =>
          rw [running] at free
          cases free
      | withdrawn running' aborted =>
          obtain rfl := Option.some.inj (running.symm.trans running')
          rw [healthy] at aborted
          cases aborted
    · exact respects_db inv (stays_of_executed executed)
        (fun _ _ _ held => .inl (Database.holder_of_executed ⟨ends, known⟩ executed held))
        (fun _ marked => Database.published_of_executed executed marked)
        fun u other => Database.apart_of_executed other executed
  · cases st <;> exact absurd allowed id

theorem respects_publish {c : ℕ} {row : OutboxRow} {choice : Choice}
    {r : Except String (List ℕ)} (inv : Wired s ∧ Exclusive s)
    (standing : Standing t ⟨w, .publish c row⟩ s)
    (done : perform ctx t w p choice (.publish c row) s = some (r, s')) : Respects t s s' := by
  obtain ⟨owned, polls, ⟨held, unsent⟩, row', stored, same⟩ := standing
  obtain ⟨_, _, rfl⟩ | ⟨now, _, rfl, _⟩ := perform_publish done
  · exact respects_refl inv
  · refine ⟨⟨inv.1.publish owned polls, inv.2.publish held unsent ⟨row', stored, same.id⟩⟩,
      fun u other => ⟨grows_of_perform done, .refl u _, ?_, fun _ h => h, fun _ _ h => h⟩⟩
    intro i pub known new
    rcases publication_concat known with old | ⟨_, rfl⟩
    · rw [old] at new
      cases new
    refine ⟨other.symm, fun theirs => ?_⟩
    exact other (Option.some.inj (theirs.symm.trans held))

/-- A process changes. -/
theorem respects_process {p' : Publisher} (inv : Wired s ∧ Exclusive s)
    (process : s.processes w = some p) (wired : Wired (s.setProcess w p'))
    (polls : ∀ u, u ≠ t → p.polling = some u → p'.polling = some u) :
    Respects t s (s.setProcess w p') :=
  ⟨⟨wired, inv.2.same⟩, fun u other => .of_answers (.of_same rfl rfl) (.refl u _) rfl
    (fun _ h => polls_setProcess process (polls u other) h) fun _ _ h => h⟩

theorem respects_server {server : Rabbit.Server} (inv : Wired s ∧ Exclusive s)
    (step : s.server.Settles server)
    (live : ∀ c x, server.connections c = some x → x.live = true) : Respects t s { s with server } :=
  ⟨⟨inv.1.settle step live, inv.2.same⟩, fun u _ =>
    .of_answers (.of_same rfl rfl) (.refl u _) rfl (fun _ h => h)
      fun w c h => (owned_of_settles step h : Owned w c { s with server })⟩

theorem live_updateConnection {c : ℕ} {f : Rabbit.Connection → Rabbit.Connection} (inv : Wired s)
    (same : ∀ x, (f x).live = x.live) :
    ∀ c' x, (s.server.updateConnection c f).connections c' = some x → x.live = true := by
  intro c' x known
  have known : Function.update s.server.connections c ((s.server.connections c).map f) c' =
    some x := known
  by_cases equal : c' = c
  · subst equal
    rw [Function.update_self] at known
    obtain ⟨old, before, rfl⟩ := Option.map_eq_some_iff.mp known
    exact (same old).trans (inv.live c' old before)
  · rw [Function.update_of_ne equal] at known
    exact inv.live c' x known

/-- **What one call leaves, and what it does to the others.** -/
theorem respects_of_perform {c : Call} {choice : Choice} {r : Except String c.Result}
    (inv : Wired s ∧ Exclusive s) (standing : Standing t ⟨w, c⟩ s)
    (allowed : (steady ctx).advance t choice ⟨w, c⟩ s) (process : s.processes w = some p)
    (done : perform ctx t w p choice c s = some (r, s')) : Respects t s s' := by
  cases c with
  | query st => exact respects_query inv standing allowed done
  | publish connection row => exact respects_publish inv standing done
  | acquire => rw [perform_plain (.inl rfl) done]; exact respects_refl inv
  | release => rw [perform_plain (.inr (.inl rfl)) done]; exact respects_refl inv
  | count => rw [perform_plain (.inr (.inr (.inl rfl))) done]; exact respects_refl inv
  | ping => rw [perform_plain (.inr (.inr (.inr rfl))) done]; exact respects_refl inv
  | channel => rw [(perform_channel done).2]; exact respects_refl inv
  | waitForConfirms connection awaited =>
      rw [(perform_waitForConfirms done).1]
      exact respects_refl inv
  | enter =>
      obtain ⟨scheduled, _, rfl⟩ := perform_enter done
      -- nobody polls in this process, so nothing is waited for on its channels
      have idle : p.polling = none := by
        cases polling : p.polling with
        | none => rfl
        | some u =>
            rw [inv.1.scheduled w p u process polling] at scheduled
            cases scheduled
      refine respects_process inv process (inv.1.setProcess process (fun _ h => .inl h)
        (fun _ => rfl) ?_) fun u _ polling => ?_
      · intro _ _ _ _ polling
        rw [idle] at polling
        cases polling
      · rw [idle] at polling
        cases polling
  | settled =>
      obtain ⟨_, rfl⟩ := perform_settled done
      obtain ⟨polls, answered⟩ := standing
      have own : ∀ u, p.polling = some u → u = t := fun u polling =>
        Polls.unique ⟨p, process, polling⟩ polls
      refine respects_process inv process (inv.1.setProcess process (fun _ h => .inl h)
        (fun some => by cases some) ?_) fun u other polling => absurd (own u polling) other
      exact fun pub mem open' _ polling => absurd open' (answered pub mem (own _ polling))
  | connect =>
      obtain ⟨_, _, rfl⟩ | ⟨_, rfl⟩ := perform_connect done
      · exact respects_refl inv
      · refine respects_server inv (.connect s.server (inv.1.fresh _ le_rfl) w) fun c x known => ?_
        have known : Function.update s.server.connections s.server.nextConnection
          (some ⟨w, true, true, false, 0, 1⟩) c = some x := known
        by_cases equal : c = s.server.nextConnection
        · subst equal
          rw [Function.update_self] at known
          cases known
          rfl
        · rw [Function.update_of_ne equal] at known
          exact inv.1.live c x known
  | createConfirmChannel connection =>
      obtain ⟨_, _, rfl⟩ | ⟨_, _, rfl⟩ := perform_createConfirmChannel done
      · exact respects_refl inv
      · have first : Respects t s (s.setProcess w { p with channel := some connection }) := by
          refine respects_process inv process (inv.1.setProcess process (fun c stored => ?_) ?_
            fun _ _ _ _ polling => polling) fun _ _ polling => polling
          · cases stored
            exact .inr standing
          · intro polling
            obtain ⟨u, polling⟩ := Option.isSome_iff_exists.mp polling
            exact inv.1.scheduled w p u process polling
        have second := respects_server (t := t) first.1 (.updateConnection (c := connection)
          (f := fun x => { x with channel := true }) fun _ => ⟨rfl, rfl⟩)
          (live_updateConnection first.1.1 fun _ => rfl)
        exact ⟨second.1, fun u other => (first.2 u other).trans (second.2 u other)⟩
  | assertExchange connection =>
      obtain ⟨_, _, rfl⟩ | ⟨_, _, _, rfl⟩ := perform_assertExchange done
      · exact respects_refl inv
      · exact respects_server inv (.of_same rfl rfl (List.Sublist.refl _)) inv.1.live

/-! ### What happens beside the calls -/

/-- A process starts. -/
theorem respects_boot (inv : Wired s ∧ Exclusive s) (absent : s.processes w = none) :
    Respects t s (s.setProcess w .started) := by
  have others : ∀ v q, s.processes v = some q → (s.setProcess w .started).processes v = some q := by
    intro v q known
    refine (Function.update_of_ne ?_ _ _).trans known
    rintro rfl
    rw [absent] at known
    cases known
  have started : ∀ v q, (s.setProcess w .started).processes v = some q →
      q = .started ∨ s.processes v = some q := by
    intro v q known
    have known : Function.update s.processes w (some .started) v = some q := known
    by_cases same : v = w
    · rw [same, Function.update_self] at known
      exact .inl (Option.some.inj known).symm
    · rw [Function.update_of_ne same] at known
      exact .inr known
  refine ⟨⟨⟨inv.1.fresh, inv.1.live, ?_, ?_, ?_⟩, inv.2.same⟩, fun u _ =>
    .of_answers (.of_same rfl rfl) (.refl u _) rfl ?_ fun _ _ h => h⟩
  · intro v q c known stored
    rcases started v q known with rfl | known
    · cases stored
    · exact inv.1.owner v q c known stored
  · intro v q u known polling
    rcases started v q known with rfl | known
    · cases polling
    · exact inv.1.scheduled v q u known polling
  · intro pub mem open'
    obtain ⟨x, q, connection, known, polling⟩ := inv.1.waiting pub mem open'
    exact ⟨x, q, connection, others _ q known, polling⟩
  · rintro v ⟨q, known, polling⟩
    exact ⟨q, others v q known, polling⟩

theorem settles_place (m : Rabbit.Message) (server : Rabbit.Server) :
    server.Settles (place m server) := by
  have routed := Rabbit.Server.Settles.route server ⟨m, server.nextSerial, m, 0⟩
  exact ⟨routed.connections, routed.fresh, routed.unacked⟩

theorem place_connections (m : Rabbit.Message) (server : Rabbit.Server) :
    (place m server).connections = server.connections := by
  show (server.route ⟨m, server.nextSerial, m, 0⟩).connections = _
  unfold Rabbit.Server.route Rabbit.Server.enqueue
  split
  · split <;> rfl
  · rfl

/-- The broker answers a publication. -/
theorem respects_answer {i : ℕ} {b : Bool} {server : Rabbit.Server} {pub : Publication}
    (inv : Wired s ∧ Exclusive s) (pending : s.pending i = some pub)
    (step : s.server.Settles server) (connections : server.connections = s.server.connections) :
    Respects t s { s.setAnswer i b with server } := by
  refine ⟨⟨inv.1.answered.settle step ?_, inv.2.answered pending⟩, fun u _ =>
    .of_answers (.setAnswer pending) (.refl u _) (List.length_modify ..) (fun _ h => h)
      fun w c h => (owned_of_settles step h : Owned w c { s.setAnswer i b with server })⟩
  rw [connections]
  exact inv.1.live

/-- **What happens beside the calls of a steady run.** -/
theorem respects_of_event {e : Event} (inv : Wired s ∧ Exclusive s) (allowed : (steady ctx).event e s)
    (hevent : State.event e s = some s') : Respects t s s' := by
  have grows := grows_of_event hevent
  cases e with
  | insert id eventType payload occurredAt startedAt =>
      simp only [State.event] at hevent
      split at hevent
      · obtain ⟨table, added, rfl⟩ := Option.map_eq_some_iff.mp hevent
        exact respects_db inv (.insert added) (fun _ _ _ held => .inl held)
          (fun _ marked => OutboxTable.published_insert marked added) fun u _ => ⟨rfl, fun _ => .rfl⟩
      · cases hevent
  | declare d =>
      obtain ⟨_, _, rfl⟩ := Option.map_eq_some_iff.mp hevent
      exact respects_server inv (.of_same rfl rfl (List.Sublist.refl _)) inv.1.live
  | confirm i =>
      obtain ⟨pub, pending, rfl⟩ := Option.map_eq_some_iff.mp hevent
      exact respects_answer inv pending (settles_place _ _) (place_connections _ _)
  | reject i stored =>
      obtain ⟨pub, pending, rfl⟩ := Option.map_eq_some_iff.mp hevent
      refine respects_answer inv pending ?_ ?_
      · split
        · exact settles_place _ _
        · exact .refl _
      · split
        · exact place_connections _ _
        · rfl
  | tick n =>
      cases hevent
      exact respects_db inv (.refl _) (fun _ _ _ held => .inl held) (fun _ marked => marked)
        fun u _ => ⟨rfl, fun _ => .rfl⟩
  | boot v =>
      simp only [State.event] at hevent
      split at hevent
      · rename_i absent
        cases hevent
        exact respects_boot inv absent
      · cases hevent
  | terminate v =>
      obtain ⟨q, process, rfl⟩ := Option.map_eq_some_iff.mp hevent
      refine respects_process inv process (inv.1.setProcess process (fun _ h => .inl h)
        (fun _ => rfl) fun _ _ _ _ polling => polling) fun _ _ polling => polling
  -- a steady run has none of these events
  | disconnect v => cases allowed
  | cut c => cases allowed
  | closed c => cases allowed
  | die v => cases allowed

end Step

theorem steady_environment : (steadyDiscipline ctx).Environment (steady ctx) where
  event := fun inv allowed hevent =>
    ⟨(respects_of_event (t := 0) inv allowed hevent).1, fun u =>
      (respects_of_event (t := u + 1) inv allowed hevent).2 u (Nat.succ_ne_self u).symm⟩
  crash := fun _ allowed => allowed.elim

end Outbox

end OrderPlatform
