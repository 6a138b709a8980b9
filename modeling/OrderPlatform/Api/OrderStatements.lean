import OrderPlatform.Api.OrderCache

/-!
# The database half of the invariant

A transaction is invisible until it commits.  `Private` is what a request may do to the shared
state without anybody noticing: every statement but `COMMIT` is of that kind
(`Private.tolerable`).  `COMMIT` is the one operation that others notice, and what it owes them
is `Publishes`: the two tables still agree, no row is touched that somebody else has locked, and
no order changes hands.  A new order and a status change both publish
(`publishes_newOrder`, `publishes_statusChange`).
-/

namespace OrderPlatform

open Async (Tid)

/-! ### What a session does to the database alone -/

namespace Database

variable {ctx : ApiContext} {t : Tid} {db db' : Database}

/-- A change that only session `t` notices. -/
structure Local (t : Tid) (db db' : Database) : Prop where
  tables : db'.tables = db.tables
  transaction : ∀ u, u ≠ t → db'.transaction u = db.transaction u
  holder : ∀ id u, u ≠ t → (db'.holder id = some u ↔ db.holder id = some u)
  held : ∀ id, db'.holder id = some t → db.holder id = some t ∨ db.tables.order? id ≠ none

theorem Local.refl (t : Tid) (db : Database) : Local t db db :=
  ⟨rfl, fun _ _ => rfl, fun _ _ _ => Iff.rfl, fun _ => .inl⟩

/-- Only the transaction of `t` changes. -/
theorem local_transaction (tx : Option Transaction) :
    Local t db { db with transaction := Function.update db.transaction t tx } :=
  ⟨rfl, fun _ other => Function.update_of_ne other _ _, fun _ _ _ => Iff.rfl, fun _ => .inl⟩

theorem local_abort : Local t db (db.abort t) := local_transaction _

theorem local_endTransaction : Local t db (db.endTransaction t) where
  tables := rfl
  transaction _ other := Function.update_of_ne other _ _
  holder id u other := by
    by_cases own : db.holder id = some t
    · simp [endTransaction, own, Ne.symm other]
    · simp [endTransaction, own]
  held id now := by
    by_cases own : db.holder id = some t
    · exact .inl own
    · simp [endTransaction, own] at now

theorem write_of_transaction {tx : Transaction} (open_tx : db.transaction t = some tx) (w : Write) :
    db.write t w = { db with
      transaction := Function.update db.transaction t
        (some { tx with writes := tx.writes ++ [w] }) } := by
  simp only [write, open_tx]

/-- A session that has written nothing reads what has been committed. -/
theorem view_of_nil {start : ℕ} {aborted : Bool}
    (open_tx : db.transaction t = some ⟨start, [], aborted⟩) : db.view t = db.tables := by
  simp only [view, open_tx]
  rfl

theorem view_of_none (closed : db.transaction t = none) : db.view t = db.tables := by
  simp only [view, closed]

/-- A session sees what it has written. -/
theorem view_write {tx : Transaction} (open_tx : db.transaction t = some tx) (w : Write) :
    (db.write t w).view t = db.tables.applyAll (tx.writes ++ [w]) := by
  rw [write_of_transaction open_tx]
  simp [view]

theorem local_lock {id : Uuid} (may : db.mayLock t id = true) (unwritten : db.view t = db.tables) :
    Local t db (db.lock t id) := by
  unfold lock
  split
  · rename_i found
    rw [unwritten, Bool.and_eq_true] at found
    refine ⟨rfl, fun _ _ => rfl, fun id' u other => ?_, fun id' now => ?_⟩
    · by_cases same : id' = id
      · subst same
        have not_u : db.holder id' ≠ some u := by
          intro holds
          simp only [mayLock, holds, decide_eq_true_eq] at may
          exact other may
        simp [Ne.symm other, not_u]
      · simp [Function.update_of_ne same]
    · by_cases same : id' = id
      · subst same
        exact .inr (by simpa [Option.isSome_iff_ne_none] using found.2)
      · exact .inl (by simpa [Function.update_of_ne same] using now)
  · exact .refl t db

theorem lock_transaction {id : Uuid} : (db.lock t id).transaction = db.transaction := by
  unfold lock
  split <;> rfl

/-- Where there is a row to lock, it is locked. -/
theorem lock_holder {id : Uuid} {tx : Transaction} {row : OrderRow}
    (open_tx : db.transaction t = some tx) (found : (db.view t).order? id = some row) :
    (db.lock t id).holder id = some t := by
  simp [lock, open_tx, found]

/-- A lock is had once. -/
theorem lock_of_held {id : Uuid} (held : db.holder id = some t) : db.lock t id = db := by
  have same : Function.update db.holder id (some t) = db.holder := by
    rw [← held, Function.update_eq_self]
  unfold lock
  split
  · rw [same]
  · rfl

theorem mayLock_of_held {id : Uuid} (held : db.holder id = some t) : db.mayLock t id = true := by
  simp [mayLock, held]

/-- A statement on a live connection fails, or does what it is meant to do. -/
theorem exec_live {fails : Bool} {sorted : List OrderRow} {st : Statement} {r : Option st.Result}
    (live : ∀ tx, db.transaction t = some tx → tx.aborted = false)
    (hexec : db.exec ctx t fails sorted st = some (r, db')) :
    (r = none ∧ db' = db.abort t) ∨ db.perform ctx t sorted st = some (r, db') := by
  unfold exec at hexec
  split at hexec
  · cases hexec
    exact .inl ⟨rfl, rfl⟩
  · split at hexec
    · rename_i aborted
      exact absurd (live _ aborted) (by simp)
    · exact .inr hexec

/-- `ROLLBACK`, whatever becomes of it. -/
theorem exec_rollback {fails : Bool} {sorted : List OrderRow}
    {r : Option (Statement.Result .rollback)}
    (hexec : db.exec ctx t fails sorted .rollback = some (r, db')) : Local t db db' := by
  unfold exec at hexec
  split at hexec
  · cases hexec
    exact local_abort
  · split at hexec <;> cases hexec <;> exact local_endTransaction

end Database

namespace OrderRoutes

variable {ctx : ApiContext} {A : Assumptions} {t : Tid} {s s' : State}

/-! ### What a request does unnoticed -/

/-- A change of the shared state that nobody but request `t` notices. -/
structure Private (t : Tid) (s s' : State) : Prop where
  server : s'.server = s.server
  db : s.db.Local t s'.db
  generated : ∀ id, s'.generated id = s.generated id ∨
    (s.generated id = none ∧ s'.generated id = some t)
  commits : s'.history.commits = s.history.commits
  deleted : s'.history.deleted = s.history.deleted
  bumped : s'.history.bumped = s.history.bumped
  readAt : ∀ u, u ≠ t → s'.history.readAt u = s.history.readAt u
  header : ∀ u, u ≠ t → s'.header u = s.header u
  opened : ∀ u, u ≠ t → s'.opened u = s.opened u
  released : ∀ u, u ≠ t → s'.released u = s.released u

namespace Private

theorem grows (h : Private t s s') : s.history.Grows s'.history where
  commits := ⟨[], by simp [h.commits], nofun⟩
  deleted := h.deleted ▸ List.prefix_rfl
  bumped := h.bumped ▸ List.prefix_rfl

theorem inv (h : Private t s s') (inv : Inv ctx A s) : Inv ctx A s' where
  latest := by simpa [History.states, h.commits, h.db.tables] using inv.latest
  audited := h.db.tables ▸ inv.audited
  timely := h.db.tables ▸ inv.timely
  born row mem := by
    have old := inv.born row (h.db.tables ▸ mem)
    rcases h.generated row.id with same | ⟨none, _⟩
    · exact same ▸ old
    · exact absurd none old
  held id u now := by
    rw [h.db.tables]
    by_cases own : u = t
    · subst own
      exact (h.db.held id now).elim (inv.held id u) fun found => found
    · exact inv.held id u ((h.db.holder id u own).mp now)
  owners T mem id row found := by
    rw [h.db.tables]
    exact inv.owners T (by simpa [History.states, h.commits] using mem) id row found
  stored key entry now :=
    (inv.stored key entry (h.server ▸ now)).later h.grows fun _ d mem _ => h.deleted ▸ mem
  sent c mem :=
    (inv.sent c (h.server ▸ mem)).later h.grows fun _ d mem => h.deleted ▸ mem
  version answered := by simpa [VersionOk, h.server, h.bumped] using inv.version answered

theorem rely (h : Private t s s') {u : Tid} (other : u ≠ t) : Rely u s s' where
  grows := h.grows
  committed := by simp [History.Committed, h.commits]
  bumped mem := .inl (h.bumped ▸ mem)
  deleted _ mem := .inl (h.deleted ▸ mem)
  readAt := h.readAt u other
  header := h.header u other
  opened := h.opened u other
  released := h.released u other
  transaction _ := h.db.transaction u other
  holder _ id := h.db.holder id u other
  locked _ id _ := by rw [h.db.tables]
  generated id own := by
    rcases h.generated id with same | ⟨none, _⟩
    · exact same.trans own
    · rw [own] at none
      cases none
  unborn id _ none := by rw [h.db.tables, none]
  events := h.db.tables ▸ List.prefix_rfl

/-- **What a request does unnoticed is tolerable.** -/
theorem tolerable (h : Private t s s') (inv : Inv ctx A s) : (core ctx A).Tolerable t s s' :=
  ⟨h.inv inv, fun _ other => h.rely other⟩

theorem untouched (h : Private t s s') (u : Untouched t s) : Untouched t s' where
  committed := by simpa [History.Committed, h.commits] using u.committed
  bumped := by simpa [h.bumped] using u.bumped
  deleted id := by simpa [h.deleted] using u.deleted id

end Private

/-! ### Statements -/

namespace History

variable {h : History} {writes : List Write} {tables : Tables} {st : Statement}
variable {r : Option st.Result}

theorem sql_commits (notCommit : st ≠ .commit) :
    (h.sql t writes tables st r).commits = h.commits := by
  cases st <;> first | rfl | exact absurd rfl notCommit

theorem sql_deleted : (h.sql t writes tables st r).deleted = h.deleted := by
  cases st with
  | commit => cases r <;> simp only [sql]; split <;> rfl
  | _ => rfl

theorem sql_bumped : (h.sql t writes tables st r).bumped = h.bumped := by
  cases st with
  | commit => cases r <;> simp only [sql]; split <;> rfl
  | _ => rfl

theorem sql_readAt {u : Tid} (other : u ≠ t) :
    (h.sql t writes tables st r).readAt u = h.readAt u := by
  cases st with
  | selectOrder id => exact Function.update_of_ne other _ _
  | commit => cases r <;> simp only [sql]; split <;> rfl
  | _ => rfl

end History

/-- What a statement does to the shared state is what it does to the database, and a note in the
history. -/
theorem sql_cases {fails : Bool} {sorted : List OrderRow} {st : Statement} {r : Option st.Result}
    (h : s.sql ctx t fails sorted st = some (r, s')) :
    ∃ db, s.db.exec ctx t fails sorted st = some (r, db) ∧
      s' = { s with db, history := s.history.sql t (s.pending t) db.tables st r } := by
  obtain ⟨x, hexec, same⟩ := Option.map_eq_some_iff.mp h
  cases same
  exact ⟨x.2, hexec, rfl⟩

/-- A statement other than `COMMIT` that only its session notices is private. -/
theorem private_sql {db : Database} {st : Statement} (r : Option st.Result) (writes : List Write)
    (tables : Tables) (h : s.db.Local t db) (notCommit : st ≠ .commit) :
    Private t s { s with db, history := s.history.sql t writes tables st r } where
  server := rfl
  db := h
  generated _ := .inl rfl
  commits := History.sql_commits notCommit
  deleted := History.sql_deleted
  bumped := History.sql_bumped
  readAt _ other := History.sql_readAt other
  header _ _ := rfl
  opened _ _ := rfl
  released _ _ := rfl

/-- The step neither takes a connection nor gives one back. -/
def SameConnections (t : Tid) (s s' : State) : Prop :=
  s'.opened t = s.opened t ∧ s'.released t = s.released t

theorem Clean.step {n : ℕ} (h : Clean t n s) (step : Private t s s')
    (same : SameConnections t s s') : Clean t n s' :=
  ⟨step.untouched h.untouched, same.1.trans h.opened, same.2.trans h.released⟩

/-- A request carries its session on over what only it notices. -/
theorem Session.step {n : ℕ} {tx tx' : Option Transaction} (h : Session t n tx s)
    (step : Private t s s') (same : SameConnections t s s')
    (transaction : s'.db.transaction t = tx') : Session t n tx' s' :=
  ⟨h.clean.step step same, transaction⟩

/-! ### What a commit owes to the others -/

/-- What `t` is about to commit touches one order, which it has locked or which only `t` can
know of, and leaves everything in order. -/
structure Publishes (A : Assumptions) (t : Tid) (s : State) (tables : Tables) : Prop where
  audited : Audited tables
  timely : A.timely = true → Timely tables
  born : ∀ row ∈ tables.orders, s.generated row.id ≠ none
  touched : ∃ id, (s.db.holder id = some t ∨
      (s.generated id = some t ∧ s.db.tables.order? id = none)) ∧
    ∀ id', id' ≠ id → tables.order? id' = s.db.tables.order? id'
  owners : ∀ id row, s.db.tables.order? id = some row →
    ∃ row', tables.order? id = some row' ∧ row'.userId = row.userId
  events : s.db.tables.orderEvents <+: tables.orderEvents

/-- The shared state after `t` has committed these tables. -/
def State.publish (t : Tid) (tables : Tables) (s : State) : State :=
  { s with
    db := { s.db.endTransaction t with tables }
    history := { s.history with commits := s.history.commits ++ [⟨t, tables⟩] } }

namespace Publishes

variable {tables : Tables}

/-- An order that is locked by another request, or that only another one can know of, is not
touched. -/
private theorem untouched (h : Publishes A t s tables) {id : Uuid}
    (locked : s.db.holder id ≠ some t) (known : s.generated id ≠ some t ∨
      s.db.tables.order? id ≠ none) : tables.order? id = s.db.tables.order? id := by
  obtain ⟨touched, own, others⟩ := h.touched
  refine others id ?_
  rintro rfl
  rcases own with holds | ⟨own, none⟩
  · exact locked holds
  · exact known.elim (fun other => other own) fun found => found none

private theorem grows (h : Untouched t s) : s.history.Grows (s.publish t tables).history where
  commits := by
    refine ⟨[⟨t, tables⟩], rfl, fun c mem => ?_⟩
    cases List.mem_singleton.mp mem
    exact ⟨h.bumped, h.deleted⟩
  deleted := List.prefix_rfl
  bumped := List.prefix_rfl

private theorem inv (h : Publishes A t s tables) (u : Untouched t s) (inv : Inv ctx A s) :
    Inv ctx A (s.publish t tables) where
  latest := by
    have length : s.history.commits.length + 1 =
        (Tables.empty :: s.history.commits.map Commit.tables).length := by simp
    simp only [State.publish, History.states, List.map_append, List.length_append,
      List.length_singleton, ← List.cons_append, length]
    simp
  audited := h.audited
  timely := h.timely
  born := h.born
  held id u now := by
    have before : s.db.holder id ≠ none := by
      intro none
      simp [State.publish, Database.endTransaction, none] at now
    obtain ⟨u', holds⟩ := Option.ne_none_iff_exists'.mp before
    obtain ⟨row, found⟩ := Option.ne_none_iff_exists'.mp (inv.held id u' holds)
    obtain ⟨row', found', _⟩ := h.owners id row found
    simp [State.publish, found']
  owners T mem id row found := by
    simp only [State.publish, History.states, List.map_append, ← List.cons_append,
      List.mem_append, List.map_cons, List.map_nil, List.mem_singleton] at mem
    rcases mem with old | rfl
    · obtain ⟨row₁, found₁, same₁⟩ := inv.owners T old id row found
      obtain ⟨row₂, found₂, same₂⟩ := h.owners id row₁ found₁
      exact ⟨row₂, found₂, same₂.trans same₁⟩
    · exact ⟨row, found, rfl⟩
  stored key entry now := (inv.stored key entry now).later (grows u) fun _ _ mem _ => mem
  sent c mem := (inv.sent c mem).later (grows u) fun _ _ mem => mem
  version := inv.version

private theorem rely (h : Publishes A t s tables) (u : Untouched t s) (inv : Inv ctx A s) {v : Tid}
    (other : v ≠ t) : Rely v s (s.publish t tables) where
  grows := grows u
  committed now := by
    obtain ⟨c, mem, own⟩ := now
    rcases List.mem_append.mp mem with mem | mem
    · exact ⟨c, mem, own⟩
    · cases List.mem_singleton.mp mem
      exact absurd own.symm other
  bumped := .inl
  deleted _ := .inl
  readAt := rfl
  header := rfl
  opened := rfl
  released := rfl
  transaction _ := Database.local_endTransaction.transaction v other
  holder _ id := Database.local_endTransaction.holder id v other
  locked _ id holds := by
    refine h.untouched ?_ (.inr (inv.held id v holds))
    rw [holds]
    exact fun same => other (Option.some.inj same)
  generated _ := id
  unborn id own none := by
    refine (h.untouched ?_ (.inl ?_)).trans none
    · exact fun holds => inv.held id t holds none
    · rw [own]
      exact fun same => other (Option.some.inj same)
  events := h.events

/-- **A commit that publishes is tolerable.** -/
theorem tolerable (h : Publishes A t s tables) (u : Untouched t s) (inv : Inv ctx A s) :
    (core ctx A).Tolerable t s (s.publish t tables) :=
  ⟨h.inv u inv, fun _ other => h.rely u inv other⟩

end Publishes

/-- **A new order publishes.** -/
theorem publishes_newOrder (inv : Inv ctx A s) {row : OrderRow} {e : OrderEventRow}
    {o : OutboxEventRow} (own : s.generated row.id = some t)
    (missing : s.db.tables.order? row.id = none) (status : row.status = .pending)
    (orderId : e.orderId = row.id) (type : e.eventType = .created) (source : e.fromStatus = none)
    (target : e.toStatus = .pending) (actor : e.actorUserId = row.userId)
    (time : e.occurredAt = row.updatedAt) (announces : Announces o)
    (aggregateId : o.aggregateId = row.id) :
    Publishes A t s ⟨s.db.tables.orders ++ [row], s.db.tables.orderEvents ++ [e],
      s.db.tables.outboxEvents ++ [o]⟩ where
  audited := inv.audited.newOrder missing status orderId type source target actor announces
    aggregateId
  timely A := (inv.timely A).newOrder inv.audited missing orderId time
  born row' mem := by
    rcases List.mem_append.mp mem with mem | mem
    · exact inv.born row' mem
    · cases List.mem_singleton.mp mem
      simp [own]
  touched := by
    refine ⟨row.id, .inr ⟨own, missing⟩, fun id' other => ?_⟩
    simp [Tables.order?, List.find?_append, Ne.symm other]
  owners id row' found := by
    refine ⟨row', ?_, rfl⟩
    simp only [Tables.order?] at found
    simp [Tables.order?, List.find?_append, found]
  events := List.prefix_append _ _

/-- **A status change publishes.** -/
theorem publishes_statusChange (inv : Inv ctx A s) {row : OrderRow} {e : OrderEventRow}
    (locked : s.db.holder row.id = some t) (found : s.db.tables.order? row.id = some row)
    (orderId : e.orderId = row.id) (type : e.eventType = .statusChanged)
    (source : e.fromStatus = some row.status)
    (transition : e.toStatus ∈ orderStatusTransitions row.status)
    (actor : e.actorUserId = row.userId)
    (later : A.timely = true → row.updatedAt < e.occurredAt) :
    Publishes A t s
      ⟨s.db.tables.orders.map (Tables.setStatus row.id e.toStatus e.occurredAt),
        s.db.tables.orderEvents ++ [e], s.db.tables.outboxEvents⟩ where
  audited := inv.audited.statusChange (Tables.mem_of_order? found).1 orderId type source
    transition actor
  timely A := (inv.timely A).statusChange inv.audited (Tables.mem_of_order? found).1 orderId
    (later A)
  born row' mem' := by
    obtain ⟨r, mem, rfl⟩ := List.mem_map.mp mem'
    rw [Tables.setStatus_id]
    exact inv.born r mem
  touched := by
    refine ⟨row.id, .inl locked, fun id' other => ?_⟩
    rw [Tables.order?_map_setStatus]
    cases found' : s.db.tables.order? id' with
    | none => rfl
    | some r =>
        obtain ⟨_, rfl⟩ := Tables.mem_of_order? found'
        simp [Tables.setStatus_other _ _ other]
  owners id row' found' := by
    refine ⟨Tables.setStatus row.id e.toStatus e.occurredAt row', ?_, by simp⟩
    rw [Tables.order?_map_setStatus, found', Option.map_some]
  events := List.prefix_append _ _

/-! ### The environment -/

/-- A change of the database that only `t` notices. -/
theorem private_db {db : Database} (h : s.db.Local t db) : Private t s { s with db } :=
  ⟨rfl, h, fun _ => .inl rfl, rfl, rfl, rfl, fun _ _ => rfl, fun _ _ => rfl, fun _ _ => rfl,
    fun _ _ => rfl⟩

/-- The next user of a returned connection rolls back what was left on it. -/
private theorem rely_reset (u : Tid) (returned : 0 < s.released t) :
    Rely u s { s with db := s.db.endTransaction t } := by
  by_cases own : u = t
  · subst own
    have gone : ∀ {P : Prop}, s.released u = 0 → P := fun active =>
      absurd active returned.ne'
    exact {
      grows := .refl _
      committed := id
      bumped := .inl
      deleted := fun _ => .inl
      readAt := rfl
      header := rfl
      opened := rfl
      released := rfl
      transaction := gone
      holder := gone
      locked := gone
      generated := fun _ => id
      unborn := fun _ _ => id
      events := List.prefix_rfl }
  · exact (private_db Database.local_endTransaction).rely own

/-- **What happens on its own, and the death of a request, is tolerable.** -/
theorem environment : (core ctx A).Environment (regime ctx A) where
  event := by
    intro e s s' inv allowed hevent
    cases e with
    | redis e =>
        obtain ⟨server, happens, rfl⟩ := Option.map_eq_some_iff.mp hevent
        exact ⟨Inv.redisEvent inv allowed happens, fun u => rely_server u s server⟩
    | tick =>
        cases hevent
        have tick : ∀ t, Private t s { s with db := { s.db with now := s.db.now + 1 } } :=
          fun t => private_db ⟨rfl, fun _ _ => rfl, fun _ _ _ => Iff.rfl, fun _ => .inl⟩
        exact ⟨(tick 0).inv inv, fun u => (tick (u + 1)).rely (Nat.succ_ne_self u).symm⟩
    | reset t =>
        simp only [machine, State.event] at hevent
        split at hevent
        · rename_i returned
          cases hevent
          exact ⟨(private_db Database.local_endTransaction).inv inv,
            fun u => rely_reset u returned⟩
        · cases hevent
  crash := fun inv _ => (private_db Database.local_endTransaction).tolerable inv

end OrderRoutes

end OrderPlatform
