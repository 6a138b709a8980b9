import OrderPlatform.Async.Contract
import OrderPlatform.Api.Keys
import OrderPlatform.Api.OrderAudit

/-!
# What the order service keeps true

Everything that is true of the order service over whole runs is one discipline.  Its invariant
has a database half and a cache half.

* The database half: an order and its audit rows agree (`Audited`), and every committed state
  has its place in the history.
* The cache half: every value in Redis was read from Postgres at some committed state
  (`EntryOk`), whoever stored it and however long ago.  A page or a count under version `v`
  was read after the commits of all requests that had raised the version up to `v`; that is
  the whole secret of the versioned keys.

The history only grows, and a request commits at most once, before it deletes or raises
anything (`Grows`): this is why what was read late enough once stays late enough.

Which of the two halves holds in full depends on what is assumed of the run.  `Assumptions` has
one switch for each assumption, and `regime` is the runs that meet them.
-/

namespace OrderPlatform

namespace OrderRoutes

open Async (Tid Regime Contract Discipline)
open Text (Json)

/-! ### Assumptions -/

/-- What a run may assume of Redis and of the cache. -/
structure Assumptions where
  /-- Every command is executed and answered, and the list version is not evicted. -/
  answered : Bool
  /-- Commands on idempotency records are executed and answered. -/
  recorded : Bool
  /-- An order is written to the cache only if no request that has already deleted the entry
  has committed since the order was read. -/
  coherent : Bool
  /-- Whoever commits a status change began its transaction later than the transaction that wrote
  the row. -/
  timely : Bool

namespace Assumptions

/-- Nothing is assumed. -/
def none : Assumptions := ⟨false, false, false, false⟩

end Assumptions

/-- The command, if it writes an order to the cache, writes one that was read after the commits
of all requests that have already deleted the entry. -/
def Coherent (t : Tid) (h : History) : Redis.Command → Prop
  | .set key _ _ =>
      familyOf key = .entity → ∀ c ∈ h.commits.drop (h.readAt t), (c.tid, key) ∉ h.deleted
  | _ => True

instance (t : Tid) (h : History) : (c : Redis.Command) → Decidable (Coherent t h c)
  | .set _ _ _ => inferInstanceAs (Decidable (_ → _))
  | .get _ => .isTrue trivial
  | .setNx _ _ _ => .isTrue trivial
  | .del _ => .isTrue trivial
  | .incr _ => .isTrue trivial

/-- The transaction began later than the one that wrote the row which this write changes. -/
def WriteInTurn (start : ℕ) (tables : Tables) : Write → Prop
  | .updateOrder id _ _ => ∀ row ∈ tables.order? id, row.updatedAt < start
  | _ => True

instance (start : ℕ) (tables : Tables) : (w : Write) →
    Decidable (WriteInTurn start tables w)
  | .updateOrder id _ _ =>
      inferInstanceAs (Decidable (∀ row ∈ tables.order? id, row.updatedAt < start))
  | .insertOrder _ => .isTrue trivial
  | .insertOrderEvent _ => .isTrue trivial
  | .insertOutboxEvent _ => .isTrue trivial

/-- The statement, if it commits status changes, ends a transaction that began later than the
ones that wrote the rows. -/
def InTurn (t : Tid) (s : State) : Statement → Prop
  | .commit => ∀ tx ∈ s.db.transaction t, ∀ w ∈ tx.writes, WriteInTurn tx.startedAt s.db.tables w
  | _ => True

instance (t : Tid) (s : State) : (st : Statement) → Decidable (InTurn t s st)
  | .commit => inferInstanceAs (Decidable (∀ tx ∈ s.db.transaction t, ∀ w ∈ tx.writes,
      WriteInTurn tx.startedAt s.db.tables w))
  | .begin => .isTrue trivial
  | .rollback => .isTrue trivial
  | .selectOrder _ => .isTrue trivial
  | .selectOrderForUpdate _ => .isTrue trivial
  | .updateOrder _ _ => .isTrue trivial
  | .insertOrder _ _ _ _ _ => .isTrue trivial
  | .insertOrderEvent _ _ _ _ _ _ => .isTrue trivial
  | .insertOutboxEvent _ => .isTrue trivial
  | .selectOrders _ _ _ => .isTrue trivial
  | .countOrders _ => .isTrue trivial

/-- The runs that meet the assumptions.

With every switch off these are all runs.  Each condition is on the step that is about to be taken
and on the history so far, never on what a request answers. -/
def regime (ctx : ApiContext) (A : Assumptions) : Regime (machine ctx) where
  advance := fun t c o s =>
    match o, c with
    | .redis command, .redis fault =>
        (A.answered = true → fault = .none) ∧
        (A.recorded = true → familyOf command.key = .record → fault = .none) ∧
        (A.coherent = true → Coherent t s.history command)
    | .work (.sql st), _ => A.timely = true → InTurn t s st
    | _, _ => True
  event := fun e _ =>
    match e with
    | .redis (.evict key) => A.answered = true → key ≠ versionKey
    | _ => True
  crash := fun _ _ => True

section

variable {ctx : ApiContext} {A : Assumptions}

instance decidableAdvance (t : Tid) : (c : (machine ctx).Choice) → (o : (machine ctx).Op) →
    (s : (machine ctx).State) → Decidable ((regime ctx A).advance t c o s)
  | .redis fault, .redis command, s => inferInstanceAs (Decidable
      ((A.answered = true → fault = .none) ∧
        (A.recorded = true → familyOf command.key = .record → fault = .none) ∧
        (A.coherent = true → Coherent t s.history command)))
  | _, .work (.sql st), s => inferInstanceAs (Decidable (A.timely = true → InTurn t s st))
  | .succeeds, .redis _, _ => .isTrue trivial
  | .fails, .redis _, _ => .isTrue trivial
  | .rows _, .redis _, _ => .isTrue trivial
  | .fresh _, .redis _, _ => .isTrue trivial
  | .time _, .redis _, _ => .isTrue trivial
  | _, .work .connect, _ => .isTrue trivial
  | _, .work .release, _ => .isTrue trivial
  | _, .work .randomUUID, _ => .isTrue trivial
  | _, .work .clock, _ => .isTrue trivial
  | _, .work (.header _), _ => .isTrue trivial

instance decidableEvent : (e : (machine ctx).Event) → (s : (machine ctx).State) →
    Decidable ((regime ctx A).event e s)
  | .redis (.evict key), _ => inferInstanceAs (Decidable (A.answered = true → key ≠ versionKey))
  | .redis (.expire _), _ => .isTrue trivial
  | .redis (.land _), _ => .isTrue trivial
  | .tick, _ => .isTrue trivial
  | .reset _, _ => .isTrue trivial

instance decidableCrash (t : Tid) (s : (machine ctx).State) :
    Decidable ((regime ctx A).crash t s) := .isTrue trivial

end

/-! ### The history -/

namespace History

/-- Nothing that `u` committed came at position `i` or later. -/
def Covers (h : History) (i : ℕ) (u : Tid) : Prop := ∀ c ∈ h.commits.drop i, c.tid ≠ u

/-- The transaction of a request has committed. -/
def Committed (h : History) (t : Tid) : Prop := ∃ c ∈ h.commits, c.tid = t

/-- `t` has committed these writes on top of what there was. -/
def Published (h : History) (t : Tid) (writes : List Write) : Prop :=
  ∃ (i : ℕ) (T : Tables), h.states[i]? = some T ∧ h.commits[i]? = some ⟨t, T.applyAll writes⟩

theorem Published.committed {h : History} {t : Tid} {writes : List Write}
    (published : h.Published t writes) : h.Committed t := by
  obtain ⟨i, T, _, commit⟩ := published
  exact ⟨_, List.mem_of_getElem? commit, rfl⟩

/-- How a history may continue: requests that have deleted an order's entry or have raised the
version commit nothing any more. -/
structure Grows (h h' : History) : Prop where
  commits : ∃ later, h'.commits = h.commits ++ later ∧ ∀ c ∈ later,
    c.tid ∉ h.bumped ∧ ∀ id, (c.tid, orderEntityKey id) ∉ h.deleted
  deleted : h.deleted <+: h'.deleted
  bumped : h.bumped <+: h'.bumped

variable {h h' h'' : History}

theorem Grows.refl (h : History) : h.Grows h :=
  ⟨⟨[], (List.append_nil _).symm, nofun⟩, List.prefix_rfl, List.prefix_rfl⟩

theorem Grows.trans (g : h.Grows h') (g' : h'.Grows h'') : h.Grows h'' := by
  obtain ⟨later, append, after⟩ := g.commits
  obtain ⟨later', append', after'⟩ := g'.commits
  refine ⟨⟨later ++ later', by rw [append', append, List.append_assoc], ?_⟩,
    g.deleted.trans g'.deleted, g.bumped.trans g'.bumped⟩
  intro c mem
  rcases List.mem_append.mp mem with mem | mem
  · exact after c mem
  · exact ⟨fun bumped => (after' c mem).1 (g.bumped.subset bumped),
      fun id deleted => (after' c mem).2 id (g.deleted.subset deleted)⟩

theorem Grows.committed (g : h.Grows h') {t : Tid} (done : h.Committed t) : h'.Committed t := by
  obtain ⟨later, append, _⟩ := g.commits
  obtain ⟨c, mem, own⟩ := done
  exact ⟨c, append ▸ List.mem_append_left _ mem, own⟩

/-- A state keeps its position. -/
theorem Grows.states (g : h.Grows h') {i : ℕ} {T : Tables} (at_i : h.states[i]? = some T) :
    h'.states[i]? = some T := by
  obtain ⟨later, append, _⟩ := g.commits
  obtain ⟨lt, _⟩ := List.getElem?_eq_some_iff.mp at_i
  simp only [History.states] at lt at_i
  simp only [History.states, append, List.map_append, ← List.cons_append]
  rw [List.getElem?_append_left lt, at_i]

theorem Grows.published (g : h.Grows h') {t : Tid} {writes : List Write}
    (published : h.Published t writes) : h'.Published t writes := by
  obtain ⟨i, T, at_i, commit⟩ := published
  obtain ⟨later, append, _⟩ := g.commits
  obtain ⟨lt, _⟩ := List.getElem?_eq_some_iff.mp commit
  exact ⟨i, T, g.states at_i, by rw [append, List.getElem?_append_left lt, commit]⟩

/-- What was read late enough for a request stays late enough. -/
theorem Grows.covers_of (g : h.Grows h') {i : ℕ} {u : Tid} (le : i ≤ h.commits.length)
    (done : u ∈ h.bumped ∨ ∃ id, (u, orderEntityKey id) ∈ h.deleted) (covers : h.Covers i u) :
    h'.Covers i u := by
  obtain ⟨later, append, after⟩ := g.commits
  intro c mem
  rw [append, List.drop_append_of_le_length le] at mem
  rcases List.mem_append.mp mem with mem | mem
  · exact covers c mem
  · rintro rfl
    rcases done with bumped | ⟨id, deleted⟩
    · exact (after c mem).1 bumped
    · exact (after c mem).2 id deleted

theorem le_of_states {i : ℕ} {T : Tables} (at_i : h.states[i]? = some T) :
    i ≤ h.commits.length := by
  obtain ⟨lt, _⟩ := List.getElem?_eq_some_iff.mp at_i
  simp only [History.states, List.length_cons, List.length_map] at lt
  omega

/-- Nothing has been committed after the last state. -/
theorem covers_latest (h : History) (u : Tid) : h.Covers h.commits.length u := by
  intro c mem
  simp at mem

end History

/-! ### What was read from Postgres -/

section

variable (ctx : ApiContext) (A : Assumptions) (h : History)

/-- Position `i` comes after the commits of the requests that raised the version to `v`. -/
structure Recent (v i : ℕ) : Prop where
  raised : v ≤ h.bumped.length
  covers : ∀ u ∈ h.bumped.take v, h.Covers i u

/-- The rows are a page for this request, read at position `i`. -/
def RowsAt (query : ListOrdersQuery) (user : Uuid) (i : ℕ) (rows : List OrderRow) : Prop :=
  ∃ T, h.states[i]? = some T ∧
    IsPage ctx (query.filter ctx user) query.pageSize (paginationOffset query) T rows

/-- The number of rows that satisfy the filter, read at position `i`. -/
def TotalAt (filter : OrderFilter) (i : ℕ) (total : ℕ) : Prop :=
  ∃ T, h.states[i]? = some T ∧ total = (T.select ctx filter).length

/-- The row of an order, read at position `i`. -/
def RowAt (id : String) (i : ℕ) (row : OrderRow) : Prop :=
  ∃ T, h.states[i]? = some T ∧ T.order? (.ofText id) = some row

/-- A list body whose rows and whose total were read from Postgres, at positions recent enough
for version `v`. -/
inductive PageOf (v : ℕ) (query : ListOrdersQuery) (user : Uuid) : Json → Prop
  | read (i j : ℕ) (rows : List OrderRow) (total : ℕ)
      (rowsAt : RowsAt ctx h query user i rows)
      (totalAt : TotalAt ctx h (query.filter ctx user) j total)
      (recent : A.answered = true → Recent h v i ∧ Recent h v j) :
      PageOf v query user (pageBody query rows total)

/-- The response of the work of a `POST` that has succeeded for this user. -/
def CreatedFor (user : Uuid) (result : IdempotencyResult) : Prop :=
  ∃ row : OrderRow, row.userId = user ∧ result = ⟨.num 201, some (orderBody (some row))⟩

/-- A record that a `POST` of this user may have left. -/
def RecordOk (user : Uuid) : StoredRecord → Prop
  | .claim _ => True
  | .completed _ status body => CreatedFor user ⟨status, body⟩

/-- **What may be stored under which key.** -/
inductive EntryOk : String → String → Prop
  | version (value : String) : EntryOk versionKey value
  | page (v : ℕ) (query : ListOrdersQuery) (user : Uuid) (body : Json)
      (page : PageOf ctx A h v query user body) :
      EntryOk (buildListCacheKey cacheNamespaces.ordersList v (query.listCacheQuery user))
        body.stringify
  | count (v : ℕ) (query : ListOrdersQuery) (user : Uuid) (i total : ℕ)
      (totalAt : TotalAt ctx h (query.filter ctx user) i total)
      (recent : A.answered = true → Recent h v i) :
      EntryOk (buildCountCacheKey cacheNamespaces.ordersList v
        (countCacheQuery (query.filter ctx user))) (toString total)
  | entity (id : String) (i : ℕ) (row : OrderRow) (rowAt : RowAt h id i row)
      (fresh : A.answered = true → A.coherent = true →
        ∀ d ∈ h.deleted, d.2 = orderEntityKey id → h.Covers i d.1) :
      EntryOk (orderEntityKey id) (orderBody (some row)).stringify
  | record (user : Uuid) (key : String) (record : StoredRecord) (ok : RecordOk user record) :
      EntryOk (buildRedisKey "orders:create" user.text key) record.serialized

/-- What a command may do to the cache. -/
def CommandOk : Redis.Command → Prop
  | .get _ => True
  | .set key value _ => key ≠ versionKey ∧ EntryOk ctx A h key value
  | .setNx key value _ => key ≠ versionKey ∧ EntryOk ctx A h key value
  | .del key => key ≠ versionKey
  | .incr key => key = versionKey

end

/-! ### The invariant -/

/-- The version counter counts who has raised it. -/
def VersionOk (s : State) : Prop :=
  (s.server.store versionKey = none ∧ s.history.bumped = []) ∨
    s.server.store versionKey = some ⟨toString (s.history.bumped.length : ℤ), none⟩

/-- The invariant of the shared state. -/
structure Inv (ctx : ApiContext) (A : Assumptions) (s : State) : Prop where
  latest : s.history.states[s.history.commits.length]? = some s.db.tables
  audited : Audited s.db.tables
  timely : A.timely = true → Timely s.db.tables
  born : ∀ row ∈ s.db.tables.orders, s.generated row.id ≠ none
  held : ∀ id u, s.db.holder id = some u → s.db.tables.order? id ≠ none
  /-- An order never changes hands. -/
  owners : ∀ T ∈ s.history.states, ∀ id row, T.order? id = some row →
    ∃ row', s.db.tables.order? id = some row' ∧ row'.userId = row.userId
  stored : ∀ key entry, s.server.store key = some entry → EntryOk ctx A s.history key entry.value
  sent : ∀ c ∈ s.server.inFlight, CommandOk ctx A s.history c
  version : A.answered = true → VersionOk s ∧ s.server.inFlight = []

/-- What one request tolerates. -/
structure Rely (t : Tid) (s s' : State) : Prop where
  grows : s.history.Grows s'.history
  committed : s'.history.Committed t → s.history.Committed t
  bumped : t ∈ s'.history.bumped → t ∈ s.history.bumped ∨ s.history.Committed t
  deleted : ∀ id, (t, orderEntityKey id) ∈ s'.history.deleted →
    (t, orderEntityKey id) ∈ s.history.deleted ∨ s.history.Committed t
  readAt : s'.history.readAt t = s.history.readAt t
  header : s'.header t = s.header t
  opened : s'.opened t = s.opened t
  released : s'.released t = s.released t
  transaction : s.released t = 0 → s'.db.transaction t = s.db.transaction t
  holder : s.released t = 0 → ∀ id, s'.db.holder id = some t ↔ s.db.holder id = some t
  locked : s.released t = 0 → ∀ id, s.db.holder id = some t →
    s'.db.tables.order? id = s.db.tables.order? id
  generated : ∀ id, s.generated id = some t → s'.generated id = some t
  unborn : ∀ id, s.generated id = some t → s.db.tables.order? id = none →
    s'.db.tables.order? id = none
  events : s.db.tables.orderEvents <+: s'.db.tables.orderEvents

theorem Rely.refl (t : Tid) (s : State) : Rely t s s where
  grows := .refl _
  committed := id
  bumped := .inl
  deleted _ := .inl
  readAt := rfl
  header := rfl
  opened := rfl
  released := rfl
  transaction _ := rfl
  holder _ _ := Iff.rfl
  locked _ _ _ := rfl
  generated _ := id
  unborn _ _ := id
  events := List.prefix_rfl

theorem Rely.trans {t : Tid} {s s' s'' : State} (h : Rely t s s') (h' : Rely t s' s'') :
    Rely t s s'' where
  grows := h.grows.trans h'.grows
  committed := h.committed ∘ h'.committed
  bumped mem := (h'.bumped mem).elim h.bumped fun committed => .inr (h.committed committed)
  deleted id mem :=
    (h'.deleted id mem).elim (h.deleted id) fun committed => .inr (h.committed committed)
  readAt := h'.readAt.trans h.readAt
  header := h'.header.trans h.header
  opened := h'.opened.trans h.opened
  released := h'.released.trans h.released
  transaction active := (h'.transaction (h.released.trans active)).trans (h.transaction active)
  holder active id := (h'.holder (h.released.trans active) id).trans (h.holder active id)
  locked active id held :=
    (h'.locked (h.released.trans active) id ((h.holder active id).mpr held)).trans
      (h.locked active id held)
  generated id := h'.generated id ∘ h.generated id
  unborn id own none := h'.unborn id (h.generated id own) (h.unborn id own none)
  events := h.events.trans h'.events

/-! ### What a request knows of itself -/

/-- The request has changed nothing yet that others could see. -/
structure Untouched (t : Tid) (s : State) : Prop where
  committed : ¬ s.history.Committed t
  bumped : t ∉ s.history.bumped
  deleted : ∀ id, (t, orderEntityKey id) ∉ s.history.deleted

theorem Untouched.later {t : Tid} {s s' : State} (h : Untouched t s) (step : Rely t s s') :
    Untouched t s' where
  committed now := h.committed (step.committed now)
  bumped now := (step.bumped now).elim h.bumped h.committed
  deleted id now := (step.deleted id now).elim (h.deleted id) h.committed

/-- The request has changed nothing yet, and all the connections it was given are open. -/
structure Clean (t : Tid) (opened : ℕ) (s : State) : Prop extends
    untouched : Untouched t s where
  opened : s.opened t = opened
  released : s.released t = 0

theorem Clean.later {t : Tid} {n : ℕ} {s s' : State} (h : Clean t n s) (step : Rely t s s') :
    Clean t n s' where
  untouched := h.untouched.later step
  opened := step.opened.trans h.opened
  released := step.released.trans h.released

/-- The request has changed nothing yet, and this is the transaction on its connection. -/
structure Session (t : Tid) (opened : ℕ) (tx : Option Transaction) (s : State) : Prop extends
    clean : Clean t opened s where
  transaction : s.db.transaction t = tx

theorem Session.later {t : Tid} {n : ℕ} {tx : Option Transaction} {s s' : State}
    (h : Session t n tx s) (step : Rely t s s') : Session t n tx s' where
  clean := h.clean.later step
  transaction := (step.transaction h.released).trans h.transaction

/-- A request that has not done anything yet. -/
structure Fresh (t : Tid) (s : State) : Prop extends session : Session t 0 none s where
  header : s.header t = none

theorem Fresh.later {t : Tid} {s s' : State} (h : Fresh t s) (step : Rely t s s') :
    Fresh t s' where
  session := h.session.later step
  header := step.header.trans h.header

/-- The discipline of the order service. -/
def core (ctx : ApiContext) (A : Assumptions) : Discipline (machine ctx) where
  inv := Inv ctx A
  fresh := Fresh
  rely := Rely
  rely_refl := Rely.refl
  rely_trans := Rely.trans
  fresh_rely := Fresh.later

/-- `s` lies behind `base`. -/
structure Since (base s : State) : Prop where
  commits : base.history.commits <+: s.history.commits
  deleted : base.history.deleted <+: s.history.deleted
  bumped : base.history.bumped <+: s.history.bumped
  events : base.db.tables.orderEvents <+: s.db.tables.orderEvents

theorem Since.refl (s : State) : Since s s :=
  ⟨List.prefix_rfl, List.prefix_rfl, List.prefix_rfl, List.prefix_rfl⟩

theorem Since.initial (s : State) : Since State.initial s :=
  ⟨List.nil_prefix, List.nil_prefix, List.nil_prefix, List.nil_prefix⟩

theorem Since.later {base s s' : State} {t : Tid} (step : Rely t s s') (h : Since base s) :
    Since base s' := by
  obtain ⟨later, append, _⟩ := step.grows.commits
  exact ⟨h.commits.trans ⟨later, append.symm⟩, h.deleted.trans step.grows.deleted,
    h.bumped.trans step.grows.bumped, h.events.trans step.events⟩

/-- The discipline of the order service from a moment on. -/
def discipline (ctx : ApiContext) (A : Assumptions) (base : State) : Discipline (machine ctx) :=
  (core ctx A).since (Since base)

end OrderRoutes

end OrderPlatform
