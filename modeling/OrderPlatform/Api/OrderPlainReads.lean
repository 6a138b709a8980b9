import OrderPlatform.Api.OrderRuns

/-!
# Reading through the caches

While nobody writes, the caches cannot be told from the database: whatever Redis loses, refuses
or executes late, a `GET` answers what it would answer with the caches switched off
(`cached_reads_agree`).

The tables are fixed, and the order in which a list query returns rows that were created at the
same time is a function of the query.  A value is then the right one for its key or it is not,
and the invariant is that every value that Redis holds, or may still come to hold, is
(`PlainEntry`).  What a program may return is a set of values that depends on neither the state
nor the thread, so the rules of the contract logic shrink to the few that `Yields` has.

* `ReadRequest`, `reading` — the two reading routes.
* `plainAnswer` — what they answer without a cache.
* `Yields` — what a program returns and throws in any such run.
-/

namespace OrderPlatform

/-! ### A server that holds values of one kind only -/

namespace Redis

/-- A command writes only values that are right for their key, and counts nothing. -/
def Command.Writes (right : String → String → Prop) : Command → Prop
  | .set key value _ => right key value
  | .setNx key value _ => right key value
  | .incr _ => False
  | _ => True

/-- Every value that is stored, or that a command on its way may store, is right for its key. -/
structure Server.Keeps (right : String → String → Prop) (server : Server) : Prop where
  stored : ∀ key entry, server.store key = some entry → right key entry.value
  sent : ∀ c ∈ server.inFlight, c.Writes right

variable {right : String → String → Prop} {server server' : Server}

private theorem stored_apply {c : Command} {store store' : Store} {r : c.Reply}
    (writes : c.Writes right) (stored : ∀ key entry, store key = some entry → right key entry.value)
    (happly : c.apply store = some (r, store')) (key : String) (entry : Entry)
    (after : store' key = some entry) : right key entry.value := by
  by_cases other : key = c.key
  · subst other
    rcases Command.apply_key happly after with old | ⟨v, n, hc, rfl⟩ | incr
    · exact stored _ _ old
    · rcases hc with hc | hc
      · rw [hc] at writes
        exact writes
      · rw [hc] at writes
        exact writes
    · rw [incr] at writes
      exact writes.elim
  · rw [Command.apply_other happly other] at after
    exact stored _ _ after

/-- A command of a client, whatever becomes of it. -/
theorem Server.Keeps.call {c : Command} (keeps : server.Keeps right) (writes : c.Writes right)
    (fault : Fault) : (server.call fault c).2.Keeps right := by
  cases fault with
  | refused => exact keeps
  | late =>
      refine ⟨keeps.stored, ?_⟩
      rintro c' (_ | ⟨_, mem⟩)
      · exact writes
      · exact keeps.sent c' mem
  | none =>
      unfold Server.call
      cases happly : c.apply server.store with
      | none => exact keeps
      | some x => exact ⟨stored_apply writes keeps.stored happly, keeps.sent⟩

/-- What the server does on its own. -/
theorem Server.Keeps.event {e : Event} (keeps : server.Keeps right)
    (hevent : server.event e = some server') : server'.Keeps right := by
  have forget : ∀ key, Keeps right { server with store := Function.update server.store key none } := by
    refine fun key => ⟨fun key' entry after => ?_, keeps.sent⟩
    change Function.update server.store key none key' = some entry at after
    by_cases same : key' = key
    · rw [same, Function.update_self] at after
      cases after
    · rw [Function.update_of_ne same] at after
      exact keeps.stored key' entry after
  cases e with
  | expire key =>
      simp only [Server.event] at hevent
      split at hevent
      · cases hevent
        exact forget key
      · cases hevent
  | evict key =>
      simp only [Server.event] at hevent
      split at hevent
      · cases hevent
        exact forget key
      · cases hevent
  | land position =>
      obtain ⟨c, found, rfl⟩ := Option.map_eq_some_iff.mp hevent
      refine ⟨?_, fun c' mem => keeps.sent c' (List.mem_of_mem_eraseIdx mem)⟩
      cases happly : c.apply server.store with
      | none => exact keeps.stored
      | some x => exact stored_apply (keeps.sent c (List.mem_of_getElem? found)) keeps.stored happly

end Redis

namespace OrderRoutes

open Async (Tid Pool Move Machine Regime Contract Discipline)
open Text (Json)

/-! ### What is read without a cache -/

/-- The requests that only read. -/
inductive ReadRequest
  | getOrder (user : Uuid) (id : String)
  | listOrders (user : Uuid) (query : ListOrdersQuery)
deriving DecidableEq

/-- The handlers of the reading routes. -/
def reading (ctx : ApiContext) : ReadRequest → (machine ctx).Task HttpResponse
  | .getOrder user id => handler ctx (.getOrder user id)
  | .listOrders user query => handler ctx (.listOrders user query)

/-- In which order Postgres returns the rows that a list query selects. -/
abbrev RowOrder := OrderFilter → ℕ → ℕ → List OrderRow

/-- The runs in which every query is a function of the tables: of rows with one time the query
returns the same order whenever it is made, or it fails. -/
def readRegime (ctx : ApiContext) (order : RowOrder) : Regime (machine ctx) where
  advance := fun _ c o _ =>
    match o with
    | .work (.sql (.selectOrders filter limit offset)) =>
        c = .rows (order filter limit offset) ∨ c = .fails
    | _ => True
  event := fun _ _ => True
  crash := fun _ _ => True

instance decidableReads {ctx : ApiContext} {order : RowOrder} (t : Tid)
    (c : (machine ctx).Choice) : (o : (machine ctx).Op) → (s : (machine ctx).State) →
      Decidable ((readRegime ctx order).advance t c o s)
  | .work (.sql (.selectOrders filter limit offset)), _ =>
      inferInstanceAs (Decidable (c = Choice.rows (order filter limit offset) ∨ c = Choice.fails))
  | .redis _, _ => .isTrue trivial
  | .work .connect, _ => .isTrue trivial
  | .work .release, _ => .isTrue trivial
  | .work .randomUUID, _ => .isTrue trivial
  | .work .clock, _ => .isTrue trivial
  | .work (.header _), _ => .isTrue trivial
  | .work (.sql .begin), _ => .isTrue trivial
  | .work (.sql .commit), _ => .isTrue trivial
  | .work (.sql .rollback), _ => .isTrue trivial
  | .work (.sql (.selectOrder _)), _ => .isTrue trivial
  | .work (.sql (.selectOrderForUpdate _)), _ => .isTrue trivial
  | .work (.sql (.updateOrder _ _)), _ => .isTrue trivial
  | .work (.sql (.insertOrder _ _ _ _ _)), _ => .isTrue trivial
  | .work (.sql (.insertOrderEvent _ _ _ _ _ _)), _ => .isTrue trivial
  | .work (.sql (.insertOutboxEvent _)), _ => .isTrue trivial
  | .work (.sql (.countOrders _)), _ => .isTrue trivial

instance decidableReadEvents {ctx : ApiContext} {order : RowOrder} (e : (machine ctx).Event)
    (s : (machine ctx).State) : Decidable ((readRegime ctx order).event e s) := .isTrue trivial

instance decidableReadCrashes {ctx : ApiContext} {order : RowOrder} (t : Tid)
    (s : (machine ctx).State) : Decidable ((readRegime ctx order).crash t s) := .isTrue trivial

/-- The service over these tables and an empty Redis. -/
def State.over (T : Tables) : State :=
  { State.initial with db := { Database.initial with tables := T } }

section

variable (ctx : ApiContext) (T : Tables) (order : RowOrder)

/-- The rows of a page. -/
def plainRows (filter : OrderFilter) (limit offset : ℕ) : List OrderRow :=
  ((order filter limit offset).drop offset).take limit

/-- The page that Postgres has. -/
def plainPage (query : ListOrdersQuery) (user : Uuid) : Json :=
  pageBody query (plainRows order (query.filter ctx user) query.pageSize (paginationOffset query))
    (T.select ctx (query.filter ctx user)).length

/-- **What a reading request answers without a cache.** -/
def plainAnswer : ReadRequest → HttpResponse
  | .getOrder user id =>
      match T.order? (.ofText id) with
      | some row => if row.userId = user then ⟨200, some (orderBody (some row))⟩ else orderNotFound
      | none => orderNotFound
  | .listOrders user query => ⟨200, some (plainPage ctx T order query user)⟩

/-- The value of a key: what Postgres has for every request that maps to it. -/
inductive PlainEntry : String → String → Prop
  | page (query : ListOrdersQuery) (user : Uuid) :
      PlainEntry (buildListCacheKey cacheNamespaces.ordersList 0 (query.listCacheQuery user))
        (plainPage ctx T order query user).stringify
  | count (query : ListOrdersQuery) (user : Uuid) :
      PlainEntry (buildCountCacheKey cacheNamespaces.ordersList 0
        (countCacheQuery (query.filter ctx user)))
        (toString (T.select ctx (query.filter ctx user)).length)
  | entity (id : String) (row : OrderRow) (found : T.order? (.ofText id) = some row) :
      PlainEntry (orderEntityKey id) (orderBody (some row)).stringify

end

variable {ctx : ApiContext} {T : Tables} {order : RowOrder}

namespace PlainEntry

/-- The list version is never raised. -/
theorem ne_versionKey {key value : String} (entry : PlainEntry ctx T order key value) :
    key ≠ versionKey := by
  intro same
  have family : familyOf key = .version := by rw [same, familyOf_versionKey]
  cases entry with
  | page => simp [familyOf_listKey] at family
  | count => simp [familyOf_countKey] at family
  | entity => simp at family

theorem page_inv {query : ListOrdersQuery} {user : Uuid} {value : String}
    (entry : PlainEntry ctx T order
      (buildListCacheKey cacheNamespaces.ordersList 0 (query.listCacheQuery user)) value) :
    value = (plainPage ctx T order query user).stringify := by
  generalize hkey : buildListCacheKey cacheNamespaces.ordersList 0 (query.listCacheQuery user) =
    key at entry
  have family : familyOf key = .page := by rw [← hkey, familyOf_listKey]
  cases entry with
  | page query' user' =>
      obtain ⟨_, rfl, rfl⟩ := listKey_inj hkey
      rfl
  | count => simp [familyOf_countKey] at family
  | entity => simp at family

theorem count_inv {query : ListOrdersQuery} {user : Uuid} {value : String}
    (entry : PlainEntry ctx T order (buildCountCacheKey cacheNamespaces.ordersList 0
      (countCacheQuery (query.filter ctx user))) value) :
    value = toString (T.select ctx (query.filter ctx user)).length := by
  generalize hkey : buildCountCacheKey cacheNamespaces.ordersList 0
    (countCacheQuery (query.filter ctx user)) = key at entry
  have family : familyOf key = .count := by rw [← hkey, familyOf_countKey]
  cases entry with
  | page => simp [familyOf_listKey] at family
  | count query' user' =>
      -- requests with the same filters share the count
      obtain ⟨_, same⟩ := countKey_inj hkey
      rw [same]
  | entity => simp at family

theorem entity_inv {id value : String} (entry : PlainEntry ctx T order (orderEntityKey id) value) :
    ∃ row, T.order? (.ofText id) = some row ∧ value = (orderBody (some row)).stringify := by
  generalize hkey : orderEntityKey id = key at entry
  have family : familyOf key = .entity := by rw [← hkey, familyOf_entityKey]
  cases entry with
  | page => simp [familyOf_listKey] at family
  | count => simp [familyOf_countKey] at family
  | entity id' row found =>
      cases orderEntityKey_injective hkey
      exact ⟨row, found, rfl⟩

end PlainEntry

/-! ### The invariant -/

/-- The tables stay what they are, no transaction is open, and every value in Redis is right. -/
structure PlainInv (ctx : ApiContext) (T : Tables) (order : RowOrder) (s : State) : Prop where
  keeps : s.server.Keeps (PlainEntry ctx T order)
  tables : s.db.tables = T
  idle : ∀ t, s.db.transaction t = none

/-- Nothing but the invariant has to be known. -/
def plainDiscipline (ctx : ApiContext) (T : Tables) (order : RowOrder) :
    Discipline (machine ctx) where
  inv := PlainInv ctx T order
  fresh := fun _ _ => True
  rely := fun _ _ _ => True
  rely_refl := fun _ _ => trivial
  rely_trans := fun _ _ => trivial
  fresh_rely := fun _ _ => trivial

/-- The contract of a reading request. -/
private def reader (ctx : ApiContext) (T : Tables) (order : RowOrder) (t : Tid) :
    Contract (machine ctx) :=
  (plainDiscipline ctx T order).contract (readRegime ctx order) t

/-- **In every run over the tables**, the program returns only values in `Q` and throws only errors
in `E`. -/
def Yields (ctx : ApiContext) (T : Tables) (order : RowOrder) {α : Type} (Q : α → Prop)
    (E : ApiError → Prop) (task : Route α) : Prop :=
  ∀ t s, PlainInv ctx T order s →
    (reader ctx T order t).quiet.Holds (fun a _ => Q a) (fun e _ => E e) task s

namespace Yields

variable {α β : Type} {Q : α → Prop} {Q' : β → Prop} {E E' : ApiError → Prop}
variable {p : Route α} {f : α → Route β}

theorem done {a : α} (h : Q a) : Yields ctx T order Q E (.done a) := fun _ _ _ _ _ => h

theorem thrown {e : ApiError} (h : E e) : Yields ctx T order Q E (.thrown e) := fun _ _ _ _ _ => h

theorem bind (h : Yields ctx T order Q E p) (next : ∀ a, Q a → Yields ctx T order Q' E (f a)) :
    Yields ctx T order Q' E (p.bind f) := by
  intro t s inv
  refine Contract.Holds.chain (h t s inv) ⟨inv, trivial⟩ fun a s' known here => ?_
  exact next a known t s' here.1

theorem attempt {handler : ApiError → Route α} (h : Yields ctx T order Q E p)
    (handle : ∀ e, E e → Yields ctx T order Q E' (handler e)) :
    Yields ctx T order Q E' (p.attempt handler) := by
  intro t s inv
  refine Contract.Holds.attempt ((h t s inv).mono (fun _ _ known => known) ?_) ⟨inv, trivial⟩
  exact fun e s' error here => handle e error t s' here.1

/-- Whatever is caught is turned into something to return. -/
theorem recover {handler : ApiError → α} (h : Yields ctx T order Q E p)
    (handle : ∀ e, Q (handler e)) :
    Yields ctx T order Q E' (p.attempt fun e => .done (handler e)) :=
  h.attempt fun e _ => done (handle e)

theorem both {q : Route β} (hp : Yields ctx T order Q E p) (hq : Yields ctx T order Q' E q) :
    Yields ctx T order (fun x => Q x.1 ∧ Q' x.2) E (p.both q) :=
  fun t s inv => Contract.Holds.both (hp t s inv) (hq t s inv)

/-- **A Redis command.**  It is answered from the values that are right, or it throws. -/
theorem redis {c : Redis.Command} {Q : c.Reply → Prop}
    (writes : c.Writes (PlainEntry ctx T order))
    (answer : ∀ store reply store',
      (∀ key entry, store key = some entry → PlainEntry ctx T order key entry.value) →
      c.apply store = some (reply, store') → Q reply) :
    Yields ctx T order Q (fun _ => True) (OrderPlatform.redis c) := by
  intro t s _ s' interrupted
  have inv : PlainInv ctx T order s' := interrupted.1
  refine ⟨trivial, fun choice r s'' _ hexec => ?_⟩
  obtain ⟨fault, rfl, answered, rfl⟩ := exec_redis hexec
  have after : PlainInv ctx T order (s'.redis t fault c).2 :=
    ⟨inv.keeps.call writes fault, inv.tables, inv.idle⟩
  refine ⟨⟨⟨after, fun _ _ => trivial⟩, after, trivial⟩, ?_⟩
  cases r with
  | none => exact fun _ _ => trivial
  | some reply =>
      refine fun _ _ => ?_
      cases fault with
      | none =>
          simp only [State.redis, Redis.Server.call] at answered
          split at answered
          · rename_i reply' store' happly
            cases answered
            exact answer _ _ _ inv.keeps.stored happly
          · cases answered
      | refused => cases answered
      | late => cases answered

/-- **A query**: a statement that leaves the database as it is. -/
theorem query {st : Statement} {Q : st.Result → Prop}
    (answer : ∀ t c s sorted r db, (readRegime ctx order).advance t c (.work (.sql st)) s →
      (c = .rows sorted ∨ c = .succeeds) → s.db.transaction t = none → s.db.tables = T →
        s.db.perform ctx t sorted st = some (r, db) →
          db = s.db ∧ ∃ result, r = some result ∧ Q result) :
    Yields ctx T order Q (fun e => e = .database) (OrderRoutes.query st) := by
  intro t s _ s' interrupted
  have inv : PlainInv ctx T order s' := interrupted.1
  refine ⟨trivial, fun choice r s'' allowed hexec => ?_⟩
  -- the statement fails, and has no transaction to abort; or it performs
  have cases : s''.server = s'.server ∧ s''.db = s'.db ∧
      (r = none ∨ ∃ result, r = some result ∧ Q result) := by
    have live : ∀ tx, s'.db.transaction t = some tx → tx.aborted = false := by
      rw [inv.idle t]
      nofun
    have performs : ∀ fails sorted, (fails = true ∨ choice = .rows sorted ∨ choice = .succeeds) →
        s'.sql ctx t fails sorted st = some (r, s'') → s''.server = s'.server ∧ s''.db = s'.db ∧
          (r = none ∨ ∃ result, r = some result ∧ Q result) := by
      intro fails sorted how sql
      obtain ⟨db, hdb, rfl⟩ := sql_cases sql
      rcases Database.exec_live live hdb with ⟨rfl, rfl⟩ | performed
      · exact ⟨rfl, Database.abort_of_none (inv.idle t), .inl rfl⟩
      · rcases how with rfl | how
        · simp only [Database.exec, if_true] at hdb
          cases hdb
          exact ⟨rfl, Database.abort_of_none (inv.idle t), .inl rfl⟩
        · obtain ⟨same, found⟩ :=
            answer t choice s' sorted r db allowed how (inv.idle t) inv.tables performed
          exact ⟨rfl, same, .inr found⟩
    cases choice with
    | succeeds => exact performs false [] (.inr (.inr rfl)) hexec
    | fails => exact performs true [] (.inl rfl) hexec
    | rows sorted => exact performs false sorted (.inr (.inl rfl)) hexec
    | redis fault => cases hexec
    | fresh id => cases hexec
    | time ms => cases hexec
  obtain ⟨server, db, outcome⟩ := cases
  have after : PlainInv ctx T order s'' :=
    ⟨server ▸ inv.keeps, db ▸ inv.tables, db ▸ inv.idle⟩
  refine ⟨⟨⟨after, fun _ _ => trivial⟩, after, trivial⟩, ?_⟩
  rcases outcome with rfl | ⟨result, rfl, known⟩
  · exact fun _ _ => rfl
  · exact fun _ _ => known

theorem selectOrder (id : String) :
    Yields ctx T order (fun row => row = T.order? (.ofText id)) (fun e => e = .database)
      (OrderRoutes.query (.selectOrder id)) := by
  refine query fun t c s sorted r db _ _ idle tables performed => ?_
  simp only [Database.perform, Database.view_of_none idle, tables] at performed
  cases performed
  exact ⟨rfl, _, rfl, rfl⟩

theorem countOrders (filter : OrderFilter) :
    Yields ctx T order (fun text => text = toString (T.select ctx filter).length)
      (fun e => e = .database) (OrderRoutes.query (.countOrders filter)) := by
  refine query fun t c s sorted r db _ _ idle tables performed => ?_
  simp only [Database.perform, Database.view_of_none idle, tables] at performed
  cases performed
  exact ⟨rfl, _, rfl, rfl⟩

/-- The rows of a list query come in the order that is fixed for it. -/
theorem selectOrders (filter : OrderFilter) (limit offset : ℕ) :
    Yields ctx T order (fun rows => rows = plainRows order filter limit offset)
      (fun e => e = .database) (OrderRoutes.query (.selectOrders filter limit offset)) := by
  refine query fun t c s sorted r db allowed how _ _ performed => ?_
  have ordered : sorted = order filter limit offset := by
    rcases allowed with rfl | rfl
    · rcases how with same | other
      · cases same
        rfl
      · cases other
    · rcases how with other | other <;> cases other
  rw [ordered] at performed
  simp only [Database.perform] at performed
  split at performed
  · cases performed
    exact ⟨rfl, _, rfl, rfl⟩
  · cases performed

theorem header (value : XCache) :
    Yields ctx T order (fun _ => True) (fun _ => False) (OrderRoutes.header value) := by
  intro t s _ s' interrupted
  have inv : PlainInv ctx T order s' := interrupted.1
  refine ⟨trivial, fun choice r s'' _ hexec => ?_⟩
  obtain ⟨rfl, rfl⟩ := exec_header hexec
  exact ⟨⟨⟨⟨inv.keeps, inv.tables, inv.idle⟩, fun _ _ => trivial⟩,
    ⟨inv.keeps, inv.tables, inv.idle⟩, trivial⟩, fun _ _ => trivial⟩

theorem mono {E E' : ApiError → Prop} {Q Q' : α → Prop} (h : Yields ctx T order Q E p)
    (hQ : ∀ a, Q a → Q' a) (hE : ∀ e, E e → E' e) : Yields ctx T order Q' E' p :=
  fun t s inv => (h t s inv).mono (fun a _ known => hQ a known) fun e _ error => hE e error

/-- The value of a key: if there is one, it is the right one. -/
theorem get {key : String} {right : String → Prop}
    (entry : ∀ value, PlainEntry ctx T order key value → right value) :
    Yields ctx T order (fun cached => ∀ value, cached = some value → right value) (fun _ => True)
      (OrderPlatform.redis (.get key)) := by
  refine redis trivial fun store reply store' stored happly => ?_
  cases happly
  intro value cached
  obtain ⟨found, there, rfl⟩ := Option.map_eq_some_iff.mp cached
  exact entry _ (stored key found there)

/-- The write behind a miss. -/
theorem writeBack {key value : String} {seconds : ℕ} (entry : PlainEntry ctx T order key value) :
    Yields ctx T order (fun _ => True) E
      (((cacheSet key value seconds).bind fun _ => OrderRoutes.header .miss).attempt
        fun _ => .done ()) := by
  refine recover (E := fun _ => True) (bind (Q := fun _ => True) ?_ fun _ _ => ?_) fun _ => trivial
  · exact redis entry fun _ _ _ _ _ => trivial
  · exact (header .miss).mono (fun _ known => known) fun _ impossible => impossible.elim

end Yields

/-! ### The caches -/

/-- The version stays at zero: nobody raises it. -/
private theorem yields_version :
    Yields ctx T order (fun v => v = 0) (fun _ => True)
      (cacheGetNamespaceVersion cacheNamespaces.ordersList) := by
  refine Yields.bind ((@Yields.get _ _ _ _ (fun _ => False)) ?_) fun raw absent => .done ?_
  · exact fun value entry => entry.ne_versionKey rfl
  · cases raw with
    | none => rfl
    | some value => exact (absent value rfl).elim

private theorem yields_fetchCount (filter : OrderFilter) :
    Yields ctx T order (fun total => total = (T.select ctx filter).length)
      (fun e => e = .database) (fetchCount filter) := by
  refine (Yields.countOrders filter).bind fun text same => .done ?_
  rw [same, countOf_toString]
  rfl

/-- What a read of the caches came to: a right value, or the key to write back to. -/
private structure ReadRight {α : Type} (right : α → Prop) (cacheKey : String) (found : CacheRead α) :
    Prop where
  served : ∀ value, found = .served value → right value
  missed : ∀ key, found = .missed key → key = cacheKey

private theorem readRight_served {α : Type} {right : α → Prop} {cacheKey : String} {value : α}
    (known : right value) : ReadRight right cacheKey (.served value) := by
  constructor
  · rintro _ ⟨⟩
    exact known
  · rintro _ ⟨⟩

private theorem readRight_missed {α : Type} {right : α → Prop} {cacheKey : String} :
    ReadRight right cacheKey (.missed cacheKey) := by
  constructor
  · rintro _ ⟨⟩
  · rintro _ ⟨⟩
    rfl

private theorem readRight_failed {α : Type} {right : α → Prop} {cacheKey : String} :
    ReadRight right cacheKey .failed := by
  constructor
  · rintro _ ⟨⟩
  · rintro _ ⟨⟩

/-- **The count cache** yields the count. -/
private theorem yields_withCountCache (query : ListOrdersQuery) (user : Uuid) :
    Yields ctx T order (fun total => total = (T.select ctx (query.filter ctx user)).length)
      (fun e => e = .database)
      (withCountCache ctx ⟨cacheNamespaces.ordersList,
        countCacheQuery (query.filter ctx user), none⟩ (fetchCount (query.filter ctx user))) := by
  unfold withCountCache
  split
  · refine Yields.bind (Q := ReadRight
      (fun total => total = (T.select ctx (query.filter ctx user)).length)
      (buildCountCacheKey cacheNamespaces.ordersList 0
        (countCacheQuery (query.filter ctx user)))) ?_ ?_
    · refine Yields.recover (E := fun _ => True) ?_ fun _ => readRight_failed
      refine yields_version.bind ?_
      rintro v rfl
      refine (Yields.get fun value entry => entry.count_inv).bind fun cached right => ?_
      cases cached with
      | none => exact .done readRight_missed
      | some value =>
          simp only [Option.bind_some, right value rfl, countOf_toString]
          exact .done (readRight_served rfl)
    · rintro (total | key | _) known
      · exact .done (known.served total rfl)
      · obtain rfl := known.missed key rfl
        refine (yields_fetchCount _).bind ?_
        rintro total rfl
        refine Yields.bind (Q := fun _ => True) (Yields.recover (E := fun _ => True) ?_ fun _ =>
          trivial) fun _ _ => .done rfl
        exact Yields.redis (.count query user) fun _ _ _ _ _ => trivial
      · exact yields_fetchCount _
  · exact yields_fetchCount _

/-- A page from Postgres, its total perhaps from the count cache. -/
private theorem yields_fetchOrdersPage (query : ListOrdersQuery) (user : Uuid) :
    Yields ctx T order (fun body => body = plainPage ctx T order query user)
      (fun e => e = .database) (fetchOrdersPage ctx query user) := by
  refine ((Yields.selectOrders _ _ _).both (yields_withCountCache query user)).bind ?_
  rintro ⟨rows, total⟩ ⟨rfl, rfl⟩
  exact .done rfl

/-- **`GET /v1/orders`** yields the page that Postgres has. -/
private theorem yields_listOrders (query : ListOrdersQuery) (user : Uuid) :
    Yields ctx T order (fun response => response = plainAnswer ctx T order (.listOrders user query))
      (fun e => e = .database) (listOrders ctx user query) := by
  refine Yields.bind (Q := fun body => body = plainPage ctx T order query user) ?_ fun body same =>
    .done (by rw [same]; rfl)
  unfold withListCache
  split
  · refine Yields.bind (Q := ReadRight (fun body => body = plainPage ctx T order query user)
      (buildListCacheKey cacheNamespaces.ordersList 0 (query.listCacheQuery user))) ?_ ?_
    · refine Yields.recover (E := fun _ => True) ?_ fun _ => readRight_failed
      refine yields_version.bind ?_
      rintro v rfl
      refine (Yields.get fun value entry => entry.page_inv).bind fun cached right => ?_
      cases cached with
      | none => exact .done readRight_missed
      | some value =>
          rw [right value rfl]
          refine ((Yields.header .hit).mono (fun _ known => known) fun _ impossible =>
            impossible.elim).bind fun _ _ => ?_
          simp only [jsonParse, Json.parse_stringify]
          exact .done (readRight_served rfl)
    · rintro (body | key | _) known
      · exact .done (known.served body rfl)
      · obtain rfl := known.missed key rfl
        refine (yields_fetchOrdersPage query user).bind ?_
        rintro body rfl
        exact (Yields.writeBack (.page query user)).bind fun _ _ => .done rfl
      · exact yields_fetchOrdersPage query user
  · exact yields_fetchOrdersPage query user

/-- The fetcher of the entity cache finds the order that Postgres has. -/
private theorem yields_fetchOrder (id : String) :
    Yields ctx T order
      (fun found => found = (T.order? (.ofText id)).map fun row => orderBody (some row))
      (fun e => e = .database) (fetchOrder id) := by
  refine (Yields.selectOrder id).bind ?_
  rintro row rfl
  exact .done rfl

/-- The entity cache yields the order that Postgres has. -/
private theorem yields_withEntityCache (id : String) :
    Yields ctx T order
      (fun found => found = (T.order? (.ofText id)).map fun row => orderBody (some row))
      (fun e => e = .database)
      (withEntityCache ctx ⟨orderEntityKey id, header, none⟩ (fetchOrder id)) := by
  unfold withEntityCache
  split
  · refine Yields.bind (Q := fun found : CacheRead Json =>
      ∀ body, found = .served body →
        ∃ row, T.order? (.ofText id) = some row ∧ body = orderBody (some row)) ?_ ?_
    · refine Yields.recover (E := fun _ => True) ?_ fun _ => nofun
      refine (Yields.get fun value entry => entry.entity_inv).bind fun cached right => ?_
      cases cached with
      | none => exact .done nofun
      | some value =>
          obtain ⟨row, found, rfl⟩ := right value rfl
          refine ((Yields.header .hit).mono (fun _ known => known) fun _ impossible =>
            impossible.elim).bind fun _ _ => ?_
          simp only [jsonParse, Json.parse_stringify]
          refine .done ?_
          rintro _ ⟨⟩
          exact ⟨row, found, rfl⟩
    -- a miss and a failing cache end in the same fetch; only the write-back differs
    · have fetch : ∀ {writeBack : Option Json → Route (Option Json)},
          writeBack none = .done none →
          (∀ result, writeBack (some result) =
            (((cacheSet (orderEntityKey id) result.stringify
                ((none : Option ℕ).getD ctx.config.cacheTtlSeconds)).bind fun _ =>
              header .miss).attempt fun _ => .done ()).bind fun _ => .done (some result)) →
          Yields ctx T order
            (fun found => found = (T.order? (.ofText id)).map fun row => orderBody (some row))
            (fun e => e = .database) ((fetchOrder id).bind writeBack) := by
        intro writeBack absent present
        refine (yields_fetchOrder id).bind ?_
        rintro found rfl
        cases row : T.order? (.ofText id) with
        | none =>
            rw [Option.map_none, absent]
            exact .done rfl
        | some row' =>
            rw [Option.map_some, present]
            exact (Yields.writeBack (.entity id row' row)).bind fun _ _ => .done rfl
      rintro (body | key | _) known
      · obtain ⟨row, found, rfl⟩ := known body rfl
        rw [found]
        exact .done rfl
      · exact fetch rfl fun _ => rfl
      · exact fetch rfl fun _ => rfl
  · exact yields_fetchOrder id

/-- **`GET /v1/orders/:id`** yields the order that Postgres has, to its user. -/
private theorem yields_getOrder (user : Uuid) (id : String) :
    Yields ctx T order (fun response => response = plainAnswer ctx T order (.getOrder user id))
      (fun e => e = .database) (getOrder ctx user id) := by
  refine (yields_withEntityCache id).bind ?_
  rintro found rfl
  cases row : T.order? (.ofText id) with
  | none =>
      refine .done ?_
      simp only [plainAnswer, row]
  | some row' =>
      rw [Option.map_some, checkOwner_orderBody]
      simp only [plainAnswer, row]
      split
      · exact .done rfl
      · exact .done rfl

/-! ### With and without -/

/-- The runs of the reading routes over these tables, from an empty Redis on. -/
abbrev Reads (ctx : ApiContext) (T : Tables) (order : RowOrder)
    (p : Pool (machine ctx) ReadRequest HttpResponse) : Prop :=
  Pool.Steps (readRegime ctx order) (reading ctx) (Pool.idle (State.over T)) p

private theorem idle_endTransaction {db : Database} (idle : ∀ t, db.transaction t = none)
    (t u : Tid) : (db.endTransaction t).transaction u = none := by
  by_cases same : u = t
  · rw [same]
    exact Function.update_self _ _ _
  · exact (Function.update_of_ne same _ _).trans (idle u)

/-- **What a reading request answers** does not depend on the caches. -/
theorem sound_of_reads {p : Pool (machine ctx) ReadRequest HttpResponse}
    (run : Reads ctx T order p) :
    Discipline.Sound (plainDiscipline ctx T order) (readRegime ctx order)
      (fun _ request response _ => response = plainAnswer ctx T order request)
      (fun _ _ e _ => e = .database) p := by
  have initial : PlainInv ctx T order (State.over T) := ⟨⟨nofun, nofun⟩, rfl, fun _ => rfl⟩
  refine (Discipline.sound_idle initial fun _ => trivial).steps ⟨?_, ?_⟩ ?_ run
  · -- what the environment does
    intro e s s' inv _ hevent
    cases e with
    | redis e =>
        obtain ⟨server, hserver, rfl⟩ := Option.map_eq_some_iff.mp hevent
        exact ⟨⟨inv.keeps.event hserver, inv.tables, inv.idle⟩, fun _ => trivial⟩
    | tick =>
        cases hevent
        exact ⟨⟨inv.keeps, inv.tables, inv.idle⟩, fun _ => trivial⟩
    | reset t =>
        simp only [State.event] at hevent
        split at hevent
        · cases hevent
          exact ⟨⟨inv.keeps, inv.tables, idle_endTransaction inv.idle t⟩, fun _ => trivial⟩
        · cases hevent
  · intro t s inv _
    exact ⟨⟨inv.keeps, inv.tables, idle_endTransaction inv.idle t⟩, fun _ _ => trivial⟩
  · intro t request s inv _
    cases request with
    | getOrder user id => exact Contract.Holds.of_quiet (yields_getOrder user id t s inv)
    | listOrders user query => exact Contract.Holds.of_quiet (yields_listOrders query user t s inv)

/-- The service with the caches switched off. -/
def withoutCache (ctx : ApiContext) : ApiContext :=
  { ctx with config := { ctx.config with cacheEnabled := false } }

/-- The response that some request is given in some run over the tables without a cache. -/
def AnsweredPlainly (ctx : ApiContext) (T : Tables) (order : RowOrder) (request : ReadRequest)
    (response : HttpResponse) : Prop :=
  ∃ (p : Pool (machine (withoutCache ctx)) ReadRequest HttpResponse) (t : Tid),
    Reads (withoutCache ctx) T order p ∧ p.Answered t request response

/-- The orders are ones in which Postgres may return the rows. -/
def RowOrder.Legal (order : RowOrder) (ctx : ApiContext) (T : Tables) : Prop :=
  ∀ filter limit offset, (order filter limit offset).Perm (T.select ctx filter) ∧
    (order filter limit offset).Pairwise newestFirst

/-- Without a cache a request for one order is a query. -/
private theorem getOrder_plain (user : Uuid) (id : String) :
    AnsweredPlainly ctx T order (.getOrder user id)
      (plainAnswer ctx T order (.getOrder user id)) := by
  obtain ⟨k, program, result⟩ : ∃ k,
      (reading (withoutCache ctx) (.getOrder user id) :
        (machine (withoutCache ctx)).Task HttpResponse) = .await (.work (.sql (.selectOrder id))) k ∧
      k (some (T.order? (.ofText id))) = .done (plainAnswer ctx T order (.getOrder user id)) := by
    refine ⟨_, rfl, ?_⟩
    cases row : T.order? (.ofText id) with
    | none => simp only [plainAnswer, row]; rfl
    | some row' =>
        refine (checkOwner_orderBody user row').trans ?_
        simp only [plainAnswer, row]
        split <;> rfl
  obtain ⟨q₁, run₁, shared₁, slot₁⟩ := Pool.Steps.start
    (.refl : Pool.Steps (readRegime (withoutCache ctx) order) (reading (withoutCache ctx)) _
      (Pool.idle (State.over T))) (t := 0) rfl (.getOrder user id)
  have asks : q₁.slot 0 = .busy (.getOrder user id) (.await (.work (.sql (.selectOrder id))) k) :=
    (congrFun slot₁ 0).trans ((Function.update_self _ _ _).trans (congrArg _ program))
  obtain ⟨q₂, run₂, -, slot₂⟩ := run₁.advance asks .succeeds trivial (by rw [shared₁]; rfl)
  refine ⟨q₂, 0, run₂, (congrFun slot₂ 0).trans ((Function.update_self _ _ _).trans ?_)⟩
  exact congrArg _ result

/-- Without a cache a list request is two queries. -/
private theorem listOrders_plain (legal : order.Legal ctx T) (user : Uuid)
    (query : ListOrdersQuery) :
    AnsweredPlainly ctx T order (.listOrders user query)
      (plainAnswer ctx T order (.listOrders user query)) := by
  let filter := query.filter ctx user
  let sorted := order filter query.pageSize (paginationOffset query)
  obtain ⟨k, k', right, program, rows, count⟩ : ∃ k k' right,
      (reading (withoutCache ctx) (.listOrders user query) :
        (machine (withoutCache ctx)).Task HttpResponse) =
          .either (.await (.work (.sql
            (.selectOrders filter query.pageSize (paginationOffset query)))) k) right ∧
      k (some ((sorted.drop (paginationOffset query)).take query.pageSize)) =
        .await (.work (.sql (.countOrders filter))) k' ∧
      k' (some (toString (T.select ctx filter).length)) =
        .done (plainAnswer ctx T order (.listOrders user query)) := by
    refine ⟨_, _, _, rfl, rfl, ?_⟩
    have total : (countOf (toString (T.select ctx filter).length)).getD 0 =
        (T.select ctx filter).length := by rw [countOf_toString]; rfl
    exact congrArg (fun total => Async.Program.done (⟨200, some (pageBody query
      (plainRows order filter query.pageSize (paginationOffset query)) total)⟩ : HttpResponse)) total
  -- the run: the request begins, and reads the page before the count
  obtain ⟨q₁, run₁, shared₁, slot₁⟩ := Pool.Steps.start
    (.refl : Pool.Steps (readRegime (withoutCache ctx) order) (reading (withoutCache ctx)) _
      (Pool.idle (State.over T))) (t := 0) rfl (.listOrders user query)
  have forks := (congrFun slot₁ 0).trans ((Function.update_self _ _ _).trans (congrArg _ program))
  obtain ⟨q₂, run₂, shared₂, slot₂⟩ := run₁.pick forks true
  have asks : q₂.slot 0 = .busy (.listOrders user query) (.await (.work (.sql
      (.selectOrders filter query.pageSize (paginationOffset query)))) k) :=
    (congrFun slot₂ 0).trans (Function.update_self _ _ _)
  have found : (machine (withoutCache ctx)).exec 0 (.rows sorted)
      (.work (.sql (.selectOrders filter query.pageSize (paginationOffset query)))) q₂.shared =
        some (some ((sorted.drop (paginationOffset query)).take query.pageSize), State.over T) := by
    rw [shared₂, shared₁]
    have performed : (State.over T).db.exec (withoutCache ctx) 0 false sorted
        (.selectOrders filter query.pageSize (paginationOffset query)) =
          some (some ((sorted.drop (paginationOffset query)).take query.pageSize),
            (State.over T).db) := if_pos (legal filter query.pageSize (paginationOffset query))
    show ((State.over T).db.exec (withoutCache ctx) 0 false sorted _).map _ = _
    rw [performed]
    rfl
  obtain ⟨q₃, run₃, shared₃, slot₃⟩ := run₂.advance asks (.rows sorted) (.inl rfl) found
  have counts := (congrFun slot₃ 0).trans ((Function.update_self _ _ _).trans (congrArg _ rows))
  obtain ⟨q₄, run₄, -, slot₄⟩ := run₃.advance counts .succeeds trivial (by rw [shared₃]; rfl)
  refine ⟨q₄, 0, run₄, (congrFun slot₄ 0).trans ((Function.update_self _ _ _).trans ?_)⟩
  exact congrArg _ count

/-- Without a cache there is one answer. -/
private theorem answeredPlainly_iff (legal : order.Legal ctx T) (request : ReadRequest)
    (response : HttpResponse) :
    AnsweredPlainly ctx T order request response ↔ response = plainAnswer ctx T order request := by
  constructor
  · rintro ⟨p, t, run, answered⟩
    refine ((sound_of_reads run).answered answered).trans ?_
    cases request <;> rfl
  · rintro rfl
    cases request with
    | getOrder user id => exact getOrder_plain user id
    | listOrders user query => exact listOrders_plain legal user query

/-- **The cached read path agrees with the plain one.**  Over fixed tables and from an empty Redis
on, with any Redis faults, expiries and late commands, a response is the one that the service gives
with the caches switched off; and a request fails only where a query does.

Nothing is written in between, so that every entry of the cache is a value that Postgres would give
again; the caches can only choose which of the two answers, not what is answered. -/
theorem cached_reads_agree (legal : order.Legal ctx T)
    {p : Pool (machine ctx) ReadRequest HttpResponse} (run : Reads ctx T order p) {t : Tid}
    {request : ReadRequest} :
    (∀ response, p.Answered t request response →
      ∀ response', AnsweredPlainly ctx T order request response' ↔ response' = response) ∧
    ∀ e, p.Failed t request e → e = .database := by
  refine ⟨fun response answered response' => ?_, fun e => (sound_of_reads run).failed⟩
  rw [answeredPlainly_iff legal, (sound_of_reads run).answered answered]

/-- The tables with this order and no events. -/
def holding (row : OrderRow) : Tables := ⟨[row], [], []⟩

/-- Postgres returns that order where it is asked for. -/
def returning (row : OrderRow) : RowOrder := fun filter _ _ =>
  (holding row).select orderContext filter

/-- Alice and bob ask for the order, Redis refusing one command and executing another one late; the
entry that it leaves behind expires. -/
theorem cached_reads_agree_for_two_users :
    ∃ p : Pool (machine orderContext) ReadRequest HttpResponse,
      Reads orderContext (holding (exampleOrder 1 bob)) (returning (exampleOrder 1 bob)) p ∧
      p.Answered 0 (.getOrder alice (exampleId 1).text) orderNotFound ∧
      p.Answered 1 (.getOrder bob (exampleId 1).text)
        ⟨200, some (orderBody (some (exampleOrder 1 bob)))⟩ ∧
      AnsweredPlainly orderContext (holding (exampleOrder 1 bob)) (returning (exampleOrder 1 bob))
        (.getOrder bob (exampleId 1).text) ⟨200, some (orderBody (some (exampleOrder 1 bob)))⟩ := by
  have legal : RowOrder.Legal (returning (exampleOrder 1 bob)) orderContext
      (holding (exampleOrder 1 bob)) := fun filter _ _ =>
    ⟨.refl _, (List.pairwise_singleton newestFirst (exampleOrder 1 bob)).filter _⟩
  obtain ⟨p, run, refused, shown⟩ := Pool.steps_of_check
    (readRegime orderContext (returning (exampleOrder 1 bob)))
    (reading orderContext) (Pool.idle (State.over (holding (exampleOrder 1 bob))))
    [.start 0 (.getOrder alice (exampleId 1).text), .start 1 (.getOrder bob (exampleId 1).text),
      .advance 0 (.redis .refused), .advance 1 (.redis .none), .advance 0 .succeeds,
      .advance 0 (.redis .late), .advance 1 .succeeds, .advance 1 (.redis .none),
      .event (.redis (.land 0)), .advance 1 .succeeds,
      .event (.redis (.expire (orderEntityKey (exampleId 1).text)))]
    (fun p => p.exchange 0 = some (.getOrder alice (exampleId 1).text, orderNotFound) ∧
      p.exchange 1 = some (.getOrder bob (exampleId 1).text,
        ⟨200, some (orderBody (some (exampleOrder 1 bob)))⟩)) (by decide)
  have shown := Pool.answered_of_exchange shown
  exact ⟨p, run, Pool.answered_of_exchange refused, shown,
    ((cached_reads_agree legal run).1 _ shown _).mpr rfl⟩

end OrderRoutes

end OrderPlatform
