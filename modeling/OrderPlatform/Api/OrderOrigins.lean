import OrderPlatform.Api.OrderRuns

/-!
# Where orders come from

An order in the tables was inserted by a `POST`: it belongs to the user of that request, and its
email is the one of the request in lower case.  This needs nothing but the texts of the handlers
(`handler_inserts`) and what a statement can do to the tables (`written_of_exec`), so it holds in
every run, whatever fails in it (`origin_of_step`).  An order stays, with its user and its email
(`alike_of_steps`).
-/

namespace OrderPlatform

namespace OrderRoutes

open Async (Tid Pool Program Slot Regime)
open Text (Json)

/-! ### The operations of the handlers -/

/-- Any operation but an `INSERT` of an order. -/
def NoInsert (o : Op Work) : Prop :=
  ∀ id userId email items total, o ≠ .work (.sql (.insertOrder id userId email items total))

/-- An `INSERT` of an order is one of a `POST`, for its user and with its email. -/
def Inserts (request : Request) (o : Op Work) : Prop :=
  ∀ id userId email items total, o = .work (.sql (.insertOrder id userId email items total)) →
    ∃ posted data attempts, request = .createOrder userId posted data attempts ∧
      email = data.customerEmail

theorem inserts_of_noInsert {request : Request} {o : Op Work} (h : NoInsert o) :
    Inserts request o :=
  fun id userId email items total same => absurd same (h id userId email items total)

section Texts

variable {P : Op Work → Prop} (plain : ∀ o, NoInsert o → P o)
include plain

theorem only_redis (c : Redis.Command) : (redis c : Route c.Reply).Only P := by
  refine ⟨plain _ nofun, fun r => ?_⟩
  cases r <;> trivial

theorem only_redisIgnoring (c : Redis.Command) : (redisIgnoring c : Route Unit).Only P := by
  unfold redisIgnoring
  exact Program.Only.attempt ((only_redis plain c).bind fun _ => trivial) fun _ => trivial

theorem only_header (value : XCache) : (header value).Only P := ⟨plain _ nofun, fun _ => trivial⟩

omit plain in
theorem only_query {st : Statement} (may : P (.work (.sql st))) : (query st).Only P := by
  refine ⟨may, fun r => ?_⟩
  cases r <;> trivial

omit plain in
theorem only_jsonParse (text : String) : (jsonParse text : Route Json).Only P := by
  unfold jsonParse
  split <;> trivial

omit plain in
theorem only_either {α : Type} (c : Prop) [Decidable c] {p q : Route α} (first : p.Only P)
    (second : q.Only P) : (if c then p else q).Only P := by
  split
  · exact first
  · exact second

theorem only_connect : connect.Only P := by
  refine ⟨plain _ nofun, fun r => ?_⟩
  cases r <;> trivial

theorem only_release : release.Only P := ⟨plain _ nofun, fun _ => trivial⟩

theorem only_randomUUID : randomUUID.Only P := ⟨plain _ nofun, fun _ => trivial⟩

theorem only_clock : clock.Only P := ⟨plain _ nofun, fun _ => trivial⟩

theorem only_withClient {α : Type} {work : Route α} (only : work.Only P) :
    (withClient work).Only P := by
  refine Program.Only.ensuring (only.attempt fun e => ?_) (only_release plain)
  refine Program.Only.bind (Program.Only.attempt ?_ fun _ => trivial) fun _ => trivial
  exact only_query (plain _ nofun)

theorem only_invalidateListNamespace (ctx : ApiContext) (cacheNamespace : String) :
    (invalidateListNamespace ctx cacheNamespace : Route Unit).Only P := by
  unfold invalidateListNamespace
  split
  · exact Program.Only.attempt ((only_redis plain _).bind fun _ => trivial) fun _ => trivial
  · trivial

theorem only_invalidateEntity (ctx : ApiContext) (key : String) :
    (invalidateEntity ctx key : Route Unit).Only P := by
  unfold invalidateEntity
  split
  · exact Program.Only.attempt ((only_redis plain _).bind fun _ => trivial) fun _ => trivial
  · trivial

/-! #### The caches -/

theorem only_withListCache (ctx : ApiContext) (cacheNamespace : String) (q : Query)
    (ttl : Option ℕ) {fetcher : Route Json} (only : fetcher.Only P) :
    (withListCache ctx ⟨cacheNamespace, q, header, ttl⟩ fetcher).Only P := by
  unfold withListCache
  split
  · refine Program.Only.bind ?_ fun read => ?_
    · refine Program.Only.attempt ?_ fun _ => trivial
      refine Program.Only.bind (Program.Only.bind (only_redis plain _) fun _ => trivial)
        fun version => ?_
      refine (only_redis plain _).bind fun cached => ?_
      cases cached with
      | none => trivial
      | some cached =>
          refine (only_header plain _).bind fun _ => ?_
          exact (only_jsonParse cached).bind fun _ => trivial
    · cases read with
      | served value => trivial
      | failed => exact only
      | missed cacheKey =>
          refine only.bind fun result => Program.Only.bind ?_ fun _ => trivial
          refine Program.Only.attempt ?_ fun _ => trivial
          exact (only_redis plain _).bind fun _ => only_header plain _
  · exact only

theorem only_withCountCache (ctx : ApiContext) (options : CountCacheOptions) {fetcher : Route ℕ}
    (only : fetcher.Only P) : (withCountCache ctx options fetcher).Only P := by
  unfold withCountCache
  split
  · refine Program.Only.bind ?_ fun read => ?_
    · refine Program.Only.attempt ?_ fun _ => trivial
      refine Program.Only.bind (Program.Only.bind (only_redis plain _) fun _ => trivial)
        fun version => ?_
      refine (only_redis plain _).bind fun cached => ?_
      split <;> trivial
    · cases read with
      | served value => trivial
      | failed => exact only
      | missed cacheKey =>
          refine only.bind fun result => Program.Only.bind ?_ fun _ => trivial
          exact Program.Only.attempt (only_redis plain _) fun _ => trivial
  · exact only

theorem only_withEntityCache (ctx : ApiContext) (key : String) (ttl : Option ℕ)
    {fetcher : Route (Option Json)} (only : fetcher.Only P) :
    (withEntityCache ctx ⟨key, header, ttl⟩ fetcher).Only P := by
  -- what is done with the result of the fetcher
  have fetched : ∀ k : Option Json → Route (Option Json), k none = .done none →
      (∀ result, k (some result) =
        (((cacheSet key result.stringify (ttl.getD ctx.config.cacheTtlSeconds)).bind fun _ =>
          header .miss).attempt fun _ => .done ()).bind fun _ => .done (some result)) →
      (fetcher.bind k).Only P := by
    intro k nothing found
    refine only.bind fun result => ?_
    cases result with
    | none =>
        rw [nothing]
        trivial
    | some result =>
        rw [found]
        refine Program.Only.bind (Program.Only.attempt ?_ fun _ => trivial) fun _ => trivial
        exact (only_redis plain _).bind fun _ => only_header plain _
  unfold withEntityCache
  split
  · refine Program.Only.bind ?_ fun read => ?_
    · refine Program.Only.attempt ?_ fun _ => trivial
      refine (only_redis plain _).bind fun cached => ?_
      cases cached with
      | none => trivial
      | some cached =>
          refine (only_header plain _).bind fun _ => ?_
          exact (only_jsonParse cached).bind fun _ => trivial
    · cases read with
      | served value => cases value <;> trivial
      | failed => exact fetched _ rfl fun _ => rfl
      | missed cacheKey => exact fetched _ rfl fun _ => rfl
  · exact only

/-! #### The idempotency layer -/

theorem only_readExistingRecord (redisKey requestHash : String) :
    (readExistingRecord redisKey requestHash : Route (Option IdempotencyResult)).Only P := by
  refine (only_redis plain _).bind fun existing => ?_
  cases existing with
  | none => trivial
  | some existing =>
      dsimp only
      split
      · trivial
      · split
        · exact (only_redisIgnoring plain _).bind fun _ => trivial
        · split <;> trivial

theorem only_execute (redisKey requestHash : String) {process : Route IdempotencyResult}
    (only : process.Only P) : (execute redisKey requestHash process).Only P := by
  refine Program.Only.attempt ?_ fun e => ?_
  · refine only.bind fun result => Program.Only.bind ?_ fun _ => trivial
    exact only_either _ (only_redisIgnoring plain _) (only_redis plain _)
  · exact (only_redisIgnoring plain _).bind fun _ => trivial

theorem only_withIdempotency (ctx : ApiContext) (options : IdempotencyOptions)
    {process : Route IdempotencyResult} (only : process.Only P) (attempts : ℕ) :
    (withIdempotency ctx options process attempts).Only P := by
  induction attempts with
  | zero => trivial
  | succ attempts ih =>
      unfold withIdempotency
      split
      · exact only
      · split
        · refine (only_redis plain _).bind fun acquired => ?_
          split
          · exact only_execute plain _ _ only
          · refine (only_readExistingRecord plain _ _).bind fun replay => ?_
            cases replay with
            | none => exact ih
            | some replay => trivial
        · trivial

/-! #### The handlers -/

omit plain in
theorem only_sendResult (result : IdempotencyResult) : (sendResult result).Only P := by
  unfold sendResult
  split
  · split <;> trivial
  · trivial

theorem only_createOrder (ctx : ApiContext) (user : Uuid) (request : FastifyRequest)
    (data : CreateOrder) (attempts : ℕ)
    (inserts : ∀ id items total,
      P (.work (.sql (.insertOrder id user data.customerEmail items total)))) :
    (createOrder ctx user request data attempts).Only P := by
  refine Program.Only.bind ?_ only_sendResult
  refine only_withIdempotency plain ctx _ ?_ attempts
  refine (only_randomUUID plain).bind fun orderId => ?_
  refine (only_randomUUID plain).bind fun eventId => ?_
  refine (only_clock plain).bind fun now => ?_
  refine (only_connect plain).bind fun _ => only_withClient plain ?_
  refine Program.Only.bind (only_query (plain _ nofun)) fun _ => ?_
  refine Program.Only.bind (only_query (inserts _ _ _)) fun order => ?_
  refine (only_randomUUID plain).bind fun createdId => ?_
  refine Program.Only.bind (only_query (plain _ nofun)) fun _ => ?_
  refine Program.Only.bind (only_query (plain _ nofun)) fun _ => ?_
  refine Program.Only.bind (only_query (plain _ nofun)) fun _ => ?_
  exact (only_invalidateListNamespace plain ctx _).bind fun _ => trivial

theorem only_getOrder (ctx : ApiContext) (user : Uuid) (id : String) :
    (getOrder ctx user id).Only P := by
  refine Program.Only.bind ?_ fun response => ?_
  · refine only_withEntityCache plain ctx _ _ (Program.Only.bind ?_ fun _ => trivial)
    exact only_query (plain _ nofun)
  · unfold checkOwner
    split
    · trivial
    · split
      · trivial
      · split
        · trivial
        · trivial
        · split <;> trivial

theorem only_listOrders (ctx : ApiContext) (user : Uuid) (request : ListOrdersQuery) :
    (listOrders ctx user request).Only P := by
  refine Program.Only.bind ?_ fun body => trivial
  refine only_withListCache plain ctx _ _ _ (Program.Only.bind (Program.Only.both ?_ ?_) ?_)
  · exact only_query (plain _ nofun)
  · refine only_withCountCache plain ctx _ (Program.Only.bind ?_ fun _ => trivial)
    exact only_query (plain _ nofun)
  · exact fun _ => trivial

theorem only_applyTransition (ctx : ApiContext) (user : Uuid) (id : String)
    (current target : OrderStatus) : (applyTransition ctx user id current target).Only P := by
  have closed : ∀ order : Option OrderRow, Program.Only P (do
      query .commit
      if current ≠ target then
        let _ ← Program.both (invalidateEntity ctx (orderEntityKey id))
          (invalidateListNamespace ctx cacheNamespaces.ordersList)
      return ⟨200, some (orderBody order)⟩ : Route HttpResponse) := by
    intro order
    refine Program.Only.bind (only_query (plain _ nofun)) fun _ => ?_
    dsimp only
    split
    · refine Program.Only.bind (Program.Only.both ?_ ?_) fun _ => trivial
      · exact only_invalidateEntity plain ctx _
      · exact only_invalidateListNamespace plain ctx _
    · trivial
  have changed : (changeStatus user id current target).Only P := by
    refine Program.Only.bind (only_query (plain _ nofun)) fun _ => ?_
    refine (only_randomUUID plain).bind fun _ => ?_
    exact Program.Only.bind (only_query (plain _ nofun)) fun _ => trivial
  exact only_either _ (Program.Only.bind (only_query (plain _ nofun)) closed) (changed.bind closed)

theorem only_patchOrder (ctx : ApiContext) (user : Uuid) (id : String) (target : OrderStatus) :
    (patchOrder ctx user id target).Only P := by
  refine (only_connect plain).bind fun _ => only_withClient plain ?_
  refine Program.Only.bind (only_query (plain _ nofun)) fun _ => ?_
  refine Program.Only.bind (only_query (plain _ nofun)) fun current => ?_
  have refused : ∀ response : HttpResponse,
      ((query .rollback).bind fun _ => .done response : Route HttpResponse).Only P :=
    fun _ => Program.Only.bind (only_query (plain _ nofun)) fun _ => trivial
  cases current with
  | none => exact refused _
  | some current =>
      dsimp only
      split
      · exact refused _
      · split
        · exact only_applyTransition plain ctx user id _ target
        · exact refused _

end Texts

/-- **The handlers insert orders only for their `POST`.** -/
theorem handler_inserts (ctx : ApiContext) (request : Request) :
    (handler ctx request).Only (Inserts request) := by
  have plain : ∀ o, NoInsert o → Inserts request o := fun _ => inserts_of_noInsert
  cases request with
  | createOrder user posted data attempts =>
      refine only_createOrder plain ctx user posted data attempts fun id items total => ?_
      rintro _ _ _ _ _ ⟨⟩
      exact ⟨posted, data, attempts, rfl, rfl⟩
  | getOrder user id => exact only_getOrder plain ctx user id
  | listOrders user query => exact only_listOrders plain ctx user query
  | patchOrder user id target => exact only_patchOrder plain ctx user id target

/-! ### What a statement writes -/

/-- A row that session `t` has inserted, or inserts with this statement. -/
def Wrote (ctx : ApiContext) (t : Tid) (db : Database) (st : Statement) (row : OrderRow) : Prop :=
  (∃ tx, db.transaction t = some tx ∧ .insertOrder row ∈ tx.writes) ∨
    ∃ id userId email items total, st = .insertOrder id userId email items total ∧
      row.userId = userId ∧ row.customerEmail = ctx.lower email

/-- What the statement leaves: rows that were inserted before or are now, and nothing that is
somebody else's. -/
structure Written (ctx : ApiContext) (t : Tid) (st : Statement) (db db' : Database) : Prop where
  tables : ∃ ws, db'.tables = db.tables.applyAll ws ∧
    ∀ row, .insertOrder row ∈ ws → Wrote ctx t db st row
  own : ∀ tx row, db'.transaction t = some tx → .insertOrder row ∈ tx.writes →
    Wrote ctx t db st row
  others : ∀ u, u ≠ t → db'.transaction u = db.transaction u

section Statements

variable {ctx : ApiContext} {t : Tid} {st : Statement} {db db' : Database}

theorem written_refl : Written ctx t st db db where
  tables := ⟨[], rfl, nofun⟩
  own tx _ now mem := .inl ⟨tx, now, mem⟩
  others _ _ := rfl

/-- A change of the transaction that inserts nothing. -/
theorem written_transaction {tx : Option Transaction}
    (own : ∀ tx', tx = some tx' → ∀ row, .insertOrder row ∈ tx'.writes → Wrote ctx t db st row) :
    Written ctx t st db { db with transaction := Function.update db.transaction t tx } where
  tables := ⟨[], rfl, nofun⟩
  own tx' row now mem := by
    change Function.update db.transaction t tx t = some tx' at now
    rw [Function.update_self] at now
    exact own tx' now row mem
  others _ other := Function.update_of_ne other _ _

theorem written_abort : Written ctx t st db (db.abort t) := by
  refine written_transaction fun tx' same row mem => ?_
  obtain ⟨tx, now, rfl⟩ := Option.map_eq_some_iff.mp same
  exact .inl ⟨tx, now, mem⟩

theorem written_endTransaction : Written ctx t st db (db.endTransaction t) where
  tables := ⟨[], rfl, nofun⟩
  own tx row now := by
    change Function.update db.transaction t none t = some tx at now
    rw [Function.update_self] at now
    cases now
  others _ other := Function.update_of_ne other _ _

theorem written_commit {tx : Transaction} (now : db.transaction t = some tx) :
    Written ctx t st db { db.endTransaction t with tables := db.tables.applyAll tx.writes } where
  tables := ⟨tx.writes, rfl, fun _ mem => .inl ⟨tx, now, mem⟩⟩
  own := (written_endTransaction).own
  others _ other := Function.update_of_ne other _ _

/-- One write of the statement. -/
theorem written_write {w : Write} (inserts : ∀ row, w = .insertOrder row → Wrote ctx t db st row) :
    Written ctx t st db (db.write t w) := by
  cases now : db.transaction t with
  | none =>
      have same : db.write t w = { db with tables := w.apply db.tables } := by
        simp only [Database.write, now]
      rw [same]
      exact ⟨⟨[w], rfl, fun row mem => inserts row (List.mem_singleton.mp mem).symm⟩,
        written_refl.own, fun _ _ => rfl⟩
  | some tx =>
      rw [Database.write_of_transaction now]
      refine written_transaction fun tx' same row mem => ?_
      obtain rfl := Option.some.inj same
      rcases List.mem_append.mp mem with old | new
      · exact .inl ⟨tx, now, old⟩
      · exact inserts row (List.mem_singleton.mp new).symm

/-- Locks are of no matter. -/
theorem Written.of_lock {id : Uuid} (h : Written ctx t st (db.lock t id) db') :
    Written ctx t st db db' := by
  have tables : (db.lock t id).tables = db.tables := by
    unfold Database.lock
    split <;> rfl
  have wrote : ∀ {row}, Wrote ctx t (db.lock t id) st row → Wrote ctx t db st row := by
    intro row h
    unfold Wrote at h
    rwa [Database.lock_transaction] at h
  obtain ⟨⟨ws, same, known⟩, own, others⟩ := h
  refine ⟨⟨ws, by rw [same, tables], fun row mem => wrote (known row mem)⟩,
    fun tx row now mem => wrote (own tx row now mem), fun u other => ?_⟩
  rw [others u other, Database.lock_transaction]

/-- **What a statement does** when nothing goes wrong. -/
theorem written_of_perform {sorted : List OrderRow} {r : Option st.Result}
    (h : db.perform ctx t sorted st = some (r, db')) : Written ctx t st db db' := by
  cases st with
  | begin =>
      simp only [Database.perform] at h
      split at h
      · cases h
        exact written_refl
      · cases h
        exact written_transaction fun tx' same row mem => by cases same; cases mem
  | commit =>
      simp only [Database.perform] at h
      split at h
      · rename_i now
        cases h
        exact written_commit now
      · cases h
        exact written_refl
  | rollback =>
      cases h
      exact written_endTransaction
  | selectOrder id =>
      cases h
      exact written_refl
  | selectOrderForUpdate id =>
      simp only [Database.perform] at h
      split at h
      · cases h
        exact written_refl.of_lock
      · cases h
  | updateOrder id status =>
      simp only [Database.perform] at h
      split at h
      · cases h
        refine (written_write fun row same => ?_).of_lock
        cases same
      · cases h
  -- the one statement that writes an order
  | insertOrder id userId email items total =>
      simp only [Database.perform] at h
      split at h
      · cases h
        exact written_abort
      · cases h
        refine written_write fun row same => ?_
        cases same
        exact .inr ⟨id, userId, email, items, total, rfl, rfl, rfl⟩
  | insertOrderEvent id orderId eventType fromStatus toStatus actor =>
      simp only [Database.perform] at h
      split at h
      · cases h
        refine written_write fun row same => ?_
        cases same
      · cases h
        exact written_abort
  | insertOutboxEvent row =>
      cases h
      refine written_write fun row same => ?_
      cases same
  | selectOrders filter limit offset =>
      simp only [Database.perform] at h
      split at h
      · cases h
        exact written_refl
      · cases h
  | countOrders filter =>
      cases h
      exact written_refl

/-- **What a statement does**, whatever goes wrong. -/
theorem written_of_exec {fails : Bool} {sorted : List OrderRow} {r : Option st.Result}
    (h : db.exec ctx t fails sorted st = some (r, db')) : Written ctx t st db db' := by
  unfold Database.exec at h
  split at h
  · cases h
    exact written_abort
  · split at h
    · split at h
      · cases h
        exact written_endTransaction
      · cases h
        exact written_endTransaction
      · cases h
        exact written_refl
    · exact written_of_perform h

end Statements

/-! ### Rows of one order -/

/-- The same order, with the same user, the same email and the same time. -/
structure Alike (row row' : OrderRow) : Prop where
  id : row'.id = row.id
  userId : row'.userId = row.userId
  customerEmail : row'.customerEmail = row.customerEmail
  createdAt : row'.createdAt = row.createdAt

theorem Alike.refl (row : OrderRow) : Alike row row := ⟨rfl, rfl, rfl, rfl⟩

theorem Alike.trans {a b c : OrderRow} (h : Alike a b) (h' : Alike b c) : Alike a c :=
  ⟨h'.id.trans h.id, h'.userId.trans h.userId, h'.customerEmail.trans h.customerEmail,
    h'.createdAt.trans h.createdAt⟩

section Rows

variable {tables : Tables} {row : OrderRow}

/-- A write keeps the orders. -/
theorem stays_apply (w : Write) (mem : row ∈ tables.orders) :
    ∃ row' ∈ (w.apply tables).orders, Alike row row' := by
  cases w with
  | insertOrder new => exact ⟨row, List.mem_append_left _ mem, .refl row⟩
  | updateOrder id status updatedAt =>
      refine ⟨_, List.mem_map_of_mem mem, ?_⟩
      split
      · exact ⟨rfl, rfl, rfl, rfl⟩
      · exact .refl row
  | insertOrderEvent event => exact ⟨row, mem, .refl row⟩
  | insertOutboxEvent event => exact ⟨row, mem, .refl row⟩

/-- An order behind a write is one from before, or the one that is inserted. -/
theorem source_apply {w : Write} (mem : row ∈ (w.apply tables).orders) :
    (∃ old ∈ tables.orders, Alike old row) ∨ w = .insertOrder row := by
  cases w with
  | insertOrder new =>
      rcases List.mem_append.mp mem with old | added
      · exact .inl ⟨row, old, .refl row⟩
      · rw [List.mem_singleton.mp added]
        exact .inr rfl
  | updateOrder id status updatedAt =>
      obtain ⟨old, there, rfl⟩ := List.mem_map.mp mem
      refine .inl ⟨old, there, ?_⟩
      split
      · exact ⟨rfl, rfl, rfl, rfl⟩
      · exact .refl old
  | insertOrderEvent event => exact .inl ⟨row, mem, .refl row⟩
  | insertOutboxEvent event => exact .inl ⟨row, mem, .refl row⟩

theorem stays_applyAll (ws : List Write) (mem : row ∈ tables.orders) :
    ∃ row' ∈ (tables.applyAll ws).orders, Alike row row' := by
  induction ws generalizing tables row with
  | nil => exact ⟨row, mem, .refl row⟩
  | cons w ws ih =>
      obtain ⟨row', there, alike⟩ := stays_apply w mem
      obtain ⟨row'', there', alike'⟩ := ih there
      exact ⟨row'', there', alike.trans alike'⟩

theorem source_applyAll {ws : List Write} (mem : row ∈ (tables.applyAll ws).orders) :
    (∃ old ∈ tables.orders, Alike old row) ∨
      ∃ new, .insertOrder new ∈ ws ∧ Alike new row := by
  induction ws generalizing tables with
  | nil => exact .inl ⟨row, mem, .refl row⟩
  | cons w ws ih =>
      obtain ⟨mid, there, alike⟩ | ⟨new, written, alike⟩ := ih mem
      · obtain ⟨old, before, alike'⟩ | rfl := source_apply there
        · exact .inl ⟨old, before, alike'.trans alike⟩
        · exact .inr ⟨mid, List.mem_cons_self, alike⟩
      · exact .inr ⟨new, List.mem_cons_of_mem _ written, alike⟩

end Rows

/-! ### Steps of the service -/

variable {ctx : ApiContext} {R : Regime (machine ctx)} {p q : Service ctx}

/-- The request under a name. -/
def requestOf : Slot (machine ctx) Request HttpResponse → Option Request
  | .free => none
  | .busy request _ => some request
  | .dead request => some request

theorem requestOf_update {slot : Tid → Slot (machine ctx) Request HttpResponse} {t : Tid}
    {request : Request} {now : Slot (machine ctx) Request HttpResponse}
    (before : requestOf (slot t) = some request) (after : requestOf now = some request) (u : Tid) :
    requestOf (Function.update slot t now u) = requestOf (slot u) := by
  by_cases same : u = t
  · rw [same, Function.update_self, after, before]
  · rw [Function.update_of_ne same]

/-- The row is that of an order which the `POST` under a name creates. -/
def CreatedBy (slot : Slot (machine ctx) Request HttpResponse) (row : OrderRow) : Prop :=
  ∃ posted data attempts, requestOf slot = some (.createOrder row.userId posted data attempts) ∧
    row.customerEmail = ctx.lower data.customerEmail

/-- What a request has still to do inserts only what is asked for, and so did what it has done. -/
structure Traced (p : Service ctx) : Prop where
  task : ∀ t request task, p.slot t = .busy request task → Program.Only (Inserts request) task
  pending : ∀ t tx row, p.shared.db.transaction t = some tx → .insertOrder row ∈ tx.writes →
    CreatedBy (p.slot t) row

theorem traced_initial (ctx : ApiContext) : Traced (Service.initial ctx) where
  task _ _ _ busy := by cases busy
  pending _ _ _ now := by cases now

/-- What a step leaves: the tables with some writes, the orders among them created by the request
that has moved. -/
structure Traces (p q : Service ctx) : Prop where
  traced : Traced q
  tables : ∃ ws, q.shared.db.tables = p.shared.db.tables.applyAll ws ∧
    ∀ row, .insertOrder row ∈ ws →
      ∃ t c, p.next (handler ctx) (.advance t c) = some q ∧ CreatedBy (p.slot t) row

/-- An operation touches the database only as a statement. -/
theorem db_of_exec {t : Tid} {c : Choice} {o : (machine ctx).Op} {s s' : State}
    {r : (machine ctx).Reply o} (h : (machine ctx).exec t c o s = some (r, s')) :
    s'.db = s.db ∨ ∃ st, o = .work (.sql st) ∧ Written ctx t st s.db s'.db := by
  cases o with
  | redis command =>
      obtain ⟨fault, -, -, rfl⟩ := exec_redis h
      exact .inl rfl
  | work w =>
      cases w with
      | sql st =>
          obtain ⟨fails, sorted, executed⟩ := exec_sql h
          obtain ⟨db, performed, rfl⟩ := sql_cases executed
          exact .inr ⟨st, rfl, written_of_exec performed⟩
      | connect => cases c <;> cases h <;> exact .inl rfl
      | release =>
          cases c <;> cases h
          exact .inl rfl
      | clock =>
          cases c <;> cases h
          exact .inl rfl
      | header value =>
          cases c <;> cases h
          exact .inl rfl
      | randomUUID =>
          cases c with
          | fresh id =>
              by_cases unused : s.generated id = none
              · refine .inl ?_
                cases (if_pos unused).symm.trans h
                rfl
              · cases (if_neg unused).symm.trans h
          | _ => cases h

/-- A transaction that is over is gone. -/
private theorem pending_of_endTransaction {db : Database} {t u : Tid} {tx : Transaction}
    (now : (db.endTransaction t).transaction u = some tx) : db.transaction u = some tx := by
  change Function.update db.transaction t none u = some tx at now
  by_cases same : u = t
  · rw [same, Function.update_self] at now
    cases now
  · rwa [Function.update_of_ne same] at now

/-- Nothing but slots has changed, and no request. -/
private theorem traces_of_slots {slot : Tid → Slot (machine ctx) Request HttpResponse}
    {s : State} (traced : Traced p) (tables : s.db.tables = p.shared.db.tables)
    (transaction : ∀ t tx, s.db.transaction t = some tx → p.shared.db.transaction t = some tx)
    (same : ∀ t, requestOf (p.slot t) ≠ none → requestOf (slot t) = requestOf (p.slot t))
    (task : ∀ t request task, slot t = .busy request task → Program.Only (Inserts request) task) :
    Traces p ⟨s, slot⟩ where
  traced := by
    refine ⟨task, fun t tx row now mem => ?_⟩
    obtain ⟨posted, data, attempts, request, email⟩ :=
      traced.pending t tx row (transaction t tx now) mem
    refine ⟨posted, data, attempts, (same t ?_).trans request, email⟩
    rw [request]
    nofun
  tables := ⟨[], tables, nofun⟩

/-- **A step of the service.** -/
theorem traces_of_step (traced : Traced p) (step : Pool.Step R (handler ctx) p q) : Traces p q := by
  rcases Pool.step_cases step with ⟨t, request, free, rfl⟩ |
    ⟨t, request, c, o, k, r, s, busy, -, exec, rfl⟩ |
    ⟨t, request, left, right, task, busy, side, rfl⟩ | ⟨e, s, -, happens, rfl⟩ |
    ⟨t, request, o, k, busy, -, rfl⟩
  · refine traces_of_slots traced rfl (fun _ _ now => now) (fun u known => ?_)
      fun u request' task h => ?_
    · by_cases same : u = t
      · rw [same, free] at known
        exact absurd rfl known
      · rw [Function.update_of_ne same]
    · by_cases same : u = t
      · rw [same, Function.update_self] at h
        cases h
        exact handler_inserts ctx request
      · rw [Function.update_of_ne same] at h
        exact traced.task u request' task h
  -- an operation: only a statement can write a row, and only a `COMMIT` makes rows visible
  · have only := traced.task t request _ busy
    have slots := (@requestOf_update _ _ _ _ (.busy request (k r))) (congrArg requestOf busy) rfl
    have tasks : ∀ u request' task,
        Function.update p.slot t (.busy request (k r)) u = .busy request' task →
          Program.Only (Inserts request') task := by
      intro u request' task h
      by_cases same : u = t
      · rw [same, Function.update_self] at h
        cases h
        exact only.2 r
      · rw [Function.update_of_ne same] at h
        exact traced.task u request' task h
    obtain unchanged | ⟨st, rfl, written⟩ := db_of_exec exec
    · exact traces_of_slots traced (by rw [unchanged]) (fun u tx now => by rwa [unchanged] at now)
        (fun u _ => slots u) tasks
    -- what was pending had its request before, and a new row has the one whose statement this is
    · have wrote : ∀ row, Wrote ctx t p.shared.db st row → CreatedBy (p.slot t) row := by
        rintro row (⟨tx, now, mem⟩ | ⟨id, userId, email, items, total, rfl, user, lower⟩)
        · exact traced.pending t tx row now mem
        · obtain ⟨posted, data, attempts, rfl, rfl⟩ := only.1 id userId email items total rfl
          refine ⟨posted, data, attempts, ?_, lower⟩
          rw [busy, user]
          rfl
      refine ⟨⟨tasks, fun u tx row now mem => ?_⟩, ?_⟩
      · have created : CreatedBy (p.slot u) row := by
          by_cases same : u = t
          · subst same
            exact wrote row (written.own tx row now mem)
          · exact traced.pending u tx row ((written.others u same).symm.trans now) mem
        obtain ⟨posted, data, attempts, request', email⟩ := created
        exact ⟨posted, data, attempts, (slots u).trans request', email⟩
      · obtain ⟨ws, tables, known⟩ := written.tables
        refine ⟨ws, tables, fun row mem => ⟨t, c, ?_, wrote row (known row mem)⟩⟩
        rw [Pool.next, busy]
        exact (congrArg (Option.map _) exec).trans rfl
  · refine traces_of_slots traced rfl (fun _ _ now => now)
      (fun u _ => requestOf_update (congrArg requestOf busy) rfl u) fun u request' task' h => ?_
    · by_cases same : u = t
      · rw [same, Function.update_self] at h
        cases h
        have only := traced.task t request _ busy
        rcases side with rfl | rfl
        · exact only.1
        · exact only.2
      · rw [Function.update_of_ne same] at h
        exact traced.task u request' task' h
  · cases e with
    | redis e =>
        obtain ⟨server, -, rfl⟩ := Option.map_eq_some_iff.mp happens
        exact traces_of_slots traced rfl (fun _ _ now => now) (fun _ _ => rfl) traced.task
    | tick =>
        cases happens
        exact traces_of_slots traced rfl (fun _ _ now => now) (fun _ _ => rfl) traced.task
    | reset t =>
        change (if 0 < p.shared.released t then _ else _) = _ at happens
        split at happens
        · cases happens
          exact traces_of_slots traced rfl (fun _ _ => pending_of_endTransaction)
            (fun _ _ => rfl) traced.task
        · cases happens
  · refine traces_of_slots traced rfl (fun _ _ => pending_of_endTransaction)
      (fun u _ => requestOf_update (congrArg requestOf busy) rfl u) fun u request' task h => ?_
    · by_cases same : u = t
      · rw [same, Function.update_self] at h
        cases h
      · rw [Function.update_of_ne same] at h
        exact traced.task u request' task h

/-! ### Runs -/

theorem traced_of_steps (run : Pool.Steps R (handler ctx) (Service.initial ctx) p) : Traced p := by
  induction run with
  | refl => exact traced_initial ctx
  | tail _ step ih => exact (traces_of_step ih step).traced

/-- **Every order was created by a `POST`**: a step that adds an order to the tables is one of a
`POST` of its user, and the order has the email of this `POST` in lower case. -/
theorem origin_of_step (traced : Traced p) (step : Pool.Step R (handler ctx) p q) {row : OrderRow}
    (there : row ∈ q.shared.db.tables.orders)
    (new : ∀ old ∈ p.shared.db.tables.orders, old.id ≠ row.id) :
    ∃ t c, p.next (handler ctx) (.advance t c) = some q ∧ CreatedBy (p.slot t) row := by
  obtain ⟨-, ws, tables, known⟩ := traces_of_step traced step
  rw [tables] at there
  obtain ⟨old, before, alike⟩ | ⟨inserted, mem, alike⟩ := source_applyAll there
  · exact absurd alike.id.symm (new old before)
  · obtain ⟨t, c, moves, posted, data, attempts, request, email⟩ := known inserted mem
    refine ⟨t, c, moves, posted, data, attempts, ?_, alike.customerEmail.trans email⟩
    rw [request, alike.userId]

/-- **An order stays**, with its user and its email. -/
theorem alike_of_steps (traced : Traced p) (run : Pool.Steps R (handler ctx) p q) {row : OrderRow}
    (there : row ∈ p.shared.db.tables.orders) :
    ∃ row' ∈ q.shared.db.tables.orders, Alike row row' := by
  have kept : Traced q ∧ ∃ row' ∈ q.shared.db.tables.orders, Alike row row' := by
    induction run with
    | refl => exact ⟨traced, row, there, .refl row⟩
    | tail _ step ih =>
        obtain ⟨before, row', mem, alike⟩ := ih
        obtain ⟨after, ws, tables, -⟩ := traces_of_step before step
        obtain ⟨row'', mem', alike'⟩ := stays_applyAll ws mem
        exact ⟨after, row'', tables ▸ mem', alike.trans alike'⟩
  exact kept.2

end OrderRoutes

end OrderPlatform
