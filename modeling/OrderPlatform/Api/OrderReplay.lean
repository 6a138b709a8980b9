import OrderPlatform.Api.OrderRuns
import OrderPlatform.Api.StoredOrders

/-!
# Replays of created orders

A `POST` under an `Idempotency-Key` that creates an order either leaves its record, and then every
replay is answered from it, or clears the key, and then a replay creates another order.  Which of the
two happens is decided by the size of the order alone (`created_order_replayed`); an email that is
long enough makes an accepted body of the second kind (`large_order_created_twice`).

A request is followed alone, from its first command to its answer.  Its contract says what it does
when some statement fails (`serves_createOrderOf`), and a path through it that it can be answered at
all: `answers_createOrderOf` for the first request, `answers_replay` for each that repeats it.
-/

namespace OrderPlatform

namespace OrderRoutes

open Async (Tid Evaluates Performed MayEnd)
open Text (Json isPlain)
open Utf16 (units)

variable {ctx ctx' : ApiContext} {t : Tid} {s s' s₁ : State} {user : Uuid}

/-! ### A `POST` in which nothing fails -/

/-- Redis answers, and the identifiers that are drawn are uuids. -/
def Healthy (c : Choice) (o : Op Work) : Prop :=
  RedisAnswers c o ∧ ∀ id, c = .fresh id → id.text.toList.length = 36

theorem healthy_work {c : Choice} {o : Work}
    (drawn : ∀ id, c = .fresh id → id.text.toList.length = 36) : Healthy c (.work o) :=
  ⟨nofun, drawn⟩

theorem healthy_succeeds (o : Work) : Healthy .succeeds (.work o) := by
  refine healthy_work fun id same => ?_
  cases same

theorem healthy_time (now : ℕ) (o : Work) : Healthy (.time now) (.work o) := by
  refine healthy_work fun id same => ?_
  cases same

/-- A command that Redis executes and answers. -/
private theorem exec_answered (ctx : ApiContext) (t : Tid) {s : State} {c : Redis.Command}
    {reply : c.Reply} {store : Redis.Store}
    (applied : c.apply s.server.store = some (reply, store)) :
    ∃ s₁, exec ctx t (.redis .none) (.redis c) s = some (some reply, s₁) ∧ s₁.db = s.db ∧
      s₁.generated = s.generated ∧ s₁.server.store = store := by
  have call : s.server.call .none c = (some reply, { s.server with store }) := by
    rw [Redis.Server.call, applied]
  refine ⟨(s.redis t .none c).2, ?_, rfl, rfl, congrArg (·.2.store) call⟩
  have replied : (s.redis t .none c).1 = some reply := congrArg Prod.fst call
  rw [← replied]
  rfl

/-- A statement that Postgres executes. -/
private theorem exec_statement {st : Statement} {v : st.Result} {db : Database}
    (live : ∀ tx, s.db.transaction t = some tx → tx.aborted = false)
    (performs : s.db.perform ctx t [] st = some (some v, db)) :
    ∃ s₁, exec ctx t .succeeds (.work (.sql st)) s = some (some v, s₁) ∧ s₁.db = db ∧
      s₁.server = s.server ∧ s₁.generated = s.generated := by
  have executes : s.db.exec ctx t false [] st = some (some v, db) := by
    unfold Database.exec
    rw [if_neg Bool.false_ne_true]
    cases now : s.db.transaction t with
    | none => exact performs
    | some tx =>
        obtain ⟨start, writes, aborted⟩ := tx
        obtain rfl : aborted = false := live _ now
        exact performs
  refine ⟨{ s with db, history := s.history.sql t (s.pending t) db.tables st (some v) }, ?_, rfl, rfl,
    rfl⟩
  show (s.db.exec ctx t false [] st).map _ = _
  rw [executes]
  rfl

/-- A statement of a transaction that writes one thing. -/
private theorem exec_write (ctx : ApiContext) (st : Statement) {writes : List Write} {w : Write}
    {v : st.Result} (writing : Writing t writes s s₁)
    (performs : s₁.db.perform ctx t [] st = some (some v, s₁.db.write t w)) :
    ∃ s₂, exec ctx t .succeeds (.work (.sql st)) s₁ = some (some v, s₂) ∧
      Writing t (writes ++ [w]) s s₂ ∧ s₂.generated = s₁.generated := by
  obtain ⟨s₂, executes, db, server, generated⟩ := exec_statement writing.live performs
  exact ⟨s₂, executes, writing.write db.symm server, generated⟩

private theorem exec_commit {writes : List Write} (writing : Writing t writes s s₁) :
    ∃ s₂, exec ctx t .succeeds (.work (.sql .commit)) s₁ = some (some (), s₂) ∧
      s₂.db.transaction t = none ∧ s₂.db.tables = s.db.tables.applyAll writes ∧
      s₂.generated = s₁.generated := by
  have commits : s₁.db.perform ctx t [] .commit = some (some (), { s₁.db.endTransaction t with
      tables := s₁.db.tables.applyAll writes }) := by
    simp only [Database.perform, writing.transaction]
    rfl
  obtain ⟨s₂, committed, db, -, generated⟩ := exec_statement writing.live commits
  refine ⟨s₂, committed, ?_, ?_, generated⟩
  · rw [db]
    exact Function.update_self _ _ _
  · rw [db, ← writing.same.tables]

/-- Identifiers that may be drawn, one after another. -/
structure Undrawn (s : State) (drawn : List Uuid) : Prop where
  new : ∀ id ∈ drawn, s.generated id = none
  nodup : drawn.Nodup
  length : ∀ id ∈ drawn, id.text.toList.length = 36

private theorem exec_fresh (ctx : ApiContext) (t : Tid) {id : Uuid} {rest : List Uuid}
    (undrawn : Undrawn s (id :: rest)) :
    exec ctx t (.fresh id) (.work .randomUUID) s = some (id, s.generate t id) ∧
      Healthy (.fresh id) (.work .randomUUID) ∧ Undrawn (s.generate t id) rest := by
  obtain ⟨new, nodup, length⟩ := undrawn
  obtain ⟨first, others⟩ := List.forall_mem_cons.mp new
  obtain ⟨apart, nodup⟩ := List.nodup_cons.mp nodup
  refine ⟨if_pos first, healthy_work ?_, fun other mem => ?_, nodup, ?_⟩
  · rintro _ ⟨⟩
    exact length id List.mem_cons_self
  · have different : other ≠ id := fun same => apart (same ▸ mem)
    exact (Function.update_of_ne different _ _).trans (others other mem)
  · exact fun other mem => length other (List.mem_cons_of_mem _ mem)

theorem Undrawn.of_generated {drawn : List Uuid} (h : Undrawn s drawn)
    (same : s₁.generated = s.generated) : Undrawn s₁ drawn :=
  ⟨same ▸ h.new, h.nodup, h.length⟩

/-- An order has been created under these identifiers. -/
structure Placed (t : Tid) (drawn : List Uuid) (orderId : Uuid) (s : State) (row : OrderRow)
    (s' : State) : Prop where
  session : s'.db.transaction t = none
  id : row.id = orderId
  orders : s'.db.tables.orders = s.db.tables.orders ++ [row]
  generated : ∀ id, id ∉ drawn → s'.generated id = s.generated id

/-- The transaction of a `POST`, each of its statements being executed. -/
private theorem mayEnd_insertNewOrder {data : CreateOrder} {orderId createdId : Uuid}
    {event : OutboxEventRow} (plain : ctx'.config.cacheEnabled = false)
    (session : s.db.transaction t = none) (undrawn : Undrawn s [createdId])
    (absent : s.db.tables.order? orderId = none) :
    MayEnd (M := machine ctx) t Healthy (insertNewOrder ctx' user data orderId event) s
      fun result s' => ∃ row, result = .ok ⟨.num 201, some (orderBody (some row))⟩ ∧
        Placed t [createdId] orderId s row s' := by
  have begins : s.db.perform ctx t [] .begin = some (some (), { s.db with
      transaction := Function.update s.db.transaction t (some ⟨s.db.now, [], false⟩) }) := by
    simp only [Database.perform, session]
    rfl
  obtain ⟨s₁, began, db₁, server₁, generated₁⟩ := exec_statement (live_of_none session) begins
  refine .await .succeeds (healthy_succeeds _) began ?_
  have writing₁ : Writing t [] s s₁ := by
    refine ⟨⟨by rw [db₁], server₁⟩, ?_⟩
    rw [db₁]
    exact Function.update_self _ _ _
  have absent₁ : ¬ ((s₁.db.view t).order? orderId).isSome = true := by
    rw [Database.view_of_nil writing₁.transaction, writing₁.same.tables, absent]
    exact Bool.false_ne_true
  -- the three writes of the transaction; an identifier is drawn before the second
  obtain ⟨s₂, inserts, writing₂, generated₂⟩ := exec_write ctx
    (.insertOrder orderId user data.customerEmail data.itemsJson data.totalCents) writing₁
    (if_neg absent₁)
  refine .await .succeeds (healthy_succeeds _) inserts ?_
  obtain ⟨drawn, healthy, -⟩ := exec_fresh ctx t
    (undrawn.of_generated (generated₂.trans generated₁))
  refine .await _ healthy drawn ?_
  have writing₃ : Writing t _ s (s₂.generate t createdId) := writing₂.of_db rfl rfl
  have present : (((s₂.generate t createdId).db.view t).order? (.ofText orderId.text)).isSome := by
    rw [Uuid.ofText_text, Tables.order?, List.find?_isSome, Database.view, writing₃.transaction]
    exact ⟨_, List.mem_append_right _ List.mem_cons_self, decide_eq_true rfl⟩
  obtain ⟨s₄, audits, writing₄, generated₄⟩ := exec_write ctx
    (.insertOrderEvent createdId orderId.text .created none .pending user) writing₃
    (if_pos present)
  refine .await .succeeds (healthy_succeeds _) audits ?_
  obtain ⟨s₅, tells, writing₅, generated₅⟩ := exec_write ctx (.insertOutboxEvent event)
    writing₄ rfl
  refine .await .succeeds (healthy_succeeds _) tells ?_
  obtain ⟨s₆, committed, session₆, tables₆, generated₆⟩ := exec_commit writing₅
  refine .await .succeeds (healthy_succeeds _) committed ?_
  rw [show (invalidateListNamespace ctx' cacheNamespaces.ordersList : Route Unit) = .done () from
    if_neg (by rw [plain]; exact Bool.false_ne_true)]
  refine .done ⟨_, rfl, session₆, rfl, by rw [tables₆]; rfl, fun id other => ?_⟩
  rw [generated₆, generated₅, generated₄, ← generated₁, ← generated₂]
  exact Function.update_of_ne (fun same => other (List.mem_singleton.mpr same)) _ _

private theorem mayEnd_createOrderTransactionally {request : FastifyRequest} {data : CreateOrder}
    {orderId eventId createdId : Uuid} (plain : ctx'.config.cacheEnabled = false)
    (session : s.db.transaction t = none) (undrawn : Undrawn s [orderId, eventId, createdId])
    (absent : s.db.tables.order? orderId = none) :
    MayEnd (M := machine ctx) t Healthy (createOrderTransactionally ctx' request user data) s
      fun result s' => ∃ row, result = .ok ⟨.num 201, some (orderBody (some row))⟩ ∧
        Placed t [orderId, eventId, createdId] orderId s row s' := by
  obtain ⟨drawn, healthy, undrawn₁⟩ := exec_fresh ctx t undrawn
  refine .await _ healthy drawn ?_
  obtain ⟨drawn, healthy, undrawn₂⟩ := exec_fresh ctx t undrawn₁
  refine .await _ healthy drawn ?_
  refine .await (.time 0) (healthy_time 0 _) rfl ?_
  refine .await .succeeds (healthy_succeeds _) rfl ?_
  refine .guarded (mayEnd_insertNewOrder plain session (undrawn₂.of_generated rfl) absent) ?_
  rintro _ s₁ ⟨row, rfl, placed⟩
  refine ⟨_, rfl, .await .succeeds (healthy_succeeds _) rfl
    (.done ⟨rfl, row, rfl, placed.session, placed.id, placed.orders, fun id other => ?_⟩)⟩
  obtain ⟨first, others⟩ := not_or.mp (mt List.mem_cons.mpr other)
  obtain ⟨second, third⟩ := not_or.mp (mt List.mem_cons.mpr others)
  exact ((placed.generated id third).trans (Function.update_of_ne second _ _)).trans
    (Function.update_of_ne first _ _)

/-- **A `POST` in which nothing fails**, under a free key, creates its order. -/
theorem answers_createOrderOf {request : FastifyRequest} {body : CreateOrderBody} {key : String}
    {orderId eventId createdId : Uuid} (plain : ctx.config.cacheEnabled = false)
    (keyed : request.idempotencyKey = .single key) (valid : matchesIdempotencyKeyRegex key = true)
    (session : s.db.transaction t = none) (undrawn : Undrawn s [orderId, eventId, createdId])
    (absent : s.db.tables.order? orderId = none)
    (free : s.server.store (orderRecordKey user key) = none) :
    MayEnd (M := machine ctx) t Healthy (createOrderOf ctx user request body 1) s
      fun result s' => ∃ row, result = .ok ⟨201, some (orderBody (some row))⟩ ∧
        Placed t [orderId, eventId, createdId] orderId s row s' := by
  have answered : ∀ command, Healthy (.redis .none) (.redis command) :=
    fun command => ⟨fun _ _ => rfl, nofun⟩
  rw [createOrderOf, createOrder, withIdempotency, readIdempotencyKey_of_single keyed valid]
  dsimp only
  rw [if_pos valid]
  refine .chain (Q := fun result (s' : State) => ∃ row,
    result = .ok ⟨.num 201, some (orderBody (some row))⟩ ∧
    Placed t [orderId, eventId, createdId] orderId s row s') ?_ ?_
  · obtain ⟨s₁, claims, db₁, generated₁, -⟩ := exec_answered ctx t
      (Redis.Command.apply_setNx free _ _)
    refine .await (.redis .none) (answered _) claims ?_
    refine .tried (.chain (mayEnd_createOrderTransactionally plain (by rw [db₁, session])
      (undrawn.of_generated generated₁) (by rw [db₁, absent])) ?_) ?_
    · rintro _ s₂ ⟨row, rfl, session₂, id, orders, generated₂⟩
      rw [db₁] at orders
      rw [generated₁] at generated₂
      refine ⟨_, rfl, ?_⟩
      -- the two ends of `storeResult`: the claim is cleared, or the record is stored
      by_cases large : maxStoredBodyBytes <
          (orderRecord (bodyHash ctx request body.toJson) row).serialized.utf8ByteSize
      · change MayEnd (M := machine ctx) t Healthy ((storeResult (orderRecordKey user key)
          (bodyHash ctx request body.toJson) ⟨.num 201, some (orderBody (some row))⟩).bind _) s₂ _
        rw [storeResult_of_large large]
        obtain ⟨s₃, clears, db₃, generated₃, -⟩ :=
          @exec_answered ctx t s₂ (.del (orderRecordKey user key)) _ _ rfl
        exact .await (.redis .none) (answered _) clears
          (.done ⟨row, rfl, by rw [db₃, session₂], id, by rw [db₃, orders], by rwa [generated₃]⟩)
      · change MayEnd (M := machine ctx) t Healthy ((storeResult (orderRecordKey user key)
          (bodyHash ctx request body.toJson) ⟨.num 201, some (orderBody (some row))⟩).bind _) s₂ _
        rw [storeResult_of_fits large]
        obtain ⟨s₃, stores, db₃, generated₃, -⟩ :=
          @exec_answered ctx t s₂ (.set (orderRecordKey user key) _ completedTtlSeconds) _ _ rfl
        exact .await (.redis .none) (answered _) stores
          (.done ⟨row, rfl, by rw [db₃, session₂], id, by rw [db₃, orders], by rwa [generated₃]⟩)
    · rintro _ s₂ ⟨row, rfl, -⟩
      exact ⟨_, rfl⟩
  · rintro _ s₁ ⟨row, rfl, placed⟩
    exact ⟨_, rfl, .done ⟨row, rfl, placed⟩⟩

/-! ### Replays -/

/-- A request is served with nobody in between, on a connection without an open transaction. -/
structure Answered (ctx : ApiContext) (t : Tid) (route : Route HttpResponse) (s : State)
    (result : Except ApiError HttpResponse) (s' : State) : Prop where
  session : s.db.transaction t = none
  evaluates : ∃ log : List (Performed (machine ctx)),
    Evaluates t route s log result s' ∧ ∀ p ∈ log, Healthy p.choice p.op

/-- **A replay in which nothing fails** is answered. -/
theorem answers_replay {request : FastifyRequest} {body : CreateOrderBody} {key : String}
    {row : OrderRow} {ttl : Option ℕ} {attempts : ℕ} (keyed : request.idempotencyKey = .single key)
    (valid : matchesIdempotencyKeyRegex key = true)
    (stored : s.server.store (orderRecordKey user key) =
      some ⟨(orderRecord (bodyHash ctx request body.toJson) row).serialized, ttl⟩) :
    MayEnd (M := machine ctx) t Healthy (createOrderOf ctx user request body (attempts + 1)) s
      fun result _ => result = .ok ⟨201, some (orderBody (some row))⟩ := by
  have answered : ∀ command, Healthy (.redis .none) (.redis command) :=
    fun command => ⟨fun _ _ => rfl, nofun⟩
  rw [createOrderOf, createOrder, withIdempotency, readIdempotencyKey_of_single keyed valid]
  dsimp only
  rw [if_pos valid]
  refine .chain (Q := fun result (_ : State) =>
    result = .ok ⟨.num 201, some (orderBody (some row))⟩) ?_ ?_
  · -- the key is taken, and the record is read
    obtain ⟨s₁, refused, -, -, store⟩ := exec_answered ctx t
      (Redis.Command.apply_setNx_of_taken stored _ _)
    refine .chain (Q := fun (acquired : Except ApiError Bool) s' => acquired = .ok false ∧ s' = s₁)
      (.await (.redis .none) (answered _) refused (.done ⟨rfl, rfl⟩)) ?_
    rintro _ s₂ ⟨rfl, rfl⟩
    refine ⟨_, rfl, ?_⟩
    rw [if_neg Bool.false_ne_true]
    obtain ⟨s₃, read, -⟩ := @exec_answered ctx t s₂ (.get (orderRecordKey user key)) _ _ rfl
    rw [store, stored] at read
    refine .chain (Q := fun replay (_ : State) =>
      replay = .ok (some ⟨.num 201, some (orderBody (some row))⟩)) ?_ ?_
    · refine .chain (Q := fun (existing : Except ApiError (Option String)) (_ : State) =>
        existing = .ok (some (orderRecord (bodyHash ctx request body.toJson) row).serialized))
        (.await (.redis .none) (answered _) read (.done rfl)) ?_
      rintro _ s₄ rfl
      refine ⟨_, rfl, ?_⟩
      dsimp only
      rw [if_neg (by rw [serialized_isEmpty]; exact Bool.false_ne_true), read_serialized,
        orderRecord]
      dsimp only
      have same : canonicalRequestHash (hashedAs ctx (bodyHash ctx request body.toJson)) request
          body.text.toJson = bodyHash ctx request body.toJson := rfl
      rw [same, replayOf_completed, if_pos rfl]
      exact .done rfl
    · rintro _ s₄ rfl
      exact ⟨_, rfl, .done rfl⟩
  · rintro _ s₁ rfl
    exact ⟨_, rfl, .done rfl⟩

/-- As long as Redis holds under the key what it holds now, every request with the key and the body
is answered by this response, and leaves the database alone.  When nothing fails, there is an
answer. -/
def Replays (ctx : ApiContext) (user : Uuid) (request : FastifyRequest) (body : CreateOrderBody)
    (key : String) (response : HttpResponse) (now : State) : Prop :=
  ∀ (t : Tid) (request' : FastifyRequest) (raw : String) (attempts : ℕ)
    (route : Route HttpResponse) (s : State),
    request'.method = request.method → requestRoute request' = requestRoute request →
    request'.idempotencyKey = .single key → acceptedBody (units raw.toList) = some body →
    postOrders ctx user request' raw (attempts + 1) = some route →
    s.server.store (orderRecordKey user key) = now.server.store (orderRecordKey user key) →
    (s.db.transaction t = none → ∃ s', Answered ctx t route s (.ok response) s') ∧
      ∀ result s', Answered ctx t route s result s' → result = .ok response ∧ s'.db = s.db

/-- The route of an accepted body. -/
private theorem postOrders_cases {request : FastifyRequest} {raw : String} {attempts : ℕ}
    {route : Route HttpResponse} (posted : postOrders ctx user request raw attempts = some route) :
    ∃ body, acceptedBody (units raw.toList) = some body ∧
      route = createOrderOf ctx user request body attempts := by
  unfold postOrders at posted
  split at posted
  · obtain ⟨body, accepted, same⟩ := Option.map_eq_some_iff.mp posted
    exact ⟨body, accepted, same.symm⟩
  · cases posted

/-- A created order, and what it leaves under its key. -/
private theorem recorded_of_answered {request : FastifyRequest} {body : CreateOrderBody}
    {key : String} {attempts : ℕ} {response : HttpResponse}
    (keyed : request.idempotencyKey = .single key) (valid : matchesIdempotencyKeyRegex key = true)
    (answered : Answered ctx t (createOrderOf ctx user request body attempts) s (.ok response) s')
    (created : s'.db.tables.orders ≠ s.db.tables.orders) :
    ∃ row, Creates ctx (fun id => id.text.toList.length = 36) user body.text s.db.now row ∧
      response = ⟨201, some (orderBody (some row))⟩ ∧
      Recorded s (orderRecordKey user key) (bodyHash ctx request body.toJson) row s' := by
  obtain ⟨session, log, evaluates, healthy⟩ := answered
  have known := ((serves_createOrderOf keyed valid
    session).evaluates evaluates healthy).1 response rfl
  rcases known with recorded | same
  · exact recorded
  · exact absurd (by rw [same]) created

/-- **A created order is replayed, or its key is cleared.**  A `POST` with a valid key is served, and
creates an order.  Its record can be stored if and only if the JSON texts of the lower-cased email, of
the items, of the total and of the two time stamps take at most 65220 bytes together.  If they do, the
record is stored, and every replay is answered by the first response and creates nothing; if they do
not, there is nothing under the key. -/
theorem created_order_replayed {request : FastifyRequest} {raw key : String} {attempts : ℕ}
    {route : Route HttpResponse} {response : HttpResponse}
    (digest : ∀ text, IsDigest (ctx.sha256 text)) (length : user.text.toList.length = 36)
    (keyed : request.idempotencyKey = .single key) (valid : matchesIdempotencyKeyRegex key = true)
    (posted : postOrders ctx user request raw attempts = some route)
    (answered : Answered ctx t route s (.ok response) s')
    (created : s'.db.tables.orders ≠ s.db.tables.orders) :
    ∃ body row, acceptedBody (units raw.toList) = some body ∧
      response = ⟨201, some (orderBody (some row))⟩ ∧
      s'.db.tables.orders = s.db.tables.orders ++ [row] ∧
      ((orderRecord (bodyHash ctx request body.toJson) row).serialized.utf8ByteSize ≤
          maxStoredBodyBytes ↔ orderBytes ctx body.text s.db.now ≤ 65220) ∧
      (orderBytes ctx body.text s.db.now ≤ 65220 →
        s'.server.store (orderRecordKey user key) =
            some ⟨(orderRecord (bodyHash ctx request body.toJson) row).serialized,
              some completedTtlSeconds⟩ ∧
          Replays ctx user request body key response s') ∧
      (65220 < orderBytes ctx body.text s.db.now →
        s'.server.store (orderRecordKey user key) = none) := by
  obtain ⟨body, accepted, rfl⟩ := postOrders_cases posted
  obtain ⟨row, creates, rfl, recorded⟩ := recorded_of_answered keyed valid answered created
  have size := @serialized_le_iff ctx user _ _ row (bodyHash ctx request body.toJson) creates
    (digest _) length
  refine ⟨body, row, accepted, rfl, recorded.orders, size, fun fits => ?_, fun large => ?_⟩
  · have stored := recorded.record
    rw [if_neg (Nat.not_lt.mpr (size.mpr fits))] at stored
    refine ⟨stored, ?_⟩
    intro t₂ request' raw' attempts' route' s₂ method path keyed' accepted' posted' still
    obtain ⟨body', accepted'', rfl⟩ := postOrders_cases posted'
    obtain rfl : body' = body := Option.some.inj (accepted''.symm.trans accepted')
    -- the hash covers the method, the path and the body, and these are the same
    have hash : bodyHash ctx request' body'.toJson = bodyHash ctx request body'.toJson := by
      rw [bodyHash, bodyHash, canonicalJson, canonicalJson, method, path]
    have record := stored
    rw [← still, ← hash] at record
    refine ⟨fun session => ?_, fun result s₃ answered' => ?_⟩
    · obtain ⟨log', _, s₃, evaluates', healthy', rfl⟩ := @answers_replay ctx t₂ s₂ _ _ _ _ _ _ _
        keyed' valid record
      exact ⟨s₃, session, log', evaluates', healthy'⟩
    · obtain ⟨_, log', evaluates', healthy'⟩ := answered'
      have replay := (serves_replay keyed' valid record).evaluates evaluates' healthy'
      cases result with
      | ok response' =>
          obtain ⟨rfl, db⟩ := replay.1 response' rfl
          exact ⟨rfl, db⟩
      | error e => exact (replay.2 e rfl).elim
  · have stored := recorded.record
    rwa [if_pos (Nat.lt_of_not_le fun small => absurd (size.mp small) (Nat.not_le.mpr large))]
      at stored

/-! ### An order that fits, and one that does not -/

/-- A context in which everything that is hashed has this digest, without caches. -/
def digestContext (digest : String) : ApiContext :=
  { exampleContext fun _ => digest with config := ⟨false, 30, 300⟩ }

def exampleOrderKey : String := "test-key-12345"

def keyedPost : FastifyRequest := { postRequest with idempotencyKey := .single exampleOrderKey }

/-- The digest of the order of one item. -/
def smallDigest : String := "e472329e20e1911e7f15ecd74c9393ee308157d77dd2118b51fad80708e74292"

def smallBody : String :=
  "\x7b\"customerEmail\":\"a@b.co\",\"items\":[\x7b\"sku\":\"x\",\"quantity\":1," ++
    "\"unitPriceCents\":100\x7d]\x7d"

private theorem isDigest_of_all {text : String} (length : text.toList.length = 64)
    (digits : text.toList.all isHexDigit = true) : IsDigest text :=
  ⟨length, List.all_eq_true.mp digits⟩

private theorem undrawn_initial {drawn : List Uuid} (nodup : drawn.Nodup)
    (length : ∀ id ∈ drawn, id.text.toList.length = 36) : Undrawn State.initial drawn :=
  ⟨fun _ _ => rfl, nodup, length⟩

private theorem append_ne {α : Type} (l : List α) (a : α) : l ++ [a] ≠ l := by simp

/-- A small order is replayed. -/
theorem small_order_replayed :
    ∃ route response s', postOrders (digestContext smallDigest) alice keyedPost smallBody 1 =
        some route ∧
      Answered (digestContext smallDigest) 0 route State.initial (.ok response) s' ∧
      s'.db.tables.orders.length = 1 ∧
      Replays (digestContext smallDigest) alice keyedPost (oneItem [0x78] (by decide)) exampleOrderKey
        response s' := by
  have accepted : acceptedBody (units smallBody.toList) = some (oneItem [0x78] (by decide)) := by
    decide +kernel
  have posted : postOrders (digestContext smallDigest) alice keyedPost smallBody 1 = some
      (createOrderOf (digestContext smallDigest) alice keyedPost (oneItem [0x78] (by decide)) 1) := by
    rw [postOrders, if_pos (by decide), accepted, Option.map_some]
  have valid : matchesIdempotencyKeyRegex exampleOrderKey = true := by decide
  have digest : IsDigest smallDigest := isDigest_of_all (by decide) (by decide)
  have answers := @answers_createOrderOf (digestContext smallDigest) 0 State.initial alice keyedPost
    (oneItem [0x78] (by decide)) exampleOrderKey (exampleId 1) (exampleId 2) (exampleId 3)
  obtain ⟨log, _, s', evaluates, healthy, row, rfl, placed⟩ := answers rfl rfl valid rfl
    (undrawn_initial (by decide) (by decide)) rfl rfl
  have served : Answered (digestContext smallDigest) 0 _ State.initial _ s' :=
    ⟨rfl, log, evaluates, healthy⟩
  obtain ⟨body, row', accepted', -, orders', -, replayed, -⟩ := created_order_replayed
    (fun _ => digest) (by decide) rfl valid posted served (by rw [placed.orders]; exact append_ne _ _)
  obtain rfl : body = oneItem [0x78] (by decide) := Option.some.inj (accepted'.symm.trans accepted)
  exact ⟨_, _, s', posted, served, by rw [placed.orders]; rfl, (replayed (by decide)).2⟩

/-- An email of this many letters in front of its sign. -/
def longEmail (n : ℕ) : List Char := List.replicate n 'a' ++ "@b.co".toList

private theorem units_longEmail (n : ℕ) :
    units (longEmail n) = List.replicate n 0x61 ++ Utf16.lit "@b.co" := by
  have letters : units (List.replicate n 'a') = List.replicate n 0x61 := by
    induction n with
    | zero => rfl
    | succ n ih =>
        rw [List.replicate_succ, List.replicate_succ, ← List.singleton_append, Utf16.units_append, ih]
        rfl
  rw [longEmail, Utf16.units_append, letters]
  rfl

private theorem matches_longEmail (n : ℕ) : matchesEmailRegex (units (longEmail (n + 1))) = true := by
  have letters : ∀ u ∈ List.replicate (n + 1) (0x61 : UInt16), isEmailUnit u = true := by
    intro u mem
    rw [List.eq_of_mem_replicate mem]
    decide
  have sign : (Utf16.lit "@b.co").dropWhile isEmailUnit = 0x40 :: Utf16.lit "b.co" := by
    decide
  have first : (Utf16.lit "@b.co").takeWhile isEmailUnit = [] := by decide
  rw [units_longEmail, matchesEmailRegex, List.dropWhile_append_of_pos letters,
    List.takeWhile_append_of_pos letters, sign, first, List.append_nil, List.replicate_succ]
  show (_ && !false && _ && _) = true
  decide

/-- An order of one item under a long email. -/
def longOrder (n : ℕ) : CreateOrderBody where
  customerEmail := units (longEmail (n + 1))
  items := (oneItem [0x78] (by decide)).items
  email := matches_longEmail n
  items_length := (oneItem [0x78] (by decide)).items_length

/-- The body of the request for it. -/
def longBody (n : ℕ) : String := (longOrder n).text.toJson.stringify

private theorem isText_longOrder (n : ℕ) : (longOrder n).IsText := by
  refine ⟨Utf16.paired_units _, fun item mem => ?_⟩
  obtain rfl := List.mem_singleton.mp mem
  decide

theorem accepted_longBody (n : ℕ) : acceptedBody (units (longBody n).toList) = some (longOrder n) := by
  rw [longBody, Json.stringify, String.toList_ofList, JavaScript.units_chars,
    CreateOrderBody.ofJson_toJson (isText_longOrder n), acceptedBody_stringify]

private theorem isPlain_longEmail (n : ℕ) : ∀ c ∈ longEmail n, isPlain c = true := by
  intro c mem
  rcases List.mem_append.mp mem with letter | domain
  · rw [List.eq_of_mem_replicate letter]
    decide
  · exact List.all_eq_true.mp (by decide : "@b.co".toList.all isPlain = true) c domain

private theorem text_longOrder (n : ℕ) : (longOrder n).text.customerEmail =
    String.ofList (longEmail (n + 1)) := by
  rw [CreateOrderBody.text, longOrder, Utf16.decode_units]

private theorem bytes_longEmail (n : ℕ) :
    (Json.str (String.ofList (longEmail n))).bytes = n + 7 := by
  rw [Text.Json.bytes_str_of_plain (by rw [String.toList_ofList]; exact isPlain_longEmail n),
    String.toList_ofList, longEmail, List.length_append, List.length_replicate]
  rfl

private theorem bytes_longItems (n : ℕ) : (longOrder n).text.itemsJson.bytes = 47 := by
  show (CreateOrder.itemsJson ⟨"", (oneItem [0x78] (by decide)).items.map
    OrderItemBody.text⟩).bytes = 47
  decide

private theorem longBody_size (n : ℕ) : (longBody n).utf8ByteSize = n + 82 := by
  have email : (Json.str (longOrder n).text.customerEmail).bytes = n + 8 := by
    rw [text_longOrder, bytes_longEmail]
  have items := bytes_longItems n
  have first : (Json.str "customerEmail").bytes = 15 := by decide
  have second : (Json.str "items").bytes = 7 := by decide
  have size : (longOrder n).text.toJson.bytes = 1 + (List.map Text.propertyBytes
      [("customerEmail", .str (longOrder n).text.customerEmail),
        ("items", (longOrder n).text.itemsJson)]).sum :=
    Text.Json.bytes_object (List.cons_ne_nil _ _)
  simp -implicitDefEqProofs only [List.map_cons, List.map_nil, List.sum_cons, List.sum_nil,
    Text.propertyBytes, email, items, first, second] at size
  show (longOrder n).text.toJson.bytes = _
  omega

private theorem asciiLower_longEmail (n : ℕ) :
    asciiLower (String.ofList (longEmail n)) = String.ofList (longEmail n) := by
  rw [asciiLower, String.toList_ofList, longEmail, List.map_append, List.map_replicate]
  rfl

private theorem orderBytes_longOrder (digest : String) (n : ℕ) :
    orderBytes (digestContext digest) (longOrder n).text 0 = n + 110 := by
  have email : (Json.str ((digestContext digest).lower (longOrder n).text.customerEmail)).bytes =
      n + 8 := by
    rw [text_longOrder]
    show (Json.str (asciiLower _)).bytes = _
    rw [asciiLower_longEmail, bytes_longEmail]
  have items := bytes_longItems n
  have total : (Json.num (longOrder n).text.totalCents).bytes = 3 := by
    show (Json.num 100).bytes = 3
    decide
  have stamp : (Json.str (Text.toISOString (0 / 1000))).bytes = 26 := by decide
  rw [orderBytes, email, items, total, stamp]

/-- A long order whose body is within the limit is created, and the same request creates another
one. -/
private theorem created_twice {digest : String} {n : ℕ} (isDigest : IsDigest digest)
    (long : 65111 ≤ n) (short : n + 82 ≤ bodyLimit) :
    ∃ route row response s₁ again response' s₂,
      postOrders (digestContext digest) alice keyedPost (longBody n) 1 = some route ∧
      Answered (digestContext digest) 0 route State.initial (.ok response) s₁ ∧
      response = ⟨201, some (orderBody (some row))⟩ ∧
      maxStoredBodyBytes < (orderRecord (bodyHash (digestContext digest) keyedPost
        (longOrder n).toJson) row).serialized.utf8ByteSize ∧
      s₁.server.store (orderRecordKey alice exampleOrderKey) = none ∧
      Answered (digestContext digest) 0 route s₁ (.ok response') s₂ ∧
      s₂.db.tables.orders = [row, again] ∧ row.id ≠ again.id := by
  have posted : postOrders (digestContext digest) alice keyedPost (longBody n) 1 = some
      (createOrderOf (digestContext digest) alice keyedPost (longOrder n) 1) := by
    rw [postOrders, if_pos (by rw [longBody_size]; exact short), accepted_longBody, Option.map_some]
  have valid : matchesIdempotencyKeyRegex exampleOrderKey = true := by decide
  have hash : bodyHash (digestContext digest) keyedPost (longOrder n).toJson = digest := rfl
  have answers := @answers_createOrderOf (digestContext digest) 0 State.initial alice keyedPost
    (longOrder n) exampleOrderKey (exampleId 1) (exampleId 2) (exampleId 3)
  obtain ⟨log, _, s₁, evaluates, healthy, row, rfl, placed⟩ := answers rfl rfl valid rfl
    (undrawn_initial (by decide +kernel) (by decide +kernel)) rfl rfl
  have first : Answered (digestContext digest) 0 _ State.initial _ s₁ :=
    ⟨rfl, log, evaluates, healthy⟩
  have orders₁ : s₁.db.tables.orders = [row] := placed.orders
  obtain ⟨row', creates, same, recorded⟩ := recorded_of_answered rfl valid first
    (by rw [placed.orders]; exact append_ne _ _)
  obtain rfl : row = row' := List.singleton_inj.mp (orders₁.symm.trans recorded.orders)
  rw [hash] at recorded ⊢
  have large : maxStoredBodyBytes < (orderRecord digest row).serialized.utf8ByteSize := by
    rw [← Nat.not_le, serialized_le_iff creates isDigest (by decide)]
    show ¬ orderBytes _ _ 0 ≤ 65220
    rw [orderBytes_longOrder]
    omega
  have free := recorded.record
  rw [if_pos large] at free
  have absent : s₁.db.tables.order? (exampleId 4) = none := by
    rw [Tables.order?, orders₁, List.find?_singleton, placed.id]
    exact if_neg (by decide +kernel)
  have undrawn : Undrawn s₁ [exampleId 4, exampleId 5, exampleId 6] := by
    refine ⟨fun id mem => ?_, by decide +kernel, by decide +kernel⟩
    rw [placed.generated id]
    · rfl
    · revert id
      decide +kernel
  obtain ⟨log', _, s₂, evaluates', healthy', again, rfl, placed'⟩ :=
    @answers_createOrderOf (digestContext digest) _ _ alice keyedPost (longOrder n) _ _ _ _ rfl rfl
    valid placed.session undrawn absent free
  refine ⟨_, row, _, s₁, again, _, s₂, posted, first, rfl, large, free,
    ⟨placed.session, log', evaluates', healthy'⟩, ?_, ?_⟩
  · rw [placed'.orders, orders₁, List.singleton_append]
  · rw [placed.id, placed'.id]
    decide

/-- The digest of the order under an email of 65400 letters. -/
def largeDigest : String := "7b13d1e17615a615b104547f03405bd39d8c1be6e01545da109e45d004ca6014"

/-- **An order is created twice.**  The body is accepted, the order is created, its record is too
large, the key is cleared, and the same request creates a second order. -/
theorem large_order_created_twice :
    (longBody 65399).utf8ByteSize ≤ bodyLimit ∧
      acceptedBody (units (longBody 65399).toList) = some (longOrder 65399) ∧
      ∃ route row response s₁ again response' s₂,
        postOrders (digestContext largeDigest) alice keyedPost (longBody 65399) 1 = some route ∧
        Answered (digestContext largeDigest) 0 route State.initial (.ok response) s₁ ∧
        response = ⟨201, some (orderBody (some row))⟩ ∧
        maxStoredBodyBytes < (orderRecord (bodyHash (digestContext largeDigest) keyedPost
          (longOrder 65399).toJson) row).serialized.utf8ByteSize ∧
        s₁.server.store (orderRecordKey alice exampleOrderKey) = none ∧
        Answered (digestContext largeDigest) 0 route s₁ (.ok response') s₂ ∧
        s₂.db.tables.orders = [row, again] ∧ row.id ≠ again.id := by
  refine ⟨?_, accepted_longBody _, created_twice ?_ (by norm_num) (by norm_num [bodyLimit])⟩
  · rw [longBody_size, bodyLimit]
    norm_num
  · exact isDigest_of_all (by decide) (by decide)

end OrderRoutes

end OrderPlatform
