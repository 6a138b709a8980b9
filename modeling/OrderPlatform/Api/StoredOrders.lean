import OrderPlatform.Api.OrderAlone
import OrderPlatform.Api.OrderBodies
import OrderPlatform.Text.JsonBytes

/-!
# What a completed record takes

A `POST` under an `Idempotency-Key` leaves the order it has created in a record, as long as the
record takes at most `maxStoredBodyBytes`.  The items of an accepted body are bounded, its email is
not, and a body may be larger than a record.

Requests are served alone here, every Redis command being answered.  What the record takes is known
from the body (`serialized_orderRecord`), and decides whether the order is replayed or the key is
cleared (`created_order_replayed`).
-/

namespace OrderPlatform

namespace OrderRoutes

open Async (Tid Evaluates Performed Contract Program)
open Text (Json propertyBytes isPlain)

variable {ctx ctx' : ApiContext} {t : Tid} {ids : Uuid → Prop} {s s' : State} {user : Uuid}

/-! ### The route for the text of a body -/

/-- `bodyLimit`. -/
def bodyLimit : ℕ := 102400

/-- The context of a handler for which the hash of its body has been taken. -/
def hashedAs (ctx : ApiContext) (requestHash : String) : ApiContext :=
  { ctx with sha256 := fun _ => requestHash }

/-- The handler of `POST /v1/orders`.  The hash is that of the body as it was sent. -/
def createOrderOf (ctx : ApiContext) (user : Uuid) (request : FastifyRequest)
    (body : CreateOrderBody) (attempts : ℕ) : Route HttpResponse :=
  createOrder (hashedAs ctx (bodyHash ctx request body.toJson)) user request body.text attempts

/-- What is done for a request with this text as its body; `none` where it is refused. -/
def postOrders (ctx : ApiContext) (user : Uuid) (request : FastifyRequest) (raw : String)
    (attempts : ℕ) : Option (Route HttpResponse) :=
  if raw.utf8ByteSize ≤ bodyLimit then
    (acceptedBody (Utf16.units raw.toList)).map fun body =>
      createOrderOf ctx user request body attempts
  else none

/-- The record of a created order. -/
def orderRecord (requestHash : String) (row : OrderRow) : StoredRecord :=
  .completed requestHash (.num 201) (some (orderBody (some row)))

/-- The Redis key of the record of a keyed `POST`. -/
def orderRecordKey (user : Uuid) (key : String) : String :=
  buildRedisKey "orders:create" user.text key

/-! ### The work of a `POST` -/

/-- The row of the order that a request makes of its data now. -/
structure Creates (ctx : ApiContext) (ids : Uuid → Prop) (user : Uuid) (data : CreateOrder)
    (now : ℕ) (row : OrderRow) : Prop where
  id : ids row.id
  userId : row.userId = user
  customerEmail : row.customerEmail = ctx.lower data.customerEmail
  items : row.items = data.itemsJson
  totalCents : row.totalCents = data.totalCents
  status : row.status = .pending
  createdAt : row.createdAt = now
  updatedAt : row.updatedAt = now

/-- The order is in the tables, and the records are what they were. -/
structure Inserted (s : State) (row : OrderRow) (s' : State) : Prop where
  orders : s'.db.tables.orders = s.db.tables.orders ++ [row]
  records : ∀ key, familyOf key = .record → s'.server.store key = s.server.store key

theorem Inserted.of_same {row : OrderRow} {s'' : State} (h : Inserted s row s') (db : s''.db = s'.db)
    (server : s''.server = s'.server) : Inserted s row s'' := by
  refine ⟨?_, fun key family => ?_⟩
  · rw [db, h.orders]
  · rw [server, h.records key family]

/-- The version of the lists is raised, or not. -/
private theorem serves_invalidateListNamespace {row : OrderRow} {s₁ : State}
    (inserted : Inserted s row s₁) :
    (servedAlone ctx t ids).Holds (fun _ => Inserted s row) (fun _ _ => True)
      (invalidateListNamespace ctx' cacheNamespaces.ordersList : Route Unit) s₁ := by
  unfold invalidateListNamespace
  split
  · refine Contract.Holds.recover _ (Contract.Holds.map (fun _ => ()) (serves_redis ?_ ?_))
    · intro r s₂ db _ applied
      refine ⟨by rw [db, inserted.orders], fun key family => ?_⟩
      rw [Redis.Command.apply_other applied (ne_versionKey_of_record family),
        inserted.records key family]
    · intro s₂ db server _
      exact inserted.of_same db server
  · exact Contract.alone_done inserted

/-- The transaction and what follows its commit. -/
private theorem serves_insertNewOrder {data : CreateOrder} {orderId : Uuid} {event : OutboxEventRow}
    (session : s.db.transaction t = none) (drawn : ids orderId) :
    (servedAlone ctx t ids).Holds
      (fun result s' => ∃ row, Creates ctx ids user data s.db.now row ∧
        result = ⟨.num 201, some (orderBody (some row))⟩ ∧ Inserted s row s')
      (fun _ _ => True) (insertNewOrder ctx' user data orderId event) s := by
  have fails : ∀ (e : ApiError) (s' : State), Same s s' → True := fun _ _ _ => trivial
  refine ((serves_begin session).mono (fun _ _ known => known) fails).chain rfl ?_
  rintro - s₁ writing₁ _
  refine ((serves_insertOrder writing₁).mono (fun _ _ known => known) fails).chain rfl ?_
  rintro row s₂ ⟨new, writing₂⟩ _
  refine (serves_randomUUID (E := fun _ _ => True) (Q := fun _ s' =>
    Writing t ([] ++ [.insertOrder row]) s s') fun id s₃ _ db server =>
      writing₂.of_db db server).chain rfl ?_
  rintro createdId s₃ writing₃ _
  refine ((serves_insertOrderEvent writing₃).mono (fun _ _ known => known) fails).chain rfl ?_
  rintro - s₄ ⟨audit, writing₄⟩ _
  refine ((serves_insertOutboxEvent writing₄).mono (fun _ _ known => known) fails).chain rfl ?_
  rintro - s₅ writing₅ _
  refine ((serves_commit writing₅).mono (fun _ _ known => known) fails).chain rfl ?_
  rintro - s₆ ⟨tables, server⟩ _
  have inserted : Inserted s row s₆ := ⟨by rw [tables]; rfl, fun _ _ => by rw [server]⟩
  refine (serves_invalidateListNamespace inserted).chain rfl ?_
  rintro - s₇ inserted₇ _
  refine Contract.alone_done ⟨row, ?_, rfl, inserted₇⟩
  rw [new]
  exact ⟨drawn, rfl, rfl, rfl, rfl, rfl, rfl, rfl⟩

/-- The work of a `POST`. -/
private theorem serves_createOrderTransactionally {request : FastifyRequest} {data : CreateOrder}
    (session : s.db.transaction t = none) :
    (servedAlone ctx t ids).Holds
      (fun result s' => ∃ row, Creates ctx ids user data s.db.now row ∧
        result = ⟨.num 201, some (orderBody (some row))⟩ ∧ Inserted s row s')
      (fun _ _ => True) (createOrderTransactionally ctx' request user data) s := by
  have anyhow := @Contract.alone_anyhow (machine ctx) Unit t
    (fun c o _ => RedisAnswers c o ∧ ∀ id, c = .fresh id → ids id)
  refine (serves_randomUUID (E := fun _ _ => True) (Q := fun id s' => ids id ∧ s'.db = s.db ∧
    s'.server = s.server) fun id s₁ drawn db server => ⟨drawn, db, server⟩).chain rfl ?_
  rintro orderId s₁ ⟨drawn, db₁, server₁⟩ _
  refine serves_work (by rintro _ ⟨⟩) fun eventId s₂ db₂ server₂ => ?_
  refine serves_work (by rintro _ ⟨⟩) fun now s₃ db₃ server₃ => ?_
  refine serves_work (by rintro _ ⟨⟩) fun connected s₄ db₄ server₄ => ?_
  cases connected with
  | none => exact Contract.alone_thrown trivial
  | some _ =>
      have db : s₄.db = s.db := by rw [db₄, db₃, db₂, db₁]
      have server : s₄.server = s.server := by rw [server₄, server₃, server₂, server₁]
      have worked := @serves_insertNewOrder ctx ctx' _ ids _ user data _
        (orderCreatedEvent request eventId orderId (Text.toISOString now))
        (show s₄.db.transaction t = none by rw [db, session]) drawn
      refine Contract.Holds.ensuring (Contract.Holds.attempt (worked.mono ?_ ?_) rfl) rfl
      · rintro result s₅ ⟨row, creates, same, inserted⟩ _
        refine serves_work (by rintro _ ⟨⟩) fun _ s₆ db₆ server₆ => Contract.alone_done ⟨row, ?_⟩
        rw [db] at creates
        refine ⟨creates, same, ?_, fun key family => ?_⟩
        · rw [db₆, inserted.orders, db]
        · rw [server₆, inserted.records key family, server]
      · rintro e s₅ - _
        refine Contract.Holds.bind ((anyhow rollbackIgnoring s₅).mono ?_ fun _ _ _ _ =>
          (anyhow release _).mono (fun _ _ _ => trivial) fun _ _ _ => trivial) rfl
        intro _ s₆ _ _
        exact Contract.alone_thrown fun _ =>
          (anyhow release s₆).mono (fun _ _ _ => trivial) fun _ _ _ => trivial

/-! ### Behind the idempotency layer -/

/-- What a `POST` that has created an order leaves under its key. -/
structure Recorded (s : State) (redisKey requestHash : String) (row : OrderRow) (s' : State) :
    Prop where
  orders : s'.db.tables.orders = s.db.tables.orders ++ [row]
  record : s'.server.store redisKey =
    if maxStoredBodyBytes < (orderRecord requestHash row).serialized.utf8ByteSize then none
    else some ⟨(orderRecord requestHash row).serialized, some completedTtlSeconds⟩

theorem storeResult_of_large {redisKey requestHash : String} {row : OrderRow}
    (large : maxStoredBodyBytes < (orderRecord requestHash row).serialized.utf8ByteSize) :
    storeResult redisKey requestHash ⟨.num 201, some (orderBody (some row))⟩ =
      (redisIgnoring (.del redisKey) : Route Unit) := if_pos large

theorem storeResult_of_fits {redisKey requestHash : String} {row : OrderRow}
    (fits : ¬ maxStoredBodyBytes < (orderRecord requestHash row).serialized.utf8ByteSize) :
    storeResult redisKey requestHash ⟨.num 201, some (orderBody (some row))⟩ =
      (redis (.set redisKey (orderRecord requestHash row).serialized completedTtlSeconds) :
        Route Unit) := if_neg fits

/-- The owner of the claim. -/
private theorem serves_execute {request : FastifyRequest} {data : CreateOrder}
    {redisKey requestHash : String} (session : s.db.transaction t = none) :
    (servedAlone ctx t ids).Holds
      (fun result s' => ∃ row, Creates ctx ids user data s.db.now row ∧
        result = ⟨.num 201, some (orderBody (some row))⟩ ∧ Recorded s redisKey requestHash row s')
      (fun _ _ => True)
      (execute redisKey requestHash (createOrderTransactionally ctx' request user data)) s := by
  refine Contract.Holds.attempt ?_ rfl
  have worked := @serves_createOrderTransactionally ctx ctx' _ ids _ user request data session
  refine Contract.Holds.chain (worked.mono (fun _ _ known => known) fun e s₁ _ _ => ?_) rfl ?_
  · refine (Contract.alone_anyhow _ s₁).chain rfl fun _ s₂ _ _ => ?_
    exact Contract.alone_thrown trivial
  · rintro _ s₁ ⟨row, creates, rfl, inserted⟩ _
    refine Contract.Holds.map (fun _ => _) ?_
    by_cases large : maxStoredBodyBytes < (orderRecord requestHash row).serialized.utf8ByteSize
    · rw [storeResult_of_large large]
      refine Contract.Holds.recover _ (Contract.Holds.map (fun _ => ()) (serves_redis ?_ ?_))
      · intro r s₂ db _ applied
        refine ⟨row, creates, rfl, by rw [db, inserted.orders], ?_⟩
        have store : s₂.server.store = Function.update s₁.server.store redisKey none :=
          (congrArg Prod.snd (Option.some.inj applied)).symm
        rw [if_pos large, store, Function.update_self]
      · intro s₂ _ _ impossible
        cases impossible
    · rw [storeResult_of_fits large]
      refine serves_redis ?_ ?_
      · intro r s₂ db _ applied
        refine ⟨row, creates, rfl, by rw [db, inserted.orders], ?_⟩
        have store : s₂.server.store = Function.update s₁.server.store redisKey _ :=
          (congrArg Prod.snd (Option.some.inj applied)).symm
        rw [if_neg large, store, Function.update_self]
      · intro s₂ _ _ impossible
        cases impossible

/-- A record is read, or an entry that is none is cleared. -/
private theorem serves_readExistingRecord {redisKey requestHash : String} :
    (servedAlone ctx t ids).Holds (fun _ s' => s'.db = s.db) (fun _ _ => True)
      (readExistingRecord redisKey requestHash : Route (Option IdempotencyResult)) s := by
  refine Contract.Holds.chain (Q := fun _ (s' : State) => s'.db = s.db) (serves_redis
    (fun _ _ db _ _ => db) fun _ _ _ _ => trivial) rfl ?_
  rintro existing s₁ db₁ _
  cases existing with
  | none => exact Contract.alone_done db₁
  | some existing =>
      dsimp only
      split
      · exact Contract.alone_done db₁
      · split
        · refine Contract.Holds.map _ (Contract.Holds.recover _ (Contract.Holds.map (fun _ => ())
            (serves_redis ?_ ?_)))
          · exact fun _ s₂ db₂ _ _ => by rw [db₂, db₁]
          · exact fun s₂ db₂ _ _ => by rw [db₂, db₁]
        · split
          · exact Contract.alone_thrown trivial
          · exact Contract.alone_done db₁

/-- **A `POST` under a key** creates an order and leaves its record, or does not touch the database.
The induction is on the attempts. -/
private theorem serves_withIdempotency {request request' : FastifyRequest} {data : CreateOrder}
    {requestBody : Json} {key requestHash : String} {attempts : ℕ}
    (keyed : readIdempotencyKey request = some key)
    (valid : matchesIdempotencyKeyRegex key = true)
    (hash : canonicalRequestHash ctx' request requestBody = requestHash)
    (session : s.db.transaction t = none) :
    (servedAlone ctx t ids).Holds
      (fun result s' => (∃ row, Creates ctx ids user data s.db.now row ∧
          result = ⟨.num 201, some (orderBody (some row))⟩ ∧
          Recorded s (orderRecordKey user key) requestHash row s') ∨ s'.db = s.db)
      (fun _ _ => True)
      (withIdempotency ctx' ⟨"orders:create", user.text, request, requestBody⟩
        (createOrderTransactionally ctx' request' user data) attempts) s := by
  induction attempts generalizing s with
  | zero => trivial
  | succ attempts ih =>
      rw [withIdempotency, keyed]
      dsimp only
      rw [if_pos valid, hash]
      refine Contract.Holds.chain (Q := fun _ (s' : State) => s'.db = s.db) (serves_redis
        (fun _ _ db _ _ => db) fun _ _ _ _ => trivial) rfl ?_
      intro acquired s₁ db _
      have session₁ : s₁.db.transaction t = none := by rw [db, session]
      split
      · refine (serves_execute session₁).mono ?_ fun _ _ _ => trivial
        rintro result s₂ ⟨row, creates, same, posted⟩
        rw [db] at creates
        exact .inl ⟨row, creates, same, by rw [posted.orders, db], posted.record⟩
      · refine serves_readExistingRecord.chain rfl ?_
        rintro replay s₂ db₂ _
        cases replay with
        | some replay => exact Contract.alone_done (.inr (by rw [db₂, db]))
        | none =>
            refine (ih (s := s₂) (by rw [db₂, session₁])).mono ?_ fun _ _ _ => trivial
            rw [db₂, db]
            rintro result s₃ (⟨row, creates, same, posted⟩ | same)
            · exact .inl ⟨row, creates, same, by rw [posted.orders, db₂, db], posted.record⟩
            · exact .inr same

/-- The key of a request that has one. -/
theorem readIdempotencyKey_of_single {request : FastifyRequest} {key : String}
    (keyed : request.idempotencyKey = .single key) (valid : matchesIdempotencyKeyRegex key = true) :
    readIdempotencyKey request = some key := by
  have nonempty : ¬ key.isEmpty = true := by
    intro empty
    rw [String.isEmpty_iff.mp empty] at valid
    cases valid
  rw [readIdempotencyKey, keyed]
  exact if_neg nonempty

/-- The route. -/
theorem serves_createOrderOf {request : FastifyRequest} {body : CreateOrderBody}
    {key : String} {attempts : ℕ} (keyed : request.idempotencyKey = .single key)
    (valid : matchesIdempotencyKeyRegex key = true) (session : s.db.transaction t = none) :
    (servedAlone ctx t ids).Holds
      (fun response s' => (∃ row, Creates ctx ids user body.text s.db.now row ∧
          response = ⟨201, some (orderBody (some row))⟩ ∧
          Recorded s (orderRecordKey user key) (bodyHash ctx request body.toJson) row s') ∨
        s'.db = s.db)
      (fun _ _ => True) (createOrderOf ctx user request body attempts) s := by
  refine (serves_withIdempotency (readIdempotencyKey_of_single keyed valid) valid rfl session).chain rfl ?_
  rintro result s₁ (⟨row, creates, rfl, posted⟩ | same) _
  · exact Contract.alone_done (.inl ⟨row, creates, rfl, posted⟩)
  · unfold sendResult
    split
    · split
      · exact Contract.alone_done (.inr same)
      · exact Contract.alone_thrown trivial
    · exact Contract.alone_thrown trivial

/-! ### What a record takes -/

/-- What those members of a row take whose size is not fixed. -/
def variableBytes (row : OrderRow) : ℕ :=
  (Json.str row.customerEmail).bytes + row.items.bytes + (Json.num row.totalCents).bytes +
    (Json.str (Text.toISOString (row.createdAt / 1000))).bytes +
    (Json.str (Text.toISOString (row.updatedAt / 1000))).bytes

private theorem bytes_property {key : String} {v : Json} (n : ℕ)
    (size : (Json.str key).bytes + 2 = n) : propertyBytes (key, v) = n + v.bytes := by
  rw [← size, propertyBytes, Nat.add_right_comm]

private theorem bytes_row {row : OrderRow} (pending : row.status = .pending) :
    row.toJson.bytes =
      107 + (Json.str row.id.text).bytes + (Json.str row.userId.text).bytes + variableBytes row := by
  have size : row.toJson.bytes = 1 + (List.map propertyBytes _).sum :=
    Json.bytes_object (List.cons_ne_nil _ _)
  have id := @bytes_property "id" (.str row.id.text) 6 (by decide)
  have userId := @bytes_property "user_id" (.str row.userId.text) 11 (by decide)
  have email := @bytes_property "customer_email" (.str row.customerEmail) 18 (by decide)
  have items := @bytes_property "items" row.items 9 (by decide)
  have total := @bytes_property "total_cents" (.num row.totalCents) 15 (by decide)
  have status := @bytes_property "status" (.str row.status.text) 10 (by decide)
  have created := @bytes_property "created_at"
    (.str (Text.toISOString (row.createdAt / 1000))) 14 (by decide)
  have updated := @bytes_property "updated_at"
    (.str (Text.toISOString (row.updatedAt / 1000))) 14 (by decide)
  have nine : (Json.str row.status.text).bytes = 9 := by
    rw [pending]
    decide
  simp -implicitDefEqProofs only [List.map_cons, List.map_nil, List.sum_cons, List.sum_nil, id, userId, email, items,
    total, status, created, updated, nine] at size
  unfold variableBytes
  omega

/-- **The size of a record.** -/
theorem serialized_orderRecord {row : OrderRow} {requestHash : String}
    (pending : row.status = .pending) :
    (orderRecord requestHash row).serialized.utf8ByteSize =
      174 + (Json.str requestHash).bytes + (Json.str row.id.text).bytes +
        (Json.str row.userId.text).bytes + variableBytes row := by
  have body : (orderBody (some row)).bytes =
      1 + (List.map propertyBytes [("order", row.toJson)]).sum :=
    Json.bytes_object (List.cons_ne_nil _ _)
  have order := @bytes_property "order" row.toJson 9 (by decide)
  simp -implicitDefEqProofs only [List.map_cons, List.map_nil, List.sum_cons, List.sum_nil, order, bytes_row pending]
    at body
  have size : (orderRecord requestHash row).toJson.bytes =
      1 + (List.map propertyBytes [("state", .str "completed"), ("requestHash", .str requestHash),
        ("status", .num 201), ("body", orderBody (some row))]).sum :=
    Json.bytes_object (List.cons_ne_nil _ _)
  have state := @bytes_property "state" (.str "completed") 9 (by decide)
  have hash := @bytes_property "requestHash" (.str requestHash) 15 (by decide)
  have status := @bytes_property "status" (.num 201) 10 (by decide)
  have response := @bytes_property "body" (orderBody (some row)) 8 (by decide)
  have eleven : (Json.str "completed").bytes = 11 := by decide
  have three : (Json.num 201).bytes = 3 := by decide
  simp -implicitDefEqProofs only [List.map_cons, List.map_nil, List.sum_cons, List.sum_nil, state, hash, status, response,
    eleven, three, body] at size
  unfold StoredRecord.serialized
  rw [← Json.bytes, size]
  omega

/-- A lower-case hexadecimal digit. -/
def isHexDigit (c : Char) : Bool := c.isDigit || ('a' ≤ c && c ≤ 'f')

/-- The digest of SHA-256 as `digest("hex")` writes it. -/
def IsDigest (text : String) : Prop := text.toList.length = 64 ∧ ∀ c ∈ text.toList, isHexDigit c = true

private theorem isPlain_of_isUuidChar {c : Char} (h : isUuidChar c = true) : isPlain c = true := by
  simp only [isUuidChar, Char.isDigit, Bool.or_eq_true, Bool.and_eq_true, decide_eq_true_eq,
    Char.le_def, UInt32.le_iff_toNat_le] at h
  have bounds : 45 ≤ c.toNat ∧ c.toNat ≤ 102 ∧ c.toNat ≠ 92 := by
    rcases h with (⟨lo, hi⟩ | ⟨lo, hi⟩) | rfl
    · change 48 ≤ c.toNat at lo
      change c.toNat ≤ 57 at hi
      omega
    · change 97 ≤ c.toNat at lo
      change c.toNat ≤ 102 at hi
      omega
    · decide
  simp only [isPlain, Bool.and_eq_true, decide_eq_true_eq]
  refine ⟨⟨⟨by omega, by omega⟩, ?_⟩, ?_⟩
  · rintro rfl
    exact absurd bounds.1 (by decide)
  · rintro rfl
    exact bounds.2.2 rfl

private theorem bytes_digest {text : String} (digest : IsDigest text) :
    (Json.str text).bytes = 66 := by
  rw [Text.Json.bytes_str_of_plain fun c mem => isPlain_of_isUuidChar ?_, digest.1]
  rw [isUuidChar, ← isHexDigit, digest.2 c mem, Bool.true_or]

private theorem bytes_uuid {id : Uuid} (length : id.text.toList.length = 36) :
    (Json.str id.text).bytes = 38 := by
  rw [Text.Json.bytes_str_of_plain fun c mem => isPlain_of_isUuidChar (id.canonical c mem), length]

/-- What those parts of a record take whose size depends on the order and on the year. -/
def orderBytes (ctx : ApiContext) (data : CreateOrder) (now : ℕ) : ℕ :=
  (Json.str (ctx.lower data.customerEmail)).bytes + data.itemsJson.bytes +
    (Json.num data.totalCents).bytes + 2 * (Json.str (Text.toISOString (now / 1000))).bytes

/-- **Which records can be stored.** -/
theorem serialized_le_iff {data : CreateOrder} {now : ℕ} {row : OrderRow} {requestHash : String}
    (creates : Creates ctx (fun id => id.text.toList.length = 36) user data now row)
    (digest : IsDigest requestHash) (length : user.text.toList.length = 36) :
    (orderRecord requestHash row).serialized.utf8ByteSize ≤ maxStoredBodyBytes ↔
      orderBytes ctx data now ≤ 65220 := by
  have variable_ : variableBytes row = orderBytes ctx data now := by
    rw [variableBytes, orderBytes, creates.customerEmail, creates.items, creates.totalCents,
      creates.createdAt, creates.updatedAt, two_mul, Nat.add_assoc]
  rw [serialized_orderRecord creates.status, bytes_digest digest, bytes_uuid creates.id,
    creates.userId, bytes_uuid length, variable_]
  show 174 + 66 + 38 + 38 + orderBytes ctx data now ≤ 65536 ↔ _
  omega

/-! ### A replay -/

/-- A request with the body of the record is answered from it. -/
theorem serves_replay {request : FastifyRequest} {body : CreateOrderBody} {key : String}
    {row : OrderRow} {ttl : Option ℕ} {attempts : ℕ} (keyed : request.idempotencyKey = .single key)
    (valid : matchesIdempotencyKeyRegex key = true)
    (stored : s.server.store (orderRecordKey user key) =
      some ⟨(orderRecord (bodyHash ctx request body.toJson) row).serialized, ttl⟩) :
    (servedAlone ctx t ids).Holds
      (fun response s' => response = ⟨201, some (orderBody (some row))⟩ ∧ s'.db = s.db)
      (fun _ _ => False) (createOrderOf ctx user request body (attempts + 1)) s := by
  rw [createOrderOf, createOrder, withIdempotency, readIdempotencyKey_of_single keyed valid]
  dsimp only
  rw [if_pos valid]
  refine Contract.Holds.chain (Q := fun result (s' : State) =>
    result = ⟨.num 201, some (orderBody (some row))⟩ ∧ s'.db = s.db) ?_ rfl ?_
  -- the key is taken, so that `SET NX` does not acquire it
  · refine Contract.Holds.chain (Q := fun (acquired : Bool) (s' : State) => acquired = false ∧
      s'.db = s.db ∧ s'.server.store = s.server.store) (serves_redis ?_ ?_) rfl ?_
    · intro acquired s₁ db _ applied
      change s.server.store (buildRedisKey _ _ _) = _ at stored
      rw [Redis.Command.apply, stored] at applied
      obtain ⟨taken, store⟩ := Prod.mk.inj (Option.some.inj applied)
      exact ⟨taken.symm, db, store.symm⟩
    · intro s₁ _ _ refused
      change s.server.store (buildRedisKey _ _ _) = _ at stored
      rw [Redis.Command.apply, stored] at refused
      cases refused
    · rintro acquired s₁ ⟨rfl, db, store⟩ _
      rw [if_neg Bool.false_ne_true]
      -- the record is there, and has the hash of this request
      refine Contract.Holds.chain (Q := fun replay (s' : State) =>
        replay = some ⟨.num 201, some (orderBody (some row))⟩ ∧ s'.db = s.db) ?_ rfl ?_
      · refine Contract.Holds.chain (Q := fun existing (s' : State) =>
          existing = some (orderRecord (bodyHash ctx request body.toJson) row).serialized ∧
            s'.db = s.db) (serves_redis ?_ ?_) rfl ?_
        · intro existing s₂ db₂ _ applied
          have read := (congrArg Prod.fst (Option.some.inj applied)).symm
          change existing = (s₁.server.store (orderRecordKey user key)).map Redis.Entry.value at read
          rw [store, stored] at read
          exact ⟨read, by rw [db₂, db]⟩
        · intro s₂ _ _ impossible
          cases impossible
        · rintro _ s₂ ⟨rfl, db₂⟩ _
          dsimp only
          rw [if_neg (by rw [serialized_isEmpty]; exact Bool.false_ne_true), read_serialized,
            orderRecord]
          dsimp only
          have same : canonicalRequestHash (hashedAs ctx (bodyHash ctx request body.toJson)) request
              body.text.toJson = bodyHash ctx request body.toJson := rfl
          rw [same, replayOf_completed, if_pos rfl]
          exact Contract.alone_done ⟨rfl, db₂⟩
      · rintro _ s₂ ⟨rfl, db₂⟩ _
        exact Contract.alone_done ⟨rfl, db₂⟩
  · rintro _ s₁ ⟨rfl, db⟩ _
    exact Contract.alone_done ⟨rfl, db⟩

end OrderRoutes

end OrderPlatform
