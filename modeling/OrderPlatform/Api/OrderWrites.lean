import OrderPlatform.Api.OrderReads

/-!
# The writing handlers

`POST /v1/orders` and `PATCH /v1/orders/:id` write in one transaction each.  Up to the `COMMIT`
the request is `Untouched`, so an error before it leaves nothing behind; after it, the request
raises the version of the order lists, and a `PATCH` deletes the entry of its order, before it
answers.

* `holds_createOrderTransactionally`, `holds_createOrder` — the `POST`, without and with the
  idempotency layer.
* `holds_patchOrder` — the `PATCH`.
-/

namespace OrderPlatform

namespace OrderRoutes

open Async (Tid Contract Program)
open Text (Json)

variable {ctx : ApiContext} {A : Assumptions} {base : State} {t : Tid} {s s' : State}

/-- The list version has been raised. -/
def Raised (ctx : ApiContext) (A : Assumptions) (t : Tid) (s : State) : Prop :=
  ctx.config.cacheEnabled = true → A.answered = true → t ∈ s.history.bumped

theorem kept_raised : Kept t (Raised ctx A t) where
  later step raised enabled answered := step.grows.bumped.subset (raised enabled answered)
  own step raised enabled answered := step.bumped ▸ raised enabled answered

/-! ### `POST /v1/orders` -/

theorem Unborn.step {id : Uuid} (known : Unborn t id s) (step : Private t s s') :
    Unborn t id s' := by
  refine ⟨?_, by rw [step.db.tables]; exact known.2⟩
  rcases step.generated id with same | ⟨none, _⟩
  · exact same.trans known.1
  · rw [known.1] at none
    cases none

theorem frame_unborn {id : Uuid} : Frame t (Unborn t id) :=
  ⟨fun _ step known => known.later step, fun step _ known => known.step step⟩

theorem frame_true : Frame t fun _ => True := ⟨fun _ _ _ => trivial, fun _ _ _ => trivial⟩

/-- The row that a `POST` inserts. -/
structure NewOrder (orderId userId : Uuid) (now : ℕ) (row : OrderRow) : Prop where
  id : row.id = orderId
  userId : row.userId = userId
  status : row.status = .pending
  updatedAt : row.updatedAt = now

/-- The audit row of a new order. -/
def createdEvent (eventId orderId userId : Uuid) (now : ℕ) : OrderEventRow :=
  ⟨eventId, orderId, .created, none, .pending, userId, now⟩

/-- A `POST` of this user has committed an order with its audit row and its event. -/
def Created (t : Tid) (userId orderId : Uuid) (event : OutboxEventRow) (result : IdempotencyResult)
    (s : State) : Prop :=
  ∃ row createdId now, NewOrder orderId userId now row ∧
    result = ⟨.num 201, some (orderBody (some row))⟩ ∧
      s.history.Published t [.insertOrder row,
        .insertOrderEvent (createdEvent createdId orderId userId now), .insertOutboxEvent event]

theorem kept_created {userId orderId : Uuid} {event : OutboxEventRow}
    {result : IdempotencyResult} : Kept t (Created t userId orderId event result) where
  later := by
    rintro s s' step ⟨row, createdId, now, new, same, published⟩
    exact ⟨row, createdId, now, new, same, kept_published.later step published⟩
  own := by
    rintro s s' step ⟨row, createdId, now, new, same, published⟩
    exact ⟨row, createdId, now, new, same, kept_published.own step published⟩

variable {orderId userId : Uuid} {data : CreateOrder} {event : OutboxEventRow} {start n : ℕ}

private theorem holds_insertOrder (session : Session t n (some ⟨start, [], false⟩) s)
    (known : Unborn t orderId s) :
    (contract ctx A base t).Holds
      (fun row s' => NewOrder orderId userId start row ∧
        Session t n (some ⟨start, [.insertOrder row], false⟩) s' ∧ Unborn t orderId s')
      (fun _ => Clean t n)
      (query (.insertOrder orderId userId data.customerEmail data.itemsJson data.totalCents)) s := by
  refine holds_write (.insertOrder orderId userId data.customerEmail data.itemsJson
    data.totalCents) Write.insertOrder frame_unborn session known nofun ?_
  intro s' sorted r db session' known' performed
  have missing : (s'.db.view t).order? orderId = none := by
    rw [Database.view_of_nil session'.transaction]
    exact known'.2
  have now : s'.db.nowOf t = start := by simp only [Database.nowOf, session'.transaction]
  simp only [Database.perform, missing, Option.isSome_none, Bool.false_eq_true, if_false, now,
    Option.some.injEq, Prod.mk.injEq] at performed
  obtain ⟨rfl, rfl⟩ := performed
  exact .inr ⟨_, rfl, ⟨rfl, rfl, rfl, rfl⟩, rfl⟩

/-- An audit row, of whatever kind. -/
private theorem holds_insertOrderEvent {eventId : Uuid} {id : String} {type : OrderEventType}
    {source : Option OrderStatus} {target : OrderStatus} {writes : List Write} {F : State → Prop}
    (frame : Frame t F) (session : Session t n (some ⟨start, writes, false⟩) s) (known : F s) :
    (contract ctx A base t).Holds
      (fun _ s' => Session t n (some ⟨start, writes ++ [.insertOrderEvent
        ⟨eventId, .ofText id, type, source, target, userId, start⟩], false⟩) s' ∧ F s')
      (fun _ => Clean t n) (query (.insertOrderEvent eventId id type source target userId)) s := by
  refine (holds_write (.insertOrderEvent eventId id type source target userId)
    (R := fun _ => True) (fun _ => .insertOrderEvent
      ⟨eventId, .ofText id, type, source, target, userId, start⟩) frame session known nofun
        ?_).mono (fun _ _ known => known.2) fun _ _ error => error
  intro s' sorted r db session' known' performed
  have now : s'.db.nowOf t = start := by simp only [Database.nowOf, session'.transaction]
  simp only [Database.perform, now] at performed
  split at performed <;> cases performed
  · exact .inr ⟨(), rfl, trivial, rfl⟩
  · exact .inl ⟨rfl, rfl⟩

private theorem holds_insertOutboxEvent {writes : List Write} {F : State → Prop}
    (frame : Frame t F) (session : Session t n (some ⟨start, writes, false⟩) s) (known : F s) :
    (contract ctx A base t).Holds
      (fun _ s' => Session t n (some ⟨start, writes ++ [.insertOutboxEvent event], false⟩) s' ∧ F s')
      (fun _ => Clean t n) (query (.insertOutboxEvent event)) s := by
  refine (holds_write (.insertOutboxEvent event) (R := fun _ => True)
    (fun _ => .insertOutboxEvent event) frame session known nofun ?_).mono
      (fun _ _ known => known.2) fun _ _ error => error
  rintro s' sorted r db session' known' ⟨⟩
  exact .inr ⟨(), rfl, trivial, rfl⟩

/-- An identifier in the middle of a transaction. -/
private theorem holds_identifier {tx : Option Transaction} {F : State → Prop} (frame : Frame t F)
    (session : Session t n tx s) (known : F s) :
    (contract ctx A base t).Holds (fun _ s' => Session t n tx s' ∧ F s') (fun _ => Clean t n)
      randomUUID s :=
  Contract.Holds.of_quiet ((holds_randomUUID.frame fun s' step =>
    (⟨session.later (rely_of step), frame.later session.released (rely_of step) known⟩ :
      Session t n tx s' ∧ F s')).mono (fun _ _ known => known.2)
        fun _ _ impossible => impossible.1.elim)

/-- Where a statement fails, the request knows that it has changed nothing. -/
private theorem failed {α : Type} {Q : α → State → Prop} {task : Route α}
    (h : (contract ctx A base t).Holds Q (fun _ => Clean t 1) task s) :
    (contract ctx A base t).Holds Q (fun _ s' => Untouched t s' ∧ Connected t 1 s') task s :=
  h.mono (fun _ _ known => known) fun _ _ clean => ⟨clean.untouched, clean.connected⟩

/-- **The transaction of a `POST`**, and what follows its commit. -/
private theorem holds_insertNewOrder (announces : Announces event)
    (aggregateId : event.aggregateId = orderId) (session : Session t 1 none s)
    (known : Unborn t orderId s) (here : (contract ctx A base t).rely s s) :
    (contract ctx A base t).Holds
      (fun result s' => (Created t userId orderId event result s' ∧ Raised ctx A t s') ∧
        Connected t 1 s')
      (fun _ s' => Untouched t s' ∧ Connected t 1 s')
      (insertNewOrder ctx userId data orderId event) s := by
  refine Contract.Holds.chain (failed (holds_begin frame_unborn session known)) here ?_
  rintro - s₁ ⟨⟨start, session₁⟩, known₁⟩ here₁
  refine Contract.Holds.chain (failed (holds_insertOrder session₁ known₁)) here₁ ?_
  rintro (row : OrderRow) s₂ ⟨new, session₂, known₂⟩ here₂
  refine Contract.Holds.chain (failed (holds_identifier frame_unborn session₂ known₂)) here₂ ?_
  rintro createdId s₃ ⟨session₃, known₃⟩ here₃
  refine Contract.Holds.chain (failed (holds_insertOrderEvent frame_unborn session₃ known₃))
    here₃ ?_
  rintro - s₄ ⟨session₄, known₄⟩ here₄
  rw [Uuid.ofText_text] at session₄
  refine Contract.Holds.chain (failed (holds_insertOutboxEvent frame_unborn session₄ known₄))
    here₄ ?_
  rintro - s₅ ⟨session₅, known₅⟩ here₅
  refine Contract.Holds.chain (failed (holds_commit session₅ (by simp) ?_)) here₅ ?_
  · intro s' step _ _
    obtain ⟨own, missing⟩ := known₅.later (rely_of step)
    have publishes : Publishes A t s' ⟨s'.db.tables.orders ++ [row],
        s'.db.tables.orderEvents ++ [createdEvent createdId orderId userId start],
        s'.db.tables.outboxEvents ++ [event]⟩ :=
      publishes_newOrder (inv_of step) (new.id ▸ own) (new.id ▸ missing) new.status new.id.symm
        rfl rfl rfl new.userId.symm new.updatedAt.symm announces (aggregateId.trans new.id.symm)
    exact publishes
  · rintro - s₆ ⟨published, connected⟩ here₆
    have created : Created t userId orderId event ⟨.num 201, some (orderBody (some row))⟩ s₆ :=
      ⟨row, createdId, start, new, rfl, published⟩
    refine Contract.Holds.map (fun _ => (⟨.num 201, some (orderBody (some row))⟩ :
      IdempotencyResult)) ((Contract.Holds.of_quiet (holds_invalidateListNamespace
        (P := fun s' => Created t userId orderId event
          ⟨.num 201, some (orderBody (some row))⟩ s' ∧ Connected t 1 s') fun s₇ step => ?_)).mono
            ?_ fun _ _ impossible => impossible.elim)
    · exact ⟨(kept_published.later (rely_of step) published).committed,
        kept_created.later (rely_of step) created, connected.later (rely_of step)⟩
    · rintro - s₇ ⟨⟨created', connected'⟩, raised⟩
      exact ⟨⟨created', raised⟩, connected'⟩

/-- The event of a new order announces it. -/
theorem announces_orderCreatedEvent (request : FastifyRequest) (eventId orderId : Uuid)
    (occurredAt : String) : Announces (orderCreatedEvent request eventId orderId occurredAt) := by
  constructor <;>
    simp [orderCreatedEvent, Json.object, Text.Fields.ofList, Json.get?, Text.Fields.get?]

/-- The request has given back what it was given, if anything. -/
def Balanced (t : Tid) (s : State) : Prop := Returned t s ∨ Connected t 0 s

/-- **Creating an order**: it returns when order, audit row and event have been committed, and
where it throws nothing has been. -/
theorem holds_createOrderTransactionally {request : FastifyRequest} (session : Session t 0 none s)
    (here : (contract ctx A base t).rely s s) :
    (contract ctx A base t).Holds
      (fun result s' => (∃ orderId event, Announces event ∧ event.aggregateId = orderId ∧
        Created t userId orderId event result s') ∧ Raised ctx A t s' ∧ Returned t s')
      (fun _ s' => Untouched t s' ∧ Balanced t s')
      (createOrderTransactionally ctx request userId data) s := by
  have identifier : ∀ {F : State → Prop} {s₁ : State}, Frame t F → Session t 0 none s₁ → F s₁ →
      (contract ctx A base t).Holds (fun id s' => Session t 0 none s' ∧ Unborn t id s' ∧ F s')
        (fun _ s' => Untouched t s' ∧ Balanced t s') randomUUID s₁ := fun frame session₁ known =>
    Contract.Holds.of_quiet ((holds_randomUUID.frame fun s' step =>
      (⟨session₁.later (rely_of step), frame.later session₁.released (rely_of step) known⟩ :
        Session t 0 none s' ∧ _)).mono (fun _ _ known => ⟨known.2.1, known.1, known.2.2⟩)
          fun _ _ impossible => impossible.1.elim)
  refine Contract.Holds.chain (identifier frame_true session trivial) here ?_
  rintro orderId s₁ ⟨session₁, unborn₁, -⟩ here₁
  refine Contract.Holds.chain (identifier frame_unborn session₁ unborn₁) here₁ ?_
  rintro eventId s₂ ⟨session₂, -, unborn₂⟩ here₂
  refine Contract.Holds.chain (Q := fun _ s' => Session t 0 none s' ∧ Unborn t orderId s')
    (Contract.Holds.of_quiet ((holds_clock.frame fun s' step =>
      (⟨session₂.later (rely_of step), unborn₂.later (rely_of step)⟩ :
        Session t 0 none s' ∧ Unborn t orderId s')).mono (fun _ _ known => known.2)
          fun _ _ impossible => impossible.1.elim)) here₂ ?_
  rintro now s₃ ⟨session₃, unborn₃⟩ here₃
  refine Contract.Holds.chain ((holds_connect (fun step known => Unborn.later known step)
    (fun step known => Unborn.step known step) session₃ unborn₃).mono (fun _ _ known => known)
      fun _ _ clean => ⟨clean.untouched, .inr clean.connected⟩) here₃ ?_
  rintro - s₄ ⟨session₄, unborn₄⟩ here₄
  refine (holds_withClient (fun result => kept_and kept_created kept_raised) kept_untouched
    (holds_insertNewOrder (announces_orderCreatedEvent request eventId orderId _) rfl session₄
      unborn₄ here₄) here₄).mono ?_ ?_
  · rintro result s' ⟨⟨created, raised⟩, returned⟩
    exact ⟨⟨orderId, _, announces_orderCreatedEvent request eventId orderId _, rfl, created⟩,
      raised, returned⟩
  · rintro error s' ⟨untouched, returned⟩
    exact ⟨untouched, .inl returned⟩

/-! ### Under an idempotency key -/

/-- The answers of the idempotency layer itself. -/
def refusals : List IdempotencyResult := [invalidKey, keyConflict, requestInProgress]

/-- What a record of this user's answers. -/
private theorem replayOf_recordOk {record : StoredRecord} {user : Uuid} (ok : RecordOk user record)
    (requestHash : String) :
    ∃ replay, replayOf requestHash (JavaScript.asRead record.toJson) = some replay ∧
      (CreatedFor user replay ∨ replay ∈ refusals) := by
  cases record with
  | claim other =>
      refine ⟨_, replayOf_claim requestHash other, .inr ?_⟩
      split <;> simp [refusals]
  | completed other status body =>
      obtain ⟨row, own, same⟩ := ok
      cases same
      refine ⟨_, replayOf_completed requestHash other 201 _, ?_⟩
      split
      · exact .inl ⟨row, own, rfl⟩
      · exact .inr (by simp [refusals])

private theorem holds_readExistingRecord {user : Uuid} {key requestHash : String}
    (session : Session t 0 none s) (here : (contract ctx A base t).rely s s) :
    (contract ctx A base t).quiet.Holds
      (fun replay s' => Session t 0 none s' ∧
        ∀ result, replay = some result → CreatedFor user result ∨ result ∈ refusals)
      (fun _ => Session t 0 none)
      (readExistingRecord (buildRedisKey "orders:create" user.text key) requestHash) s := by
  refine Contract.Holds.chain (Q := fun (existing : Option String) (s' : State) =>
    Session t 0 none s' ∧ ∀ value, existing = some value →
      ∃ record : StoredRecord, value = record.serialized ∧ RecordOk user record)
    (holds_get ?_ fun s' step _ => session.later (rely_of step)) here ?_
  · intro s' s'' interrupted later
    refine ⟨(session.later (rely_of interrupted)).later (rely_of later), fun value cached => ?_⟩
    obtain ⟨entry, stored, rfl⟩ := Option.map_eq_some_iff.mp cached
    exact ((inv_of interrupted).stored _ entry stored).record_inv
  · rintro existing s₁ ⟨session₁, found⟩ here₁
    cases existing with
    | none => exact fun s₂ later => ⟨session₁.later (rely_of later), nofun⟩
    | some value =>
        obtain ⟨record, rfl, ok⟩ := found value rfl
        obtain ⟨replay, answer, known⟩ := replayOf_recordOk ok requestHash
        simp only [serialized_isEmpty, Bool.false_eq_true, if_false, read_serialized, answer]
        refine fun s₂ later => ⟨session₁.later (rely_of later), ?_⟩
        rintro result ⟨⟩
        exact known

/-- Clear the key, whatever becomes of it. -/
private theorem holds_clear {key : String} {P : State → Prop} (family : familyOf key = .record)
    (kept : Kept t P) (known : P s) :
    (contract ctx A base t).Holds (fun _ => P) (fun _ _ => False) (redisIgnoring (.del key)) s :=
  Contract.Holds.recover _ (Contract.Holds.map _ (Contract.Holds.of_quiet
    (holds_delRecord family fun _ step => kept.later (rely_of step) known)))

/-- The request has committed nothing, as far as commands on records are answered. -/
def Abandoned (A : Assumptions) (t : Tid) (s : State) : Prop :=
  A.recorded = true → ¬ s.history.Committed t

theorem kept_abandoned : Kept t (Abandoned A t) where
  later step known recorded now := known recorded (step.committed now)
  own step known recorded now := known recorded (by
    simpa [History.Committed, step.commits] using now)

/-- **The owner of a claim.** -/
private theorem holds_execute {user : Uuid} {key requestHash : String} {P : State → Prop}
    {process : Route IdempotencyResult} (kept : Kept t P)
    (h : (contract ctx A base t).Holds (fun result s' => CreatedFor user result ∧ P s')
      (fun _ => Untouched t) process s) (here : (contract ctx A base t).rely s s) :
    (contract ctx A base t).Holds (fun result s' => CreatedFor user result ∧ P s')
      (fun _ => Abandoned A t)
      (execute (buildRedisKey "orders:create" user.text key) requestHash process) s := by
  have family := familyOf_redisKey "orders:create" user.text key
  refine Contract.Holds.attempt (Contract.Holds.mono (E := fun _ => Abandoned A t) ?_
    (fun _ _ known => known) fun e s' abandoned here' => ?_) here
  · refine Contract.Holds.chain (h.mono (fun _ _ known => known)
      fun _ _ untouched _ => untouched.committed) here fun result s₁ known here₁ => ?_
    refine Contract.Holds.map (fun _ => result) ?_
    by_cases large : maxStoredBodyBytes <
        (StoredRecord.completed requestHash result.status result.body).serialized.utf8ByteSize
    · have release : storeResult (buildRedisKey "orders:create" user.text key) requestHash result =
          (redisIgnoring (.del (buildRedisKey "orders:create" user.text key)) : Route Unit) :=
        if_pos large
      rw [release]
      exact (holds_clear family (kept_and kept_const kept) known).mono (fun _ _ known => known)
        fun _ _ impossible => impossible.elim
    · have store : storeResult (buildRedisKey "orders:create" user.text key) requestHash result =
          (redis (.set (buildRedisKey "orders:create" user.text key)
            (StoredRecord.completed requestHash result.status result.body).serialized
            completedTtlSeconds) : Route Unit) := if_neg large
      rw [store]
      exact Contract.Holds.of_quiet (holds_set (fun s' _ _ => ⟨ne_versionKey_of_record family,
        .record user key _ known.1⟩) (fun s' step => ⟨known.1, kept.later (rely_of step) known.2⟩)
          fun s' _ _ answered recorded => absurd family (answered recorded))
  · refine Contract.Holds.chain ((holds_clear family kept_abandoned abandoned).mono
      (fun _ _ known => known) fun _ _ impossible => impossible.elim) here' ?_
    exact fun _ s₁ known _ s₂ later => kept_abandoned.later (rely_of later) known

/-- What the idempotency layer returns for a `POST` of this user. -/
def Posted (ctx : ApiContext) (A : Assumptions) (t : Tid) (user : Uuid)
    (result : IdempotencyResult) (s : State) : Prop :=
  (CreatedFor user result ∧ (Untouched t s ∨ Raised ctx A t s)) ∨
    (result ∈ refusals ∧ Untouched t s)

theorem Posted.later {user : Uuid} {result : IdempotencyResult}
    (posted : Posted ctx A t user result s) (step : Rely t s s') :
    Posted ctx A t user result s' := by
  rcases posted with ⟨created, untouched | raised⟩ | ⟨refused, untouched⟩
  · exact .inl ⟨created, .inl (untouched.later step)⟩
  · exact .inl ⟨created, .inr (kept_raised.later step raised)⟩
  · exact .inr ⟨refused, untouched.later step⟩

theorem Untouched.abandoned (known : Untouched t s) : Abandoned A t s := fun _ => known.committed

/-- The work of a `POST`, without what its caller does not look at. -/
private theorem holds_process {user : Uuid} {request : FastifyRequest}
    (session : Session t 0 none s) (here : (contract ctx A base t).rely s s) :
    (contract ctx A base t).Holds
      (fun result s' => CreatedFor user result ∧ Raised ctx A t s') (fun _ => Untouched t)
      (createOrderTransactionally ctx request user data) s := by
  refine (holds_createOrderTransactionally session here).mono ?_ fun _ _ known => known.1
  rintro result s' ⟨⟨orderId, event, _, _, row, _, _, new, same, _⟩, raised, _⟩
  exact ⟨⟨row, new.userId, same⟩, raised⟩

/-- **A `POST` behind the idempotency layer**, by induction on the attempts to claim the key. -/
private theorem holds_withIdempotency {user : Uuid} {request : FastifyRequest} {attempts : ℕ}
    (session : Session t 0 none s) (here : (contract ctx A base t).rely s s) :
    (contract ctx A base t).Holds (Posted ctx A t user) (fun _ => Abandoned A t)
      (withIdempotency ctx ⟨"orders:create", user.text, request, data.toJson⟩
        (createOrderTransactionally ctx request user data) attempts) s := by
  induction attempts generalizing s with
  | zero => trivial
  | succ attempts ih =>
      unfold withIdempotency
      split
      · exact (holds_process session here).mono (fun _ _ known => .inl ⟨known.1, .inr known.2⟩)
          fun _ _ untouched => untouched.abandoned
      split
      · rename_i key _ _
        have family := familyOf_redisKey "orders:create" user.text key
        have stable : ∀ s', (contract ctx A base t).rely s s' → Session t 0 none s' :=
          fun s' step => session.later (rely_of step)
        refine Contract.Holds.chain ((Contract.Holds.of_quiet (holds_setNx (fun s' _ =>
          ⟨ne_versionKey_of_record family, .record user key (.claim _) trivial⟩) stable)).mono
            (fun _ _ known => known) fun _ _ known => known.untouched.abandoned) here ?_
        intro acquired s₁ session₁ here₁
        cases acquired with
        | true =>
            exact (holds_execute kept_raised (holds_process session₁ here₁) here₁).mono
              (fun _ _ known => .inl ⟨known.1, .inr known.2⟩) fun _ _ known => known
        | false =>
            refine Contract.Holds.chain ((Contract.Holds.of_quiet
              (holds_readExistingRecord session₁ here₁)).mono (fun _ _ known => known)
                fun _ _ known => known.untouched.abandoned) here₁ ?_
            rintro replay s₂ ⟨session₂, known⟩ here₂
            cases replay with
            | none => exact ih session₂ here₂
            | some result =>
                refine fun s₃ later => Posted.later ?_ (rely_of later)
                rcases known result rfl with created | refused
                · exact .inl ⟨created, .inl session₂.untouched⟩
                · exact .inr ⟨refused, session₂.untouched⟩
      · exact fun s₁ later => .inr ⟨by simp [refusals], session.untouched.later (rely_of later)⟩

/-- What a `POST` of this user answers: an order of the user, or an error. -/
inductive PostAnswer (user : Uuid) : HttpResponse → Prop
  | created (row : OrderRow) (own : row.userId = user) :
      PostAnswer user ⟨201, some (orderBody (some row))⟩
  | refused (status : ℕ) (code message : String) (failed : 400 ≤ status) :
      PostAnswer user ⟨status, some (errorBody code message)⟩

/-- What has become of a request that has answered: what it has committed, if anything, is no
longer in any cache, and an error says that it has committed nothing. -/
structure Effects (ctx : ApiContext) (A : Assumptions) (t : Tid) (keys : List String)
    (response : HttpResponse) (s : State) : Prop where
  refused : response.isSuccess = false → ¬ s.history.Committed t
  raised : s.history.Committed t → Raised ctx A t s
  deleted : s.history.Committed t → ctx.config.cacheEnabled = true → A.answered = true →
    ∀ key ∈ keys, (t, key) ∈ s.history.deleted

/-- **`POST /v1/orders`.** -/
theorem holds_createOrder {user : Uuid} {request : FastifyRequest} {attempts : ℕ}
    (session : Session t 0 none s) (here : (contract ctx A base t).rely s s) :
    (contract ctx A base t).Holds
      (fun response s' => PostAnswer user response ∧ Effects ctx A t [] response s')
      (fun _ => Abandoned A t) (createOrder ctx user request data attempts) s := by
  refine Contract.Holds.chain (holds_withIdempotency session here) here ?_
  rintro result s₁ posted -
  rcases posted with ⟨⟨row, own, rfl⟩, effects⟩ | ⟨refused, untouched⟩
  · refine fun s₂ later => ⟨.created row own, nofun, fun committed => ?_, nofun⟩
    rcases effects with untouched | raised
    · exact absurd committed (untouched.later (rely_of later)).committed
    · exact kept_raised.later (rely_of later) raised
  · have none : ∀ s₂, (contract ctx A base t).rely s₁ s₂ → ¬ s₂.history.Committed t :=
      fun s₂ later => (untouched.later (rely_of later)).committed
    have effects : ∀ response s₂, (contract ctx A base t).rely s₁ s₂ →
        Effects ctx A t [] response s₂ := fun response s₂ later =>
      ⟨fun _ => none s₂ later, fun committed => absurd committed (none s₂ later), nofun⟩
    simp only [refusals, List.mem_cons, List.not_mem_nil, or_false] at refused
    rcases refused with rfl | rfl | rfl
    · exact fun s₂ later => ⟨.refused 400 _ _ (by omega), effects _ s₂ later⟩
    · exact fun s₂ later => ⟨.refused 409 _ _ (by omega), effects _ s₂ later⟩
    · exact fun s₂ later => ⟨.refused 409 _ _ (by omega), effects _ s₂ later⟩

/-! ### `PATCH /v1/orders/:id` -/

/-- The request holds the lock on the order, and this is its row. -/
structure Locked (t : Tid) (id : Uuid) (row : OrderRow) (s : State) : Prop where
  holder : s.db.holder id = some t
  found : s.db.tables.order? id = some row

theorem frame_locked {id : Uuid} {row : OrderRow} : Frame t (Locked t id row) where
  later released step locked :=
    ⟨(step.holder released id).mpr locked.holder,
      (step.locked released id locked.holder).trans locked.found⟩
  own step same locked :=
    ⟨(congrFun same id).trans locked.holder, step.db.tables ▸ locked.found⟩

/-- What `SELECT … FOR UPDATE` finds. -/
private def Selected (t : Tid) (id : Uuid) (start : ℕ) (found : Option (OrderStatus × Uuid))
    (s : State) : Prop :=
  Session t 1 (some ⟨start, [], false⟩) s ∧ ∀ status owner, found = some (status, owner) →
    ∃ row, Locked t id row s ∧ row.status = status ∧ row.userId = owner

private theorem Selected.later {id : Uuid} {found : Option (OrderStatus × Uuid)}
    (known : Selected t id start found s) (step : Rely t s s') :
    Selected t id start found s' := by
  refine ⟨known.1.later step, fun status owner same => ?_⟩
  obtain ⟨row, locked, rest⟩ := known.2 status owner same
  exact ⟨row, frame_locked.later known.1.released step locked, rest⟩

private theorem holds_selectOrderForUpdate {id : String}
    (session : Session t 1 (some ⟨start, [], false⟩) s) :
    (contract ctx A base t).Holds (Selected t (.ofText id) start) (fun _ => Clean t 1)
      (query (.selectOrderForUpdate id)) s := by
  refine holds_statement session (fun _ live => by cases live; rfl) nofun
    (fun _ _ _ step known => known.later step) ?_
  intro s' sorted r db interrupted session' performed
  have unwritten := Database.view_of_nil session'.transaction
  simp only [Database.perform] at performed
  split at performed
  · rename_i may
    cases performed
    refine ⟨Database.local_lock may unwritten, fun found same s'' quiet after connections => ?_⟩
    cases same
    refine ⟨session'.step quiet connections ?_, fun status owner found => ?_⟩
    · rw [after, Database.lock_transaction, session'.transaction]
    · obtain ⟨row, there, parts⟩ := Option.map_eq_some_iff.mp found
      cases parts
      have tables : s''.db.tables = s'.db.tables := quiet.db.tables
      refine ⟨row, ⟨?_, ?_⟩, rfl, rfl⟩
      · rw [after]
        exact Database.lock_holder session'.transaction there
      · rw [tables, ← unwritten]
        exact there
  · cases performed

/-- Inside the transaction the row reads as it is. -/
private theorem holds_reread {id : String} {row : OrderRow}
    (session : Session t 1 (some ⟨start, [], false⟩) s)
    (locked : Locked t (.ofText id) row s) :
    (contract ctx A base t).Holds
      (fun found s' => found = some row ∧ Session t 1 (some ⟨start, [], false⟩) s')
      (fun _ => Clean t 1) (query (.selectOrder id)) s := by
  refine holds_statement session (fun _ live => by cases live; rfl) nofun
    (fun _ _ _ step known => ⟨known.1, known.2.later step⟩) ?_
  rintro s' sorted r db interrupted session' ⟨⟩
  have locked' := frame_locked.later session.released (rely_of interrupted) locked
  refine ⟨Database.Local.refl t _, fun found same s'' quiet after connections => ?_⟩
  cases same
  rw [Database.view_of_nil session'.transaction]
  exact ⟨locked'.found, session'.step quiet connections (after ▸ session'.transaction)⟩

/-- The row after a status change. -/
def changedRow (row : OrderRow) (target : OrderStatus) (now : ℕ) : OrderRow :=
  { row with status := target, updatedAt := now }

private theorem holds_updateOrder {id : String} {row : OrderRow} {target : OrderStatus}
    (session : Session t 1 (some ⟨start, [], false⟩) s)
    (locked : Locked t (.ofText id) row s) :
    (contract ctx A base t).Holds
      (fun found s' => found = some (changedRow row target start) ∧
        Session t 1 (some ⟨start, [.updateOrder (.ofText id) target start], false⟩) s' ∧
          Locked t (.ofText id) row s')
      (fun _ => Clean t 1) (query (.updateOrder id target)) s := by
  refine holds_write (.updateOrder id target)
    (R := fun (found : Option OrderRow) => found = some (changedRow row target start))
      (fun _ => .updateOrder (.ofText id) target start) frame_locked session locked nofun ?_
  intro s' sorted r db session' locked' performed
  have now : s'.db.nowOf t = start := by simp only [Database.nowOf, session'.transaction]
  simp only [Database.perform, Database.mayLock_of_held locked'.holder, if_true,
    Database.lock_of_held locked'.holder, now, Option.some.injEq, Prod.mk.injEq] at performed
  obtain ⟨rfl, rfl⟩ := performed
  refine .inr ⟨_, rfl, ?_, rfl⟩
  obtain ⟨_, same⟩ := Tables.mem_of_order? locked'.found
  rw [Database.view_write session'.transaction]
  refine (Tables.order?_map_setStatus (.ofText id) (.ofText id) target start _ _).trans ?_
  rw [locked'.found, Option.map_some, Tables.setStatus, if_pos same]
  rfl

/-- **The write of a status change.** -/
private theorem holds_changeStatus {user : Uuid} {id : String} {row : OrderRow}
    {target : OrderStatus} (session : Session t 1 (some ⟨start, [], false⟩) s)
    (locked : Locked t (.ofText id) row s) (here : (contract ctx A base t).rely s s) :
    (contract ctx A base t).Holds
      (fun found s' => found = some (changedRow row target start) ∧ ∃ eventId,
        Session t 1 (some ⟨start, [.updateOrder (.ofText id) target start, .insertOrderEvent
          ⟨eventId, .ofText id, .statusChanged, some row.status, target, user, start⟩], false⟩) s' ∧
            Locked t (.ofText id) row s')
      (fun _ => Clean t 1) (changeStatus user id row.status target) s := by
  refine Contract.Holds.chain (holds_updateOrder session locked) here ?_
  rintro found s₁ ⟨rfl, session₁, locked₁⟩ here₁
  refine Contract.Holds.chain (holds_identifier frame_locked session₁ locked₁) here₁ ?_
  rintro eventId s₂ ⟨session₂, locked₂⟩ here₂
  refine Contract.Holds.map (fun _ => some (changedRow row target start))
    ((holds_insertOrderEvent frame_locked session₂ locked₂).mono ?_ fun _ _ clean => clean)
  rintro - s₃ ⟨session₃, locked₃⟩
  exact ⟨rfl, eventId, session₃, locked₃⟩

/-- What a `PATCH` of this user answers: an order of the user, or an error. -/
inductive PatchAnswer (user : Uuid) : HttpResponse → Prop
  | order (row : OrderRow) (own : row.userId = user) :
      PatchAnswer user ⟨200, some (orderBody (some row))⟩
  | notFound : PatchAnswer user orderNotFound
  | invalid (current target : OrderStatus) : PatchAnswer user (invalidStatusTransition current target)

/-- What a `PATCH` leaves behind when its work on the client is over. -/
private def Patched (ctx : ApiContext) (A : Assumptions) (t : Tid) (user : Uuid) (id : String)
    (response : HttpResponse) (s : State) : Prop :=
  PatchAnswer user response ∧ (Untouched t s ∨
    response.isSuccess = true ∧ Raised ctx A t s ∧
      (ctx.config.cacheEnabled = true → A.answered = true →
        (t, orderEntityKey id) ∈ s.history.deleted))

private theorem kept_patched {user : Uuid} {id : String} {response : HttpResponse} :
    Kept t (Patched ctx A t user id response) where
  later := by
    rintro s s' step ⟨answer, untouched | ⟨success, raised, deleted⟩⟩
    · exact ⟨answer, .inl (untouched.later step)⟩
    · exact ⟨answer, .inr ⟨success, kept_raised.later step raised, fun enabled answered =>
        step.grows.deleted.subset (deleted enabled answered)⟩⟩
  own := by
    rintro s s' step ⟨answer, untouched | ⟨success, raised, deleted⟩⟩
    · exact ⟨answer, .inl (step.untouched untouched)⟩
    · exact ⟨answer, .inr ⟨success, kept_raised.own step raised, fun enabled answered =>
        step.deleted ▸ deleted enabled answered⟩⟩

/-- **The transaction that changes a status**, and what follows its commit. -/
private theorem holds_applyChange {user : Uuid} {id : String} {row : OrderRow}
    {target : OrderStatus} (own : row.userId = user) (changed : row.status ≠ target)
    (allowed : isAllowedOrderStatusTransition row.status target = true)
    (session : Session t 1 (some ⟨start, [], false⟩) s)
    (locked : Locked t (.ofText id) row s) (here : (contract ctx A base t).rely s s) :
    (contract ctx A base t).Holds
      (fun response s' => Patched ctx A t user id response s' ∧ Connected t 1 s')
      (fun _ s' => Untouched t s' ∧ Connected t 1 s')
      (applyTransition ctx user id row.status target) s := by
  simp only [applyTransition, if_neg changed, if_pos changed]
  refine Contract.Holds.chain (failed (holds_changeStatus session locked here)) here ?_
  rintro found s₁ ⟨rfl, eventId, session₁, locked₁⟩ here₁
  refine Contract.Holds.chain (failed (holds_commit session₁ (by simp)
    fun s₂ step _ inTurn => ?_)) here₁ ?_
  · obtain ⟨holder, found⟩ := frame_locked.later session₁.released (rely_of step) locked₁
    obtain ⟨_, same⟩ := Tables.mem_of_order? found
    have later : A.timely = true → row.updatedAt < start :=
      fun timely => inTurn timely _ List.mem_cons_self row found
    rw [Tables.applyAll_statusChange, ← same]
    rw [← same] at holder found
    exact publishes_statusChange (inv_of step) (e := ⟨eventId, row.id, .statusChanged,
      some row.status, target, user, start⟩) holder found rfl rfl rfl
        (transition_of_allowed allowed changed) own.symm later
  · rintro - s₂ ⟨published, connected⟩ here₂
    have committed : ∀ s₃, (contract ctx A base t).rely s₂ s₃ →
        s₃.history.Committed t ∧ Connected t 1 s₃ := fun s₃ step =>
      ⟨(kept_published.later (rely_of step) published).committed, connected.later (rely_of step)⟩
    refine Contract.Holds.map (fun _ => (⟨200, some (orderBody (some
      (changedRow row target start)))⟩ : HttpResponse)) ((Contract.Holds.of_quiet
        (Contract.Holds.both (holds_invalidateEntity committed)
          (holds_invalidateListNamespace committed))).mono ?_
            fun _ _ impossible => impossible.elim)
    rintro - s₃ ⟨⟨connected', deleted⟩, _, raised⟩
    exact ⟨⟨.order (changedRow row target start) own, .inr ⟨rfl, raised, deleted⟩⟩, connected'⟩

/-- A `PATCH` to the status an order already has. -/
private theorem holds_applySame {user : Uuid} {id : String} {row : OrderRow}
    (own : row.userId = user) (session : Session t 1 (some ⟨start, [], false⟩) s)
    (locked : Locked t (.ofText id) row s) (here : (contract ctx A base t).rely s s) :
    (contract ctx A base t).Holds
      (fun response s' => Patched ctx A t user id response s' ∧ Connected t 1 s')
      (fun _ s' => Untouched t s' ∧ Connected t 1 s')
      (applyTransition ctx user id row.status row.status) s := by
  simp only [applyTransition, ne_eq, not_true_eq_false, if_true, if_false]
  refine Contract.Holds.chain (failed (holds_reread session locked)) here ?_
  rintro found s₁ ⟨rfl, session₁⟩ here₁
  refine Contract.Holds.map (fun _ => (⟨200, some (orderBody (some row))⟩ : HttpResponse))
    (failed ((holds_commitNothing session₁).mono (fun _ s₂ clean => ?_) fun _ _ clean => clean))
  exact ⟨⟨.order row own, .inl clean.untouched⟩, clean.connected⟩

/-- **The work of a `PATCH` on its client.** -/
private theorem holds_transition {user : Uuid} {id : String} {target : OrderStatus}
    (session : Session t 1 none s) (here : (contract ctx A base t).rely s s) :
    (contract ctx A base t).Holds
      (fun response s' => Patched ctx A t user id response s' ∧ Connected t 1 s')
      (fun _ s' => Untouched t s' ∧ Connected t 1 s') (transition ctx user id target) s := by
  have refuse : ∀ {response : HttpResponse} {start : ℕ} {s₂ : State}, PatchAnswer user response →
      Session t 1 (some ⟨start, [], false⟩) s₂ → (contract ctx A base t).rely s₂ s₂ →
      (contract ctx A base t).Holds
        (fun response s' => Patched ctx A t user id response s' ∧ Connected t 1 s')
        (fun _ s' => Untouched t s' ∧ Connected t 1 s')
        ((query .rollback).bind fun _ => .done response) s₂ := fun answer session₂ here₂ =>
    Contract.Holds.map (fun _ => _) ((holds_rollback kept_untouched
      ⟨session₂.untouched, session₂.clean.connected⟩).mono
        (fun _ _ known => ⟨⟨answer, .inl known.1⟩, known.2⟩) fun _ _ known => known)
  refine Contract.Holds.chain (failed (holds_begin frame_true session trivial)) here ?_
  rintro - s₁ ⟨⟨start, session₁⟩, -⟩ here₁
  refine Contract.Holds.chain (failed (holds_selectOrderForUpdate session₁)) here₁ ?_
  rintro found s₂ ⟨session₂, known⟩ here₂
  cases found with
  | none => exact refuse .notFound session₂ here₂
  | some parts =>
      obtain ⟨status, owner⟩ := parts
      obtain ⟨row, locked, rfl, rfl⟩ := known status owner rfl
      by_cases own : row.userId = user
      · by_cases allowed : isAllowedOrderStatusTransition row.status target = true
        · simp only [ne_eq, own, not_true_eq_false, if_false, allowed, if_true]
          by_cases changed : row.status = target
          · subst changed
            exact holds_applySame own session₂ locked here₂
          · exact holds_applyChange own changed allowed session₂ locked here₂
        · simp only [ne_eq, own, not_true_eq_false, if_false, allowed]
          exact refuse (.invalid row.status target) session₂ here₂
      · simp only [ne_eq, own, not_false_eq_true, if_true]
        exact refuse .notFound session₂ here₂

/-- **`PATCH /v1/orders/:id`.** -/
theorem holds_patchOrder {user : Uuid} {id : String} {target : OrderStatus}
    (session : Session t 0 none s) (here : (contract ctx A base t).rely s s) :
    (contract ctx A base t).Holds
      (fun response s' => PatchAnswer user response ∧
        Effects ctx A t [orderEntityKey id] response s')
      (fun _ => Untouched t) (patchOrder ctx user id target) s := by
  refine Contract.Holds.chain ((holds_connect (F := fun _ => True) (fun _ _ => trivial)
    (fun _ _ => trivial) session trivial).mono (fun _ _ known => known)
      fun _ _ clean => clean.untouched) here ?_
  rintro - s₁ ⟨session₁, -⟩ here₁
  refine (holds_withClient (fun response => kept_patched) kept_untouched
    (holds_transition session₁ here₁) here₁).mono ?_ fun _ _ known => known.1
  rintro response s₂ ⟨⟨answer, effects⟩, -⟩
  refine ⟨answer, ?_⟩
  rcases effects with untouched | ⟨success, raised, deleted⟩
  · exact ⟨fun _ => untouched.committed, fun committed => absurd committed untouched.committed,
      fun committed => absurd committed untouched.committed⟩
  · refine ⟨fun refused => ?_, fun _ => raised, fun _ enabled answered key mem => ?_⟩
    · rw [success] at refused
      cases refused
    · cases List.mem_singleton.mp mem
      exact deleted enabled answered

end OrderRoutes

end OrderPlatform
