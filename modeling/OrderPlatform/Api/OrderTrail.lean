import OrderPlatform.Api.OrderRuns

/-!
# The audit trail over whole runs

* `audit_trail` — in every committed state each order has the trail that leads to its status, and
  a request that reports an error has committed nothing.
* `recorded_timeline` — where every status change is committed by a transaction that began later
  than the last change, the times of the trail stand in the order of the commits;
  `timeline_reversed` is a run in which they do not.
* `all_or_nothing` — creating an order commits its three rows together, or none of them.
-/

namespace OrderPlatform

namespace OrderRoutes

open Async (Tid Pool Move Discipline)
open Text (Json)

variable {ctx : ApiContext} {A : Assumptions} {p q : Service ctx}

/-! ### From one committed state to a later one -/

/-- An order that was there is still there, and its trail has only grown. -/
theorem order_later (before : Run ctx A (Service.initial ctx) p) (run : Run ctx A p q) {id : Uuid}
    {row : OrderRow} (found : p.shared.db.tables.order? id = some row) :
    ∃ row', q.shared.db.tables.order? id = some row' ∧ row'.userId = row.userId ∧
      p.shared.db.tables.trail id <+: q.shared.db.tables.trail id := by
  have inv := (sound_of_run before).inv.1
  obtain ⟨inv', since⟩ := (sound_from before run).inv
  have earlier : p.shared.db.tables ∈ q.shared.history.states := by
    obtain ⟨later, append⟩ := since.commits
    have mem := List.mem_of_getElem? inv.latest
    simp only [History.states, ← append, List.map_append, ← List.cons_append]
    exact List.mem_append_left _ mem
  obtain ⟨row', found', owner⟩ := inv'.owners _ earlier id row found
  exact ⟨row', found', owner, since.events.filter _⟩

/-- The trail of an order that is there. -/
theorem trail_of_order (run : Run ctx A (Service.initial ctx) p) {id : Uuid} {row : OrderRow}
    (found : p.shared.db.tables.order? id = some row) :
    Trail row.userId row.status (p.shared.db.tables.trail id) := by
  obtain ⟨mem, rfl⟩ := Tables.mem_of_order? found
  exact (sound_of_run run).inv.1.audited.trails row mem

/-! ### The trail and the order -/

/-- What the audit trail promises at a moment of a run. -/
structure AuditTrail (ctx : ApiContext) (A : Assumptions) (p : Service ctx) : Prop where
  /-- The tables are what the last commit has left. -/
  latest : p.shared.history.states.getLast? = some p.shared.db.tables
  /-- The audit rows of an order lead from its creation to its status. -/
  trails : ∀ order ∈ p.shared.db.tables.orders,
    Trail order.userId order.status (p.shared.db.tables.trail order.id)
  /-- There is no audit row without its order. -/
  events : ∀ e ∈ p.shared.db.tables.orderEvents,
    ∃ order ∈ p.shared.db.tables.orders, order.id = e.orderId
  nodup : (p.shared.db.tables.orders.map OrderRow.id).Nodup
  /-- One row for the creation, and at most three for changes. -/
  created : ∀ order ∈ p.shared.db.tables.orders,
    ((p.shared.db.tables.trail order.id).filter (·.eventType = .created)).length = 1
  short : ∀ order ∈ p.shared.db.tables.orders, (p.shared.db.tables.trail order.id).length ≤ 4
  /-- Every row is a change, and the owner's. -/
  rows : ∀ order ∈ p.shared.db.tables.orders, ∀ e ∈ p.shared.db.tables.trail order.id,
    e.fromStatus ≠ some e.toStatus ∧ e.actorUserId = order.userId
  /-- An order never leaves a status from which no transition leads on. -/
  closed : ∀ q, Run ctx A p q → ∀ id order, p.shared.db.tables.order? id = some order →
    orderStatusTransitions order.status = [] →
      ∃ order', q.shared.db.tables.order? id = some order' ∧ order'.status = order.status
  /-- Who reports an error has committed nothing. -/
  refused : ∀ t request response, p.Answered t request response → response.isSuccess = false →
    ¬ p.shared.history.Committed t
  /-- Who fails has committed nothing, a `POST` provided that Redis has answered the commands on
  idempotency records. -/
  failed : ∀ t request error, p.Failed t request error →
    (A.recorded = true ∨ ∃ user id target, request = .patchOrder user id target) →
      ¬ p.shared.history.Committed t

/-- **The audit trail never parts from the order.**

What is committed is an invariant of the tables (`audited`), and what a request may have done is
known from its contract.  The two meet in the last committed state, which is the present one. -/
theorem audit_trail (run : Run ctx A (Service.initial ctx) p) : AuditTrail ctx A p := by
  have sound := sound_of_run run
  have audited := sound.inv.1.audited
  refine ⟨?_, audited.trails, audited.events, audited.nodup,
    fun order mem => (audited.trails order mem).created_once,
    fun order mem => (audited.trails order mem).length_le, fun order mem e row =>
      ⟨(audited.trails order mem).source_ne_target e row, (audited.trails order mem).actor e row⟩,
    ?_, ?_, ?_⟩
  · have latest := sound.inv.1.latest
    rw [List.getLast?_eq_getElem?]
    simpa [History.states] using latest
  · intro q later id order found closed
    obtain ⟨order', found', owner, grown⟩ := order_later run later found
    have before := trail_of_order run found
    have after := trail_of_order (run.trans later) found'
    rw [owner] at after
    exact ⟨order', found', before.ends_of_closed after closed grown⟩
  · intro t request response answered refused
    have answer := sound.answered answered
    cases request with
    | createOrder user request data attempts => exact answer.2.refused refused
    | getOrder user id => exact answer.1.committed
    | listOrders user query => exact answer.1.committed
    | patchOrder user id target => exact answer.2.refused refused
  · intro t request error failed why
    have failure := sound.failed failed
    cases request with
    | createOrder user request data attempts =>
        rcases why with recorded | ⟨_, _, _, other⟩
        · exact failure recorded
        · cases other
    | getOrder user id => exact failure.committed
    | listOrders user query => exact failure.committed
    | patchOrder user id target => exact failure.committed

/-- A `PATCH` is refused to a stranger and done for the owner. -/
theorem audit_trail_of_two_patches :
    ∃ p : Service orderContext, Run orderContext .none (Service.initial orderContext) p ∧
      (p.shared.db.tables.trail (exampleId 1)).map OrderEventRow.toStatus =
        [.pending, .confirmed] ∧
      p.answer 1 = some orderNotFound ∧ AuditTrail orderContext .none p := by
  obtain ⟨p, run, trail, answer⟩ := Pool.steps_of_check (regime orderContext .none)
    (handler orderContext) (Service.initial orderContext)
    (postMoves 0 alice (exampleId 1) (exampleId 2) (exampleId 3) ++
      [.start 1 (.patchOrder bob (exampleId 1).text .shipped), .advance 1 .succeeds,
        .advance 1 .succeeds, .advance 1 .succeeds, .advance 1 .succeeds, .advance 1 .succeeds] ++
      patchMoves 2 alice (exampleId 1) .confirmed (exampleId 4))
    (fun p => (p.shared.db.tables.trail (exampleId 1)).map OrderEventRow.toStatus =
      [.pending, .confirmed] ∧ p.answer 1 = some orderNotFound) (by decide)
  exact ⟨p, run, trail, answer, audit_trail run⟩

/-! ### The times of the trail -/

/-- Rows that are sorted by their times, where the times of the trail increase, are the trail. -/
theorem eq_trail_of_sorted {rows trail : List OrderEventRow}
    (increasing : trail.Pairwise fun e e' => e.occurredAt < e'.occurredAt)
    (perm : rows.Perm trail)
    (sorted : rows.Pairwise fun e e' => e.occurredAt ≤ e'.occurredAt) : rows = trail := by
  have weakly : trail.Pairwise fun e e' => e.occurredAt ≤ e'.occurredAt :=
    increasing.imp Nat.le_of_lt
  have distinct : (trail.map OrderEventRow.occurredAt).Nodup :=
    (List.pairwise_map.mpr increasing).imp Nat.ne_of_lt
  refine List.Perm.eq_of_pairwise (fun a b mem_a mem_b le ge => ?_) sorted weakly perm
  exact List.inj_on_of_nodup_map distinct (perm.mem_iff.mp mem_a) mem_b (Nat.le_antisymm le ge)

/-- What the recorded times promise at a moment of a run. -/
structure Timeline (ctx : ApiContext) (A : Assumptions) (p : Service ctx) : Prop where
  /-- Sorted by their times, the audit rows of an order stand as their transactions have
  committed. -/
  sorted : ∀ order ∈ p.shared.db.tables.orders, ∀ rows : List OrderEventRow,
    rows.Perm (p.shared.db.tables.trail order.id) →
      rows.Pairwise (fun e e' => e.occurredAt ≤ e'.occurredAt) →
        rows = p.shared.db.tables.trail order.id ∧ Trail order.userId order.status rows
  /-- `updated_at` never moves backwards. -/
  forward : ∀ q, Run ctx A p q → ∀ id order, p.shared.db.tables.order? id = some order →
    ∃ order', q.shared.db.tables.order? id = some order' ∧ order.updatedAt ≤ order'.updatedAt

/-- **The recorded timeline is the real one**, where every status change is committed by a
transaction that began later than the one that wrote the row.

The condition sorts the audit rows of every order by their time (`timely`), so that the order of the
rows is the order of the commits. -/
theorem recorded_timeline (timely : A.timely = true) (run : Run ctx A (Service.initial ctx) p) :
    Timeline ctx A p := by
  have times := (sound_of_run run).inv.1.timely timely
  refine ⟨fun order mem rows perm sorted => ?_, fun q later id order found => ?_⟩
  · have same := eq_trail_of_sorted (times order mem).1 perm sorted
    exact ⟨same, same ▸ (sound_of_run run).inv.1.audited.trails order mem⟩
  · obtain ⟨order', found', _, grown⟩ := order_later run later found
    obtain ⟨mem, rfl⟩ := Tables.mem_of_order? found
    obtain ⟨mem', same⟩ := Tables.mem_of_order? found'
    obtain ⟨sorted', last'⟩ := (sound_of_run (run.trans later)).inv.1.timely timely order' mem'
    obtain ⟨final, last, time⟩ := Option.map_eq_some_iff.mp (times order mem).2
    have there : final ∈ q.shared.db.tables.trail order'.id :=
      same ▸ grown.subset (List.mem_of_getLast? last)
    exact ⟨order', found', time ▸ Timely.le_of_last sorted' last' there⟩

/-- The runs in which status changes are committed in turn. -/
def inTurn : Assumptions := { Assumptions.none with timely := true }

/-- Two changes of one order, one after the other. -/
theorem recorded_timeline_of_two_changes :
    ∃ p : Service orderContext, Run orderContext inTurn (Service.initial orderContext) p ∧
      (p.shared.db.tables.trail (exampleId 1)).map OrderEventRow.occurredAt = [0, 1, 2] ∧
      Timeline orderContext inTurn p := by
  obtain ⟨p, run, times⟩ := Pool.steps_of_check (regime orderContext inTurn)
    (handler orderContext) (Service.initial orderContext)
    (postMoves 0 alice (exampleId 1) (exampleId 2) (exampleId 3) ++ [.event .tick] ++
      patchMoves 1 alice (exampleId 1) .confirmed (exampleId 4) ++ [.event .tick] ++
      patchMoves 2 alice (exampleId 1) .shipped (exampleId 5))
    (fun p => (p.shared.db.tables.trail (exampleId 1)).map OrderEventRow.occurredAt = [0, 1, 2])
    (by decide)
  exact ⟨p, run, times, recorded_timeline rfl run⟩

/-- **An impossible history.**  Request 1 begins its transaction, request 2 begins a later one,
locks the row first, changes the status and commits; request 1 then finds the order confirmed,
ships it and commits.  By their times, the order was shipped before it was confirmed, and
`updated_at` moves back. -/
theorem timeline_reversed :
    ∃ p q : Service orderContext, Run orderContext .none (Service.initial orderContext) p ∧
      Run orderContext .none p q ∧ p.answer 2 ≠ none ∧ q.answer 1 ≠ none ∧
      (p.shared.db.tables.order? (exampleId 1)).map OrderRow.updatedAt = some 2 ∧
      (q.shared.db.tables.order? (exampleId 1)).map OrderRow.updatedAt = some 1 ∧
      (q.shared.db.tables.trail (exampleId 1)).map (fun e => (e.occurredAt, e.toStatus)) =
        [(0, .pending), (2, .confirmed), (1, .shipped)] := by
  obtain ⟨p, run, answered, updated, check⟩ := Pool.steps_of_check (regime orderContext .none)
    (handler orderContext) (Service.initial orderContext)
    (postMoves 0 alice (exampleId 1) (exampleId 2) (exampleId 3) ++
      [.event .tick, .start 1 (.patchOrder alice (exampleId 1).text .shipped),
        .advance 1 .succeeds, .advance 1 .succeeds, .event .tick] ++
      patchMoves 2 alice (exampleId 1) .confirmed (exampleId 4))
    (fun p => p.answer 2 ≠ none ∧
      (p.shared.db.tables.order? (exampleId 1)).map OrderRow.updatedAt = some 2 ∧
      ((Pool.run (regime orderContext .none) (handler orderContext) p
        (.advance 1 .succeeds :: changeMoves 1 (exampleId 5))).any fun q => q.answer 1 ≠ none ∧
          (q.shared.db.tables.order? (exampleId 1)).map OrderRow.updatedAt = some 1 ∧
          (q.shared.db.tables.trail (exampleId 1)).map (fun e => (e.occurredAt, e.toStatus)) =
            [(0, .pending), (2, .confirmed), (1, .shipped)]) = true)
    (by decide)
  obtain ⟨q, later, holds⟩ := (Option.any_eq_true _ _).mp check
  have holds := of_decide_eq_true holds
  exact ⟨p, q, run, Pool.steps_of_run _ _ _ later, answered, holds.1, updated, holds.2⟩

/-! ### Creating an order -/

/-- A call of `createOrderTransactionally`. -/
structure CreateCall where
  request : FastifyRequest
  user : Uuid
  data : CreateOrder
deriving DecidableEq

/-- The work that a keyed `POST` protects. -/
def creation (ctx : ApiContext) (call : CreateCall) : (machine ctx).Task IdempotencyResult :=
  createOrderTransactionally ctx call.request call.user call.data

/-- The pools in which orders are created. -/
abbrev Creations (ctx : ApiContext) := Pool (machine ctx) CreateCall IdempotencyResult

/-- What a call that has returned knows. -/
def CreationAnswer (ctx : ApiContext) (A : Assumptions) (t : Tid) (call : CreateCall)
    (result : IdempotencyResult) (s : State) : Prop :=
  (∃ orderId event, Announces event ∧ event.aggregateId = orderId ∧
    Created t call.user orderId event result s) ∧ Raised ctx A t s ∧ Returned t s

theorem handles_creation {base : State} : (discipline ctx A base).Handles (regime ctx A)
    (creation ctx) (CreationAnswer ctx A) (fun t _ _ s => Untouched t s ∧ Balanced t s) :=
  fun t _ s inv fresh => holds_createOrderTransactionally fresh.session ⟨inv, Rely.refl t s⟩

/-- What creating orders promises at a moment of a run. -/
structure AllOrNothing (ctx : ApiContext) (p : Creations ctx) : Prop where
  /-- The tables are what the last commit has left. -/
  latest : p.shared.history.states.getLast? = some p.shared.db.tables
  nodup : (p.shared.db.tables.orders.map OrderRow.id).Nodup
  /-- One outbox row for each order. -/
  outbox : p.shared.db.tables.outboxEvents.map OutboxEventRow.aggregateId =
    p.shared.db.tables.orders.map OrderRow.id
  /-- It repeats the order's id, its own id and its own time. -/
  announced : ∀ o ∈ p.shared.db.tables.outboxEvents, Announces o
  /-- One audit row for the creation of each order. -/
  created : ∀ order ∈ p.shared.db.tables.orders,
    ((p.shared.db.tables.trail order.id).filter (·.eventType = .created)).length = 1
  /-- Who returns has committed the order, its audit row and its outbox row, and has given back
  its one connection. -/
  returned : ∀ t call result, p.Answered t call result →
    (∃ row e o, e.orderId = row.id ∧ e.eventType = .created ∧ o.aggregateId = row.id ∧
      result = ⟨.num 201, some (orderBody (some row))⟩ ∧ p.shared.history.Published t
        [.insertOrder row, .insertOrderEvent e, .insertOutboxEvent o]) ∧
      p.shared.opened t = 1 ∧ p.shared.released t = 1
  /-- Who throws has committed nothing, and has given back what it was given. -/
  thrown : ∀ t call error, p.Failed t call error →
    ¬ p.shared.history.Committed t ∧ p.shared.opened t ≤ 1 ∧
      p.shared.released t = p.shared.opened t

/-- **Order, audit row and event are all or nothing**, whatever statement or command fails.

The threads are the works that keyed `POST`s protect.  The contract of each says what it has
published, and the invariant of the tables that there is nothing else in them. -/
theorem all_or_nothing {p : Creations ctx}
    (run : Pool.Steps (regime ctx .none) (creation ctx) (Pool.idle State.initial) p) :
    AllOrNothing ctx p := by
  have inv : (discipline ctx .none State.initial).inv State.initial :=
    ⟨inv_initial, Since.initial State.initial⟩
  have sound := (Discipline.sound_idle inv fresh_initial).steps environment_since
    handles_creation run
  have audited := sound.inv.1.audited
  refine ⟨?_, audited.nodup, audited.outbox, audited.announced,
    fun order mem => (audited.trails order mem).created_once, ?_, ?_⟩
  · have latest := sound.inv.1.latest
    rw [List.getLast?_eq_getElem?]
    simpa [History.states] using latest
  · intro t call result answered
    obtain ⟨⟨orderId, event, announces, aggregateId, row, createdId, now, new, same, published⟩,
      _, returned⟩ := sound.answered answered
    exact ⟨⟨row, createdEvent createdId orderId call.user now, event, new.id.symm, rfl,
      aggregateId.trans new.id.symm, same, published⟩, returned⟩
  · intro t call error failed
    obtain ⟨untouched, returned | unopened⟩ := sound.failed failed
    · exact ⟨untouched.committed, Nat.le_of_eq returned.1, returned.2.trans returned.1.symm⟩
    · exact ⟨untouched.committed, unopened.1 ▸ Nat.zero_le 1, unopened.2.trans unopened.1.symm⟩

/-- A call of the worked example. -/
def exampleCreation (user : Uuid) : CreateCall :=
  ⟨⟨"r1", "POST", some "/v1/orders", "/v1/orders", .missing, none⟩, user,
    ⟨"a@example.com", [⟨"x", 1, 100⟩]⟩⟩

/-- A call up to its `COMMIT`. -/
def creationMoves (t : Tid) (user orderId eventId createdId : Uuid) :
    List (Move (machine orderContext) CreateCall) :=
  [.start t (exampleCreation user), .advance t (.fresh orderId), .advance t (.fresh eventId),
    .advance t (.time 0), .advance t .succeeds, .advance t .succeeds, .advance t .succeeds,
    .advance t (.fresh createdId), .advance t .succeeds, .advance t .succeeds]

/-- Two calls next to each other: the `COMMIT` of one fails, and the other returns. -/
theorem all_or_nothing_of_two_calls :
    ∃ p : Creations orderContext,
      Pool.Steps (regime orderContext .none) (creation orderContext) (Pool.idle State.initial) p ∧
      p.failure 0 = some .database ∧ (p.answer 1).isSome = true ∧
      p.shared.db.tables.orders = [exampleOrder 2 bob] ∧ AllOrNothing orderContext p := by
  obtain ⟨p, run, failed, answered, orders⟩ := Pool.steps_of_check (regime orderContext .none)
    (creation orderContext) (Pool.idle State.initial)
    (creationMoves 0 alice (exampleId 1) (exampleId 3) (exampleId 5) ++
      creationMoves 1 bob (exampleId 2) (exampleId 4) (exampleId 6) ++
      [.advance 0 .fails, .advance 1 .succeeds, .advance 0 .succeeds, .advance 0 .succeeds,
        .advance 1 (.redis .refused), .advance 1 .succeeds])
    (fun p => p.failure 0 = some .database ∧ (p.answer 1).isSome = true ∧
      p.shared.db.tables.orders = [exampleOrder 2 bob]) (by decide)
  exact ⟨p, run, failed, answered, orders, all_or_nothing run⟩

end OrderRoutes

end OrderPlatform
