import Mathlib.Data.List.Nodup
import OrderPlatform.Api.Database

/-!
# The audit trail of an order

`Trail owner status events` says that the audit rows `events` lead an order of `owner` to
`status`: created as pending, and from there one transition at a time.  A trail is short
(`Trail.length_le`), because the transitions have no cycle, and it ends where the order stands.

`Audited tables` says that every order has such a trail, that no audit row is without its order,
and that every order was announced by one outbox row.  The two transactions of the order routes
keep it: the one that inserts an order (`Audited.newOrder`), and the one that changes the status
of an order to an allowed one (`Audited.statusChange`).

`Timely tables` says that the audit rows of an order also carry their times in order.  A new order
keeps it always, and a status change where its transaction began later than the one of the last
change.
-/

namespace OrderPlatform

/-- The audit rows of an order of this owner that lead to a status. -/
inductive Trail (owner : Uuid) : OrderStatus → List OrderEventRow → Prop
  | created (e : OrderEventRow) (type : e.eventType = .created) (source : e.fromStatus = none)
      (target : e.toStatus = .pending) (actor : e.actorUserId = owner) : Trail owner .pending [e]
  | changed {current : OrderStatus} {events : List OrderEventRow}
      (before : Trail owner current events) (e : OrderEventRow)
      (type : e.eventType = .statusChanged) (source : e.fromStatus = some current)
      (transition : e.toStatus ∈ orderStatusTransitions current) (actor : e.actorUserId = owner) :
      Trail owner e.toStatus (events ++ [e])

namespace Trail

variable {owner : Uuid} {status : OrderStatus} {events : List OrderEventRow}

/-- The rows of a trail use up the changes that an order may go through. -/
theorem length_add_remaining (h : Trail owner status events) :
    events.length + status.remaining ≤ 4 := by
  induction h with
  | created e _ _ _ _ => exact Nat.le_refl 4
  | changed before e _ _ transition _ ih =>
      have less := remaining_lt_of_transition transition
      simp only [List.length_append, List.length_singleton]
      omega

/-- An order changes its status at most three times. -/
theorem length_le (h : Trail owner status events) : events.length ≤ 4 :=
  Nat.le_trans (Nat.le_add_right _ _) h.length_add_remaining

/-- A trail has at least the row of the creation. -/
theorem ne_nil (h : Trail owner status events) : events ≠ [] := by
  cases h <;> simp

/-- Every row was written by the owner. -/
theorem actor (h : Trail owner status events) : ∀ e ∈ events, e.actorUserId = owner := by
  induction h with
  | created e _ _ _ actor => simpa using actor
  | changed before e _ _ _ actor ih =>
      intro e' mem
      rcases List.mem_append.mp mem with mem | mem
      · exact ih e' mem
      · cases List.mem_singleton.mp mem
        exact actor

/-- No row repeats the status it found. -/
theorem source_ne_target (h : Trail owner status events) :
    ∀ e ∈ events, e.fromStatus ≠ some e.toStatus := by
  induction h with
  | created e _ source _ _ => simp [source]
  | changed before e _ source transition _ ih =>
      intro e' mem
      rcases List.mem_append.mp mem with mem | mem
      · exact ih e' mem
      · cases List.mem_singleton.mp mem
        rw [source]
        intro same
        have less := remaining_lt_of_transition transition
        rw [Option.some.inj same] at less
        exact Nat.lt_irrefl _ less

/-- An order is created once. -/
theorem created_once (h : Trail owner status events) :
    (events.filter (·.eventType = .created)).length = 1 := by
  induction h with
  | created e type _ _ _ => simp [type]
  | changed before e type _ _ _ ih => simpa [List.filter_append, type] using ih

/-- A trail determines where it leads. -/
theorem status_unique {other : OrderStatus} (h : Trail owner status events)
    (h' : Trail owner other events) : status = other := by
  cases h with
  | created e _ _ _ _ =>
      generalize same : [e] = events at h'
      cases h' with
      | created _ _ _ _ _ => rfl
      | changed before _ _ _ _ _ =>
          have short := congrArg List.length same
          have some_row := List.length_pos_of_ne_nil before.ne_nil
          simp only [List.length_append, List.length_singleton] at short
          omega
  | changed before e _ _ _ _ =>
      generalize same : _ ++ [e] = events at h'
      cases h' with
      | created e' _ _ _ _ =>
          have short := congrArg List.length same
          have some_row := List.length_pos_of_ne_nil before.ne_nil
          simp only [List.length_append, List.length_singleton] at short
          omega
      | changed _ e' _ _ _ _ =>
          have last := List.append_inj_right' same rfl
          cases last
          rfl

/-- From a status that no transition leaves, a trail does not go on. -/
theorem ends_of_closed {status' : OrderStatus} {events' : List OrderEventRow}
    (h : Trail owner status events) (h' : Trail owner status' events')
    (closed : orderStatusTransitions status = []) (pre : events <+: events') :
    status' = status := by
  induction h' with
  | created e type source target actor =>
      have whole : events = [e] := by
        rcases List.prefix_concat_iff.mp (show events <+: [] ++ [e] from pre) with same | shorter
        · simpa using same
        · exact absurd (List.prefix_nil.mp shorter) h.ne_nil
      cases whole
      exact (h.status_unique (.created e type source target actor)).symm
  | changed before e type source transition actor ih =>
      rcases List.prefix_concat_iff.mp pre with same | shorter
      · cases same
        exact (h.status_unique (.changed before e type source transition actor)).symm
      · cases ih shorter
        simp [closed] at transition

end Trail

/-- The outbox row tells of a new order, and its payload says the same as its columns. -/
structure Announces (o : OutboxEventRow) : Prop where
  eventType : o.eventType = "order.created"
  orderId : o.payload.get? "orderId" = some (.str o.aggregateId.text)
  eventId : o.payload.get? "eventId" = some (.str o.id.text)
  occurredAt : o.payload.get? "occurredAt" = some (.str o.occurredAt)

/-- The tables agree. -/
structure Audited (tables : Tables) : Prop where
  nodup : (tables.orders.map OrderRow.id).Nodup
  trails : ∀ row ∈ tables.orders, Trail row.userId row.status (tables.trail row.id)
  events : ∀ e ∈ tables.orderEvents, ∃ row ∈ tables.orders, row.id = e.orderId
  outbox : tables.outboxEvents.map OutboxEventRow.aggregateId = tables.orders.map OrderRow.id
  announced : ∀ o ∈ tables.outboxEvents, Announces o

theorem audited_empty : Audited .empty := ⟨List.nodup_nil, nofun, nofun, rfl, nofun⟩

namespace Tables

variable {tables : Tables} {id : Uuid} {row : OrderRow}

theorem mem_of_order? (found : tables.order? id = some row) :
    row ∈ tables.orders ∧ row.id = id :=
  ⟨List.mem_of_find?_eq_some found, by simpa using List.find?_some found⟩

theorem notMem_of_order? (missing : tables.order? id = none) :
    ∀ row ∈ tables.orders, row.id ≠ id := by
  simpa [order?] using missing

/-- What a change of one status does to a row. -/
def setStatus (id : Uuid) (status : OrderStatus) (updatedAt : ℕ) (row : OrderRow) : OrderRow :=
  if row.id = id then { row with status, updatedAt } else row

@[simp] theorem setStatus_id (status : OrderStatus) (updatedAt : ℕ) :
    (setStatus id status updatedAt row).id = row.id := by
  unfold setStatus
  split <;> rfl

@[simp] theorem setStatus_userId (status : OrderStatus) (updatedAt : ℕ) :
    (setStatus id status updatedAt row).userId = row.userId := by
  unfold setStatus
  split <;> rfl

theorem setStatus_other (status : OrderStatus) (updatedAt : ℕ) (other : row.id ≠ id) :
    setStatus id status updatedAt row = row := if_neg other

/-- The tables after the transaction that changes a status. -/
theorem applyAll_statusChange (id : Uuid) (status : OrderStatus) (updatedAt : ℕ)
    (e : OrderEventRow) :
    tables.applyAll [.updateOrder id status updatedAt, .insertOrderEvent e] =
      ⟨tables.orders.map (setStatus id status updatedAt), tables.orderEvents ++ [e],
        tables.outboxEvents⟩ := rfl

/-- A change of one status, seen through the look-up of a row. -/
theorem order?_map_setStatus (id id' : Uuid) (status : OrderStatus) (updatedAt : ℕ)
    (events : List OrderEventRow) (outbox : List OutboxEventRow) :
    order? id' ⟨tables.orders.map (setStatus id status updatedAt), events, outbox⟩ =
      (tables.order? id').map (setStatus id status updatedAt) := by
  unfold order?
  rw [List.find?_map]
  have same : (fun row : OrderRow => decide (row.id = id')) ∘ setStatus id status updatedAt =
      fun row => decide (row.id = id') := by
    funext row
    exact congrArg (fun other => decide (other = id')) (setStatus_id ..)
  rw [same]

end Tables

namespace Audited

variable {tables : Tables}

/-- **A new order comes with its trail.** -/
theorem newOrder (h : Audited tables) {row : OrderRow} {e : OrderEventRow} {o : OutboxEventRow}
    (missing : tables.order? row.id = none) (status : row.status = .pending)
    (orderId : e.orderId = row.id) (type : e.eventType = .created) (source : e.fromStatus = none)
    (target : e.toStatus = .pending) (actor : e.actorUserId = row.userId)
    (announces : Announces o) (aggregateId : o.aggregateId = row.id) :
    Audited ⟨tables.orders ++ [row], tables.orderEvents ++ [e], tables.outboxEvents ++ [o]⟩ := by
  have others := Tables.notMem_of_order? missing
  have silent : tables.trail row.id = [] := by
    refine List.filter_eq_nil_iff.mpr fun e' mem => ?_
    obtain ⟨row', mem', same⟩ := h.events e' mem
    simpa [← same] using others row' mem'
  refine ⟨?_, ?_, ?_, ?_, ?_⟩
  · rw [List.map_append, List.nodup_append]
    refine ⟨h.nodup, List.nodup_singleton _, ?_⟩
    intro id mem id' mem' same
    obtain ⟨row', mem_row, rfl⟩ := List.mem_map.mp mem
    exact others row' mem_row (same.trans (List.mem_singleton.mp mem'))
  · intro row' mem
    rcases List.mem_append.mp mem with mem | mem
    · have other : e.orderId ≠ row'.id := fun same => others row' mem (same ▸ orderId)
      simpa [Tables.trail, List.filter_append, other] using h.trails row' mem
    · cases List.mem_singleton.mp mem
      have alone : Tables.trail row.id
          ⟨tables.orders ++ [row], tables.orderEvents ++ [e], tables.outboxEvents ++ [o]⟩ = [e] := by
        simp only [Tables.trail, List.filter_append]
        rw [show tables.orderEvents.filter (·.orderId = row.id) = [] from silent]
        simp [orderId]
      rw [alone, status]
      exact .created e type source target actor
  · intro e' mem
    rcases List.mem_append.mp mem with mem | mem
    · obtain ⟨row', mem', same⟩ := h.events e' mem
      exact ⟨row', List.mem_append_left _ mem', same⟩
    · cases List.mem_singleton.mp mem
      exact ⟨row, List.mem_append_right _ (List.mem_singleton_self _), orderId.symm⟩
  · simp [h.outbox, aggregateId]
  · intro o' mem
    rcases List.mem_append.mp mem with mem | mem
    · exact h.announced o' mem
    · cases List.mem_singleton.mp mem
      exact announces

/-- **A status change leaves its row.** -/
theorem statusChange (h : Audited tables) {row : OrderRow} {e : OrderEventRow} {updatedAt : ℕ}
    (found : row ∈ tables.orders) (orderId : e.orderId = row.id)
    (type : e.eventType = .statusChanged) (source : e.fromStatus = some row.status)
    (transition : e.toStatus ∈ orderStatusTransitions row.status)
    (actor : e.actorUserId = row.userId) :
    Audited ⟨tables.orders.map (Tables.setStatus row.id e.toStatus updatedAt),
      tables.orderEvents ++ [e], tables.outboxEvents⟩ := by
  set change := Tables.setStatus row.id e.toStatus updatedAt with hchange
  have ids : (tables.orders.map change).map OrderRow.id = tables.orders.map OrderRow.id := by
    simp [hchange, List.map_map, Function.comp_def]
  refine ⟨?_, ?_, ?_, h.outbox.trans ids.symm, h.announced⟩
  · rw [ids]
    exact h.nodup
  · intro r' mem'
    obtain ⟨r, mem, rfl⟩ := List.mem_map.mp mem'
    by_cases same : r.id = row.id
    · cases List.inj_on_of_nodup_map h.nodup mem found same
      have grown : Tables.trail row.id
          ⟨tables.orders.map change, tables.orderEvents ++ [e], tables.outboxEvents⟩ =
            tables.trail row.id ++ [e] := by
        simp [Tables.trail, List.filter_append, orderId]
      have changed : change row = { row with status := e.toStatus, updatedAt } := if_pos rfl
      rw [Tables.setStatus_id, grown, changed]
      exact .changed (h.trails row found) e type source transition actor
    · have other : e.orderId ≠ r.id := fun same' => same (same'.symm.trans orderId)
      have kept : change r = r := Tables.setStatus_other _ _ same
      simpa [Tables.trail, List.filter_append, other, kept] using h.trails r mem
  · intro e' mem
    rcases List.mem_append.mp mem with mem | mem
    · obtain ⟨r, mem', same⟩ := h.events e' mem
      exact ⟨change r, List.mem_map_of_mem mem', (Tables.setStatus_id _ _).trans same⟩
    · cases List.mem_singleton.mp mem
      exact ⟨change row, List.mem_map_of_mem found, (Tables.setStatus_id _ _).trans orderId.symm⟩

end Audited

/-! ### Times -/

/-- The audit rows of every order carry their times in order, and the last one is the time of
the row. -/
def Timely (tables : Tables) : Prop :=
  ∀ row ∈ tables.orders, (tables.trail row.id).Pairwise (fun e e' => e.occurredAt < e'.occurredAt) ∧
    ((tables.trail row.id).getLast?).map OrderEventRow.occurredAt = some row.updatedAt

theorem timely_empty : Timely .empty := nofun

namespace Timely

variable {tables : Tables}

/-- A new order is timely. -/
theorem newOrder (h : Timely tables) (audited : Audited tables) {row : OrderRow}
    {e : OrderEventRow} {o : OutboxEventRow} (missing : tables.order? row.id = none)
    (orderId : e.orderId = row.id) (time : e.occurredAt = row.updatedAt) :
    Timely ⟨tables.orders ++ [row], tables.orderEvents ++ [e], tables.outboxEvents ++ [o]⟩ := by
  have others := Tables.notMem_of_order? missing
  have silent : tables.orderEvents.filter (·.orderId = row.id) = [] := by
    refine List.filter_eq_nil_iff.mpr fun e' mem => ?_
    obtain ⟨row', mem', same⟩ := audited.events e' mem
    simpa [← same] using others row' mem'
  intro row' mem
  rcases List.mem_append.mp mem with mem | mem
  · have other : e.orderId ≠ row'.id := fun same => others row' mem (same ▸ orderId)
    simpa [Tables.trail, List.filter_append, other] using h row' mem
  · cases List.mem_singleton.mp mem
    simp [Tables.trail, List.filter_append, silent, orderId, time]

theorem le_of_last {events : List OrderEventRow} {time : ℕ}
    (sorted : events.Pairwise fun e e' => e.occurredAt < e'.occurredAt)
    (last : events.getLast?.map OrderEventRow.occurredAt = some time) {e : OrderEventRow}
    (mem : e ∈ events) : e.occurredAt ≤ time := by
  obtain ⟨final, hfinal, rfl⟩ := Option.map_eq_some_iff.mp last
  obtain ⟨before, rfl⟩ := List.getLast?_eq_some_iff.mp hfinal
  rcases List.mem_append.mp mem with mem | mem
  · exact Nat.le_of_lt
      ((List.pairwise_append.mp sorted).2.2 e mem final (List.mem_singleton_self _))
  · cases List.mem_singleton.mp mem
    exact Nat.le_refl _

/-- **A status change is timely where its time is later than that of the last change.** -/
theorem statusChange (h : Timely tables) (audited : Audited tables) {row : OrderRow}
    {e : OrderEventRow} (found : row ∈ tables.orders) (orderId : e.orderId = row.id)
    (later : row.updatedAt < e.occurredAt) :
    Timely ⟨tables.orders.map (Tables.setStatus row.id e.toStatus e.occurredAt),
      tables.orderEvents ++ [e], tables.outboxEvents⟩ := by
  intro r' mem'
  obtain ⟨r, mem, rfl⟩ := List.mem_map.mp mem'
  obtain ⟨sorted, last⟩ := h r mem
  by_cases same : r.id = row.id
  · cases List.inj_on_of_nodup_map audited.nodup mem found same
    have grown : Tables.trail row.id
        ⟨tables.orders.map (Tables.setStatus row.id e.toStatus e.occurredAt),
          tables.orderEvents ++ [e], tables.outboxEvents⟩ = tables.trail row.id ++ [e] := by
      simp [Tables.trail, List.filter_append, orderId]
    rw [Tables.setStatus_id, grown]
    refine ⟨List.pairwise_append.mpr ⟨sorted, List.pairwise_singleton _ _, ?_⟩, ?_⟩
    · intro a mem_a b mem_b
      cases List.mem_singleton.mp mem_b
      exact Nat.lt_of_le_of_lt (le_of_last sorted last mem_a) later
    · simp [Tables.setStatus]
  · have other : e.orderId ≠ r.id := fun same' => same (same'.symm.trans orderId)
    have kept : Tables.setStatus row.id e.toStatus e.occurredAt r = r :=
      Tables.setStatus_other _ _ same
    simpa [Tables.trail, List.filter_append, other, kept] using h r mem

end Timely

end OrderPlatform
