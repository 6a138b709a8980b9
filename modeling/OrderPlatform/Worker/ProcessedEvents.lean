import Mathlib.Data.List.Nodup
import OrderPlatform.Api.Database

/-!
# The processed events

The table `processed_events` and the three statements that the worker sends.  Each is a transaction
of its own.  The event id is a `uuid`: a text that Postgres does not take for one is rejected.

A row says which call has inserted it (`owner`); no statement looks at that.

* `ProcessedEventRow`, `ProcessedEvents` — the data, with its primary key.
* `EventStatement`, `ProcessedEvents.exec` — the statements.
-/

namespace OrderPlatform

namespace Worker

open Async (Tid)

/-- A row of `processed_events`.  Times are milliseconds since the epoch. -/
structure ProcessedEventRow where
  eventId : Uuid
  eventType : String
  processedAt : Option ℤ
  expiresAt : ℤ
  owner : Tid
deriving DecidableEq

/-- The table `processed_events`, with its primary key as a field. -/
structure ProcessedEvents where
  rows : List ProcessedEventRow
  ids : (rows.map ProcessedEventRow.eventId).Nodup

/-- The SQL statements of `processEvent`. -/
inductive EventStatement
  /-- `INSERT … ON CONFLICT (event_id) DO NOTHING RETURNING event_id` -/
  | insert (eventId eventType : String)
  /-- `UPDATE processed_events SET processed_at = now() WHERE event_id = $1` -/
  | markProcessed (eventId : String)
  /-- `DELETE FROM processed_events WHERE event_id = $1` -/
  | delete (eventId : String)
deriving DecidableEq

/-- The event that a statement is about, as the text it is sent with. -/
def EventStatement.eventId : EventStatement → String
  | insert eventId _ => eventId
  | markProcessed eventId => eventId
  | delete eventId => eventId

namespace ProcessedEvents

/-- No event has been seen. -/
def empty : ProcessedEvents := ⟨[], List.nodup_nil⟩

/-- The row of an event. -/
def find? (id : Uuid) (T : ProcessedEvents) : Option ProcessedEventRow :=
  T.rows.find? fun row => row.eventId = id

/-- The work of the event is known to be done. -/
def Processed (id : Uuid) (T : ProcessedEvents) : Prop :=
  ∃ row ∈ T.rows, row.eventId = id ∧ row.processedAt.isSome

/-- A call has a row of its own for the event, and has not marked it. -/
def Claimed (t : Tid) (id : Uuid) (T : ProcessedEvents) : Prop :=
  ∃ row ∈ T.rows, row.eventId = id ∧ row.owner = t ∧ row.processedAt = none

/-- The number of inserted rows, and the table: a known event is left alone. -/
def insert (row : ProcessedEventRow) (T : ProcessedEvents) : ℕ × ProcessedEvents :=
  if fresh : row.eventId ∉ T.rows.map ProcessedEventRow.eventId then
    (1, ⟨row :: T.rows, List.nodup_cons.mpr ⟨fresh, T.ids⟩⟩)
  else (0, T)

/-- `processed_at` of a row is set. -/
def mark (now : ℤ) (id : Uuid) (T : ProcessedEvents) : ProcessedEvents where
  rows := T.rows.map fun row =>
    if row.eventId = id then { row with processedAt := some now } else row
  ids := by
    rw [List.map_map]
    have same : (ProcessedEventRow.eventId ∘ fun row : ProcessedEventRow =>
        if row.eventId = id then { row with processedAt := some now } else row) =
        ProcessedEventRow.eventId := by
      funext row
      show (if row.eventId = id then { row with processedAt := some now } else row).eventId = _
      split <;> rfl
    rw [same]
    exact T.ids

/-- The row of an event is deleted. -/
def remove (id : Uuid) (T : ProcessedEvents) : ProcessedEvents where
  rows := T.rows.filter fun row => !decide (row.eventId = id)
  ids := T.ids.sublist (List.filter_sublist.map _)

/-- Execute a statement of call `t` at a moment: the number of rows that it returns or changes. -/
def exec (uuid : String → Option Uuid) (now : ℤ) (t : Tid) (st : EventStatement)
    (T : ProcessedEvents) : Except String (ℕ × ProcessedEvents) :=
  match uuid st.eventId with
  | none => .error ("invalid input syntax for type uuid: \"" ++ st.eventId ++ "\"")
  | some id =>
      match st with
      | .insert _ eventType => .ok (T.insert ⟨id, eventType, none, now + 24 * 3600 * 1000, t⟩)
      | .markProcessed _ =>
          .ok ((T.rows.filter fun row => row.eventId = id).length, T.mark now id)
      | .delete _ => .ok ((T.rows.filter fun row => row.eventId = id).length, T.remove id)

/-! ### What a statement does -/

variable {T T' : ProcessedEvents} {id : Uuid} {t : Tid} {now : ℤ}

/-- What a statement does when its event id is read as `id`. -/
def Effect (now : ℤ) (t : Tid) (id : Uuid) (T : ProcessedEvents) (n : ℕ) (T' : ProcessedEvents) :
    EventStatement → Prop
  | .insert _ eventType => (n, T') = T.insert ⟨id, eventType, none, now + 24 * 3600 * 1000, t⟩
  | .markProcessed _ => T' = T.mark now id
  | .delete _ => T' = T.remove id

theorem effect_of_exec {uuid : String → Option Uuid} {st : EventStatement} {n : ℕ}
    (h : T.exec uuid now t st = .ok (n, T')) :
    ∃ id, uuid st.eventId = some id ∧ Effect now t id T n T' st := by
  unfold exec at h
  cases parsed : uuid st.eventId with
  | none =>
      rw [parsed] at h
      cases h
  | some id =>
      rw [parsed] at h
      refine ⟨id, rfl, ?_⟩
      cases st with
      | insert eventId eventType => exact (Except.ok.inj h).symm
      | markProcessed eventId => cases h; rfl
      | delete eventId => cases h; rfl

/-- An event has one row. -/
theorem row_unique {row row' : ProcessedEventRow} (mem : row ∈ T.rows) (mem' : row' ∈ T.rows)
    (same : row.eventId = row'.eventId) : row = row' :=
  List.inj_on_of_nodup_map T.ids mem mem' same

/-- **The row of an event belongs to one call.** -/
theorem Claimed.owner {u : Tid} (h : T.Claimed t id) (h' : T.Claimed u id) : t = u := by
  obtain ⟨row, mem, event, rfl, _⟩ := h
  obtain ⟨row', mem', event', rfl, _⟩ := h'
  rw [row_unique mem mem' (event.trans event'.symm)]

/-- What is claimed is not done. -/
theorem Claimed.not_processed (h : T.Claimed t id) : ¬ T.Processed id := by
  rintro ⟨row', mem', event', done⟩
  obtain ⟨row, mem, event, _, open'⟩ := h
  rw [row_unique mem' mem (event'.trans event.symm), open'] at done
  cases done

theorem mem_mark {row : ProcessedEventRow} :
    row ∈ (T.mark now id).rows ↔
      (row ∈ T.rows ∧ row.eventId ≠ id) ∨
        ∃ old ∈ T.rows, old.eventId = id ∧ row = { old with processedAt := some now } := by
  simp only [mark, List.mem_map]
  constructor
  · rintro ⟨old, mem, rfl⟩
    by_cases same : old.eventId = id
    · exact .inr ⟨old, mem, same, if_pos same⟩
    · rw [if_neg same]
      exact .inl ⟨mem, same⟩
  · rintro (⟨mem, other⟩ | ⟨old, mem, same, rfl⟩)
    · exact ⟨row, mem, if_neg other⟩
    · exact ⟨old, mem, if_pos same⟩

theorem mem_remove {row : ProcessedEventRow} :
    row ∈ (T.remove id).rows ↔ row ∈ T.rows ∧ row.eventId ≠ id := by
  simp [remove]

/-- What a statement of another call does not take away from `t`, and nothing takes away from
anybody. -/
structure Keeps (t : Tid) (T T' : ProcessedEvents) : Prop where
  claimed : ∀ id, T.Claimed t id → T'.Claimed t id
  processed : ∀ id, T.Processed id → T'.Processed id

theorem Keeps.refl (t : Tid) (T : ProcessedEvents) : Keeps t T T := ⟨fun _ h => h, fun _ h => h⟩

theorem Keeps.trans {T'' : ProcessedEvents} (h : Keeps t T T') (h' : Keeps t T' T'') :
    Keeps t T T'' :=
  ⟨fun id known => h'.claimed id (h.claimed id known),
    fun id known => h'.processed id (h.processed id known)⟩

theorem keeps_insert (row : ProcessedEventRow) : Keeps t T (T.insert row).2 := by
  unfold insert
  split
  · exact ⟨fun _ ⟨old, mem, h⟩ => ⟨old, List.mem_cons_of_mem _ mem, h⟩,
      fun _ ⟨old, mem, h⟩ => ⟨old, List.mem_cons_of_mem _ mem, h⟩⟩
  · exact .refl t T

/-- Only a row that was not there yet is inserted. -/
theorem claimed_insert {row : ProcessedEventRow} (inserted : (T.insert row).1 ≠ 0)
    (open' : row.processedAt = none) : (T.insert row).2.Claimed row.owner row.eventId := by
  unfold insert at inserted ⊢
  split
  · exact ⟨row, List.mem_cons_self .., rfl, rfl, open'⟩
  · rename_i present
    rw [dif_neg present] at inserted
    exact absurd rfl inserted

/-- An `INSERT` that inserts nothing has found a row and leaves it alone. -/
theorem insert_conflict {row : ProcessedEventRow} (conflict : (T.insert row).1 = 0) :
    (T.insert row).2 = T ∧ ∃ old ∈ T.rows, old.eventId = row.eventId := by
  unfold insert at conflict ⊢
  split
  · rename_i fresh
    rw [dif_pos fresh] at conflict
    cases conflict
  · rename_i present
    exact ⟨rfl, List.mem_map.mp (Classical.not_not.mp present)⟩

theorem processed_of_mark {id' : Uuid} (h : T.Processed id') : (T.mark now id).Processed id' := by
  obtain ⟨row, mem, event, done⟩ := h
  by_cases same : row.eventId = id
  · exact ⟨_, mem_mark.mpr (.inr ⟨row, mem, same, rfl⟩), event, rfl⟩
  · exact ⟨row, mem_mark.mpr (.inl ⟨mem, same⟩), event, done⟩

/-- The `UPDATE` of the call that has the row. -/
theorem keeps_mark {u : Tid} (h : T.Claimed t id) (other : u ≠ t) : Keeps u T (T.mark now id) where
  claimed := by
    rintro id' ⟨row, mem, event, owner, open'⟩
    have distinct : row.eventId ≠ id := by
      rintro same
      exact other (Claimed.owner ⟨row, mem, same, owner, open'⟩ h)
    exact ⟨row, mem_mark.mpr (.inl ⟨mem, distinct⟩), event, owner, open'⟩
  processed := fun _ done => processed_of_mark done

theorem processed_mark (h : T.Claimed t id) : (T.mark now id).Processed id := by
  obtain ⟨row, mem, event, _, _⟩ := h
  exact ⟨_, mem_mark.mpr (.inr ⟨row, mem, event, rfl⟩), event, rfl⟩

/-- The `DELETE` of the call that has the row. -/
theorem keeps_remove {u : Tid} (h : T.Claimed t id) (other : u ≠ t) : Keeps u T (T.remove id) where
  claimed := by
    rintro id' ⟨row, mem, event, owner, open'⟩
    have distinct : row.eventId ≠ id := by
      rintro same
      exact other (Claimed.owner ⟨row, mem, same, owner, open'⟩ h)
    exact ⟨row, mem_remove.mpr ⟨mem, distinct⟩, event, owner, open'⟩
  processed := by
    rintro id' ⟨row, mem, event, done⟩
    have distinct : row.eventId ≠ id := fun same => h.not_processed ⟨row, mem, same, done⟩
    exact ⟨row, mem_remove.mpr ⟨mem, distinct⟩, event, done⟩

end ProcessedEvents

end Worker

end OrderPlatform
