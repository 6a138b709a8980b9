import Mathlib.Tactic.Linarith
import OrderPlatform.Outbox.Contract

/-!
# Marked rows, and rows that are due again

What holds of the rows of the outbox table in every run, whatever fails.  A row is marked as published
only by a poll to which the broker has confirmed a message about that row (`Backed`), and a row that
is not marked is due again at most a minute after the transaction that updated it last (`Timely`).

Both are about what rows may look like and what transactions may write, so what a statement does to
them is followed once (`Database.Meets`): a property of rows and a property of writes, such that a
write of the one kind leaves a row of the other kind behind.
-/

namespace OrderPlatform

namespace Outbox

open Async (Tid Regime)

variable {ctx : PublisherContext} {t : Tid} {s s' : State}

/-! ### Properties of rows and writes -/

namespace Database

variable {db db' : Database} {P : OutboxRow → Prop} {W : Tid → Write → Prop}

/-- What a statement of session `t` writes. -/
def writeOf (t : Tid) (db : Database) : Statement → Option Write
  | .markPublished id => some (.published id (db.nowOf t) t)
  | .markFailed id attempts e seconds =>
      some (.failed id attempts e (db.nowOf t + seconds * 1000000) (db.nowOf t))
  | _ => none

/-- All committed rows, and all writes of open transactions, have a property. -/
structure Meets (P : OutboxRow → Prop) (W : Tid → Write → Prop) (db : Database) : Prop where
  rows : ∀ row ∈ db.table.rows, P row
  writes : ∀ u tx, db.transaction u = some tx → ∀ w ∈ tx.writes, W u w

namespace Meets

theorem mono {P' : OutboxRow → Prop} {W' : Tid → Write → Prop} (h : db.Meets P W)
    (rows : ∀ row, P row → P' row) (writes : ∀ u w, W u w → W' u w) : db.Meets P' W' :=
  ⟨fun row mem => rows row (h.rows row mem), fun u tx known w mem =>
    writes u w (h.writes u tx known w mem)⟩

/-- No row changes, and transactions lose what they have written. -/
theorem of_same (h : db.Meets P W) (table : db'.table = db.table)
    (transaction : ∀ u tx, db'.transaction u = some tx →
      tx.writes = [] ∨ ∃ old, db.transaction u = some old ∧ tx.writes = old.writes) :
    db'.Meets P W := by
  constructor
  · rw [table]
    exact h.rows
  · intro u tx known w mem
    rcases transaction u tx known with none | ⟨old, known', same⟩
    · rw [none] at mem
      cases mem
    · exact h.writes u old known' w (same ▸ mem)

theorem abort (h : db.Meets P W) (t : Tid) : (db.abort t).Meets P W := by
  refine h.of_same rfl fun u tx known => ?_
  have known : Function.update db.transaction t
      ((db.transaction t).map fun tx => { tx with aborted := true }) u = some tx := known
  by_cases same : u = t
  · subst same
    rw [Function.update_self] at known
    obtain ⟨old, running, rfl⟩ := Option.map_eq_some_iff.mp known
    exact .inr ⟨old, running, rfl⟩
  · rw [Function.update_of_ne same] at known
    exact .inr ⟨tx, known, rfl⟩

theorem endTransaction (h : db.Meets P W) (t : Tid) : (db.endTransaction t).Meets P W := by
  refine h.of_same rfl fun u tx known => ?_
  have known : Function.update db.transaction t none u = some tx := known
  by_cases same : u = t
  · subst same
    rw [Function.update_self] at known
    cases known
  · rw [Function.update_of_ne same] at known
    exact .inr ⟨tx, known, rfl⟩

theorem disconnect (h : db.Meets P W) (t : Tid) : (db.disconnect t).Meets P W :=
  (h.endTransaction t).of_same rfl fun _ tx known => .inr ⟨tx, known, rfl⟩

theorem lock (h : db.Meets P W) (ids : List Uuid) : (db.lock t ids).Meets P W := by
  unfold Database.lock
  split
  · exact h.of_same rfl fun _ tx known => .inr ⟨tx, known, rfl⟩
  · exact h

/-- The writes of a transaction leave rows of the right kind. -/
theorem applyAll {u : Tid} (update : ∀ w row, W u w → P row → P (w.onRow row)) (ws : List Write) :
    ∀ {T : OutboxTable}, (∀ row ∈ T.rows, P row) → (∀ w ∈ ws, W u w) →
      ∀ row ∈ (T.applyAll ws).rows, P row := by
  induction ws with
  | nil => exact fun here _ => here
  | cons w rest ih =>
      intro T here written
      refine ih ?_ fun w' mem => written w' (List.mem_cons_of_mem w mem)
      intro row mem
      obtain ⟨old, there, rfl⟩ := List.mem_map.mp mem
      exact update w old (written w List.mem_cons_self) (here old there)

theorem write (update : ∀ u w row, W u w → P row → P (w.onRow row)) (h : db.Meets P W) {w : Write}
    (new : W t w) : (db.write t w).Meets P W := by
  unfold Database.write
  split
  · rename_i tx running
    refine ⟨h.rows, fun u tx' known w' mem => ?_⟩
    by_cases same : u = t
    · subst same
      simp only [Function.update_self, Option.some.injEq] at known
      subst known
      rcases List.mem_append.mp mem with old | last
      · exact h.writes u tx running w' old
      · rw [List.mem_singleton.mp last]
        exact new
    · simp only [Function.update_of_ne same] at known
      exact h.writes u tx' known w' mem
  · exact ⟨applyAll (update t) [w] h.rows fun w' mem => (List.mem_singleton.mp mem) ▸ new, h.writes⟩

/-- **What one statement leaves**, given that its own write is of the right kind. -/
theorem executed {st : Statement} {answer : Option st.Result}
    (update : ∀ u w row, W u w → P row → P (w.onRow row)) (h : db.Meets P W)
    (new : ∀ w, db.writeOf t st = some w → W t w) (executed : db.Executed t st answer db') :
    db'.Meets P W := by
  cases executed with
  | rejected => exact h
  | failed => exact h.abort t
  | nested running => exact h
  | begun free =>
      refine h.of_same rfl fun u tx known => ?_
      by_cases same : u = t
      · subst same
        simp only [Function.update_self, Option.some.injEq] at known
        subst known
        exact .inl rfl
      · simp only [Function.update_of_ne same] at known
        exact .inr ⟨tx, known, rfl⟩
  | @committed tx running healthy =>
      exact ⟨applyAll (update t) tx.writes h.rows (h.writes t tx running),
        (h.endTransaction t).writes⟩
  | idle free => exact h
  | withdrawn running aborted => exact h.endTransaction t
  | rolledBack => exact h.endTransaction t
  | found healthy batch => exact h.lock _
  | marked healthy free => exact h.write update (new _ rfl)
  | postponed healthy free => exact h.write update (new _ rfl)

end Meets

end Database

/-- **What one call leaves.** -/
theorem meets_of_perform {P : OutboxRow → Prop} {W : Tid → Write → Prop} {w : ℕ} {p : Publisher}
    {choice : Choice} {c : Call} {r : Except String c.Result}
    (update : ∀ u w row, W u w → P row → P (w.onRow row)) (h : s.db.Meets P W)
    (new : ∀ st, c = .query st → ∀ w, s.db.writeOf t st = some w → W t w)
    (done : perform ctx t w p choice c s = some (r, s')) : s'.db.Meets P W := by
  rcases perform_cases done with ⟨st, rfl⟩ | ⟨connection, row, rfl⟩ | ⟨db, _⟩
  · obtain ⟨_, _, _, rfl⟩ | ⟨_, _, db, executed, ⟨_, _, _, rfl⟩ | ⟨_, _, _, _, rfl⟩⟩ :=
      perform_query done
    · exact h.abort t
    · exact h.executed update (new st rfl) executed
    · exact (h.executed update (new st rfl) executed).disconnect t
  · obtain ⟨_, _, rfl⟩ | ⟨now, _, rfl, _⟩ := perform_publish done
    · exact h
    · exact h
  · rw [db]
    exact h

/-- What happens beside the calls inserts rows and ends transactions. -/
theorem meets_of_event {P : OutboxRow → Prop} {W : Tid → Write → Prop} {e : Event}
    (h : s.db.Meets P W)
    (inserted : ∀ id eventType payload occurredAt startedAt, startedAt ≤ s.db.now →
      Text.Json.string? (payload.get? "eventId") = some id.text →
      P (newRow id eventType payload occurredAt startedAt))
    (hevent : State.event e s = some s') : s'.db.Meets P W := by
  cases e with
  -- the only event that adds a row
  | insert id eventType payload occurredAt startedAt =>
      simp only [State.event] at hevent
      split at hevent
      · rename_i fits
        obtain ⟨table, added, rfl⟩ := Option.map_eq_some_iff.mp hevent
        refine ⟨fun row mem => ?_, h.writes⟩
        unfold OutboxTable.insert at added
        split at added
        · cases added
          rcases List.mem_cons.mp mem with rfl | old
          · exact inserted id eventType payload occurredAt startedAt fits.1 fits.2
          · exact h.rows row old
        · cases added
      · cases hevent
  | declare d =>
      obtain ⟨_, _, rfl⟩ := Option.map_eq_some_iff.mp hevent
      exact h
  | confirm i =>
      obtain ⟨_, _, rfl⟩ := Option.map_eq_some_iff.mp hevent
      exact h
  | reject i stored =>
      obtain ⟨_, _, rfl⟩ := Option.map_eq_some_iff.mp hevent
      exact h
  | tick n => cases hevent; exact ⟨h.rows, h.writes⟩
  | disconnect u => cases hevent; exact h.disconnect u
  | cut c => cases hevent; exact h
  | closed c =>
      obtain ⟨x, _, hevent⟩ := Option.bind_eq_some_iff.mp hevent
      obtain ⟨p, _, hevent⟩ := Option.bind_eq_some_iff.mp hevent
      split at hevent
      · cases hevent
        exact h
      · cases hevent
  | boot w =>
      simp only [State.event] at hevent
      split at hevent
      · cases hevent
        exact h
      · cases hevent
  | die w =>
      obtain ⟨_, _, rfl⟩ := Option.map_eq_some_iff.mp hevent
      exact h
  | terminate w =>
      obtain ⟨_, _, rfl⟩ := Option.map_eq_some_iff.mp hevent
      exact h

theorem meets_initial {P : OutboxRow → Prop} {W : Tid → Write → Prop} :
    State.initial.db.Meets P W := by
  constructor
  · exact fun _ mem => absurd mem List.not_mem_nil
  · intro u tx known
    change none = some tx at known
    cases known

/-! ### Marked rows -/

/-- A row is marked by a session to which the broker has confirmed a publication for it. -/
def BackedRow (s : State) (row : OutboxRow) : Prop :=
  row.publishedAt.isSome → ∃ u, row.publishedBy = some u ∧ Confirmed u row.id s

/-- A pending mark stands in the session that has had the confirmation. -/
def BackedWrite (s : State) (t : Tid) : Write → Prop
  | .published id _ u => u = t ∧ Confirmed t id s
  | .failed .. => True

theorem backed_update (u : Tid) (w : Write) (row : OutboxRow) (write : BackedWrite s u w)
    (here : BackedRow s row) : BackedRow s (w.onRow row) := by
  unfold Write.onRow
  split
  · rename_i same
    cases w with
    | published id now v =>
        obtain ⟨rfl, confirmed⟩ := write
        have same : row.id = id := same
        exact fun _ => ⟨v, rfl, same ▸ confirmed⟩
    | failed id attempts e next now => exact here
  · exact here

/-- What has been marked, what is about to be, and what has been published. -/
structure Backed (ctx : PublisherContext) (s : State) : Prop where
  meets : s.db.Meets (BackedRow s) (BackedWrite s)
  messages : ∀ pub ∈ s.publications, ∃ row ∈ s.db.table.rows, row.id = pub.rowId ∧
    ∃ now, pub.message = messageOf ctx now row

namespace Backed

theorem later (h : Backed ctx s) (step : Grows s s') :
    s.db.Meets (BackedRow s') (BackedWrite s') := by
  refine h.meets.mono ?_ ?_
  · intro row known published
    obtain ⟨u, owner, confirmed⟩ := known published
    exact ⟨u, owner, confirmed.later step⟩
  · intro u w known
    cases w with
    | published id now v => exact ⟨known.1, known.2.later step⟩
    | failed id attempts e next now => trivial

/-- The rows of older publications are still there. -/
theorem message_later {pub : Publication} (h : Backed ctx s) (step : Grows s s')
    (mem : pub ∈ s.publications) : ∃ row ∈ s'.db.table.rows, row.id = pub.rowId ∧
      ∃ now, pub.message = messageOf ctx now row := by
  obtain ⟨row, here, same, now, message⟩ := h.messages pub mem
  obtain ⟨row', here', event⟩ := step.rows row here
  exact ⟨row', here', event.id.trans same, now, message.trans (messageOf_eq event now).symm⟩

/-- A publication that has been answered. -/
theorem answered {i : ℕ} {b : Bool} {server : Rabbit.Server} {pub : Publication}
    (h : Backed ctx s) (pending : s.pending i = some pub) :
    Backed ctx { s.setAnswer i b with server } where
  meets := h.later (.setAnswer pending)
  messages := by
    intro pub' mem
    obtain ⟨j, found⟩ := List.mem_iff_getElem?.mp mem
    obtain ⟨old, known, rfl⟩ := publication_setAnswer (s := s) found
    obtain ⟨row, here, same, now, message⟩ := h.messages old (List.mem_of_getElem? known)
    refine ⟨row, here, ?_, now, ?_⟩
    · rw [same]
      split <;> rfl
    · rw [← message]
      split <;> rfl

theorem of_run {R : Regime (machine ctx)} {p : Service ctx}
    (run : Run R (Async.Pool.idle .initial) p) : Backed ctx p.shared := by
  refine invariant_of_run run ⟨meets_initial, fun _ mem => absurd mem List.not_mem_nil⟩ ?_ ?_ ?_
  · intro t w c choice p r s s' before _ _ done inv
    have grows := grows_of_perform done
    constructor
    · refine meets_of_perform backed_update (inv.later grows) ?_ done
      rintro st rfl write written
      cases st with
      | markPublished id =>
          cases written
          exact ⟨rfl, before.later grows⟩
      | markFailed id attempts e seconds =>
          cases written
          trivial
      | _ => cases written
    · intro pub mem
      rcases perform_cases done with ⟨st, rfl⟩ | ⟨connection, row, rfl⟩ | ⟨_, publications⟩
      · have same : s'.publications = s.publications := by
          obtain ⟨_, _, _, rfl⟩ | ⟨_, _, db, _, ⟨_, _, _, rfl⟩ | ⟨_, _, _, _, rfl⟩⟩ :=
            perform_query done <;> rfl
        exact inv.message_later grows (same ▸ mem)
      · obtain ⟨_, _, rfl⟩ | ⟨now, _, rfl, _⟩ := perform_publish done
        · exact inv.messages pub mem
        · rcases List.mem_append.mp mem with old | new
          · exact inv.messages pub old
          · rw [List.mem_singleton.mp new]
            obtain ⟨row', here, same⟩ := before
            exact ⟨row', here, same.id, now, (messageOf_eq same now).symm⟩
      · exact inv.message_later grows (publications ▸ mem)
  · intro e s s' _ hevent inv
    have grows := grows_of_event hevent
    obtain ⟨i, pub, b, server, pending, rfl, _⟩ | publications := event_cases hevent
    · exact inv.answered pending
    · refine ⟨meets_of_event (inv.later grows) (fun _ _ _ _ _ _ _ published => ?_) hevent, ?_⟩
      · cases published
      · intro pub mem
        exact inv.message_later grows (publications ▸ mem)
  · intro t s inv
    exact ⟨(inv.meets.disconnect t).mono (fun _ known => known) fun _ w known => by
      cases w <;> exact known, inv.messages⟩

end Backed

/-! ### Rows that are due again -/

/-- No transaction has begun later than now. -/
def Database.Started (db : Database) : Prop :=
  ∀ u tx, db.transaction u = some tx → tx.startedAt ≤ db.now

namespace Database.Started

variable {db db' : Database}

/-- Transactions end, and those that go on have begun when they did. -/
theorem of_same (h : db.Started) (now : db.now ≤ db'.now)
    (transaction : ∀ u tx, db'.transaction u = some tx →
      tx.startedAt ≤ db'.now ∨ ∃ old, db.transaction u = some old ∧ tx.startedAt = old.startedAt) :
    db'.Started := by
  intro u tx known
  rcases transaction u tx known with here | ⟨old, known', same⟩
  · exact here
  · rw [same]
    exact (h u old known').trans now

theorem update (h : db.Started) (next : Option Transaction)
    (begun : ∀ tx, next = some tx →
      tx.startedAt ≤ db.now ∨ ∃ old, db.transaction t = some old ∧ tx.startedAt = old.startedAt)
    (transaction : db'.transaction = Function.update db.transaction t next)
    (now : db'.now = db.now) : db'.Started := by
  refine h.of_same now.ge fun u tx known => ?_
  rw [transaction] at known
  by_cases same : u = t
  · subst same
    rw [Function.update_self] at known
    rw [now]
    exact begun tx known
  · rw [Function.update_of_ne same] at known
    exact .inr ⟨tx, known, rfl⟩

theorem abort (h : db.Started) (t : Tid) : (db.abort t).Started := by
  refine h.update _ (fun tx known => ?_) rfl rfl
  obtain ⟨old, running, rfl⟩ := Option.map_eq_some_iff.mp known
  exact .inr ⟨old, running, rfl⟩

theorem endTransaction (h : db.Started) (t : Tid) : (db.endTransaction t).Started :=
  h.update none (fun _ known => by cases known) rfl rfl

theorem write {w : Write} (h : db.Started) : (db.write t w).Started := by
  unfold Database.write
  split
  · rename_i tx running
    refine h.update _ (fun tx' known => ?_) rfl rfl
    cases known
    exact .inr ⟨tx, running, rfl⟩
  · exact h

theorem executed {st : Statement} {answer : Option st.Result} (h : db.Started)
    (executed : db.Executed t st answer db') : db'.Started ∧ db'.now = db.now := by
  cases executed with
  | rejected => exact ⟨h, rfl⟩
  | failed => exact ⟨h.abort t, rfl⟩
  | nested running => exact ⟨h, rfl⟩
  | begun free =>
      refine ⟨h.update _ (fun tx known => ?_) rfl rfl, rfl⟩
      cases known
      exact .inl le_rfl
  | committed running healthy => exact ⟨h.endTransaction t, rfl⟩
  | idle free => exact ⟨h, rfl⟩
  | withdrawn running aborted => exact ⟨h.endTransaction t, rfl⟩
  | rolledBack => exact ⟨h.endTransaction t, rfl⟩
  | found healthy batch =>
      unfold Database.lock
      split
      · exact ⟨h, rfl⟩
      · exact ⟨h, rfl⟩
  | marked healthy free => exact ⟨h.write, by unfold Database.write; split <;> rfl⟩
  | postponed healthy free => exact ⟨h.write, by unfold Database.write; split <;> rfl⟩

theorem nowOf_le (h : db.Started) (t : Tid) : db.nowOf t ≤ db.now := by
  unfold Database.nowOf
  split
  · rename_i tx running
    exact h t tx running
  · exact le_rfl

end Database.Started

/-- A row has not been updated later than now, and if it is not marked it is due again at most a
minute after that. -/
def TimelyRow (now : ℤ) (row : OutboxRow) : Prop :=
  row.updatedAt ≤ now ∧ (row.publishedAt = none → row.nextAttemptAt ≤ row.updatedAt + 60000000)

/-- A pending write is not in the future, and the next attempt is at most a minute after it. -/
def TimelyWrite (now : ℤ) (_ : Tid) : Write → Prop
  | .published _ writtenAt _ => writtenAt ≤ now
  | .failed _ _ _ next writtenAt => writtenAt ≤ now ∧ next ≤ writtenAt + 60000000

theorem timely_update {now : ℤ} (u : Tid) (w : Write) (row : OutboxRow) (write : TimelyWrite now u w)
    (here : TimelyRow now row) : TimelyRow now (w.onRow row) := by
  unfold Write.onRow
  split
  · cases w with
    | published id writtenAt v => exact ⟨write, fun published => by cases published⟩
    | failed id attempts e next writtenAt => exact ⟨write.1, fun _ => write.2⟩
  · exact here

/-- Every row and every pending write keeps the timeline, and no transaction begins in the
future. -/
structure Timely (s : State) : Prop where
  meets : s.db.Meets (TimelyRow s.db.now) (TimelyWrite s.db.now)
  started : s.db.Started

namespace Timely

theorem later {now : ℤ} (h : Timely s) (le : s.db.now ≤ now) :
    s.db.Meets (TimelyRow now) (TimelyWrite now) := by
  refine h.meets.mono (fun row known => ⟨known.1.trans le, known.2⟩) fun u w known => ?_
  cases w with
  | published id writtenAt v => exact le_trans known le
  | failed id attempts e next writtenAt => exact ⟨known.1.trans le, known.2⟩

theorem perform {w : ℕ} {p : Publisher} {choice : Choice} {c : Call} {r : Except String c.Result}
    (inv : Timely s) (before : Before t ⟨w, c⟩ s)
    (done : perform ctx t w p choice c s = some (r, s')) : Timely s' := by
  have after : s'.db.Started ∧ s'.db.now = s.db.now := by
    rcases perform_cases done with ⟨st, rfl⟩ | ⟨connection, row, rfl⟩ | ⟨db, _⟩
    · obtain ⟨_, _, _, rfl⟩ | ⟨_, _, db, executed, ⟨_, _, _, rfl⟩ | ⟨_, _, _, _, rfl⟩⟩ :=
        perform_query done
      · exact ⟨inv.started.abort t, rfl⟩
      · exact inv.started.executed executed
      · obtain ⟨started, now⟩ := inv.started.executed executed
        exact ⟨started.endTransaction t, now⟩
    · obtain ⟨_, _, rfl⟩ | ⟨now, _, rfl, _⟩ := perform_publish done
      · exact ⟨inv.started, rfl⟩
      · exact ⟨inv.started, rfl⟩
    · rw [db]
      exact ⟨inv.started, rfl⟩
  refine ⟨?_, after.1⟩
  rw [after.2]
  refine meets_of_perform timely_update inv.meets ?_ done
  rintro st rfl write written
  have now := inv.started.nowOf_le t
  cases st with
  | markPublished id =>
      cases written
      exact now
  | markFailed id attempts e seconds =>
      cases written
      have seconds : seconds ≤ 60 := before
      refine ⟨now, ?_⟩
      have seconds : (_ : ℤ) ≤ 60 := Int.ofNat_le.mpr seconds
      linarith
  | _ => cases written

theorem event {e : Event} (inv : Timely s) (hevent : State.event e s = some s') : Timely s' := by
  have fresh : ∀ id eventType payload occurredAt startedAt, startedAt ≤ s.db.now →
      Text.Json.string? (payload.get? "eventId") = some id.text →
      TimelyRow s.db.now (newRow id eventType payload occurredAt startedAt) := by
    intro id eventType payload occurredAt startedAt le _
    refine ⟨le, fun _ => ?_⟩
    show startedAt ≤ startedAt + 60000000
    linarith
  have meets := meets_of_event inv.meets fresh hevent
  cases e with
  | tick n =>
      cases hevent
      have le : s.db.now ≤ s.db.now + n := by linarith [Int.natCast_nonneg n]
      have later := inv.later le
      exact ⟨⟨later.rows, later.writes⟩,
        inv.started.of_same le fun u tx known => .inr ⟨tx, known, rfl⟩⟩
  | disconnect u => cases hevent; exact ⟨meets, inv.started.endTransaction u⟩
  | cut c => cases hevent; exact ⟨meets, inv.started⟩
  | insert id eventType payload occurredAt startedAt =>
      simp only [State.event] at hevent
      split at hevent
      · obtain ⟨table, _, rfl⟩ := Option.map_eq_some_iff.mp hevent
        exact ⟨meets, inv.started⟩
      · cases hevent
  | closed c =>
      obtain ⟨x, _, hevent⟩ := Option.bind_eq_some_iff.mp hevent
      obtain ⟨p, _, hevent⟩ := Option.bind_eq_some_iff.mp hevent
      split at hevent
      · cases hevent
        exact ⟨meets, inv.started⟩
      · cases hevent
  | boot w =>
      simp only [State.event] at hevent
      split at hevent
      · cases hevent
        exact ⟨meets, inv.started⟩
      · cases hevent
  | _ =>
      obtain ⟨_, _, rfl⟩ := Option.map_eq_some_iff.mp hevent
      exact ⟨meets, inv.started⟩

theorem of_run {R : Regime (machine ctx)} {p : Service ctx}
    (run : Run R (Async.Pool.idle .initial) p) : Timely p.shared := by
  refine invariant_of_run run ⟨meets_initial, fun u tx known => ?_⟩
    (fun t w c choice p r s s' before _ _ done inv => inv.perform before done)
    (fun e s s' _ hevent inv => inv.event hevent)
    fun t s inv => ⟨inv.meets.disconnect t, inv.started.endTransaction t⟩
  change none = some tx at known
  cases known

end Timely

end Outbox

end OrderPlatform
