import OrderPlatform.Async.Contract
import OrderPlatform.Outbox.Service

/-!
# What the publisher does

The two kinds of calls are followed once, from their start to their end, without any assumption on
what other calls, other processes, the broker and the database do meanwhile.

Everything that a call has to know stays true whatever anybody does: the rows of the table stay, with
their payloads, and a publication stays as it was written, with the answer that it has been given
(`Grows`).  What comes of it is where a call stands when it awaits something (`Before`): it publishes
rows of the table, and it marks a row only when the broker has confirmed a publication of its own
for that row.
-/

namespace OrderPlatform

namespace Outbox

open Async (Tid Contract Discipline Regime)

variable {ctx : PublisherContext} {t : Tid} {s s' : State}

/-! ### What one call does -/

theorem perform_of_exec {choice : Choice} {w : ℕ} {c : Call} {r : Except String c.Result}
    (h : exec ctx t choice ⟨w, c⟩ s = some (r, s')) :
    ∃ p, s.processes w = some p ∧ p.alive = true ∧ perform ctx t w p choice c s = some (r, s') := by
  obtain ⟨p, process, h⟩ := Option.bind_eq_some_iff.mp h
  by_cases alive : p.alive = true
  · rw [if_pos alive] at h
    exact ⟨p, process, alive, h⟩
  · rw [if_neg alive] at h
    cases h

section Perform

variable {w : ℕ} {p : Publisher} {choice : Choice}

/-- A statement is executed on a connection that is there, and its answer may be lost with the
connection; or it fails. -/
theorem perform_query {st : Statement} {r : Except String st.Result}
    (h : perform ctx t w p choice (.query st) s = some (r, s')) :
    (∃ e, choice = .fails e ∧ r = .error e ∧ s' = { s with db := s.db.abort t }) ∨
      (s.db.lost t = false ∧ ∃ answer db, s.db.Executed t st answer db ∧
        ((∃ ids, choice = .executes ids ∧ r = replyOf answer ∧ s' = { s with db }) ∨
          ∃ ids e, choice = .unanswered ids e ∧ r = .error e ∧
            s' = { s with db := db.disconnect t })) := by
  cases choice with
  | succeeds => cases h
  | fails e =>
      cases h
      exact .inl ⟨e, rfl, rfl, rfl⟩
  | executes ids =>
      simp only [perform] at h
      split at h
      · cases h
      · rename_i connected
        obtain ⟨⟨answer, db⟩, executed, h⟩ := Option.map_eq_some_iff.mp h
        cases h
        exact .inr ⟨Bool.eq_false_iff.mpr connected, answer, db, Database.executed_of_exec executed,
          .inl ⟨ids, rfl, rfl, rfl⟩⟩
  | unanswered ids e =>
      simp only [perform] at h
      split at h
      · cases h
      · rename_i connected
        obtain ⟨⟨answer, db⟩, executed, h⟩ := Option.map_eq_some_iff.mp h
        cases h
        exact .inr ⟨Bool.eq_false_iff.mpr connected, answer, db, Database.executed_of_exec executed,
          .inr ⟨ids, e, rfl, rfl, rfl⟩⟩
  | writes now => cases h

/-- A frame is written, or the call throws. -/
theorem perform_publish {c : ℕ} {row : OutboxRow} {r : Except String (List ℕ)}
    (h : perform ctx t w p choice (.publish c row) s = some (r, s')) :
    (∃ e, r = .error e ∧ s' = s) ∨
      ∃ now, s.live c = true ∧
        s' = { s with
          publications := s.publications ++ [⟨c, t, row.id, messageOf ctx now row, none⟩] } ∧
        r = .ok (s'.unanswered c) := by
  cases choice with
  | succeeds => cases h
  | fails e =>
      cases h
      exact .inl ⟨e, rfl, rfl⟩
  | executes ids => cases h
  | unanswered ids e => cases h
  | writes now =>
      simp only [perform] at h
      split at h
      · rename_i live
        cases h
        exact .inr ⟨now, live, rfl, rfl⟩
      · cases h
        exact .inl ⟨_, rfl, rfl⟩

/-- All publications have been confirmed when the wait succeeds. -/
theorem perform_waitForConfirms {c : ℕ} {awaited : List ℕ} {r : Except String Unit}
    (h : perform ctx t w p choice (.waitForConfirms c awaited) s = some (r, s')) :
    s' = s ∧ ((∃ e, choice = .fails e ∧ s.live c = false ∧ r = .error e) ∨
      (choice = .succeeds ∧ (∃ i ∈ awaited, s.answer i = some false) ∧ ∃ e, r = .error e) ∨
      (choice = .succeeds ∧ (∀ i ∈ awaited, s.answer i = some true) ∧ r = .ok ())) := by
  cases choice with
  | succeeds =>
      simp only [perform] at h
      split at h
      · rename_i rejected
        cases h
        refine ⟨rfl, .inr (.inl ⟨rfl, ?_, _, rfl⟩)⟩
        simpa using rejected
      · split at h
        · rename_i confirmed
          cases h
          refine ⟨rfl, .inr (.inr ⟨rfl, ?_, rfl⟩)⟩
          simpa using confirmed
        · cases h
  | fails e =>
      simp only [perform] at h
      split at h
      · cases h
      · rename_i gone
        cases h
        exact ⟨rfl, .inl ⟨e, rfl, Bool.eq_false_iff.mpr gone, rfl⟩⟩
  | executes ids => cases h
  | unanswered ids e => cases h
  | writes now => cases h

/-- The timer fires. -/
theorem perform_enter {r : Except String Unit} (h : perform ctx t w p choice .enter s = some (r, s')) :
    p.scheduled = true ∧ r = .ok () ∧
      s' = s.setProcess w { p with scheduled := false, polling := some t } := by
  cases choice with
  | succeeds =>
      simp only [perform] at h
      split at h
      · rename_i scheduled
        cases h
        exact ⟨scheduled, rfl, rfl⟩
      · cases h
  | _ => cases h

/-- The poll is over. -/
theorem perform_settled {r : Except String Unit}
    (h : perform ctx t w p choice .settled s = some (r, s')) :
    r = .ok () ∧ s' = s.setProcess w { p with scheduled := !p.shuttingDown, polling := none } := by
  cases choice with
  | succeeds =>
      cases h
      exact ⟨rfl, rfl⟩
  | _ => cases h

theorem perform_channel {r : Except String (Option ℕ)}
    (h : perform ctx t w p choice .channel s = some (r, s')) : r = .ok p.channel ∧ s' = s := by
  cases choice with
  | succeeds =>
      cases h
      exact ⟨rfl, rfl⟩
  | _ => cases h

theorem perform_connect {r : Except String ℕ}
    (h : perform ctx t w p choice .connect s = some (r, s')) :
    (∃ e, r = .error e ∧ s' = s) ∨
      (r = .ok (s.server.connect w).1 ∧ s' = { s with server := (s.server.connect w).2 }) := by
  cases choice with
  | succeeds =>
      cases h
      exact .inr ⟨rfl, rfl⟩
  | fails e =>
      cases h
      exact .inl ⟨e, rfl, rfl⟩
  | _ => cases h

/-- A channel is created, and `channel` refers to it. -/
theorem perform_createConfirmChannel {c : ℕ} {r : Except String Unit}
    (h : perform ctx t w p choice (.createConfirmChannel c) s = some (r, s')) :
    (∃ e, r = .error e ∧ s' = s) ∨
      (s.server.usable c = true ∧ r = .ok () ∧
        s' = { s.setProcess w { p with channel := some c } with
          server := s.server.updateConnection c fun x => { x with channel := true } }) := by
  cases choice with
  | succeeds =>
      simp only [perform] at h
      split at h
      · rename_i usable
        cases h
        exact .inr ⟨usable, rfl, rfl⟩
      · cases h
  | fails e =>
      cases h
      exact .inl ⟨e, rfl, rfl⟩
  | _ => cases h

theorem perform_assertExchange {c : ℕ} {r : Except String Unit}
    (h : perform ctx t w p choice (.assertExchange c) s = some (r, s')) :
    (∃ e, r = .error e ∧ s' = s) ∨
      ∃ topology, s.server.topology.declare .exchange = some topology ∧ r = .ok () ∧
        s' = { s with server := { s.server with topology } } := by
  cases choice with
  | succeeds =>
      simp only [perform] at h
      split at h
      · obtain ⟨topology, declared, h⟩ := Option.map_eq_some_iff.mp h
        cases h
        exact .inr ⟨topology, declared, rfl, rfl⟩
      · cases h
  | fails e =>
      cases h
      exact .inl ⟨e, rfl, rfl⟩
  | _ => cases h

/-- The calls that need no more than a connection to the database. -/
theorem perform_plain {c : Call} (plain : c = .acquire ∨ c = .release ∨ c = .count ∨ c = .ping)
    {r : Except String c.Result} (h : perform ctx t w p choice c s = some (r, s')) : s' = s := by
  rcases plain with rfl | rfl | rfl | rfl <;> cases choice <;> cases h <;> rfl

/-- **What a call can change.**  The calls that speak to the broker leave the database and the
publications alone. -/
theorem perform_cases {c : Call} {r : Except String c.Result}
    (h : perform ctx t w p choice c s = some (r, s')) :
    (∃ st, c = .query st) ∨ (∃ connection row, c = .publish connection row) ∨
      (s'.db = s.db ∧ s'.publications = s.publications) := by
  cases c with
  | query st => exact .inl ⟨st, rfl⟩
  | publish connection row => exact .inr (.inl ⟨connection, row, rfl⟩)
  | enter =>
      obtain ⟨_, _, rfl⟩ := perform_enter h
      exact .inr (.inr ⟨rfl, rfl⟩)
  | settled =>
      obtain ⟨_, rfl⟩ := perform_settled h
      exact .inr (.inr ⟨rfl, rfl⟩)
  | acquire => rw [perform_plain (.inl rfl) h]; exact .inr (.inr ⟨rfl, rfl⟩)
  | release => rw [perform_plain (.inr (.inl rfl)) h]; exact .inr (.inr ⟨rfl, rfl⟩)
  | count => rw [perform_plain (.inr (.inr (.inl rfl))) h]; exact .inr (.inr ⟨rfl, rfl⟩)
  | ping => rw [perform_plain (.inr (.inr (.inr rfl))) h]; exact .inr (.inr ⟨rfl, rfl⟩)
  | channel => rw [(perform_channel h).2]; exact .inr (.inr ⟨rfl, rfl⟩)
  | connect =>
      obtain ⟨_, _, rfl⟩ | ⟨_, rfl⟩ := perform_connect h
      · exact .inr (.inr ⟨rfl, rfl⟩)
      · exact .inr (.inr ⟨rfl, rfl⟩)
  | createConfirmChannel connection =>
      obtain ⟨_, _, rfl⟩ | ⟨_, _, rfl⟩ := perform_createConfirmChannel h
      · exact .inr (.inr ⟨rfl, rfl⟩)
      · exact .inr (.inr ⟨rfl, rfl⟩)
  | assertExchange connection =>
      obtain ⟨_, _, rfl⟩ | ⟨_, _, _, rfl⟩ := perform_assertExchange h
      · exact .inr (.inr ⟨rfl, rfl⟩)
      · exact .inr (.inr ⟨rfl, rfl⟩)
  | waitForConfirms connection awaited =>
      rw [(perform_waitForConfirms h).1]
      exact .inr (.inr ⟨rfl, rfl⟩)

end Perform

/-! ### What nobody takes back -/

/-- The same row, up to what updates set. -/
structure SameEvent (row row' : OutboxRow) : Prop where
  id : row'.id = row.id
  payload : row'.payload = row.payload
  eventType : row'.eventType = row.eventType

theorem SameEvent.refl (row : OutboxRow) : SameEvent row row := ⟨rfl, rfl, rfl⟩

theorem SameEvent.trans {a b c : OutboxRow} (h : SameEvent a b) (h' : SameEvent b c) :
    SameEvent a c :=
  ⟨h'.id.trans h.id, h'.payload.trans h.payload, h'.eventType.trans h.eventType⟩

theorem messageOf_eq {row row' : OutboxRow} (same : SameEvent row row') (now : ℕ) :
    messageOf ctx now row' = messageOf ctx now row := by
  simp only [messageOf, same.payload, same.eventType]

/-- The rows of a table stay. -/
def Stays (T T' : OutboxTable) : Prop := ∀ row ∈ T.rows, ∃ row' ∈ T'.rows, SameEvent row row'

namespace Stays

variable {T T' T'' : OutboxTable}

theorem refl (T : OutboxTable) : Stays T T := fun row mem => ⟨row, mem, .refl row⟩

theorem trans (h : Stays T T') (h' : Stays T' T'') : Stays T T'' := by
  intro row mem
  obtain ⟨row', mem', same⟩ := h row mem
  obtain ⟨row'', mem'', same'⟩ := h' row' mem'
  exact ⟨row'', mem'', same.trans same'⟩

theorem apply (T : OutboxTable) (w : Write) : Stays T (T.apply w) := fun row mem =>
  ⟨w.onRow row, List.mem_map_of_mem mem, by simp, by simp, by simp⟩

theorem applyAll (ws : List Write) : ∀ T : OutboxTable, Stays T (T.applyAll ws) := by
  induction ws with
  | nil => exact .refl
  | cons w rest ih => exact fun T => (apply T w).trans (ih (T.apply w))

theorem insert {row : OutboxRow} (h : T.insert row = some T') : Stays T T' := by
  unfold OutboxTable.insert at h
  split at h
  · cases h
    exact fun old mem => ⟨old, List.mem_cons_of_mem _ mem, .refl old⟩
  · cases h

end Stays

theorem Database.write_table {w : Write} {db : Database} :
    (db.write t w).table = db.table ∨ (db.write t w).table = db.table.apply w := by
  unfold Database.write
  split
  · exact .inl rfl
  · exact .inr rfl

theorem Database.lock_table {ids : List Uuid} {db : Database} :
    (db.lock t ids).table = db.table := by
  unfold Database.lock
  split <;> rfl

/-- No statement takes a row away. -/
theorem stays_of_executed {db db' : Database} {st : Statement} {answer : Option st.Result}
    (h : db.Executed t st answer db') : Stays db.table db'.table := by
  have written : ∀ w : Write, Stays db.table (db.write t w).table := by
    intro w
    have table : (db.write t w).table = db.table ∨ (db.write t w).table = db.table.apply w :=
      Database.write_table
    rcases table with same | applied
    · rw [same]
      exact .refl _
    · rw [applied]
      exact .apply _ w
  cases h with
  | committed running healthy => exact .applyAll _ _
  | marked healthy free => exact written _
  | postponed healthy free => exact written _
  | found healthy batch =>
      rw [Database.lock_table]
      exact .refl _
  | _ => exact .refl _

/-- A publication stays as it was written, and its answer stays. -/
structure Publication.Later (pub pub' : Publication) : Prop where
  same : pub' = { pub with answer := pub'.answer }
  answer : ∀ b, pub.answer = some b → pub'.answer = some b

theorem Publication.Later.refl (pub : Publication) : pub.Later pub := ⟨rfl, fun _ h => h⟩

theorem Publication.Later.trans {a b c : Publication} (h : a.Later b) (h' : b.Later c) :
    a.Later c := by
  refine ⟨?_, fun x known => h'.answer x (h.answer x known)⟩
  rw [h'.same, h.same]

/-- The publications when one of them has been answered. -/
theorem publication_setAnswer {i j : ℕ} {b : Bool} {pub' : Publication}
    (h : (s.setAnswer i b).publications[j]? = some pub') :
    ∃ old, s.publications[j]? = some old ∧
      pub' = if i = j then { old with answer := some b } else old := by
  have h : (s.publications.modify i fun pub => { pub with answer := some b })[j]? = some pub' := h
  rw [List.getElem?_modify] at h
  obtain ⟨old, found, same⟩ := Option.map_eq_some_iff.mp h
  exact ⟨old, found, same.symm⟩

/-- What the broker can handle. -/
theorem pending_eq {i : ℕ} {pub : Publication} (h : s.pending i = some pub) :
    s.publications[i]? = some pub ∧ pub.answer = none ∧
      s.server.accepts pub.connection = true ∧ s.server.topology.exchange = true := by
  obtain ⟨pub', found, h⟩ := Option.bind_eq_some_iff.mp h
  split at h
  · rename_i waiting
    cases h
    simp only [Bool.and_eq_true, Option.isNone_iff_eq_none] at waiting
    exact ⟨found, waiting.1.1, waiting.1.2, waiting.2⟩
  · cases h

/-- Rows and publications stay. -/
structure Grows (s s' : State) : Prop where
  rows : Stays s.db.table s'.db.table
  publications : ∀ (i : ℕ) (pub : Publication), s.publications[i]? = some pub →
    ∃ pub', s'.publications[i]? = some pub' ∧ Publication.Later pub pub'

namespace Grows

theorem refl (s : State) : Grows s s := ⟨.refl _, fun _ pub h => ⟨pub, h, .refl pub⟩⟩

theorem trans {s'' : State} (h : Grows s s') (h' : Grows s' s'') : Grows s s'' := by
  refine ⟨h.rows.trans h'.rows, fun i pub known => ?_⟩
  obtain ⟨pub', known', later⟩ := h.publications i pub known
  obtain ⟨pub'', known'', later'⟩ := h'.publications i pub' known'
  exact ⟨pub'', known'', later.trans later'⟩

/-- The publications are left alone. -/
theorem of_rows (rows : Stays s.db.table s'.db.table)
    (publications : s'.publications = s.publications) : Grows s s' := by
  refine ⟨rows, fun i pub known => ⟨pub, ?_, .refl pub⟩⟩
  rw [publications]
  exact known

theorem of_same (db : s'.db.table = s.db.table) (publications : s'.publications = s.publications) :
    Grows s s' := by
  refine of_rows ?_ publications
  rw [db]
  exact .refl _

/-- The broker answers. -/
theorem setAnswer {i : ℕ} {b : Bool} {server : Rabbit.Server} {pub : Publication}
    (pending : s.pending i = some pub) : Grows s { s.setAnswer i b with server } := by
  obtain ⟨found, waiting, _⟩ := pending_eq pending
  refine ⟨.refl _, fun j old known => ?_⟩
  show ∃ pub', (s.publications.modify i _)[j]? = some pub' ∧ _
  rw [List.getElem?_modify, known]
  by_cases same : i = j
  · subst same
    obtain rfl := Option.some.inj (found.symm.trans known)
    refine ⟨{ pub with answer := some b }, by simp, rfl, fun x answered => ?_⟩
    rw [waiting] at answered
    cases answered
  · exact ⟨old, by simp [same], .refl old⟩

end Grows

/-- **No call takes anything back.** -/
theorem grows_of_perform {w : ℕ} {p : Publisher} {choice : Choice} {c : Call}
    {r : Except String c.Result} (h : perform ctx t w p choice c s = some (r, s')) : Grows s s' := by
  rcases perform_cases h with ⟨st, rfl⟩ | ⟨connection, row, rfl⟩ | ⟨db, publications⟩
  · obtain ⟨_, _, _, rfl⟩ | ⟨_, _, db, executed, ⟨_, _, _, rfl⟩ | ⟨_, _, _, _, rfl⟩⟩ :=
      perform_query h
    · exact .of_same rfl rfl
    · exact .of_rows (stays_of_executed executed) rfl
    · have stays : Stays s.db.table db.table := stays_of_executed executed
      exact .of_rows stays rfl
  · obtain ⟨_, _, rfl⟩ | ⟨now, _, rfl, _⟩ := perform_publish h
    · exact .refl _
    · refine ⟨.refl _, fun i pub known => ⟨pub, ?_, .refl pub⟩⟩
      obtain ⟨bound, _⟩ := List.getElem?_eq_some_iff.mp known
      exact (List.getElem?_append_left bound).trans known
  · exact .of_same (by rw [db]) publications

/-- What happens beside the calls answers a publication, or leaves the publications alone. -/
theorem event_cases {e : Event} (h : State.event e s = some s') :
    (∃ i pub b server, s.pending i = some pub ∧ s' = { s.setAnswer i b with server } ∧
        (b = true → e = .confirm i ∧ server = place pub.message s.server)) ∨
      s'.publications = s.publications := by
  cases e with
  | confirm i =>
      obtain ⟨pub, pending, rfl⟩ := Option.map_eq_some_iff.mp h
      exact .inl ⟨i, pub, true, _, pending, rfl, fun _ => ⟨rfl, rfl⟩⟩
  | reject i stored =>
      obtain ⟨pub, pending, rfl⟩ := Option.map_eq_some_iff.mp h
      exact .inl ⟨i, pub, false, _, pending, rfl, fun rejected => by cases rejected⟩
  | insert id eventType payload occurredAt startedAt =>
      simp only [State.event] at h
      split at h
      · obtain ⟨_, _, rfl⟩ := Option.map_eq_some_iff.mp h
        exact .inr rfl
      · cases h
  | declare d =>
      obtain ⟨_, _, rfl⟩ := Option.map_eq_some_iff.mp h
      exact .inr rfl
  | closed c =>
      obtain ⟨x, _, h⟩ := Option.bind_eq_some_iff.mp h
      obtain ⟨p, _, h⟩ := Option.bind_eq_some_iff.mp h
      split at h
      · cases h
        exact .inr rfl
      · cases h
  | boot w =>
      simp only [State.event] at h
      split at h
      · cases h
        exact .inr rfl
      · cases h
  | die w =>
      obtain ⟨_, _, rfl⟩ := Option.map_eq_some_iff.mp h
      exact .inr rfl
  | terminate w =>
      obtain ⟨_, _, rfl⟩ := Option.map_eq_some_iff.mp h
      exact .inr rfl
  | tick n => cases h; exact .inr rfl
  | disconnect u => cases h; exact .inr rfl
  | cut c => cases h; exact .inr rfl

/-- Nothing that happens beside the calls takes anything back. -/
theorem grows_of_event {e : Event} (h : State.event e s = some s') : Grows s s' := by
  obtain ⟨i, pub, b, server, pending, rfl, _⟩ | publications := event_cases h
  · exact .setAnswer pending
  refine .of_rows ?_ publications
  cases e with
  | insert id eventType payload occurredAt startedAt =>
      simp only [State.event] at h
      split at h
      · obtain ⟨table, inserted, rfl⟩ := Option.map_eq_some_iff.mp h
        exact .insert inserted
      · cases h
  | closed c =>
      obtain ⟨x, _, h⟩ := Option.bind_eq_some_iff.mp h
      obtain ⟨p, _, h⟩ := Option.bind_eq_some_iff.mp h
      split at h
      · cases h
        exact .refl _
      · cases h
  | boot w =>
      simp only [State.event] at h
      split at h
      · cases h
        exact .refl _
      · cases h
  | tick n => cases h; exact .refl _
  | disconnect u => cases h; exact .refl _
  | cut c => cases h; exact .refl _
  | _ =>
      obtain ⟨_, _, rfl⟩ := Option.map_eq_some_iff.mp h
      exact .refl _

/-! ### Where a call stands -/

/-- The table has this row. -/
def Known (row : OutboxRow) (s : State) : Prop := ∃ row' ∈ s.db.table.rows, SameEvent row row'

theorem Known.later {row : OutboxRow} (h : Known row s) (step : Grows s s') : Known row s' := by
  obtain ⟨row', mem, same⟩ := h
  obtain ⟨row'', mem', same'⟩ := step.rows row' mem
  exact ⟨row'', mem', same.trans same'⟩

/-- What a session reads are rows of the table. -/
theorem known_of_view {row : OutboxRow} (mem : row ∈ (s.db.view t).rows) : Known row s := by
  have written : ∀ (ws : List Write) (T : OutboxTable) (row : OutboxRow),
      row ∈ (T.applyAll ws).rows → ∃ row' ∈ T.rows, SameEvent row row' := by
    intro ws
    induction ws with
    | nil => exact fun T row mem => ⟨row, mem, .refl row⟩
    | cons w rest ih =>
        intro T row mem
        obtain ⟨updated, mem, same⟩ := ih (T.apply w) row mem
        obtain ⟨old, here, rfl⟩ := List.mem_map.mp mem
        have updates : SameEvent (w.onRow old) old := ⟨by simp, by simp, by simp⟩
        exact ⟨old, here, same.trans updates⟩
  unfold Database.view at mem
  split at mem
  · exact written _ _ row mem
  · exact ⟨row, mem, .refl row⟩

/-- The broker has confirmed a publication of this call for a row. -/
def Confirmed (t : Tid) (id : Uuid) (s : State) : Prop :=
  ∃ pub ∈ s.publications, pub.session = t ∧ pub.rowId = id ∧ pub.answer = some true

theorem Confirmed.later {id : Uuid} (h : Confirmed t id s) (step : Grows s s') :
    Confirmed t id s' := by
  obtain ⟨pub, mem, session, rowId, answer⟩ := h
  obtain ⟨i, found⟩ := List.mem_iff_getElem?.mp mem
  obtain ⟨pub', found', later⟩ := step.publications i pub found
  refine ⟨pub', List.mem_of_getElem? found', ?_, ?_, later.answer true answer⟩
  · rw [later.same]
    exact session
  · rw [later.same]
    exact rowId

/-- What is true when a call awaits something. -/
def Before (t : Tid) (o : Operation) (s : State) : Prop :=
  match o.call with
  | .publish _ row => Known row s
  | .query (.markPublished id) => Confirmed t id s
  | .query (.markFailed _ _ _ seconds) => seconds ≤ 60
  | _ => True

/-! ### The discipline -/

/-- What all calls agree on: nothing is taken back. -/
def discipline (ctx : PublisherContext) : Discipline (machine ctx) where
  inv := fun _ => True
  fresh := fun _ _ => True
  before := Before
  rely := fun _ => Grows
  rely_refl := fun _ => .refl
  rely_trans := Grows.trans
  fresh_rely := fun _ _ => trivial

variable {R : Regime (machine ctx)}

theorem environment : (discipline ctx).Environment R where
  event := fun _ _ hevent => ⟨trivial, fun _ => grows_of_event hevent⟩
  crash := fun _ _ => ⟨trivial, fun _ _ => .of_same rfl rfl⟩

section Rules

variable {α : Type} {Q : α → State → Prop} {E : String → State → Prop} {w : ℕ}

theorem guar_of_exec {c : Call} {choice : Choice} {r : Except String c.Result}
    (h : exec ctx t choice ⟨w, c⟩ s = some (r, s')) : (discipline ctx).Tolerable t s s' := by
  obtain ⟨p, _, _, done⟩ := perform_of_exec h
  exact ⟨trivial, fun _ _ => grows_of_perform done⟩

theorem holds_call {c : Call} {f : c.Result → (machine ctx).Task α}
    (before : ∀ s', Grows s s' → Before t ⟨w, c⟩ s')
    (next : ∀ s' choice p v s'', Grows s s' → perform ctx t w p choice c s' = some (.ok v, s'') →
      ((discipline ctx).contract R t).Holds Q E (f v) s'')
    (failed : ∀ s' e, Grows s s' → E e s') :
    ((discipline ctx).contract R t).Holds Q E ((call w c).bind f) s := by
  intro s₁ rely₁
  refine ⟨before s₁ rely₁.2, fun choice r s₂ _ hexec => ⟨guar_of_exec hexec, ?_⟩⟩
  obtain ⟨p, _, _, done⟩ := perform_of_exec hexec
  cases r with
  | ok v => exact next s₁ choice p v s₂ rely₁.2 done
  | error e =>
      exact fun s' step => failed s' e ((rely₁.2.trans (grows_of_perform done)).trans step.2)

/-- What nobody takes back is kept beside a task. -/
theorem holds_beside {P : State → Prop} {task : (machine ctx).Task α}
    (h : ((discipline ctx).contract R t).Holds Q E task s) (here : P s)
    (stable : ∀ s s', Grows s s' → P s → P s') :
    ((discipline ctx).contract R t).Holds (fun a s => Q a s ∧ P s) (fun e s => E e s ∧ P s) task s := by
  induction task generalizing s with
  | done a => exact fun s' step => ⟨h s' step, stable s s' step.2 here⟩
  | thrown e => exact fun s' step => ⟨h s' step, stable s s' step.2 here⟩
  | await o k ih =>
      intro s' step
      obtain ⟨before, next⟩ := h s' step
      refine ⟨before, fun choice r s'' allowed hexec => ?_⟩
      obtain ⟨guar, rest⟩ := next choice r s'' allowed hexec
      -- there is always another call to vouch for it
      have grows : Grows s' s'' := guar.2 (t + 1) (Nat.succ_ne_self t)
      exact ⟨guar, ih r rest (stable s' s'' grows (stable s s' step.2 here))⟩
  | either p q ihp ihq => exact ⟨ihp h.1 here, ihq h.2 here⟩
  | pending => trivial

/-- The calls about whose moment nothing is to be known. -/
def Unconditional (o : Operation) : Prop := ∀ t s, Before t o s

/-- A task of such calls keeps what nobody takes back. -/
theorem holds_plain {P : State → Prop} {task : (machine ctx).Task α} (only : task.Only Unconditional)
    (here : P s) (stable : ∀ s s', Grows s s' → P s → P s') :
    ((discipline ctx).contract R t).Holds (fun _ => P) (fun _ => P) task s := by
  refine Contract.Holds.only only here (fun s s' step => stable s s' step.2) ?_
  rintro ⟨w, c⟩ s plain known
  refine ⟨plain t s, fun choice r s' _ hexec => ⟨guar_of_exec hexec, ?_⟩⟩
  obtain ⟨p, _, _, done⟩ := perform_of_exec hexec
  exact stable s s' (grows_of_perform done) known

theorem call_unconditional {c : Call} (plain : ∀ t s, Before t ⟨w, c⟩ s) :
    Async.Program.Only Unconditional (call w c) := by
  refine ⟨plain, fun r => ?_⟩
  cases r with
  | ok v => trivial
  | error e => trivial

theorem connectRabbit_unconditional : (connectRabbit w).Only Unconditional := by
  refine (call_unconditional (c := .channel) fun _ _ => trivial).bind fun channel => ?_
  cases channel with
  | some c => trivial
  | none =>
      refine (call_unconditional (c := .connect) fun _ _ => trivial).bind fun connection => ?_
      refine (call_unconditional (c := .createConfirmChannel connection) fun _ _ => trivial).bind
        fun _ => ?_
      exact (call_unconditional (c := .assertExchange connection) fun _ _ => trivial).bind
        fun _ => trivial

end Rules

/-! ### A poll -/

section Poll

variable {w : ℕ} {row : OutboxRow}

/-- **A publication that has been waited for is confirmed.** -/
theorem holds_publish (known : Known row s) :
    ((discipline ctx).contract R t).Holds (fun _ => Confirmed t row.id) (fun _ _ => True)
      (publish w row) s := by
  refine Contract.Holds.chain ((holds_plain connectRabbit_unconditional known
    fun s s' step known => known.later step).mono (fun _ _ known => known) fun _ _ _ => trivial)
      ⟨trivial, .refl s⟩ ?_
  intro c s₁ known _
  refine holds_call (fun s' step => known.later step) ?_ fun _ _ _ => trivial
  intro s₂ choice p (awaited : List ℕ) s₃ _ done
  obtain ⟨_, impossible, _⟩ | ⟨now, _, written, reply⟩ := perform_publish done
  · cases impossible
  -- the new publication is the last one, and it is among those that are waited for
  obtain ⟨i, own, mem⟩ : ∃ i, s₃.publications[i]? =
      some ⟨c, t, row.id, messageOf ctx now row, none⟩ ∧ i ∈ awaited := by
    refine ⟨s₂.publications.length, ?_, ?_⟩
    · rw [written]
      simp
    · rw [Except.ok.inj reply, written]
      simp [State.unanswered]
  rw [← Async.Program.bind_done_right (call w (.waitForConfirms c awaited))]
  refine holds_call (fun _ _ => trivial) ?_ fun _ _ _ => trivial
  intro s₄ choice p _ s₅ grows done
  obtain ⟨rfl, ⟨_, _, _, impossible⟩ | ⟨_, _, _, impossible⟩ | ⟨_, confirmed, _⟩⟩ :=
    perform_waitForConfirms done
  · cases impossible
  · cases impossible
  have here : Confirmed t row.id s₅ := by
    obtain ⟨pub, found, later⟩ := grows.publications i _ own
    have answer : s₅.answer i = some true := confirmed i mem
    simp only [State.answer, found, Option.bind_some] at answer
    refine ⟨pub, List.mem_of_getElem? found, ?_, ?_, answer⟩
    · rw [later.same]
    · rw [later.same]
  exact fun s₆ step => here.later step.2

theorem holds_publishRow (known : Known row s) :
    ((discipline ctx).contract R t).Holds (fun _ _ => True) (fun _ _ => True)
      (publishRow w row) s := by
  refine Contract.Holds.attempt (Contract.Holds.chain ((holds_publish known).mono
    (fun _ _ confirmed => confirmed) ?_) ⟨trivial, .refl s⟩ ?_) ⟨trivial, .refl s⟩
  · intro e s₁ _ _
    rw [← Async.Program.bind_done_right (query w _)]
    exact holds_call (fun _ _ => backoffSeconds_le _) (fun _ _ _ _ _ _ _ _ _ => trivial)
      fun _ _ _ => trivial
  · intro _ s₁ confirmed _
    rw [← Async.Program.bind_done_right (query w _)]
    refine holds_call (fun s' step => confirmed.later step) (fun _ _ _ _ _ _ _ _ _ => trivial) ?_
    intro s₂ e _ _
    rw [← Async.Program.bind_done_right (query w _)]
    exact holds_call (fun _ _ => backoffSeconds_le _) (fun _ _ _ _ _ _ _ _ _ => trivial)
      fun _ _ _ => trivial

theorem holds_publishRows (rows : List OutboxRow) :
    ∀ {s : State}, (∀ row ∈ rows, Known row s) →
      ((discipline ctx).contract R t).Holds (fun _ _ => True) (fun _ _ => True)
        (publishRows w rows) s := by
  induction rows with
  | nil => exact fun _ _ _ => trivial
  | cons row rest ih =>
      intro s known
      have stable : ∀ s s', Grows s s' → (∀ row ∈ rest, Known row s) → ∀ row ∈ rest, Known row s' :=
        fun s s' step known row mem => (known row mem).later step
      refine Contract.Holds.chain ((holds_beside (holds_publishRow (known row List.mem_cons_self))
        (fun row mem => known row (List.mem_cons_of_mem _ mem)) stable).mono
          (fun _ _ both => both.2) fun _ _ _ => trivial) ⟨trivial, .refl s⟩ ?_
      exact fun _ s₁ known _ => ih known

/-- A statement about whose moment nothing is to be known. -/
theorem holds_query {st : Statement} (plain : ∀ t s, Before t ⟨w, .query st⟩ s) :
    ((discipline ctx).contract R t).Holds (fun _ _ => True) (fun _ _ => True) (query w st) s := by
  rw [← Async.Program.bind_done_right (query w st)]
  exact holds_call (fun s' _ => plain t s') (fun _ _ _ _ _ _ _ _ _ => trivial) fun _ _ _ => trivial

theorem holds_pollBatch {limit : ℕ} :
    ((discipline ctx).contract R t).Holds (fun _ _ => True) (fun _ _ => True)
      (pollBatch w limit) s := by
  refine holds_call (c := .query .begin) (fun _ _ => trivial) ?_ fun _ _ _ => trivial
  intro _ _ _ _ s₁ _ _
  refine holds_call (c := .query (.selectBatch limit)) (fun _ _ => trivial) ?_ fun _ _ _ => trivial
  intro s₂ choice p (rows : List OutboxRow) s₃ _ done
  have known : ∀ row ∈ rows, Known row s₃ := by
    have grows := grows_of_perform done
    obtain ⟨_, _, impossible, _⟩ |
      ⟨_, answer, db, executed, ⟨_, _, reply, _⟩ | ⟨_, _, _, impossible, _⟩⟩ := perform_query done
    · cases impossible
    · cases executed with
      | rejected => cases reply
      | failed => cases reply
      | found healthy batch =>
          obtain rfl := Except.ok.inj reply
          exact fun row mem => (known_of_view (batch.due row mem).1).later grows
    · cases impossible
  refine (holds_publishRows rows known).chain ⟨trivial, .refl _⟩ ?_
  exact fun _ _ _ _ => holds_query fun _ _ => trivial

theorem holds_pollOnce {limit : ℕ} :
    ((discipline ctx).contract R t).Holds (fun _ _ => True) (fun _ _ => True)
      (pollOnce w limit) s := by
  refine holds_call (c := .acquire) (fun _ _ => trivial) ?_ fun _ _ _ => trivial
  intro _ _ _ _ s₁ _ _
  have released : ∀ s, ((discipline ctx).contract R t).Holds (fun _ _ => True) (fun _ _ => True)
      ((call w .release).bind fun _ =>
        Async.Program.attempt (refreshUnpublishedGauge w) fun _ => return ()) s := by
    intro s
    refine holds_call (c := .release) (fun _ _ => trivial) ?_ fun _ _ _ => trivial
    intro _ _ _ _ s₂ _ _
    exact Contract.Holds.attempt (holds_call (c := .count) (fun _ _ => trivial)
      (fun _ _ _ _ _ _ _ _ _ => trivial) fun _ _ _ _ _ _ => trivial) ⟨trivial, .refl _⟩
  have undone : ∀ s, ((discipline ctx).contract R t).Holds (fun _ _ => True) (fun _ _ => True)
      (query w .rollback) s := fun s => holds_query fun _ _ => trivial
  refine Contract.Holds.ensuring ((Contract.Holds.attempt (holds_pollBatch.mono (fun _ _ _ => trivial)
    fun _ s₂ _ _ => undone s₂) ⟨trivial, .refl _⟩).mono ?_ ?_) ⟨trivial, .refl _⟩
  · exact fun _ s _ _ => released s
  · exact fun _ s _ _ => released s

theorem holds_schedulePoll {limit : ℕ} :
    ((discipline ctx).contract R t).Holds (fun _ _ => True) (fun _ _ => True)
      (schedulePoll w limit) s := by
  refine holds_call (c := .enter) (fun _ _ => trivial) ?_ fun _ _ _ => trivial
  intro _ _ _ _ s₁ _ _
  have ended : ∀ s, ((discipline ctx).contract R t).Holds (fun _ _ => True) (fun _ _ => True)
      (call w .settled) s := by
    intro s
    rw [← Async.Program.bind_done_right (call w .settled)]
    exact holds_call (fun _ _ => trivial) (fun _ _ _ _ _ _ _ _ _ => trivial) fun _ _ _ => trivial
  have polled : ((discipline ctx).contract R t).Holds (fun _ _ => True) (fun _ _ => True)
      ((pollOnce w limit).bind fun _ => .done (none : Option Readiness)) s₁ :=
    holds_pollOnce.chain ⟨trivial, .refl _⟩ fun _ _ _ _ _ _ => trivial
  refine Contract.Holds.ensuring (polled.mono ?_ ?_) ⟨trivial, .refl _⟩
  · exact fun _ s _ _ => ended s
  · exact fun _ s _ _ => ended s

end Poll

theorem succeeds_unconditional {α : Type} {p : Task α} (only : p.Only Unconditional) :
    (succeeds p).Only Unconditional :=
  Async.Program.Only.attempt (only.bind fun _ => trivial) fun _ => trivial

theorem healthReady_unconditional (w : ℕ) : (healthReady w).Only Unconditional := by
  refine Async.Program.Only.bind
    (succeeds_unconditional (call_unconditional (c := .ping) fun _ _ => trivial)) fun _ => ?_
  exact Async.Program.Only.bind (succeeds_unconditional connectRabbit_unconditional) fun _ => trivial

/-! ### Runs -/

/-- **The calls keep the discipline**, in every regime. -/
theorem handles : (discipline ctx).Handles R (handler ctx) (fun _ _ _ _ => True)
    fun _ _ _ _ => True := by
  intro t request s _ _
  cases request with
  | poll w => exact holds_schedulePoll
  | ready w =>
      exact holds_plain (P := fun _ => True) (healthReady_unconditional w) trivial
        fun _ _ _ _ => trivial

/-- The runs of a regime. -/
abbrev Run (R : Regime (machine ctx)) (p q : Service ctx) : Prop :=
  Async.Pool.Steps R (handler ctx) p q

theorem sound_of_run {p : Service ctx} (run : Run R (Async.Pool.idle .initial) p) :
    (discipline ctx).Sound R (fun _ _ _ _ => True) (fun _ _ _ _ => True) p :=
  Discipline.Sound.steps (Discipline.sound_idle trivial fun _ => trivial) environment handles run

/-- **An invariant of all runs from the start.** -/
theorem invariant_of_run {I : State → Prop} {p : Service ctx}
    (run : Run R (Async.Pool.idle .initial) p) (initially : I .initial)
    (advance : ∀ t w c choice p r s s', Before t ⟨w, c⟩ s → R.advance t choice ⟨w, c⟩ s →
      s.processes w = some p → perform ctx t w p choice c s = some (r, s') → I s → I s')
    (event : ∀ e s s', R.event e s → State.event e s = some s' → I s → I s')
    (crash : ∀ t s, I s → I { s with db := s.db.disconnect t }) : I p.shared :=
  Discipline.Sound.invariant (D := discipline ctx) (Q := fun _ _ _ _ => True)
    (E := fun _ _ _ _ => True) (Discipline.sound_idle trivial fun _ => trivial) environment handles
    initially
    (fun t c o s r s' _ before allowed hexec here => by
      obtain ⟨p, process, _, done⟩ := perform_of_exec hexec
      exact advance t o.process o.call c p r s s' before allowed process done here)
    (fun e s s' _ allowed hevent here => event e s s' allowed hevent here)
    (fun t s _ _ here => crash t s here) run

/-- Nothing is taken back in a run. -/
theorem grows_of_run {p q : Service ctx} (run : Run R p q) : Grows p.shared q.shared := by
  induction run with
  | refl => exact .refl _
  | tail _ step ih =>
      refine ih.trans ?_
      rcases Async.Pool.step_cases step with ⟨_, _, _, rfl⟩ |
        ⟨t, request, choice, o, k, r, s, _, _, hexec, rfl⟩ | ⟨_, _, _, _, _, _, _, rfl⟩ |
        ⟨e, s, _, hevent, rfl⟩ | ⟨_, _, _, _, _, _, rfl⟩
      · exact .refl _
      · obtain ⟨p, _, _, done⟩ := perform_of_exec hexec
        exact grows_of_perform done
      · exact .refl _
      · exact grows_of_event hevent
      · exact .of_same rfl rfl

/-- The regime of all runs. -/
def unrestricted (ctx : PublisherContext) : Regime (machine ctx) where
  advance := fun _ _ _ _ => True
  event := fun _ _ => True
  crash := fun _ _ => True

instance decidableUnrestrictedAdvance (t : Tid) (c : Choice) (o : Operation) (s : State) :
    Decidable ((unrestricted ctx).advance t c o s) := .isTrue trivial

instance decidableUnrestrictedEvent (e : Event) (s : State) :
    Decidable ((unrestricted ctx).event e s) := .isTrue trivial

instance decidableUnrestrictedCrash (t : Tid) (s : State) :
    Decidable ((unrestricted ctx).crash t s) := .isTrue trivial

end Outbox

end OrderPlatform
