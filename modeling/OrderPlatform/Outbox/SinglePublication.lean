import OrderPlatform.Async.Schedule
import OrderPlatform.Outbox.Confirmation

/-!
# The calls of a steady run

A poll is followed once more, now with everything that a steady run leaves to it: its own
transaction, its locks, and the answers to what it has published (`Rely`).  Between two statements
about rows a poll has dealt with all its publications: those that have been confirmed belong to rows
that its transaction has marked, and it holds the locks on the rows that it has still to publish
(`Stage`).
-/

namespace OrderPlatform

namespace Outbox

open Async (Tid Contract Discipline Regime)

variable {ctx : PublisherContext} {t u : Tid} {s s' : State} {w : ℕ}

/-! ### Calls that do not matter to the others -/

/-- Neither a statement, nor a publication, nor the beginning or the end of a poll. -/
def Call.Quiet : Call → Prop
  | .query _ => False
  | .publish _ _ => False
  | .enter => False
  | .settled => False
  | _ => True

/-- **What a quiet call does, anybody else may do**: so the caller tolerates it, too. -/
theorem rely_of_quiet {p : Publisher} {c : Call} {choice : Choice} {r : Except String c.Result}
    (quiet : c.Quiet) (inv : Wired s ∧ Exclusive s) (standing : Standing t ⟨w, c⟩ s)
    (process : s.processes w = some p) (done : perform ctx t w p choice c s = some (r, s')) :
    Rely t s s' := by
  have other : perform ctx (t + 1) w p choice c s = some (r, s') := by
    cases c <;> first | exact quiet.elim | (cases choice <;> exact done)
  have theirs : Standing (t + 1) ⟨w, c⟩ s := by
    cases c <;> first | exact quiet.elim | exact standing
  have allowed : (steady ctx).advance (t + 1) choice ⟨w, c⟩ s := by
    cases c <;> first | exact quiet.elim | (cases choice <;> trivial)
  exact (respects_of_perform inv theirs allowed process other).2 t (Nat.succ_ne_self t).symm

section Rules

variable {α : Type} {Q : α → State → Prop} {E : String → State → Prop}

/-- One call, from what is true before it to what is true after it. -/
theorem steady_call {c : Call} {f : c.Result → (machine ctx).Task α}
    (standing : ∀ s', Rely t s s' → Wired s' ∧ Exclusive s' → Standing t ⟨w, c⟩ s')
    (next : ∀ s' choice p v s'', Rely t s s' → Wired s' ∧ Exclusive s' →
      (steady ctx).advance t choice ⟨w, c⟩ s' → s'.processes w = some p →
      perform ctx t w p choice c s' = some (.ok v, s'') → Respects t s' s'' →
      ((steadyDiscipline ctx).contract (steady ctx) t).Holds Q E (f v) s'')
    (failed : ∀ s' choice p e s'', Rely t s s' → Wired s' ∧ Exclusive s' →
      (steady ctx).advance t choice ⟨w, c⟩ s' → s'.processes w = some p →
      perform ctx t w p choice c s' = some (.error e, s'') → Respects t s' s'' →
      ∀ s''', Rely t s'' s''' → E e s''') :
    ((steadyDiscipline ctx).contract (steady ctx) t).Holds Q E ((call w c).bind f) s := by
  rintro s₁ ⟨inv, step⟩
  have here := standing s₁ step inv
  refine ⟨here, fun choice r s₂ allowed hexec => ?_⟩
  obtain ⟨p, process, _, done⟩ := perform_of_exec hexec
  have respects := respects_of_perform inv here allowed process done
  refine ⟨respects, ?_⟩
  cases r with
  | ok v => exact next s₁ choice p v s₂ step inv allowed process done respects
  | error e =>
      exact fun s₃ after => failed s₁ choice p e s₂ step inv allowed process done respects s₃ after.2

/-- A quiet call keeps what a steady run leaves to its caller. -/
theorem steady_quiet {P : State → Prop} {c : Call} {f : c.Result → (machine ctx).Task α}
    (quiet : c.Quiet) (here : P s) (stable : ∀ s s', Rely t s s' → P s → P s')
    (standing : ∀ s', P s' → Standing t ⟨w, c⟩ s')
    (next : ∀ s' choice p v s'', P s' → Wired s' ∧ Exclusive s' → s'.processes w = some p →
      perform ctx t w p choice c s' = some (.ok v, s'') → P s'' → Wired s'' ∧ Exclusive s'' →
      ((steadyDiscipline ctx).contract (steady ctx) t).Holds Q E (f v) s'')
    (failed : ∀ e s', P s' → E e s') :
    ((steadyDiscipline ctx).contract (steady ctx) t).Holds Q E ((call w c).bind f) s := by
  refine steady_call (fun s' step _ => standing s' (stable s s' step here)) ?_ ?_
  · intro s₁ choice p v s₂ step inv _ process done respects
    have known := stable s s₁ step here
    exact next s₁ choice p v s₂ known inv process done
      (stable s₁ s₂ (rely_of_quiet quiet inv (standing s₁ known) process done) known) respects.1
  · intro s₁ choice p e s₂ step inv _ process done _ s₃ after
    have known := stable s s₁ step here
    exact failed e s₃ (stable s₂ s₃ after
      (stable s₁ s₂ (rely_of_quiet quiet inv (standing s₁ known) process done) known))

/-- The channel that a call gets is one of its process. -/
theorem steady_connectRabbit {P : State → Prop} (here : P s)
    (stable : ∀ s s', Rely t s s' → P s → P s') :
    ((steadyDiscipline ctx).contract (steady ctx) t).Holds (fun c s => P s ∧ Owned w c s)
      (fun _ => P) (connectRabbit w) s := by
  have both : ∀ c s s', Rely t s s' → P s ∧ Owned w c s → P s' ∧ Owned w c s' :=
    fun c s s' step known => ⟨stable s s' step known.1, step.owned w c known.2⟩
  refine steady_quiet (c := .channel) trivial here stable (fun _ _ => trivial) ?_ fun _ _ h => h
  intro s₁ choice p v s₂ known inv process done _ _
  obtain ⟨reply, rfl⟩ := perform_channel done
  obtain rfl := Except.ok.inj reply
  cases stored : p.channel with
  | some c => exact fun s₃ after => both c s₂ s₃ after.2 ⟨known, inv.1.owner w p c process stored⟩
  | none =>
      refine steady_quiet (c := .connect) trivial known stable (fun _ _ => trivial) ?_ fun _ _ h => h
      intro s₃ choice p connection s₄ _ _ _ done known _
      have own : Owned w connection s₄ := by
        obtain ⟨_, impossible, _⟩ | ⟨reply, rfl⟩ := perform_connect done
        · cases impossible
        · obtain rfl := Except.ok.inj reply
          exact ⟨_, Function.update_self .., rfl⟩
      refine steady_quiet (c := .createConfirmChannel connection)
        (P := fun s => P s ∧ Owned w connection s) trivial ⟨known, own⟩ (both connection)
        (fun _ known => known.2) ?_ fun _ _ known => known.1
      intro _ _ _ _ s₅ _ _ _ _ known _
      refine steady_quiet (c := .assertExchange connection)
        (P := fun s => P s ∧ Owned w connection s) trivial known (both connection)
        (fun _ _ => trivial) ?_ fun _ _ known => known.1
      exact fun _ _ _ _ s₆ _ _ _ _ known _ s₇ after => both connection s₆ s₇ after.2 known

end Rules

/-! ### Between two statements -/

/-- A call has the locks on rows that it has still to publish. -/
def Ahead (t : Tid) (rows : List OutboxRow) (s : State) : Prop :=
  ∀ row ∈ rows, Claims t row s ∧ Known row s

/-- The poll goes on: all that has been published is accounted for. -/
structure Stage (t : Tid) (w : ℕ) (rows : List OutboxRow) (s : State) : Prop where
  polls : Polls t w s
  running : Running t s
  accounted : Accounted t [] s
  ahead : Ahead t rows s

/-- The message about a row is under way, or it has been confirmed and the row is not marked yet. -/
structure Sent (t : Tid) (w : ℕ) (row : OutboxRow) (rest : List OutboxRow) (i : ℕ) (s : State) :
    Prop where
  polls : Polls t w s
  running : Running t s
  accounted : Accounted t [i] s
  ahead : Ahead t rest s
  own : ∃ pub, s.publications[i]? = some pub ∧ pub.rowId = row.id

/-- The poll has nothing more to learn from the broker. -/
def Over (t : Tid) (w : ℕ) (s : State) : Prop := Polls t w s ∧ Answered t s

/-- The transaction of a call has been aborted. -/
def Aborted (t : Tid) (s : State) : Prop :=
  ∃ tx, s.db.transaction t = some tx ∧ tx.aborted = true

section Stages

variable {row : OutboxRow} {rows rest : List OutboxRow} {i : ℕ}

theorem Ahead.later (h : Ahead t rows s) (step : Rely t s s') : Ahead t rows s' := fun row mem =>
  ⟨(h row mem).1.later step, (h row mem).2.later step.grows⟩

theorem Stage.later (h : Stage t w rows s) (step : Rely t s s') : Stage t w rows s' :=
  ⟨step.polls w h.polls, h.running.later step.apart, h.accounted.later step, h.ahead.later step⟩

theorem Sent.later (h : Sent t w row rest i s) (step : Rely t s s') : Sent t w row rest i s' := by
  refine ⟨step.polls w h.polls, h.running.later step.apart, h.accounted.later step,
    h.ahead.later step, ?_⟩
  obtain ⟨pub, known, same⟩ := h.own
  obtain ⟨pub', known', later⟩ := step.grows.publications i pub known
  refine ⟨pub', known', ?_⟩
  rw [later.same]
  exact same

theorem Over.later (h : Over t w s) (step : Rely t s s') : Over t w s' :=
  ⟨step.polls w h.1, h.2.later step⟩

theorem Aborted.later (h : Aborted t s) (step : Rely t s s') : Aborted t s' := by
  obtain ⟨tx, running, aborted⟩ := h
  exact ⟨tx, step.apart.transaction.trans running, aborted⟩

theorem Answered.of_accounted (h : Accounted t [] s) : Answered t s := by
  intro pub mem own
  obtain ⟨i, known⟩ := List.mem_iff_getElem?.mp mem
  exact (h i pub known own List.not_mem_nil).1

/-- A poll that publishes a row. -/
theorem Sent.of_publish {c now : ℕ} (h : Stage t w (row :: rest) s)
    (distinct : row.id ∉ rest.map OutboxRow.id) :
    Sent t w row rest s.publications.length { s with
      publications := s.publications ++ [⟨c, t, row.id, messageOf ctx now row, none⟩] } := by
  refine ⟨h.polls, h.running, ?_, ?_, ⟨⟨c, t, row.id, messageOf ctx now row, none⟩, by simp, rfl⟩⟩
  · intro j pub known own other
    rcases publication_concat known with old | ⟨rfl, _⟩
    · exact h.accounted j pub old own List.not_mem_nil
    · exact absurd (List.mem_singleton_self _) other
  · intro next mem
    obtain ⟨⟨held, unsent⟩, known⟩ := h.ahead next (List.mem_cons_of_mem _ mem)
    refine ⟨⟨held, fun pub published same => ?_⟩, known⟩
    rcases List.mem_append.mp published with old | new
    · exact unsent pub old same
    · obtain rfl := List.mem_singleton.mp new
      have same : row.id = next.id := same
      exact absurd (same ▸ List.mem_map_of_mem mem) distinct

/-- **A call waits for its own publication and for no other.** -/
theorem unanswered_eq {c : ℕ} (inv : Wired s) (owned : Owned w c s) (sent : Sent t w row rest i s)
    {j : ℕ} (waiting : j ∈ s.unanswered c) : j = i := by
  simp only [State.unanswered, List.mem_filter, Option.any_eq_true_iff_get, Bool.and_eq_true,
    decide_eq_true_eq, Option.isNone_iff_eq_none] at waiting
  obtain ⟨_, some, channel, open'⟩ := waiting
  obtain ⟨pub, known⟩ := Option.isSome_iff_exists.mp some
  simp only [known, Option.get_some] at channel open'
  obtain ⟨x, p, connection, process, polling⟩ :=
    inv.waiting pub (List.mem_of_getElem? known) open'
  obtain ⟨x', connection', owner⟩ := owned
  rw [channel] at connection
  obtain rfl := Option.some.inj (connection.symm.trans connection')
  rw [owner] at process
  have own : pub.session = t := (Polls.unique ⟨p, process, polling⟩ sent.polls)
  by_contra other
  exact (sent.accounted j pub known own (by simpa using other)).1 open'

/-- The message has been rejected. -/
theorem Sent.rejected (h : Sent t w row rest i s) (answer : s.answer i = some false) :
    Stage t w rest s := by
  refine ⟨h.polls, h.running, fun j pub known own _ => ?_, h.ahead⟩
  by_cases same : j = i
  · subst same
    simp only [State.answer, known, Option.bind_some] at answer
    rw [answer]
    exact ⟨by simp, fun confirmed => by cases confirmed⟩
  · exact h.accounted j pub known own (by simpa using same)

theorem Sent.answered (h : Sent t w row rest i s) (answer : s.answer i = some true) :
    Answered t s := by
  intro pub mem own
  obtain ⟨j, known⟩ := List.mem_iff_getElem?.mp mem
  by_cases same : j = i
  · subst same
    simp only [State.answer, known, Option.bind_some] at answer
    rw [answer]
    simp
  · exact (h.accounted j pub known own (by simpa using same)).1

theorem Stage.tail (h : Stage t w (row :: rest) s) : Stage t w rest s :=
  ⟨h.polls, h.running, h.accounted, fun next mem => h.ahead next (List.mem_cons_of_mem _ mem)⟩

theorem Stage.ended (h : Stage t w rows s) : Over t w s := ⟨h.polls, .of_accounted h.accounted⟩

/-- A statement of the call leaves it its locks, unless it ends the transaction. -/
theorem Ahead.executed {st : Statement} {answer : Option st.Result} {db : Database}
    (h : Ahead t rows s) (goes : st ≠ .commit ∧ st ≠ .rollback)
    (executed : s.db.Executed t st answer db) : Ahead t rows { s with db } := by
  intro row mem
  obtain ⟨⟨held, unsent⟩, known⟩ := h row mem
  have grows : Grows s { s with db } := .of_rows (stays_of_executed executed) rfl
  exact ⟨⟨Database.holder_of_executed goes executed held, unsent⟩, known.later grows⟩

/-- A write goes into the transaction. -/
theorem transaction_write {db : Database} {tx : Transaction} (write : Write)
    (running : db.transaction t = some tx) :
    (db.write t write).transaction t = some { tx with writes := tx.writes ++ [write] } := by
  unfold Database.write
  rw [running]
  exact Function.update_self ..

theorem Running.write (h : Running t s) (write : Write) :
    Running t { s with db := s.db.write t write } := by
  obtain ⟨tx, running, healthy⟩ := h
  exact ⟨_, transaction_write write running, healthy⟩

theorem Marked.write {id : Uuid} (h : Marked t id s) (write : Write) :
    Marked t id { s with db := s.db.write t write } := by
  obtain ⟨tx, running, now, v, mem⟩ := h
  exact ⟨_, transaction_write write running, now, v, List.mem_append_left _ mem⟩

/-- The row of a confirmed message is marked. -/
theorem Sent.marked (h : Sent t w row rest i s) (answer : s.answer i = some true)
    (free : s.db.mayLock t row.id = true) (healthy : s.db.Healthy t) :
    Stage t w rest { s with
      db := s.db.write t (.published row.id (s.db.nowOf t) t) } := by
  refine ⟨h.polls, h.running.write _, fun j pub known own _ => ?_,
    h.ahead.executed (by simp) (.marked healthy free)⟩
  by_cases same : j = i
  · subst same
    obtain ⟨_, known', rowId⟩ := h.own
    obtain rfl := Option.some.inj (known'.symm.trans known)
    obtain ⟨tx, running, _⟩ := h.running
    simp only [State.answer, known', Option.bind_some] at answer
    rw [answer, rowId]
    exact ⟨by simp, fun _ => ⟨_, transaction_write _ running, _, _,
      List.mem_append_right _ (List.mem_singleton_self _)⟩⟩
  · obtain ⟨answered, marked⟩ := h.accounted j pub known own (by simpa using same)
    exact ⟨answered, fun confirmed => (marked confirmed).write _⟩

/-- A row is postponed. -/
theorem Stage.postponed {id : Uuid} {attempts seconds : ℕ} {e : String} (h : Stage t w rows s)
    (free : s.db.mayLock t id = true) (healthy : s.db.Healthy t) :
    Stage t w rows { s with
      db := s.db.write t
        (.failed id attempts e (s.db.nowOf t + seconds * 1000000) (s.db.nowOf t)) } := by
  refine ⟨h.polls, h.running.write _, fun j pub known own other => ?_,
    h.ahead.executed (by simp) (.postponed healthy free)⟩
  obtain ⟨answered, marked⟩ := h.accounted j pub known own other
  exact ⟨answered, fun confirmed => (marked confirmed).write _⟩

/-- A statement that fails leaves an aborted transaction. -/
theorem Running.aborted (h : Running t s) : Aborted t { s with db := s.db.abort t } := by
  obtain ⟨tx, running, _⟩ := h
  refine ⟨{ tx with aborted := true }, ?_, rfl⟩
  show Function.update s.db.transaction t _ t = _
  rw [Function.update_self, running]
  rfl

/-- A statement of a transaction that goes on is not rejected. -/
theorem Running.not_aborted {tx : Transaction} (h : Running t s)
    (running : s.db.transaction t = some tx) : tx.aborted = false := by
  obtain ⟨tx', running', healthy⟩ := h
  obtain rfl := Option.some.inj (running.symm.trans running')
  exact healthy

theorem answer_later {b : Bool} (h : s.answer i = some b) (step : Grows s s') :
    s'.answer i = some b := by
  obtain ⟨pub, known, answer⟩ := Option.bind_eq_some_iff.mp h
  obtain ⟨pub', known', later⟩ := step.publications i pub known
  exact Option.bind_eq_some_iff.mpr ⟨pub', known', later.answer b answer⟩

end Stages

/-! ### A poll -/

section Poll

variable {row : OutboxRow} {rows rest : List OutboxRow}

/-- **A message is confirmed when `publish` returns, and rejected or not sent when it throws.** -/
theorem steady_publish (inv : Wired s ∧ Exclusive s) (here : Stage t w (row :: rest) s)
    (distinct : row.id ∉ rest.map OutboxRow.id) :
    ((steadyDiscipline ctx).contract (steady ctx) t).Holds
      (fun _ s => ∃ i, Sent t w row rest i s ∧ s.answer i = some true)
      (fun _ s => Stage t w rest s) (publish w row) s := by
  refine Contract.Holds.chain ((steady_connectRabbit here fun s s' step known =>
    known.later step).mono (fun _ _ known => known) fun _ _ known => known.tail) ⟨inv, .refl t s⟩ ?_
  rintro c s₁ ⟨stage, owned⟩ _
  refine steady_call ?_ ?_ ?_
  · intro s₂ step _
    obtain ⟨claims, known⟩ := (stage.later step).ahead row List.mem_cons_self
    exact ⟨step.owned w c owned, step.polls w stage.polls, claims, known⟩
  · intro s₂ choice p (awaited : List ℕ) s₃ step inv₂ _ process done respects
    obtain ⟨_, impossible, _⟩ | ⟨now, _, rfl, reply⟩ := perform_publish done
    · cases impossible
    obtain rfl := Except.ok.inj reply
    have sent : Sent t w row rest s₂.publications.length { s₂ with
        publications := s₂.publications ++ [⟨c, t, row.id, messageOf ctx now row, none⟩] } :=
      .of_publish (stage.later step) distinct
    -- the session has the connection to itself, so that it waits for its own message only
    have alone : ∀ j ∈ State.unanswered { s₂ with
        publications := s₂.publications ++ [⟨c, t, row.id, messageOf ctx now row, none⟩] } c,
          j = s₂.publications.length := fun _ waiting =>
      unanswered_eq respects.1.1 (step.owned w c owned) sent waiting
    have own : s₂.publications.length ∈ State.unanswered
        { s₂ with publications := s₂.publications ++
          [⟨c, t, row.id, messageOf ctx now row, none⟩] } c := by
      simp [State.unanswered]
    rw [← Async.Program.bind_done_right (call w (.waitForConfirms c _))]
    refine steady_call (fun _ _ _ => trivial) ?_ ?_
    · intro s₄ choice p _ s₅ step' _ _ _ done _
      obtain ⟨rfl, ⟨_, _, _, impossible⟩ | ⟨_, _, _, impossible⟩ | ⟨_, confirmed, _⟩⟩ :=
        perform_waitForConfirms done
      · cases impossible
      · cases impossible
      · intro s₆ after
        exact ⟨_, (sent.later step').later after.2, answer_later (confirmed _ own) after.2.grows⟩
    · intro s₄ choice p e s₅ step' inv₄ _ _ done _ s₆ after
      obtain ⟨rfl, ⟨_, _, gone, _⟩ | ⟨_, ⟨j, waiting, rejected⟩, _⟩ | ⟨_, _, impossible⟩⟩ :=
        perform_waitForConfirms done
      · -- the connection is there
        obtain ⟨x, connection, _⟩ := step'.owned w c (step.owned w c owned)
        simp [State.live, connection, inv₄.1.live c x connection] at gone
      · rw [alone j waiting] at rejected
        exact ((sent.later step').rejected rejected).later after
      · cases impossible
  · intro s₂ choice p e s₃ step inv₂ _ process done respects s₄ after
    obtain ⟨_, _, rfl⟩ | ⟨_, _, _, impossible⟩ := perform_publish done
    · exact ((stage.later step).later after).tail
    · cases impossible

/-- The error path of a row: it is postponed, unless the transaction is beyond help. -/
theorem steady_markFailed {attempts seconds : ℕ} {e : String}
    (here : Stage t w rest s ∨ (Over t w s ∧ Aborted t s)) :
    ((steadyDiscipline ctx).contract (steady ctx) t).Holds (fun _ => Stage t w rest)
      (fun _ => Over t w) (query w (.markFailed row.id attempts e seconds)) s := by
  have stable : ∀ s', Rely t s s' → Stage t w rest s' ∨ (Over t w s' ∧ Aborted t s') := by
    intro s' step
    rcases here with stage | ⟨ended, aborted⟩
    · exact .inl (stage.later step)
    · exact .inr ⟨ended.later step, aborted.later step⟩
  rw [← Async.Program.bind_done_right (query w _)]
  refine steady_call (fun _ _ _ => trivial) ?_ ?_
  · intro s₁ choice p _ s₂ step _ _ _ done _ s₃ after
    obtain ⟨_, _, impossible, _⟩ |
      ⟨_, answer, db, executed, ⟨_, _, reply, rfl⟩ | ⟨_, _, _, impossible, _⟩⟩ := perform_query done
    · cases impossible
    · cases executed with
      | rejected => cases reply
      | failed => cases reply
      | postponed healthy free =>
          rcases stable s₁ step with stage | ⟨_, tx, running, aborted⟩
          · exact (stage.postponed free healthy).later after.2
          · rw [healthy tx running] at aborted
            cases aborted
    · cases impossible
  · intro s₁ choice p _ s₂ step _ allowed _ done _ s₃ after
    have ended : Over t w s₁ := by
      rcases stable s₁ step with stage | ⟨ended, _⟩
      · exact stage.ended
      · exact ended
    obtain ⟨_, _, _, rfl⟩ |
      ⟨_, answer, db, executed, ⟨_, _, _, rfl⟩ | ⟨_, _, rfl, _, _⟩⟩ := perform_query done
    · exact Over.later (show Over t w { s₁ with db := s₁.db.abort t } from ended) after
    · exact Over.later (show Over t w { s₁ with db } from ended) after
    · exact allowed.elim

theorem steady_publishRow (inv : Wired s ∧ Exclusive s) (here : Stage t w (row :: rest) s)
    (distinct : row.id ∉ rest.map OutboxRow.id) :
    ((steadyDiscipline ctx).contract (steady ctx) t).Holds (fun _ => Stage t w rest)
      (fun _ => Over t w) (publishRow w row) s := by
  refine Contract.Holds.attempt (Contract.Holds.chain ((steady_publish inv here distinct).mono
    (fun _ _ known => known) ?_) ⟨inv, .refl t s⟩ ?_) ⟨inv, .refl t s⟩
  · exact fun _ s₁ stage _ => steady_markFailed (.inl stage)
  · rintro _ s₁ ⟨i, sent, confirmed⟩ _
    rw [← Async.Program.bind_done_right (query w _)]
    refine steady_call (fun _ _ _ => trivial) ?_ ?_
    · intro s₂ choice p _ s₃ step _ _ _ done _ s₄ after
      obtain ⟨_, _, impossible, _⟩ |
        ⟨_, answer, db, executed, ⟨_, _, reply, rfl⟩ | ⟨_, _, _, impossible, _⟩⟩ := perform_query done
      · cases impossible
      · cases executed with
        | rejected => cases reply
        | failed => cases reply
        | marked healthy free =>
            exact ((sent.later step).marked (answer_later confirmed step.grows) free healthy).later
              after.2
      · cases impossible
    · intro s₂ choice p _ s₃ step _ allowed _ done _ s₄ after _
      have later := sent.later step
      have ended : Over t w s₂ := ⟨later.polls, later.answered (answer_later confirmed step.grows)⟩
      have aborted : Over t w { s₂ with db := s₂.db.abort t } ∧
          Aborted t { s₂ with db := s₂.db.abort t } := ⟨ended, later.running.aborted⟩
      obtain ⟨_, _, _, rfl⟩ |
        ⟨_, answer, db, executed, ⟨_, _, reply, rfl⟩ | ⟨_, _, rfl, _, _⟩⟩ := perform_query done
      · exact steady_markFailed (.inr ⟨aborted.1.later after, aborted.2.later after⟩)
      · cases executed with
        | rejected running beyond =>
            rw [later.running.not_aborted running] at beyond
            cases beyond
        | failed => exact steady_markFailed (.inr ⟨aborted.1.later after, aborted.2.later after⟩)
        | marked healthy free => cases reply
      · exact allowed.elim

theorem steady_publishRows : ∀ {rows : List OutboxRow} {s : State}, (rows.map OutboxRow.id).Nodup →
    Wired s ∧ Exclusive s → Stage t w rows s →
      ((steadyDiscipline ctx).contract (steady ctx) t).Holds (fun _ => Stage t w [])
        (fun _ => Over t w) (publishRows w rows) s := by
  intro rows
  induction rows with
  | nil => exact fun _ _ here _ step => here.later step.2
  | cons row rest ih =>
      intro s distinct inv here
      obtain ⟨new, distinct⟩ := List.nodup_cons.mp distinct
      refine (steady_publishRow inv here new).chain ⟨inv, .refl t s⟩ ?_
      exact fun _ s₁ stage later => ih distinct later.1 stage

/-- A poll that has published nothing, and whose transaction has not begun. -/
structure Begins (t : Tid) (w : ℕ) (s : State) : Prop where
  polls : Polls t w s
  silent : Silent t s
  idle : s.db.transaction t = none

/-- A poll that has published nothing, and whose transaction has written nothing. -/
structure Begun (t : Tid) (w : ℕ) (s : State) : Prop where
  polls : Polls t w s
  silent : Silent t s
  running : ∃ tx, s.db.transaction t = some tx ∧ tx.writes = [] ∧ tx.aborted = false

theorem Begins.later (h : Begins t w s) (step : Rely t s s') : Begins t w s' :=
  ⟨step.polls w h.polls, h.silent.later step, step.apart.transaction.trans h.idle⟩

theorem Begun.later (h : Begun t w s) (step : Rely t s s') : Begun t w s' := by
  obtain ⟨tx, running, fresh⟩ := h.running
  exact ⟨step.polls w h.polls, h.silent.later step, tx, step.apart.transaction.trans running, fresh⟩

theorem Silent.answered (h : Silent t s) : Answered t s := fun pub mem own => absurd own (h pub mem)

/-- **The rows of a batch may be published.**  A row that is neither marked nor locked by others has
no message that is under way or confirmed. -/
theorem Begun.stage {limit : ℕ} (h : Begun t w s) (inv : Exclusive s)
    (batch : s.db.IsBatch t limit rows) :
    Stage t w rows { s with db := s.db.lock t (rows.map OutboxRow.id) } := by
  obtain ⟨tx, running, empty, healthy⟩ := h.running
  have locked : s.db.lock t (rows.map OutboxRow.id) = { s.db with
      holder := fun id => if id ∈ rows.map OutboxRow.id then some t else s.db.holder id } := by
    unfold Database.lock
    rw [running]
  rw [locked]
  refine ⟨h.polls, ⟨tx, running, healthy⟩, fun i pub known own _ =>
    absurd own (h.silent pub (List.mem_of_getElem? known)), fun row mem => ?_⟩
  obtain ⟨found, due, free⟩ := batch.due row mem
  refine ⟨⟨if_pos (List.mem_map_of_mem mem), fun pub published same => ?_⟩,
    known_of_view (t := t) (s := s) found⟩
  by_contra sent
  rcases inv.held pub published sent with held | ⟨_, marked, there, rowId, yes⟩
  · -- nobody else holds the lock
    rw [same] at held
    simp only [Database.mayLock, held, decide_eq_true_eq] at free
    exact h.silent pub published free
  · -- the row has not been marked
    have view : s.db.view t = s.db.table := by
      unfold Database.view
      rw [running]
      simp [OutboxTable.applyAll, empty]
    rw [view] at found
    obtain rfl := OutboxTable.row_unique there found (rowId.trans same)
    simp only [OutboxRow.isDue, Bool.and_eq_true, Option.isNone_iff_eq_none] at due
    rw [due.1] at yes
    cases yes

/-- A statement that fails. -/
theorem Over.query {st : Statement} {choice : Choice} {p : Publisher} {r : Except String st.Result}
    (h : Over t w s) (done : perform ctx t w p choice (.query st) s = some (r, s')) :
    Over t w s' := by
  obtain ⟨_, _, _, rfl⟩ | ⟨_, _, _, _, ⟨_, _, _, rfl⟩ | ⟨_, _, _, _, rfl⟩⟩ := perform_query done
  · exact h
  · exact h
  · exact h

theorem steady_pollBatch {limit : ℕ} (here : Begins t w s) :
    ((steadyDiscipline ctx).contract (steady ctx) t).Holds (fun _ => Over t w) (fun _ => Over t w)
      (pollBatch w limit) s := by
  refine steady_call (c := .query .begin) (fun _ _ _ => trivial) ?_ ?_
  · intro s₁ choice p _ s₂ step _ _ _ done _
    have begins := here.later step
    have begun : Begun t w s₂ := by
      obtain ⟨_, _, impossible, _⟩ |
        ⟨_, answer, db, executed, ⟨_, _, reply, rfl⟩ | ⟨_, _, _, impossible, _⟩⟩ := perform_query done
      · cases impossible
      · cases executed with
        | rejected => cases reply
        | failed => cases reply
        | nested running =>
            rw [begins.idle] at running
            cases running
        | begun free =>
            exact ⟨begins.polls, begins.silent, _, Function.update_self .., rfl, rfl⟩
      · cases impossible
    refine steady_call (c := .query (.selectBatch limit)) (fun _ _ _ => trivial) ?_ ?_
    · intro s₃ choice p (rows : List OutboxRow) s₄ step inv _ _ done respects
      obtain ⟨stage, distinct⟩ : Stage t w rows s₄ ∧ (rows.map OutboxRow.id).Nodup := by
        obtain ⟨_, _, impossible, _⟩ |
          ⟨_, answer, db, executed, ⟨_, _, reply, rfl⟩ | ⟨_, _, _, impossible, _⟩⟩ :=
            perform_query done
        · cases impossible
        · cases executed with
          | rejected => cases reply
          | failed => cases reply
          | found healthy batch =>
              obtain rfl := Except.ok.inj reply
              exact ⟨(begun.later step).stage inv.2 batch, batch.distinct⟩
        · cases impossible
      -- the rows are locked until the transaction ends
      refine (steady_publishRows distinct respects.1 stage).chain ⟨respects.1, .refl t s₄⟩ ?_
      intro _ s₅ stage _
      rw [← Async.Program.bind_done_right (query w .commit)]
      refine steady_call (fun s₆ step _ => ?_) ?_ ?_
      · exact ⟨(stage.later step).running, (stage.later step).accounted⟩
      · exact fun s₆ _ _ _ s₇ step _ _ _ done _ s₈ after =>
          ((stage.later step).ended.query done).later after.2
      · exact fun s₆ _ _ _ s₇ step _ _ _ done _ s₈ after =>
          ((stage.later step).ended.query done).later after
    · intro s₃ _ _ _ s₄ step _ _ _ done _ s₅ after
      have later := begun.later step
      exact (Over.query ⟨later.polls, later.silent.answered⟩ done).later after
  · intro s₁ _ _ _ s₂ step _ _ _ done _ s₃ after
    have later := here.later step
    exact (Over.query ⟨later.polls, later.silent.answered⟩ done).later after

theorem steady_pollOnce {limit : ℕ} (here : Begins t w s) :
    ((steadyDiscipline ctx).contract (steady ctx) t).Holds (fun _ => Over t w) (fun _ => Over t w)
      (pollOnce w limit) s := by
  refine steady_quiet (c := .acquire) trivial here (fun _ _ step known => known.later step)
    (fun _ _ => trivial) ?_ fun _ _ known => ⟨known.polls, known.silent.answered⟩
  intro _ _ _ _ s₁ _ _ _ _ begins inv
  have released : ∀ s, Over t w s →
      ((steadyDiscipline ctx).contract (steady ctx) t).Holds (fun _ => Over t w) (fun _ => Over t w)
        ((call w .release).bind fun _ =>
          Async.Program.attempt (refreshUnpublishedGauge w) fun _ => return ()) s := by
    intro s ended
    refine steady_quiet (c := .release) trivial ended (fun _ _ step known => known.later step)
      (fun _ _ => trivial) ?_ fun _ _ known => known
    intro _ _ _ _ s₂ _ _ _ _ ended _
    refine Contract.Holds.recover (fun _ => ()) (steady_quiet (c := .count) trivial ended
      (fun _ _ step known => known.later step) (fun _ _ => trivial) ?_ fun _ _ known => known)
    exact fun _ _ _ _ s₃ _ _ _ _ ended _ s₄ step => ended.later step.2
  -- nothing is rolled back
  have undone : ∀ s, ((steadyDiscipline ctx).contract (steady ctx) t).Holds (fun _ => Over t w)
      (fun _ => Over t w) (query w .rollback) s := fun s s' _ =>
    ⟨trivial, fun choice _ _ allowed => (by cases choice <;> exact allowed.elim)⟩
  refine Contract.Holds.ensuring ((Contract.Holds.attempt ((steady_pollBatch begins).mono
    (fun _ _ known => known) fun _ s₂ _ _ => undone s₂) ⟨inv, .refl t s₁⟩).mono ?_ ?_)
      ⟨inv, .refl t s₁⟩
  · exact fun _ s ended _ => released s ended
  · exact fun _ s ended _ => released s ended

theorem steady_schedulePoll {limit : ℕ} (silent : Silent t s) (idle : s.db.transaction t = none) :
    ((steadyDiscipline ctx).contract (steady ctx) t).Holds (fun _ _ => True) (fun _ _ => True)
      (schedulePoll w limit) s := by
  refine steady_call (c := .enter) (fun _ _ _ => trivial) ?_ fun _ _ _ _ _ _ _ _ _ _ _ _ _ => trivial
  intro s₁ choice p _ s₂ step _ _ process done respects
  have begins : Begins t w s₂ := by
    have still : Silent t s₁ := silent.later step
    obtain ⟨_, _, rfl⟩ := perform_enter done
    exact ⟨⟨_, Function.update_self .., rfl⟩, still, step.apart.transaction.trans idle⟩
  have ended : ∀ s, Over t w s →
      ((steadyDiscipline ctx).contract (steady ctx) t).Holds (fun _ _ => True) (fun _ _ => True)
        (call w .settled) s := by
    intro s ended
    rw [← Async.Program.bind_done_right (call w .settled)]
    exact steady_call (fun _ step _ => ended.later step) (fun _ _ _ _ _ _ _ _ _ _ _ _ _ => trivial)
      fun _ _ _ _ _ _ _ _ _ _ _ _ _ => trivial
  have polled : ((steadyDiscipline ctx).contract (steady ctx) t).Holds (fun _ => Over t w)
      (fun _ => Over t w) ((pollOnce w limit).bind fun _ => .done (none : Option Readiness)) s₂ :=
    (steady_pollOnce begins).chain ⟨respects.1, .refl t s₂⟩
      fun _ _ known _ _ step => known.later step.2
  refine Contract.Holds.ensuring (polled.mono ?_ ?_) ⟨respects.1, .refl t s₂⟩
  · exact fun _ s known _ => ended s known
  · exact fun _ s known _ => ended s known

theorem steady_healthReady (inv : Wired s ∧ Exclusive s) :
    ((steadyDiscipline ctx).contract (steady ctx) t).Holds (fun _ _ => True) (fun _ _ => True)
      (healthReady w) s := by
  have found : ∀ {α : Type} {task : Task α} {s : State}, Wired s ∧ Exclusive s →
      ((steadyDiscipline ctx).contract (steady ctx) t).Holds (fun _ _ => True) (fun _ _ => True)
        task s →
      ((steadyDiscipline ctx).contract (steady ctx) t).Holds (fun _ _ => True) (fun _ _ => True)
        (succeeds task) s := by
    intro α task s inv holds
    exact Contract.Holds.recover (fun _ => false)
      (holds.chain ⟨inv, .refl t s⟩ fun _ _ _ _ _ _ => trivial)
  have pinged : ((steadyDiscipline ctx).contract (steady ctx) t).Holds (fun _ _ => True)
      (fun _ _ => True) (call w .ping) s := by
    rw [← Async.Program.bind_done_right (call w .ping)]
    exact steady_call (fun _ _ _ => trivial) (fun _ _ _ _ _ _ _ _ _ _ _ _ _ => trivial)
      fun _ _ _ _ _ _ _ _ _ _ _ _ _ => trivial
  refine (found inv pinged).chain ⟨inv, .refl t s⟩ fun datastore s₁ _ step => ?_
  refine (found step.1 ((steady_connectRabbit (P := fun _ => True) trivial
    fun _ _ _ _ => trivial).mono (fun _ _ _ => trivial) fun _ _ _ => trivial)).chain step ?_
  exact fun _ _ _ _ _ _ => trivial

end Poll

/-! ### Runs -/

/-- **The calls keep the discipline of steady runs.** -/
theorem steady_handles : (steadyDiscipline ctx).Handles (steady ctx) (handler ctx)
    (fun _ _ _ _ => True) fun _ _ _ _ => True := by
  intro t request s inv fresh
  cases request with
  | poll w => exact steady_schedulePoll fresh.1 fresh.2
  | ready w => exact steady_healthReady inv

theorem exclusive_of_steady_run {p : Service ctx}
    (run : Run (steady ctx) (Async.Pool.idle .initial) p) : Exclusive p.shared := by
  have sound : (steadyDiscipline ctx).Sound (steady ctx) (fun _ _ _ _ => True)
      (fun _ _ _ _ => True) p := by
    refine Discipline.Sound.steps (Discipline.sound_idle ⟨.initial, .initial⟩ fun t => ?_)
      steady_environment steady_handles run
    exact ⟨fun _ mem => absurd mem List.not_mem_nil, rfl⟩
  exact sound.inv.2

/-- The id of a row is that of the event in its payload. -/
def Named (row : OutboxRow) : Prop :=
  Text.Json.string? (row.payload.get? "eventId") = some row.id.text

theorem named_of_run {R : Regime (machine ctx)} {p : Service ctx}
    (run : Run R (Async.Pool.idle .initial) p) : ∀ row ∈ p.shared.db.table.rows, Named row := by
  have update : ∀ (u : Tid) (w : Write) (row : OutboxRow), True → Named row → Named (w.onRow row) := by
    intro u w row _ named
    unfold Named
    rw [Write.onRow_payload, Write.onRow_id]
    exact named
  have meets : p.shared.db.Meets Named fun _ _ => True := by
    refine invariant_of_run (I := fun s => s.db.Meets Named fun _ _ => True) run meets_initial
      ?_ ?_ fun t s inv => inv.disconnect t
    · exact fun t w c choice p r s s' _ _ _ done inv =>
        meets_of_perform update inv (fun _ _ _ _ => trivial) done
    · exact fun e s s' _ hevent inv => meets_of_event inv (fun _ _ _ _ _ _ named => named) hevent
  exact meets.rows

/-- The messages about a row carry its id. -/
theorem messageId_of_run {R : Regime (machine ctx)} {p : Service ctx}
    (run : Run R (Async.Pool.idle .initial) p) {pub : Publication}
    (mem : pub ∈ p.shared.publications) :
    pub.message.properties.messageId = some pub.rowId.text := by
  obtain ⟨row, here, same, now, message⟩ := (Backed.of_run run).messages pub mem
  rw [message, ← same]
  exact named_of_run run row here

/-- The broker has confirmed to a call what the row says. -/
def ConfirmedEvent (ctx : PublisherContext) (u : Tid) (row : OutboxRow) (s : State) : Prop :=
  ∃ pub ∈ s.publications, pub.session = u ∧ pub.answer = some true ∧
    pub.message.content = ctx.buffer (Text.Json.obj row.payload).stringify ∧
    pub.message.properties.messageId = Text.Json.string? (row.payload.get? "eventId")

theorem confirmed_of_run {R : Regime (machine ctx)} {p : Service ctx}
    (run : Run R (Async.Pool.idle .initial) p) {row : OutboxRow}
    (mem : row ∈ p.shared.db.table.rows) (published : row.publishedAt.isSome) :
    ∃ u, row.publishedBy = some u ∧ ConfirmedEvent ctx u row p.shared := by
  have backed := Backed.of_run run
  obtain ⟨u, owner, pub, sent, session, rowId, answer⟩ := backed.meets.rows row mem published
  obtain ⟨row', mem', same, now, message⟩ := backed.messages pub sent
  obtain rfl := OutboxTable.row_unique mem' mem (same.trans rowId)
  refine ⟨u, owner, pub, sent, session, answer, ?_, ?_⟩
  · rw [message]
    rfl
  · rw [message]
    rfl

/-- **No event is marked before it has been confirmed, and none is forgotten.**  A row that is marked
has been confirmed to the poll that has marked it; a row that is not is due a minute after its last
update, and stays in the table; and while nothing is rolled back, killed or disconnected, the broker
confirms each event once.

The first two parts hold in every run; they are invariants of the rows.  The third needs a steady
run, in which each session has its connection to itself, so that its wait is about its own message
(`steady_publish`). -/
theorem marks_confirmed_forgets_none {p : Service ctx}
    (run : Run (unrestricted ctx) (Async.Pool.idle .initial) p) :
    (∀ row ∈ p.shared.db.table.rows, row.publishedAt.isSome →
      ∃ u, row.publishedBy = some u ∧ ConfirmedEvent ctx u row p.shared) ∧
    (∀ row ∈ p.shared.db.table.rows, row.publishedAt = none →
      (∀ now, row.updatedAt + 60000000 ≤ now → row.isDue now = true) ∧
      ∀ q, Run (unrestricted ctx) p q → ∃ row' ∈ q.shared.db.table.rows, SameEvent row row') ∧
    (Run (steady ctx) (Async.Pool.idle .initial) p → ∀ (i j : ℕ) (pub pub' : Publication),
      p.shared.publications[i]? = some pub → p.shared.publications[j]? = some pub' →
      pub.answer = some true → pub'.answer = some true →
      pub.message.properties.messageId = pub'.message.properties.messageId → i = j) := by
  refine ⟨?_, ?_, ?_⟩
  · exact fun row mem published => confirmed_of_run run mem published
  · intro row mem waiting
    obtain ⟨_, due⟩ := (Timely.of_run run).meets.rows row mem
    refine ⟨fun now late => ?_, fun q later => (grows_of_run later).rows row mem⟩
    have soon : row.nextAttemptAt ≤ now := (due waiting).trans late
    simp [OutboxRow.isDue, waiting, soon]
  · intro steadily i j pub pub' known known' confirmed confirmed' same
    rw [messageId_of_run run (List.mem_of_getElem? known),
      messageId_of_run run (List.mem_of_getElem? known')] at same
    refine (exclusive_of_steady_run steadily).single i j pub pub' known known'
      (Uuid.injective_text (Option.some.inj same)) ?_ ?_
    · rw [confirmed]
      simp
    · rw [confirmed']
      simp

/-! ### Two publishers and one order -/

/-- A publisher of the default batch size. -/
def publisherContext : PublisherContext := ⟨⟨100⟩, fun text => text.toUTF8.toList⟩

def exampleEventId : Uuid := .ofText "0de00000-0000-4000-8000-000000000001"

def examplePayload : Text.Fields :=
  .ofList [("eventId", .str exampleEventId.text), ("eventType", .str "order.created")]

/-- The first publisher polls while the second one does: the row is locked, and the second batch is
empty. -/
def concurrentPolls : List (Async.Move (machine publisherContext) Request) :=
  [.event (.declare .exchange), .event (.insert exampleEventId "order.created" examplePayload 0 0),
    .event (.boot 0), .event (.boot 1), .start 0 (.poll 0), .start 1 (.poll 1),
    .advance 0 .succeeds, .advance 0 .succeeds, .advance 0 (.executes []),
    .advance 0 (.executes [exampleEventId]), .advance 1 .succeeds, .advance 1 .succeeds,
    .advance 1 (.executes []), .advance 1 (.executes []), .advance 1 (.executes []),
    .advance 0 .succeeds, .advance 0 .succeeds, .advance 0 .succeeds, .advance 0 .succeeds,
    .advance 0 (.writes 0), .event (.confirm 0), .advance 0 .succeeds, .advance 0 (.executes []),
    .advance 0 (.executes [])]

instance decidableSteadyAdvance (t : Tid) (choice : Choice) (o : Operation) (s : State) :
    Decidable ((steady ctx).advance t choice o s) := by
  unfold steady
  dsimp only
  split
  · infer_instance
  · infer_instance
  · infer_instance

instance decidableSteadyEvent (e : Event) (s : State) : Decidable ((steady ctx).event e s) := by
  unfold steady
  dsimp only
  split
  all_goals infer_instance

instance decidableSteadyCrash (t : Tid) (s : State) : Decidable ((steady ctx).crash t s) :=
  .isFalse id

theorem marks_confirmed_of_concurrentPolls :
    ∃ p : Service publisherContext, Run (steady _) (Async.Pool.idle .initial) p ∧
      (∃ row ∈ p.shared.db.table.rows, row.publishedAt = some 0 ∧
        ∃ u, row.publishedBy = some u ∧ ConfirmedEvent publisherContext u row p.shared) ∧
      ∀ (i j : ℕ) (pub pub' : Publication), p.shared.publications[i]? = some pub →
        p.shared.publications[j]? = some pub' → pub.answer = some true →
        pub'.answer = some true →
        pub.message.properties.messageId = pub'.message.properties.messageId → i = j := by
  obtain ⟨p, run, marked⟩ := Async.Pool.steps_of_check (steady publisherContext)
    (handler publisherContext) (Async.Pool.idle .initial) concurrentPolls
    (fun p => p.shared.db.table.rows.map (·.publishedAt) = [some 0]) (by decide)
  have anyway : Run (unrestricted publisherContext) (Async.Pool.idle .initial) p :=
    Async.Pool.Steps.mono (fun _ _ _ _ _ => trivial) (fun _ _ _ => trivial)
      (fun _ _ _ => trivial) run
  obtain ⟨backed, _, single⟩ := marks_confirmed_forgets_none anyway
  refine ⟨p, run, ?_, single run⟩
  have some : some 0 ∈ p.shared.db.table.rows.map (·.publishedAt) := by
    rw [marked]
    exact List.mem_singleton_self _
  obtain ⟨row, mem, published⟩ := List.mem_map.mp some
  exact ⟨row, mem, published, backed row mem (by rw [published]; rfl)⟩

end Outbox

end OrderPlatform
