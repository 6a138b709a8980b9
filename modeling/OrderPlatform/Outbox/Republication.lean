import OrderPlatform.Async.Beginning
import OrderPlatform.Async.Schedule
import OrderPlatform.Outbox.SinglePublication

/-!
# What is published is not published again

A row whose `published_at` has been committed keeps it, and the `SELECT` of a poll leaves such rows
out.  So a poll that begins after that publishes other rows only (`not_republished`), whatever fails
or dies meanwhile.
-/

namespace OrderPlatform

namespace Outbox

open Async (Tid Regime Contract Growth)

variable {ctx : PublisherContext} {R : Regime (machine ctx)} {p q : Service ctx}
variable {s s' : State} {t u : Tid} {id : Uuid} {w : ℕ}

theorem published_of_perform {p : Publisher} {choice : Choice} {c : Call}
    {r : Except String c.Result} (h : perform ctx u w p choice c s = some (r, s'))
    (published : s.db.table.Published id) : s'.db.table.Published id := by
  rcases perform_cases h with ⟨st, rfl⟩ | ⟨connection, row, rfl⟩ | ⟨same, _⟩
  · obtain ⟨_, _, _, rfl⟩ |
      ⟨_, answer, db, executed, ⟨_, _, _, rfl⟩ | ⟨_, _, _, _, rfl⟩⟩ := perform_query h
    · exact published
    · exact Database.published_of_executed executed published
    · have kept : db.table.Published id := Database.published_of_executed executed published
      exact kept
  · obtain ⟨_, _, rfl⟩ | ⟨_, _, rfl, _⟩ := perform_publish h
    · exact published
    · exact published
  · rw [same]
    exact published

theorem published_of_event {e : Event} (h : State.event e s = some s')
    (published : s.db.table.Published id) : s'.db.table.Published id := by
  cases e with
  | insert id' eventType payload occurredAt startedAt =>
      simp only [State.event] at h
      split at h
      · obtain ⟨table, added, rfl⟩ := Option.map_eq_some_iff.mp h
        exact OutboxTable.published_insert published added
      · cases h
  | confirm i => obtain ⟨_, _, rfl⟩ := Option.map_eq_some_iff.mp h; exact published
  | reject i stored => obtain ⟨_, _, rfl⟩ := Option.map_eq_some_iff.mp h; exact published
  | declare d => obtain ⟨_, _, rfl⟩ := Option.map_eq_some_iff.mp h; exact published
  | closed c =>
      obtain ⟨x, _, h⟩ := Option.bind_eq_some_iff.mp h
      obtain ⟨p, _, h⟩ := Option.bind_eq_some_iff.mp h
      split at h
      · cases h
        exact published
      · cases h
  | boot w =>
      simp only [State.event] at h
      split at h
      · cases h
        exact published
      · cases h
  | die w => obtain ⟨_, _, rfl⟩ := Option.map_eq_some_iff.mp h; exact published
  | terminate w => obtain ⟨_, _, rfl⟩ := Option.map_eq_some_iff.mp h; exact published
  | tick n => cases h; exact published
  | disconnect u => cases h; exact published
  | cut c => cases h; exact published

theorem published_of_exec {choice : Choice} {o : Operation} {r : o.Reply}
    (h : exec ctx u choice o s = some (r, s')) (published : s.db.table.Published id) :
    s'.db.table.Published id := by
  obtain ⟨_, _, _, done⟩ := perform_of_exec (w := o.process) (c := o.call) h
  exact published_of_perform done published

/-- A published row is published in every session, and is not due. -/
theorem other_of_batch {db : Database} {limit : ℕ} {rows : List OutboxRow}
    (published : db.table.Published id) (batch : db.IsBatch t limit rows) :
    ∀ row ∈ rows, row.id ≠ id := by
  rintro row mem rfl
  obtain ⟨here, due, _⟩ := batch.due row mem
  have inView : (db.view t).Published row.id := by
    unfold Database.view
    split
    · exact OutboxTable.published_applyAll _ published
    · exact published
  obtain ⟨row', mem', same, marked⟩ := inView
  obtain rfl := OutboxTable.row_unique mem' here same
  unfold OutboxRow.isDue at due
  simp only [Bool.and_eq_true, Option.isNone_iff_eq_none] at due
  rw [due.1] at marked
  cases marked

/-! ### A poll that begins later -/

/-- The operation publishes no row of the event. -/
def Apart (id : Uuid) (o : Operation) : Prop := ∀ c row, o.call = .publish c row → row.id ≠ id

/-- Published rows stay published. -/
def publication (ctx : PublisherContext) : Growth (machine ctx) where
  le s s' := ∀ id, s.db.table.Published id → s'.db.table.Published id
  refl _ _ published := published
  trans h h' id published := h' id (h id published)
  exec := fun hexec _ => published_of_exec hexec
  event := fun hevent _ => published_of_event hevent
  crash := fun _ _ _ published => published

theorem lasting_published (ctx : PublisherContext) (id : Uuid) :
    (publication ctx).Lasting fun s => s.db.table.Published id := fun _ _ step => step id

/-- A call that begins when the event has been published, and publishes it never. -/
def afterwards (ctx : PublisherContext) (R : Regime (machine ctx)) (id : Uuid) (t : Tid) :
    Contract (machine ctx) :=
  ((publication ctx).beginning (lasting_published ctx id) (Apart id) t).contract R t

section Poll

variable {α : Type}

theorem call_apart {c : Call} (other : ∀ connection row, c ≠ .publish connection row) :
    (call w c).Only (Apart id) := by
  refine ⟨fun connection row same => absurd same (other connection row), fun r => ?_⟩
  cases r with
  | ok v => trivial
  | error e => trivial

theorem connectRabbit_apart : (connectRabbit w).Only (Apart id) := by
  refine (call_apart (c := .channel) nofun).bind fun (channel : Option ℕ) => ?_
  cases channel with
  | some c => trivial
  | none =>
      refine (call_apart (c := .connect) nofun).bind fun (connection : ℕ) => ?_
      refine (call_apart (c := .createConfirmChannel connection) nofun).bind fun _ => ?_
      exact (call_apart (c := .assertExchange connection) nofun).bind fun _ => trivial

theorem publishRow_apart {row : OutboxRow} (other : row.id ≠ id) :
    (publishRow w row).Only (Apart id) := by
  refine Async.Program.Only.attempt ?_ fun e => call_apart nofun
  refine Async.Program.Only.bind ?_ fun _ => call_apart nofun
  refine connectRabbit_apart.bind fun (c : ℕ) => ?_
  refine Async.Program.Only.bind (p := call w (.publish c row)) ?_ fun _ => call_apart nofun
  refine ⟨fun connection row' same => ?_, fun r => ?_⟩
  · cases same
    exact other
  · cases r with
    | ok v => trivial
    | error e => trivial

theorem publishRows_apart (rows : List OutboxRow) (others : ∀ row ∈ rows, row.id ≠ id) :
    (publishRows w rows).Only (Apart id) := by
  induction rows with
  | nil => trivial
  | cons row rest ih =>
      exact (publishRow_apart (others row List.mem_cons_self)).bind fun _ =>
        ih fun row' mem => others row' (List.mem_cons_of_mem _ mem)

/-- A task that publishes other rows only. -/
theorem afterwards_apart {task : (machine ctx).Task α} (only : task.Only (Apart id))
    (published : s.db.table.Published id) :
    (afterwards ctx R id t).Holds (fun _ s => s.db.table.Published id)
      (fun _ s => s.db.table.Published id) task s :=
  Growth.holds_only only (lasting_published ctx id) published

theorem afterwards_pollBatch {limit : ℕ} (published : s.db.table.Published id) :
    (afterwards ctx R id t).Holds (fun _ s => s.db.table.Published id)
      (fun _ s => s.db.table.Published id) (pollBatch w limit) s := by
  refine (afterwards_apart (call_apart (c := .query .begin) nofun) published).chain
    ⟨trivial, fun _ h => h⟩ fun _ s₁ published _ => ?_
  refine Growth.holds_await (fun _ => nofun) fun s₂ choice reply s₃ step hexec => ?_
  have before := step id published
  have later := published_of_exec hexec before
  match reply with
  | .error e => exact fun s₄ step => step.2 id later
  | .ok (rows : List OutboxRow) =>
      -- the batch holds other rows
      have others : ∀ row ∈ rows, row.id ≠ id := by
        obtain ⟨_, _, _, done⟩ := perform_of_exec (c := .query (.selectBatch limit)) hexec
        obtain ⟨_, _, impossible, _⟩ |
          ⟨_, answer, db, executed, ⟨_, _, same, _⟩ | ⟨_, _, _, impossible, _⟩⟩ := perform_query done
        · cases impossible
        · cases executed with
          | rejected => cases same
          | failed => cases same
          | found healthy batch =>
              obtain rfl := Except.ok.inj same
              exact other_of_batch before batch
        · cases impossible
      exact afterwards_apart ((publishRows_apart rows others).bind fun _ => call_apart nofun) later

theorem afterwards_schedulePoll {limit : ℕ} (published : s.db.table.Published id) :
    (afterwards ctx R id t).Holds (fun _ _ => True) (fun _ _ => True)
      (schedulePoll w limit) s := by
  have here : ∀ s, (afterwards ctx R id t).rely s s := fun s => ⟨trivial, fun _ h => h⟩
  have apart : ∀ {β : Type} {task : (machine ctx).Task β} {s}, task.Only (Apart id) →
      s.db.table.Published id → (afterwards ctx R id t).Holds
        (fun _ s => s.db.table.Published id) (fun _ s => s.db.table.Published id) task s :=
    afterwards_apart
  refine Contract.Holds.mono (Q := fun _ (s : State) => s.db.table.Published id)
    (E := fun _ (s : State) => s.db.table.Published id) ?_ (fun _ _ _ => trivial) fun _ _ _ => trivial
  refine (apart (call_apart (c := .enter) nofun) published).chain (here _) fun _ s₁ published _ => ?_
  have polled : (afterwards ctx R id t).Holds (fun _ s => s.db.table.Published id)
      (fun _ s => s.db.table.Published id) (pollOnce w limit) s₁ := by
    refine (apart (call_apart (c := .acquire) nofun) published).chain (here _)
      fun _ s₂ published _ => ?_
    have ended : ((call w .release).bind fun _ =>
        Async.Program.attempt (refreshUnpublishedGauge w) fun _ => return ()).Only (Apart id) :=
      (call_apart (c := .release) nofun).bind fun _ => Async.Program.Only.attempt
        ((call_apart (c := .count) nofun).bind fun _ => trivial) fun _ => trivial
    refine Contract.Holds.ensuring ((Contract.Holds.attempt ((afterwards_pollBatch published).mono
      (fun _ _ kept => kept) fun _ _ kept _ =>
        apart (call_apart (c := .query .rollback) nofun) kept) (here _)).mono
        ?_ ?_) (here _)
    · exact fun _ _ kept _ => apart ended kept
    · exact fun _ _ kept _ => apart ended kept
  refine Contract.Holds.ensuring ((polled.chain (here _) fun _ _ kept _ =>
    (show (afterwards ctx R id t).Holds (fun _ s => s.db.table.Published id)
      (fun _ s => s.db.table.Published id) (.done none) _ from fun _ step => step.2 id kept)).mono
        ?_ ?_) (here _)
  · exact fun _ _ kept _ => apart (call_apart (c := .settled) nofun) kept
  · exact fun _ _ kept _ => apart (call_apart (c := .settled) nofun) kept

theorem healthReady_apart : (healthReady w).Only (Apart id) := by
  have succeeds_apart : ∀ {β : Type} {task : Task β}, task.Only (Apart id) →
      (succeeds task).Only (Apart id) := fun only =>
    Async.Program.Only.attempt (only.bind fun _ => trivial) fun _ => trivial
  exact (succeeds_apart (call_apart (c := .ping) nofun)).bind fun _ =>
    (succeeds_apart connectRabbit_apart).bind fun _ => trivial

end Poll

/-- **What is published is not published again.**  A call that begins when the event has been
published never gets to publish it. -/
theorem not_republished (published : p.shared.db.table.Published id) (free : p.slot t = .free)
    (run : Async.Pool.Steps R (handler ctx) p q) {request : Request}
    {task : (machine ctx).Task (Option Readiness)} (busy : q.slot t = .busy request task) {c : ℕ}
    {row : OutboxRow} (publishes : task.Awaits ⟨w, .publish c row⟩) : row.id ≠ id := by
  refine (Growth.sound_of_beginning (lasting_published ctx id) (B := Apart id)
    (Q := fun _ _ _ => True) ?_ published free run).awaiting busy publishes rfl c row rfl
  intro request s published
  cases request with
  | poll w => exact afterwards_schedulePoll published
  | ready w =>
      exact (afterwards_apart healthReady_apart published).mono (fun _ _ _ => trivial)
        fun _ _ _ => trivial

/-- The row that a call is about to publish. -/
def publishing (p : Service ctx) (t : Tid) : Option Uuid :=
  match p.slot t with
  | .busy _ (.await ⟨_, .publish _ row⟩ _) => some row.id
  | _ => none

theorem awaits_of_publishing (h : publishing p t = some id) :
    ∃ request task w c row, p.slot t = .busy request task ∧
      task.Awaits ⟨w, .publish c row⟩ ∧ row.id = id := by
  unfold publishing at h
  split at h
  · rename_i request w c row k busy
    cases h
    exact ⟨request, _, w, c, row, busy, rfl, rfl⟩
  · cases h

def secondEventId : Uuid := .ofText "0de00000-0000-4000-8000-000000000002"

/-- The first poll comes to its end, another event is recorded, and the next poll is about to publish
it. -/
def nextPoll : List (Async.Move (machine publisherContext) Request) :=
  List.replicate 3 (.advance 0 .succeeds) ++
    [.event (.insert secondEventId "order.created"
        (.ofList [("eventId", .str secondEventId.text), ("eventType", .str "order.created")]) 0 0),
      .start 2 (.poll 0), .advance 2 .succeeds, .advance 2 .succeeds, .advance 2 (.executes []),
      .advance 2 (.executes [secondEventId]), .advance 2 .succeeds]

theorem not_republished_of_nextPoll :
    ∃ (p q : Service publisherContext) (id : Uuid), Run (unrestricted _) (Async.Pool.idle .initial) p ∧
      p.shared.db.table.Published exampleEventId ∧ Run (unrestricted _) p q ∧
      publishing q 2 = some id ∧ id ≠ exampleEventId := by
  obtain ⟨p, run, others, published, next⟩ := Async.Pool.stepsWhere_of_check
    (unrestricted publisherContext) (C := fun _ _ => True) (fun _ _ => True)
    (handler publisherContext) 2 (fun _ _ _ _ => trivial) .initial concurrentPolls
    (fun p => (∃ row ∈ p.shared.db.table.rows, row.id = exampleEventId ∧ row.publishedAt.isSome) ∧
      (Async.Pool.run (unrestricted publisherContext) (handler publisherContext) p nextPoll).any
        (fun q => decide (publishing q 2 = some secondEventId)) = true) (by decide)
  obtain ⟨q, later, publishes⟩ := Async.Pool.steps_of_check (unrestricted publisherContext)
    (handler publisherContext) p nextPoll _ next
  obtain ⟨request, task, w, c, row, busy, awaits, same⟩ := awaits_of_publishing publishes
  exact ⟨p, q, secondEventId, run.steps, published, later, publishes,
    same ▸ not_republished published (others 2 (Nat.le_refl 2)) later busy awaits⟩

end Outbox

end OrderPlatform
