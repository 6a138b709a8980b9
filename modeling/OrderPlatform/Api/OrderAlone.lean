import OrderPlatform.Async.Evaluation
import OrderPlatform.Api.OrderContract

/-!
# A request that is served alone

The rules by which a request to the order routes is followed when nobody disturbs it and every
Redis command is answered (`servedAlone`): one rule for a Redis command, one for a statement
(`serves_statement` inside a transaction), and one for everything else.

A transaction that is alone in the database is described by what it has written so far
(`Writing`).  It becomes visible at its `COMMIT`, and until then nothing has changed (`Same`).
-/

namespace OrderPlatform

namespace OrderRoutes

open Async (Tid Evaluates Performed Contract)

variable {ctx : ApiContext} {t : Tid} {ids : Uuid → Prop} {s s' s₁ : State}

/-- Redis executes and answers the command, if it is one. -/
def RedisAnswers (c : Choice) (o : Op Work) : Prop :=
  ∀ command, o = .redis command → c = .redis .none

/-- The contract of a request that is served alone, and is given such identifiers. -/
abbrev servedAlone (ctx : ApiContext) (t : Tid) (ids : Uuid → Prop) : Contract (machine ctx) :=
  Contract.alone t fun c o _ => RedisAnswers c o ∧ ∀ id, c = .fresh id → ids id

/-- The tables and the server are what they were. -/
structure Same (s s' : State) : Prop where
  tables : s'.db.tables = s.db.tables
  server : s'.server = s.server

theorem Same.refl (s : State) : Same s s := ⟨rfl, rfl⟩

theorem Same.trans {s'' : State} (h : Same s s') (h' : Same s' s'') : Same s s'' :=
  ⟨h'.tables.trans h.tables, h'.server.trans h.server⟩

theorem server_ext {a b : Redis.Server} (store : a.store = b.store)
    (inFlight : a.inFlight = b.inFlight) : a = b := by
  cases a
  cases b
  cases store
  cases inFlight
  rfl

/-! ### One operation at a time -/

section

variable {α : Type} {E : ApiError → State → Prop}

/-- A Redis command is executed and answered, unless the server refuses it. -/
theorem serves_redis {c : Redis.Command} {Q : c.Reply → State → Prop}
    (answer : ∀ r s', s'.db = s.db → s'.server.inFlight = s.server.inFlight →
      c.apply s.server.store = some (r, s'.server.store) → Q r s')
    (refused : ∀ s', s'.db = s.db → s'.server = s.server → c.apply s.server.store = none →
      E .redis s') :
    (servedAlone ctx t ids).Holds Q E (redis c) s := by
  refine Contract.alone_await fun choice r s' answers hexec => ?_
  obtain ⟨fault, rfl, rfl, rfl⟩ := exec_redis hexec
  cases answers.1 c rfl
  cases happly : c.apply s.server.store with
  | none =>
      have call : s.server.call .none c = (none, s.server) := by
        rw [Redis.Server.call, happly]
      unfold State.redis
      rw [call]
      exact Contract.alone_thrown (refused _ rfl rfl happly)
  | some x =>
      have call : s.server.call .none c = (some x.1, { s.server with store := x.2 }) := by
        rw [Redis.Server.call, happly]
      unfold State.redis
      rw [call]
      exact Contract.alone_done (answer _ _ rfl rfl happly)

/-- What a handler does beside Redis and the database. -/
theorem serves_work {o : Work} {k : o.Reply → Route α} {Q : α → State → Prop}
    (other : ∀ st, o ≠ .sql st)
    (next : ∀ r s', s'.db = s.db → s'.server = s.server →
      (servedAlone ctx t ids).Holds Q E (k r) s') :
    (servedAlone ctx t ids).Holds Q E (.await (.work o) k) s := by
  refine Contract.alone_await fun choice r s' _ hexec => ?_
  have same : s'.db = s.db ∧ s'.server = s.server := by
    cases o with
    | sql st => exact absurd rfl (other st)
    | randomUUID =>
        cases choice with
        | fresh id =>
            change (if s.generated id = none then some (id, s.generate t id) else none) =
              some (r, s') at hexec
            split at hexec
            · cases hexec
              exact ⟨rfl, rfl⟩
            · cases hexec
        | _ => cases hexec
    | connect => cases choice <;> cases hexec <;> exact ⟨rfl, rfl⟩
    | release => cases choice <;> cases hexec; exact ⟨rfl, rfl⟩
    | clock => cases choice <;> cases hexec; exact ⟨rfl, rfl⟩
    | header value => cases choice <;> cases hexec; exact ⟨rfl, rfl⟩
  exact next r s' same.1 same.2

/-- An identifier. -/
theorem serves_randomUUID {Q : Uuid → State → Prop}
    (next : ∀ id s', ids id → s'.db = s.db → s'.server = s.server → Q id s') :
    (servedAlone ctx t ids).Holds Q E randomUUID s := by
  refine Contract.alone_await fun choice id s' may hexec => ?_
  cases choice with
  | fresh id' =>
      change (if s.generated id' = none then some (id', s.generate t id') else none) =
        some (id, s') at hexec
      split at hexec
      · cases hexec
        exact Contract.alone_done (next _ _ (may.2 _ rfl) rfl rfl)
      · cases hexec
  | _ => cases hexec

/-- What a statement leaves behind, executed or not. -/
def Outcome {β : Type} (Q : β → State → Prop) (failed : State → Prop) : Option β → State → Prop
  | some v, s => Q v s
  | none, s => failed s

/-- A statement. -/
theorem serves_query {st : Statement} {Q : st.Result → State → Prop}
    (outcome : ∀ fails sorted r s', s.db.exec ctx t fails sorted st = some (r, s'.db) →
      s'.server = s.server → Outcome Q (E .database) r s') :
    (servedAlone ctx t ids).Holds Q E (query st) s := by
  refine Contract.alone_await fun choice r s' _ hexec => ?_
  obtain ⟨fails, sorted, hsql⟩ := exec_sql hexec
  obtain ⟨db, hdb, same⟩ := sql_cases hsql
  have known := outcome fails sorted r s' (by rw [same]; exact hdb) (by rw [same])
  cases r with
  | none => exact Contract.alone_thrown known
  | some v => exact Contract.alone_done known

end

/-! ### A transaction -/

/-- The request has begun a transaction and written this in it; nobody else notices. -/
structure Writing (t : Tid) (writes : List Write) (s s' : State) : Prop where
  same : Same s s'
  transaction : s'.db.transaction t = some ⟨s.db.now, writes, false⟩

theorem Writing.live {writes : List Write} (h : Writing t writes s s') :
    ∀ tx, s'.db.transaction t = some tx → tx.aborted = false := by
  intro tx now
  rw [h.transaction] at now
  cases now
  rfl

/-- The database is not touched. -/
theorem Writing.of_db {writes : List Write} {s'' : State} (h : Writing t writes s s')
    (db : s''.db = s'.db) (server : s''.server = s'.server) : Writing t writes s s'' := by
  refine ⟨h.same.trans ⟨by rw [db], server⟩, ?_⟩
  rw [db]
  exact h.transaction

/-- A session without a transaction has no failed one. -/
theorem live_of_none (session : s.db.transaction t = none) :
    ∀ tx, s.db.transaction t = some tx → tx.aborted = false := by
  intro tx now
  rw [session] at now
  cases now

/-- A statement of the transaction: it fails and nothing is written, or it does what it is meant to
do. -/
theorem serves_statement {writes : List Write} {st : Statement} {Q : st.Result → State → Prop}
    (writing : Writing t writes s s₁)
    (performs : ∀ sorted r s₂, s₁.db.perform ctx t sorted st = some (r, s₂.db) →
      s₂.server = s₁.server → Outcome Q (Same s₁) r s₂) :
    (servedAlone ctx t ids).Holds Q (fun _ s' => Same s s') (query st) s₁ := by
  refine serves_query fun fails sorted r s₂ hexec server => ?_
  rcases Database.exec_live writing.live hexec with ⟨rfl, same⟩ | performed
  · exact writing.same.trans ⟨by rw [same]; rfl, server⟩
  · have known := performs sorted r s₂ performed server
    cases r with
    | none => exact writing.same.trans known
    | some v => exact known

theorem serves_begin (session : s.db.transaction t = none) :
    (servedAlone ctx t ids).Holds (fun _ => Writing t [] s) (fun _ => Same s) (query .begin) s := by
  refine serves_query fun fails sorted r s' hexec server => ?_
  rcases Database.exec_live (live_of_none session) hexec with ⟨rfl, same⟩ | performed
  · exact ⟨by rw [same]; rfl, server⟩
  · simp only [Database.perform, session, Option.some.injEq, Prod.mk.injEq] at performed
    obtain ⟨rfl, same⟩ := performed
    refine ⟨⟨by rw [← same], server⟩, ?_⟩
    rw [← same]
    exact Function.update_self _ _ _

/-- A statement that writes one thing. -/
theorem Writing.write {writes : List Write} {s₂ : State} {w : Write}
    (h : Writing t writes s s₁) (same : s₁.db.write t w = s₂.db) (server : s₂.server = s₁.server) :
    Writing t (writes ++ [w]) s s₂ := by
  rw [Database.write_of_transaction h.transaction] at same
  refine ⟨h.same.trans ⟨by rw [← same], server⟩, ?_⟩
  rw [← same]
  exact Function.update_self _ _ _

theorem Writing.nowOf {writes : List Write} (h : Writing t writes s s₁) :
    s₁.db.nowOf t = s.db.now := by
  rw [Database.nowOf, h.transaction]

/-- The new order. -/
theorem serves_insertOrder {writes : List Write} {id userId : Uuid} {customerEmail : String}
    {items : Text.Json} {totalCents : ℤ} (writing : Writing t writes s s₁) :
    (servedAlone ctx t ids).Holds
      (fun row s' => row = ⟨id, userId, ctx.lower customerEmail, items, totalCents, .pending, s.db.now,
          s.db.now⟩ ∧ Writing t (writes ++ [.insertOrder row]) s s')
      (fun _ s' => Same s s')
      (query (.insertOrder id userId customerEmail items totalCents)) s₁ := by
  refine serves_statement writing fun sorted r s₂ performed server => ?_
  simp only [Database.perform, writing.nowOf] at performed
  split at performed
  · simp only [Option.some.injEq, Prod.mk.injEq] at performed
    obtain ⟨rfl, same⟩ := performed
    exact ⟨by rw [← same]; rfl, server⟩
  · simp only [Option.some.injEq, Prod.mk.injEq] at performed
    obtain ⟨rfl, same⟩ := performed
    exact ⟨rfl, writing.write same server⟩

/-- The audit row. -/
theorem serves_insertOrderEvent {writes : List Write} {eventId : Uuid} {id : String}
    {eventType : OrderEventType} {fromStatus : Option OrderStatus} {toStatus : OrderStatus}
    {user : Uuid} (writing : Writing t writes s s₁) :
    (servedAlone ctx t ids).Holds
      (fun _ s' => ∃ row, Writing t (writes ++ [.insertOrderEvent row]) s s')
      (fun _ s' => Same s s')
      (query (.insertOrderEvent eventId id eventType fromStatus toStatus user)) s₁ := by
  refine serves_statement writing fun sorted r s₂ performed server => ?_
  simp only [Database.perform] at performed
  split at performed
  · simp only [Option.some.injEq, Prod.mk.injEq] at performed
    obtain ⟨rfl, same⟩ := performed
    exact ⟨_, writing.write same server⟩
  · simp only [Option.some.injEq, Prod.mk.injEq] at performed
    obtain ⟨rfl, same⟩ := performed
    exact ⟨by rw [← same]; rfl, server⟩

/-- The event that tells of the order. -/
theorem serves_insertOutboxEvent {writes : List Write} {row : OutboxEventRow}
    (writing : Writing t writes s s₁) :
    (servedAlone ctx t ids).Holds
      (fun _ s' => Writing t (writes ++ [.insertOutboxEvent row]) s s')
      (fun _ s' => Same s s') (query (.insertOutboxEvent row)) s₁ := by
  refine serves_statement writing fun sorted r s₂ performed server => ?_
  simp only [Database.perform, Option.some.injEq, Prod.mk.injEq] at performed
  obtain ⟨rfl, same⟩ := performed
  exact writing.write same server

/-- The transaction becomes visible. -/
theorem serves_commit {writes : List Write} (writing : Writing t writes s s₁) :
    (servedAlone ctx t ids).Holds
      (fun _ s' => s'.db.tables = s.db.tables.applyAll writes ∧ s'.server = s.server)
      (fun _ s' => Same s s') (query .commit) s₁ := by
  refine serves_statement writing fun sorted r s₂ performed server => ?_
  simp only [Database.perform, writing.transaction, Option.some.injEq, Prod.mk.injEq] at performed
  obtain ⟨rfl, same⟩ := performed
  refine ⟨?_, server.trans writing.same.server⟩
  rw [← same, ← writing.same.tables]

/-- `ROLLBACK`, whether it succeeds or not. -/
theorem serves_rollback (s : State) :
    (servedAlone ctx t ids).Holds (fun _ => Same s) (fun _ => Same s) (query .rollback) s := by
  refine serves_query fun fails sorted r s' hexec server => ?_
  have same : Same s s' := ⟨(Database.exec_rollback hexec).tables, server⟩
  cases r with
  | none => exact same
  | some v => exact same

/-! ### Evaluations in which Redis answers -/

/-- What is known of a request that is served alone holds for its evaluation. -/
theorem served_evaluates {α : Type} {Q : α → State → Prop} {E : ApiError → State → Prop}
    {task : Route α} {log : List (Performed (machine ctx))} {result : Except ApiError α}
    (h : (servedAlone ctx t fun _ => True).Holds Q E task s)
    (evaluates : Evaluates (M := machine ctx) t task s log result s')
    (answers : ∀ p ∈ log, RedisAnswers p.choice p.op) :
    (∀ a, result = .ok a → Q a s') ∧ ∀ e, result = .error e → E e s' :=
  h.evaluates evaluates fun p mem => ⟨answers p mem, fun _ _ => trivial⟩

/-- `RedisAnswers`, decided. -/
def redisAnswers (p : Performed (machine ctx)) : Bool :=
  match p.op with
  | .redis _ => p.choice = .redis .none
  | .work _ => true

theorem redisAnswers_of {log : List (Performed (machine ctx))}
    (answers : log.all redisAnswers = true) : ∀ p ∈ log, RedisAnswers p.choice p.op := by
  intro p mem command same
  have answered := List.all_eq_true.mp answers p mem
  unfold redisAnswers at answered
  rw [same] at answered
  exact of_decide_eq_true answered

end OrderRoutes

end OrderPlatform
