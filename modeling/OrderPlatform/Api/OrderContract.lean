import OrderPlatform.Api.OrderStatements

/-!
# What the operations of a handler keep

One rule for each operation that the order handlers perform, in the form in which a proof about
a handler uses it: if this is known before, then that is known afterwards, whatever the other
requests do in between.

Redis commands and plain reads are *quiet*: to the request itself they are no worse than an
interruption, so nothing it knows is lost (`holds_redis`, `holds_read`).  The statements of a
transaction are private (`holds_statement`): what the request knows survives if it is a `Frame`.
`COMMIT` is where a request shows itself (`holds_commit`).
-/

namespace OrderPlatform

namespace OrderRoutes

open Async (Tid Program Contract)

variable {ctx : ApiContext} {A : Assumptions} {base : State} {t : Tid} {s s' : State}

/-- The contract of one request of the order service. -/
abbrev contract (ctx : ApiContext) (A : Assumptions) (base : State) (t : Tid) :
    Contract (machine ctx) :=
  (discipline ctx A base).contract (regime ctx A) t

theorem inv_of (step : (contract ctx A base t).rely s s') : Inv ctx A s' := step.1.1

theorem since_of (step : (contract ctx A base t).rely s s') : Since base s' := step.1.2

theorem rely_of (step : (contract ctx A base t).rely s s') : Rely t s s' := step.2

/-- Where an interruption may end, the request may go on at once. -/
theorem here_of (step : (contract ctx A base t).rely s s') : (contract ctx A base t).rely s' s' :=
  ⟨step.1, Rely.refl t s'⟩

/-- What is tolerable to the others is what the contract asks for. -/
theorem guar_of (step : (contract ctx A base t).rely s s') {s'' : State}
    (h : (core ctx A).Tolerable t s' s'') : (contract ctx A base t).guar s' s'' :=
  h.since Since.later (since_of step)

/-! ### Redis commands -/

/-- Only `INCR` is ever refused by the server. -/
private theorem incr_of_apply_none {c : Redis.Command} {store : Redis.Store}
    (refused : c.apply store = none) : ∃ key, c = .incr key := by
  cases c with
  | get key => cases refused
  | set key value n => cases refused
  | setNx key value n =>
      simp only [Redis.Command.apply] at refused
      split at refused <;> cases refused
  | del key => cases refused
  | incr key => exact ⟨key, rfl⟩

/-- A command that gets no answer although nothing is wrong with the connection is an `INCR` of
something else than the version counter. -/
private theorem unanswered {c : Redis.Command} {fault : Redis.Fault}
    (ok : CommandOk ctx A s.history c) (none : (s.redis t fault c).1 = none) :
    fault ≠ .none ∨ (familyOf c.key = .version ∧ ¬ VersionOk s) := by
  cases fault with
  | none =>
      right
      have refused : c.apply s.server.store = Option.none := by
        simp only [State.redis, Redis.Server.call] at none
        split at none
        · cases none
        · assumption
      obtain ⟨key, rfl⟩ := incr_of_apply_none refused
      cases (ok : key = versionKey)
      refine ⟨familyOf_versionKey, fun version => ?_⟩
      rw [apply_incr_version version] at refused
      cases refused
  | refused => exact .inl (by simp)
  | late => exact .inl (by simp)

/-- A command that gets an answer has been executed. -/
private theorem answered_of_some {c : Redis.Command} {fault : Redis.Fault} {reply : c.Reply}
    (some_reply : (s.redis t fault c).1 = some reply) :
    ∃ store, c.apply s.server.store = some (reply, store) ∧
      (s.redis t fault c).2 = { s with
        server := { s.server with store }
        history := s.history.redis t c (some reply) } := by
  cases fault with
  | none =>
      simp only [State.redis, Redis.Server.call] at some_reply ⊢
      split at some_reply
      · rename_i reply' store happly
        cases some_reply
        exact ⟨store, happly, rfl⟩
      · cases some_reply
  | refused => cases some_reply
  | late => cases some_reply

/-- **A Redis command.** -/
theorem holds_redis {c : Redis.Command} {Q : c.Reply → State → Prop}
    {E : ApiError → State → Prop}
    (ok : ∀ s', (contract ctx A base t).rely s s' →
      (A.coherent = true → Coherent t s'.history c) → CommandOk ctx A s'.history c)
    (own : ∀ s', (contract ctx A base t).rely s s' → Entitled t s'.history c)
    (answer : ∀ s' reply store s'', (contract ctx A base t).rely s s' →
      c.apply s'.server.store = some (reply, store) → (contract ctx A base t).rely s' s'' →
      (s'.history.redis t c (some reply)).Grows s''.history → Q reply s'')
    (error : ∀ s', (contract ctx A base t).rely s s' → A.answered = false →
      (A.recorded = true → familyOf c.key ≠ .record) → E .redis s') :
    (contract ctx A base t).quiet.Holds Q E (redis c) s := by
  intro s' step
  refine ⟨trivial, fun choice r s'' allowed hexec => ?_⟩
  cases choice with
  | redis fault =>
      obtain ⟨answered, recorded, coherent⟩ := allowed
      have may := ok s' step coherent
      obtain ⟨rfl, rfl⟩ : r = (s'.redis t fault c).1 ∧ s'' = (s'.redis t fault c).2 := by
        cases hexec
        exact ⟨rfl, rfl⟩
      have tolerable : (core ctx A).Tolerable t s' (s'.redis t fault c).2 :=
        ⟨(inv_of step).redis may answered, fun u other => redis_rely fun same => absurd same other⟩
      have mine : (contract ctx A base t).rely s' (s'.redis t fault c).2 :=
        ⟨(guar_of step tolerable).1, redis_rely fun _ => own s' step⟩
      refine ⟨⟨guar_of step tolerable, mine⟩, ?_⟩
      cases hr : (s'.redis t fault c).1 with
      -- a command fails by a fault, or because the version of the lists is not a number
      | none =>
          intro s₃ later
          have wrong := unanswered may hr
          refine error s₃ ((contract ctx A base t).rely_trans step
            ((contract ctx A base t).rely_trans mine later)) ?_ ?_
          · by_contra clean
            rw [Bool.not_eq_false] at clean
            rcases wrong with fault | ⟨_, broken⟩
            · exact fault (answered clean)
            · exact broken ((inv_of step).version clean).1
          · intro clean family
            rcases wrong with fault | ⟨version, _⟩
            · exact fault (recorded clean family)
            · rw [family] at version
              cases version
      | some reply =>
          intro s₃ later
          obtain ⟨store, happly, after⟩ := answered_of_some hr
          have grows := (rely_of later).grows
          rw [after] at grows
          exact answer s' reply store s₃ step happly
            ((contract ctx A base t).rely_trans mine later) grows
  | _ => cases hexec

/-- `GET`: the value that was there at some moment. -/
theorem holds_get {key : String} {Q : Option String → State → Prop} {E : ApiError → State → Prop}
    (read : ∀ s' s'', (contract ctx A base t).rely s s' → (contract ctx A base t).rely s' s'' →
      Q ((s'.server.store key).map Redis.Entry.value) s'')
    (error : ∀ s', (contract ctx A base t).rely s s' → A.answered = false → E .redis s') :
    (contract ctx A base t).quiet.Holds Q E (redis (.get key)) s := by
  refine holds_redis (fun _ _ _ => trivial) (fun _ _ => trivial) ?_
    fun s' step answered _ => error s' step answered
  intro s' reply store s'' step happly later _
  cases happly
  exact read s' s'' step later

/-- `SET`, for its effect alone. -/
theorem holds_set {key value : String} {seconds : ℕ} {Q : Unit → State → Prop}
    {E : ApiError → State → Prop}
    (ok : ∀ s', (contract ctx A base t).rely s s' →
      (A.coherent = true → Coherent t s'.history (.set key value seconds)) →
        key ≠ versionKey ∧ EntryOk ctx A s'.history key value)
    (done : ∀ s', (contract ctx A base t).rely s s' → Q () s')
    (error : ∀ s', (contract ctx A base t).rely s s' → A.answered = false →
      (A.recorded = true → familyOf key ≠ .record) → E .redis s') :
    (contract ctx A base t).quiet.Holds Q E (redis (.set key value seconds)) s :=
  holds_redis ok (fun _ _ => trivial)
    (fun _ _ _ s'' step _ later _ => done s'' ((contract ctx A base t).rely_trans step later)) error

/-- The key of an idempotency record is not the version counter. -/
theorem ne_versionKey_of_record {key : String} (family : familyOf key = .record) :
    key ≠ versionKey := by
  rintro rfl
  simp at family

/-- `SET … NX` and `DEL` on idempotency records, for their effect alone. -/
theorem holds_setNx {key value : String} {seconds : ℕ} {P : State → Prop}
    (ok : ∀ s', (contract ctx A base t).rely s s' →
      key ≠ versionKey ∧ EntryOk ctx A s'.history key value)
    (stable : ∀ s', (contract ctx A base t).rely s s' → P s') :
    (contract ctx A base t).quiet.Holds (fun _ => P) (fun _ => P)
      (redis (.setNx key value seconds)) s :=
  holds_redis (fun s' step _ => ok s' step) (fun _ _ => trivial)
    (fun _ _ _ s'' step _ later _ => stable s'' ((contract ctx A base t).rely_trans step later))
    fun s' step _ _ => stable s' step

theorem holds_delRecord {key : String} {P : State → Prop} (family : familyOf key = .record)
    (stable : ∀ s', (contract ctx A base t).rely s s' → P s') :
    (contract ctx A base t).quiet.Holds (fun _ => P) (fun _ => P) (redis (.del key)) s :=
  holds_redis (fun _ _ _ => ne_versionKey_of_record family)
    (fun _ _ entity => by rw [family] at entity; cases entity)
    (fun _ _ _ s'' step _ later _ => stable s'' ((contract ctx A base t).rely_trans step later))
    fun s' step _ _ => stable s' step

/-- Raise the list version, after a commit: where commands are answered, it is raised. -/
theorem holds_invalidateListNamespace {P : State → Prop}
    (committed : ∀ s', (contract ctx A base t).rely s s' → s'.history.Committed t ∧ P s') :
    (contract ctx A base t).quiet.Holds
      (fun _ s' => P s' ∧
        (ctx.config.cacheEnabled = true → A.answered = true → t ∈ s'.history.bumped))
      (fun _ _ => False) (invalidateListNamespace ctx cacheNamespaces.ordersList) s := by
  unfold invalidateListNamespace
  split
  · refine Contract.Holds.recover _ (Contract.Holds.map _ (holds_redis (fun _ _ _ => rfl)
      (fun s' step => (committed s' step).1) ?_ ?_))
    · intro s' reply store s'' step _ later grows
      refine ⟨(committed s'' ((contract ctx A base t).rely_trans step later)).2, fun _ _ => ?_⟩
      exact grows.bumped.subset (History.mem_bumped_redis.mpr (.inr ⟨⟨_, rfl⟩, rfl, rfl⟩))
    · intro s' step late _
      exact ⟨(committed s' step).2, fun _ answered => by simp [late] at answered⟩
  · rename_i disabled
    exact fun s' step => ⟨(committed s' step).2, fun enabled => absurd enabled disabled⟩

/-- Delete the entry of an order, after a commit: where commands are answered, it is deleted. -/
theorem holds_invalidateEntity {id : String} {P : State → Prop}
    (committed : ∀ s', (contract ctx A base t).rely s s' → s'.history.Committed t ∧ P s') :
    (contract ctx A base t).quiet.Holds
      (fun _ s' => P s' ∧ (ctx.config.cacheEnabled = true → A.answered = true →
        (t, orderEntityKey id) ∈ s'.history.deleted))
      (fun _ _ => False) (invalidateEntity ctx (orderEntityKey id)) s := by
  unfold invalidateEntity
  split
  · have other : orderEntityKey id ≠ versionKey := fun same => by
      simpa using congrArg familyOf same
    refine Contract.Holds.recover _ (Contract.Holds.map _ (holds_redis (fun _ _ _ => other)
      (fun s' step _ => (committed s' step).1) ?_ ?_))
    · intro s' reply store s'' step _ later grows
      refine ⟨(committed s'' ((contract ctx A base t).rely_trans step later)).2, fun _ _ => ?_⟩
      exact grows.deleted.subset (History.mem_deleted_redis.mpr (.inr ⟨_, rfl, rfl, rfl⟩))
    · intro s' step late _
      exact ⟨(committed s' step).2, fun _ answered => by simp [late] at answered⟩
  · rename_i disabled
    exact fun s' step => ⟨(committed s' step).2, fun enabled => absurd enabled disabled⟩

/-! ### The process -/

/-- What a request knows of an order that only it can know of. -/
def Unborn (t : Tid) (id : Uuid) (s : State) : Prop :=
  s.generated id = some t ∧ s.db.tables.order? id = none

theorem Unborn.later {id : Uuid} (h : Unborn t id s) (step : Rely t s s') : Unborn t id s' :=
  ⟨step.generated id h.1, step.unborn id h.1 h.2⟩

/-- The identifier is written down as taken. -/
def State.generate (t : Tid) (id : Uuid) (s : State) : State :=
  { s with generated := Function.update s.generated id (some t) }

private theorem exec_randomUUID {c : Choice} {r : Uuid}
    (hexec : exec ctx t c (.work .randomUUID) s = some (r, s')) :
    s.generated r = none ∧ s' = s.generate t r := by
  cases c with
  | fresh id =>
      change (if s.generated id = none then some (id, s.generate t id) else none) = some (r, s')
        at hexec
      split at hexec
      · rename_i unused
        cases hexec
        exact ⟨unused, rfl⟩
      · cases hexec
  | _ => cases hexec

private theorem private_generate {id : Uuid} (unused : s.generated id = none) :
    Private t s (s.generate t id) where
  server := rfl
  db := .refl t _
  generated id' := by
    by_cases same : id' = id
    · subst same
      exact .inr ⟨unused, Function.update_self _ _ _⟩
    · exact .inl (Function.update_of_ne same _ _)
  commits := rfl
  deleted := rfl
  bumped := rfl
  readAt _ _ := rfl
  header _ _ := rfl
  opened _ _ := rfl
  released _ _ := rfl

/-- To the request itself a new identifier is no worse than an interruption. -/
private theorem rely_generate (id : Uuid) : Rely t s (s.generate t id) where
  grows := .refl _
  committed := fun now => now
  bumped := .inl
  deleted _ := .inl
  readAt := rfl
  header := rfl
  opened := rfl
  released := rfl
  transaction _ := rfl
  holder _ _ := Iff.rfl
  locked _ _ _ := rfl
  generated id' own := by
    by_cases same : id' = id
    · subst same
      exact Function.update_self _ _ _
    · exact (Function.update_of_ne same _ _).trans own
  unborn _ _ none := none
  events := List.prefix_rfl

/-- A new identifier: nobody else has it, and no order has it. -/
theorem holds_randomUUID :
    (contract ctx A base t).quiet.Holds (fun id => Unborn t id) (fun _ _ => False) randomUUID
      s := by
  intro s' interrupted
  refine ⟨trivial, fun choice r s'' _ hexec => ?_⟩
  obtain ⟨unused, rfl⟩ := exec_randomUUID hexec
  have missing : s'.db.tables.order? r = none := by
    cases found : s'.db.tables.order? r with
    | none => rfl
    | some row =>
        obtain ⟨mem, same⟩ := Tables.mem_of_order? found
        exact absurd (same ▸ unused) ((inv_of interrupted).born row mem)
  have tolerable := (private_generate unused).tolerable (t := t) (inv_of interrupted)
  have guar := guar_of interrupted tolerable
  have unborn : Unborn t r (s'.generate t r) := ⟨Function.update_self _ _ _, missing⟩
  exact ⟨⟨guar, guar.1, rely_generate r⟩, fun s₃ later => unborn.later (rely_of later)⟩

theorem holds_clock : (contract ctx A base t).quiet.Holds (fun _ _ => True) (fun _ _ => False)
    clock s := by
  intro s' interrupted
  refine ⟨trivial, fun choice r s'' _ hexec => ?_⟩
  cases choice with
  | time ms =>
      cases hexec
      have still : (core ctx A).Tolerable t s' s' :=
        ⟨inv_of interrupted, fun u _ => Rely.refl u s'⟩
      exact ⟨⟨guar_of interrupted still, here_of interrupted⟩, fun _ _ => trivial⟩
  | _ => cases hexec

/-- The `X-Cache` header is the request's own. -/
theorem holds_header {value : XCache} {P : State → Prop}
    (stable : ∀ s', (contract ctx A base t).rely s s' → P s')
    (own : ∀ {s s'}, Private t s s' → s'.db = s.db → s'.history = s.history →
      SameConnections t s s' → P s → P s')
    (later : ∀ {s s'}, Rely t s s' → P s → P s') :
    (contract ctx A base t).Holds (fun _ => P) (fun _ _ => False) (header value) s := by
  intro s' interrupted
  refine ⟨trivial, fun choice r s'' _ hexec => ?_⟩
  cases choice with
  | succeeds =>
      cases hexec
      have quiet : Private t s' { s' with header := Function.update s'.header t (some value) } :=
        ⟨rfl, .refl t _, fun _ => .inl rfl, rfl, rfl, rfl, fun _ _ => rfl,
          fun _ other => Function.update_of_ne other _ _, fun _ _ => rfl, fun _ _ => rfl⟩
      exact ⟨guar_of interrupted (quiet.tolerable (inv_of interrupted)), fun s₃ after =>
        later (rely_of after) (own quiet rfl rfl ⟨rfl, rfl⟩ (stable s' interrupted))⟩
  | _ => cases hexec

/-- A connection is had, or it is not. -/
theorem holds_connect {F : State → Prop} (frame : ∀ {s s'}, Rely t s s' → F s → F s')
    (own : ∀ {s s'}, Private t s s' → F s → F s') (session : Session t 0 none s) (known : F s) :
    (contract ctx A base t).Holds (fun _ s' => Session t 1 none s' ∧ F s') (fun _ => Clean t 0)
      connect s := by
  intro s' interrupted
  have session' := session.later (rely_of interrupted)
  refine ⟨trivial, fun choice r s'' _ hexec => ?_⟩
  cases choice with
  | succeeds =>
      cases hexec
      have quiet : Private t s' { s' with
          opened := Function.update s'.opened t (s'.opened t + 1) } :=
        ⟨rfl, .refl t _, fun _ => .inl rfl, rfl, rfl, rfl, fun _ _ => rfl, fun _ _ => rfl,
          fun _ other => Function.update_of_ne other _ _, fun _ _ => rfl⟩
      have after : Session t 1 none { s' with
          opened := Function.update s'.opened t (s'.opened t + 1) } :=
        ⟨⟨quiet.untouched session'.untouched, by simp [session'.opened], session'.released⟩,
          session'.transaction⟩
      exact ⟨guar_of interrupted (quiet.tolerable (inv_of interrupted)), fun s₃ later =>
        ⟨after.later (rely_of later),
          frame (rely_of later) (own quiet (frame (rely_of interrupted) known))⟩⟩
  | fails =>
      cases hexec
      have still : (core ctx A).Tolerable t s' s' :=
        ⟨inv_of interrupted, fun u _ => Rely.refl u s'⟩
      exact ⟨guar_of interrupted still, fun s₃ later => session'.clean.later (rely_of later)⟩
  | _ => cases hexec

/-! ### Statements -/

/-- How a statement that is awaited may go. -/
theorem exec_sql {c : Choice} {st : Statement} {r : Option st.Result}
    (hexec : exec ctx t c (.work (.sql st)) s = some (r, s')) :
    ∃ fails sorted, s.sql ctx t fails sorted st = some (r, s') := by
  cases c with
  | succeeds => exact ⟨false, [], hexec⟩
  | fails => exact ⟨true, [], hexec⟩
  | rows sorted => exact ⟨false, sorted, hexec⟩
  | _ => cases hexec

/-- A Redis command that is awaited. -/
theorem exec_redis {c : Choice} {command : Redis.Command} {r : Option command.Reply}
    (hexec : exec ctx t c (.redis command) s = some (r, s')) :
    ∃ fault, c = .redis fault ∧ r = (s.redis t fault command).1 ∧
      s' = (s.redis t fault command).2 := by
  cases c with
  | redis fault =>
      cases hexec
      exact ⟨fault, rfl, rfl, rfl⟩
  | _ => cases hexec

/-- A header that is set. -/
theorem exec_header {c : Choice} {value : XCache} {r : Unit}
    (hexec : exec ctx t c (.work (.header value)) s = some (r, s')) :
    c = .succeeds ∧ s' = { s with header := Function.update s.header t (some value) } := by
  cases c with
  | succeeds =>
      cases hexec
      exact ⟨rfl, rfl⟩
  | _ => cases hexec

/-- What a request knows of its transaction beyond what it has written: it survives
interruptions, and it survives the request's own private steps as long as these leave the locks
alone. -/
structure Frame (t : Tid) (F : State → Prop) : Prop where
  later : ∀ {s s'}, s.released t = 0 → Rely t s s' → F s → F s'
  own : ∀ {s s'}, Private t s s' → s'.db.holder = s.db.holder → F s → F s'

variable {n : ℕ}

/-- **A statement of a live session, other than `COMMIT`.**  Where it fails, nothing has
happened; otherwise it does what `Database.perform` says, unnoticed. -/
theorem holds_statement {st : Statement} {tx : Option Transaction} {Q : st.Result → State → Prop}
    (session : Session t n tx s) (live : ∀ x, tx = some x → x.aborted = false)
    (notCommit : st ≠ .commit) (stable : ∀ r s s', Rely t s s' → Q r s → Q r s')
    (step : ∀ s' sorted r db, (contract ctx A base t).rely s s' → Session t n tx s' →
      s'.db.perform ctx t sorted st = some (r, db) →
        s'.db.Local t db ∧
          ∀ reply, r = some reply → ∀ s'', Private t s' s'' → s''.db = db →
            SameConnections t s' s'' → Q reply s'') :
    (contract ctx A base t).Holds Q (fun _ => Clean t n) (query st) s := by
  intro s' interrupted
  refine ⟨trivial, fun choice r s'' _ hexec => ?_⟩
  have session' := session.later (rely_of interrupted)
  obtain ⟨fails, sorted, hsql⟩ := exec_sql hexec
  obtain ⟨db, hdb, rfl⟩ := sql_cases hsql
  have alive : ∀ x, s'.db.transaction t = some x → x.aborted = false :=
    fun x now => live x (session'.transaction.symm.trans now)
  rcases Database.exec_live alive hdb with ⟨rfl, rfl⟩ | performed
  · have loc : s'.db.Local t (s'.db.abort t) := Database.local_abort
    have quiet := private_sql none (s'.pending t) (s'.db.abort t).tables loc notCommit
    refine ⟨guar_of interrupted (quiet.tolerable (inv_of interrupted)), fun s₃ later => ?_⟩
    exact (session'.clean.step quiet ⟨rfl, rfl⟩).later (rely_of later)
  · obtain ⟨loc, known⟩ := step s' sorted r db interrupted session' performed
    have quiet := private_sql r (s'.pending t) db.tables loc notCommit
    refine ⟨guar_of interrupted (quiet.tolerable (inv_of interrupted)), ?_⟩
    cases r with
    | none =>
        exact fun s₃ later => (session'.clean.step quiet ⟨rfl, rfl⟩).later (rely_of later)
    | some reply =>
        exact fun s₃ later => stable reply _ s₃ (rely_of later)
          (known reply rfl _ quiet rfl ⟨rfl, rfl⟩)

/-- `BEGIN`. -/
theorem holds_begin {F : State → Prop} (frame : Frame t F) (session : Session t n none s)
    (known : F s) :
    (contract ctx A base t).Holds
      (fun _ s' => (∃ start, Session t n (some ⟨start, [], false⟩) s') ∧ F s')
      (fun _ => Clean t n) (query .begin) s := by
  refine holds_statement session nofun nofun ?_ ?_
  · rintro r s s' later ⟨⟨start, session⟩, known⟩
    exact ⟨⟨start, session.later later⟩, frame.later session.released later known⟩
  · intro s' sorted r db interrupted session' performed
    simp only [Database.perform, session'.transaction, Option.some.injEq, Prod.mk.injEq]
      at performed
    obtain ⟨rfl, rfl⟩ := performed
    refine ⟨Database.local_transaction _, fun _ _ s'' quiet hdb same => ⟨⟨s'.db.now, ?_⟩, ?_⟩⟩
    · exact session'.step quiet same (by simp [hdb])
    · exact frame.own quiet (by rw [hdb])
        (frame.later session.released (rely_of interrupted) known)

/-- A statement that writes one row into its transaction. -/
theorem holds_write (st : Statement) {start : ℕ} {writes : List Write} {F : State → Prop}
    {R : st.Result → Prop} (W : st.Result → Write) (frame : Frame t F)
    (session : Session t n (some ⟨start, writes, false⟩) s) (known : F s) (notCommit : st ≠ .commit)
    (effect : ∀ s' sorted r db, Session t n (some ⟨start, writes, false⟩) s' → F s' →
      s'.db.perform ctx t sorted st = some (r, db) →
        (r = none ∧ db = s'.db.abort t) ∨
          ∃ reply, r = some reply ∧ R reply ∧ db = s'.db.write t (W reply)) :
    (contract ctx A base t).Holds
      (fun reply s' =>
        R reply ∧ Session t n (some ⟨start, writes ++ [W reply], false⟩) s' ∧ F s')
      (fun _ => Clean t n) (query st) s := by
  refine holds_statement session (fun _ live => by cases live; rfl) notCommit ?_ ?_
  · rintro r s s' later ⟨result, session, known⟩
    exact ⟨result, session.later later, frame.later session.released later known⟩
  · intro s' sorted r db interrupted session' performed
    have known' := frame.later session.released (rely_of interrupted) known
    rcases effect s' sorted r db session' known' performed with ⟨rfl, rfl⟩ |
      ⟨reply, rfl, result, rfl⟩
    · exact ⟨Database.local_abort, nofun⟩
    · rw [Database.write_of_transaction session'.transaction]
      refine ⟨Database.local_transaction _, fun _ same s'' quiet hdb connections => ?_⟩
      cases same
      exact ⟨result, session'.step quiet connections (by simp [hdb]),
        frame.own quiet (by rw [hdb]) known'⟩

/-! ### Reads outside a transaction -/

/-- Where no transaction is open, a failed statement leaves no trace. -/
theorem Database.abort_of_none {db : Database} (closed : db.transaction t = none) :
    db.abort t = db := by
  have same : Function.update db.transaction t none = db.transaction := by
    rw [← closed, Function.update_eq_self]
  simp only [Database.abort, closed, Option.map_none, same]

/-- A statement that only reads, sent where no transaction is open, changes nothing. -/
private theorem exec_read {st : Statement} {fails : Bool} {sorted : List OrderRow}
    {r : Option st.Result} (closed : s.db.transaction t = none)
    (reads : ∀ r db, s.db.perform ctx t sorted st = some (r, db) → db = s.db ∧ r ≠ none)
    (hsql : s.sql ctx t fails sorted st = some (r, s')) :
    s' = { s with history := s.history.sql t (s.pending t) s.db.tables st r } ∧
      ∀ v, r = some v → s.db.perform ctx t sorted st = some (some v, s.db) := by
  obtain ⟨db, hdb, rfl⟩ := sql_cases hsql
  have alive : ∀ x, s.db.transaction t = some x → x.aborted = false := fun x now => by
    rw [closed] at now
    cases now
  rcases Database.exec_live alive hdb with ⟨rfl, rfl⟩ | performed
  · rw [Database.abort_of_none closed]
    exact ⟨rfl, nofun⟩
  · obtain ⟨rfl, _⟩ := reads r db performed
    refine ⟨rfl, fun v same => ?_⟩
    rw [performed, same]

/-- A list query or a count. -/
private theorem holds_read {st : Statement} {Q : st.Result → State → Prop}
    (session : Session t n none s)
    (reads : ∀ db sorted r db', Database.perform ctx t sorted db st = some (r, db') →
      db' = db ∧ r ≠ none)
    (unnoted : ∀ (h : History) writes tables r, h.sql t writes tables st r = h)
    (read : ∀ s' s'' sorted v, (contract ctx A base t).rely s s' →
      (contract ctx A base t).rely s' s'' →
        s'.db.perform ctx t sorted st = some (some v, s'.db) → Q v s'') :
    (contract ctx A base t).quiet.Holds Q (fun _ => Clean t n) (query st) s := by
  intro s' interrupted
  refine ⟨trivial, fun choice r s'' _ hexec => ?_⟩
  have session' := session.later (rely_of interrupted)
  obtain ⟨fails, sorted, hsql⟩ := exec_sql hexec
  obtain ⟨rfl, found⟩ := exec_read session'.transaction (fun r db => reads s'.db sorted r db) hsql
  have unchanged := unnoted s'.history (s'.pending t) s'.db.tables r
  rw [show { s' with history := s'.history.sql t (s'.pending t) s'.db.tables st r } = s' from
    congrArg (fun history => { s' with history }) unchanged]
  have still : (core ctx A).Tolerable t s' s' :=
    ⟨inv_of interrupted, fun u _ => Rely.refl u s'⟩
  refine ⟨⟨guar_of interrupted still, here_of interrupted⟩, ?_⟩
  cases r with
  | none => exact fun s₃ later => session'.clean.later (rely_of later)
  | some v =>
      exact fun s₃ later => read s' s₃ sorted v interrupted later (found v rfl)

/-- **A list query.**  Its rows are read now, which is recent enough for every version that has
been reached. -/
theorem holds_selectOrders {request : ListOrdersQuery} {user : Uuid} {v : ℕ}
    (session : Session t n none s)
    (raised : A.answered = true → v ≤ s.history.bumped.length) :
    (contract ctx A base t).quiet.Holds
      (fun rows s' => ∃ i, RowsAt ctx s'.history request user i rows ∧
        (A.answered = true → Recent s'.history v i))
      (fun _ => Clean t n)
      (query (.selectOrders (request.filter ctx user) request.pageSize (paginationOffset request)))
      s := by
  refine holds_read session ?_ (fun _ _ _ _ => rfl) ?_
  · intro db sorted r db' performed
    simp only [Database.perform] at performed
    split at performed <;> cases performed
    exact ⟨rfl, nofun⟩
  · intro s' s'' sorted rows interrupted later performed
    have session' := session.later (rely_of interrupted)
    simp only [Database.perform] at performed
    split at performed
    · rename_i page
      cases performed
      rw [Database.view_of_none session'.transaction] at page
      have rowsAt : RowsAt ctx s'.history request user s'.history.commits.length
          ((sorted.drop (paginationOffset request)).take request.pageSize) :=
        ⟨_, (inv_of interrupted).latest, sorted, page.1, page.2, rfl⟩
      refine ⟨_, rowsAt.later (rely_of later).grows, fun answered => ?_⟩
      have reached := (raised answered).trans (rely_of interrupted).grows.bumped.length_le
      exact (recent_latest reached).later (rely_of later).grows rowsAt.le
    · cases performed

/-- **A count.** -/
theorem holds_countOrders {filter : OrderFilter} {v : ℕ} (session : Session t n none s)
    (raised : A.answered = true → v ≤ s.history.bumped.length) :
    (contract ctx A base t).quiet.Holds
      (fun text s' => ∃ i total, text = toString total ∧ TotalAt ctx s'.history filter i total ∧
        (A.answered = true → Recent s'.history v i))
      (fun _ => Clean t n) (query (.countOrders filter)) s := by
  refine holds_read session ?_ (fun _ _ _ _ => rfl) ?_
  · rintro db sorted r db' ⟨⟩
    exact ⟨rfl, nofun⟩
  · intro s' s'' sorted text interrupted later performed
    have session' := session.later (rely_of interrupted)
    cases performed
    rw [Database.view_of_none session'.transaction]
    have totalAt : TotalAt ctx s'.history filter s'.history.commits.length
        (s'.db.tables.select ctx filter).length := ⟨_, (inv_of interrupted).latest, rfl⟩
    refine ⟨_, _, rfl, totalAt.later (rely_of later).grows, fun answered => ?_⟩
    have reached := (raised answered).trans (rely_of interrupted).grows.bumped.length_le
    exact (recent_latest reached).later (rely_of later).grows totalAt.le

/-- **The row of an order**, read outside a transaction: now, which is after everything that was
committed by those who have deleted the entry of the order. -/
theorem holds_selectOrder {id : String} (session : Session t n none s) :
    (contract ctx A base t).Holds
      (fun (row : Option OrderRow) s' => Session t n none s' ∧
        ∀ x, row = some x → RowAt s'.history id (s'.history.readAt t) x ∧
          ∀ d ∈ base.history.deleted, d.2 = orderEntityKey id →
            d ∈ s'.history.deleted ∧ s'.history.Covers (s'.history.readAt t) d.1)
      (fun _ => Clean t n) (query (.selectOrder id)) s := by
  intro s' interrupted
  refine ⟨trivial, fun choice r s'' _ hexec => ?_⟩
  have session' := session.later (rely_of interrupted)
  obtain ⟨fails, sorted, hsql⟩ := exec_sql hexec
  have reads : ∀ r db, s'.db.perform ctx t sorted (.selectOrder id) = some (r, db) →
      db = s'.db ∧ r ≠ none := by
    rintro r db ⟨⟩
    exact ⟨rfl, nofun⟩
  obtain ⟨rfl, found⟩ := exec_read session'.transaction reads hsql
  have quiet := private_sql r (s'.pending t) s'.db.tables
    (Database.Local.refl t s'.db) (nofun : Statement.selectOrder id ≠ .commit)
  refine ⟨guar_of interrupted (quiet.tolerable (inv_of interrupted)), ?_⟩
  have after := session'.step quiet ⟨rfl, rfl⟩ session'.transaction
  cases r with
  | none => exact fun s₃ later => (after.later (rely_of later)).clean
  | some row =>
      intro s₃ later
      refine ⟨after.later (rely_of later), ?_⟩
      rintro x rfl
      have now : s₃.history.readAt t = s'.history.commits.length :=
        (rely_of later).readAt.trans (Function.update_self _ _ _)
      have same := found _ rfl
      simp only [Database.perform, Option.some.injEq, Prod.mk.injEq, and_true] at same
      rw [Database.view_of_none session'.transaction] at same
      have rowAt : RowAt s'.history id s'.history.commits.length x :=
        ⟨_, (inv_of interrupted).latest, Option.some.inj same⟩
      rw [now]
      refine ⟨(rowAt.later quiet.grows).later (rely_of later).grows, fun d mem key => ?_⟩
      have grows := quiet.grows.trans (rely_of later).grows
      have deleted := (since_of interrupted).deleted.subset mem
      exact ⟨grows.deleted.subset deleted,
        grows.covers_of rowAt.le (.inr ⟨id, key ▸ deleted⟩) (s'.history.covers_latest d.1)⟩

/-- The request has been given this many connections, and has given none back. -/
def Connected (t : Tid) (n : ℕ) (s : State) : Prop := s.opened t = n ∧ s.released t = 0

theorem Connected.later (h : Connected t n s) (step : Rely t s s') : Connected t n s' :=
  ⟨step.opened.trans h.1, step.released.trans h.2⟩

theorem Clean.connected (h : Clean t n s) : Connected t n s := ⟨h.opened, h.released⟩

/-- **`COMMIT` of what publishes.**  Either it fails and nothing has happened, or it is done. -/
theorem holds_commit {start : ℕ} {writes : List Write}
    (session : Session t n (some ⟨start, writes, false⟩) s) (some_write : writes ≠ [])
    (publishes : ∀ s', (contract ctx A base t).rely s s' →
      Session t n (some ⟨start, writes, false⟩) s' →
        (A.timely = true → ∀ w ∈ writes, WriteInTurn start s'.db.tables w) →
          Publishes A t s' (s'.db.tables.applyAll writes)) :
    (contract ctx A base t).Holds
      (fun _ s' => s'.history.Published t writes ∧ Connected t n s') (fun _ => Clean t n)
      (query .commit) s := by
  intro s' interrupted
  refine ⟨trivial, fun choice r s'' allowed hexec => ?_⟩
  have session' := session.later (rely_of interrupted)
  obtain ⟨fails, sorted, hsql⟩ := exec_sql hexec
  obtain ⟨db, hdb, rfl⟩ := sql_cases hsql
  have alive : ∀ x, s'.db.transaction t = some x → x.aborted = false := fun x now => by
    rw [session'.transaction] at now
    cases now
    rfl
  rcases Database.exec_live alive hdb with ⟨rfl, rfl⟩ | performed
  -- it fails, and the transaction is aborted
  · have quiet : Private t s' { s' with db := s'.db.abort t } := private_db Database.local_abort
    refine ⟨guar_of interrupted (quiet.tolerable (inv_of interrupted)), fun s₃ later => ?_⟩
    exact (session'.clean.step quiet ⟨rfl, rfl⟩).later (rely_of later)
  -- it is done, and what was pending is now the last commit of the history
  · simp only [Database.perform, session'.transaction, Option.some.injEq] at performed
    obtain ⟨rfl, rfl⟩ := performed
    have pending : s'.pending t = writes := by simp only [State.pending, session'.transaction]
    have inTurn : A.timely = true → ∀ w ∈ writes, WriteInTurn start s'.db.tables w :=
      fun timely => allowed timely _ session'.transaction
    have published := (publishes s' interrupted session' inTurn).tolerable session'.untouched
      (inv_of interrupted)
    have after : s'.publish t (s'.db.tables.applyAll writes) = { s' with
        db := { s'.db.endTransaction t with tables := s'.db.tables.applyAll writes }
        history := s'.history.sql t (s'.pending t) (s'.db.tables.applyAll writes) .commit
          (some ()) } := by
      simp only [State.publish, History.sql, pending, some_write, if_false]
    have done : (s'.publish t (s'.db.tables.applyAll writes)).history.Published t writes := by
      refine ⟨s'.history.commits.length, s'.db.tables, ?_, by simp [State.publish]⟩
      obtain ⟨lt, _⟩ := List.getElem?_eq_some_iff.mp (inv_of interrupted).latest
      have latest := (inv_of interrupted).latest
      simp only [History.states] at lt latest
      simp only [State.publish, History.states, List.map_append, ← List.cons_append]
      rw [List.getElem?_append_left lt, latest]
    have later : ∀ s₃, Rely t (s'.publish t (s'.db.tables.applyAll writes)) s₃ →
        s₃.history.Published t writes ∧ Connected t n s₃ := fun s₃ step =>
      ⟨step.grows.published done,
        step.opened.trans session'.opened, step.released.trans session'.released⟩
    rw [after] at published later
    exact ⟨guar_of interrupted published, fun s₃ step => later s₃ (rely_of step)⟩

/-- `COMMIT` of nothing. -/
theorem holds_commitNothing {start : ℕ} (session : Session t n (some ⟨start, [], false⟩) s) :
    (contract ctx A base t).Holds (fun _ => Clean t n) (fun _ => Clean t n) (query .commit)
      s := by
  intro s' interrupted
  refine ⟨trivial, fun choice r s'' _ hexec => ?_⟩
  have session' := session.later (rely_of interrupted)
  obtain ⟨fails, sorted, hsql⟩ := exec_sql hexec
  obtain ⟨db, hdb, rfl⟩ := sql_cases hsql
  have pending : s'.pending t = [] := by simp only [State.pending, session'.transaction]
  have loc : s'.db.Local t db := by
    have alive : ∀ x, s'.db.transaction t = some x → x.aborted = false := fun x now => by
      rw [session'.transaction] at now
      cases now
      rfl
    rcases Database.exec_live alive hdb with ⟨rfl, rfl⟩ | performed
    · exact Database.local_abort
    · simp only [Database.perform, session'.transaction, Option.some.injEq] at performed
      obtain ⟨rfl, rfl⟩ := performed
      exact Database.local_endTransaction
  have quiet : Private t s' { s' with
      db, history := s'.history.sql t (s'.pending t) db.tables .commit r } := by
    have same : s'.history.sql t (s'.pending t) db.tables .commit r = s'.history := by
      cases r <;> simp [History.sql, pending]
    rw [same]
    exact private_db loc
  refine ⟨guar_of interrupted (quiet.tolerable (inv_of interrupted)), ?_⟩
  have clean := session'.clean.step quiet ⟨rfl, rfl⟩
  cases r with
  | none => exact fun s₃ later => clean.later (rely_of later)
  | some _ => exact fun s₃ later => clean.later (rely_of later)

/-! ### The end of a transaction -/

/-- What a request still knows after it has rolled back or given its connection back. -/
structure Kept (t : Tid) (P : State → Prop) : Prop where
  later : ∀ {s s'}, Rely t s s' → P s → P s'
  own : ∀ {s s'}, Private t s s' → P s → P s'

theorem kept_untouched : Kept t (Untouched t) := ⟨fun later h => h.later later, Private.untouched⟩

theorem kept_published {writes : List Write} :
    Kept t (fun s => s.history.Published t writes) :=
  ⟨fun later h => later.grows.published h, fun step h => step.grows.published h⟩

theorem kept_and {P P' : State → Prop} (h : Kept t P) (h' : Kept t P') :
    Kept t (fun s => P s ∧ P' s) :=
  ⟨fun later known => ⟨h.later later known.1, h'.later later known.2⟩,
    fun step known => ⟨h.own step known.1, h'.own step known.2⟩⟩

theorem kept_const {P : Prop} : Kept t (fun _ => P) := ⟨fun _ h => h, fun _ h => h⟩

/-- `ROLLBACK`, whether it succeeds or not. -/
theorem holds_rollback {P : State → Prop} (kept : Kept t P) (known : P s ∧ Connected t n s) :
    (contract ctx A base t).Holds (fun _ s' => P s' ∧ Connected t n s')
      (fun _ s' => P s' ∧ Connected t n s') (query .rollback) s := by
  intro s' interrupted
  refine ⟨trivial, fun choice r s'' _ hexec => ?_⟩
  obtain ⟨fails, sorted, hsql⟩ := exec_sql hexec
  obtain ⟨db, hdb, rfl⟩ := sql_cases hsql
  have quiet := private_sql r (s'.pending t) db.tables
    (Database.exec_rollback hdb) nofun
  refine ⟨guar_of interrupted (quiet.tolerable (inv_of interrupted)), ?_⟩
  have known' := kept.own quiet (kept.later (rely_of interrupted) known.1)
  have connected := known.2.later (rely_of interrupted)
  have after : ∀ s₃, Rely t _ s₃ → P s₃ ∧ Connected t n s₃ := fun s₃ later =>
    ⟨kept.later later known', later.opened.trans connected.1, later.released.trans connected.2⟩
  cases r with
  | none => exact fun s₃ later => after s₃ (rely_of later)
  | some _ => exact fun s₃ later => after s₃ (rely_of later)

theorem holds_rollbackIgnoring {P : State → Prop} (kept : Kept t P)
    (known : P s ∧ Connected t n s) :
    (contract ctx A base t).Holds (fun _ s' => P s' ∧ Connected t n s') (fun _ _ => False)
      rollbackIgnoring s :=
  Contract.Holds.recover _ (holds_rollback kept known)

/-- The request has given back the one connection it was given. -/
def Returned (t : Tid) (s : State) : Prop := s.opened t = 1 ∧ s.released t = 1

/-- The connection goes back. -/
theorem holds_release {P : State → Prop} (kept : Kept t P) (known : P s ∧ Connected t 1 s) :
    (contract ctx A base t).Holds (fun _ s' => P s' ∧ Returned t s') (fun _ _ => False)
      release s := by
  intro s' interrupted
  refine ⟨trivial, fun choice r s'' _ hexec => ?_⟩
  cases choice with
  | succeeds =>
      cases hexec
      have quiet : Private t s'
          { s' with released := Function.update s'.released t (s'.released t + 1) } :=
        ⟨rfl, .refl t _, fun _ => .inl rfl, rfl, rfl, rfl, fun _ _ => rfl, fun _ _ => rfl,
          fun _ _ => rfl, fun _ other => Function.update_of_ne other _ _⟩
      refine ⟨guar_of interrupted (quiet.tolerable (inv_of interrupted)), fun s₃ later => ?_⟩
      have connected := known.2.later (rely_of interrupted)
      refine ⟨kept.later (rely_of later) (kept.own quiet (kept.later (rely_of interrupted) known.1)),
        (rely_of later).opened.trans connected.1, (rely_of later).released.trans ?_⟩
      exact (Function.update_self _ _ _).trans (congrArg (· + 1) connected.2)
  | _ => cases hexec

/-- **`try`/`catch`/`finally` around a transaction**: what is known behind the work is known at
the end, and the connection has been given back. -/
theorem holds_withClient {α : Type} {work : Route α} {Q : α → State → Prop} {P : State → Prop}
    (keptQ : ∀ a, Kept t (Q a)) (keptP : Kept t P)
    (h : (contract ctx A base t).Holds (fun a s' => Q a s' ∧ Connected t 1 s')
      (fun _ s' => P s' ∧ Connected t 1 s') work s)
    (here : (contract ctx A base t).rely s s) :
    (contract ctx A base t).Holds (fun a s' => Q a s' ∧ Returned t s')
      (fun _ s' => P s' ∧ Returned t s') (withClient work) s := by
  have giveBack : ∀ {P E : State → Prop} {s' : State}, Kept t P → P s' ∧ Connected t 1 s' →
      (contract ctx A base t).Holds (fun _ s' => P s' ∧ Returned t s') (fun _ => E) release s' :=
    fun kept known => (holds_release kept known).mono (fun _ _ h => h)
      fun _ _ impossible => impossible.elim
  refine Contract.Holds.ensuring (Contract.Holds.attempt (h.mono ?_ ?_) here) here
  · exact fun a s' known _ => giveBack (keptQ a) known
  · intro e s' known here'
    refine Contract.Holds.bind ((holds_rollbackIgnoring keptP known).mono ?_ ?_) here'
    · intro _ s'' known _ s₃ later _
      exact giveBack keptP ⟨keptP.later (rely_of later) known.1, known.2.later (rely_of later)⟩
    · exact fun _ _ impossible => impossible.elim

end OrderRoutes

end OrderPlatform
