import OrderPlatform.Api.OrderAlone
import OrderPlatform.Api.OrderPlainReads

/-!
# One order under several spellings

A path names an order by a uuid in either case.  Postgres does not tell the cases apart, and the
key of the entity cache does, so one order may have several entries, of which a `PATCH` deletes the
one that it spells itself.

Requests are served one after another, every Redis command being answered.  As long as a change of
status finds no entry of the order under another spelling, every entry holds the row that is stored
(`Current`), and every `GET` answers with it (`entity_reads_current`).
-/

namespace OrderPlatform

namespace OrderRoutes

open Async (Tid Evaluates Performed Contract Program)
open Text (Json)

variable {ctx : ApiContext} {t : Tid} {ids : Uuid → Prop} {s s' : State}

/-! ### Requests in sequence -/

/-- The requests for a single order. -/
inductive EntityRequest
  | getOrder (user : Uuid) (id : String)
  | patchOrder (user : Uuid) (id : String) (target : OrderStatus)

/-- The handlers of the routes for a single order. -/
def serving (ctx : ApiContext) : EntityRequest → (machine ctx).Task HttpResponse
  | .getOrder user id => handler ctx (.getOrder user id)
  | .patchOrder user id target => handler ctx (.patchOrder user id target)

/-- A request is served with nobody in between, on a connection without an open transaction. -/
structure Serves (ctx : ApiContext) (t : Tid) (request : EntityRequest) (s : State)
    (result : Except ApiError HttpResponse) (s' : State) : Prop where
  session : s.db.transaction t = none
  evaluates : ∃ log : List (Performed (machine ctx)),
    Evaluates t (serving ctx request) s log result s' ∧ ∀ p ∈ log, RedisAnswers p.choice p.op

/-- Requests one after another, each one made as `C` allows, over these tables and an empty Redis.
Between two requests time passes, entries disappear, and connections are reset. -/
inductive Sequence (ctx : ApiContext) (T : Tables) (C : State → EntityRequest → Prop) :
    State → Prop
  | start : Sequence ctx T C (.over T)
  | request {t : Tid} {request : EntityRequest} {s s' : State}
      {result : Except ApiError HttpResponse} (before : Sequence ctx T C s) (may : C s request)
      (serves : Serves ctx t request s result s') : Sequence ctx T C s'
  | event {e : Event} {s s' : State} (before : Sequence ctx T C s)
      (happens : s.event e = some s') : Sequence ctx T C s'

/-- A `PATCH` that changes the status finds no entry of its order under another spelling. -/
def OneSpelling (s : State) : EntityRequest → Prop
  | .getOrder .. => True
  | .patchOrder user id target =>
      ∀ row, s.db.tables.order? (.ofText id) = some row → row.userId = user →
        row.status ≠ target → isAllowedOrderStatusTransition row.status target = true →
          ∀ id', id' ≠ id → Uuid.ofText id' = Uuid.ofText id →
            s.server.store (orderEntityKey id') = none

/-- What a `GET` has to answer: the order that is stored, to its user. -/
def storedAnswer (T : Tables) (user : Uuid) (id : String) : HttpResponse :=
  match T.order? (.ofText id) with
  | some row => if row.userId = user then ⟨200, some (orderBody (some row))⟩ else orderNotFound
  | none => orderNotFound

/-! ### The invariant -/

/-- Every entry holds the row that is stored, and no command is on its way. -/
structure Current (ctx : ApiContext) (s : State) : Prop where
  inFlight : s.server.inFlight = []
  entries : ctx.config.cacheEnabled = true → ∀ id entry,
    s.server.store (orderEntityKey id) = some entry →
      ∃ row, s.db.tables.order? (.ofText id) = some row ∧
        entry.value = (orderBody (some row)).stringify

theorem Current.of_same (h : Current ctx s) (same : Same s s') : Current ctx s' := by
  obtain ⟨tables, server⟩ := same
  refine ⟨server ▸ h.inFlight, fun enabled id entry stored => ?_⟩
  rw [server] at stored
  rw [tables]
  exact h.entries enabled id entry stored

/-- Entries may disappear. -/
theorem Current.of_sub (h : Current ctx s) (tables : s'.db.tables = s.db.tables)
    (inFlight : s'.server.inFlight = s.server.inFlight)
    (entries : ∀ id entry, s'.server.store (orderEntityKey id) = some entry →
      s.server.store (orderEntityKey id) = some entry) : Current ctx s' := by
  refine ⟨inFlight.trans h.inFlight, fun enabled id entry stored => ?_⟩
  rw [tables]
  exact h.entries enabled id entry (entries id entry stored)

theorem Current.event {e : Event} (h : Current ctx s) (happens : s.event e = some s') :
    Current ctx s' := by
  have forget : ∀ key : String, Current ctx
      { s with server := { s.server with store := Function.update s.server.store key none } } := by
    intro key
    refine h.of_sub rfl rfl fun id entry stored => ?_
    change Function.update s.server.store key none (orderEntityKey id) = some entry at stored
    by_cases same : orderEntityKey id = key
    · rw [same, Function.update_self] at stored
      cases stored
    · rwa [Function.update_of_ne same] at stored
  cases e with
  | tick => cases happens; exact h.of_same ⟨rfl, rfl⟩
  | reset t =>
      simp only [State.event] at happens
      split at happens
      · cases happens
        exact h.of_same ⟨rfl, rfl⟩
      · cases happens
  | redis e =>
      obtain ⟨server, hserver, rfl⟩ := Option.map_eq_some_iff.mp happens
      cases e with
      | expire key =>
          simp only [Redis.Server.event] at hserver
          split at hserver
          · cases hserver
            exact forget key
          · cases hserver
      | evict key =>
          simp only [Redis.Server.event] at hserver
          split at hserver
          · cases hserver
            exact forget key
          · cases hserver
      | land position =>
          rw [Redis.Server.event, h.inFlight] at hserver
          cases hserver

/-! ### `GET /v1/orders/:id` -/

/-- The row, in a `SELECT` outside any transaction. -/
private theorem serves_selectOrder {id : String} {Q : Option OrderRow → State → Prop}
    {E : ApiError → State → Prop} (session : s.db.transaction t = none)
    (found : ∀ s', Same s s' → Q (s.db.tables.order? (.ofText id)) s')
    (failed : ∀ s', Same s s' → E .database s') :
    (servedAlone ctx t ids).Holds Q E (query (.selectOrder id)) s := by
  refine serves_query fun fails sorted r s' hexec server => ?_
  rcases Database.exec_live (live_of_none session) hexec with ⟨rfl, same⟩ | performed
  · rw [Database.abort_of_none session] at same
    exact failed s' ⟨by rw [same], server⟩
  · simp only [Database.perform, Database.view_of_none session, Option.some.injEq,
      Prod.mk.injEq] at performed
    obtain ⟨rfl, same⟩ := performed
    exact found s' ⟨by rw [← same], server⟩

/-- The write of an entry that holds the stored row. -/
theorem Current.set {id : String} {row : OrderRow} {seconds : ℕ} (h : Current ctx s)
    (found : s.db.tables.order? (.ofText id) = some row) (db : s'.db = s.db)
    (inFlight : s'.server.inFlight = s.server.inFlight)
    (store : s'.server.store = Function.update s.server.store (orderEntityKey id)
      (some ⟨(orderBody (some row)).stringify, some seconds⟩)) : Current ctx s' := by
  refine ⟨inFlight.trans h.inFlight, fun enabled id' entry stored => ?_⟩
  rw [store] at stored
  rw [db]
  by_cases same : id' = id
  · rw [same, Function.update_self] at stored
    cases stored
    rw [same]
    exact ⟨row, found, rfl⟩
  · rw [Function.update_of_ne fun key => same (orderEntityKey_injective key)] at stored
    exact h.entries enabled id' entry stored

/-- What is known behind a `GET`: nothing has been written to Postgres, and the caches are still
current. -/
structure Read (ctx : ApiContext) (T : Tables) (s : State) : Prop where
  tables : s.db.tables = T
  current : Current ctx s

/-- A miss: the row is read, and written back. -/
private theorem serves_fetch {id : String} {T : Tables} (session : s.db.transaction t = none)
    (read : Read ctx T s) {writeBack : Option Json → Route (Option Json)}
    (absent : writeBack none = .done none)
    (present : ∀ result, writeBack (some result) =
      (((cacheSet (orderEntityKey id) result.stringify
          ((none : Option ℕ).getD ctx.config.cacheTtlSeconds)).bind fun _ =>
        header .miss).attempt fun _ => .done ()).bind fun _ => .done (some result)) :
    (servedAlone ctx t ids).Holds
      (fun found s' => found = (T.order? (.ofText id)).map (fun row => orderBody (some row)) ∧
        Read ctx T s')
      (fun e s' => e = .database ∧ Read ctx T s') ((fetchOrder id).bind writeBack) s := by
  obtain ⟨rfl, current⟩ := read
  have fetched : (servedAlone ctx t ids).Holds
      (fun found s' => found =
        (s.db.tables.order? (.ofText id)).map (fun row => orderBody (some row)) ∧ Same s s')
      (fun e s' => e = .database ∧ Read ctx s.db.tables s') (fetchOrder id) s := by
    refine Contract.Holds.map _ (serves_selectOrder session ?_ ?_)
    · exact fun s' same => ⟨rfl, same⟩
    · exact fun s' same => ⟨rfl, same.tables, current.of_same same⟩
  refine fetched.chain rfl ?_
  rintro found s₁ ⟨rfl, same⟩ _
  cases row : s.db.tables.order? (.ofText id) with
  | none =>
      rw [Option.map_none, absent]
      exact Contract.alone_done ⟨rfl, same.tables, current.of_same same⟩
  | some row' =>
      rw [Option.map_some, present]
      -- the entry that is written back is the row that has just been read
      have written : (servedAlone ctx t ids).Holds (fun _ => Read ctx s.db.tables)
          (fun e s' => e = .database ∧ Read ctx s.db.tables s')
          (((cacheSet (orderEntityKey id) (orderBody (some row')).stringify
              ((none : Option ℕ).getD ctx.config.cacheTtlSeconds)).bind fun _ =>
            header .miss).attempt fun _ => .done ()) s₁ := by
        refine Contract.Holds.recover _ (Contract.Holds.chain
          (Q := fun _ => Read ctx s.db.tables) (serves_redis ?_ ?_) rfl ?_)
        · intro r s₂ db inFlight happly
          have found : s₁.db.tables.order? (.ofText id) = some row' := by rw [same.tables, row]
          have store := (congrArg Prod.snd (Option.some.inj happly)).symm
          exact ⟨by rw [db, same.tables], (current.of_same same).set found db inFlight store⟩
        · intro s₂ _ _ impossible
          cases impossible
        · rintro _ s₂ ⟨tables, current⟩ _
          refine serves_work nofun fun _ s₃ db server => Contract.alone_done ?_
          exact ⟨by rw [db, tables], current.of_same ⟨by rw [db], server⟩⟩
      exact written.chain rfl fun _ s₂ read _ => Contract.alone_done ⟨rfl, read⟩

/-- The entity cache yields the order that is stored. -/
private theorem serves_withEntityCache {id : String} (session : s.db.transaction t = none)
    (current : Current ctx s) :
    (servedAlone ctx t ids).Holds
      (fun found s' => found =
        (s.db.tables.order? (.ofText id)).map (fun row => orderBody (some row)) ∧
          Read ctx s.db.tables s')
      (fun e s' => e = .database ∧ Read ctx s.db.tables s')
      (withEntityCache ctx ⟨orderEntityKey id, header, none⟩ (fetchOrder id)) s := by
  unfold withEntityCache
  split
  · rename_i enabled
    -- every entry is current, so that the cache serves the order as it is stored
    have readEntity : (servedAlone ctx t ids).Holds
        (fun found (s' : State) => Same s s' ∧ s'.db = s.db ∧ ∀ body, found = .served body →
          ∃ row, s.db.tables.order? (.ofText id) = some row ∧ body = orderBody (some row))
        (fun _ _ => False) (readEntity ⟨orderEntityKey id, header, none⟩) s := by
      refine Contract.Holds.recover _ (Contract.Holds.chain
        (Q := fun cached (s' : State) => Same s s' ∧ s'.db = s.db ∧
          cached = (s.server.store (orderEntityKey id)).map Redis.Entry.value)
        (serves_redis ?_ ?_) rfl ?_)
      · intro r s' db inFlight happly
        have applied := Option.some.inj happly
        have server : s'.server = s.server :=
          server_ext (congrArg Prod.snd applied).symm inFlight
        exact ⟨⟨by rw [db], server⟩, db, (congrArg Prod.fst applied).symm⟩
      · intro s' _ _ impossible
        cases impossible
      · rintro cached s₁ ⟨same, db, rfl⟩ _
        cases stored : s.server.store (orderEntityKey id) with
        | none => exact Contract.alone_done ⟨same, db, nofun⟩
        | some entry =>
            obtain ⟨row, found, value⟩ := current.entries enabled id entry stored
            rw [Option.map_some, value]
            refine serves_work nofun fun _ s₂ db' server => ?_
            simp only [Program.bind_done, jsonParse, Json.parse_stringify]
            refine Contract.alone_done ⟨same.trans ⟨by rw [db'], server⟩, db'.trans db, ?_⟩
            rintro _ ⟨⟩
            exact ⟨row, found, rfl⟩
    refine (readEntity.mono (fun _ _ known => known) fun _ _ impossible => impossible.elim).chain
      rfl ?_
    rintro found s₁ ⟨same, db, served⟩ _
    have read : Read ctx s.db.tables s₁ := ⟨same.tables, current.of_same same⟩
    have session₁ : s₁.db.transaction t = none := by rw [db, session]
    cases found with
    | served body =>
        obtain ⟨row, found, rfl⟩ := served body rfl
        rw [found]
        exact Contract.alone_done ⟨rfl, read⟩
    | missed key => exact serves_fetch session₁ read rfl fun _ => rfl
    | failed => exact serves_fetch session₁ read rfl fun _ => rfl
  · refine Contract.Holds.map _ (serves_selectOrder session ?_ ?_)
    · exact fun s' same => ⟨rfl, same.tables, current.of_same same⟩
    · exact fun s' same => ⟨rfl, same.tables, current.of_same same⟩

/-- **A `GET`** answers with what is stored. -/
private theorem serves_getOrder (user : Uuid) (id : String) (session : s.db.transaction t = none)
    (current : Current ctx s) :
    (servedAlone ctx t ids).Holds
      (fun response s' => response = storedAnswer s.db.tables user id ∧ Read ctx s.db.tables s')
      (fun e s' => e = .database ∧ Read ctx s.db.tables s') (getOrder ctx user id) s := by
  refine (serves_withEntityCache session current).chain rfl ?_
  rintro found s₁ ⟨rfl, read⟩ _
  unfold storedAnswer
  cases s.db.tables.order? (.ofText id) with
  | none => exact Contract.alone_done ⟨rfl, read⟩
  | some row =>
      rw [Option.map_some, checkOwner_orderBody]
      dsimp only
      split
      · exact Contract.alone_done ⟨rfl, read⟩
      · exact Contract.alone_done ⟨rfl, read⟩

/-! ### `PATCH /v1/orders/:id` -/

/-- The row lock of a request that has written nothing: the row is the committed one. -/
private theorem serves_selectOrderForUpdate {s₁ : State} {id : String}
    (writing : Writing t [] s s₁) :
    (servedAlone ctx t ids).Holds
      (fun found s' => Writing t [] s s' ∧
        found = (s.db.tables.order? (.ofText id)).map fun row => (row.status, row.userId))
      (fun _ s' => Same s s') (query (.selectOrderForUpdate id)) s₁ := by
  refine serves_statement writing fun sorted r s₂ performed server => ?_
  simp only [Database.perform] at performed
  split at performed
  · simp only [Option.some.injEq, Prod.mk.injEq] at performed
    obtain ⟨rfl, same⟩ := performed
    have kept : s₂.db.tables = s₁.db.tables ∧ s₂.db.transaction = s₁.db.transaction := by
      rw [← same]
      unfold Database.lock
      split <;> exact ⟨rfl, rfl⟩
    refine ⟨⟨writing.same.trans ⟨kept.1, server⟩, ?_⟩, ?_⟩
    · rw [kept.2]
      exact writing.transaction
    · rw [Database.view_of_nil writing.transaction, writing.same.tables]
  · cases performed

/-- The change of the status. -/
private theorem serves_updateOrder {s₁ : State} {id : String} {target : OrderStatus}
    (writing : Writing t [] s s₁) :
    (servedAlone ctx t ids).Holds
      (fun _ s' => ∃ moment, Writing t [.updateOrder (.ofText id) target moment] s s')
      (fun _ s' => Same s s') (query (.updateOrder id target)) s₁ := by
  refine serves_statement writing fun sorted r s₂ performed server => ?_
  simp only [Database.perform] at performed
  split at performed
  · simp only [Option.some.injEq, Prod.mk.injEq] at performed
    obtain ⟨rfl, same⟩ := performed
    have locked : (s₁.db.lock t (.ofText id)).tables = s₁.db.tables ∧
        (s₁.db.lock t (.ofText id)).transaction t = some ⟨s.db.now, [], false⟩ := by
      unfold Database.lock
      split <;> exact ⟨rfl, writing.transaction⟩
    rw [Database.write_of_transaction locked.2] at same
    refine ⟨s₁.db.nowOf t, writing.same.trans ⟨by rw [← same]; exact locked.1, server⟩, ?_⟩
    rw [← same]
    exact Function.update_self _ _ _
  · cases performed

/-- The row once more, where the status does not change. -/
private theorem serves_selectAgain {s₁ : State} {id : String} (writing : Writing t [] s s₁) :
    (servedAlone ctx t ids).Holds (fun _ s' => Writing t [] s s') (fun _ s' => Same s s')
      (query (.selectOrder id)) s₁ := by
  refine serves_statement writing fun sorted r s₂ performed server => ?_
  simp only [Database.perform, Option.some.injEq, Prod.mk.injEq] at performed
  obtain ⟨rfl, same⟩ := performed
  exact writing.of_db same.symm server

/-- What the two invalidations leave alone: everything but entries that disappear. -/
structure Sinks (s s' : State) : Prop where
  db : s'.db = s.db
  inFlight : s'.server.inFlight = s.server.inFlight
  entries : ∀ id, s'.server.store (orderEntityKey id) = s.server.store (orderEntityKey id) ∨
    s'.server.store (orderEntityKey id) = none

theorem Sinks.refl (s : State) : Sinks s s := ⟨rfl, rfl, fun _ => .inl rfl⟩

theorem Sinks.trans {s'' : State} (h : Sinks s s') (h' : Sinks s' s'') : Sinks s s'' := by
  refine ⟨h'.db.trans h.db, h'.inFlight.trans h.inFlight, fun id => ?_⟩
  rcases h'.entries id with same | gone
  · rw [same]
    exact h.entries id
  · exact .inr gone

/-- The two invalidations run next to each other, and each tolerates what the other one does. -/
private def invalidations (ctx : ApiContext) (t : Tid) (ids : Uuid → Prop) :
    (servedAlone ctx t ids).Sides where
  left := Sinks
  right := Sinks
  left_rely := by
    rintro s _ rfl
    exact .refl _
  right_rely := by
    rintro s _ rfl
    exact .refl _
  left_trans := Sinks.trans
  right_trans := Sinks.trans
  left_self _ := .refl _
  right_self _ := .refl _

/-- One of the two commands. -/
private theorem sinks_redis {c : Redis.Command} {Q : State → Prop}
    (sinks : ∀ {s s' : State} {r : c.Reply}, s'.db = s.db →
      s'.server.inFlight = s.server.inFlight →
      c.apply s.server.store = some (r, s'.server.store) → Sinks s s' ∧ Q s')
    (stable : ∀ {s s'}, Sinks s s' → Q s → Q s')
    (refused : (∃ store, c.apply store = none) → ∀ s, Q s) :
    (invalidations ctx t ids).leftContract.Holds (fun _ s' => Sinks s s' ∧ Q s') (fun _ _ => False)
      (((redis c).bind fun _ => .done ()).attempt fun _ => .done ()) s := by
  refine Contract.Holds.recover _ (Contract.Holds.map _ ?_)
  intro s₁ step
  refine ⟨trivial, fun choice r s₂ answers hexec => ?_⟩
  obtain ⟨fault, rfl, replied, rfl⟩ := exec_redis (t := t) hexec
  cases answers.1 c rfl
  cases happly : c.apply s₁.server.store with
  | none =>
      obtain rfl : r = none := replied.trans (by simp only [State.redis, Redis.Server.call, happly])
      have same : (s₁.redis t .none c).2.server = s₁.server := by
        simp only [State.redis, Redis.Server.call, happly]
      have sunk : Sinks s₁ (s₁.redis t .none c).2 :=
        ⟨rfl, congrArg Redis.Server.inFlight same, fun id => .inl (by rw [same])⟩
      exact ⟨⟨trivial, sunk⟩, fun s₃ later =>
        ⟨(Sinks.trans step sunk).trans later, refused ⟨_, happly⟩ s₃⟩⟩
  | some x =>
      obtain rfl : r = some x.1 :=
        replied.trans (by simp only [State.redis, Redis.Server.call, happly])
      obtain ⟨sunk, known⟩ := @sinks s₁ (s₁.redis t .none c).2 x.1 rfl
        (by simp only [State.redis, Redis.Server.call, happly])
        (by simp only [State.redis, Redis.Server.call, happly])
      exact ⟨⟨trivial, sunk⟩, fun s₃ later =>
        ⟨(Sinks.trans step sunk).trans later, stable later known⟩⟩

/-- **The invalidations behind a `PATCH`**: the entry that it spells is gone. -/
private theorem serves_invalidations (enabled : ctx.config.cacheEnabled = true) (id : String) :
    (servedAlone ctx t ids).Holds
      (fun _ s' => Sinks s s' ∧ s'.server.store (orderEntityKey id) = none) (fun _ _ => False)
      (Program.both (invalidateEntity ctx (orderEntityKey id) : Route Unit)
        (invalidateListNamespace ctx cacheNamespaces.ordersList)) s := by
  unfold invalidateEntity invalidateListNamespace
  rw [if_pos enabled, if_pos enabled]
  have gone : (invalidations ctx t ids).leftContract.Holds
      (fun _ s' => Sinks s s' ∧ s'.server.store (orderEntityKey id) = none) (fun _ _ => False)
      ((cacheDelete (orderEntityKey id) : Route Unit).attempt fun _ => .done ()) s := by
    refine sinks_redis ?_ ?_ ?_
    · intro s₁ s₂ r db inFlight happly
      have store : s₂.server.store = Function.update s₁.server.store (orderEntityKey id) none :=
        (congrArg Prod.snd (Option.some.inj happly)).symm
      refine ⟨⟨db, inFlight, fun id' => ?_⟩, ?_⟩
      · rw [store]
        by_cases same : orderEntityKey id' = orderEntityKey id
        · exact .inr (by rw [same, Function.update_self])
        · exact .inl (Function.update_of_ne same _ _)
      · rw [store, Function.update_self]
    · intro s₁ s₂ sinks gone
      rcases sinks.entries id with same | gone'
      · rw [same, gone]
      · exact gone'
    · rintro ⟨store, refused⟩
      cases refused
  have raised : (invalidations ctx t ids).rightContract.Holds (fun _ s' => Sinks s s' ∧ True)
      (fun _ _ => False) (((cacheBumpNamespaceVersion cacheNamespaces.ordersList : Route ℤ).bind
        fun _ => .done ()).attempt fun _ => .done ()) s := by
    refine sinks_redis ?_ (fun _ known => known) fun _ _ => trivial
    intro s₁ s₂ r db inFlight happly
    refine ⟨⟨db, inFlight, fun id' => .inl (Redis.Command.apply_other happly fun same => ?_)⟩, trivial⟩
    have family : familyOf (orderEntityKey id') = familyOf versionKey := congrArg familyOf same
    simp at family
  exact (Contract.Holds.parallel gone raised).mono (fun _ _ known => known.1) fun _ _ impossible =>
    impossible

/-- A change of status is committed, and the entry that the request spells is deleted. -/
theorem Current.transitioned {s₁ s₂ : State} {id : String} {target : OrderStatus} {moment : ℕ}
    {row : OrderEventRow} (h : Current ctx s)
    (other : ∀ id', id' ≠ id → Uuid.ofText id' = Uuid.ofText id →
      s.server.store (orderEntityKey id') = none)
    (tables : s₁.db.tables = s.db.tables.applyAll
      [.updateOrder (.ofText id) target moment, .insertOrderEvent row])
    (server : s₁.server = s.server) (sinks : Sinks s₁ s₂)
    (gone : s₂.server.store (orderEntityKey id) = none) : Current ctx s₂ := by
  refine ⟨sinks.inFlight.trans (server ▸ h.inFlight), fun enabled id' entry stored => ?_⟩
  have before : s.server.store (orderEntityKey id') = some entry := by
    rw [← server]
    rcases sinks.entries id' with same | absent
    · rw [← same, stored]
    · rw [absent] at stored
      cases stored
  obtain ⟨row', found, value⟩ := h.entries enabled id' entry before
  have different : Uuid.ofText id' ≠ Uuid.ofText id := by
    intro same
    by_cases spelling : id' = id
    · rw [spelling, gone] at stored
      cases stored
    · rw [other id' spelling same] at before
      cases before
  refine ⟨row', ?_, value⟩
  rw [sinks.db, tables, Tables.applyAll_statusChange, Tables.order?_map_setStatus, found,
    Option.map_some, Tables.setStatus_other]
  rw [(Tables.mem_of_order? found).2]
  exact different

/-- What a `PATCH` does once the transition is known to be allowed. -/
private theorem serves_applyTransition {s₁ : State} {user : Uuid} {id : String}
    {current target : OrderStatus} (writing : Writing t [] s s₁) (now : Current ctx s)
    (other : current ≠ target → ∀ id', id' ≠ id → Uuid.ofText id' = Uuid.ofText id →
      s.server.store (orderEntityKey id') = none) :
    (servedAlone ctx t ids).Holds (fun _ s' => Current ctx s') (fun _ s' => Current ctx s')
      (applyTransition ctx user id current target) s₁ := by
  have fails : ∀ e : ApiError, ∀ s' : State, Same s s' → Current ctx s' :=
    fun _ _ same => now.of_same same
  by_cases changed : current = target
  · simp only [applyTransition, if_pos changed, if_neg (not_not.mpr changed)]
    refine ((serves_selectAgain writing).mono (fun _ _ known => known) fails).chain rfl ?_
    rintro found s₂ writing₂ _
    refine Contract.Holds.map _ ((serves_commit writing₂).mono ?_ fails)
    rintro _ s₃ ⟨tables, server⟩
    exact now.of_same ⟨tables, server⟩
  · simp only [applyTransition, if_neg changed, if_pos changed]
    have written : (servedAlone ctx t ids).Holds
        (fun _ s' => ∃ moment row, Writing t
          [.updateOrder (.ofText id) target moment, .insertOrderEvent row] s s')
        (fun _ s' => Current ctx s') (changeStatus user id current target) s₁ := by
      refine ((serves_updateOrder writing).mono (fun _ _ known => known) fails).chain rfl ?_
      rintro found s₂ ⟨moment, writing₂⟩ _
      refine serves_work (by rintro _ ⟨⟩) fun eventId s₃ db server => ?_
      have writing₃ : Writing t [.updateOrder (.ofText id) target moment] s s₃ :=
        writing₂.of_db db server
      refine Contract.Holds.map _ ((serves_insertOrderEvent writing₃).mono ?_ fails)
      rintro _ s₄ ⟨row, writing₄⟩
      exact ⟨moment, row, writing₄⟩
    refine written.chain rfl ?_
    rintro found s₂ ⟨moment, row, writing₂⟩ _
    refine ((serves_commit writing₂).mono (fun _ _ known => known) fails).chain rfl ?_
    rintro - s₃ ⟨tables, server⟩ _
    by_cases enabled : ctx.config.cacheEnabled = true
    · refine Contract.Holds.map _ ((serves_invalidations enabled id).mono ?_ fun _ _ impossible =>
        impossible.elim)
      rintro _ s₄ ⟨sinks, gone⟩
      exact now.transitioned (other changed) tables server sinks gone
    · have nothing : ∀ key, (invalidateEntity ctx key : Route Unit) = .done () :=
        fun key => if_neg enabled
      have nothing' : ∀ name, (invalidateListNamespace ctx name : Route Unit) = .done () :=
        fun name => if_neg enabled
      rw [nothing, nothing']
      refine Contract.alone_done ⟨server ▸ now.inFlight, fun enabled' => absurd enabled' enabled⟩

/-- The work of a `PATCH` on its client. -/
private theorem serves_transition {user : Uuid} {id : String} {target : OrderStatus}
    (session : s.db.transaction t = none) (now : Current ctx s)
    (one : OneSpelling s (.patchOrder user id target)) :
    (servedAlone ctx t ids).Holds (fun _ s' => Current ctx s') (fun _ s' => Current ctx s')
      (transition ctx user id target) s := by
  have fails : ∀ e : ApiError, ∀ s' : State, Same s s' → Current ctx s' :=
    fun _ _ same => now.of_same same
  have refuse : ∀ {response : HttpResponse} {s₂ : State}, Writing t [] s s₂ →
      (servedAlone ctx t ids).Holds (fun _ s' => Current ctx s') (fun _ s' => Current ctx s')
        ((query .rollback).bind fun _ => .done response) s₂ := fun writing =>
    Contract.Holds.map (fun _ => _) ((serves_rollback _).mono
      (fun _ _ same => now.of_same (writing.same.trans same))
      fun _ _ same => now.of_same (writing.same.trans same))
  refine ((serves_begin session).mono (fun _ _ known => known) fails).chain rfl ?_
  rintro - s₁ writing₁ _
  refine ((serves_selectOrderForUpdate writing₁).mono (fun _ _ known => known) fails).chain rfl ?_
  rintro _ s₂ ⟨writing₂, rfl⟩ _
  cases found : s.db.tables.order? (.ofText id) with
  | none => exact refuse writing₂
  | some row =>
      rw [Option.map_some]
      by_cases own : row.userId = user
      · by_cases allowed : isAllowedOrderStatusTransition row.status target = true
        · simp only [ne_eq, own, not_true_eq_false, if_false, allowed, if_true]
          exact serves_applyTransition writing₂ now fun changed => one row found own changed allowed
        · simp only [ne_eq, own, not_true_eq_false, if_false, allowed]
          exact refuse writing₂
      · simp only [ne_eq, own, not_false_eq_true, if_true]
        exact refuse writing₂

/-- **A `PATCH`** leaves the caches current. -/
private theorem serves_patchOrder {user : Uuid} {id : String} {target : OrderStatus}
    (session : s.db.transaction t = none) (now : Current ctx s)
    (one : OneSpelling s (.patchOrder user id target)) :
    (servedAlone ctx t ids).Holds (fun _ s' => Current ctx s') (fun _ s' => Current ctx s')
      (patchOrder ctx user id target) s := by
  have giveBack : ∀ {s₁ : State}, Current ctx s₁ →
      (servedAlone ctx t ids).Holds (fun _ s' => Current ctx s') (fun _ s' => Current ctx s') release s₁ :=
    fun now => serves_work nofun fun _ s₂ db server =>
      Contract.alone_done (now.of_same ⟨by rw [db], server⟩)
  refine serves_work nofun fun connected s₁ db server => ?_
  cases connected with
  | none => exact Contract.alone_thrown (now.of_same ⟨by rw [db], server⟩)
  | some _ =>
      have now₁ : Current ctx s₁ := now.of_same ⟨by rw [db], server⟩
      have one₁ : OneSpelling s₁ (.patchOrder user id target) := by
        unfold OneSpelling
        rw [db, server]
        exact one
      have worked := (@serves_transition ctx t ids) (by rw [db, session]) now₁ one₁
      refine Contract.Holds.ensuring (Contract.Holds.attempt (worked.mono ?_ ?_) rfl) rfl
      · exact fun _ s₂ now₂ _ => giveBack now₂
      · intro e s₂ now₂ _
        have rolledBack : (servedAlone ctx t ids).Holds (fun _ s' => Current ctx s') (fun _ _ => False)
            rollbackIgnoring s₂ :=
          Contract.Holds.recover _ ((serves_rollback s₂).mono (fun _ _ same => now₂.of_same same)
            fun _ _ same => now₂.of_same same)
        refine Contract.Holds.bind (rolledBack.mono ?_ fun _ _ impossible => impossible.elim) rfl
        exact fun _ s₃ now₃ _ => Contract.alone_thrown fun _ => giveBack now₃

/-! ### Every sequence -/

/-- Every entry holds the row that is stored, in every sequence whose changes of status find their
order under one spelling only. -/
theorem current_of_sequence {T : Tables} (run : Sequence ctx T OneSpelling s) : Current ctx s := by
  induction run with
  | start => exact ⟨rfl, nofun⟩
  | event before happens now => exact now.event happens
  | @request t request s s' result before may serves now =>
      obtain ⟨session, log, evaluates, answers⟩ := serves
      cases request with
      | getOrder user id =>
          obtain ⟨returned, thrown⟩ :=
            served_evaluates (serves_getOrder user id session now) evaluates answers
          cases result with
          | ok response => exact (returned response rfl).2.current
          | error e => exact (thrown e rfl).2.current
      | patchOrder user id target =>
          obtain ⟨returned, thrown⟩ := served_evaluates (serves_patchOrder session now may) evaluates answers
          cases result with
          | ok response => exact returned response rfl
          | error e => exact thrown e rfl

/-- **Sequential reads are current.**  Requests for single orders are served one after another over
any tables, in any spelling, every Redis command being answered; and every `PATCH` that changes a
status finds no entry of its order under another spelling than its own.  Then every `GET` answers
with the order that is stored, and fails only where its statement fails.

What carries the proof is that every entry is current between two requests (`Current`).  A `PATCH`
deletes the entry under its own spelling, and the condition excludes that there is another. -/
theorem entity_reads_current {T : Tables} (run : Sequence ctx T OneSpelling s) {user : Uuid}
    {id : String} :
    (∀ response s', Serves ctx t (.getOrder user id) s (.ok response) s' →
      response = storedAnswer s.db.tables user id ∧ s'.db.tables = s.db.tables) ∧
    ∀ e s', Serves ctx t (.getOrder user id) s (.error e) s' → e = .database := by
  have now := current_of_sequence run
  constructor
  · rintro response s' ⟨session, log, evaluates, answers⟩
    obtain ⟨same, read⟩ :=
      (served_evaluates (serves_getOrder user id session now) evaluates answers).1 response rfl
    exact ⟨same, read.tables⟩
  · rintro e s' ⟨session, log, evaluates, answers⟩
    exact ((served_evaluates (serves_getOrder user id session now) evaluates answers).2 e rfl).1

/-! ### Two spellings -/

/-- A request that is served, by evaluating it. -/
theorem serves_of_check (choices : List Choice) (request : EntityRequest) (s : State)
    (session : s.db.transaction t = none) (P : Except ApiError HttpResponse → State → Prop)
    [∀ result s, Decidable (P result s)]
    (check : (Async.evaluate (M := machine ctx) t (serving ctx request) choices s).any (fun x =>
      decide (x.1.all redisAnswers = true ∧ P x.2.1 x.2.2)) = true) :
    ∃ result s', Serves ctx t request s result s' ∧ P result s' := by
  obtain ⟨log, result, s', evaluates, answers, known⟩ := Async.evaluates_of_check t choices _ s
    (fun log result s' => log.all redisAnswers = true ∧ P result s') check
  exact ⟨result, s', ⟨session, log, evaluates, redisAnswers_of answers⟩, known⟩

/-- One uuid in two cases. -/
def lowerSpelling : String := "ab000000-0000-4000-8000-000000000001"

def upperSpelling : String := "AB000000-0000-4000-8000-000000000001"

/-- Alice's order, and what its confirmation makes of it. -/
def spelledOrder (n : Fin 10) : OrderRow := { exampleOrder n alice with id := .ofText lowerSpelling }

def confirmedSpelledOrder (n : Fin 10) : OrderRow := { spelledOrder n with status := .confirmed }

/-- A `PATCH` from its start to its end. -/
def patchChoices (eventId : Uuid) : List Choice :=
  [.succeeds, .succeeds, .succeeds, .succeeds, .fresh eventId, .succeeds, .succeeds,
    .redis .none, .redis .none, .succeeds]

/-- A `GET` that misses the cache. -/
def missChoices : List Choice := [.redis .none, .succeeds, .redis .none, .succeeds]

/-- A `PATCH` in one spelling, and a `GET` in the other. -/
theorem entity_reads_current_in_both_cases :
    ∃ s s' : State, Sequence orderContext (holding (spelledOrder 1)) OneSpelling s ∧
      Serves orderContext 1 (.getOrder alice upperSpelling) s
        (.ok ⟨200, some (orderBody (some (confirmedSpelledOrder 1)))⟩) s' ∧
      storedAnswer s.db.tables alice upperSpelling =
        ⟨200, some (orderBody (some (confirmedSpelledOrder 1)))⟩ := by
  obtain ⟨result, s, patched, session, check⟩ := (@serves_of_check orderContext 0)
    (patchChoices (exampleId 2)) (.patchOrder alice lowerSpelling .confirmed) (.over (holding (spelledOrder 1))) rfl
    (fun _ s => s.db.transaction 1 = none ∧
      (Async.evaluate (M := machine orderContext) 1
        (serving orderContext (.getOrder alice upperSpelling)) missChoices s).any (fun x =>
          decide (x.1.all redisAnswers = true ∧
            x.2.1 = .ok ⟨200, some (orderBody (some (confirmedSpelledOrder 1)))⟩)) = true)
    (by decide)
  obtain ⟨_, s', read, rfl⟩ := serves_of_check missChoices _ s session
    (fun result _ => result = .ok ⟨200, some (orderBody (some (confirmedSpelledOrder 1)))⟩) check
  have one : OneSpelling (.over (holding (spelledOrder 1)))
      (.patchOrder alice lowerSpelling .confirmed) := fun _ _ _ _ _ _ _ _ => rfl
  have run : Sequence orderContext (holding (spelledOrder 1)) OneSpelling s :=
    .request .start one patched
  exact ⟨s, s', run, read, ((entity_reads_current run).1 _ _ read).1.symm⟩

/-- An order that is in the cache is served from it. -/
theorem serves_hit {user : Uuid} {id : String} {row : OrderRow}
    (enabled : ctx.config.cacheEnabled = true) (session : s.db.transaction t = none)
    (stored : (s.server.store (orderEntityKey id)).map Redis.Entry.value =
      some (orderBody (some row)).stringify) (own : row.userId = user) :
    ∃ s', Serves ctx t (.getOrder user id) s (.ok ⟨200, some (orderBody (some row))⟩) s' := by
  obtain ⟨k, program, hit⟩ := getOrder_hit enabled user id
  have read : (machine ctx).exec t (.redis .none) (.redis (.get (orderEntityKey id))) s =
      some (some (some (orderBody (some row)).stringify), s) := by
    have call : s.redis t .none (.get (orderEntityKey id)) =
        (some ((s.server.store (orderEntityKey id)).map Redis.Entry.value), s) := rfl
    rw [stored] at call
    exact congrArg some call
  have answer : checkOwner user (some (orderBody (some row))) =
      .done ⟨200, some (orderBody (some row))⟩ := by rw [checkOwner_orderBody, if_pos own]
  have marked : Evaluates (M := machine ctx) t
      (.await (.work (.header .hit)) fun _ => checkOwner user (some (orderBody (some row)))) s
      [⟨.succeeds, .work (.header .hit), s⟩] (.ok ⟨200, some (orderBody (some row))⟩)
      { s with header := Function.update s.header t (some .hit) } := by
    rw [answer]
    exact .await (M := machine ctx) (c := .succeeds) rfl (.done _ _)
  have evaluates : Evaluates (M := machine ctx) t (getOrder ctx user id) s
      [⟨.redis .none, .redis (.get (orderEntityKey id)), s⟩, ⟨.succeeds, .work (.header .hit), s⟩]
      (.ok ⟨200, some (orderBody (some row))⟩)
      { s with header := Function.update s.header t (some .hit) } := by
    rw [program]
    exact .await read (.of_eq (hit row) marked)
  refine ⟨_, session, _, evaluates, fun p mem command same => ?_⟩
  rcases List.mem_cons.mp mem with rfl | mem
  · rfl
  · rw [List.mem_singleton.mp mem] at same
    cases same

/-- **A stale order is served.**  A `GET` writes the order to the cache under one spelling, a
`PATCH` confirms it and deletes the entry of the other spelling, and the `GET` is made again. -/
theorem stale_spelling :
    ∃ s s' : State, Sequence orderContext (holding (spelledOrder 1)) (fun _ _ => True) s ∧
      Serves orderContext 2 (.getOrder alice upperSpelling) s
        (.ok ⟨200, some (orderBody (some (spelledOrder 1)))⟩) s' ∧
      s.db.tables.order? (.ofText upperSpelling) = some (confirmedSpelledOrder 1) := by
  obtain ⟨_, s₁, read, session₁, check⟩ := (@serves_of_check orderContext 0)
    missChoices (.getOrder alice upperSpelling) (.over (holding (spelledOrder 1))) rfl
    (fun _ s => s.db.transaction 1 = none ∧
      (Async.evaluate (M := machine orderContext) 1
        (serving orderContext (.patchOrder alice lowerSpelling .confirmed)) (patchChoices (exampleId 2)) s).any
          (fun x => decide (x.1.all redisAnswers = true ∧ x.2.2.db.transaction 2 = none ∧
            (x.2.2.server.store (orderEntityKey upperSpelling)).map Redis.Entry.value =
              some (orderBody (some (spelledOrder 1))).stringify ∧
            x.2.2.db.tables.order? (.ofText upperSpelling) = some (confirmedSpelledOrder 1))) = true)
    (by decide +kernel)
  obtain ⟨_, s, patched, session, stored, confirmed⟩ := serves_of_check (patchChoices (exampleId 2)) _ s₁ session₁
    (fun _ s => s.db.transaction 2 = none ∧
      (s.server.store (orderEntityKey upperSpelling)).map Redis.Entry.value =
        some (orderBody (some (spelledOrder 1))).stringify ∧
      s.db.tables.order? (.ofText upperSpelling) = some (confirmedSpelledOrder 1)) check
  have run : Sequence orderContext (holding (spelledOrder 1)) (fun _ _ => True) s :=
    .request (.request .start trivial read) trivial patched
  obtain ⟨s', served⟩ := (@serves_hit orderContext 2) rfl session stored
    (rfl : (spelledOrder 1).userId = alice)
  exact ⟨s, s', run, served, confirmed⟩

end OrderRoutes

end OrderPlatform
