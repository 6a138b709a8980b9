import OrderPlatform.Async.Alone
import OrderPlatform.Api.OrderRuns

/-!
# What a refusal tells

To somebody who may not see an order, `GET` and `PATCH` answer `404` as if the order did not
exist.  The statuses and bodies are indeed the same.  The complete response is not: before the
ownership check of `GET` runs, the cache wrapper has already set `X-Cache`, and it does so only
for an order that exists.

Two runs of the service are compared, one in which the order does not exist and one in which it
belongs to somebody else.  `same_response_iff` says when the responses of a `GET` agree: where
the cache is disabled, or where Redis neither answers the read with an entry nor the write-back.
The responses of a `PATCH` always agree.  `existence_shown` is a pair of runs in which a `GET`
tells the difference.
-/

namespace OrderPlatform

namespace OrderRoutes

open Async (Tid Pool Machine Program)
open Text (Json)

variable {ctx : ApiContext} {s s' : State} {t : Tid} {choices : List Choice}

/-! ### Single operations -/

/-- A query that has returned. -/
theorem alone_query {st : Statement} {r : st.Result}
    (h : Machine.alone (M := machine ctx) t choices (query st) s = some (.ok r, s')) :
    ∃ c fails sorted db, choices = [c] ∧ s.db.exec ctx t fails sorted st = some (some r, db) ∧
      s' = { s with db, history := s.history.sql t (s.pending t) db.tables st (some r) } := by
  obtain ⟨c, rest, reply, s₁, rfl, hexec, after⟩ := Machine.alone_await h
  obtain ⟨fails, sorted, sql⟩ := exec_sql hexec
  obtain ⟨db, hdb, rfl⟩ := sql_cases sql
  cases reply with
  | none => cases (Machine.alone_thrown after).2
  | some result =>
      obtain ⟨rfl, same⟩ := Machine.alone_done after
      cases same
      exact ⟨c, fails, sorted, db, rfl, hdb, rfl⟩

/-! ### `GET` -/

/-- What `GET` does when it has not been served from the cache. -/
def fetchThrough (ctx : ApiContext) (user : Uuid) (id : String) : Route HttpResponse :=
  (query (.selectOrder id)).bind fun (found : Option OrderRow) =>
    found.elim (.done orderNotFound) fun row =>
      (((cacheSet (orderEntityKey id) (orderBody (some row)).stringify
          ctx.config.cacheTtlSeconds).bind fun _ =>
        header .miss).attempt fun _ => .done ()).bind fun _ =>
          checkOwner user (some (orderBody (some row)))

/-- `GET` behind an enabled cache. -/
theorem getOrder_enabled (enabled : ctx.config.cacheEnabled = true) (user : Uuid) (id : String) :
    ∃ k, getOrder ctx user id = .await (.redis (.get (orderEntityKey id))) k ∧
      k none = fetchThrough ctx user id ∧ k (some none) = fetchThrough ctx user id ∧
      ∀ row, k (some (some (orderBody (some row)).stringify)) =
        .await (.work (.header .hit)) fun _ => checkOwner user (some (orderBody (some row))) := by
  unfold getOrder withEntityCache
  rw [if_pos enabled]
  refine ⟨_, rfl, ?_, ?_, fun row => congrArg (Program.await _) (funext fun _ => ?_)⟩
  · refine congrArg (Program.await _) (funext fun reply => ?_)
    obtain _ | _ | row := reply
    · rfl
    · rfl
    · refine congrArg (Program.await _) (funext fun stored => ?_)
      cases stored <;> rfl
  · refine congrArg (Program.await _) (funext fun reply => ?_)
    obtain _ | _ | row := reply
    · rfl
    · rfl
    · refine congrArg (Program.await _) (funext fun stored => ?_)
      cases stored <;> rfl
  · simp only [jsonParse, Json.parse_stringify]
    rfl

/-- `GET` without a cache. -/
theorem getOrder_disabled (disabled : ctx.config.cacheEnabled = false) (user : Uuid)
    (id : String) :
    getOrder ctx user id = (query (.selectOrder id)).bind fun (found : Option OrderRow) =>
      checkOwner user (found.map fun row => orderBody (some row)) := by
  have off : ¬ ctx.config.cacheEnabled = true := by rw [disabled]; exact Bool.false_ne_true
  unfold getOrder withEntityCache
  rw [if_neg off]
  refine congrArg (Program.await _) (funext fun reply => ?_)
  cases reply <;> rfl

/-- A row that is read outside a transaction. -/
theorem alone_selectOrder {id : String} {r : Option OrderRow} (idle : s.db.transaction t = none)
    (h : Machine.alone (M := machine ctx) t choices (query (.selectOrder id)) s =
      some (.ok r, s')) :
    r = s.db.tables.order? (.ofText id) ∧ s'.header = s.header ∧ ∃ c, choices = [c] := by
  obtain ⟨c, fails, sorted, db, rfl, hexec, rfl⟩ := alone_query h
  rcases Database.exec_live (by simp [idle]) hexec with ⟨none, _⟩ | performed
  · cases none
  · simp only [Database.perform, Database.view_of_none idle] at performed
    cases performed
    exact ⟨rfl, rfl, c, rfl⟩

/-- Redis lets the handler say nothing of the order: it does not answer the read with an entry,
and it does not answer the write-back. -/
def Untold (ctx : ApiContext) (id : String) (s : State) (choices : List Choice) : Prop :=
  ctx.config.cacheEnabled = false ∨
    (choices[0]? = some (.redis .none) → s.server.store (orderEntityKey id) = none) ∧
      choices[2]? ≠ some (.redis .none)

/-- A fetch that finds no order. -/
private theorem fetchThrough_absent {user : Uuid} {id : String} {response : HttpResponse}
    (idle : s.db.transaction t = none) (absent : s.db.tables.order? (.ofText id) = none)
    (h : Machine.alone (M := machine ctx) t choices (fetchThrough ctx user id) s =
      some (.ok response, s')) : response = orderNotFound ∧ s'.header = s.header := by
  obtain ⟨before, after, found, s₁, rfl, read, rest⟩ := Machine.alone_bind h
  obtain ⟨rfl, header, c, rfl⟩ := alone_selectOrder idle read
  rw [absent] at rest
  obtain ⟨rfl, same⟩ := Machine.alone_done rest
  cases same
  exact ⟨rfl, header⟩

/-- A fetch that finds somebody else's order: the header tells whether the write-back was
answered. -/
private theorem fetchThrough_foreign {user : Uuid} {id : String} {response : HttpResponse}
    {row : OrderRow} (idle : s.db.transaction t = none) (header : s.header t = none)
    (foreign : s.db.tables.order? (.ofText id) = some row) (other : row.userId ≠ user)
    (h : Machine.alone (M := machine ctx) t choices (fetchThrough ctx user id) s =
      some (.ok response, s')) :
    response = orderNotFound ∧
      (s'.header t = none ↔ choices[1]? ≠ some (.redis .none)) := by
  obtain ⟨before, after, found, s₁, rfl, read, rest⟩ := Machine.alone_bind h
  obtain ⟨rfl, unmarked, c, rfl⟩ := alone_selectOrder idle read
  rw [foreign] at rest
  have refusal : checkOwner user (some (orderBody (some row))) = .done orderNotFound :=
    (checkOwner_orderBody user row).trans (if_neg other)
  obtain ⟨c', rest', reply, s₂, rfl, hexec, rest⟩ := Machine.alone_await rest
  obtain ⟨fault, rfl, rfl, rfl⟩ := exec_redis hexec
  cases fault with
  | none =>
      -- the write-back is answered, and the header is set
      obtain ⟨c'', rest'', _, s₃, rfl, hexec, rest⟩ := Machine.alone_await rest
      obtain ⟨rfl, rfl⟩ := exec_header hexec
      obtain ⟨rfl, same⟩ := Machine.alone_done (refusal ▸ rest)
      cases same
      refine ⟨rfl, ?_⟩
      simp
  | refused =>
      obtain ⟨rfl, same⟩ := Machine.alone_done (refusal ▸ rest)
      cases same
      refine ⟨rfl, ?_⟩
      simp [State.redis, unmarked, header, Redis.Server.call]
  | late =>
      obtain ⟨rfl, same⟩ := Machine.alone_done (refusal ▸ rest)
      cases same
      refine ⟨rfl, ?_⟩
      simp [State.redis, unmarked, header, Redis.Server.call]

/-- An order that does not exist, and is not cached. -/
private theorem getOrder_absent {user : Uuid} {id : String} {response : HttpResponse}
    (fresh : Fresh t s) (absent : s.db.tables.order? (.ofText id) = none)
    (uncached : s.server.store (orderEntityKey id) = none)
    (h : Machine.alone (M := machine ctx) t choices (getOrder ctx user id) s =
      some (.ok response, s')) : response = orderNotFound ∧ s'.header t = none := by
  cases enabled : ctx.config.cacheEnabled with
  | false =>
      rw [getOrder_disabled enabled] at h
      obtain ⟨before, after, found, s₁, rfl, read, rest⟩ := Machine.alone_bind h
      obtain ⟨rfl, header, _⟩ := alone_selectOrder fresh.transaction read
      rw [absent] at rest
      obtain ⟨rfl, same⟩ := Machine.alone_done rest
      cases same
      exact ⟨rfl, (congrFun header t).trans fresh.header⟩
  | true =>
      obtain ⟨k, program, failed, missed, _⟩ := getOrder_enabled enabled user id
      rw [program] at h
      obtain ⟨c, rest, reply, s₁, rfl, hexec, later⟩ := Machine.alone_await h
      obtain ⟨fault, rfl, rfl, rfl⟩ := exec_redis hexec
      -- whether or not the read is answered, there is nothing to serve
      have fetch : k (s.redis t fault (.get (orderEntityKey id))).1 = fetchThrough ctx user id := by
        cases fault with
        | none =>
            simp only [State.redis, Redis.Server.call, Redis.Command.apply, uncached]
            exact missed
        | refused => exact failed
        | late => exact failed
      rw [fetch] at later
      obtain ⟨rfl, header⟩ :=
        fetchThrough_absent (by exact fresh.transaction) (by exact absent) later
      exact ⟨rfl, (congrFun header t).trans fresh.header⟩

/-- Somebody else's order. -/
private theorem getOrder_foreign {user : Uuid} {id : String} {response : HttpResponse}
    {row : OrderRow} (fresh : Fresh t s)
    (foreign : s.db.tables.order? (.ofText id) = some row) (other : row.userId ≠ user)
    (cached : ∀ entry, s.server.store (orderEntityKey id) = some entry →
      ∃ row', entry.value = (orderBody (some row')).stringify ∧ row'.userId ≠ user)
    (h : Machine.alone (M := machine ctx) t choices (getOrder ctx user id) s =
      some (.ok response, s')) :
    response = orderNotFound ∧ (s'.header t = none ↔ Untold ctx id s choices) := by
  have refusal : ∀ row' : OrderRow, row'.userId ≠ user →
      checkOwner user (some (orderBody (some row'))) = .done orderNotFound :=
    fun row' other => (checkOwner_orderBody user row').trans (if_neg other)
  cases enabled : ctx.config.cacheEnabled with
  | false =>
      rw [getOrder_disabled enabled] at h
      obtain ⟨before, after, found, s₁, rfl, read, rest⟩ := Machine.alone_bind h
      obtain ⟨rfl, header, _⟩ := alone_selectOrder fresh.transaction read
      rw [foreign] at rest
      have unmarked : s₁.header t = none := (congrFun header t).trans fresh.header
      obtain ⟨rfl, same⟩ := Machine.alone_done (refusal row other ▸ rest)
      cases same
      exact ⟨rfl, fun _ => .inl enabled, fun _ => unmarked⟩
  | true =>
      obtain ⟨k, program, failed, missed, hit⟩ := getOrder_enabled enabled user id
      rw [program] at h
      obtain ⟨c, rest, reply, s₁, rfl, hexec, later⟩ := Machine.alone_await h
      obtain ⟨fault, rfl, rfl, rfl⟩ := exec_redis hexec
      -- without an entry, the write-back decides
      have unserved : (fault = .none → s.server.store (orderEntityKey id) = none) →
          k (s.redis t fault (.get (orderEntityKey id))).1 = fetchThrough ctx user id →
          response = orderNotFound ∧
            (s'.header t = none ↔ Untold ctx id s (.redis fault :: rest)) := by
        intro silent fetch
        rw [fetch] at later
        obtain ⟨rfl, header⟩ :=
          fetchThrough_foreign (by exact fresh.transaction) (by exact fresh.header)
            (by exact foreign) other later
        refine ⟨rfl, header.trans ⟨fun quiet => .inr ⟨?_, quiet⟩, ?_⟩⟩
        · rintro ⟨⟩
          exact silent rfl
        · rintro (disabled | ⟨_, quiet⟩)
          · rw [enabled] at disabled
            cases disabled
          · exact quiet
      cases fault with
      | refused => exact unserved nofun failed
      | late => exact unserved nofun failed
      | none =>
          cases entry : s.server.store (orderEntityKey id) with
          | none =>
              refine unserved (fun _ => entry) ?_
              simp only [State.redis, Redis.Server.call, Redis.Command.apply, entry]
              exact missed
          | some entry' =>
              -- the entry is served, and the header with it
              obtain ⟨row', value, other'⟩ := cached entry' entry
              have served : k (s.redis t .none (.get (orderEntityKey id))).1 =
                  .await (.work (.header .hit)) fun _ => .done orderNotFound := by
                simp only [State.redis, Redis.Server.call, Redis.Command.apply, entry, value,
                  Option.map_some]
                rw [hit, refusal row' other']
              rw [served] at later
              obtain ⟨c', rest', _, s₂, rfl, hexec, done⟩ := Machine.alone_await later
              obtain ⟨rfl, rfl⟩ := exec_header hexec
              obtain ⟨rfl, same⟩ := Machine.alone_done done
              cases same
              refine ⟨rfl, ?_, ?_⟩
              · intro unmarked
                simp at unmarked
              · rintro (disabled | ⟨silent, _⟩)
                · rw [enabled] at disabled
                  cases disabled
                · rw [silent rfl] at entry
                  cases entry

/-! ### `PATCH` -/

private theorem alone_connect
    (h : Machine.alone (M := machine ctx) t choices connect s = some (.ok (), s')) :
    s'.db = s.db ∧ s'.header = s.header := by
  obtain ⟨c, rest, reply, s₁, rfl, hexec, after⟩ := Machine.alone_await h
  cases reply with
  | none => cases (Machine.alone_thrown after).2
  | some _ =>
      obtain ⟨_, same⟩ := Machine.alone_done after
      cases same
      cases c with
      | succeeds =>
          cases hexec
          exact ⟨rfl, rfl⟩
      | _ => cases hexec

private theorem alone_release
    (h : Machine.alone (M := machine ctx) t choices release s = some (.ok (), s')) :
    s'.header = s.header := by
  obtain ⟨c, rest, reply, s₁, rfl, hexec, after⟩ := Machine.alone_await h
  obtain ⟨_, same⟩ := Machine.alone_done after
  cases same
  cases c with
  | succeeds =>
      cases hexec
      rfl
  | _ => cases hexec

/-- The work on a client that has returned: nothing was caught, and the client was released. -/
private theorem alone_withClient {work : Route HttpResponse} {response : HttpResponse}
    (h : Machine.alone (M := machine ctx) t choices (withClient work) s =
      some (.ok response, s')) :
    ∃ before s₁, Machine.alone (M := machine ctx) t before work s = some (.ok response, s₁) ∧
      s'.header = s₁.header := by
  obtain ⟨before, after, s₁, rfl, body, cleanup⟩ := Machine.alone_ensuring h
  refine ⟨before, s₁, Machine.alone_attempt (fun e choices s rethrown => ?_) body,
    alone_release cleanup⟩
  obtain ⟨_, _, _, _, _, _, rest⟩ := Machine.alone_bind rethrown
  cases (Machine.alone_thrown rest).2

/-- An order that the user may not see, because there is none or because it is not the user's. -/
private theorem patchOrder_refused {user : Uuid} {id : String} {target : OrderStatus}
    {response : HttpResponse} (fresh : Fresh t s)
    (hidden : ∀ row, s.db.tables.order? (.ofText id) = some row → row.userId ≠ user)
    (h : Machine.alone (M := machine ctx) t choices (patchOrder ctx user id target) s =
      some (.ok response, s')) : response = orderNotFound ∧ s'.header t = none := by
  obtain ⟨c₀, rest₀, ⟨⟩, s₁, rfl, connected, work⟩ := Machine.alone_bind h
  obtain ⟨db₁, header₁⟩ := alone_connect connected
  obtain ⟨choices', s₅, body, header₅⟩ := alone_withClient work
  obtain ⟨c₁, rest₁, _, s₂, rfl, begun, body⟩ := Machine.alone_bind body
  obtain ⟨_, _, _, db₂, _, began, rfl⟩ := alone_query begun
  obtain ⟨c₂, rest₂, current, s₃, rfl, locked, body⟩ := Machine.alone_bind body
  obtain ⟨_, _, _, db₃, _, selected, rfl⟩ := alone_query locked
  -- the transaction is open, and has written nothing
  have opened : db₂.transaction t = some ⟨s₁.db.now, [], false⟩ ∧
      db₂.tables = s.db.tables := by
    have idle : s₁.db.transaction t = none := (congrArg (·.transaction t) db₁).trans fresh.transaction
    rcases Database.exec_live (by simp [idle]) began with ⟨none, _⟩ | performed
    · cases none
    · simp only [Database.perform, idle] at performed
      cases performed
      refine ⟨Function.update_self _ _ _, ?_⟩
      show s₁.db.tables = s.db.tables
      rw [db₁]
  have found : current = (s.db.tables.order? (.ofText id)).map fun row => (row.status, row.userId) := by
    rcases Database.exec_live (by simp [opened.1]) selected with ⟨none, _⟩ | performed
    · cases none
    · simp only [Database.perform] at performed
      split at performed
      · rw [Database.view_of_nil opened.1, opened.2] at performed
        cases performed
        rfl
      · cases performed
  have refused : ∀ {choices}, Machine.alone (M := machine ctx) t choices
      ((query .rollback).bind fun _ => .done orderNotFound) { s₁ with
        db := db₃
        history := (s₁.history.sql t (s₁.pending t) db₂.tables .begin (some ())) } =
      some (.ok response, s₅) → response = orderNotFound ∧ s'.header t = none := by
    intro choices rolled
    obtain ⟨_, _, _, s₄, _, rollback, rest⟩ := Machine.alone_bind rolled
    obtain ⟨_, _, _, db₄, _, _, rfl⟩ := alone_query rollback
    obtain ⟨_, same⟩ := Machine.alone_done rest
    cases same
    refine ⟨rfl, ?_⟩
    rw [header₅]
    exact (congrFun header₁ t).trans fresh.header
  cases row : s.db.tables.order? (.ofText id) with
  | none =>
      rw [row] at found
      subst found
      exact refused body
  | some row' =>
      rw [row] at found
      subst found
      simp only [Option.map_some] at body
      rw [if_pos (hidden row' row)] at body
      exact refused body

/-! ### Two runs -/

variable {A : Assumptions} {p₁ p₂ : Service ctx}

/-- An order that does not exist is not cached. -/
theorem uncached_of_absent (run : Run ctx A (Service.initial ctx) p₁) {id : String}
    (absent : p₁.shared.db.tables.order? (.ofText id) = none) :
    p₁.shared.server.store (orderEntityKey id) = none := by
  have inv := (sound_of_run run).inv.1
  by_contra cached
  obtain ⟨entry, stored⟩ := Option.ne_none_iff_exists'.mp cached
  obtain ⟨i, row, _, ⟨T, at_i, found⟩, _⟩ := (inv.stored _ _ stored).entity_inv
  obtain ⟨row', now, _⟩ := inv.owners T (List.mem_of_getElem? at_i) _ row found
  rw [absent] at now
  cases now

/-- What is cached of an order belongs to whom the order belongs to. -/
theorem cached_of_foreign (run : Run ctx A (Service.initial ctx) p₁) {id : String} {user : Uuid}
    {row : OrderRow} (found : p₁.shared.db.tables.order? (.ofText id) = some row)
    (other : row.userId ≠ user) (entry : Redis.Entry)
    (stored : p₁.shared.server.store (orderEntityKey id) = some entry) :
    ∃ row', entry.value = (orderBody (some row')).stringify ∧ row'.userId ≠ user := by
  have inv := (sound_of_run run).inv.1
  obtain ⟨i, row', value, ⟨T, at_i, found'⟩, _⟩ := (inv.stored _ _ stored).entity_inv
  obtain ⟨now, present, same⟩ := inv.owners T (List.mem_of_getElem? at_i) _ row' found'
  cases found.symm.trans present
  exact ⟨row', value, fun own => other (same.trans own)⟩

/-- A complete response: status, body and the header that the handler sets. -/
abbrev FullResponse := HttpResponse × Option XCache

/-- The request, made now by `t` and not interrupted, is answered by `response`. -/
def Responds (ctx : ApiContext) (s : State) (t : Tid) (choices : List Choice) (request : Request)
    (response : FullResponse) : Prop :=
  ∃ s', Machine.alone t choices (handler ctx request) s = some (.ok response.1, s') ∧
    response.2 = s'.header t

/-- **What a refusal tells.**  In one run the order does not exist, in the other one it belongs to
somebody else.  The complete responses of a `GET` are the same in both exactly where the cache is
disabled or Redis lets the handler say nothing of the order; those of a `PATCH` always are. -/
theorem same_response_iff (run₁ : Run ctx .none (Service.initial ctx) p₁)
    (run₂ : Run ctx .none (Service.initial ctx) p₂) {t₁ t₂ : Tid} (free₁ : p₁.slot t₁ = .free)
    (free₂ : p₂.slot t₂ = .free) {user : Uuid} {id : String} {row : OrderRow}
    (absent : p₁.shared.db.tables.order? (.ofText id) = none)
    (foreign : p₂.shared.db.tables.order? (.ofText id) = some row) (other : row.userId ≠ user) :
    (∀ {choices₁ choices₂ response₁ response₂},
      Responds ctx p₁.shared t₁ choices₁ (.getOrder user id) response₁ →
      Responds ctx p₂.shared t₂ choices₂ (.getOrder user id) response₂ →
        (response₁ = response₂ ↔ Untold ctx id p₂.shared choices₂)) ∧
    ∀ {target choices₁ choices₂ response₁ response₂},
      Responds ctx p₁.shared t₁ choices₁ (.patchOrder user id target) response₁ →
      Responds ctx p₂.shared t₂ choices₂ (.patchOrder user id target) response₂ →
        response₁ = response₂ := by
  have fresh₁ := (sound_of_run run₁).free free₁
  have fresh₂ := (sound_of_run run₂).free free₂
  constructor
  · rintro choices₁ choices₂ ⟨_, header₁⟩ ⟨_, header₂⟩ ⟨s₁, get₁, rfl⟩ ⟨s₂, get₂, rfl⟩
    obtain ⟨rfl, unmarked⟩ := getOrder_absent fresh₁ absent (uncached_of_absent run₁ absent) get₁
    obtain ⟨rfl, marked⟩ :=
      getOrder_foreign fresh₂ foreign other (cached_of_foreign run₂ foreign other) get₂
    rw [← marked, unmarked, Prod.mk.injEq]
    exact ⟨fun same => same.2.symm, fun untold => ⟨rfl, untold.symm⟩⟩
  · rintro target choices₁ choices₂ ⟨_, header₁⟩ ⟨_, header₂⟩ ⟨s₁, patch₁, rfl⟩ ⟨s₂, patch₂, rfl⟩
    obtain ⟨rfl, unmarked₁⟩ := patchOrder_refused fresh₁ (by rw [absent]; nofun) patch₁
    obtain ⟨rfl, unmarked₂⟩ := patchOrder_refused fresh₂
      (by rw [foreign]; rintro _ ⟨⟩; exact other) patch₂
    exact Prod.ext rfl (unmarked₁.trans unmarked₂.symm)

/-- A response that has been evaluated. -/
private theorem responds_of_alone {request : Request} {response : HttpResponse}
    {header : Option XCache}
    (h : (Machine.alone (M := machine ctx) t choices (handler ctx request) s).map
      (fun x => (x.1.toOption, x.2.header t)) = some (some response, header)) :
    Responds ctx s t choices request (response, header) := by
  obtain ⟨⟨outcome, s'⟩, alone, same⟩ := Option.map_eq_some_iff.mp h
  cases outcome with
  | error e => cases same
  | ok r =>
      cases same
      exact ⟨s', alone, rfl⟩

/-- A `GET` by alice, on her own, of the order that bob may have made. -/
def getting (id : Uuid) : Request := .getOrder alice id.text

/-- Redis is out of reach in both runs. -/
theorem same_response_without_redis :
    ∃ p₁ p₂ : Service orderContext,
      Run orderContext .none (Service.initial orderContext) p₁ ∧
      Run orderContext .none (Service.initial orderContext) p₂ ∧
      p₁.shared.db.tables.order? (.ofText (exampleId 1).text) = none ∧
      p₂.shared.db.tables.order? (.ofText (exampleId 1).text) = some (exampleOrder 1 bob) ∧
      ∃ response₁ response₂,
        Responds orderContext p₁.shared 1 [.redis .refused, .succeeds] (getting (exampleId 1))
          response₁ ∧
        Responds orderContext p₂.shared 1
          [.redis .refused, .succeeds, .redis .refused] (getting (exampleId 1)) response₂ ∧
        response₁ = response₂ := by
  obtain ⟨p₂, run₂, free₂, foreign, get₂⟩ := Pool.steps_of_check (regime orderContext .none)
    (handler orderContext) (Service.initial orderContext)
    (postMoves 0 bob (exampleId 1) (exampleId 2) (exampleId 3))
    (fun p => (p.slot 1).isFree = true ∧
      p.shared.db.tables.order? (.ofText (exampleId 1).text) = some (exampleOrder 1 bob) ∧
      (Machine.alone (M := machine orderContext) 1 [.redis .refused, .succeeds, .redis .refused]
        (handler orderContext (getting (exampleId 1))) p.shared).map
        (fun x => (x.1.toOption, x.2.header 1)) = some (some orderNotFound, none))
    (by decide)
  have absent : (Service.initial orderContext).shared.db.tables.order?
      (.ofText (exampleId 1).text) = none := rfl
  have responds₁ : Responds orderContext (Service.initial orderContext).shared 1
      [.redis .refused, .succeeds] (getting (exampleId 1)) (orderNotFound, none) :=
    responds_of_alone (by decide)
  have responds₂ := responds_of_alone get₂
  exact ⟨_, p₂, .refl, run₂, absent, foreign, _, _, responds₁, responds₂,
    ((same_response_iff .refl run₂ rfl (Async.Slot.eq_free free₂) absent foreign (by decide)).1
      responds₁ responds₂).mpr (.inr ⟨nofun, by simp⟩)⟩

/-- **A `GET` tells whether the order exists.**  Bob has made the order in one of two runs; there
alice's `404` says that the cache was missed, and in the other run it says nothing. -/
theorem existence_shown :
    ∃ p₁ p₂ : Service orderContext,
      Run orderContext .none (Service.initial orderContext) p₁ ∧
      Run orderContext .none (Service.initial orderContext) p₂ ∧
      p₁.shared.db.tables.order? (.ofText (exampleId 1).text) = none ∧
      p₂.shared.db.tables.order? (.ofText (exampleId 1).text) = some (exampleOrder 1 bob) ∧
      Responds orderContext p₁.shared 1 [.redis .none, .succeeds] (getting (exampleId 1))
        (orderNotFound, none) ∧
      Responds orderContext p₂.shared 1 [.redis .none, .succeeds, .redis .none, .succeeds]
        (getting (exampleId 1)) (orderNotFound, some .miss) := by
  obtain ⟨p₂, run₂, foreign, get₂⟩ := Pool.steps_of_check (regime orderContext .none)
    (handler orderContext) (Service.initial orderContext)
    (postMoves 0 bob (exampleId 1) (exampleId 2) (exampleId 3))
    (fun p => p.shared.db.tables.order? (.ofText (exampleId 1).text) = some (exampleOrder 1 bob) ∧
      (Machine.alone (M := machine orderContext) 1
        [.redis .none, .succeeds, .redis .none, .succeeds]
        (handler orderContext (getting (exampleId 1))) p.shared).map
        (fun x => (x.1.toOption, x.2.header 1)) = some (some orderNotFound, some .miss))
    (by decide)
  exact ⟨_, p₂, .refl, run₂, rfl, foreign, responds_of_alone (by decide),
    responds_of_alone get₂⟩

end OrderRoutes

end OrderPlatform
