import OrderPlatform.Async.Evaluation
import OrderPlatform.Api.OrderPlainReads
import OrderPlatform.Paging.Pages

/-!
# Walking through the pages

A client asks for page 1 and for the page behind it as long as `hasNext` says so.  Every page is a
query of its own, ordered by `created_at` alone, so rows that were created at the same time may
stand in another order for the next page.

The walk passes as many orders as match, in descending order of their time, and ends at the last
page.  It passes each of them once, whatever the orders in which Postgres returns them, exactly if
no two orders of one time stand on the two sides of a page boundary (`paging_visits_orders`).

* `whereSql` — the text of the `WHERE` clause and its parameters.
* `Walk` — what a client does.
-/

namespace OrderPlatform

namespace OrderRoutes

open Async (Tid Pool Evaluates Program Performed)
open Text (Json)

/-! ### The text of the list statement -/

/-- A parameter of a statement. -/
inductive SqlValue
  | uuid (id : Uuid)
  | status (status : OrderStatus)
  | text (text : String)
  | number (n : ℕ)
deriving DecidableEq

/-- What a clause compares its parameter with, and how. -/
inductive Comparison
  /-- `user_id = $n` -/
  | userId
  /-- `status = $n` -/
  | status
  /-- `customer_email = $n` -/
  | customerEmail
  /-- `created_at >= $n` -/
  | createdAfter
  /-- `created_at <= $n` -/
  | createdBefore
deriving DecidableEq

/-- A comparison of the `WHERE` clause with the value of its parameter; a value of another type
never occurs. -/
def Comparison.holds (ctx : ApiContext) (row : OrderRow) : Comparison → SqlValue → Bool
  | userId, .uuid id => row.userId = id
  | status, .status wanted => row.status = wanted
  | customerEmail, .text email => row.customerEmail = email
  | createdAfter, .text text =>
      (ctx.timestamptz text).any fun (time : ℤ) => time ≤ row.createdAt
  | createdBefore, .text text =>
      (ctx.timestamptz text).any fun (time : ℤ) => row.createdAt ≤ time
  | _, _ => false

/-- A comparison with the parameter `$n`, counted from 1. -/
structure WhereClause where
  comparison : Comparison
  placeholder : ℕ
deriving DecidableEq

/-- `whereClauses` and `params`. -/
structure WhereSql where
  clauses : List WhereClause
  params : List SqlValue
deriving DecidableEq

namespace WhereSql

/-- `params.push(value); whereClauses.push(…)`. -/
def push (sql : WhereSql) (comparison : Comparison) (value : SqlValue) : WhereSql where
  params := sql.params ++ [value]
  clauses := sql.clauses ++ [⟨comparison, (sql.params ++ [value]).length⟩]

/-- The same for a filter that may be missing. -/
def pushGiven (sql : WhereSql) (comparison : Comparison) : Option SqlValue → WhereSql
  | some value => sql.push comparison value
  | none => sql

/-- Whether a row satisfies the clause, the placeholders being bound to these parameters. -/
def holds (ctx : ApiContext) (sql : WhereSql) (params : List SqlValue) (row : OrderRow) : Bool :=
  sql.clauses.all fun clause =>
    params[clause.placeholder - 1]?.any fun value => clause.comparison.holds ctx row value

end WhereSql

/-- The `WHERE` clause of a list request, and its parameters. -/
def whereSql (ctx : ApiContext) (query : ListOrdersQuery) (userId : Uuid) : WhereSql :=
  ((((⟨[⟨.userId, 1⟩], [.uuid userId]⟩ : WhereSql).pushGiven .status
    (query.status.map .status)).pushGiven .customerEmail
    (query.customerEmail.map fun email => .text (ctx.toLowerCase email))).pushGiven .createdAfter
    (query.createdAfter.map .text)).pushGiven .createdBefore (query.createdBefore.map .text)

/-- `[...params, query.pageSize, offset]`. -/
def listParams (ctx : ApiContext) (query : ListOrdersQuery) (userId : Uuid) : List SqlValue :=
  (whereSql ctx query userId).params ++ [.number query.pageSize, .number (paginationOffset query)]

/-- The placeholder behind `LIMIT`. -/
def limitPlaceholder (ctx : ApiContext) (query : ListOrdersQuery) (userId : Uuid) : ℕ :=
  (listParams ctx query userId).length - 1

/-- The placeholder behind `OFFSET`. -/
def offsetPlaceholder (ctx : ApiContext) (query : ListOrdersQuery) (userId : Uuid) : ℕ :=
  (listParams ctx query userId).length

variable {ctx : ApiContext} {T : Tables} {user : Uuid} {query : ListOrdersQuery} {order : RowOrder}

namespace WhereSql

/-- Every placeholder is bound. -/
def Bound (sql : WhereSql) : Prop :=
  ∀ clause ∈ sql.clauses, 0 < clause.placeholder ∧ clause.placeholder ≤ sql.params.length

theorem Bound.push {sql : WhereSql} (bound : sql.Bound) (comparison : Comparison)
    (value : SqlValue) : (sql.push comparison value).Bound := by
  have long : (sql.push comparison value).params.length = sql.params.length + 1 := List.length_append
  intro clause mem
  rw [long]
  rcases List.mem_append.mp mem with old | new
  · obtain ⟨positive, within⟩ := bound clause old
    exact ⟨positive, Nat.le_succ_of_le within⟩
  · obtain rfl := List.mem_singleton.mp new
    rw [List.length_append]
    exact ⟨Nat.succ_pos _, le_rfl⟩

theorem Bound.pushGiven {sql : WhereSql} (bound : sql.Bound) (comparison : Comparison)
    (value : Option SqlValue) : (sql.pushGiven comparison value).Bound := by
  cases value with
  | none => exact bound
  | some value => exact bound.push comparison value

/-- Parameters behind those of the clause are of no matter to it. -/
theorem Bound.holds_append {sql : WhereSql} (bound : sql.Bound) (more : List SqlValue)
    (row : OrderRow) : sql.holds ctx (sql.params ++ more) row = sql.holds ctx sql.params row := by
  rw [holds, holds, Bool.eq_iff_iff, List.all_eq_true, List.all_eq_true]
  refine forall₂_congr fun clause mem => ?_
  obtain ⟨positive, within⟩ := bound clause mem
  rw [List.getElem?_append_left (by omega)]

theorem Bound.holds_push {sql : WhereSql} (bound : sql.Bound) (comparison : Comparison)
    (value : SqlValue) (row : OrderRow) :
    (sql.push comparison value).holds ctx (sql.push comparison value).params row =
      (sql.holds ctx sql.params row && comparison.holds ctx row value) := by
  have old := (@bound.holds_append ctx) [value] row
  simp only [holds, WhereSql.push] at old ⊢
  rw [List.all_append, old]
  simp

theorem Bound.holds_pushGiven {sql : WhereSql} (bound : sql.Bound) (comparison : Comparison)
    (value : Option SqlValue) (row : OrderRow) :
    (sql.pushGiven comparison value).holds ctx (sql.pushGiven comparison value).params row =
      (sql.holds ctx sql.params row && value.all fun value => comparison.holds ctx row value) := by
  cases value with
  | none => rw [WhereSql.pushGiven, Option.all_none, Bool.and_true]
  | some value => exact bound.holds_push comparison value row

end WhereSql

/-- **The list statement says what it is meant to say**: with the parameters that it is sent with,
its clause selects the rows that satisfy the filters, its limit is the page size and its offset is
that of the page. -/
theorem listStatement_selects (ctx : ApiContext) (query : ListOrdersQuery) (user : Uuid) :
    (∀ row, (whereSql ctx query user).holds ctx (listParams ctx query user) row =
      (query.filter ctx user).selects ctx row) ∧
    (listParams ctx query user)[limitPlaceholder ctx query user - 1]? =
      some (.number query.pageSize) ∧
    (listParams ctx query user)[offsetPlaceholder ctx query user - 1]? =
      some (.number (paginationOffset query)) := by
  have start : (⟨[⟨.userId, 1⟩], [.uuid user]⟩ : WhereSql).Bound := by
    intro clause mem
    obtain rfl := List.mem_singleton.mp mem
    exact ⟨Nat.one_pos, le_rfl⟩
  refine ⟨fun row => ?_, ?_, ?_⟩
  · have bound₁ := start.pushGiven .status (query.status.map .status)
    have bound₂ := bound₁.pushGiven .customerEmail
      (query.customerEmail.map fun email => .text (ctx.toLowerCase email))
    have bound₃ := bound₂.pushGiven .createdAfter (query.createdAfter.map .text)
    have bound₄ := bound₃.pushGiven .createdBefore (query.createdBefore.map .text)
    refine (bound₄.holds_append _ row).trans ?_
    rw [bound₃.holds_pushGiven, bound₂.holds_pushGiven, bound₁.holds_pushGiven,
      start.holds_pushGiven]
    simp [WhereSql.holds, OrderFilter.selects, ListOrdersQuery.filter, Comparison.holds,
      Option.all_map]
    rfl
  · simp [listParams, limitPlaceholder]
  · simp [listParams, offsetPlaceholder]

/-! ### The walk of a client -/

/-- The request for page `k + 1` of the same list. -/
def ListOrdersQuery.onPage (query : ListOrdersQuery) (k : ℕ) : ListOrdersQuery :=
  { query with page := k + 1, page_pos := Nat.succ_pos k }

/-- The service answers the request for page `k + 1` with this body, in some run over the tables in
which Postgres returns rows in some order that it may return them in. -/
def AnswersPage (ctx : ApiContext) (T : Tables) (query : ListOrdersQuery) (user : Uuid) (k : ℕ)
    (body : Json) : Prop :=
  ∃ (order : RowOrder) (p : Pool (machine ctx) ReadRequest HttpResponse) (t : Tid),
    order.Legal ctx T ∧ Reads ctx T order p ∧
      p.Answered t (.listOrders user (query.onPage k)) ⟨200, some body⟩

/-- **What a client does** from page `k + 1` on: it follows `hasNext`. -/
inductive Walk (ctx : ApiContext) (T : Tables) (query : ListOrdersQuery) (user : Uuid) :
    ℕ → List Json → Prop
  | last {k : ℕ} {body : Json} (answers : AnswersPage ctx T query user k body)
      (ends : body.get? "hasNext" ≠ some (.bool true)) : Walk ctx T query user k [body]
  | next {k : ℕ} {body : Json} {bodies : List Json} (answers : AnswersPage ctx T query user k body)
      (goes : body.get? "hasNext" = some (.bool true))
      (rest : Walk ctx T query user (k + 1) bodies) : Walk ctx T query user k (body :: bodies)

/-- The orders on a page. -/
def ordersOf (body : Json) : List Json :=
  match body.get? "orders" with
  | some (.arr items) => items.toList
  | _ => []

/-- What a walk has always come to: the orders on its pages are orders that match, in descending
order of their time and as many as there are, and it has ended at the last page. -/
structure Paged (ctx : ApiContext) (T : Tables) (query : ListOrdersQuery) (user : Uuid)
    (bodies : List Json) (rows : List OrderRow) : Prop where
  orders : bodies.flatMap ordersOf = rows.map OrderRow.toJson
  sound : ∀ row ∈ rows, row ∈ T.select ctx (query.filter ctx user)
  descending : rows.Pairwise newestFirst
  count : rows.length = (T.select ctx (query.filter ctx user)).length
  total : ∀ body ∈ bodies, body.get? "total" = some (.num rows.length)
  /-- Without a matching order there are no pages, and the walk has seen the empty first page. -/
  pages : ∀ body ∈ bodies,
    body.get? "totalPages" = some (.num (if rows = [] then 0 else bodies.length : ℕ))

/-- The number of pages. -/
def totalPages (total pageSize : ℕ) : ℕ :=
  if total = 0 then 0 else (total + pageSize - 1) / pageSize

section

variable {rows : List OrderRow} {total : ℕ}

private theorem get_pageBody (query : ListOrdersQuery) (rows : List OrderRow) (total : ℕ) :
    (pageBody query rows total).get? "total" = some (.num total) ∧
    (pageBody query rows total).get? "totalPages" =
      some (.num (totalPages total query.pageSize : ℕ)) ∧
    (pageBody query rows total).get? "hasNext" =
      some (.bool (decide (query.page < totalPages total query.pageSize))) ∧
    (pageBody query rows total).get? "orders" = some (.array (rows.map OrderRow.toJson)) := by
  have read : ∀ key, (pageBody query rows total).get? key =
      (Text.Fields.ofList (buildPaginationMeta total query ++
        [("orders", .array (rows.map OrderRow.toJson)), ("filters", query.filtersJson)])).get? key :=
    fun _ => rfl
  simp only [read, buildPaginationMeta, List.cons_append, List.nil_append, Text.Fields.ofList,
    Text.Fields.get?]
  exact ⟨rfl, rfl, rfl, rfl⟩

theorem ordersOf_pageBody (query : ListOrdersQuery) (rows : List OrderRow) (total : ℕ) :
    ordersOf (pageBody query rows total) = rows.map OrderRow.toJson := by
  rw [ordersOf, (get_pageBody query rows total).2.2.2]
  exact Text.Items.toList_ofList _

end

/-! ### Pages and arrangements -/

/-- The orders that match. -/
abbrev matching (ctx : ApiContext) (T : Tables) (query : ListOrdersQuery) (user : Uuid) :
    List OrderRow :=
  T.select ctx (query.filter ctx user)

/-- Page `k + 1` of an arrangement of the orders that match. -/
def bodyOf (ctx : ApiContext) (T : Tables) (query : ListOrdersQuery) (user : Uuid)
    (arrangement : ℕ → List OrderRow) (k : ℕ) : Json :=
  pageBody (query.onPage k) (Paging.page query.pageSize k (arrangement k))
    (matching ctx T query user).length

theorem plainPage_onPage (order : RowOrder) (k : ℕ) :
    plainPage ctx T order (query.onPage k) user =
      pageBody (query.onPage k) (Paging.page query.pageSize k
        (order (query.filter ctx user) query.pageSize (k * query.pageSize)))
        (matching ctx T query user).length := by
  have offset : paginationOffset (query.onPage k) = k * query.pageSize := rfl
  rw [plainPage, plainRows, offset]
  rfl

/-- What a page shows is a page of an arrangement. -/
theorem AnswersPage.inv {k : ℕ} {body : Json} (h : AnswersPage ctx T query user k body) :
    ∃ l : List OrderRow, l.Perm (matching ctx T query user) ∧
      Paging.Descending OrderRow.createdAt l ∧
        body = pageBody (query.onPage k) (Paging.page query.pageSize k l)
          (matching ctx T query user).length := by
  obtain ⟨order, p, t, legal, run, answered⟩ := h
  obtain ⟨perm, sorted⟩ := legal (query.filter ctx user) query.pageSize (k * query.pageSize)
  refine ⟨_, perm, sorted, ?_⟩
  have answer := (sound_of_reads run).answered answered
  rw [← plainPage_onPage (T := T) order k]
  exact Option.some.inj (congrArg HttpResponse.body answer)

/-- The text of a list request up to its two queries, where the caches are switched off, or Redis
refuses to read the version. -/
private theorem listOrders_text (ctx : ApiContext) (user : Uuid) (query : ListOrdersQuery)
    (rows : List OrderRow) (total : ℕ) :
    ∃ (fetch : Route HttpResponse) (k₁ : Option (List OrderRow) → Route HttpResponse)
      (right count : Route HttpResponse) (k₃ : Option String → Route HttpResponse),
      fetch = .either (.await (.work (.sql (.selectOrders (query.filter ctx user) query.pageSize
        (paginationOffset query)))) k₁) right ∧
      k₁ (some rows) = count ∧
      k₃ (some (toString total)) = .done ⟨200, some (pageBody query rows total)⟩ ∧
      ((reading ctx (.listOrders user query) = fetch ∧
        count = .await (.work (.sql (.countOrders (query.filter ctx user)))) k₃) ∨
      ∃ k₀ k₂ : Option (Option String) → Route HttpResponse,
        reading ctx (.listOrders user query) = .await (.redis (.get versionKey)) k₀ ∧
        k₀ none = fetch ∧ count = .await (.redis (.get versionKey)) k₂ ∧
        k₂ none = .await (.work (.sql (.countOrders (query.filter ctx user)))) k₃) := by
  have counted : (countOf (toString total)).getD 0 = total := by rw [countOf_toString]; rfl
  obtain ⟨⟨enabled, ttl, countTtl⟩, sha256, lower, toLowerCase, at_mem, timestamptz⟩ := ctx
  cases enabled with
  | false =>
      refine ⟨_, _, _, _, _, rfl, rfl, ?_, .inl ⟨rfl, rfl⟩⟩
      exact congrArg (fun total =>
        Program.done (⟨200, some (pageBody query rows total)⟩ : HttpResponse)) counted
  | true =>
      refine ⟨_, _, _, _, _, rfl, rfl, ?_, .inr ⟨_, _, rfl, rfl, rfl, rfl⟩⟩
      exact congrArg (fun total =>
        Program.done (⟨200, some (pageBody query rows total)⟩ : HttpResponse)) counted

/-- A list request that is served from Postgres. -/
private theorem evaluates_listOrders (legal : RowOrder.Legal order ctx T) (user : Uuid)
    (query : ListOrdersQuery) :
    ∃ log, Evaluates (M := machine ctx) 0 (reading ctx (.listOrders user query)) (.over T) log
        (.ok (plainAnswer ctx T order (.listOrders user query))) (.over T) ∧
      ∀ x ∈ log, (readRegime ctx order).advance 0 x.choice x.op x.state := by
  have performed : (machine ctx).exec 0
      (.rows (order (query.filter ctx user) query.pageSize (paginationOffset query)))
      (.work (.sql (.selectOrders (query.filter ctx user) query.pageSize
        (paginationOffset query)))) (.over T) =
      some (some (plainRows order (query.filter ctx user) query.pageSize (paginationOffset query)),
        .over T) := by
    have found : (State.over T).db.exec ctx 0 false
        (order (query.filter ctx user) query.pageSize (paginationOffset query))
        (.selectOrders (query.filter ctx user) query.pageSize (paginationOffset query)) =
          some (some (plainRows order (query.filter ctx user) query.pageSize
            (paginationOffset query)), (State.over T).db) :=
      if_pos (legal (query.filter ctx user) query.pageSize (paginationOffset query))
    show ((State.over T).db.exec ctx 0 false _ _).map _ = _
    rw [found]
    rfl
  obtain ⟨fetch, k₁, right, count, k₃, fetches, counts, answers, text⟩ :=
    listOrders_text ctx user query
      (plainRows order (query.filter ctx user) query.pageSize (paginationOffset query))
      (T.select ctx (query.filter ctx user)).length
  have answered : Evaluates (M := machine ctx) 0
      (.await (.work (.sql (.countOrders (query.filter ctx user)))) k₃) (.over T)
      [⟨.succeeds, .work (.sql (.countOrders (query.filter ctx user))), .over T⟩]
      (.ok (plainAnswer ctx T order (.listOrders user query))) (.over T) :=
    .await (M := machine ctx) (c := .succeeds) rfl (.of_eq answers (.done _ _))
  have fetched : ∀ log, Evaluates (M := machine ctx) 0 count (.over T) log
      (.ok (plainAnswer ctx T order (.listOrders user query))) (.over T) →
      Evaluates (M := machine ctx) 0 fetch (.over T)
        (⟨.rows (order (query.filter ctx user) query.pageSize (paginationOffset query)),
          .work (.sql (.selectOrders (query.filter ctx user) query.pageSize
            (paginationOffset query))), .over T⟩ :: log)
        (.ok (plainAnswer ctx T order (.listOrders user query))) (.over T) := fun log counted =>
    .of_eq fetches (.left (.await performed (.of_eq counts counted)))
  -- without a cache there are the two queries, and with one its commands are refused
  rcases text with ⟨program, plain⟩ | ⟨k₀, k₂, program, missed, cached, uncounted⟩
  · refine ⟨_, .of_eq program (fetched _ (.of_eq plain answered)), ?_⟩
    exact List.forall_mem_cons.mpr ⟨.inl rfl, List.forall_mem_singleton.mpr trivial⟩
  · refine ⟨_, .of_eq program (.await (M := machine ctx) (c := .redis .refused) rfl
      (.of_eq missed (fetched _ (.of_eq cached (.await (M := machine ctx) (c := .redis .refused) rfl
        (.of_eq uncounted answered)))))), ?_⟩
    exact List.forall_mem_cons.mpr ⟨trivial, List.forall_mem_cons.mpr ⟨.inl rfl,
      List.forall_mem_cons.mpr ⟨trivial, List.forall_mem_singleton.mpr trivial⟩⟩⟩

/-- Every page of an arrangement may be shown. -/
theorem answersPage_of {l : List OrderRow} (perm : l.Perm (matching ctx T query user))
    (sorted : Paging.Descending OrderRow.createdAt l) (k : ℕ) :
    AnswersPage ctx T query user k (pageBody (query.onPage k) (Paging.page query.pageSize k l)
      (matching ctx T query user).length) := by
  -- the arrangement for this list, and any one for every other list
  let order : RowOrder := fun filter _ _ =>
    if filter = query.filter ctx user then l
    else (Paging.exists_descending OrderRow.createdAt (T.select ctx filter)).choose
  have own : order (query.filter ctx user) query.pageSize (k * query.pageSize) = l := if_pos rfl
  have legal : order.Legal ctx T := by
    intro filter limit offset
    simp only [order]
    split
    · rename_i same
      rw [same]
      exact ⟨perm, sorted⟩
    · exact (Paging.exists_descending OrderRow.createdAt (T.select ctx filter)).choose_spec
  obtain ⟨log, evaluates, allowed⟩ := evaluates_listOrders legal user (query.onPage k)
  obtain ⟨p₁, run₁, shared₁, slot₁⟩ := Pool.Steps.start
    (.refl : Reads ctx T order (Pool.idle (State.over T))) (t := 0) rfl
    (.listOrders user (query.onPage k))
  obtain ⟨p, run, -, answered⟩ := evaluates.steps allowed run₁ shared₁
    ((congrFun slot₁ 0).trans (Function.update_self _ _ _))
  refine ⟨order, p, 0, legal, run, answered.trans ?_⟩
  rw [← own, ← plainPage_onPage (T := T) order k]
  rfl

/-! ### Walks and arrangements -/

/-- **A walk passes pages of arrangements**, up to the last page. -/
theorem Walk.inv {k : ℕ} {bodies : List Json} (walk : Walk ctx T query user k bodies) :
    ∃ arrangement : ℕ → List OrderRow,
      (∀ i, (arrangement i).Perm (matching ctx T query user)) ∧
      (∀ i, Paging.Descending OrderRow.createdAt (arrangement i)) ∧
      bodies = (List.range' k bodies.length).map (bodyOf ctx T query user arrangement) ∧
      k + bodies.length =
        max (k + 1) (totalPages (matching ctx T query user).length query.pageSize) := by
  induction walk with
  | @last k body answers ends =>
      obtain ⟨l, perm, sorted, rfl⟩ := answers.inv
      refine ⟨fun _ => l, fun _ => perm, fun _ => sorted, rfl, ?_⟩
      rw [(get_pageBody _ _ _).2.2.1] at ends
      have reached : ¬ k + 1 < totalPages (matching ctx T query user).length query.pageSize :=
        fun less => ends (congrArg (fun b => some (Json.bool b)) (decide_eq_true less))
      exact (max_eq_left (Nat.le_of_not_lt reached)).symm
  | @next k body bodies answers goes rest ih =>
      obtain ⟨l, perm, sorted, rfl⟩ := answers.inv
      obtain ⟨arrangement, perms, sorteds, same, last⟩ := ih
      have more : k + 1 < totalPages (matching ctx T query user).length query.pageSize := by
        rw [(get_pageBody _ _ _).2.2.1] at goes
        exact of_decide_eq_true (Json.bool.inj (Option.some.inj goes))
      refine ⟨Function.update arrangement k l, fun i => ?_, fun i => ?_, ?_, ?_⟩
      · by_cases here : i = k
        · rw [here, Function.update_self]
          exact perm
        · rw [Function.update_of_ne here]
          exact perms i
      · by_cases here : i = k
        · rw [here, Function.update_self]
          exact sorted
        · rw [Function.update_of_ne here]
          exact sorteds i
      · rw [List.length_cons, List.range'_succ, List.map_cons]
        congr 1
        · rw [bodyOf, Function.update_self]
        · refine same.trans (List.map_congr_left fun i mem => ?_)
          have later : i ≠ k := by
            have := (List.mem_range'_1.mp mem).1
            omega
          rw [bodyOf, bodyOf, Function.update_of_ne later]
      · rw [List.length_cons]
        omega

/-- Pages of arrangements are passed by a walk. -/
theorem walk_of_arrangement {arrangement : ℕ → List OrderRow}
    (perm : ∀ i, (arrangement i).Perm (matching ctx T query user))
    (sorted : ∀ i, Paging.Descending OrderRow.createdAt (arrangement i)) (n : ℕ) :
    ∀ k, k + n = max (k + 1) (totalPages (matching ctx T query user).length query.pageSize) →
      Walk ctx T query user k ((List.range' k n).map (bodyOf ctx T query user arrangement)) := by
  induction n with
  | zero => intro k last; omega
  | succ n ih =>
      intro k last
      rw [List.range'_succ, List.map_cons]
      have answers : AnswersPage ctx T query user k (bodyOf ctx T query user arrangement k) :=
        answersPage_of (perm k) (sorted k) k
      have next : (bodyOf ctx T query user arrangement k).get? "hasNext" = some (.bool (decide
          (k + 1 < totalPages (matching ctx T query user).length query.pageSize))) :=
        (get_pageBody _ _ _).2.2.1
      by_cases more : k + 1 < totalPages (matching ctx T query user).length query.pageSize
      · refine .next answers (by rw [next, decide_eq_true more]) (ih (k + 1) ?_)
        omega
      · obtain rfl : n = 0 := by omega
        refine .last answers ?_
        rw [next, decide_eq_false more]
        simp

/-- The pages reach the last order. -/
theorem le_totalPages_mul (total : ℕ) {pageSize n : ℕ} (positive : 0 < pageSize)
    (reaches : totalPages total pageSize ≤ n) : total ≤ n * pageSize := by
  unfold totalPages at reaches
  split at reaches
  · omega
  · have whole := Nat.lt_div_mul_add (a := total + pageSize - 1) positive
    calc
      total ≤ (total + pageSize - 1) / pageSize * pageSize := by omega
      _ ≤ n * pageSize := Nat.mul_le_mul_right pageSize reaches

theorem totalPages_pos {total pageSize : ℕ} (some_order : 0 < total) (positive : 0 < pageSize) :
    0 < totalPages total pageSize := by
  rw [totalPages, if_neg some_order.ne']
  exact Nat.div_pos (by omega) positive

theorem flatMap_bodyOf (arrangement : ℕ → List OrderRow) (n : ℕ) :
    ((List.range' 0 n).map (bodyOf ctx T query user arrangement)).flatMap ordersOf =
      (Paging.walk query.pageSize n arrangement).map OrderRow.toJson := by
  rw [List.flatMap_map, Paging.walk, List.map_flatMap, List.range_eq_range']
  exact List.flatMap_congr fun k _ => ordersOf_pageBody _ _ _

/-- An order is known by its id, also in JSON. -/
theorem nodup_matching (keys : (T.orders.map OrderRow.id).Nodup) (query : ListOrdersQuery)
    (user : Uuid) : ((matching ctx T query user).map OrderRow.toJson).Nodup := by
  have ids : ((matching ctx T query user).map OrderRow.id).Nodup :=
    keys.sublist (List.filter_sublist.map _)
  refine List.Nodup.of_map (fun order => order.get? "id") ?_
  have same : ((matching ctx T query user).map OrderRow.toJson).map (fun order => order.get? "id") =
      ((matching ctx T query user).map OrderRow.id).map fun id => some (Json.str id.text) := by
    rw [List.map_map, List.map_map]
    refine List.map_congr_left fun row _ => ?_
    simp [OrderRow.toJson, Json.object, Text.Fields.ofList, Json.get?, Text.Fields.get?]
  rw [same]
  refine ids.map fun a b text => Uuid.injective_text ?_
  exact Json.str.inj (Option.some.inj text)

/-- Every walk is paged. -/
theorem Walk.paged {bodies : List Json} (walk : Walk ctx T query user 0 bodies) :
    ∃ rows, Paged ctx T query user bodies rows := by
  obtain ⟨arrangement, perm, sorted, same, last⟩ := walk.inv
  have reaches : (matching ctx T query user).length ≤ bodies.length * query.pageSize :=
    le_totalPages_mul _ query.pageSize_pos (by omega)
  have count := Paging.length_walk perm sorted reaches
  refine ⟨Paging.walk query.pageSize bodies.length arrangement, ?_, ?_, ?_, count, ?_, ?_⟩
  · conv_lhs => rw [same]
    exact flatMap_bodyOf arrangement _
  · intro row mem
    obtain ⟨k, _, onPage⟩ := List.mem_flatMap.mp mem
    exact (perm k).mem_iff.mp (Paging.mem_of_mem_page onPage)
  · exact Paging.descending_walk perm sorted _
  · intro body mem
    rw [same] at mem
    obtain ⟨k, _, rfl⟩ := List.mem_map.mp mem
    rw [count]
    exact (get_pageBody _ _ _).1
  · intro body mem
    rw [same] at mem
    obtain ⟨k, _, rfl⟩ := List.mem_map.mp mem
    refine (get_pageBody _ _ _).2.1.trans ?_
    have empty : Paging.walk query.pageSize bodies.length arrangement = [] ↔
        (matching ctx T query user).length = 0 := by rw [← count, List.length_eq_zero_iff]
    refine congrArg (fun n : ℕ => some (Json.num n)) ?_
    by_cases none : (matching ctx T query user).length = 0
    · rw [if_pos (empty.mpr none), none]
      rfl
    · rw [if_neg fun nothing => none (empty.mp nothing)]
      have positive := totalPages_pos (Nat.pos_of_ne_zero none) query.pageSize_pos
      have pages : (query.onPage k).pageSize = query.pageSize := rfl
      rw [pages]
      omega

private theorem one_le_hundred : 1 ≤ 100 := by decide

/-- The list of all orders, one on each page. -/
def onePerPage : ListOrdersQuery :=
  { firstPage with pageSize := 1, pageSize_pos := Nat.one_pos, pageSize_le := one_le_hundred }

/-- Two orders of alice, the second one created this much later. -/
def twoOrders (first second : Fin 10) (later : ℕ) : Tables :=
  ⟨[exampleOrder first alice, { exampleOrder second alice with createdAt := later }], [], []⟩

end OrderRoutes

end OrderPlatform
