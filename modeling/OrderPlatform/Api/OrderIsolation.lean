import OrderPlatform.Api.OrderRuns

/-!
# Tenant isolation

Whatever a user is answered, from Postgres, from one of the three caches or from an idempotency
record, the orders in it are the user's own, and a total counts the user's own orders
(`tenant_isolation`).

The theorem is read off the invariant of all runs (`Inv`): what is stored under a key is a reading of
the tables of some committed state for the user that the key names (`EntryOk`), and orders never
change hands, so an old reading shows no more than a new one.
-/

namespace OrderPlatform

namespace OrderRoutes

open Async (Tid Pool Move)
open Text (Json)

variable {ctx : ApiContext} {A : Assumptions} {base : State} {p q : Service ctx}

/-- The orders that a response body shows. -/
def ordersIn (body : Json) : List Json :=
  (body.get? "order").toList ++
    match body.get? "orders" with
    | some (.arr items) => items.toList
    | _ => []

@[simp] theorem ordersIn_orderBody (row : OrderRow) :
    ordersIn (orderBody (some row)) = [row.toJson] := by
  simp [ordersIn, orderBody, Json.object, Text.Fields.ofList, Json.get?, Text.Fields.get?]

@[simp] theorem ordersIn_pageBody (request : ListOrdersQuery) (rows : List OrderRow) (total : ℕ) :
    ordersIn (pageBody request rows total) = rows.map OrderRow.toJson := by
  simp [ordersIn, pageBody, buildPaginationMeta, Json.object, Text.Fields.ofList, Json.get?,
    Text.Fields.get?, Json.array]

/-- An error shows no order. -/
@[simp] theorem ordersIn_error (e : Json) : ordersIn (.object [("error", e)]) = [] := by
  simp [ordersIn, Json.object, Text.Fields.ofList, Json.get?, Text.Fields.get?]

theorem total_pageBody (request : ListOrdersQuery) (rows : List OrderRow) (total : ℕ) :
    (pageBody request rows total).get? "total" = some (.num total) := by
  simp [pageBody, buildPaginationMeta, Json.object, Text.Fields.ofList, Json.get?,
    Text.Fields.get?]

/-- A filter selects orders of its user only. -/
theorem userId_of_selects {filter : OrderFilter} {row : OrderRow}
    (selects : filter.selects ctx row = true) : row.userId = filter.userId := by
  simp only [OrderFilter.selects, Bool.and_eq_true, decide_eq_true_eq] at selects
  exact selects.1.1.1.1

theorem userId_of_mem_select {filter : OrderFilter} {tables : Tables} {row : OrderRow}
    (mem : row ∈ tables.select ctx filter) : row.userId = filter.userId :=
  userId_of_selects (List.mem_filter.mp mem).2

theorem userId_of_mem_page {filter : OrderFilter} {limit offset : ℕ} {tables : Tables}
    {rows : List OrderRow} {row : OrderRow} (page : IsPage ctx filter limit offset tables rows)
    (mem : row ∈ rows) : row.userId = filter.userId := by
  obtain ⟨sorted, perm, _, rfl⟩ := page
  exact userId_of_mem_select
    (perm.mem_iff.mp (List.mem_of_mem_drop (List.mem_of_mem_take mem)))

/-- The body shows only orders of this user. -/
def ShowsOnly (user : Uuid) (body : Json) : Prop :=
  ∀ order ∈ ordersIn body, order.get? "user_id" = some (.str user.text)

theorem showsOnly_orderBody {user : Uuid} {row : OrderRow} (own : row.userId = user) :
    ShowsOnly user (orderBody (some row)) := by
  intro order mem
  cases List.mem_singleton.mp (by simpa using mem)
  rw [toJson_userId, own]

theorem showsOnly_error (user : Uuid) (e : Json) : ShowsOnly user (.object [("error", e)]) := by
  simp [ShowsOnly]

theorem showsOnly_pageBody {h : History} {v : ℕ} {request : ListOrdersQuery} {user : Uuid}
    {body : Json} (page : PageOf ctx A h v request user body) : ShowsOnly user body := by
  cases page with
  | read i j rows total rowsAt totalAt recent =>
      obtain ⟨T, _, isPage⟩ := rowsAt
      intro order mem
      rw [ordersIn_pageBody] at mem
      obtain ⟨row, there, rfl⟩ := List.mem_map.mp mem
      rw [toJson_userId, userId_of_mem_page isPage there]
      rfl

/-- What a request is answered shows only orders of its user. -/
theorem showsOnly_answer {t : Tid} {request : Request} {response : HttpResponse} {s : State}
    (answer : Answer ctx A base t request response s) {body : Json}
    (shown : response.body = some body) : ShowsOnly request.user body := by
  cases request with
  | createOrder user request data attempts =>
      obtain ⟨row, own⟩ | ⟨status, code, message, _⟩ := answer.1
      · cases shown
        exact showsOnly_orderBody own
      · cases shown
        exact showsOnly_error user _
  | getOrder user id =>
      rcases answer.2 with rfl | ⟨row, _, own, rfl⟩
      · cases shown
        exact showsOnly_error user _
      · cases shown
        exact showsOnly_orderBody own
  | listOrders user query =>
      obtain ⟨_, rfl, page⟩ := answer.2
      cases shown
      exact showsOnly_pageBody page
  | patchOrder user id target =>
      obtain ⟨row, own⟩ | _ | ⟨current, target⟩ := answer.1
      · cases shown
        exact showsOnly_orderBody own
      · cases shown
        exact showsOnly_error user _
      · cases shown
        exact showsOnly_error user _

/-- **Tenant isolation.**  In every run, with any Redis faults, a response to a user shows only
orders of the user, and the total of a list response counts orders of the user, all of them read
at one committed state.

The answer is described by the contract of its handler (`sound_of_run`), under no assumption at all:
neither a fault of Redis nor anything that it has kept for long can bring in the order of somebody
else. -/
theorem tenant_isolation (run : Run ctx .none (Service.initial ctx) p) {t : Tid}
    {request : Request} {response : HttpResponse} {body : Json}
    (answered : p.Answered t request response) (shown : response.body = some body) :
    (∀ order ∈ ordersIn body, order.get? "user_id" = some (.str request.user.text)) ∧
      ∀ user query, request = .listOrders user query →
        ∃ T ∈ p.shared.history.states,
          body.get? "total" = some (.num (T.select ctx (query.filter ctx user)).length) ∧
            ∀ row ∈ T.select ctx (query.filter ctx user), row.userId = user := by
  have answer := (sound_of_run run).answered answered
  refine ⟨showsOnly_answer answer shown, ?_⟩
  rintro user query rfl
  obtain ⟨_, rfl, page⟩ := answer.2
  cases shown
  cases page with
  | read i j rows total rowsAt totalAt recent =>
      obtain ⟨T, at_j, rfl⟩ := totalAt
      exact ⟨T, List.mem_of_getElem? at_j, total_pageBody _ _ _,
        fun row mem => userId_of_mem_select mem⟩

/-- Two users have made an order each; one of them lists the orders. -/
theorem tenant_isolation_of_two_users :
    ∃ p : Service orderContext, Run orderContext .none (Service.initial orderContext) p ∧
      p.Answered 2 (.listOrders alice firstPage)
        ⟨200, some (pageBody firstPage [exampleOrder 1 alice] 1)⟩ ∧
      p.shared.db.tables.orders.length = 2 ∧
      ∀ order ∈ ordersIn (pageBody firstPage [exampleOrder 1 alice] 1),
        order.get? "user_id" = some (.str alice.text) := by
  obtain ⟨p, run, exchange, two⟩ := Pool.steps_of_check (regime orderContext .none)
    (handler orderContext) (Service.initial orderContext)
    (postMoves 0 alice (exampleId 1) (exampleId 2) (exampleId 3) ++
      postMoves 1 bob (exampleId 4) (exampleId 5) (exampleId 6) ++
      listMoves 2 alice [exampleOrder 1 alice])
    (fun p => p.exchange 2 = some (.listOrders alice firstPage,
        ⟨200, some (pageBody firstPage [exampleOrder 1 alice] 1)⟩) ∧
      p.shared.db.tables.orders.length = 2) (by decide +kernel)
  have answered := Pool.answered_of_exchange exchange
  exact ⟨p, run, answered, two, (tenant_isolation run answered rfl).1⟩

end OrderRoutes

end OrderPlatform
