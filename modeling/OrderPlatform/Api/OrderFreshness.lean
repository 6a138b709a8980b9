import OrderPlatform.Api.OrderRuns

/-!
# Freshness of the caches

Where every Redis command is answered and the list version is not evicted, a list request that
begins after a write has been answered sees the write, in its rows as well as in its total
(`list_fresh`).

The entity cache has no version.  A `GET` that has read the order before a `PATCH` commits may
write it back after the `PATCH` has deleted the entry, and from then on the old order is served
(`stale_order`).  Where no `GET` does that, the entity cache is fresh (`entity_fresh`).
-/

namespace OrderPlatform

namespace OrderRoutes

open Async (Tid Pool Move Program)
open Text (Json)

variable {ctx : ApiContext} {A : Assumptions} {p q : Service ctx} {writer reader : Tid}

/-- Position `i` comes after everything that `writer` has committed. -/
def Behind (h : History) (writer : Tid) (i : ℕ) : Prop :=
  ∀ k c, h.commits[k]? = some c → c.tid = writer → k < i

theorem behind_of_covers {h : History} {i : ℕ} (covers : h.Covers i writer) :
    Behind h writer i := by
  intro k c commit own
  by_contra notLess
  refine covers c ?_ own
  refine List.mem_of_getElem? (i := k - i) ?_
  rw [List.getElem?_drop, Nat.add_sub_cancel' (Nat.le_of_not_lt notLess), commit]

/-- Who has committed nothing is behind everything. -/
theorem behind_of_not_committed {h : History} {i : ℕ} (none : ¬ h.Committed writer) :
    Behind h writer i :=
  fun _ c commit own => absurd ⟨c, List.mem_of_getElem? commit, own⟩ none

/-- A request that has answered commits nothing any more. -/
theorem committed_before (before : Run ctx A (Service.initial ctx) p) (run : Run ctx A p q)
    {written : Request} {response : HttpResponse} (wrote : p.Answered writer written response)
    (committed : q.shared.history.Committed writer) : p.shared.history.Committed writer :=
  ((sound_of_run before).still environment_since handles wrote run).committed committed

/-- Behind a request that has answered, the list version is raised. -/
theorem raised_of_answered (before : Run ctx A (Service.initial ctx) p) {written : Request}
    {response : HttpResponse} (wrote : p.Answered writer written response)
    (committed : p.shared.history.Committed writer) : Raised ctx A writer p.shared := by
  have answer := (sound_of_run before).answered wrote
  cases written with
  | createOrder user request data attempts => exact answer.2.raised committed
  | getOrder user id => exact absurd committed answer.1.committed
  | listOrders user query => exact absurd committed answer.1.committed
  | patchOrder user id target => exact answer.2.raised committed

/-! ### Lists -/

/-- A page whose rows and whose total were read from Postgres after everything that `writer` has
committed. -/
def ListedAfter (ctx : ApiContext) (h : History) (writer : Tid) (user : Uuid)
    (query : ListOrdersQuery) (page : HttpResponse) : Prop :=
  ∃ (rows : List OrderRow) (total i j : ℕ) (T T' : Tables),
    page = ⟨200, some (pageBody query rows total)⟩ ∧ h.states[i]? = some T ∧
      IsPage ctx (query.filter ctx user) query.pageSize (paginationOffset query) T rows ∧
        h.states[j]? = some T' ∧ total = (T'.select ctx (query.filter ctx user)).length ∧
          Behind h writer i ∧ Behind h writer j

/-- **The list caches are fresh.**  A list request that begins after `written` has been answered
returns rows and a total that were read from Postgres after everything that was committed for
`written`.

A page is looked up under a version of the namespace, and every commit is followed by raising it
(`raised_of_answered`), so that pages of older versions are out of reach. -/
theorem list_fresh (enabled : ctx.config.cacheEnabled = true) (answered : A.answered = true)
    (before : Run ctx A (Service.initial ctx) p) {written : Request} {response : HttpResponse}
    (wrote : p.Answered writer written response) (free : p.slot reader = .free)
    (run : Run ctx A p q) {user : Uuid} {query : ListOrdersQuery} {page : HttpResponse}
    (listed : q.Answered reader (.listOrders user query) page) :
    ListedAfter ctx q.shared.history writer user query page := by
  obtain ⟨_, body, rfl, found⟩ := (sound_from before run).answered listed free
  have since := (sound_from before run).inv.2
  cases found with
  | read i j rows total rowsAt totalAt recent =>
      have behind : ∀ {i}, Recent q.shared.history p.shared.history.bumped.length i →
          Behind q.shared.history writer i := by
        intro i recent
        by_cases committed : q.shared.history.Committed writer
        · have raised := raised_of_answered before wrote
            (committed_before before run wrote committed) enabled answered
          refine behind_of_covers (recent.covers writer ?_)
          rwa [← List.prefix_iff_eq_take.mp since.bumped]
        · exact behind_of_not_committed committed
      obtain ⟨T, at_i, isPage⟩ := rowsAt
      obtain ⟨T', at_j, count⟩ := totalAt
      exact ⟨rows, total, i, j, T, T', rfl, at_i, isPage, at_j, count,
        behind (recent answered).1, behind (recent answered).2⟩

/-- The runs in which Redis answers. -/
def answering : Assumptions := { Assumptions.none with answered := true }

/-- A slow reader writes its page and its count back after the version was raised; the next
reader sees the new order. -/
theorem list_fresh_behind_slow_reader :
    ∃ p q : Service orderContext, Run orderContext answering (Service.initial orderContext) p ∧
      Run orderContext answering p q ∧
      q.answer 2 = some ⟨200, some (pageBody firstPage [exampleOrder 1 alice] 1)⟩ ∧
      ListedAfter orderContext q.shared.history 0 alice firstPage
        ⟨200, some (pageBody firstPage [exampleOrder 1 alice] 1)⟩ := by
  obtain ⟨p, before, wrote, free, check⟩ := Pool.steps_of_check (regime orderContext answering)
    (handler orderContext) (Service.initial orderContext)
    ((listMoves 1 alice []).take 8 ++
      postMoves 0 alice (exampleId 1) (exampleId 2) (exampleId 3) ++ (listMoves 1 alice []).drop 8)
    (fun p => p.exchange 0 =
        some (posting alice, ⟨201, some (orderBody (some (exampleOrder 1 alice)))⟩) ∧
      (p.slot 2).isFree = true ∧
      ((Pool.run (regime orderContext answering) (handler orderContext) p
        (listMoves 2 alice [exampleOrder 1 alice])).any fun q => q.exchange 2 =
          some (.listOrders alice firstPage,
            ⟨200, some (pageBody firstPage [exampleOrder 1 alice] 1)⟩)) = true)
    (by decide +kernel)
  obtain ⟨q, later, listed⟩ := (Option.any_eq_true _ _).mp check
  have listed := Pool.answered_of_exchange (of_decide_eq_true listed)
  have run := Pool.steps_of_run _ _ _ later
  refine ⟨p, q, before, run, ?_, list_fresh rfl rfl before (Pool.answered_of_exchange wrote)
    (Async.Slot.eq_free free) run listed⟩
  simp only [Pool.Answered] at listed
  simp only [Pool.answer, listed]

/-! ### Single orders -/

/-- An answer that shows no order, or the order as it was read from Postgres after everything
that `writer` has committed. -/
def ReadAfter (h : History) (writer : Tid) (id : String) (answer : HttpResponse) : Prop :=
  answer = orderNotFound ∨ ∃ (row : OrderRow) (i : ℕ) (T : Tables),
    answer = ⟨200, some (orderBody (some row))⟩ ∧ h.states[i]? = some T ∧
      T.order? (.ofText id) = some row ∧ Behind h writer i

/-- **The entity cache is fresh where no stale order is written back**: a `GET` that begins after
a `PATCH` of the same order has been answered shows the order as it was after the `PATCH`, or
later.

The proof follows the committed state that the answer was taken from.  It comes after the deletion
of the entry, because `coherent` excludes that anything older is written back behind it. -/
theorem entity_fresh (enabled : ctx.config.cacheEnabled = true) (answered : A.answered = true)
    (coherent : A.coherent = true) (before : Run ctx A (Service.initial ctx) p)
    {user user' : Uuid} {id : String} {target : OrderStatus} {response answer : HttpResponse}
    (wrote : p.Answered writer (.patchOrder user' id target) response)
    (free : p.slot reader = .free) (run : Run ctx A p q)
    (read : q.Answered reader (.getOrder user id) answer) :
    ReadAfter q.shared.history writer id answer := by
  rcases ((sound_from before run).answered read free).2 with
    notFound | ⟨row, ⟨i, ⟨T, at_i, found⟩, fresh⟩, _, same⟩
  · exact .inl notFound
  · refine .inr ⟨row, i, T, same, at_i, found, ?_⟩
    by_cases committed : q.shared.history.Committed writer
    · have effects := ((sound_of_run before).answered wrote).2
      have deleted := effects.deleted (committed_before before run wrote committed) enabled
        answered _ (List.mem_singleton_self _)
      exact behind_of_covers (fresh answered coherent _ deleted rfl).2
    · exact behind_of_not_committed committed

/-- The runs in which Redis answers and no stale order is written back. -/
def coherently : Assumptions := { answering with coherent := true }

/-- The order of the worked examples after its confirmation. -/
def confirmedOrder : OrderRow := { exampleOrder 1 alice with status := .confirmed }

/-- A `GET` of the order that misses the cache, up to its `SELECT`. -/
def readMoves (t : Tid) : List (Move (machine orderContext) Request) :=
  [.start t (.getOrder alice (exampleId 1).text), .advance t (.redis .none), .advance t .succeeds]

/-- The rest of the `GET`: it writes the order back. -/
def writeBackMoves (t : Tid) : List (Move (machine orderContext) Request) :=
  [.advance t (.redis .none), .advance t .succeeds]

/-- A `GET` behind a `PATCH`. -/
theorem entity_fresh_behind_patch :
    ∃ p q : Service orderContext, Run orderContext coherently (Service.initial orderContext) p ∧
      Run orderContext coherently p q ∧
      q.answer 2 = some ⟨200, some (orderBody (some confirmedOrder))⟩ ∧
      ReadAfter q.shared.history 1 (exampleId 1).text
        ⟨200, some (orderBody (some confirmedOrder))⟩ := by
  obtain ⟨p, before, wrote, free, check⟩ := Pool.steps_of_check (regime orderContext coherently)
    (handler orderContext) (Service.initial orderContext)
    (postMoves 0 alice (exampleId 1) (exampleId 2) (exampleId 3) ++
      patchMoves 1 alice (exampleId 1) .confirmed (exampleId 4))
    (fun p => p.exchange 1 = some (.patchOrder alice (exampleId 1).text .confirmed,
        ⟨200, some (orderBody (some confirmedOrder))⟩) ∧
      (p.slot 2).isFree = true ∧
      ((Pool.run (regime orderContext coherently) (handler orderContext) p
        (readMoves 2 ++ writeBackMoves 2)).any
        fun q => q.exchange 2 = some (.getOrder alice (exampleId 1).text,
          ⟨200, some (orderBody (some confirmedOrder))⟩)) = true)
    (by decide +kernel)
  obtain ⟨q, later, read⟩ := (Option.any_eq_true _ _).mp check
  have read := Pool.answered_of_exchange (of_decide_eq_true read)
  have run := Pool.steps_of_run _ _ _ later
  refine ⟨p, q, before, run, ?_, entity_fresh rfl rfl rfl before
    (Pool.answered_of_exchange wrote) (Async.Slot.eq_free free) run read⟩
  simp only [Pool.Answered] at read
  simp only [Pool.answer, read]

/-- An order that is in the cache is served from it. -/
theorem served_from_cache (enabled : ctx.config.cacheEnabled = true) {user : Uuid} {id : String}
    {row : OrderRow} {t : Tid} (free : q.slot t = .free)
    (stored : (q.shared.server.store (orderEntityKey id)).map Redis.Entry.value =
      some (orderBody (some row)).stringify) (own : row.userId = user) :
    ∃ r, Run ctx A q r ∧ r.Answered t (.getOrder user id) ⟨200, some (orderBody (some row))⟩ := by
  obtain ⟨k, program, hit⟩ := getOrder_hit enabled user id
  obtain ⟨q₁, run₁, shared₁, slot₁⟩ :=
    Pool.Steps.start (.refl : Run ctx A q q) free (.getOrder user id)
  have reads : q₁.slot t = .busy (.getOrder user id) (.await (.redis (.get (orderEntityKey id))) k) :=
    (congrFun slot₁ t).trans ((Function.update_self _ _ _).trans (congrArg _ program))
  have read : (machine ctx).exec t (.redis .none) (.redis (.get (orderEntityKey id))) q₁.shared =
      some (some (some (orderBody (some row)).stringify), q₁.shared) := by
    rw [← shared₁] at stored
    have call : q₁.shared.redis t .none (.get (orderEntityKey id)) =
        (some ((q₁.shared.server.store (orderEntityKey id)).map Redis.Entry.value), q₁.shared) := rfl
    rw [stored] at call
    exact congrArg some call
  obtain ⟨q₂, run₂, -, slot₂⟩ := run₁.advance reads (.redis .none)
    ⟨fun _ => rfl, fun _ _ => rfl, fun _ => trivial⟩ read
  have marks : q₂.slot t = .busy (.getOrder user id) (.await (.work (.header .hit)) fun _ =>
      checkOwner user (some (orderBody (some row)))) :=
    (congrFun slot₂ t).trans ((Function.update_self _ _ _).trans (congrArg _ (hit row)))
  obtain ⟨q₃, run₃, -, slot₃⟩ := run₂.advance marks .succeeds trivial rfl
  refine ⟨q₃, run₃, (congrFun slot₃ t).trans ((Function.update_self _ _ _).trans ?_)⟩
  rw [checkOwner_orderBody, if_pos own]

/-- **A stale order is served.**  `GET` 1 misses the cache and reads the order as pending;
`PATCH` 2 confirms it, deletes the entry and answers; `GET` 1 writes what it has read; and `GET`
3, which begins after all this, is served the pending order. -/
theorem stale_order :
    ∃ p q : Service orderContext, Run orderContext answering (Service.initial orderContext) p ∧
      p.Answered 2 (.patchOrder alice (exampleId 1).text .confirmed)
        ⟨200, some (orderBody (some confirmedOrder))⟩ ∧
      p.slot 3 = .free ∧ Run orderContext answering p q ∧
      q.Answered 3 (.getOrder alice (exampleId 1).text)
        ⟨200, some (orderBody (some (exampleOrder 1 alice)))⟩ := by
  obtain ⟨p, before, wrote, free, stored⟩ := Pool.steps_of_check (regime orderContext answering)
    (handler orderContext) (Service.initial orderContext)
    (postMoves 0 alice (exampleId 1) (exampleId 2) (exampleId 3) ++ readMoves 1 ++
      patchMoves 2 alice (exampleId 1) .confirmed (exampleId 4) ++ writeBackMoves 1)
    (fun p => p.exchange 2 = some (.patchOrder alice (exampleId 1).text .confirmed,
        ⟨200, some (orderBody (some confirmedOrder))⟩) ∧
      (p.slot 3).isFree = true ∧
      (p.shared.server.store (orderEntityKey (exampleId 1).text)).map Redis.Entry.value =
        some (orderBody (some (exampleOrder 1 alice))).stringify)
    (by decide +kernel)
  obtain ⟨q, run, read⟩ := served_from_cache rfl (Async.Slot.eq_free free) stored
    (rfl : (exampleOrder 1 alice).userId = alice)
  exact ⟨p, q, before, Pool.answered_of_exchange wrote, Async.Slot.eq_free free, run, read⟩

end OrderRoutes

end OrderPlatform
