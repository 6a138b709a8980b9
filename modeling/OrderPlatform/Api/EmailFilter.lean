import OrderPlatform.Text.CaseMapping
import OrderPlatform.Api.OrderBodies
import OrderPlatform.Api.OrderOrigins
import OrderPlatform.Api.OrderPaging

/-!
# The filter by email

An order is stored with its email in lower case as Postgres writes it, `lower(…)`, and looked for
with the email of the filter in lower case as JavaScript writes it, `toLowerCase()`.  The client who
walks through the pages of this filter finds the order if the two agree on the email, and the order
does not share its time with orders on both sides of a page boundary (`email_filter_iff`).

The two agree unless the email has a capital I with a dot or a capital sigma at the end of a word,
and the expression for emails admits both (`email_with_final_sigma`).
-/

namespace OrderPlatform

namespace OrderRoutes

open Async (Tid Pool Move)
open CaseMapping (UnicodeData)
open Text (Json)

/-- Postgres and JavaScript read the same character database. -/
def casedContext (D : UnicodeData) (ctx : ApiContext) : ApiContext where
  config := ctx.config
  sha256 := ctx.sha256
  lower := D.lower
  toLowerCase := D.toLowerCase
  toLowerCase_at _ := UnicodeData.at_mem_toLowerCase
  timestamptz := ctx.timestamptz

/-- The list of the orders with this email: no other filter is given. -/
structure ByEmail (email : String) (query : ListOrdersQuery) : Prop where
  email : query.customerEmail = some email
  status : query.status = none
  createdAfter : query.createdAfter = none
  createdBefore : query.createdBefore = none

/-- The order is on one of the pages. -/
def Shows (bodies : List Json) (id : Uuid) : Prop :=
  ∃ order ∈ bodies.flatMap ordersOf, order.get? "id" = some (.str id.text)

/-- The orders of a user that are stored with this email. -/
def storedWith (T : Tables) (user : Uuid) (email : String) : List OrderRow :=
  T.orders.filter fun row => row.userId = user && row.customerEmail = email

section

variable {ctx : ApiContext} {T : Tables} {user : Uuid} {query : ListOrdersQuery} {email : String}

theorem ByEmail.matching_eq (by_email : ByEmail email query) :
    matching ctx T query user = storedWith T user (ctx.toLowerCase email) := by
  refine List.filter_congr fun row _ => ?_
  simp [OrderFilter.selects, ListOrdersQuery.filter, by_email.email, by_email.status,
    by_email.createdAfter, by_email.createdBefore]

theorem get_id_toJson (row : OrderRow) : row.toJson.get? "id" = some (.str row.id.text) := by
  simp [OrderRow.toJson, Json.object, Text.Fields.ofList, Json.get?, Text.Fields.get?]

theorem shows_iff (arrangement : ℕ → List OrderRow) (n : ℕ) (id : Uuid) :
    Shows ((List.range' 0 n).map (bodyOf ctx T query user arrangement)) id ↔
      ∃ row ∈ Paging.walk query.pageSize n arrangement, row.id = id := by
  rw [Shows, flatMap_bodyOf]
  constructor
  · rintro ⟨order, mem, same⟩
    obtain ⟨row, passed, rfl⟩ := List.mem_map.mp mem
    rw [get_id_toJson] at same
    exact ⟨row, passed, Uuid.injective_text (Json.str.inj (Option.some.inj same))⟩
  · rintro ⟨row, passed, rfl⟩
    exact ⟨row.toJson, List.mem_map_of_mem passed, get_id_toJson row⟩

/-- **An order is shown by every walk** exactly if it matches, and no page boundary runs between it
and the orders of its time. -/
theorem shown_iff {row : OrderRow} (keys : (T.orders.map OrderRow.id).Nodup)
    (stored : row ∈ T.orders) :
    (∀ bodies, Walk ctx T query user 0 bodies → Shows bodies row.id) ↔
      row ∈ matching ctx T query user ∧
        Paging.Together OrderRow.createdAt query.pageSize (matching ctx T query user)
          row.createdAt := by
  let n := max 1 (totalPages (matching ctx T query user).length query.pageSize)
  have alone : ∀ {row'}, row' ∈ matching ctx T query user → row'.id = row.id → row' = row :=
    fun mem same => List.inj_on_of_nodup_map keys (List.mem_of_mem_filter mem) stored same
  have passes : ∀ arrangement : ℕ → List OrderRow,
      (∀ i, (arrangement i).Perm (matching ctx T query user)) →
      (∀ i, Paging.Descending OrderRow.createdAt (arrangement i)) →
      (∀ bodies, Walk ctx T query user 0 bodies → Shows bodies row.id) →
        row ∈ Paging.walk query.pageSize n arrangement := by
    intro arrangement perm sorted shown
    obtain ⟨row', passed, same⟩ := (shows_iff arrangement n row.id).mp
      (shown _ (walk_of_arrangement perm sorted n 0 (Nat.zero_add n)))
    obtain ⟨k, -, onPage⟩ := List.mem_flatMap.mp passed
    rwa [← alone ((perm k).mem_iff.mp (Paging.mem_of_mem_page onPage)) same]
  constructor
  · intro shown
    have matched : row ∈ matching ctx T query user := by
      obtain ⟨l, perm, sorted⟩ :=
        Paging.exists_descending OrderRow.createdAt (matching ctx T query user)
      obtain ⟨k, -, onPage⟩ :=
        List.mem_flatMap.mp (passes (fun _ => l) (fun _ => perm) (fun _ => sorted) shown)
      exact perm.mem_iff.mp (Paging.mem_of_mem_page onPage)
    refine ⟨matched, ?_⟩
    by_contra apart
    obtain ⟨arrangement, perm, sorted, missing⟩ :=
      Paging.exists_missing (keys.of_map.filter _) matched apart n
    exact missing (passes arrangement perm sorted shown)
  · rintro ⟨matched, together⟩ bodies walk
    obtain ⟨arrangement, perm, sorted, same, last⟩ := walk.inv
    have reaches : (matching ctx T query user).length ≤ bodies.length * query.pageSize :=
      le_totalPages_mul _ query.pageSize_pos (by omega)
    rw [same, shows_iff]
    exact ⟨row, Paging.mem_walk matched together perm sorted reaches, rfl⟩

end

/-- **The filter finds an order if its email has the same lower case in Postgres and in
JavaScript.**  For every step of any run that adds an order to the tables: the step is one of a
`POST` of its user, and at any later moment, every walk through the pages of a list request of this
user that filters by the email of this `POST`, and by nothing else, shows the order, if and only if
the email has neither a capital I with a dot nor a capital sigma at the end of a word, and no page
boundary runs between orders of one time with this one among them. -/
theorem email_filter_iff (D : UnicodeData) (ctx : ApiContext) {A : Assumptions}
    {p q r : Service (casedContext D ctx)} {row : OrderRow}
    (before : Run (casedContext D ctx) A (Service.initial _) p)
    (step : Pool.Step (regime (casedContext D ctx) A) (handler _) p q)
    (there : row ∈ q.shared.db.tables.orders)
    (new : ∀ old ∈ p.shared.db.tables.orders, old.id ≠ row.id)
    (after : Run (casedContext D ctx) A q r) :
    ∃ t c posted data attempts,
      p.next (handler (casedContext D ctx)) (.advance t c) = some q ∧
      requestOf (p.slot t) = some (.createOrder row.userId posted data attempts) ∧
      ∀ query, ByEmail data.customerEmail query →
        ((∀ bodies, Walk (casedContext D ctx) r.shared.db.tables query row.userId 0 bodies →
            Shows bodies row.id) ↔
          D.Plain data.customerEmail ∧
          Paging.Together OrderRow.createdAt query.pageSize
            (storedWith r.shared.db.tables row.userId (D.lower data.customerEmail))
            row.createdAt) := by
  have traced := traced_of_steps before
  obtain ⟨t, c, moves, posted, data, attempts, request, email⟩ :=
    origin_of_step traced step there new
  refine ⟨t, c, posted, data, attempts, moves, request, fun query by_email => ?_⟩
  have keys : (r.shared.db.tables.orders.map OrderRow.id).Nodup :=
    (sound_of_run ((before.tail step).trans after)).inv.1.audited.nodup
  obtain ⟨row', stored, alike⟩ := alike_of_steps (traces_of_step traced step).traced after there
  have shown := @shown_iff (casedContext D ctx) _ row.userId query _ keys stored
  rw [alike.id, alike.createdAt, by_email.matching_eq] at shown
  rw [shown]
  have matched : D.Plain data.customerEmail ↔
      row' ∈ storedWith r.shared.db.tables row.userId (D.toLowerCase data.customerEmail) := by
    rw [← UnicodeData.lower_eq_toLowerCase_iff]
    have lower : row'.customerEmail = D.lower data.customerEmail := alike.customerEmail.trans email
    simp [storedWith, stored, alike.userId, lower]
  constructor
  · rintro ⟨mem, together⟩
    have plain := matched.mpr mem
    have same := (UnicodeData.lower_eq_toLowerCase_iff _).mpr plain
    exact ⟨plain, by rwa [same]⟩
  · rintro ⟨plain, together⟩
    have same := (UnicodeData.lower_eq_toLowerCase_iff _).mpr plain
    rw [same] at together
    exact ⟨matched.mp plain, together⟩

/-! ### Greek names -/

/-- Latin and Greek letters without marks, and the two capital letters with a mapping of their
own. -/
def greekData : UnicodeData where
  simple c :=
    if 0x391 ≤ c.toNat ∧ c.toNat ≤ 0x3a9 then Char.ofNat (c.toNat + 0x20)
    else if c = 'İ' then 'i'
    else c.toLower
  cased c := c.isAlpha || (0x391 ≤ c.toNat && c.toNat ≤ 0x3c9) || c = 'İ'
  caseIgnorable c := c = '.' || c = ':' || c = '\''
  sigma := by decide
  sign := by decide

/-- The context of these examples. -/
abbrev greekContext : ApiContext := casedContext greekData orderContext

/-- A request to create an order with this email. -/
def placing (email : String) : Request :=
  .createOrder alice ⟨"r1", "POST", some "/v1/orders", "/v1/orders", .missing, none⟩
    ⟨email, [⟨"x", 1, 100⟩]⟩ 1

/-- Such a request from its start to the moment before its `COMMIT`. -/
def placingMoves (t : Tid) (email : String) (orderId eventId createdId : Uuid) :
    List (Move (machine greekContext) Request) :=
  [.start t (placing email), .advance t (.fresh orderId), .advance t (.fresh eventId),
    .advance t (.time 0), .advance t .succeeds, .advance t .succeeds, .advance t .succeeds,
    .advance t (.fresh createdId), .advance t .succeeds, .advance t .succeeds]

/-- The row that it leaves. -/
def placed (n : Fin 10) (email : String) : OrderRow :=
  { exampleOrder n alice with customerEmail := email }

/-- The order of Sofia, whose name has a capital sigma at its beginning. -/
theorem email_filter_iff_of_sofia :
    ∃ p q : Service greekContext, Run greekContext .none (Service.initial greekContext) p ∧
      Pool.Step (regime greekContext .none) (handler greekContext) p q ∧
      q.shared.db.tables.orders = [placed 1 "σοφια@example.gr"] ∧
      ∃ t c posted data attempts, p.next (handler greekContext) (.advance t c) = some q ∧
        requestOf (p.slot t) = some (.createOrder alice posted data attempts) ∧
        ∀ query, ByEmail data.customerEmail query →
          ((∀ bodies, Walk greekContext q.shared.db.tables query alice 0 bodies →
              Shows bodies (exampleId 1)) ↔
            greekData.Plain data.customerEmail ∧
            Paging.Together OrderRow.createdAt query.pageSize
              (storedWith q.shared.db.tables alice (greekData.lower data.customerEmail)) 0) := by
  obtain ⟨p, run, empty, allowed, check⟩ := Pool.steps_of_check (regime greekContext .none)
    (handler greekContext) (Service.initial greekContext)
    (placingMoves 0 "ΣΟΦΙΑ@example.gr" (exampleId 1) (exampleId 2) (exampleId 3))
    (fun p => p.shared.db.tables.orders = [] ∧
      p.Allows (regime greekContext .none) (.advance 0 .succeeds) ∧
      ((p.next (handler greekContext) (.advance 0 .succeeds)).any fun q =>
        q.shared.db.tables.orders = [placed 1 "σοφια@example.gr"]) = true)
    (by decide)
  obtain ⟨q, moves, orders⟩ := (Option.any_eq_true _ _).mp check
  have orders := of_decide_eq_true orders
  have step : Pool.Step (regime greekContext .none) (handler greekContext) p q :=
    ⟨_, allowed, moves⟩
  have there : placed 1 "σοφια@example.gr" ∈ q.shared.db.tables.orders := by
    rw [orders]
    exact List.mem_singleton_self _
  refine ⟨p, q, run, step, orders, email_filter_iff greekData orderContext run step there ?_ .refl⟩
  rw [empty]
  exact nofun

/-- **An order that its own email does not find.**  Nikos writes his name in capital letters.
Postgres stores the order with a small sigma at the end of the name, and JavaScript looks for it
with a final one: whoever filters by this email is told that there is nothing. -/
theorem email_with_final_sigma :
    matchesEmailRegex (Utf16.units "ΝΙΚΟΣ@example.gr".toList) = true ∧
    ∃ p : Service greekContext, Run greekContext .none (Service.initial greekContext) p ∧
      requestOf (p.slot 0) = some (placing "ΝΙΚΟΣ@example.gr") ∧
      (p.answer 0).map HttpResponse.status = some 201 ∧
      p.shared.db.tables.orders = [placed 1 "νικοσ@example.gr"] ∧
      ∀ query, ByEmail "ΝΙΚΟΣ@example.gr" query →
        (∃ bodies, Walk greekContext p.shared.db.tables query alice 0 bodies) ∧
        ∀ bodies, Walk greekContext p.shared.db.tables query alice 0 bodies →
          bodies.flatMap ordersOf = [] := by
  refine ⟨by decide, ?_⟩
  obtain ⟨p, run, request, answered, orders⟩ := Pool.steps_of_check (regime greekContext .none)
    (handler greekContext) (Service.initial greekContext)
    (placingMoves 0 "ΝΙΚΟΣ@example.gr" (exampleId 1) (exampleId 2) (exampleId 3) ++
      [.advance 0 .succeeds, .advance 0 (.redis .none), .advance 0 .succeeds])
    (fun p => requestOf (p.slot 0) = some (placing "ΝΙΚΟΣ@example.gr") ∧
      (p.answer 0).map HttpResponse.status = some 201 ∧
      p.shared.db.tables.orders = [placed 1 "νικοσ@example.gr"])
    (by decide)
  refine ⟨p, run, request, answered, orders, fun query by_email => ?_⟩
  have nothing : matching greekContext p.shared.db.tables query alice = [] := by
    have differ : placed 1 "νικοσ@example.gr" ∉
        storedWith p.shared.db.tables alice (greekData.toLowerCase "ΝΙΚΟΣ@example.gr") := by
      intro mem
      have same := of_decide_eq_true (Bool.and_eq_true_iff.mp (List.mem_filter.mp mem).2).2
      exact absurd same (by decide)
    rw [by_email.matching_eq]
    refine List.eq_nil_iff_forall_not_mem.mpr fun row mem => differ ?_
    have only := List.mem_of_mem_filter mem
    rw [orders] at only
    rwa [← List.mem_singleton.mp only]
  constructor
  · exact ⟨_, walk_of_arrangement (fun _ => .of_eq nothing.symm)
      (fun _ => .nil) 1 0 (by rw [nothing]; rfl)⟩
  · intro bodies walk
    obtain ⟨rows, paged⟩ := walk.paged
    have none : rows = [] :=
      List.eq_nil_of_length_eq_zero (paged.count.trans (congrArg List.length nothing))
    rw [paged.orders, none]
    rfl

end OrderRoutes

end OrderPlatform
