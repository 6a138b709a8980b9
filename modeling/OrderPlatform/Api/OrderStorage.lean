import OrderPlatform.Api.OrderBodies
import OrderPlatform.Text.Jsonb

/-!
# What an order is stored as

The values that `createOrderTransactionally` binds to its `INSERT`, and the domains of the columns
they are meant for: `customer_email` is a `text`, `items` a `jsonb`, and `total_cents` an `integer`
that is not negative.

The sum is exact in doubles (`totalCents_eq`), but the schema bounds its terms only.  An accepted
order can be stored exactly if its total is at most 2147483647, its email has no U+0000, and its skus
have neither U+0000 nor unpaired surrogates (`accepted_order_storable`).
-/

namespace OrderPlatform

namespace OrderRoutes

open Utf16 (Units lit)
open Double (Number)
open JsonText (Value)

/-- `total + item.quantity * item.unitPriceCents`, in doubles. -/
def addItem (total : Number) (item : OrderItemBody) : Number :=
  total.add ((Number.finite item.quantity).mul (.finite item.unitPriceCents))

namespace CreateOrderBody

variable (body : CreateOrderBody)

/-- `data.items.reduce(…, 0)` -/
def totalCents : Number := body.items.foldl addItem (.finite 0)

/-- The sum over all items. -/
def total : ℕ := (body.items.map fun item => item.quantity * item.unitPriceCents).sum

/-- The text that is bound for `customer_email`. -/
def boundEmail : List Char := Utf16.decode body.customerEmail

/-- The text that is bound for `items`. -/
def boundItems : List Char := Utf16.decode (JavaScript.stringify body.itemsJson)

/-- The bound values lie in the domains of their columns. -/
structure Storable : Prop where
  customerEmail : Postgres.acceptsText body.boundEmail = true
  items : (Postgres.jsonb body.boundItems).isSome = true
  totalCents : ∃ n : ℤ, body.totalCents = .finite n ∧ Postgres.acceptsInteger n = true ∧ 0 ≤ n

end CreateOrderBody

section

variable {body : CreateOrderBody}

private theorem sum_le {l : List ℕ} {bound : ℕ} (each : ∀ n ∈ l, n ≤ bound) :
    l.sum ≤ l.length * bound := by
  simpa using List.sum_le_card_nsmul l bound each

/-- The schema bounds the total, though not by what the column can hold. -/
theorem total_le : body.total ≤ 10000000000000 := by
  have each : ∀ n ∈ body.items.map fun item => item.quantity * item.unitPriceCents,
      n ≤ 1000 * 100000000 := by
    intro n mem
    obtain ⟨item, _, rfl⟩ := List.mem_map.mp mem
    exact Nat.mul_le_mul item.quantity_range.2 item.price_range.2
  calc
    body.total ≤ body.items.length * (1000 * 100000000) := by
      have bound := sum_le each
      rwa [List.length_map] at bound
    _ ≤ 100 * (1000 * 100000000) := Nat.mul_le_mul_right _ body.items_length.2
    _ = 10000000000000 := rfl

/-- **The total is exact**: no sum on the way to it reaches `2 ^ 53`. -/
theorem totalCents_eq : body.totalCents = .finite (body.total : ℚ) := by
  have exact_ : ∀ (items : List OrderItemBody) (start : ℕ),
      start + (items.map fun item => item.quantity * item.unitPriceCents).sum < 2 ^ 53 →
      items.foldl addItem (.finite start) = .finite
        ((start + (items.map fun item => item.quantity * item.unitPriceCents).sum : ℕ) : ℚ) := by
    intro items
    induction items with
    | nil => exact fun start _ => rfl
    | cons item items ih =>
        intro start small
        rw [List.map_cons, List.sum_cons, ← Nat.add_assoc] at small
        rw [List.foldl_cons, addItem, Double.mul_natCast (by omega), Double.add_natCast (by omega),
          ih _ small, List.map_cons, List.sum_cons, Nat.add_assoc]
  have bound := (@total_le body)
  have same := exact_ body.items 0 (by
    rw [Nat.zero_add]
    exact lt_of_le_of_lt bound (by norm_num))
  rw [Nat.zero_add, Nat.cast_zero] at same
  exact same

theorem accepted_itemsJson (ok : Units → Bool) (keys : ∀ key ∈ ["sku", "quantity", "unitPriceCents"],
    ok (lit key) = true) :
    body.itemsJson.accepted ok = body.items.all fun item => ok item.sku := by
  obtain ⟨sku, keys⟩ := List.forall_mem_cons.mp keys
  obtain ⟨quantity, keys⟩ := List.forall_mem_cons.mp keys
  have price := keys _ (List.mem_singleton_self _)
  rw [CreateOrderBody.itemsJson, JsonText.accepted_array, List.all_map]
  refine congrArg (List.all body.items) (funext fun item => ?_)
  show (Value.object _).accepted ok = _
  rw [JsonText.accepted_object]
  simp only [List.all_cons, List.all_nil, JsonText.accepted_str, JsonText.accepted_num, sku, quantity,
    price, Bool.true_and, Bool.and_true]

/-- **Which accepted orders can be stored.**  For every validated body, the total is exact, and the
bound values lie in the domains of their columns if and only if the total is at most 2147483647, the
email has no U+0000, and the skus have neither U+0000 nor unpaired surrogates. -/
theorem accepted_order_storable (body : CreateOrderBody) :
    body.totalCents = .finite (body.total : ℚ) ∧
      (body.Storable ↔
        body.total ≤ 2147483647 ∧ (0 : UInt16) ∉ body.customerEmail ∧
          ∀ item ∈ body.items, (0 : UInt16) ∉ item.sku ∧ Utf16.paired item.sku = true) := by
  have items : (Postgres.jsonb body.boundItems).isSome = true ↔
      ∀ item ∈ body.items, (0 : UInt16) ∉ item.sku ∧ Utf16.paired item.sku = true := by
    have keys : ∀ key ∈ ["sku", "quantity", "unitPriceCents"],
        Postgres.acceptsString (lit key) = true := by decide
    rw [CreateOrderBody.boundItems, Postgres.jsonb_stringify, accepted_itemsJson _ keys]
    simp only [← Postgres.acceptsString_iff, ← List.all_eq_true]
    cases body.items.all fun item => Postgres.acceptsString item.sku <;> simp
  have total : (∃ n : ℤ, body.totalCents = .finite n ∧ Postgres.acceptsInteger n = true ∧ 0 ≤ n) ↔
      body.total ≤ 2147483647 := by
    have inside : ∀ n : ℤ, Postgres.acceptsInteger n = true ↔
        -2147483648 ≤ n ∧ n ≤ 2147483647 := fun n => by
      rw [Postgres.acceptsInteger, Bool.and_eq_true_iff, decide_eq_true_eq, decide_eq_true_eq]
    rw [totalCents_eq]
    constructor
    · rintro ⟨n, same, accepts, _⟩
      have value : (body.total : ℤ) = n := by exact_mod_cast Number.finite.inj same
      have := ((inside n).mp accepts).2
      omega
    · intro small
      refine ⟨body.total, rfl, (inside _).mpr ?_, Int.natCast_nonneg _⟩
      omega
  refine ⟨totalCents_eq, ?_⟩
  rw [← total, ← items, ← Postgres.acceptsText_decode]
  exact ⟨fun stored => ⟨stored.totalCents, stored.customerEmail, stored.items⟩,
    fun ⟨cents, email, items⟩ => ⟨email, items, cents⟩⟩

/-! ### Orders that cannot be stored -/

/-- The text of an order of one item. -/
def oneItemText (email sku : String) (quantity unitPriceCents : ℕ) : Units :=
  lit ("\x7b\"customerEmail\":\"" ++ email ++ "\",\"items\":[\x7b\"sku\":\"" ++ sku ++
    "\",\"quantity\":" ++ toString quantity ++ ",\"unitPriceCents\":" ++ toString unitPriceCents ++
    "\x7d]\x7d")

/-- Whether one of the bound values is visibly outside of the domain of its column. -/
def CreateOrderBody.misfits (body : CreateOrderBody) : Bool :=
  !Postgres.acceptsText body.boundEmail || !(Postgres.jsonb body.boundItems).isSome ||
    body.totalCents = .finite 100000000000

theorem not_storable_of_misfits {body : CreateOrderBody} (misfits : body.misfits = true) :
    ¬ body.Storable := by
  intro stored
  rw [CreateOrderBody.misfits, stored.customerEmail, stored.items, Bool.not_true, Bool.false_or,
    Bool.false_or, decide_eq_true_eq] at misfits
  obtain ⟨n, same, accepts, _⟩ := stored.totalCents
  obtain rfl : n = 100000000000 := by exact_mod_cast Number.finite.inj (same.symm.trans misfits)
  cases accepts

/-- Accepted, and not to be stored: a thousand pieces for a million each, U+0000 in the email, and
U+0000 or an unpaired surrogate in the sku. -/
theorem accepted_order_not_storable :
    [oneItemText "a@b.co" "x" 1000 100000000, oneItemText "a\\u0000@b.co" "x" 1 100,
      oneItemText "a@b.co" "\\u0000" 1 100, oneItemText "a@b.co" "\\ud800" 1 100].Forall fun text =>
        ∃ body, acceptedBody text = some body ∧ ¬ body.Storable := by
  have misfits : ∀ text ∈ [oneItemText "a@b.co" "x" 1000 100000000,
      oneItemText "a\\u0000@b.co" "x" 1 100, oneItemText "a@b.co" "\\u0000" 1 100,
      oneItemText "a@b.co" "\\ud800" 1 100],
      (acceptedBody text).any CreateOrderBody.misfits = true := by decide +kernel
  refine List.forall_iff_forall_mem.mpr fun text mem => ?_
  obtain ⟨body, accepted, wrong⟩ := (Option.any_eq_true _ _).mp (misfits text mem)
  exact ⟨body, accepted, not_storable_of_misfits wrong⟩

end

end OrderRoutes

end OrderPlatform
