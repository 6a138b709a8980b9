import Mathlib.Data.Nat.Prime.Basic
import OrderPlatform.Text.Numeral
import OrderPlatform.Api.OrderPaging

/-!
# Offsets of pages

The page and the page size of a list request are texts of the query string.  They become numbers, so
the offset of a page is computed in doubles, and it reaches Postgres as the text of a number.

A page that is accepted need not have an offset that Postgres accepts: the page is bounded from
below only, and the text of its offset has an exponent from `10 ^ 21` on (`offset_with_exponent`).
Nor need the offset be that of the page.  And the filters of an accepted request go to Postgres as
the texts that they are: it refuses a date with an offset of 99 hours, and an email with a null
character.  `queried_iff` says when all is well: exactly when `(page - 1) * pageSize` has at most 53
significant bits and the filters can be read (`OrderFilter.Readable`).

The routes of `OrderRoutes` have natural numbers for pages; `buildPaginationMeta_properties` says
that the doubles of this module come to the same metadata.

* `paginationQueryFields`, `paginationOffset`, `buildPaginationMeta` — the arithmetic of the source.
* `fetchOrdersPage` — the page that is answered, unless its statement fails.
* `Queried` — what is expected of an accepted page.
-/

namespace OrderPlatform

namespace Pagination

open Double (Number Representable)
open OrderRoutes (ListOrdersQuery RowOrder plainRows totalPages orderContext alice)
open Text (Json)

/-- A parameter of the query string. -/
inductive QueryValue
  | missing
  | single (text : String)
  | repeated (texts : List String)

/-- `Number(value)`, or the default.  An array becomes a number through its joined text. -/
def QueryValue.coerced (fallback : ℕ) : QueryValue → Number
  | missing => .finite fallback
  | single text => .ofText text
  | repeated texts => .ofText (",".intercalate texts)

/-- `z.coerce.number().int().min(1)`, and `max` where there is one. -/
def numberField (fallback : ℕ) (most : Option ℕ) (value : QueryValue) : Option Number :=
  let n := value.coerced fallback
  if n.isInteger && !n.less (.finite 1) && most.all fun m => !Number.less (.finite m) n then some n
  else none

/-- The page and its size, as JavaScript numbers. -/
structure PaginationParams where
  page : Number
  pageSize : Number
deriving DecidableEq

/-- The two fields of a list request; `none` where the request is refused. -/
def paginationQueryFields (page pageSize : QueryValue) : Option PaginationParams :=
  (numberField 1 none page).bind fun page =>
    (numberField 20 (some 100) pageSize).map fun pageSize => ⟨page, pageSize⟩

/-- SQL `OFFSET` of the requested page. -/
def paginationOffset (params : PaginationParams) : Number :=
  (params.page.sub (.finite 1)).mul params.pageSize

/-- The description of a page in the body of a list. -/
structure PaginationMeta where
  page : Number
  pageSize : Number
  total : Number
  totalPages : Number
  hasNext : Bool
  hasPrev : Bool
deriving DecidableEq

/-- `buildPaginationMeta` on JavaScript numbers, with their division and their comparisons. -/
def buildPaginationMeta (total : Number) (params : PaginationParams) : PaginationMeta :=
  let totalPages := if total = .finite 0 then .finite 0 else (total.div params.pageSize).ceil
  { page := params.page
    pageSize := params.pageSize
    total := total
    totalPages := totalPages
    hasNext := params.page.less totalPages
    hasPrev := Number.less (.finite 1) params.page }

/-! ### The statement -/

/-- A text as Postgres reads a `bigint`.  The blanks, the plus sign and the prefixes that it reads
too do not occur in the text of a number. -/
def int8in (text : String) : Option ℤ :=
  let digits (ds : List Char) : Option ℕ :=
    if ds ≠ [] ∧ ds.all Char.isDigit then some (Nat.ofDigitChars 10 ds 0) else none
  let value : Option ℤ :=
    match text.toList with
    | '-' :: ds => (digits ds).map fun n => -(n : ℤ)
    | ds => (digits ds).map fun n => (n : ℤ)
  value.filter fun n => -2 ^ 63 ≤ n ∧ n < 2 ^ 63

/-- A number as the parameter behind `LIMIT` or `OFFSET`, which must not be negative. -/
def clauseValue (n : Number) : Option ℕ := (int8in n.text).bind Int.toNat?

/-- The rows of the page; `none` where Postgres refuses the statement, because of a parameter of the
`WHERE` clause or because of one of the two behind it. -/
def selectPage (ctx : ApiContext) (order : RowOrder) (filter : OrderFilter)
    (params : PaginationParams) : Option (List OrderRow) :=
  if filter.Readable ctx then
    (clauseValue params.pageSize).bind fun limit =>
      (clauseValue (paginationOffset params)).map fun offset => plainRows order filter limit offset
  else none

/-- What a list request answers. -/
structure OrdersPage where
  metadata : PaginationMeta
  orders : List OrderRow

/-- The answer from these tables, rows of one time being returned in this order. -/
def fetchOrdersPage (ctx : ApiContext) (T : Tables) (order : RowOrder) (filter : OrderFilter)
    (params : PaginationParams) : Option OrdersPage :=
  (selectPage ctx order filter params).map fun orders =>
    ⟨buildPaginationMeta (Double.round (T.select ctx filter).length) params, orders⟩

/-! ### What is expected -/

/-- What Postgres can store in a table: `2 ^ 32` blocks of 8 kB, each with at most 291 rows. -/
def rowLimit : ℕ := 2 ^ 32 * 291

/-- The metadata of a page, in natural numbers. -/
def metaOf (total page pageSize : ℕ) : PaginationMeta where
  page := .finite page
  pageSize := .finite pageSize
  total := .finite total
  totalPages := .finite (totalPages total pageSize)
  hasNext := decide (page < totalPages total pageSize)
  hasPrev := decide (1 < page)

/-- **A page that can be queried.**  Its offset is exact, a `bigint` for Postgres, and the answer is
that page with its metadata, no orders at all where the page is behind the last one. -/
structure Queried (ctx : ApiContext) (filter : OrderFilter) (params : PaginationParams)
    (page pageSize : ℕ) : Prop where
  exact : paginationOffset params = .finite ((page - 1) * pageSize : ℕ)
  bigint : ∃ n : ℕ, int8in (paginationOffset params).text = some (n : ℤ)
  answers : ∀ (T : Tables) (order : RowOrder), order.Legal ctx T → T.orders.length ≤ rowLimit →
    ∃ answer, fetchOrdersPage ctx T order filter params = some answer ∧
      answer.orders = plainRows order filter pageSize ((page - 1) * pageSize) ∧
      answer.metadata = metaOf (T.select ctx filter).length page pageSize ∧
      ((T.select ctx filter).length ≤ (page - 1) * pageSize → answer.orders = [])

/-! ### Accepted pages -/

/-- A natural number from one on. -/
theorem numberField_inv {fallback : ℕ} {most : Option ℕ} {value : QueryValue} {n : Number}
    (small : fallback < 2 ^ 53) (accepted : numberField fallback most value = some n) :
    ∃ k : ℕ, n = .finite k ∧ 1 ≤ k ∧ (∀ m, most = some m → k ≤ m) ∧ Representable k := by
  have double : (value.coerced fallback).IsDouble := by
    cases value with
    | missing =>
        intro v same
        cases same
        refine ⟨fallback, 0, ?_, ?_⟩
        · rw [Int.abs_natCast]
          exact_mod_cast small.le
        · rw [zpow_zero, mul_one, Int.cast_natCast]
    | single text => exact Number.isDouble_ofText text
    | repeated texts => exact Number.isDouble_ofText _
  unfold numberField at accepted
  dsimp only at accepted
  split at accepted
  · rename_i checks
    obtain rfl := Option.some.inj accepted
    simp only [Bool.and_eq_true] at checks
    obtain ⟨⟨whole, least⟩, bound⟩ := checks
    generalize value.coerced fallback = n at *
    cases n with
    | nan => cases whole
    | infinite s => cases whole
    | finite v =>
        have above : 1 ≤ v := not_lt.mp (of_decide_eq_false (Bool.not_eq_true' _ ▸ least))
        have integral : (v.num : ℚ) = v := by
          refine Rat.coe_int_num_of_den_eq_one ?_
          simpa [Number.isInteger, Rat.isInt] using whole
        have nonneg : 0 ≤ v.num := Rat.num_nonneg.mpr (zero_le_one.trans above)
        obtain ⟨k, same⟩ := Int.eq_ofNat_of_zero_le nonneg
        rw [same, Int.cast_natCast] at integral
        subst integral
        refine ⟨k, rfl, by exact_mod_cast above, ?_, (double _ rfl).representable⟩
        rintro m rfl
        have limit : ¬ (m : ℚ) < k := of_decide_eq_false (by simpa [Number.less] using bound)
        exact_mod_cast not_lt.mp limit
  · cases accepted

/-- What is accepted. -/
theorem paginationQueryFields_inv {page pageSize : QueryValue} {params : PaginationParams}
    (accepted : paginationQueryFields page pageSize = some params) :
    ∃ p size : ℕ, params = ⟨.finite p, .finite size⟩ ∧ 1 ≤ p ∧ Representable p ∧
      1 ≤ size ∧ size ≤ 100 := by
  obtain ⟨n, first, rest⟩ := Option.bind_eq_some_iff.mp accepted
  obtain ⟨m, second, rfl⟩ := Option.map_eq_some_iff.mp rest
  obtain ⟨p, rfl, positive, _, double⟩ := numberField_inv (by norm_num) first
  obtain ⟨size, rfl, least, most, _⟩ := numberField_inv (by norm_num) second
  exact ⟨p, size, rfl, positive, double, least, most 100 rfl⟩

/-! ### Offsets -/

/-- An odd number that divides a number with at most 53 significant bits has no more itself. -/
theorem lt_of_odd_dvd {a n : ℕ} (odd : a % 2 = 1) (divides : a ∣ n) (positive : 0 < n)
    (h : Representable n) : a < 2 ^ 53 := by
  obtain ⟨m, k, small, rfl⟩ := h
  have coprime : Nat.Coprime a (2 ^ k) :=
    Nat.Coprime.pow_right k (Nat.coprime_two_right.mpr (Nat.odd_iff.mpr odd))
  have inside : a ∣ m := coprime.dvd_of_dvd_mul_right divides
  exact lt_of_le_of_lt (Nat.le_of_dvd (Nat.pos_of_mul_pos_right positive) inside) small

/-- A page whose offset is exact is below `2 ^ 53`, or the first page behind. -/
theorem page_small {p size : ℕ} (double : Representable p) (least : 1 ≤ size)
    (h : Representable ((p - 1) * size)) : p - 1 < 2 ^ 53 := by
  obtain ⟨m, k, small, rfl⟩ := double
  cases k with
  | zero =>
      rw [pow_zero, mul_one]
      omega
  | succ k =>
      -- a larger page is even, so the number before it is odd
      by_cases zero : m = 0
      · rw [zero, Nat.zero_mul]
        norm_num
      · have even : m * 2 ^ (k + 1) = 2 * (m * 2 ^ k) := by ring
        have positive : 0 < m * 2 ^ k := Nat.mul_pos (Nat.pos_of_ne_zero zero) (by positivity)
        refine lt_of_odd_dvd (by omega) (Nat.dvd_mul_right _ size) ?_ h
        exact Nat.mul_pos (by omega) least

section

variable {p size : ℕ}

/-- **The offset of a page is exact** when it is a double. -/
theorem paginationOffset_eq (positive : 1 ≤ p) (double : Representable p) (least : 1 ≤ size)
    (most : size ≤ 100) (h : Representable ((p - 1) * size)) :
    paginationOffset ⟨.finite p, .finite size⟩ = .finite ((p - 1) * size : ℕ) := by
  have small := page_small double least h
  have before : Number.sub (.finite p) (.finite 1) = .finite (p - 1 : ℕ) := by
    rw [← Double.round_natCast small]
    change Double.round ((p : ℚ) + -1) = _
    rw [Nat.cast_sub positive, Nat.cast_one, sub_eq_add_neg]
  have bounded : (p - 1) * size < 2 ^ 1024 := by
    calc (p - 1) * size ≤ 2 ^ 53 * 100 := Nat.mul_le_mul small.le most
      _ < 2 ^ 60 := by norm_num
      _ < 2 ^ 1024 := Nat.pow_lt_pow_right (by norm_num) (by norm_num)
  rw [paginationOffset, before, ← h.round bounded]
  change Double.round (((p - 1 : ℕ) : ℚ) * size) = _
  rw [Nat.cast_mul]

/-- An offset that is exact is a double. -/
theorem representable_of_exact (least : 1 ≤ size)
    (exact_ : paginationOffset ⟨.finite p, .finite size⟩ = .finite ((p - 1) * size : ℕ)) :
    Representable ((p - 1) * size) := by
  change ((Double.round ((p : ℚ) + -1)).mul (.finite size)) = _ at exact_
  cases before : Double.round ((p : ℚ) + -1) with
  | nan =>
      rw [before] at exact_
      cases exact_
  | infinite s =>
      rw [before] at exact_
      change (if (size : ℚ) = 0 then Number.nan else _) = _ at exact_
      rw [if_neg (by exact_mod_cast Nat.one_le_iff_ne_zero.mp least)] at exact_
      cases exact_
  | finite x =>
      rw [before] at exact_
      exact Double.representable_of_round exact_

end

/-! ### Parameters -/

/-- Postgres reads a natural number that fits. -/
theorem int8in_toString {r : ℕ} (small : r < 2 ^ 63) : int8in (toString r) = some (r : ℤ) := by
  have digits : ∀ c ∈ Nat.toDigits 10 r, c.isDigit = true := fun c mem =>
    Nat.isDigit_of_mem_toDigits (by decide) (by decide) mem
  obtain ⟨c, cs, text⟩ := List.exists_cons_of_ne_nil (Nat.toDigits_ne_nil (n := r) (b := 10))
  have sign : c ≠ '-' := by
    rintro rfl
    have digit := digits '-' (by rw [text]; exact List.mem_cons_self)
    cases digit
  have value : Nat.ofDigitChars 10 (c :: cs) 0 = r := by
    rw [← text, Nat.ofDigitChars_ten_toDigits]
  have read : (toString r).toList = c :: cs := (Nat.toList_repr).trans text
  rw [text] at digits
  have all : (c :: cs).all Char.isDigit = true := List.all_eq_true.mpr digits
  have bounds : (-2 ^ 63 : ℤ) ≤ r ∧ (r : ℤ) < 2 ^ 63 := ⟨by omega, by exact_mod_cast small⟩
  have plain : (match c :: cs with
      | '-' :: ds => (if ds ≠ [] ∧ ds.all Char.isDigit then some (Nat.ofDigitChars 10 ds 0)
          else none).map fun n => -(n : ℤ)
      | ds => (if ds ≠ [] ∧ ds.all Char.isDigit then some (Nat.ofDigitChars 10 ds 0)
          else none).map fun n => (n : ℤ)) = some (r : ℤ) := by
    split
    · rename_i same
      exact absurd (List.cons.inj same).1 sign
    · rw [if_pos ⟨List.cons_ne_nil c cs, all⟩, value]
      rfl
  unfold int8in
  rw [read]
  dsimp only
  rw [plain]
  exact Option.filter_some_pos (decide_eq_true bounds)

theorem clauseValue_eq {n : Number} {r : ℕ} (text : n.text = toString r) (small : r < 2 ^ 63) :
    clauseValue n = some r := by
  rw [clauseValue, text, int8in_toString small]
  rfl

/-! ### Answers -/

section

variable {ctx : ApiContext} {T : Tables} {order : RowOrder} {filter : OrderFilter} {p size : ℕ}

/-- The metadata is right for every table that Postgres can store. -/
theorem buildPaginationMeta_eq {total : ℕ} (stored : total ≤ rowLimit) (least : 1 ≤ size)
    (most : size ≤ 100) :
    buildPaginationMeta (Double.round total) ⟨.finite p, .finite size⟩ = metaOf total p size := by
  have small : total < 2 ^ 46 := lt_of_le_of_lt stored (by norm_num [rowLimit])
  rw [Double.round_natCast (small.trans (by norm_num))]
  have pages : (if Number.finite (total : ℚ) = .finite 0 then Number.finite 0
      else ((Number.finite total).div (.finite size)).ceil) =
        .finite (totalPages total size : ℕ) := by
    rw [Double.ceil_div_natCast least (by omega) small, totalPages]
    by_cases none : total = 0
    · rw [if_pos none, none, Nat.cast_zero, if_pos rfl]
    · rw [if_neg none, if_neg fun same => none (by exact_mod_cast Number.finite.inj same)]
  unfold buildPaginationMeta
  dsimp only
  rw [pages]
  unfold metaOf Number.less
  congr 1
  · exact decide_eq_decide.mpr Nat.cast_lt
  · exact decide_eq_decide.mpr Nat.one_lt_cast

theorem length_select_le (T : Tables) (filter : OrderFilter) :
    (T.select ctx filter).length ≤ T.orders.length := List.length_filter_le _ _

/-- Two offsets behind the last row. -/
theorem plainRows_of_behind (legal : order.Legal ctx T) {limit offset : ℕ}
    (behind : (T.select ctx filter).length ≤ offset) :
    plainRows order filter limit offset = [] := by
  have length := (legal filter limit offset).1.length_eq
  rw [plainRows, List.drop_eq_nil_of_le (by omega), List.take_nil]

end

/-- The properties of the metadata, given how a number is written. -/
def PaginationMeta.properties (number : Number → Json) (m : PaginationMeta) :
    List (String × Json) :=
  [("page", number m.page), ("pageSize", number m.pageSize), ("total", number m.total),
    ("totalPages", number m.totalPages), ("hasNext", .bool m.hasNext), ("hasPrev", .bool m.hasPrev)]

/-- **The metadata of a list response are those of the doubles**, if natural numbers are written as
such. -/
theorem buildPaginationMeta_properties {number : Number → Json}
    (natural : ∀ n : ℕ, number (.finite n) = .num n) {total : ℕ} (stored : total ≤ rowLimit)
    (query : ListOrdersQuery) :
    (buildPaginationMeta (Double.round total)
        ⟨.finite query.page, .finite query.pageSize⟩).properties number =
      OrderRoutes.buildPaginationMeta total query := by
  rw [buildPaginationMeta_eq stored query.pageSize_pos query.pageSize_le]
  simp only [PaginationMeta.properties, metaOf, natural]
  rfl

/-- A filter that Postgres does not read makes the statement fail, whatever the page. -/
theorem fetchOrdersPage_unreadable {ctx : ApiContext} {filter : OrderFilter}
    (unreadable : ¬ filter.Readable ctx) (T : Tables) (order : RowOrder)
    (params : PaginationParams) : fetchOrdersPage ctx T order filter params = none := by
  rw [fetchOrdersPage, selectPage, if_neg unreadable, Option.map_none]

/-- **A page whose offset is a double can be queried** with filters that Postgres reads.  The text
of an offset above `2 ^ 53` may name another number, but no table has that many rows. -/
theorem queried_of_representable {ctx : ApiContext} {filter : OrderFilter} {p size : ℕ}
    (positive : 1 ≤ p) (double : Representable p) (least : 1 ≤ size) (most : size ≤ 100)
    (h : Representable ((p - 1) * size)) (readable : filter.Readable ctx) :
    Queried ctx filter ⟨.finite p, .finite size⟩ p size := by
  have exact_ := paginationOffset_eq positive double least most h
  have small := page_small double least h
  have bounded : (p - 1) * size < 2 ^ 62 := by
    calc (p - 1) * size ≤ 2 ^ 53 * 100 := Nat.mul_le_mul small.le most
      _ < 2 ^ 62 := by norm_num
  obtain ⟨r, text, same⟩ := Number.text_natCast (h.round (bounded.trans
    (Nat.pow_lt_pow_right (by norm_num) (by norm_num)))) bounded
  have below : r < 2 ^ 63 := (Double.lt_of_round same bounded).trans (by norm_num)
  refine ⟨exact_, ⟨r, ?_⟩, fun T order legal stored => ?_⟩
  · rw [exact_, text, int8in_toString below]
  · have total := ((@length_select_le ctx) T filter).trans stored
    have limit : clauseValue (.finite size) = some size :=
      clauseValue_eq (Number.text_small (by omega)) (by omega)
    have offset : clauseValue (paginationOffset ⟨.finite p, .finite size⟩) = some r := by
      rw [exact_]
      exact clauseValue_eq text below
    have rows : plainRows order filter size r =
        plainRows order filter size ((p - 1) * size) := by
      -- above `2 ^ 53` the text may name another number, but no row is that far
      by_cases exactly : r < 2 ^ 53
      · rw [Double.eq_of_round_small same exactly]
      · have far : rowLimit ≤ 2 ^ 53 := by norm_num [rowLimit]
        have large : 2 ^ 53 ≤ (p - 1) * size := by
          by_contra less
          exact exactly (Double.lt_of_round same (not_le.mp less))
        rw [plainRows_of_behind legal (by omega), plainRows_of_behind legal (by omega)]
    refine ⟨⟨metaOf (T.select ctx filter).length p size,
      plainRows order filter size ((p - 1) * size)⟩, ?_, rfl, rfl, plainRows_of_behind legal⟩
    rw [fetchOrdersPage, selectPage, if_pos readable, limit, Option.bind_some, offset,
      Option.map_some, Option.map_some, rows, buildPaginationMeta_eq total least most]

/-- **When an accepted page can be queried**: exactly when the offset that it asks for has at most
53 significant bits, and Postgres reads the filters.

The page and the page size are those of an accepted query string, and the filters are any at all.
That nothing else is needed rests on two bounds: the page size is at most 100, and the page before
one with an exact offset is below `2 ^ 53` (`page_small`). -/
theorem queried_iff {page pageSize : QueryValue} {params : PaginationParams}
    (accepted : paginationQueryFields page pageSize = some params) (ctx : ApiContext)
    (filter : OrderFilter) :
    ∃ p size : ℕ, params = ⟨.finite p, .finite size⟩ ∧
      (Queried ctx filter params p size ↔
        Representable ((p - 1) * size) ∧ filter.Readable ctx) := by
  obtain ⟨p, size, rfl, positive, double, least, most⟩ := paginationQueryFields_inv accepted
  refine ⟨p, size, rfl, fun queried => ⟨?_, ?_⟩, fun ⟨h, readable⟩ => ?_⟩
  · exact representable_of_exact least queried.exact
  · -- without any orders every page is answered, so the statement does not fail
    by_contra unreadable
    obtain ⟨answer, fetched, -⟩ := queried.answers .empty (fun _ _ _ => [])
      (fun _ _ _ => ⟨.refl _, .nil⟩) (Nat.zero_le _)
    rw [fetchOrdersPage_unreadable unreadable] at fetched
    cases fetched
  · exact queried_of_representable positive double least most h readable

/-- The third page of fifty orders, from a date on. -/
theorem queried_third_page :
    ∃ params, paginationQueryFields (.single "3") (.single "50") = some params ∧
      Queried orderContext ⟨alice, none, none, some "2024-01-01T00:00:00Z", none⟩ params 3 50 := by
  have accepted : paginationQueryFields (.single "3") (.single "50") =
      some ⟨.finite 3, .finite 50⟩ := by decide +kernel
  obtain ⟨p, size, same, iff⟩ := queried_iff accepted orderContext
    ⟨alice, none, none, some "2024-01-01T00:00:00Z", none⟩
  obtain ⟨first, second⟩ := PaginationParams.mk.inj same
  obtain rfl : 3 = p := by exact_mod_cast Number.finite.inj first
  obtain rfl : 50 = size := by exact_mod_cast Number.finite.inj second
  refine ⟨_, accepted, iff.mpr ⟨Double.representable_of_small (by norm_num), nofun, ?_, nofun⟩⟩
  rintro _ ⟨⟩
  rfl

/-- **A page that is accepted and cannot be queried**: the text of its offset has an exponent, and
the statement fails whatever the filters and the tables are. -/
theorem offset_with_exponent :
    ∃ params, paginationQueryFields (.single "1e19") (.single "100") = some params ∧
      (paginationOffset params).text = "1e+21" ∧
      ∀ ctx filter, ¬ Queried ctx filter params (10 ^ 19) 100 ∧
        ∀ T order, fetchOrdersPage ctx T order filter params = none := by
  have accepted : paginationQueryFields (.single "1e19") (.single "100") =
      some ⟨.finite (10 ^ 19), .finite 100⟩ := by decide +kernel
  have offset : (paginationOffset ⟨.finite (10 ^ 19), .finite 100⟩).text = "1e+21" := by
    decide +kernel
  have refused : int8in "1e+21" = none := by decide
  refine ⟨_, accepted, offset, fun ctx filter => ⟨fun queried => ?_, fun T order => ?_⟩⟩
  · obtain ⟨n, read⟩ := queried.bigint
    rw [offset, refused] at read
    cases read
  · have none : clauseValue (paginationOffset ⟨.finite (10 ^ 19), .finite 100⟩) = none := by
      rw [clauseValue, offset, refused]
      rfl
    rw [fetchOrdersPage, selectPage, none]
    split
    · cases clauseValue (.finite 100) with
      | none => rfl
      | some limit => rfl
    · rfl

end Pagination

end OrderPlatform
