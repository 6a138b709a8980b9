import Mathlib.Data.Nat.Digits.Lemmas
import OrderPlatform.Text.Double

/-!
# Numbers and their texts

`ofText` is `Number(text)` and `text` is `String(number)` of JavaScript.  A text is read as the
double nearest to the value it names.  A number is written with as few digits as it takes to read
the same double again, in the plain notation below `10 ^ 21` and with an exponent from there on.

A natural number is a double if it has at most 53 significant bits (`Representable`).  Such a number
is written as a natural number as long as it is below `2 ^ 62` (`text_natCast`), and as itself below
`2 ^ 53` (`text_small`); between the two its text may name another number, of which it is the
double.
-/

namespace Double

namespace Number

/-! ### Arithmetic -/

/-- `-x`. -/
def neg : Number → Number
  | nan => nan
  | infinite s => infinite !s
  | finite x => finite (-x)

/-- `x - y`. -/
def sub (x y : Number) : Number := add x y.neg

/-- `x / y`; a zero divisor is the positive one. -/
def div : Number → Number → Number
  | finite x, finite y =>
      if y = 0 then if x = 0 then nan else infinite (decide (x < 0)) else round (x / y)
  | infinite s, finite y => infinite (s != decide (y < 0))
  | finite _, infinite _ => finite 0
  | _, _ => nan

/-- `Math.ceil(x)`. -/
def ceil : Number → Number
  | finite x => finite ⌈x⌉
  | x => x

/-- `x < y`. -/
def less : Number → Number → Bool
  | finite x, finite y => decide (x < y)
  | infinite true, finite _ => true
  | infinite true, infinite false => true
  | finite _, infinite false => true
  | _, _ => false

/-- `Number.isInteger(x)`. -/
def isInteger : Number → Bool
  | finite x => x.isInt
  | _ => false

/-! ### Writing -/

/-- The digits of a positive value, and how many zeros they stand before: as many as may be, so that
the nearest numeral with these zeros is read as the value. -/
def digitsFrom (v : ℚ) : ℕ → ℤ → ℤ × ℤ
  | 0, e => (roundEven (v / 10 ^ e), e)
  | fuel + 1, e =>
      if round (roundEven (v / 10 ^ e) * 10 ^ e) = finite v then (roundEven (v / 10 ^ e), e)
      else digitsFrom v fuel (e - 1)

/-- The shortest digits of a positive value.  The last place of a double is not behind the 1074th
decimal. -/
def digits (v : ℚ) : ℤ × ℤ := digitsFrom v (Int.log 10 v + 1 + 1074).toNat (Int.log 10 v + 1)

/-- Digits and their place, as they are written. -/
def layout (digits : List Char) (e : ℤ) : List Char :=
  let n := digits.length + e
  if 0 ≤ e ∧ n ≤ 21 then digits ++ List.replicate e.toNat '0'
  else if 0 < n ∧ n ≤ 21 then digits.take n.toNat ++ '.' :: digits.drop n.toNat
  else if -6 < n ∧ n ≤ 0 then '0' :: '.' :: List.replicate (-n).toNat '0' ++ digits
  else
    digits.take 1 ++ (if digits.length = 1 then [] else '.' :: digits.drop 1) ++ 'e' ::
      (if 0 < n then '+' else '-') :: Nat.toDigits 10 (n - 1).natAbs

/-- A positive value. -/
def positiveText (v : ℚ) : List Char :=
  layout (Nat.toDigits 10 (digits v).1.toNat) (digits v).2

/-- `String(x)`. -/
def text : Number → String
  | nan => "NaN"
  | infinite false => "Infinity"
  | infinite true => "-Infinity"
  | finite v =>
      if v = 0 then "0"
      else if v < 0 then String.ofList ('-' :: positiveText (-v))
      else String.ofList (positiveText v)

/-! ### Reading -/

/-- The blanks and line ends around a number. -/
def isBlank (c : Char) : Bool :=
  (0x9 ≤ c.toNat && c.toNat ≤ 0xd) || (0x2000 ≤ c.toNat && c.toNat ≤ 0x200a) ||
    c.toNat ∈ [0x20, 0xa0, 0x1680, 0x2028, 0x2029, 0x202f, 0x205f, 0x3000, 0xfeff]

/-- A digit of a radix up to 16. -/
def digitOf (radix : ℕ) (c : Char) : Option ℕ :=
  (if c.isDigit then some (c.toNat - 0x30)
    else if 'a' ≤ c ∧ c ≤ 'f' then some (c.toNat - 0x57)
    else if 'A' ≤ c ∧ c ≤ 'F' then some (c.toNat - 0x37)
    else none).filter fun d => d < radix

/-- A natural number in some radix. -/
def natural (radix : ℕ) (ds : List Char) : Option ℕ :=
  if ds = [] then none else ds.foldlM (fun n c => (digitOf radix c).map fun d => n * radix + d) 0

/-- A natural number without a prefix. -/
def integerOf (radix : ℕ) (ds : List Char) : Number :=
  match natural radix ds with
  | some n => round n
  | none => nan

/-- The exponent behind the digits. -/
def exponentOf : List Char → Option ℤ
  | [] => some 0
  | c :: cs =>
      if c = 'e' ∨ c = 'E' then
        match cs with
        | '-' :: ds => (natural 10 ds).map fun n => -(n : ℤ)
        | '+' :: ds => (natural 10 ds).map fun n => (n : ℤ)
        | ds => (natural 10 ds).map fun n => (n : ℤ)
      else none

/-- A decimal number without a sign. -/
def unsigned (cs : List Char) : Number :=
  if cs = "Infinity".toList then infinite false
  else
    let whole := cs.takeWhile Char.isDigit
    let behind := cs.dropWhile Char.isDigit
    let fraction := if behind.head? = some '.' then behind.tail.takeWhile Char.isDigit else []
    let rest := if behind.head? = some '.' then behind.tail.dropWhile Char.isDigit else behind
    match natural 10 (whole ++ fraction), exponentOf rest with
    | some n, some e => round (n * 10 ^ (e - fraction.length))
    | _, _ => nan

/-- `Number(text)`. -/
def ofText (text : String) : Number :=
  match ((text.toList.dropWhile isBlank).reverse.dropWhile isBlank).reverse with
  | [] => finite 0
  | '0' :: 'x' :: ds => integerOf 16 ds
  | '0' :: 'X' :: ds => integerOf 16 ds
  | '0' :: 'o' :: ds => integerOf 8 ds
  | '0' :: 'O' :: ds => integerOf 8 ds
  | '0' :: 'b' :: ds => integerOf 2 ds
  | '0' :: 'B' :: ds => integerOf 2 ds
  | '-' :: cs => (unsigned cs).neg
  | '+' :: cs => unsigned cs
  | cs => unsigned cs

end Number

/-! ### Rounding -/

/-- Rounding to an integer does not pass one. -/
theorem le_roundEven {n : ℤ} {q : ℚ} (h : n ≤ q) : n ≤ roundEven q := by
  have floor : n ≤ ⌊q⌋ := Int.le_floor.mpr h
  unfold roundEven
  split_ifs
  all_goals omega

theorem roundEven_le {n : ℤ} {q : ℚ} (h : q ≤ n) : roundEven q ≤ n := by
  have floor : ⌊q⌋ ≤ n := Int.floor_le_iff.mpr (lt_of_le_of_lt h (lt_add_one _))
  unfold roundEven
  split_ifs with below above even
  · exact floor
  all_goals
    -- a fraction is left, so the integer above is not passed either
    have apart : (⌊q⌋ : ℚ) < q := by
      have parts := Int.floor_add_fract q
      linarith
    have strict : ⌊q⌋ < n := by exact_mod_cast lt_of_lt_of_le apart h
    omega

theorem abs_roundEven_sub_le (q : ℚ) : |roundEven q - q| ≤ 1 / 2 := by
  have parts := Int.floor_add_fract q
  have nonneg := Int.fract_nonneg q
  have less := Int.fract_lt_one q
  unfold roundEven
  split_ifs
  all_goals
    rw [abs_le]
    push_cast
    constructor
    all_goals linarith

theorem two_zpow_pos (e : ℤ) : (0 : ℚ) < 2 ^ e := zpow_pos (by norm_num) e

/-- A rounded value has at most 53 significant bits, or is a power of two. -/
theorem nearest_eq_mul (q : ℚ) :
    ∃ m : ℤ, |m| ≤ 2 ^ 53 ∧ nearest q = m * 2 ^ exponent q := by
  refine ⟨roundEven (q / 2 ^ exponent q), ?_, rfl⟩
  have size : |q| ≤ 2 ^ (53 : ℤ) * 2 ^ exponent q := by
    rw [← zpow_add₀ (by norm_num : (2 : ℚ) ≠ 0)]
    have above : |q| < 2 ^ (Int.log 2 |q| + 1) := Int.lt_zpow_succ_log_self (by norm_num) |q|
    have low : Int.log 2 |q| - 52 ≤ exponent q := le_max_left _ _
    exact above.le.trans (zpow_le_zpow_right₀ (by norm_num) (by omega))
  have scaled : |q / 2 ^ exponent q| ≤ ((2 ^ 53 : ℤ) : ℚ) := by
    rw [abs_div, abs_of_pos (two_zpow_pos _), div_le_iff₀ (two_zpow_pos _)]
    exact_mod_cast size
  obtain ⟨low, high⟩ := abs_le.mp scaled
  exact abs_le.mpr ⟨le_roundEven (by exact_mod_cast low), roundEven_le high⟩

/-- Rounding does not pass a power of two. -/
theorem pow_le_nearest {j : ℕ} {q : ℚ} (h : 2 ^ j ≤ q) : 2 ^ j ≤ nearest q := by
  have positive : 0 < q := lt_of_lt_of_le (by positivity) h
  have log : (j : ℤ) ≤ Int.log 2 |q| := by
    rw [abs_of_pos positive]
    exact (Int.zpow_le_iff_le_log (by norm_num) positive).mp (by exact_mod_cast h)
  have low : exponent q ≤ Int.log 2 |q| := by
    unfold exponent
    omega
  obtain ⟨d, places⟩ := Int.eq_ofNat_of_zero_le (sub_nonneg.mpr low)
  have whole : (2 : ℚ) ^ (Int.log 2 |q|) / 2 ^ exponent q = ((2 ^ d : ℤ) : ℚ) := by
    rw [← zpow_sub₀ (by norm_num : (2 : ℚ) ≠ 0),
      places, zpow_natCast]
    push_cast
    rfl
  have below : (2 : ℚ) ^ (Int.log 2 |q|) ≤ q := by
    rw [abs_of_pos positive]
    exact Int.zpow_log_le_self (by norm_num) positive
  have rounded : (2 ^ d : ℤ) ≤ roundEven (q / 2 ^ exponent q) := by
    refine le_roundEven ?_
    rw [← whole]
    exact div_le_div_of_nonneg_right below (two_zpow_pos _).le
  have kept : (2 : ℚ) ^ (Int.log 2 |q|) ≤ nearest q := by
    calc (2 : ℚ) ^ (Int.log 2 |q|) = ((2 ^ d : ℤ) : ℚ) * 2 ^ exponent q := by
          rw [← whole, div_mul_cancel₀ _ (two_zpow_pos _).ne']
      _ ≤ nearest q := mul_le_mul_of_nonneg_right (by exact_mod_cast rounded) (two_zpow_pos _).le
  refine le_trans ?_ kept
  exact_mod_cast zpow_le_zpow_right₀ (by norm_num : (1 : ℚ) ≤ 2) log

/-! ### Natural numbers -/

/-- At most 53 significant bits. -/
def Representable (n : ℕ) : Prop := ∃ m k : ℕ, m < 2 ^ 53 ∧ n = m * 2 ^ k

theorem representable_of_small {n : ℕ} (small : n < 2 ^ 53) : Representable n :=
  ⟨n, 0, small, by rw [pow_zero, mul_one]⟩

theorem nearest_natCast {n : ℕ} (h : Representable n) : nearest n = n := by
  obtain ⟨m, k, small, rfl⟩ := h
  have kept := nearest_eq (m := m) (k := k) (by rw [Nat.abs_cast]; exact_mod_cast small) (by omega)
  push_cast
  rwa [zpow_natCast, Int.cast_natCast] at kept

theorem Representable.round {n : ℕ} (h : Representable n) (bounded : n < 2 ^ 1024) :
    round n = .finite n := by
  rw [Double.round, nearest_natCast h, if_neg]
  rw [Nat.abs_cast]
  exact not_le.mpr (by exact_mod_cast bounded)

/-- A finite result of rounding. -/
theorem nearest_of_round {q v : ℚ} (h : round q = .finite v) : v = nearest q := by
  unfold Double.round at h
  split at h
  · cases h
  · exact (Number.finite.inj h).symm

/-- A value with at most 53 significant bits, or a power of two. -/
def Significant (q : ℚ) : Prop := ∃ m e : ℤ, |m| ≤ 2 ^ 53 ∧ q = m * 2 ^ e

theorem Significant.neg {q : ℚ} (h : Significant q) : Significant (-q) := by
  obtain ⟨m, e, bound, rfl⟩ := h
  refine ⟨-m, e, by rwa [abs_neg], ?_⟩
  rw [Int.cast_neg, neg_mul]

/-- A natural number of this kind. -/
theorem Significant.representable {n : ℕ} (h : Significant n) : Representable n := by
  obtain ⟨m, e, bound, value⟩ := h
  have nonneg : 0 ≤ m := by
    by_contra negative
    have below : (m : ℚ) < 0 := by exact_mod_cast not_le.mp negative
    have product := mul_neg_of_neg_of_pos below (two_zpow_pos e)
    rw [← value] at product
    exact absurd product (not_lt.mpr (Nat.cast_nonneg n))
  obtain ⟨m, rfl⟩ := Int.eq_ofNat_of_zero_le nonneg
  have few : m ≤ 2 ^ 53 := by
    rw [Int.abs_natCast] at bound
    exact_mod_cast bound
  rcases le_total 0 e with up | down
  · obtain ⟨k, rfl⟩ := Int.eq_ofNat_of_zero_le up
    rw [zpow_natCast] at value
    have product : n = m * 2 ^ k := by exact_mod_cast value
    rcases few.lt_or_eq with less | rfl
    · exact ⟨m, k, less, product⟩
    · exact ⟨1, 53 + k, by norm_num, by rw [product, one_mul, pow_add]⟩
  · -- bits behind the point: the number itself is small
    have small : n ≤ m := by
      have shrink : (2 : ℚ) ^ e ≤ 1 := zpow_le_one_of_nonpos₀ (by norm_num) down
      have le : (n : ℚ) ≤ m * 1 := by
        rw [value, Int.cast_natCast]
        exact mul_le_mul_of_nonneg_left shrink (Nat.cast_nonneg m)
      rw [mul_one] at le
      exact_mod_cast le
    rcases (small.trans few).lt_or_eq with less | rfl
    · exact representable_of_small less
    · exact ⟨1, 53, by norm_num, by norm_num⟩

namespace Number

/-- A finite number is one of the doubles. -/
def IsDouble (x : Number) : Prop := ∀ v, x = finite v → Significant v

theorem isDouble_round (q : ℚ) : (round q).IsDouble := by
  intro v same
  obtain ⟨m, bound, value⟩ := nearest_eq_mul q
  exact ⟨m, exponent q, bound, (nearest_of_round same).trans value⟩

theorem IsDouble.neg {x : Number} (h : x.IsDouble) : x.neg.IsDouble := by
  intro v same
  cases x with
  | nan => cases same
  | infinite s => cases same
  | finite q =>
      cases same
      exact (h q rfl).neg

theorem isDouble_integerOf (radix : ℕ) (ds : List Char) : (integerOf radix ds).IsDouble := by
  unfold integerOf
  split
  · exact isDouble_round _
  · nofun

theorem isDouble_unsigned (cs : List Char) : (unsigned cs).IsDouble := by
  unfold unsigned
  split
  · nofun
  · dsimp only
    split
    · exact isDouble_round _
    · nofun

/-- **What is read is a double.** -/
theorem isDouble_ofText (text : String) : (ofText text).IsDouble := by
  unfold ofText
  split
  · intro v same
    cases same
    exact ⟨0, 0, by norm_num, by norm_num⟩
  iterate 6 exact isDouble_integerOf _ _
  · exact (isDouble_unsigned _).neg
  · exact isDouble_unsigned _
  · exact isDouble_unsigned _

end Number

/-- A natural number that rounding leaves is a double. -/
theorem representable_of_round {q : ℚ} {n : ℕ} (h : round q = .finite n) : Representable n :=
  (Number.isDouble_round q n h).representable

/-- What is read as a small number is that number. -/
theorem eq_of_round_small {r v : ℕ} (h : round r = .finite v) (small : r < 2 ^ 53) : r = v := by
  rw [round_natCast small] at h
  exact_mod_cast Number.finite.inj h

/-- What is read as a number below a power of two is below it. -/
theorem lt_of_round {r v j : ℕ} (h : round r = .finite v) (small : v < 2 ^ j) : r < 2 ^ j := by
  by_contra large
  have reached := pow_le_nearest (q := r) (j := j) (by exact_mod_cast not_lt.mp large)
  rw [← nearest_of_round h] at reached
  exact absurd small (not_lt.mpr (by exact_mod_cast reached))

namespace Number

/-- The shortest digits are read as the number. -/
theorem digitsFrom_natCast {v : ℕ} (double : round v = finite v) {fuel : ℕ} {e : ℕ}
    (enough : e ≤ fuel) :
    ∃ s e' : ℕ, digitsFrom v fuel e = ((s : ℤ), (e' : ℤ)) ∧ round (s * 10 ^ e' : ℕ) = finite v := by
  have digit : ∀ e : ℕ, ∃ s : ℕ, roundEven ((v : ℚ) / 10 ^ (e : ℤ)) = s := by
    intro e
    refine Int.eq_ofNat_of_zero_le (le_roundEven ?_)
    rw [Int.cast_zero]
    exact div_nonneg (Nat.cast_nonneg v) (zpow_nonneg (by norm_num) _)
  have self : roundEven ((v : ℚ) / 10 ^ ((0 : ℕ) : ℤ)) = (v : ℕ) := by
    rw [Nat.cast_zero, zpow_zero, div_one]
    exact_mod_cast roundEven_intCast v
  induction fuel generalizing e with
  | zero =>
      obtain rfl := Nat.le_zero.mp enough
      refine ⟨v, 0, ?_, ?_⟩
      · rw [digitsFrom, self]
      · rw [pow_zero, mul_one]
        exact double
  | succ fuel ih =>
      obtain ⟨s, first⟩ := digit e
      rw [digitsFrom, first]
      split_ifs with reads
      · exact ⟨s, e, rfl, by push_cast; exact_mod_cast reads⟩
      · cases e with
        | zero =>
            rw [self] at first
            obtain rfl : v = s := by exact_mod_cast first
            rw [Nat.cast_zero, zpow_zero, mul_one] at reads
            exact absurd (by exact_mod_cast double) reads
        | succ e =>
            obtain ⟨s', e', found, same⟩ := ih (e := e) (by omega)
            refine ⟨s', e', ?_, same⟩
            rw [← found]
            congr 1
            push_cast
            ring

/-- Zeros behind the digits. -/
theorem toDigits_mul_pow {s : ℕ} (positive : 0 < s) (e : ℕ) :
    Nat.toDigits 10 s ++ List.replicate e '0' = Nat.toDigits 10 (s * 10 ^ e) := by
  induction e with
  | zero => rw [List.replicate_zero, List.append_nil, pow_zero, mul_one]
  | succ e ih =>
      have last := Nat.toDigits_append_toDigits (b := 10) (n := s * 10 ^ e) (d := 0) (by norm_num)
        (Nat.mul_pos positive (by positivity)) (by norm_num)
      rw [List.replicate_succ', ← List.append_assoc, ih, pow_succ, ← mul_assoc, mul_comm _ 10]
      exact last

/-- A natural number below `10 ^ 21` is written without a point and without an exponent. -/
theorem layout_natCast {s e : ℕ} (positive : 0 < s) (small : s * 10 ^ e < 10 ^ 21) :
    layout (Nat.toDigits 10 s) e = Nat.toDigits 10 (s * 10 ^ e) := by
  have places : (Nat.toDigits 10 s).length + e ≤ 21 := by
    have short := (Nat.length_toDigits_le_iff (by norm_num) (by norm_num)).mpr small
    rw [← toDigits_mul_pow positive, List.length_append, List.length_replicate] at short
    exact short
  rw [layout, if_pos ⟨Int.natCast_nonneg e, by exact_mod_cast places⟩, Int.toNat_natCast]
  exact toDigits_mul_pow positive e

/-- **The text of a natural number that is a double**: that of a natural number with this double. -/
theorem text_natCast {v : ℕ} (double : round v = finite v) (small : v < 2 ^ 62) :
    ∃ r : ℕ, text (finite v) = toString r ∧ round r = finite v := by
  by_cases zero : v = 0
  · subst zero
    refine ⟨0, ?_, double⟩
    rw [text, if_pos Nat.cast_zero]
    rfl
  · have positive : (0 : ℚ) < v := by exact_mod_cast Nat.pos_of_ne_zero zero
    have start : 0 ≤ Int.log 10 (v : ℚ) := by
      rw [Int.log_natCast]
      exact Int.natCast_nonneg _
    obtain ⟨e, place⟩ := Int.eq_ofNat_of_zero_le (show 0 ≤ Int.log 10 (v : ℚ) + 1 by omega)
    obtain ⟨s, e', found, same⟩ :=
      digitsFrom_natCast double (Nat.le_add_right e 1074)
    have digits : digits v = ((s : ℤ), (e' : ℤ)) := by
      rw [Number.digits, place, ← found]
      rfl
    have bounded := lt_of_round same small
    have nonzero : 0 < s := by
      refine Nat.pos_of_ne_zero fun none => zero ?_
      subst none
      rw [Nat.zero_mul] at same
      exact (eq_of_round_small same (by norm_num)).symm
    refine ⟨s * 10 ^ e', ?_, same⟩
    rw [text, if_neg positive.ne', if_neg (not_lt.mpr positive.le), positiveText, digits]
    rw [Int.toNat_natCast, layout_natCast nonzero (bounded.trans (by norm_num))]
    rfl

/-- **A small natural number is written as itself.** -/
theorem text_small {v : ℕ} (small : v < 2 ^ 53) : text (finite v) = toString v := by
  obtain ⟨r, text, same⟩ := text_natCast (round_natCast small) (small.trans (by norm_num))
  have bounded := lt_of_round same small
  rw [text, eq_of_round_small same bounded]

end Number

/-! ### Quotients -/

/-- Rounding goes to a neighbour. -/
theorem abs_nearest_sub_le (q : ℚ) : |nearest q - q| ≤ 2 ^ exponent q / 2 := by
  have unit := two_zpow_pos (exponent q)
  have scaled : nearest q - q =
      (roundEven (q / 2 ^ exponent q) - q / 2 ^ exponent q) * 2 ^ exponent q := by
    rw [sub_mul, div_mul_cancel₀ _ unit.ne']
    rfl
  rw [scaled, abs_mul, abs_of_pos unit]
  have bound := mul_le_mul_of_nonneg_right (abs_roundEven_sub_le (q / 2 ^ exponent q)) unit.le
  linarith

/-- The last place of a value below `2 ^ 46`. -/
theorem exponent_le_of_small {q : ℚ} (nonneg : 0 ≤ q) (small : q < 2 ^ 46) : exponent q ≤ -7 := by
  have log : Int.log 2 |q| < 46 := by
    rcases nonneg.eq_or_lt with rfl | positive
    · rw [abs_zero, Int.log_zero_right]
      norm_num
    · rw [abs_of_pos positive]
      exact (Int.lt_zpow_iff_log_lt (by norm_num) positive).mp (by exact_mod_cast small)
  unfold exponent
  omega

/-- **Numbers of pages.**  The quotient of two natural numbers, rounded and then rounded up, is that
quotient rounded up, as long as the rounding cannot reach the next integer. -/
theorem ceil_div_natCast {n d : ℕ} (positive : 0 < d) (few : d ≤ 128) (small : n < 2 ^ 46) :
    (Number.div (.finite n) (.finite d)).ceil = .finite ((n + d - 1) / d : ℕ) := by
  have divisor : (0 : ℚ) < d := by exact_mod_cast positive
  have nonneg : (0 : ℚ) ≤ n / d := div_nonneg (Nat.cast_nonneg n) divisor.le
  have bounded : (n : ℚ) / d < 2 ^ 46 := by
    rw [div_lt_iff₀ divisor]
    have less : n < 2 ^ 46 * d := small.trans_le (Nat.le_mul_of_pos_right _ positive)
    exact_mod_cast less
  rw [Number.div, if_neg divisor.ne']
  have split : (n : ℚ) / d = (n / d : ℕ) + ((n % d : ℕ) : ℚ) / d := by
    rw [div_eq_iff divisor.ne', add_mul, div_mul_cancel₀ _ divisor.ne']
    exact_mod_cast (Nat.div_add_mod' n d).symm
  have quotient : n / d < 2 ^ 46 := lt_of_le_of_lt (Nat.div_le_self n d) small
  rcases Nat.eq_zero_or_pos (n % d) with whole | left
  · rw [split, whole, Nat.cast_zero, zero_div, add_zero, round_natCast (by omega)]
    have same : (n + d - 1) / d = n / d := by
      obtain ⟨k, rfl⟩ := Nat.dvd_of_mod_eq_zero whole
      rw [Nat.mul_div_cancel_left k positive, show d * k + d - 1 = (d - 1) + d * k by omega,
        Nat.add_mul_div_left _ _ positive, Nat.div_eq_of_lt (by omega), Nat.zero_add]
    rw [same, Number.ceil, Int.ceil_natCast]
    rfl
  · have up : (n + d - 1) / d = n / d + 1 := by
      have parts : n + d - 1 = (n % d - 1) + d * (n / d + 1) := by
        have cut := Nat.div_add_mod n d
        rw [Nat.mul_add, mul_one]
        generalize d * (n / d) = k at cut
        generalize n % d = r at cut left
        omega
      have rest := Nat.mod_lt n positive
      rw [parts, Nat.add_mul_div_left _ _ positive, Nat.div_eq_of_lt (by omega), Nat.zero_add]
    have unit : (2 : ℚ) ^ exponent (n / d) ≤ 1 / 128 :=
      (zpow_le_zpow_right₀ (by norm_num) (exponent_le_of_small nonneg bounded)).trans (by norm_num)
    obtain ⟨below, above⟩ := abs_le.mp (abs_nearest_sub_le ((n : ℚ) / d))
    -- the quotient is at least `1 / d` away from the integers on its sides
    obtain ⟨least, most⟩ : (1 : ℚ) / 128 ≤ ((n % d : ℕ) : ℚ) / d ∧
        ((n % d : ℕ) : ℚ) / d ≤ 1 - 1 / 128 := by
      have rest : n % d + 1 ≤ d := Nat.mod_lt n positive
      have low : (1 : ℚ) ≤ (n % d : ℕ) := by exact_mod_cast left
      have high : ((n % d : ℕ) : ℚ) + 1 ≤ d := by exact_mod_cast rest
      have limit : (d : ℚ) ≤ 128 := by exact_mod_cast few
      constructor
      · rw [le_div_iff₀ divisor]
        linarith
      · rw [div_le_iff₀ divisor]
        linarith
    have rounded : round ((n : ℚ) / d) = .finite (nearest (n / d)) := by
      have bound : |nearest ((n : ℚ) / d)| < 2 ^ 47 := by
        rw [abs_lt]
        constructor
        · linarith
        · linarith
      exact if_neg (not_le.mpr (bound.trans (pow_lt_pow_right₀ (by norm_num) (by norm_num))))
    have reached : ⌈nearest ((n : ℚ) / d)⌉ = (n / d + 1 : ℕ) := by
      rw [Int.ceil_eq_iff, Int.cast_natCast, Nat.cast_succ]
      constructor
      · linarith
      · linarith
    rw [rounded, Number.ceil, reached, up]
    rfl

end Double
