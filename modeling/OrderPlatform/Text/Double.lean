import Mathlib.Data.Int.Log
import Mathlib.Data.Rat.Floor
import Mathlib.Tactic.Linarith
import Mathlib.Tactic.Positivity
import Mathlib.Tactic.FieldSimp

/-!
# Numbers of JavaScript

A number is a double.  It is given here by its value, which does not tell the two zeros apart.
`round` is the double that stands for a rational: with 53 significant bits, subnormal below
`2 ^ -1022`, rounded to the nearest one and to the even one between two, infinite from
`2 ^ 1024` on.  The sum and the product of two numbers are those of their values, rounded.

A value with at most 53 significant bits is not changed by rounding (`nearest_eq`), so sums and
products of integers are exact as long as they stay below `2 ^ 53` (`add_natCast`, `mul_natCast`).
-/

namespace Double

/-- A number, by its value. -/
inductive Number
  | nan
  | infinite (negative : Bool)
  | finite (value : ℚ)
deriving DecidableEq

/-- The nearest integer, the even one of two. -/
def roundEven (q : ℚ) : ℤ :=
  if Int.fract q < 1 / 2 then ⌊q⌋
  else if 1 / 2 < Int.fract q then ⌊q⌋ + 1
  else if ⌊q⌋ % 2 = 0 then ⌊q⌋
  else ⌊q⌋ + 1

/-- The exponent of the last place of a rational of this size. -/
def exponent (q : ℚ) : ℤ := max (Int.log 2 |q| - 52) (-1074)

/-- The nearest value, however large. -/
def nearest (q : ℚ) : ℚ := roundEven (q / 2 ^ exponent q) * 2 ^ exponent q

/-- The double that stands for a rational. -/
def round (q : ℚ) : Number :=
  if 2 ^ 1024 ≤ |nearest q| then .infinite (decide (q < 0)) else .finite (nearest q)

namespace Number

/-- `x + y`. -/
def add : Number → Number → Number
  | finite x, finite y => round (x + y)
  | nan, _ => nan
  | _, nan => nan
  | infinite s, infinite s' => if s = s' then infinite s else nan
  | infinite s, finite _ => infinite s
  | finite _, infinite s => infinite s

/-- `x * y`. -/
def mul : Number → Number → Number
  | finite x, finite y => round (x * y)
  | nan, _ => nan
  | _, nan => nan
  | infinite s, infinite s' => infinite (s != s')
  | infinite s, finite y => if y = 0 then nan else infinite (s != decide (y < 0))
  | finite x, infinite s => if x = 0 then nan else infinite (decide (x < 0) != s)

end Number

theorem roundEven_intCast (n : ℤ) : roundEven n = n := by
  rw [roundEven, Int.fract_intCast, Int.floor_intCast, if_pos (by norm_num)]

/-- The last place of a value with at most 53 significant bits is not behind its last bit. -/
theorem exponent_le {m k : ℤ} (nonzero : m ≠ 0) (small : |m| < 2 ^ 53) (low : -1074 ≤ k) :
    exponent (m * 2 ^ k) ≤ k := by
  have size : |(m : ℚ) * 2 ^ k| < 2 ^ (53 + k) := by
    rw [abs_mul, abs_of_pos (zpow_pos (by norm_num : (0 : ℚ) < 2) k),
      zpow_add₀ (by norm_num : (2 : ℚ) ≠ 0)]
    have bound : |(m : ℚ)| < 2 ^ (53 : ℤ) := by exact_mod_cast small
    exact mul_lt_mul_of_pos_right bound (zpow_pos (by norm_num) k)
  have positive : 0 < |(m : ℚ) * 2 ^ k| := by
    rw [abs_pos]
    exact mul_ne_zero (Int.cast_ne_zero.mpr nonzero) (zpow_ne_zero k (by norm_num))
  have log : Int.log 2 |(m : ℚ) * 2 ^ k| < 53 + k :=
    (Int.lt_zpow_iff_log_lt (by norm_num) positive).mp (by exact_mod_cast size)
  exact max_le (by omega) low

/-- **Nothing is rounded that has at most 53 significant bits.** -/
theorem nearest_eq {m k : ℤ} (small : |m| < 2 ^ 53) (low : -1074 ≤ k) :
    nearest (m * 2 ^ k) = m * 2 ^ k := by
  by_cases zero : m = 0
  · rw [zero, Int.cast_zero, zero_mul, nearest, zero_div]
    rw [show roundEven 0 = 0 from mod_cast roundEven_intCast 0, Int.cast_zero, zero_mul]
  · have below := exponent_le zero small low
    have nonzero : (2 : ℚ) ≠ 0 := by norm_num
    obtain ⟨d, digits⟩ := Int.eq_ofNat_of_zero_le (sub_nonneg.mpr below)
    have whole : (m : ℚ) * 2 ^ k / 2 ^ exponent (m * 2 ^ k) = ((m * 2 ^ d : ℤ) : ℚ) := by
      rw [mul_div_assoc, ← zpow_sub₀ nonzero, digits, zpow_natCast]
      push_cast
      rfl
    rw [nearest, whole, roundEven_intCast, ← whole, div_mul_cancel₀]
    exact zpow_ne_zero _ nonzero

/-- An integer below `2 ^ 53` is a number. -/
theorem round_intCast {n : ℤ} (small : |n| < 2 ^ 53) : round n = .finite n := by
  have exact_ : nearest n = n := by
    have same := nearest_eq (k := 0) small (by norm_num)
    rwa [zpow_zero, mul_one] at same
  have bound : |(n : ℚ)| < 2 ^ 53 := by exact_mod_cast small
  rw [round, exact_, if_neg]
  exact not_le.mpr (lt_trans bound (pow_lt_pow_right₀ (by norm_num) (by norm_num)))

theorem round_natCast {n : ℕ} (small : n < 2 ^ 53) : round n = .finite n := by
  have same := round_intCast (n := n) (by rw [Nat.abs_cast]; exact_mod_cast small)
  exact_mod_cast same

/-- **Sums of integers are exact** below `2 ^ 53`. -/
theorem add_natCast {a b : ℕ} (small : a + b < 2 ^ 53) :
    Number.add (.finite a) (.finite b) = .finite (a + b : ℕ) := by
  have same := round_natCast small
  push_cast at same ⊢
  exact same

/-- **Products of integers are exact** below `2 ^ 53`. -/
theorem mul_natCast {a b : ℕ} (small : a * b < 2 ^ 53) :
    Number.mul (.finite a) (.finite b) = .finite (a * b : ℕ) := by
  have same := round_natCast small
  push_cast at same ⊢
  exact same

/-- **Counting** is exact up to `2 ^ 53`. -/
theorem add_one {n : ℕ} (small : n < 2 ^ 53) :
    Number.add (.finite n) (.finite 1) = .finite (n + 1 : ℕ) := by
  rcases Nat.lt_or_eq_of_le (Nat.succ_le_of_lt small) with below | last
  · have sum := add_natCast (a := n) (b := 1) below
    rwa [Nat.cast_one] at sum
  · obtain rfl : n = 9007199254740991 := by omega
    decide +kernel

/-- Counting ends at `2 ^ 53`. -/
theorem add_one_end :
    Number.add (.finite (2 ^ 53 : ℕ)) (.finite 1) = .finite (2 ^ 53 : ℕ) := by decide +kernel

end Double
