import Mathlib.Data.Nat.Notation
import Mathlib.Data.List.Basic
import Mathlib.Tactic.Common

/-!
# Strings of code units

A string of JavaScript is a list of 16-bit code units, and nothing says that its surrogates come in
pairs.  `codePoints` reads it by code points, an unpaired surrogate being one of its own, and
`encode` writes them again: every string is what its code points are written as
(`encode_codePoints`).

Outside of the process a text consists of characters.  `decode` is what a string becomes on the way:
every unpaired surrogate is replaced by U+FFFD, so two strings may become one text.  A string
without unpaired surrogates can be told from its text (`encode_decode`).
-/

namespace Utf16

/-- A string of JavaScript. -/
abbrev Units := List UInt16

/-- The first half of a surrogate pair. -/
def isHigh (u : UInt16) : Bool := 0xD800 ≤ u.toNat && u.toNat < 0xDC00

/-- The second half of a surrogate pair. -/
def isLow (u : UInt16) : Bool := 0xDC00 ≤ u.toNat && u.toNat < 0xE000

/-- Whether a code point is a surrogate. -/
def isSurrogate (p : ℕ) : Bool := 0xD800 ≤ p && p < 0xE000

/-- The code point of a pair of surrogates. -/
def pairPoint (high low : UInt16) : ℕ :=
  0x10000 + (high.toNat - 0xD800) * 0x400 + (low.toNat - 0xDC00)

/-- `StringToCodePoints`. -/
def codePoints : Units → List ℕ
  | [] => []
  | [u] => [u.toNat]
  | u :: v :: rest =>
      if isHigh u && isLow v then pairPoint u v :: codePoints rest
      else u.toNat :: codePoints (v :: rest)

/-- A string is empty, or begins with a pair, or begins with a unit that stands alone. -/
@[elab_as_elim]
theorem induction_points {motive : Units → Prop} (nil : motive []) (lone : ∀ u, motive [u])
    (pair : ∀ u v rest, (isHigh u && isLow v) = true → motive rest → motive (u :: v :: rest))
    (single : ∀ u v rest, ¬ (isHigh u && isLow v) = true → motive (v :: rest) →
      motive (u :: v :: rest))
    (s : Units) : motive s :=
  codePoints.induct motive nil lone pair single s

/-- `UTF16EncodeCodePoint`. -/
def encodePoint (p : ℕ) : Units :=
  if p < 0x10000 then [.ofNat p]
  else [.ofNat (0xD800 + (p - 0x10000) / 0x400), .ofNat (0xDC00 + (p - 0x10000) % 0x400)]

/-- `CodePointsToString`. -/
def encode (ps : List ℕ) : Units := ps.flatMap encodePoint

/-- The code units of a text. -/
def units (text : List Char) : Units := encode (text.map Char.toNat)

/-- The code units of a literal. -/
def lit (text : String) : Units := units text.toList

/-- The character that is written for a code point. -/
def pointChar (p : ℕ) : Char := if isSurrogate p then '\uFFFD' else Char.ofNat p

/-- The text that a string is written as. -/
def decode (s : Units) : List Char := (codePoints s).map pointChar

/-- All surrogates come in pairs. -/
def paired (s : Units) : Bool := (codePoints s).all fun p => !isSurrogate p

/-! ### Code points -/

@[simp] theorem codePoints_nil : codePoints [] = [] := rfl

theorem codePoints_pair {u v : UInt16} (high : isHigh u = true) (low : isLow v = true)
    (rest : Units) : codePoints (u :: v :: rest) = pairPoint u v :: codePoints rest := by
  rw [codePoints, if_pos (by rw [high, low]; rfl)]

/-- A unit that is no surrogate is a code point of its own, whatever stands behind it. -/
theorem codePoints_cons {u : UInt16} (plain : isHigh u = false) (rest : Units) :
    codePoints (u :: rest) = u.toNat :: codePoints rest := by
  cases rest with
  | nil => rfl
  | cons v rest =>
      rw [codePoints, if_neg]
      rw [plain, Bool.false_and]
      exact Bool.false_ne_true

/-- The first code point of a string. -/
theorem head_codePoints (u : UInt16) (rest : Units) :
    (codePoints (u :: rest)).head? = some u.toNat ∨
      ∀ p ∈ (codePoints (u :: rest)).head?, 0x10000 ≤ p := by
  cases rest with
  | nil => exact .inl rfl
  | cons v rest =>
      rw [codePoints]
      split
      · refine .inr fun p head => ?_
        obtain rfl : pairPoint u v = p := Option.some.inj head
        exact Nat.le_trans (Nat.le_add_right 0x10000 _) (Nat.le_add_right _ _)
      · exact .inl rfl

private theorem toNat_lt (u : UInt16) : u.toNat < 0x10000 := u.toNat_lt_size

theorem encodePoint_toNat (u : UInt16) : encodePoint u.toNat = [u] := by
  rw [encodePoint, if_pos (toNat_lt u), UInt16.ofNat_toNat]

theorem encodePoint_pairPoint {u v : UInt16} (high : isHigh u = true) (low : isLow v = true) :
    encodePoint (pairPoint u v) = [u, v] := by
  simp only [isHigh, isLow, Bool.and_eq_true, decide_eq_true_eq] at high low
  have first : 0xD800 + (pairPoint u v - 0x10000) / 0x400 = u.toNat := by
    unfold pairPoint
    omega
  have second : 0xDC00 + (pairPoint u v - 0x10000) % 0x400 = v.toNat := by
    unfold pairPoint
    omega
  have beyond : ¬ pairPoint u v < 0x10000 := by
    unfold pairPoint
    omega
  rw [encodePoint, if_neg beyond, first, second, UInt16.ofNat_toNat, UInt16.ofNat_toNat]

/-- **Every string is what its code points are written as.** -/
theorem encode_codePoints (s : Units) : encode (codePoints s) = s := by
  induction s using induction_points with
  | nil => rfl
  | lone u =>
      rw [codePoints, encode, List.flatMap_singleton]
      exact encodePoint_toNat u
  | pair u v rest pair ih =>
      obtain ⟨high, low⟩ := Bool.and_eq_true_iff.mp pair
      rw [codePoints_pair high low, encode, List.flatMap_cons, encodePoint_pairPoint high low]
      exact congrArg (u :: v :: ·) ih
  | single u v rest unpaired ih =>
      rw [codePoints, if_neg unpaired, encode, List.flatMap_cons, encodePoint_toNat]
      exact congrArg (u :: ·) ih

theorem encode_append (ps qs : List ℕ) : encode (ps ++ qs) = encode ps ++ encode qs :=
  List.flatMap_append

theorem encode_cons (p : ℕ) (ps : List ℕ) : encode (p :: ps) = encodePoint p ++ encode ps :=
  List.flatMap_cons

/-- A code point that is no surrogate is read as it was written. -/
theorem codePoints_encodePoint {p : ℕ} (inside : p < 0x110000) (plain : isSurrogate p = false)
    (rest : Units) : codePoints (encodePoint p ++ rest) = p :: codePoints rest := by
  unfold encodePoint
  split
  · rename_i basic
    have value : (UInt16.ofNat p).toNat = p := UInt16.toNat_ofNat_of_lt' basic
    have notHigh : isHigh (.ofNat p) = false := by
      simp only [isSurrogate, isHigh, value, Bool.and_eq_false_iff, decide_eq_false_iff_not]
        at plain ⊢
      omega
    rw [List.singleton_append, codePoints_cons notHigh, value]
  · rename_i beyond
    have high : (UInt16.ofNat (0xD800 + (p - 0x10000) / 0x400)).toNat =
        0xD800 + (p - 0x10000) / 0x400 :=
      UInt16.toNat_ofNat_of_lt' (show _ < 65536 by omega)
    have low : (UInt16.ofNat (0xDC00 + (p - 0x10000) % 0x400)).toNat =
        0xDC00 + (p - 0x10000) % 0x400 :=
      UInt16.toNat_ofNat_of_lt' (show _ < 65536 by omega)
    have isHigh_high : isHigh (.ofNat (0xD800 + (p - 0x10000) / 0x400)) = true := by
      simp only [isHigh, high, Bool.and_eq_true, decide_eq_true_eq]
      omega
    have isLow_low : isLow (.ofNat (0xDC00 + (p - 0x10000) % 0x400)) = true := by
      simp only [isLow, low, Bool.and_eq_true, decide_eq_true_eq]
      omega
    have value : pairPoint (.ofNat (0xD800 + (p - 0x10000) / 0x400))
        (.ofNat (0xDC00 + (p - 0x10000) % 0x400)) = p := by
      unfold pairPoint
      rw [high, low]
      have parts := Nat.div_add_mod (p - 0x10000) 0x400
      generalize (p - 0x10000) / 0x400 = q at parts ⊢
      generalize (p - 0x10000) % 0x400 = r at parts ⊢
      omega
    rw [List.cons_append, List.singleton_append, codePoints_pair isHigh_high isLow_low, value]

/-- U+0000 is one unit. -/
theorem zero_mem_codePoints (s : Units) : 0 ∈ codePoints s ↔ (0 : UInt16) ∈ s := by
  have unit : ∀ u : UInt16, 0 = u.toNat ↔ 0 = u := fun u =>
    ⟨fun same => UInt16.toNat_inj.mp same, congrArg UInt16.toNat⟩
  induction s using induction_points with
  | nil => exact ⟨nofun, nofun⟩
  | lone u => rw [codePoints, List.mem_singleton, List.mem_singleton, unit]
  | pair u v rest pair ih =>
      obtain ⟨high, low⟩ := Bool.and_eq_true_iff.mp pair
      have other : 0 ≠ pairPoint u v ∧ 0 ≠ u ∧ 0 ≠ v := by
        refine ⟨?_, ?_, ?_⟩
        · intro zero
          unfold pairPoint at zero
          omega
        · rintro rfl
          cases high
        · rintro rfl
          cases low
      rw [codePoints_pair high low, List.mem_cons, List.mem_cons, List.mem_cons,
        or_iff_right other.1, or_iff_right other.2.1, or_iff_right other.2.2]
      exact ih
  | single u v rest unpaired ih =>
      rw [codePoints, if_neg unpaired, List.mem_cons, List.mem_cons, unit]
      exact or_congr_right ih

/-! ### Texts -/

theorem isSurrogate_toNat (c : Char) : isSurrogate c.toNat = false := by
  have valid : c.toNat < 0xD800 ∨ 0xDFFF < c.toNat ∧ c.toNat < 0x110000 := c.valid
  simp only [isSurrogate, Bool.and_eq_false_iff, decide_eq_false_iff_not]
  omega

theorem toNat_lt_of_char (c : Char) : c.toNat < 0x110000 := by
  have valid : c.toNat < 0xD800 ∨ 0xDFFF < c.toNat ∧ c.toNat < 0x110000 := c.valid
  omega

theorem codePoints_units_append (text : List Char) (rest : Units) :
    codePoints (units text ++ rest) = text.map Char.toNat ++ codePoints rest := by
  induction text with
  | nil => rfl
  | cons c text ih =>
      rw [units, List.map_cons, encode_cons, List.append_assoc,
        codePoints_encodePoint (toNat_lt_of_char c) (isSurrogate_toNat c)]
      exact congrArg (c.toNat :: ·) ih

theorem codePoints_units (text : List Char) : codePoints (units text) = text.map Char.toNat := by
  have read := codePoints_units_append text []
  rw [List.append_nil] at read
  rw [read, codePoints_nil, List.append_nil]

@[simp] theorem pointChar_toNat (c : Char) : pointChar c.toNat = c := by
  rw [pointChar, if_neg (by rw [isSurrogate_toNat]; exact Bool.false_ne_true), Char.ofNat_toNat]

/-- A text is written as itself. -/
@[simp] theorem decode_units (text : List Char) : decode (units text) = text := by
  rw [decode, codePoints_units, List.map_map]
  exact (List.map_congr_left fun c _ => pointChar_toNat c).trans (List.map_id text)

theorem paired_units (text : List Char) : paired (units text) = true := by
  rw [paired, codePoints_units, List.all_map, List.all_eq_true]
  intro c _
  exact congrArg (!·) (isSurrogate_toNat c)

theorem units_injective : Function.Injective units := by
  intro text text' same
  rw [← decode_units text, same, decode_units]

theorem units_append (text text' : List Char) : units (text ++ text') = units text ++ units text' := by
  rw [units, List.map_append, encode_append]
  rfl

theorem codePoint_lt {s : Units} : ∀ p ∈ codePoints s, p < 0x110000 := by
  induction s using induction_points with
  | nil => exact fun p mem => nomatch mem
  | lone u =>
      intro p mem
      obtain rfl := List.mem_singleton.mp mem
      exact Nat.lt_trans (toNat_lt u) (by decide)
  | pair u v rest pair ih =>
      obtain ⟨high, low⟩ := Bool.and_eq_true_iff.mp pair
      rw [codePoints_pair high low]
      refine List.forall_mem_cons.mpr ⟨?_, ih⟩
      simp only [isHigh, isLow, Bool.and_eq_true, decide_eq_true_eq] at high low
      unfold pairPoint
      omega
  | single u v rest unpaired ih =>
      rw [codePoints, if_neg unpaired]
      exact List.forall_mem_cons.mpr ⟨Nat.lt_trans (toNat_lt u) (by decide), ih⟩

theorem toNat_pointChar {p : ℕ} (inside : p < 0x110000) (plain : isSurrogate p = false) :
    (pointChar p).toNat = p := by
  have valid : p.isValidChar := by
    simp only [isSurrogate, Bool.and_eq_false_iff, decide_eq_false_iff_not] at plain
    show p < 0xD800 ∨ 0xDFFF < p ∧ p < 0x110000
    omega
  rw [pointChar, if_neg (by rw [plain]; exact Bool.false_ne_true)]
  rw [Char.ofNat, dif_pos valid]
  rfl

/-- **A string without unpaired surrogates can be told from the text that it is written as.** -/
theorem units_decode {s : Units} (pairs : paired s = true) : units (decode s) = s := by
  rw [units, decode, List.map_map]
  refine Eq.trans (congrArg encode ?_) (encode_codePoints s)
  refine (List.map_congr_left fun p mem => ?_).trans (List.map_id _)
  have plain := List.all_eq_true.mp pairs p mem
  exact toNat_pointChar (codePoint_lt p mem) (by simpa using plain)

theorem decode_injective {s t : Units} (pairs : paired s = true) (pairs' : paired t = true)
    (same : decode s = decode t) : s = t := by
  rw [← units_decode pairs, same, units_decode pairs']

theorem paired_iff {s : Units} : paired s = true ↔ ∃ text, s = units text := by
  constructor
  · exact fun pairs => ⟨decode s, (units_decode pairs).symm⟩
  · rintro ⟨text, rfl⟩
    exact paired_units text

theorem paired_append {s t : Units} (pairs : paired s = true) (pairs' : paired t = true) :
    paired (s ++ t) = true := by
  rw [← units_decode pairs, ← units_decode pairs', ← units_append]
  exact paired_units _

end Utf16
