import OrderPlatform.Text.JavaScript

/-!
# Texts in Postgres

What Postgres takes for a value of its types `text`, `jsonb` and `integer`.  A text has no U+0000.
The strings of a `jsonb` have none either, also not as an escape, and an escaped surrogate must be
one of a pair (`scanString`); numbers are exact.

What `JSON.stringify` has written is a `jsonb` exactly if no string of the value has U+0000 or an
unpaired surrogate (`jsonb_stringify`).
-/

namespace Postgres

open Utf16 (Units codePoints encode encodePoint isSurrogate isHigh isLow)
open JsonText (Value Reader Reads)
open JavaScript (hexUnit letterEscape escapePoint unicodeEscape Scans)

/-- Whether Postgres stores these characters as `text`. -/
def acceptsText (text : List Char) : Bool := text.all fun c => c.toNat ≠ 0

/-- Whether Postgres stores this number as `integer`. -/
def acceptsInteger (n : ℤ) : Bool := -2147483648 ≤ n && n ≤ 2147483647

/-- The string of a literal up to its closing quote, and what is left. -/
def scanString : Units → Option (Units × Units)
  | [] => none
  | u :: rest =>
      if u = 0x22 then some ([], rest)
      else if u = 0x5c then
        match rest with
        | 0x75 :: a :: b :: c :: d :: rest =>
            (hexUnit a b c d).bind fun v =>
              if v = 0 ∨ isLow v = true then none
              else if isHigh v = true then
                match rest with
                | 0x5c :: 0x75 :: a :: b :: c :: d :: rest =>
                    (hexUnit a b c d).bind fun w =>
                      if isLow w = true then (scanString rest).map fun x => (v :: w :: x.1, x.2)
                      else none
                | _ => none
              else (scanString rest).map fun x => (v :: x.1, x.2)
        | e :: rest =>
            (letterEscape e).bind fun v => (scanString rest).map fun x => (v :: x.1, x.2)
        | [] => none
      else if u.toNat < 0x20 then none
      else (scanString rest).map fun x => (u :: x.1, x.2)

/-- The strings and numbers that the `jsonb` input of Postgres reads. -/
def reader : Reader Units ℚ := ⟨scanString, JavaScript.scanNumeral⟩

/-- A text read as `jsonb`; `none` is an error. -/
def jsonb (text : List Char) : Option (Value Units ℚ) := reader.read (Utf16.units text)

/-- Whether a string has neither U+0000 nor an unpaired surrogate. -/
def acceptsString (s : Units) : Bool := (codePoints s).all fun p => p ≠ 0 && !isSurrogate p

/-! ### Escapes -/

theorem scans : Scans scanString where
  quote rest := (scanString.eq_def _).trans (if_pos rfl)
  letter e v letter rest := by
    have other : e ≠ 0x75 := by
      rintro rfl
      cases letter
    rw [scanString.eq_def]
    simp [letter, other]
  plain u visible quote backslash rest := by
    rw [scanString.eq_def]
    simp only [if_neg quote, if_neg backslash, if_neg (Nat.not_lt.mpr visible)]

private theorem scanString_unicode {p : ℕ} (unit : p < 0x10000) (rest : Units) :
    scanString (unicodeEscape p ++ rest) =
      if UInt16.ofNat p = 0 ∨ isLow (.ofNat p) = true then none
      else if isHigh (.ofNat p) = true then
        match rest with
        | 0x5c :: 0x75 :: a :: b :: c :: d :: rest =>
            (hexUnit a b c d).bind fun w =>
              if isLow w = true then (scanString rest).map fun x => (.ofNat p :: w :: x.1, x.2)
              else none
        | _ => none
      else (scanString rest).map fun x => (.ofNat p :: x.1, x.2) := by
  have named := JavaScript.hexUnit_hexDigit unit
  rw [unicodeEscape, scanString.eq_def]
  simp only [List.cons_append, List.nil_append]
  rw [named]
  rfl

/-- The text does not begin with the escape of a low surrogate. -/
def NoLowEscape (text : Units) : Prop :=
  ∀ a b c d rest w, text = 0x5c :: 0x75 :: a :: b :: c :: d :: rest → hexUnit a b c d = some w →
    isLow w = false

/-- The escape of a surrogate is rejected unless it is that of a high one in front of a low one. -/
theorem scanString_surrogate {p : ℕ} (surrogate : isSurrogate p = true) {rest : Units}
    (alone : p < 0xDC00 → NoLowEscape rest) : scanString (escapePoint p ++ rest) = none := by
  have range : 0xD800 ≤ p ∧ p < 0xE000 := by
    simpa only [isSurrogate, Bool.and_eq_true, decide_eq_true_eq] using surrogate
  have value : (UInt16.ofNat p).toNat = p := UInt16.toNat_ofNat_of_lt' (show p < 65536 by omega)
  have escaped : escapePoint p = unicodeEscape p := by
    unfold escapePoint
    rw [if_neg (by omega), if_neg (by omega), if_neg (by omega), if_neg (by omega),
      if_neg (by omega), if_neg (by omega), if_neg (by omega), if_pos (.inr surrogate)]
  rw [escaped, scanString_unicode (by omega)]
  split
  · rfl
  · rename_i notLow
    have high : p < 0xDC00 := by
      simp only [isLow, value, Bool.and_eq_true, decide_eq_true_eq, not_or] at notLow
      omega
    rw [if_pos (by simp only [isHigh, value, Bool.and_eq_true, decide_eq_true_eq]; omega)]
    split
    · rename_i a b c d rest
      cases named : hexUnit a b c d with
      | none => rfl
      | some w =>
          rw [Option.bind_some, if_neg]
          rw [alone high a b c d rest w rfl named]
          exact Bool.false_ne_true
    · rfl

/-- An escape of no surrogate is scanned as its code point, unless that is U+0000. -/
theorem scanString_escapePoint {p : ℕ} (inRange : p < 0x110000) (nonzero : p ≠ 0)
    (plain : isSurrogate p = false) (rest : Units) :
    scanString (escapePoint p ++ rest) =
      (scanString rest).map fun x => (encodePoint p ++ x.1, x.2) := by
  refine scans.escapePoint inRange (fun escaped rest => ?_) rest
  have low : p < 0x20 := by
    rcases escaped with low | surrogate
    · exact low
    · exact absurd (plain.symm.trans surrogate) Bool.false_ne_true
  have value : (UInt16.ofNat p).toNat = p := UInt16.toNat_ofNat_of_lt' (show p < 65536 by omega)
  rw [scanString_unicode (by omega), if_neg, if_neg]
  · simp only [isHigh, value, Bool.and_eq_true, decide_eq_true_eq]
    omega
  · rintro (zero | isLow_p)
    · exact nonzero (value.symm.trans (congrArg UInt16.toNat zero))
    · simp only [isLow, value, Bool.and_eq_true, decide_eq_true_eq] at isLow_p
      omega

theorem scanString_zero (rest : Units) : scanString (escapePoint 0 ++ rest) = none :=
  (scanString_unicode (by decide) rest).trans (if_pos (.inl rfl))

/-! ### Reading what JavaScript has written -/

/-- What is written for code points of which the first one is no low surrogate. -/
private theorem noLowEscape_points {ps : List ℕ} (inRange : ∀ p ∈ ps, p < 0x110000)
    (notLow : ∀ p ∈ ps.head?, p < 0xDC00 ∨ 0xE000 ≤ p) (rest : Units) :
    NoLowEscape (ps.flatMap escapePoint ++ 0x22 :: rest) := by
  intro a b c d rest' w same named
  cases ps with
  | nil => cases (List.cons.inj same).1
  | cons p ps =>
      have high := notLow p rfl
      rw [List.flatMap_cons, List.append_assoc] at same
      generalize ps.flatMap escapePoint ++ 0x22 :: rest = tail at same
      unfold escapePoint at same
      split_ifs at same with backspace tab newline feed return_ quote backslash escaped
      -- a short escape does not begin with `\u`
      any_goals
        rw [List.cons_append, List.cons_append] at same
        cases (List.cons.inj (List.cons.inj same).2).1
      · have unit : p < 0x10000 := by
          rcases escaped with low | surrogate
          · omega
          · simp only [isSurrogate, Bool.and_eq_true, decide_eq_true_eq] at surrogate
            omega
        have digits := JavaScript.hexUnit_hexDigit unit
        rw [unicodeEscape, List.cons_append, List.cons_append, List.cons_append, List.cons_append,
          List.cons_append, List.cons_append] at same
        obtain ⟨-, same⟩ := List.cons.inj same
        obtain ⟨-, same⟩ := List.cons.inj same
        obtain ⟨first, same⟩ := List.cons.inj same
        obtain ⟨second, same⟩ := List.cons.inj same
        obtain ⟨third, same⟩ := List.cons.inj same
        obtain ⟨fourth, -⟩ := List.cons.inj same
        rw [← first, ← second, ← third, ← fourth, digits] at named
        obtain rfl := Option.some.inj named
        have value : (UInt16.ofNat p).toNat = p := UInt16.toNat_ofNat_of_lt' unit
        simp only [isLow, value, Bool.and_eq_false_iff, decide_eq_false_iff_not]
        omega
      · have bound := inRange p List.mem_cons_self
        unfold encodePoint at same
        split at same
        · rename_i unit
          have head := congrArg UInt16.toNat (List.cons.inj same).1
          rw [UInt16.toNat_ofNat_of_lt' (show p < 65536 from unit)] at head
          exact absurd head backslash
        · have head := congrArg UInt16.toNat (List.cons.inj same).1
          rw [UInt16.toNat_ofNat_of_lt' (show _ < 65536 by omega)] at head
          have : (0x5c : UInt16).toNat = 92 := rfl
          omega

/-- One code point of a literal. -/
private theorem scanString_point {p : ℕ} (inRange : p < 0x110000) {rest : Units}
    (alone : 0xD800 ≤ p → p < 0xDC00 → NoLowEscape rest) :
    scanString (escapePoint p ++ rest) =
      if p ≠ 0 && !isSurrogate p then (scanString rest).map fun x => (encodePoint p ++ x.1, x.2)
      else none := by
  cases surrogate : isSurrogate p with
  | true =>
      rw [Bool.not_true, Bool.and_false, if_neg Bool.false_ne_true]
      refine scanString_surrogate surrogate fun high => alone ?_ high
      simp only [isSurrogate, Bool.and_eq_true, decide_eq_true_eq] at surrogate
      exact surrogate.1
  | false =>
      rw [Bool.not_false, Bool.and_true]
      by_cases zero : p = 0
      · subst zero
        exact scanString_zero rest
      · rw [if_pos (decide_eq_true zero)]
        exact scanString_escapePoint inRange zero surrogate rest

/-- **A literal is scanned as the string that it was written for**, or is rejected. -/
theorem scanString_inside (s rest : Units) :
    scanString (JavaScript.inside s ++ rest) =
      if acceptsString s then some (s, rest) else none := by
  have points : scanString ((codePoints s).flatMap escapePoint ++ 0x22 :: rest) =
      if acceptsString s then some (encode (codePoints s), rest) else none := by
    unfold acceptsString
    -- by code points; a high surrogate that is one of its own has no low one behind it
    have step : ∀ p ps, p < 0x110000 → (0xD800 ≤ p → p < 0xDC00 →
        NoLowEscape (ps.flatMap escapePoint ++ 0x22 :: rest)) →
        scanString (ps.flatMap escapePoint ++ 0x22 :: rest) =
          (if ps.all fun p => p ≠ 0 && !isSurrogate p then some (encode ps, rest) else none) →
        scanString ((p :: ps).flatMap escapePoint ++ 0x22 :: rest) =
          if (p :: ps).all fun p => p ≠ 0 && !isSurrogate p then some (encode (p :: ps), rest)
          else none := by
      intro p ps inRange alone ih
      rw [List.flatMap_cons, List.append_assoc, scanString_point inRange alone, ih, List.all_cons,
        Utf16.encode_cons]
      cases (p ≠ 0 && !isSurrogate p : Bool) with
      | false => rfl
      | true =>
          rw [Bool.true_and]
          cases ps.all fun p => p ≠ 0 && !isSurrogate p <;> rfl
    induction s using Utf16.induction_points with
    | nil => exact scans.quote rest
    | lone u =>
        refine step _ [] (Utf16.codePoint_lt (s := [u]) _ List.mem_cons_self) (fun _ _ => ?_)
          (scans.quote rest)
        exact @noLowEscape_points [] (fun _ mem => nomatch mem) (fun _ mem => nomatch mem) rest
    | pair u v s pair ih =>
        obtain ⟨high, low⟩ := Bool.and_eq_true_iff.mp pair
        rw [Utf16.codePoints_pair high low]
        refine step _ _ (Utf16.codePoint_lt (s := u :: v :: s) _ ?_) (fun _ below => ?_) ih
        · rw [Utf16.codePoints_pair high low]
          exact List.mem_cons_self
        · unfold Utf16.pairPoint at below
          omega
    | single u v s unpaired ih =>
        rw [codePoints, if_neg unpaired]
        refine step _ _ (Utf16.codePoint_lt (s := [u]) _ List.mem_cons_self) (fun low high => ?_) ih
        refine noLowEscape_points Utf16.codePoint_lt (fun p head => ?_) rest
        have isHigh_u : isHigh u = true := by
          simp only [isHigh, Bool.and_eq_true, decide_eq_true_eq]
          exact ⟨low, high⟩
        rw [isHigh_u, Bool.true_and, Bool.not_eq_true] at unpaired
        rcases Utf16.head_codePoints v s with same | beyond
        · rw [same] at head
          obtain rfl := Option.some.inj head
          simp only [isLow, Bool.and_eq_false_iff, decide_eq_false_iff_not] at unpaired
          omega
        · exact .inr (Nat.le_trans (by decide) (beyond p head))
  rw [Utf16.encode_codePoints] at points
  rw [JavaScript.inside, List.append_assoc]
  exact points

theorem reads : Reads JavaScript.writer reader acceptsString (fun n : ℤ => (n : ℚ)) :=
  ⟨scanString_inside, fun n _ stops => JavaScript.scanNumeral_integer n stops,
    JavaScript.reads.starts⟩

/-- **What JavaScript has written is a `jsonb`** exactly if no string of the value has U+0000 or an
unpaired surrogate. -/
theorem jsonb_stringify (v : JavaScript.Json) :
    jsonb (Utf16.decode (JavaScript.stringify v)) =
      if v.accepted acceptsString then some (v.map fun n : ℤ => (n : ℚ)) else none := by
  rw [jsonb, Utf16.units_decode (JavaScript.paired_stringify v)]
  exact JsonText.read_stringify reads v

/-- A text has U+0000 exactly if its string has. -/
theorem acceptsText_decode (s : Units) :
    acceptsText (Utf16.decode s) = true ↔ (0 : UInt16) ∉ s := by
  rw [acceptsText, Utf16.decode, List.all_map, List.all_eq_true, ← Utf16.zero_mem_codePoints]
  have zero : ∀ p ∈ codePoints s, (Utf16.pointChar p).toNat = 0 ↔ p = 0 := by
    intro p mem
    cases surrogate : isSurrogate p with
    | false => rw [Utf16.toNat_pointChar (Utf16.codePoint_lt p mem) surrogate]
    | true =>
        rw [Utf16.pointChar, if_pos surrogate]
        constructor
        · exact fun absurd => by cases absurd
        · rintro rfl
          cases surrogate
  constructor
  · intro all mem
    have nonzero : decide ((Utf16.pointChar 0).toNat ≠ 0) = true := all 0 mem
    exact of_decide_eq_true nonzero ((zero 0 mem).mpr rfl)
  · intro none p mem
    exact decide_eq_true fun value => none ((zero p mem).mp value ▸ mem)

/-- A string of a `jsonb` has neither U+0000 nor an unpaired surrogate. -/
theorem acceptsString_iff (s : Units) :
    acceptsString s = true ↔ (0 : UInt16) ∉ s ∧ Utf16.paired s = true := by
  rw [acceptsString, Utf16.paired, List.all_eq_true, List.all_eq_true, ← Utf16.zero_mem_codePoints]
  constructor
  · intro all
    refine ⟨fun mem => ?_, fun p mem => (Bool.and_eq_true_iff.mp (all p mem)).2⟩
    exact of_decide_eq_true (Bool.and_eq_true_iff.mp (all 0 mem)).1 rfl
  · rintro ⟨none, pairs⟩ p mem
    exact Bool.and_eq_true_iff.mpr ⟨decide_eq_true fun zero => none (zero ▸ mem), pairs p mem⟩

end Postgres
