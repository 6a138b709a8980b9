import OrderPlatform.Text.Grammar
import OrderPlatform.Text.Json
import OrderPlatform.Text.Numeral

/-!
# JSON in JavaScript

`JSON.stringify` and `JSON.parse` for strings of code units.  A string is written by its code
points; an unpaired surrogate is written as an escape, so the text that is written has none
(`paired_stringify`), and it comes back from the escape (`reads`).  The numbers that are written
here are integers; any numeral can be read, and becomes the nearest double.

No two values have one text (`stringify_injective`), not even outside of the process
(`decode_stringify_injective`).
-/

namespace JavaScript

open Utf16 (Units codePoints encode encodePoint isSurrogate)
open JsonText (Value Token Reader Reads Stops isDigit continuesNumeral startsNumeral)
open Double (Number)

/-- What `JSON.stringify` is given. -/
abbrev Json := Value Units ℤ

/-- What a text says, its numbers being those that the numerals name. -/
abbrev Read := Value Units ℚ

/-- What `JSON.parse` returns. -/
abbrev Parsed := Value Units Number

/-! ### Numerals -/

/-- The decimal numeral of a natural number. -/
def decimal (n : ℕ) : Units := (Nat.toDigits 10 n).map fun c => .ofNat c.toNat

/-- The numeral of an integer. -/
def integer : ℤ → Units
  | .ofNat n => decimal n
  | .negSucc n => 0x2d :: decimal (n + 1)

/-- The number that these digits name. -/
def natValue (digits : Units) : ℕ := digits.foldl (fun n u => 10 * n + (u.toNat - 0x30)) 0

/-- Digits without a superfluous leading zero: those that their own value is written as. -/
def scanInteger (us : Units) : Option (ℕ × Units) :=
  let digits := us.takeWhile isDigit
  if decimal (natValue digits) = digits then some (natValue digits, us.dropWhile isDigit) else none

/-- At least one digit. -/
def scanDigits (us : Units) : Option (Units × Units) :=
  let digits := us.takeWhile isDigit
  if digits = [] then none else some (digits, us.dropWhile isDigit)

/-- The digits behind a point, if there is one. -/
def scanFraction : Units → Option (Units × Units)
  | [] => some ([], [])
  | u :: rest => if u = 0x2e then scanDigits rest else some ([], u :: rest)

/-- Digits behind a sign, if there is one. -/
def scanSigned : Units → Option (ℤ × Units)
  | [] => none
  | sign :: digits =>
      if sign = 0x2d then (scanDigits digits).map fun x => (-(natValue x.1 : ℤ), x.2)
      else if sign = 0x2b then (scanDigits digits).map fun x => ((natValue x.1 : ℤ), x.2)
      else (scanDigits (sign :: digits)).map fun x => ((natValue x.1 : ℤ), x.2)

/-- The exponent behind its letter, if there is one. -/
def scanExponent : Units → Option (ℤ × Units)
  | [] => some (0, [])
  | u :: rest => if u = 0x65 ∨ u = 0x45 then scanSigned rest else some (0, u :: rest)

/-- A number without its sign: integer, fraction and exponent, as an exact rational. -/
def scanUnsigned (us : Units) : Option (ℚ × Units) :=
  (scanInteger us).bind fun n =>
    (scanFraction n.2).bind fun f =>
      (scanExponent f.2).map fun e =>
        (((n.1 * 10 ^ f.1.length + natValue f.1 : ℕ) : ℚ) * (10 : ℚ) ^ (e.1 - (f.1.length : ℤ)), e.2)

/-- The value that a numeral names, and what is left. -/
def scanNumeral : Units → Option (ℚ × Units)
  | [] => none
  | u :: rest =>
      if u = 0x2d then (scanUnsigned rest).map fun x => (-x.1, x.2) else scanUnsigned (u :: rest)

private theorem toNat_digit {c : Char} (digit : c.isDigit = true) :
    (UInt16.ofNat c.toNat).toNat = c.toNat ∧ 0x30 ≤ c.toNat ∧ c.toNat < 0x3a := by
  have range : 48 ≤ c.toNat ∧ c.toNat ≤ 57 := by
    simpa [Char.isDigit, UInt32.le_iff_toNat_le] using digit
  exact ⟨UInt16.toNat_ofNat_of_lt' (show c.toNat < 65536 by omega), by omega, by omega⟩

private theorem isDigit_of_mem_decimal {n : ℕ} : ∀ u ∈ decimal n, isDigit u = true := by
  intro u mem
  obtain ⟨c, digit, rfl⟩ := List.mem_map.mp mem
  obtain ⟨value, low, high⟩ := toNat_digit
    (Nat.isDigit_of_mem_toDigits (by decide) (by decide) digit)
  rw [isDigit, value]
  exact Bool.and_eq_true_iff.mpr ⟨decide_eq_true low, decide_eq_true high⟩

theorem natValue_decimal (n : ℕ) : natValue (decimal n) = n := by
  have digits : ∀ (cs : List Char) (start : ℕ), (∀ c ∈ cs, c.isDigit = true) →
      (cs.map fun c => UInt16.ofNat c.toNat).foldl (fun n u => 10 * n + (u.toNat - 0x30)) start =
        Nat.ofDigitChars 10 cs start := by
    intro cs
    induction cs with
    | nil => exact fun _ _ => rfl
    | cons c cs ih =>
        intro start all
        obtain ⟨digit, rest⟩ := List.forall_mem_cons.mp all
        rw [List.map_cons, List.foldl_cons, (toNat_digit digit).1, ih _ rest,
          Nat.ofDigitChars_cons]
        rfl
  refine (digits _ 0 fun c mem => ?_).trans (Nat.ofDigitChars_ten_toDigits)
  exact Nat.isDigit_of_mem_toDigits (by decide) (by decide) mem

theorem decimal_eq_cons (n : ℕ) : ∃ u us, decimal n = u :: us ∧ isDigit u = true := by
  have nonempty : decimal n ≠ [] := fun nil =>
    Nat.toDigits_ne_nil (List.map_eq_nil_iff.mp nil)
  obtain ⟨u, us, same⟩ := List.exists_cons_of_ne_nil nonempty
  exact ⟨u, us, same, isDigit_of_mem_decimal u (same ▸ List.mem_cons_self)⟩

private theorem isDigit_head {rest : Units} (stops : Stops rest) :
    ∀ u ∈ rest.head?, isDigit u = false := by
  intro u head
  have ends := stops u head
  simp only [continuesNumeral, startsNumeral, Bool.or_eq_false_iff] at ends
  exact ends.1.1.1.1.1

/-- A numeral is read up to its end. -/
theorem scanInteger_decimal (n : ℕ) {rest : Units} (stops : Stops rest) :
    scanInteger (decimal n ++ rest) = some (n, rest) := by
  have digits : (decimal n ++ rest).takeWhile isDigit = decimal n := by
    rw [List.takeWhile_append_of_pos isDigit_of_mem_decimal]
    cases rest with
    | nil => rw [List.takeWhile_nil, List.append_nil]
    | cons u rest =>
        rw [List.takeWhile_cons_of_neg (by rw [isDigit_head stops u rfl]; exact Bool.false_ne_true),
          List.append_nil]
  have left : (decimal n ++ rest).dropWhile isDigit = rest := by
    rw [List.dropWhile_append_of_pos isDigit_of_mem_decimal]
    cases rest with
    | nil => rfl
    | cons u rest =>
        rw [List.dropWhile_cons_of_neg (by rw [isDigit_head stops u rfl]; exact Bool.false_ne_true)]
  rw [scanInteger, digits, left, natValue_decimal, if_pos rfl]

private theorem ends_of_stops {u : UInt16} {rest : Units} (stops : Stops (u :: rest)) :
    u ≠ 0x2e ∧ u ≠ 0x65 ∧ u ≠ 0x45 := by
  have ends := stops u rfl
  refine ⟨?_, ?_, ?_⟩ <;> · rintro rfl; cases ends

private theorem scanUnsigned_decimal (n : ℕ) {rest : Units} (stops : Stops rest) :
    scanUnsigned (decimal n ++ rest) = some ((n : ℚ), rest) := by
  have fraction : scanFraction rest = some ([], rest) := by
    cases rest with
    | nil => rfl
    | cons u rest => rw [scanFraction, if_neg (ends_of_stops stops).1]
  have exponent : scanExponent rest = some (0, rest) := by
    cases rest with
    | nil => rfl
    | cons u rest =>
        rw [scanExponent, if_neg]
        rintro (e | e)
        · exact (ends_of_stops stops).2.1 e
        · exact (ends_of_stops stops).2.2 e
  rw [scanUnsigned, scanInteger_decimal n stops, Option.bind_some, fraction, Option.bind_some,
    exponent]
  simp [natValue]

/-- **A numeral is read as the integer that it was written for.** -/
theorem scanNumeral_integer (n : ℤ) {rest : Units} (stops : Stops rest) :
    scanNumeral (integer n ++ rest) = some ((n : ℚ), rest) := by
  cases n with
  | ofNat n =>
      have unsigned := scanUnsigned_decimal n stops
      obtain ⟨u, us, first, digit⟩ := decimal_eq_cons n
      rw [first, List.cons_append] at unsigned
      rw [integer, first, List.cons_append, scanNumeral, if_neg, unsigned]
      · rfl
      · rintro rfl
        cases digit
  | negSucc n =>
      rw [integer, List.cons_append, scanNumeral, if_pos rfl, scanUnsigned_decimal (n + 1) stops,
        Int.cast_negSucc]
      rfl

/-! ### Strings -/

/-- A lower-case hexadecimal digit. -/
def hexDigit (n : ℕ) : UInt16 := .ofNat (if n < 10 then 0x30 + n else 0x57 + n)

/-- `UnicodeEscape`. -/
def unicodeEscape (p : ℕ) : Units :=
  [0x5c, 0x75, hexDigit (p / 0x1000 % 16), hexDigit (p / 0x100 % 16), hexDigit (p / 16 % 16),
    hexDigit (p % 16)]

/-- A code point inside of a string literal, as `QuoteJSONString` writes it. -/
def escapePoint (p : ℕ) : Units :=
  if p = 0x08 then [0x5c, 0x62]
  else if p = 0x09 then [0x5c, 0x74]
  else if p = 0x0a then [0x5c, 0x6e]
  else if p = 0x0c then [0x5c, 0x66]
  else if p = 0x0d then [0x5c, 0x72]
  else if p = 0x22 then [0x5c, 0x22]
  else if p = 0x5c then [0x5c, 0x5c]
  else if p < 0x20 ∨ isSurrogate p = true then unicodeEscape p
  else encodePoint p

/-- What stands behind the opening quote of a string literal. -/
def inside (s : Units) : Units := (codePoints s).flatMap escapePoint ++ [0x22]

/-- The value of a hexadecimal digit in either case. -/
def hexValue (u : UInt16) : Option ℕ :=
  if 0x30 ≤ u.toNat ∧ u.toNat < 0x3a then some (u.toNat - 0x30)
  else if 0x61 ≤ u.toNat ∧ u.toNat < 0x67 then some (u.toNat - 0x57)
  else if 0x41 ≤ u.toNat ∧ u.toNat < 0x47 then some (u.toNat - 0x37)
  else none

/-- The code unit named by four hexadecimal digits. -/
def hexUnit (a b c d : UInt16) : Option UInt16 := do
  return .ofNat (0x1000 * (← hexValue a) + 0x100 * (← hexValue b) + 16 * (← hexValue c) +
    (← hexValue d))

/-- The code unit named by a one-letter escape. -/
def letterEscape (u : UInt16) : Option UInt16 :=
  if u = 0x22 then some 0x22
  else if u = 0x5c then some 0x5c
  else if u = 0x2f then some 0x2f
  else if u = 0x62 then some 0x08
  else if u = 0x66 then some 0x0c
  else if u = 0x6e then some 0x0a
  else if u = 0x72 then some 0x0d
  else if u = 0x74 then some 0x09
  else none

/-- The string of a literal up to its closing quote, and what is left.  The units of a string are
read one by one. -/
def scanString : Units → Option (Units × Units)
  | [] => none
  | u :: rest =>
      if u = 0x22 then some ([], rest)
      else if u = 0x5c then
        match rest with
        | 0x75 :: a :: b :: c :: d :: rest =>
            (hexUnit a b c d).bind fun v => (scanString rest).map fun x => (v :: x.1, x.2)
        | e :: rest =>
            (letterEscape e).bind fun v => (scanString rest).map fun x => (v :: x.1, x.2)
        | [] => none
      else if u.toNat < 0x20 then none
      else (scanString rest).map fun x => (u :: x.1, x.2)

private theorem hexValue_hexDigit : ∀ n < 16, hexValue (hexDigit n) = some n := by decide

/-- The four digits of a code unit name it. -/
theorem hexUnit_hexDigit {p : ℕ} (unit : p < 0x10000) :
    hexUnit (hexDigit (p / 0x1000 % 16)) (hexDigit (p / 0x100 % 16)) (hexDigit (p / 16 % 16))
      (hexDigit (p % 16)) = some (.ofNat p) := by
  have value : 0x1000 * (p / 0x1000 % 16) + 0x100 * (p / 0x100 % 16) + 16 * (p / 16 % 16) +
      p % 16 = p := by omega
  simp only [hexUnit, hexValue_hexDigit _ (Nat.mod_lt _ (by decide : 0 < 16)), Option.bind_eq_bind,
    Option.bind_some]
  rw [value]
  rfl

/-- How a literal is scanned, escapes by hexadecimal digits apart. -/
structure Scans (scan : Units → Option (Units × Units)) : Prop where
  quote : ∀ rest, scan (0x22 :: rest) = some ([], rest)
  letter : ∀ e v, letterEscape e = some v → ∀ rest,
    scan (0x5c :: e :: rest) = (scan rest).map fun x => (v :: x.1, x.2)
  plain : ∀ u : UInt16, 0x20 ≤ u.toNat → u ≠ 0x22 → u ≠ 0x5c → ∀ rest,
    scan (u :: rest) = (scan rest).map fun x => (u :: x.1, x.2)

section

variable {scan : Units → Option (Units × Units)}

private theorem Scans.encodePoint (scans : Scans scan) {p : ℕ} (inRange : p < 0x110000)
    (visible : 0x20 ≤ p) (quote : p ≠ 0x22) (backslash : p ≠ 0x5c) (rest : Units) :
    scan (encodePoint p ++ rest) = (scan rest).map fun x => (encodePoint p ++ x.1, x.2) := by
  have plain : ∀ n, 0x20 ≤ n → n < 0x10000 → n ≠ 0x22 → n ≠ 0x5c → ∀ rest,
      scan (.ofNat n :: rest) = (scan rest).map fun x => (.ofNat n :: x.1, x.2) := by
    intro n low high quote backslash rest
    have value : (UInt16.ofNat n).toNat = n := UInt16.toNat_ofNat_of_lt' high
    refine scans.plain _ (by rw [value]; exact low) ?_ ?_ rest
    · exact fun same => quote (value.symm.trans (congrArg UInt16.toNat same))
    · exact fun same => backslash (value.symm.trans (congrArg UInt16.toNat same))
  unfold Utf16.encodePoint
  split
  · rename_i basic
    exact plain p visible basic quote backslash rest
  · rw [List.cons_append, List.singleton_append, plain _ (by omega) (by omega) (by omega) (by omega),
      plain _ (by omega) (by omega) (by omega) (by omega), Option.map_map]
    rfl

/-- An escape is scanned as the code point that it stands for, if one by hexadecimal digits is. -/
theorem Scans.escapePoint (scans : Scans scan) {p : ℕ} (inRange : p < 0x110000)
    (unicode : p < 0x20 ∨ isSurrogate p = true → ∀ rest, scan (unicodeEscape p ++ rest) =
      (scan rest).map fun x => (.ofNat p :: x.1, x.2)) (rest : Units) :
    scan (escapePoint p ++ rest) =
      (scan rest).map fun x => (Utf16.encodePoint p ++ x.1, x.2) := by
  unfold JavaScript.escapePoint
  split_ifs with backspace tab newline feed return_ quote backslash escaped
  · subst backspace
    exact scans.letter _ _ rfl rest
  · subst tab
    exact scans.letter _ _ rfl rest
  · subst newline
    exact scans.letter _ _ rfl rest
  · subst feed
    exact scans.letter _ _ rfl rest
  · subst return_
    exact scans.letter _ _ rfl rest
  · subst quote
    exact scans.letter _ _ rfl rest
  · subst backslash
    exact scans.letter _ _ rfl rest
  · have unit : p < 0x10000 := by
      rcases escaped with low | surrogate
      · omega
      · simp only [isSurrogate, Bool.and_eq_true, decide_eq_true_eq] at surrogate
        omega
    rw [unicode escaped, Utf16.encodePoint, if_pos unit]
    rfl
  · exact scans.encodePoint inRange (by omega) quote backslash rest

end

/-! ### Scanning what was written -/

theorem scans : Scans scanString where
  quote rest := (scanString.eq_def _).trans (if_pos rfl)
  letter e v letter rest := by
    have other : e ≠ 0x75 := by
      rintro rfl
      cases letter
    rw [scanString.eq_def]
    simp [letter, other]
  plain u visible quote backslash rest := by
    rw [scanString.eq_def]
    simp only [if_neg quote, if_neg backslash, if_neg (Nat.not_lt.mpr visible)]

/-- An escape is scanned as the code point that it stands for. -/
theorem scanString_escapePoint {p : ℕ} (inRange : p < 0x110000) (rest : Units) :
    scanString (escapePoint p ++ rest) =
      (scanString rest).map fun x => (encodePoint p ++ x.1, x.2) := by
  refine scans.escapePoint inRange (fun escaped rest => ?_) rest
  have unit : p < 0x10000 := by
    rcases escaped with low | surrogate
    · omega
    · simp only [isSurrogate, Bool.and_eq_true, decide_eq_true_eq] at surrogate
      omega
  show (hexUnit _ _ _ _).bind _ = _
  rw [hexUnit_hexDigit unit]
  rfl

/-- **A literal is read as the string that it was written for.** -/
theorem scanString_inside (s rest : Units) : scanString (inside s ++ rest) = some (s, rest) := by
  have points : ∀ ps : List ℕ, (∀ p ∈ ps, p < 0x110000) →
      scanString (ps.flatMap escapePoint ++ ([0x22] ++ rest)) = some (encode ps, rest) := by
    intro ps
    induction ps with
    | nil => exact fun _ => scans.quote rest
    | cons p ps ih =>
        intro inRange
        obtain ⟨first, others⟩ := List.forall_mem_cons.mp inRange
        rw [List.flatMap_cons, List.append_assoc, scanString_escapePoint first, ih others]
        rfl
  rw [inside, List.append_assoc, points _ Utf16.codePoint_lt, Utf16.encode_codePoints]

/-! ### `JSON.stringify` and `JSON.parse` -/

/-- The strings and integers that `JSON.stringify` writes. -/
def writer : JsonText.Writer Units ℤ := ⟨inside, integer⟩

/-- The strings and numbers that `JSON.parse` reads. -/
def reader : Reader Units ℚ := ⟨scanString, scanNumeral⟩

/-- `JSON.stringify`. -/
def stringify (v : Json) : Units := writer.stringify v

/-- A text as it is read, each number being the one that its numeral names. -/
def read (text : Units) : Option Read := reader.read text

/-- `JSON.parse`; `none` is a `SyntaxError`. -/
def parse (text : Units) : Option Parsed := (read text).map (Value.map Double.round)

/-- The double that an integer is read as. -/
def number (n : ℤ) : Number := Double.round n

/-- The same texts are accepted, whether numbers become doubles or not. -/
theorem isSome_parse (text : Units) : (parse text).isSome = (read text).isSome := Option.isSome_map

/-- What is written is read back. -/
theorem reads : Reads writer reader (fun _ => true) (fun n : ℤ => (n : ℚ)) where
  string := scanString_inside
  number n _ stops := scanNumeral_integer n stops
  starts n := by
    cases n with
    | ofNat n =>
        obtain ⟨u, us, first, digit⟩ := decimal_eq_cons n
        exact ⟨u, us, first, by rw [startsNumeral, digit, Bool.true_or]⟩
    | negSucc n => exact ⟨_, _, rfl, rfl⟩

theorem accepted_true (v : Json) : v.accepted (fun _ => true) = true :=
  List.all_eq_true.mpr fun t _ => by cases t <;> rfl

/-- **`JSON.parse` of a text, wherever its blanks stand**, is the value that it was written for. -/
theorem parse_laid {v : Json} {text : Units} (laid : writer.Laid v.tokens text) :
    parse text = some (v.map number) := by
  have read : read text = some (v.map fun n : ℤ => (n : ℚ)) :=
    (JsonText.read_laid reads laid).trans (if_pos (accepted_true v))
  rw [parse, read, Option.map_some, JsonText.map_map]
  rfl

theorem parse_stringify (v : Json) : parse (stringify v) = some (v.map number) :=
  parse_laid (JsonText.laid_stringify v)

theorem read_stringify (v : Json) : read (stringify v) = some (v.map fun n : ℤ => (n : ℚ)) :=
  (JsonText.read_stringify reads v).trans (if_pos (accepted_true v))

/-- **No two values have one text.** -/
theorem stringify_injective : Function.Injective stringify := by
  intro v w same
  have values := (read_stringify v).symm.trans ((congrArg _ same).trans (read_stringify w))
  exact JsonText.map_injective Int.cast_injective (Option.some.inj values)

/-! ### Outside of the process -/

/-- Units that are no surrogates. -/
theorem paired_of_plain {s : Units} (plain : ∀ u ∈ s, Utf16.isSurrogate u.toNat = false) :
    Utf16.paired s = true := by
  have points : codePoints s = s.map UInt16.toNat := by
    induction s with
    | nil => rfl
    | cons u s ih =>
        obtain ⟨first, others⟩ := List.forall_mem_cons.mp plain
        have notHigh : Utf16.isHigh u = false := by
          simp only [isSurrogate, Utf16.isHigh, Bool.and_eq_false_iff, decide_eq_false_iff_not]
            at first ⊢
          omega
        rw [Utf16.codePoints_cons notHigh, ih others, List.map_cons]
  rw [Utf16.paired, points, List.all_map, List.all_eq_true]
  intro u mem
  exact congrArg (!·) (plain u mem)

private theorem plain_hexDigit : ∀ n < 16, Utf16.isSurrogate (hexDigit n).toNat = false := by decide

private theorem paired_unicodeEscape (p : ℕ) : Utf16.paired (unicodeEscape p) = true := by
  have digit : ∀ n, Utf16.isSurrogate (hexDigit (n % 16)).toNat = false := fun n =>
    plain_hexDigit _ (Nat.mod_lt n (by decide))
  refine paired_of_plain ?_
  simp only [unicodeEscape, List.forall_mem_cons]
  exact ⟨rfl, rfl, digit _, digit _, digit _, digit _, fun _ mem => nomatch mem⟩

private theorem paired_encodePoint {p : ℕ} (inRange : p < 0x110000)
    (plain : isSurrogate p = false) : Utf16.paired (encodePoint p) = true := by
  refine Utf16.paired_iff.mpr ⟨[Utf16.pointChar p], ?_⟩
  rw [Utf16.units, List.map_singleton, Utf16.toNat_pointChar inRange plain, encode,
    List.flatMap_singleton]

private theorem paired_escapePoint {p : ℕ} (inRange : p < 0x110000) :
    Utf16.paired (escapePoint p) = true := by
  unfold escapePoint
  split_ifs with backspace tab newline feed return_ quote backslash escaped
  · rfl
  · rfl
  · rfl
  · rfl
  · rfl
  · rfl
  · rfl
  · exact paired_unicodeEscape p
  · rw [not_or, Bool.not_eq_true] at escaped
    exact paired_encodePoint inRange escaped.2

theorem paired_flatMap {α : Type} {f : α → Units} {l : List α}
    (pairs : ∀ a ∈ l, Utf16.paired (f a) = true) : Utf16.paired (l.flatMap f) = true := by
  induction l with
  | nil => rfl
  | cons a l ih =>
      obtain ⟨first, others⟩ := List.forall_mem_cons.mp pairs
      rw [List.flatMap_cons]
      exact Utf16.paired_append first (ih others)

theorem paired_inside (s : Units) : Utf16.paired (inside s) = true :=
  Utf16.paired_append (paired_flatMap fun p mem => paired_escapePoint (Utf16.codePoint_lt p mem)) rfl

theorem paired_decimal (n : ℕ) : Utf16.paired (decimal n) = true := by
  refine paired_of_plain fun u mem => ?_
  have digit := isDigit_of_mem_decimal u mem
  simp only [isDigit, isSurrogate, Bool.and_eq_true, decide_eq_true_eq, Bool.and_eq_false_iff,
    decide_eq_false_iff_not] at digit ⊢
  omega

/-- **A written text has no unpaired surrogate.** -/
theorem paired_stringify (v : Json) : Utf16.paired (stringify v) = true := by
  refine paired_flatMap fun t _ => ?_
  cases t with
  | num n =>
      cases n with
      | ofNat n => exact paired_decimal n
      | negSucc n => exact Utf16.paired_append (s := [0x2d]) rfl (paired_decimal (n + 1))
  | str s => exact Utf16.paired_append (s := [0x22]) rfl (paired_inside s)
  | bool b => cases b <;> rfl
  | _ => rfl

/-- **No two values have one text outside of the process.** -/
theorem decode_stringify_injective : Function.Injective fun v => Utf16.decode (stringify v) := by
  intro v w same
  exact stringify_injective (Utf16.decode_injective (paired_stringify v) (paired_stringify w) same)

/-! ### Values whose strings are texts -/

mutual

/-- The value in JavaScript, its strings as code units. -/
def ofJson : Text.Json → Json
  | .null => .null
  | .bool b => .bool b
  | .num n => .num n
  | .str s => .str (Utf16.units s.toList)
  | .arr items => .arr (ofItems items)
  | .obj fields => .obj (ofFields fields)

/-- The elements of an array in code units. -/
def ofItems : Text.Items → JsonText.Values Units ℤ
  | .nil => .nil
  | .cons v rest => .cons (ofJson v) (ofItems rest)

/-- The members of an object in code units. -/
def ofFields : Text.Fields → JsonText.Members Units ℤ
  | .nil => .nil
  | .cons k v rest => .cons (Utf16.units k.toList) (ofJson v) (ofFields rest)

end

private theorem units_singleton (c : Char) : Utf16.units [c] = encodePoint c.toNat :=
  List.append_nil _

/-- A character is written in the same way as a character and as a code point. -/
theorem units_escapeChar (c : Char) : Utf16.units (Text.escapeChar c) = escapePoint c.toNat := by
  by_cases control : c.toNat < 32
  · have all : ∀ n < 32, Utf16.units (Text.escapeChar (Char.ofNat n)) = escapePoint n := by decide
    have here := all c.toNat control
    rwa [Char.ofNat_toNat] at here
  · have other : ∀ d : Char, d.toNat < 32 → c ≠ d := by
      rintro d low rfl
      exact control low
    unfold Text.escapeChar escapePoint
    by_cases quote : c = '"'
    · subst quote
      rfl
    · by_cases backslash : c = '\\'
      · subst backslash
        rfl
      · have notQuote : c.toNat ≠ 0x22 := fun same => quote (Char.toNat_inj.mp same)
        have notBackslash : c.toNat ≠ 0x5c := fun same => backslash (Char.toNat_inj.mp same)
        rw [if_neg quote, if_neg backslash, if_neg (other '\n' (by decide)),
          if_neg (other '\r' (by decide)), if_neg (other '\t' (by decide)),
          if_neg (other '\x08' (by decide)), if_neg (other '\x0c' (by decide)), if_neg control,
          if_neg (by omega), if_neg (by omega), if_neg (by omega), if_neg (by omega),
          if_neg (by omega), if_neg notQuote, if_neg notBackslash, if_neg]
        · exact units_singleton c
        · rintro (low | surrogate)
          · exact control low
          · rw [Utf16.isSurrogate_toNat] at surrogate
            exact Bool.false_ne_true surrogate

theorem units_quote (s : String) :
    Utf16.units (Text.quote s) = 0x22 :: inside (Utf16.units s.toList) := by
  have chars : ∀ cs : List Char, Utf16.units (Text.escape cs) =
      (cs.map Char.toNat).flatMap escapePoint := by
    intro cs
    induction cs with
    | nil => rfl
    | cons c cs ih =>
        rw [Text.escape, List.flatMap_cons, Utf16.units_append, units_escapeChar]
        exact congrArg (escapePoint c.toNat ++ ·) ih
  rw [Text.quote, inside, Utf16.codePoints_units]
  exact congrArg (0x22 :: ·) ((Utf16.units_append _ _).trans (congrArg (· ++ [0x22]) (chars _)))

private theorem units_digits (n : ℕ) : Utf16.units (Nat.toDigits 10 n) = decimal n := by
  have single : ∀ c ∈ Nat.toDigits 10 n, encodePoint c.toNat = [UInt16.ofNat c.toNat] := by
    intro c mem
    have small := toNat_digit (Nat.isDigit_of_mem_toDigits (by decide) (by decide) mem)
    exact if_pos (by omega)
  rw [Utf16.units, encode, List.flatMap_map, List.flatMap_congr single]
  exact List.flatMap_pure_eq_map _ _

private theorem units_intChars (n : ℤ) : Utf16.units (Text.intChars n) = integer n := by
  cases n with
  | ofNat n => exact units_digits n
  | negSucc n => exact congrArg (0x2d :: ·) (units_digits (n + 1))

private theorem units_member (k : String) (v : Text.Json) (rest : Text.Fields) :
    Utf16.units (Text.quote k ++ ([':'] ++ (v.chars ++ rest.tailChars))) =
      (0x22 :: inside (Utf16.units k.toList)) ++
        (0x3a :: (Utf16.units v.chars ++ Utf16.units rest.tailChars)) := by
  rw [Utf16.units_append, Utf16.units_append, Utf16.units_append, units_quote]
  rfl

private theorem stringify_member (k : Units) (v : Json) (rest : List (Token Units ℤ)) :
    (0x22 :: inside k) ++ (0x3a :: (stringify v ++ rest.flatMap writer.text)) =
      (.str k :: .colon :: (v.tokens ++ rest)).flatMap writer.text := by
  rw [List.flatMap_cons, List.flatMap_cons, List.flatMap_append]
  rfl

mutual

/-- **A value whose strings are texts is written as the text that it was known by.** -/
theorem units_chars : ∀ v : Text.Json, Utf16.units v.chars = stringify (ofJson v)
  | .null => rfl
  | .bool true => rfl
  | .bool false => rfl
  | .num n => (units_intChars n).trans (List.append_nil _).symm
  | .str s => (units_quote s).trans (List.append_nil _).symm
  | .arr .nil => rfl
  | .obj .nil => rfl
  | .arr (.cons v rest) => by
      show 0x5b :: Utf16.units (v.chars ++ rest.tailChars) = _
      rw [Utf16.units_append, units_chars v, units_tailChars rest]
      exact congrArg (0x5b :: ·) List.flatMap_append.symm
  | .obj (.cons k v rest) => by
      show 0x7b :: Utf16.units (Text.quote k ++ ([':'] ++ (v.chars ++ rest.tailChars))) = _
      rw [units_member k v rest, units_chars v, units_tailChars' rest, stringify_member]
      rfl

theorem units_tailChars : ∀ items : Text.Items,
    Utf16.units items.tailChars = (ofItems items).tailTokens.flatMap writer.text
  | .nil => rfl
  | .cons v rest => by
      show 0x2c :: Utf16.units (v.chars ++ rest.tailChars) = _
      rw [Utf16.units_append, units_chars v, units_tailChars rest]
      exact congrArg (0x2c :: ·) List.flatMap_append.symm

theorem units_tailChars' : ∀ fields : Text.Fields,
    Utf16.units fields.tailChars = (ofFields fields).tailTokens.flatMap writer.text
  | .nil => rfl
  | .cons k v rest => by
      show 0x2c :: Utf16.units (Text.quote k ++ ([':'] ++ (v.chars ++ rest.tailChars))) = _
      rw [units_member k v rest, units_chars v, units_tailChars' rest, stringify_member]
      rfl

end

/-! ### What is read of a text -/

/-- The value as it is read. -/
def asRead (v : Text.Json) : Read := (ofJson v).map fun n : ℤ => (n : ℚ)

/-- **What was written is read back.** -/
theorem read_text (v : Text.Json) : read (Utf16.units v.stringify.toList) = some (asRead v) := by
  rw [Text.Json.stringify, String.toList_ofList, units_chars, read_stringify, asRead]

private theorem lit_inj {k key : String} : Utf16.units k.toList = Utf16.lit key ↔ k = key :=
  Utf16.units_injective.eq_iff.trans String.toList_inj

private theorem get?_ofFields (key : String) : ∀ fields : Text.Fields,
    ((ofFields fields).map fun n : ℤ => (n : ℚ)).get? (Utf16.lit key) =
      (fields.get? key).map asRead
  | .nil => rfl
  | .cons k v rest => by
      rw [ofFields, JsonText.Members.map, JsonText.Members.get?_cons, get?_ofFields key rest,
        Text.Fields.get?]
      cases rest.get? key with
      | some w => rfl
      | none =>
          rw [Option.map_none, Option.none_or, if_congr lit_inj rfl rfl]
          by_cases same : k = key
          · rw [if_pos same, if_pos same]
            rfl
          · rw [if_neg same, if_neg same]
            rfl

/-- A property of the value. -/
theorem get?_asRead (v : Text.Json) (key : String) :
    (asRead v).get? (Utf16.lit key) = (v.get? key).map asRead := by
  cases v with
  | obj fields => exact get?_ofFields key fields
  | _ => rfl

mutual

/-- A value as `Text.Json` shows it, which has neither fractions nor unpaired surrogates: a number
that is no integer is shown by its text, and an unpaired surrogate as the replacement character. -/
def toJson : Read → Text.Json
  | .null => .null
  | .bool b => .bool b
  | .num q => if q.den = 1 then .num q.num else .str (Double.round q).text
  | .str s => .str (.ofList (Utf16.decode s))
  | .arr items => .arr (toItems items)
  | .obj members => .obj (toFields members)

/-- The elements of an array as texts. -/
def toItems : JsonText.Values Units ℚ → Text.Items
  | .nil => .nil
  | .cons v rest => .cons (toJson v) (toItems rest)

/-- The members of an object as texts. -/
def toFields : JsonText.Members Units ℚ → Text.Fields
  | .nil => .nil
  | .cons k v rest => .cons (.ofList (Utf16.decode k)) (toJson v) (toFields rest)

end

private theorem decode_text (s : String) : String.ofList (Utf16.decode (Utf16.units s.toList)) = s := by
  rw [Utf16.decode_units, String.ofList_toList]

mutual

/-- **A value that `Text.Json` has is shown as what it is.** -/
theorem toJson_asRead : ∀ v : Text.Json, toJson (asRead v) = v
  | .null => rfl
  | .bool _ => rfl
  | .num _ => rfl
  | .str s => congrArg Text.Json.str (decode_text s)
  | .arr items => congrArg Text.Json.arr (toItems_ofItems items)
  | .obj fields => congrArg Text.Json.obj (toFields_ofFields fields)

theorem toItems_ofItems : ∀ items : Text.Items,
    toItems ((ofItems items).map fun n : ℤ => (n : ℚ)) = items
  | .nil => rfl
  | .cons v rest => congrArg₂ Text.Items.cons (toJson_asRead v) (toItems_ofItems rest)

theorem toFields_ofFields : ∀ fields : Text.Fields,
    toFields ((ofFields fields).map fun n : ℤ => (n : ℚ)) = fields
  | .nil => rfl
  | .cons k v rest => by
      have key := decode_text k
      have value := toJson_asRead v
      have others := toFields_ofFields rest
      simp only [ofFields, JsonText.Members.map, toFields, key, others]
      exact congrArg (Text.Fields.cons k · rest) value

end

theorem asRead_injective : Function.Injective asRead := Function.LeftInverse.injective toJson_asRead

end JavaScript
