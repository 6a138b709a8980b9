import Mathlib.Data.Int.Notation
import Mathlib.Data.Nat.Notation
import Mathlib.Data.List.Basic
import Mathlib.Tactic.Common

/-!
# JSON texts

`Json` is the type of the values that survive `JSON.stringify`: no `undefined`, no functions,
dates already turned into strings.  Numbers are integers; nothing that is written with this
module has a fractional part or an exponent.

`Json.stringify` writes a value without blanks, with the escapes that `JSON.stringify` uses,
and `Json.parse` reads a text, blanks allowed, with the grammar of `JSON.parse` restricted to
integers and to escapes that denote a character (an escaped surrogate is rejected: characters
beyond the basic plane are written as they are, so no text written here has one).

The one theorem is `Json.parse_stringify`: reading what was written gives the value back.  It
rests on `parseValue_chars`, the same statement with an arbitrary text behind the value, which
is proved by the three-fold recursion of the value itself.
-/

namespace Text

mutual

/-- A JSON value. -/
inductive Json
  | null
  | bool (b : Bool)
  | num (n : ℤ)
  | str (s : String)
  | arr (items : Items)
  | obj (fields : Fields)
  deriving DecidableEq

/-- The elements of an array. -/
inductive Items
  | nil
  | cons (head : Json) (tail : Items)
  deriving DecidableEq

/-- The properties of an object, in the order in which they were defined. -/
inductive Fields
  | nil
  | cons (key : String) (value : Json) (tail : Fields)
  deriving DecidableEq

end

namespace Items

/-- The elements of an array. -/
def ofList : List Json → Items
  | [] => nil
  | v :: rest => cons v (ofList rest)

/-- The elements of an array as a list. -/
def toList : Items → List Json
  | nil => []
  | cons v rest => v :: rest.toList

@[simp] theorem toList_ofList (vs : List Json) : (ofList vs).toList = vs := by
  induction vs with
  | nil => rfl
  | cons v rest ih => simp [ofList, toList, ih]

end Items

namespace Fields

/-- The members of an object, in their order. -/
def ofList : List (String × Json) → Fields
  | [] => nil
  | (k, v) :: rest => cons k v (ofList rest)

/-- The value of a property; when a key was given twice the last value counts. -/
def get? (key : String) : Fields → Option Json
  | nil => none
  | cons k v rest =>
      match rest.get? key with
      | some w => some w
      | none => if k = key then some v else none

end Fields

namespace Json

/-- `{ k₁: v₁, k₂: v₂, … }`. -/
def object (fields : List (String × Json)) : Json := .obj (.ofList fields)

/-- `[v₁, v₂, …]`. -/
def array (items : List Json) : Json := .arr (.ofList items)

/-- `value.key`; `none` is `undefined`. -/
def get? (key : String) : Json → Option Json
  | .obj fields => fields.get? key
  | _ => none

/-- A value of which `typeof` is `"string"`. -/
def string? : Option Json → Option String
  | some (.str s) => some s
  | _ => none

end Json

/-! ## Writing -/

/-- A lower-case hexadecimal digit. -/
def hexDigit (n : ℕ) : Char := Nat.digitChar n

/-- A character inside a string literal. -/
def escapeChar (c : Char) : List Char :=
  if c = '"' then ['\\', '"']
  else if c = '\\' then ['\\', '\\']
  else if c = '\n' then ['\\', 'n']
  else if c = '\r' then ['\\', 'r']
  else if c = '\t' then ['\\', 't']
  else if c = '\x08' then ['\\', 'b']
  else if c = '\x0c' then ['\\', 'f']
  else if c.toNat < 32 then ['\\', 'u', '0', '0', hexDigit (c.toNat / 16), hexDigit (c.toNat % 16)]
  else [c]

/-- A text with the escapes of `JSON.stringify`. -/
def escape (s : List Char) : List Char := s.flatMap escapeChar

/-- A text in quotes. -/
def quote (s : String) : List Char := '"' :: (escape s.toList ++ ['"'])

/-- A decimal integer. -/
def intChars : ℤ → List Char
  | .ofNat n => Nat.toDigits 10 n
  | .negSucc n => '-' :: Nat.toDigits 10 (n + 1)

mutual

/-- `JSON.stringify` without any blanks. -/
def Json.chars : Json → List Char
  | .null => ['n', 'u', 'l', 'l']
  | .bool true => ['t', 'r', 'u', 'e']
  | .bool false => ['f', 'a', 'l', 's', 'e']
  | .num n => intChars n
  | .str s => quote s
  | .arr .nil => ['[', ']']
  | .arr (.cons v rest) => '[' :: (v.chars ++ rest.tailChars)
  | .obj .nil => ['{', '}']
  | .obj (.cons k v rest) => '{' :: (quote k ++ ':' :: (v.chars ++ rest.tailChars))

/-- The elements after the first one, and the closing bracket. -/
def Items.tailChars : Items → List Char
  | .nil => [']']
  | .cons v rest => ',' :: (v.chars ++ rest.tailChars)

/-- The properties after the first one, and the closing brace. -/
def Fields.tailChars : Fields → List Char
  | .nil => ['}']
  | .cons k v rest => ',' :: (quote k ++ ':' :: (v.chars ++ rest.tailChars))

end

/-- `JSON.stringify`. -/
def Json.stringify (v : Json) : String := String.ofList v.chars

/-! ## Reading -/

/-- The four characters that may stand between tokens. -/
def isBlank (c : Char) : Bool := c = ' ' || c = '\n' || c = '\r' || c = '\t'

/-- The text after its blanks. -/
def skipBlanks (cs : List Char) : List Char := cs.dropWhile isBlank

/-- The value of a hexadecimal digit in either case. -/
def hexValue (c : Char) : Option ℕ :=
  if '0' ≤ c ∧ c ≤ '9' then some (c.toNat - 48)
  else if 'a' ≤ c ∧ c ≤ 'f' then some (c.toNat - 87)
  else if 'A' ≤ c ∧ c ≤ 'F' then some (c.toNat - 55)
  else none

/-- The character named by four hexadecimal digits. -/
def unicodeEscape (a b c d : Char) : Option Char := do
  let n := 4096 * (← hexValue a) + 256 * (← hexValue b) + 16 * (← hexValue c) + (← hexValue d)
  if n.isValidChar then some (Char.ofNat n) else none

/-- The character named by a one-letter escape. -/
def simpleEscape : Char → Option Char
  | '"' => some '"'
  | '\\' => some '\\'
  | '/' => some '/'
  | 'n' => some '\n'
  | 'r' => some '\r'
  | 't' => some '\t'
  | 'b' => some '\x08'
  | 'f' => some '\x0c'
  | _ => none

/-- The inside of a string literal, up to and including the closing quote. -/
def parseString : List Char → Option (List Char × List Char)
  | '"' :: rest => some ([], rest)
  | '\\' :: 'u' :: a :: b :: c :: d :: rest =>
      (unicodeEscape a b c d).bind fun ch =>
        (parseString rest).map fun x => (ch :: x.1, x.2)
  | '\\' :: e :: rest =>
      (simpleEscape e).bind fun ch =>
        (parseString rest).map fun x => (ch :: x.1, x.2)
  | c :: rest =>
      if c.toNat < 32 ∨ c = '\\' then none
      else (parseString rest).map fun x => (c :: x.1, x.2)
  | [] => none

/-- A run of digits without a superfluous leading zero: one that its own value is written as. -/
def scanNat (cs : List Char) : Option (ℕ × List Char) :=
  let digits := cs.takeWhile Char.isDigit
  let n := Nat.ofDigitChars 10 digits 0
  if Nat.toDigits 10 n = digits then some (n, cs.dropWhile Char.isDigit) else none

/-- An integer at the front of a text, and what follows it. -/
def scanInt : List Char → Option (ℤ × List Char)
  | '-' :: rest => (scanNat rest).map fun x => (-(x.1 : ℤ), x.2)
  | cs => (scanNat cs).map fun x => ((x.1 : ℤ), x.2)

mutual

/-- A value at the front of a text; each level of nesting and each element takes one unit of
fuel. -/
def parseValue : ℕ → List Char → Option (Json × List Char)
  | 0, _ => none
  | fuel + 1, cs =>
      match skipBlanks cs with
      | 'n' :: 'u' :: 'l' :: 'l' :: rest => some (.null, rest)
      | 't' :: 'r' :: 'u' :: 'e' :: rest => some (.bool true, rest)
      | 'f' :: 'a' :: 'l' :: 's' :: 'e' :: rest => some (.bool false, rest)
      | '"' :: rest => (parseString rest).map fun x => (.str (.ofList x.1), x.2)
      | '[' :: rest =>
          match skipBlanks rest with
          | ']' :: rest => some (.arr .nil, rest)
          | rest =>
              (parseValue fuel rest).bind fun x =>
                (parseItems fuel x.2).map fun y => (.arr (.cons x.1 y.1), y.2)
      | '{' :: rest =>
          match skipBlanks rest with
          | '}' :: rest => some (.obj .nil, rest)
          | rest =>
              (parseProperty fuel rest).bind fun x =>
                (parseFields fuel x.2.2).map fun y => (.obj (.cons x.1 x.2.1 y.1), y.2)
      | cs => (scanInt cs).map fun x => (.num x.1, x.2)

/-- The rest of an array after one of its elements. -/
def parseItems : ℕ → List Char → Option (Items × List Char)
  | 0, _ => none
  | fuel + 1, cs =>
      match skipBlanks cs with
      | ']' :: rest => some (.nil, rest)
      | ',' :: rest =>
          (parseValue fuel rest).bind fun x =>
            (parseItems fuel x.2).map fun y => (.cons x.1 y.1, y.2)
      | _ => none

/-- The rest of an object after one of its members. -/
def parseFields : ℕ → List Char → Option (Fields × List Char)
  | 0, _ => none
  | fuel + 1, cs =>
      match skipBlanks cs with
      | '}' :: rest => some (.nil, rest)
      | ',' :: rest =>
          (parseProperty fuel rest).bind fun x =>
            (parseFields fuel x.2.2).map fun y => (.cons x.1 x.2.1 y.1, y.2)
      | _ => none

/-- A name, a colon and a value. -/
def parseProperty : ℕ → List Char → Option (String × Json × List Char)
  | 0, _ => none
  | fuel + 1, cs =>
      match skipBlanks cs with
      | '"' :: rest =>
          (parseString rest).bind fun k =>
            match skipBlanks k.2 with
            | ':' :: rest => (parseValue fuel rest).map fun x => (.ofList k.1, x.1, x.2)
            | _ => none
      | _ => none

end

/-- `JSON.parse`; `none` is a `SyntaxError`. -/
def Json.parse (s : String) : Option Json :=
  (parseValue (2 * s.toList.length + 2) s.toList).bind fun x =>
    if skipBlanks x.2 = [] then some x.1 else none

/-! ## Reading what was written -/

@[simp] theorem skipBlanks_cons {c : Char} {cs : List Char} (h : isBlank c = false) :
    skipBlanks (c :: cs) = c :: cs := by
  simp [skipBlanks, h]

/-- A text behind a number must not prolong it. -/
def NoDigit (cs : List Char) : Prop := ∀ c rest, cs = c :: rest → c.isDigit = false

theorem noDigit_cons {c : Char} {cs : List Char} (h : c.isDigit = false) : NoDigit (c :: cs) := by
  rintro _ _ ⟨⟩
  exact h

private theorem takeWhile_digits (ds : List Char) {cs : List Char} (hds : ∀ c ∈ ds, c.isDigit = true)
    (hcs : NoDigit cs) :
    (ds ++ cs).takeWhile Char.isDigit = ds ∧ (ds ++ cs).dropWhile Char.isDigit = cs := by
  rw [List.takeWhile_append_of_pos hds, List.dropWhile_append_of_pos hds]
  cases cs with
  | nil => simp
  | cons c rest => simp [hcs c rest rfl]

theorem scanNat_toDigits (n : ℕ) {cs : List Char} (hcs : NoDigit cs) :
    scanNat (Nat.toDigits 10 n ++ cs) = some (n, cs) := by
  have digits := takeWhile_digits (Nat.toDigits 10 n)
    (fun c hc => Nat.isDigit_of_mem_toDigits (by decide) (by decide) hc) hcs
  simp [scanNat, digits.1, digits.2, Nat.ofDigitChars_ten_toDigits]

/-- The first digit of a written number. -/
private theorem toDigits_eq_cons (n : ℕ) :
    ∃ c cs, Nat.toDigits 10 n = c :: cs ∧ c.isDigit = true := by
  obtain ⟨c, cs, hcons⟩ := List.exists_cons_of_ne_nil (Nat.toDigits_ne_nil (n := n) (b := 10))
  exact ⟨c, cs, hcons, Nat.isDigit_of_mem_toDigits (b := 10) (n := n) (by decide) (by decide)
    (by simp [hcons])⟩

theorem scanInt_intChars (n : ℤ) {cs : List Char} (hcs : NoDigit cs) :
    scanInt (intChars n ++ cs) = some (n, cs) := by
  cases n with
  | ofNat n =>
      obtain ⟨c, ds, hcons, digit⟩ := toDigits_eq_cons n
      have h := scanNat_toDigits n hcs
      have minus : c ≠ '-' := by rintro rfl; simp at digit
      simp only [intChars, hcons, List.cons_append] at h ⊢
      rw [scanInt.eq_2 _ (by simpa using minus), h]
      rfl
  | negSucc n =>
      simp only [intChars, List.cons_append, scanInt, scanNat_toDigits (n + 1) hcs]
      rfl

private theorem hexValue_hexDigit : ∀ n < 16, hexValue (hexDigit n) = some n := by decide

/-- A control character is named by its `\\u00XX` escape. -/
private theorem unicodeEscape_low {c : Char} (h : c.toNat < 32) :
    unicodeEscape '0' '0' (hexDigit (c.toNat / 16)) (hexDigit (c.toNat % 16)) = some c := by
  have high := hexValue_hexDigit (c.toNat / 16) (by omega)
  have low := hexValue_hexDigit (c.toNat % 16) (by omega)
  have zero : hexValue '0' = some 0 := by decide
  have value : 16 * (c.toNat / 16) + c.toNat % 16 = c.toNat := by omega
  have valid : c.toNat.isValidChar := Or.inl (by omega)
  simp [unicodeEscape, zero, high, low, value, valid]

theorem parseString_escapeChar (c : Char) (cs : List Char) :
    parseString (escapeChar c ++ cs) = (parseString cs).map fun x => (c :: x.1, x.2) := by
  unfold escapeChar
  split_ifs with quote backslash newline return_ tab backspace feed low
  · subst quote; simp [parseString, simpleEscape]
  · subst backslash; simp [parseString, simpleEscape]
  · subst newline; simp [parseString, simpleEscape]
  · subst return_; simp [parseString, simpleEscape]
  · subst tab; simp [parseString, simpleEscape]
  · subst backspace; simp [parseString, simpleEscape]
  · subst feed; simp [parseString, simpleEscape]
  · simp [parseString, unicodeEscape_low low]
  · rw [List.singleton_append, parseString.eq_4 _ _ quote (by simp [backslash])
      (by simp [backslash])]
    simp [low, backslash]

theorem parseString_escape (s cs : List Char) :
    parseString (escape s ++ '"' :: cs) = some (s, cs) := by
  induction s with
  | nil => simp [escape, parseString]
  | cons c s ih =>
      rw [show escape (c :: s) = escapeChar c ++ escape s from rfl, List.append_assoc,
        parseString_escapeChar, ih]
      rfl

mutual

/-- The depth of recursion that reading a value takes. -/
def Json.size : Json → ℕ
  | .arr items => 1 + items.size
  | .obj fields => 1 + fields.size
  | _ => 1

/-- The fuel that an array needs. -/
def Items.size : Items → ℕ
  | .nil => 1
  | .cons v rest => 1 + v.size + rest.size

/-- The fuel that an object needs. -/
def Fields.size : Fields → ℕ
  | .nil => 1
  | .cons _ v rest => 2 + v.size + rest.size

end

/-- A written value starts with a character that is neither blank nor a closing bracket. -/
theorem chars_eq_cons (v : Json) :
    ∃ c cs, v.chars = c :: cs ∧ isBlank c = false ∧ c ≠ ']' := by
  match v with
  | .null => exact ⟨_, _, rfl, rfl, by decide⟩
  | .bool true => exact ⟨_, _, rfl, rfl, by decide⟩
  | .bool false => exact ⟨_, _, rfl, rfl, by decide⟩
  | .str s => exact ⟨_, _, rfl, rfl, by decide⟩
  | .arr .nil => exact ⟨_, _, rfl, rfl, by decide⟩
  | .arr (.cons _ _) => exact ⟨_, _, rfl, rfl, by decide⟩
  | .obj .nil => exact ⟨_, _, rfl, rfl, by decide⟩
  | .obj (.cons _ _ _) => exact ⟨_, _, rfl, rfl, by decide⟩
  | .num (.negSucc n) => exact ⟨_, _, rfl, rfl, by decide⟩
  | .num (.ofNat n) =>
      obtain ⟨c, cs, hcons, digit⟩ := toDigits_eq_cons n
      refine ⟨c, cs, by simpa [Json.chars, intChars] using hcons, ?_, ?_⟩
      · by_contra blank
        simp only [isBlank, Bool.not_eq_false, Bool.or_eq_true, decide_eq_true_eq] at blank
        rcases blank with ((rfl | rfl) | rfl) | rfl <;> simp at digit
      · rintro rfl
        simp at digit

private theorem noDigit_tail (items : Items) (cs : List Char) :
    NoDigit (items.tailChars ++ cs) := by
  cases items <;> exact noDigit_cons (by decide)

private theorem noDigit_tail' (fields : Fields) (cs : List Char) :
    NoDigit (fields.tailChars ++ cs) := by
  cases fields <;> exact noDigit_cons (by decide)

private theorem parseValue_number (fuel : ℕ) {c : Char} {cs : List Char}
    (head : c.isDigit = true ∨ c = '-') :
    parseValue (fuel + 1) (c :: cs) = (scanInt (c :: cs)).map fun x => (.num x.1, x.2) := by
  have blank : isBlank c = false := by
    by_contra h
    simp only [isBlank, Bool.not_eq_false, Bool.or_eq_true, decide_eq_true_eq] at h
    rcases h with ((rfl | rfl) | rfl) | rfl <;> simp at head
  rw [parseValue, skipBlanks_cons blank]
  split <;> first | rfl | (rename_i h; cases h; simp at head)

private theorem parseValue_intChars (fuel : ℕ) (n : ℤ) {cs : List Char} (hcs : NoDigit cs) :
    parseValue (fuel + 1) (intChars n ++ cs) = some (.num n, cs) := by
  have h := scanInt_intChars n hcs
  cases n with
  | ofNat n =>
      obtain ⟨c, ds, hcons, digit⟩ := toDigits_eq_cons n
      simp only [intChars, hcons, List.cons_append] at h ⊢
      rw [parseValue_number fuel (.inl digit), h]
      rfl
  | negSucc n =>
      simp only [intChars, List.cons_append] at h ⊢
      rw [parseValue_number fuel (.inr rfl), h]
      rfl

mutual

/-- **Reading what was written**, whatever stands behind it. -/
theorem parseValue_chars : ∀ (fuel : ℕ) (v : Json) (cs : List Char), v.size ≤ fuel →
    NoDigit cs → parseValue fuel (v.chars ++ cs) = some (v, cs)
  | 0, v, _, enough, _ => by cases v <;> simp only [Json.size] at enough <;> omega
  | fuel + 1, .null, _, _, _ => by simp [Json.chars, parseValue, isBlank]
  | fuel + 1, .bool true, _, _, _ => by simp [Json.chars, parseValue, isBlank]
  | fuel + 1, .bool false, _, _, _ => by simp [Json.chars, parseValue, isBlank]
  | fuel + 1, .num n, _, _, hcs => parseValue_intChars fuel n hcs
  | fuel + 1, .str s, _, _, _ => by
      simp [Json.chars, quote, parseValue, isBlank, parseString_escape]
  | fuel + 1, .arr .nil, _, _, _ => by simp [Json.chars, parseValue, isBlank]
  | fuel + 1, .obj .nil, _, _, _ => by simp [Json.chars, parseValue, isBlank]
  | fuel + 1, .arr (.cons v rest), cs, enough, _ => by
      simp only [Json.size, Items.size] at enough
      obtain ⟨c, ds, hcons, blank, bracket⟩ := chars_eq_cons v
      have hv := parseValue_chars fuel v (rest.tailChars ++ cs) (by omega) (noDigit_tail rest cs)
      have hrest := parseItems_tailChars fuel rest cs (by omega)
      have opening : isBlank '[' = false := rfl
      simp only [Json.chars, List.cons_append, List.append_assoc, parseValue]
      rw [hcons, List.cons_append] at hv ⊢
      simp [skipBlanks_cons opening, skipBlanks_cons blank, bracket, hv, hrest]
  | fuel + 1, .obj (.cons k v rest), cs, enough, _ => by
      simp only [Json.size, Fields.size] at enough
      have hkv := parseProperty_chars fuel k v (rest.tailChars ++ cs) (by omega)
        (noDigit_tail' rest cs)
      have hrest := parseFields_tailChars fuel rest cs (by omega)
      have opening : isBlank '{' = false := rfl
      have quoted : isBlank '"' = false := rfl
      simp only [quote, List.cons_append, List.append_assoc, List.nil_append] at hkv
      simp only [Json.chars, quote, List.cons_append, List.append_assoc, List.nil_append, parseValue]
      simp [skipBlanks_cons opening, skipBlanks_cons quoted, hkv, hrest]

theorem parseItems_tailChars : ∀ (fuel : ℕ) (items : Items) (cs : List Char),
    items.size ≤ fuel → parseItems fuel (items.tailChars ++ cs) = some (items, cs)
  | 0, items, _, enough => by cases items <;> simp only [Items.size] at enough <;> omega
  | fuel + 1, .nil, _, _ => by simp [Items.tailChars, parseItems, isBlank]
  | fuel + 1, .cons v rest, cs, enough => by
      simp only [Items.size] at enough
      have hv := parseValue_chars fuel v (rest.tailChars ++ cs) (by omega) (noDigit_tail rest cs)
      have hrest := parseItems_tailChars fuel rest cs (by omega)
      simp [Items.tailChars, parseItems, isBlank, hv, hrest]

theorem parseFields_tailChars : ∀ (fuel : ℕ) (fields : Fields) (cs : List Char),
    fields.size ≤ fuel → parseFields fuel (fields.tailChars ++ cs) = some (fields, cs)
  | 0, fields, _, enough => by cases fields <;> simp only [Fields.size] at enough <;> omega
  | fuel + 1, .nil, _, _ => by simp [Fields.tailChars, parseFields, isBlank]
  | fuel + 1, .cons k v rest, cs, enough => by
      simp only [Fields.size] at enough
      have hkv := parseProperty_chars fuel k v (rest.tailChars ++ cs) (by omega)
        (noDigit_tail' rest cs)
      have hrest := parseFields_tailChars fuel rest cs (by omega)
      simp only [quote, List.cons_append, List.append_assoc, List.nil_append] at hkv
      simp [Fields.tailChars, quote, parseFields, isBlank, hkv, hrest]

theorem parseProperty_chars : ∀ (fuel : ℕ) (k : String) (v : Json) (cs : List Char),
    1 + v.size ≤ fuel → NoDigit cs →
      parseProperty fuel (quote k ++ ':' :: (v.chars ++ cs)) = some (k, v, cs)
  | 0, _, _, _, enough, _ => by omega
  | fuel + 1, k, v, cs, enough, hcs => by
      have hv := parseValue_chars fuel v cs (by omega) hcs
      simp [quote, parseProperty, isBlank, parseString_escape, hv]

end

mutual

/-- The text of a value is at least half as long as the recursion that reads it is deep. -/
theorem size_le_chars : ∀ v : Json, v.size ≤ 2 * v.chars.length
  | .null => by simp [Json.size, Json.chars]
  | .bool true => by simp [Json.size, Json.chars]
  | .bool false => by simp [Json.size, Json.chars]
  | .num n => by
      obtain ⟨c, cs, hcons, -⟩ := chars_eq_cons (.num n)
      simp [Json.size, hcons]
      omega
  | .str s => by simp [Json.size, Json.chars, quote]; omega
  | .arr .nil => by simp [Json.size, Items.size, Json.chars]
  | .obj .nil => by simp [Json.size, Fields.size, Json.chars]
  | .arr (.cons v rest) => by
      have hv := size_le_chars v
      have hrest := size_le_tailChars rest
      simp only [Json.size, Items.size, Json.chars, List.length_cons, List.length_append]
      omega
  | .obj (.cons k v rest) => by
      have hv := size_le_chars v
      have hrest := size_le_tailChars' rest
      simp only [Json.size, Fields.size, Json.chars, List.length_cons, List.length_append]
      omega

theorem size_le_tailChars : ∀ items : Items, items.size ≤ 2 * items.tailChars.length
  | .nil => by simp [Items.size, Items.tailChars]
  | .cons v rest => by
      have hv := size_le_chars v
      have hrest := size_le_tailChars rest
      simp only [Items.size, Items.tailChars, List.length_cons, List.length_append]
      omega

theorem size_le_tailChars' : ∀ fields : Fields, fields.size ≤ 2 * fields.tailChars.length
  | .nil => by simp [Fields.size, Fields.tailChars]
  | .cons k v rest => by
      have hv := size_le_chars v
      have hrest := size_le_tailChars' rest
      simp only [Fields.size, Fields.tailChars, List.length_cons, List.length_append]
      omega

end

/-- **`JSON.parse(JSON.stringify(v))` is `v`.** -/
@[simp] theorem Json.parse_stringify (v : Json) : Json.parse v.stringify = some v := by
  have enough : v.size ≤ 2 * v.chars.length + 2 := Nat.le_trans (size_le_chars v) (by omega)
  have read := parseValue_chars _ v [] enough (fun _ _ h => by cases h)
  rw [List.append_nil] at read
  simp only [Json.parse, Json.stringify, String.toList_ofList, read, Option.bind_some]
  simp [skipBlanks]

/-- No two values have one text. -/
theorem Json.stringify_injective : Function.Injective Json.stringify := by
  intro v w h
  have := congrArg Json.parse h
  simpa using this

end Text
