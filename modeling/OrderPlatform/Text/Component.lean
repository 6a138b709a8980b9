import Mathlib.Data.Int.Notation
import Mathlib.Data.Nat.Notation
import Mathlib.Data.List.Basic
import Mathlib.Tactic.Common

/-!
# Components of composed texts

Keys of a key-value store are put together from parts with a separator between them.  Two
such keys are equal only if their parts are, provided that the parts do not contain the
separator.  This module has the two kinds of part that never do, decimal numbers and
percent-encoded text, and the splitting lemmas.

* `parseInt` is `Number.parseInt(text, 10)`: leading blanks, a sign, as many digits as there
  are, and whatever follows is ignored; `none` is `NaN`.
* `encodeURIComponent` percent-encodes the UTF-8 bytes of everything outside the unreserved
  alphabet.  It is injective, since each byte can be read back (`unpercent_percentByte`).
-/

namespace Text

/-! ## Decimal numbers -/

/-- `Number.parseInt(text, 10)`. -/
def parseInt (s : String) : Option ℤ :=
  let digits (cs : List Char) : Option ℕ :=
    match cs.takeWhile Char.isDigit with
    | [] => none
    | ds => some (Nat.ofDigitChars 10 ds 0)
  match s.toList.dropWhile Char.isWhitespace with
  | '-' :: rest => (digits rest).map fun n => -(n : ℤ)
  | '+' :: rest => (digits rest).map fun n => (n : ℤ)
  | rest => (digits rest).map fun n => (n : ℤ)

theorem isDigit_of_mem_repr {n : ℕ} {c : Char} (h : c ∈ n.repr.toList) : c.isDigit = true := by
  rw [Nat.toList_repr] at h
  exact Nat.isDigit_of_mem_toDigits (by decide) (by decide) h

theorem notMem_repr {c : Char} (h : c.isDigit = false) (n : ℕ) : c ∉ n.repr.toList :=
  fun mem => by simp [isDigit_of_mem_repr mem] at h

/-- Reading a number that was written in decimal. -/
@[simp] theorem parseInt_repr (n : ℕ) : parseInt n.repr = some (n : ℤ) := by
  have digits : ∀ c ∈ Nat.toDigits 10 n, c.isDigit = true := fun c hc =>
    Nat.isDigit_of_mem_toDigits (by decide) (by decide) hc
  obtain ⟨c, cs, hcons⟩ := List.exists_cons_of_ne_nil (Nat.toDigits_ne_nil (n := n) (b := 10))
  have digit : c.isDigit = true := digits c (by simp [hcons])
  have blank : c.isWhitespace = false := by
    by_contra h
    simp only [Char.isWhitespace, Bool.not_eq_false, Bool.or_eq_true, decide_eq_true_eq] at h
    rcases h with ((rfl | rfl) | rfl) | rfl <;> simp at digit
  have all : (c :: cs).takeWhile Char.isDigit = c :: cs := by
    have kept : (Nat.toDigits 10 n ++ []).takeWhile Char.isDigit =
        Nat.toDigits 10 n ++ [].takeWhile Char.isDigit := List.takeWhile_append_of_pos digits
    simpa [hcons] using kept
  have value : Nat.ofDigitChars 10 (c :: cs) 0 = n := by
    rw [← hcons, Nat.ofDigitChars_ten_toDigits]
  simp only [parseInt, Nat.toList_repr, hcons, List.dropWhile_cons, blank, Bool.false_eq_true,
    ↓reduceIte]
  split
  · rename_i h; cases h; simp at digit
  · rename_i h; cases h; simp at digit
  · rw [all]
    simp [value]

/-! ## Percent encoding -/

/-- The characters that `encodeURIComponent` leaves alone, as bytes. -/
def isUnreserved (b : UInt8) : Bool :=
  let c := Char.ofNat b.toNat
  c.isAlphanum || c ∈ ['-', '_', '.', '!', '~', '*', '\x27', '(', ')']

/-- A hexadecimal digit, with capital letters as `encodeURIComponent` writes them. -/
def upperHexDigit (n : ℕ) : Char := if n < 10 then Char.ofNat (48 + n) else Char.ofNat (55 + n)

/-- A byte as it is encoded: itself where it is unreserved, and `%XX` otherwise. -/
def percentByte (b : UInt8) : List Char :=
  if isUnreserved b then [Char.ofNat b.toNat]
  else ['%', upperHexDigit (b.toNat / 16), upperHexDigit (b.toNat % 16)]

/-- `encodeURIComponent`. -/
def encodeURIComponent (s : String) : String :=
  .ofList ((s.toList.flatMap String.utf8EncodeChar).flatMap percentByte)

/-- The value of a digit that `upperHexDigit` has written. -/
def upperHexValue (c : Char) : ℕ := if c.isDigit then c.toNat - 48 else c.toNat - 55

/-- Read one byte back. -/
def unpercent : List Char → Option (UInt8 × List Char)
  | '%' :: a :: b :: rest => some (.ofNat (16 * upperHexValue a + upperHexValue b), rest)
  | c :: rest => some (.ofNat c.toNat, rest)
  | [] => none

private theorem percentByte_cases :
    ∀ b : Fin 256, isUnreserved (UInt8.ofNat b) = true ∧
        Char.ofNat b ≠ '%' ∧ (Char.ofNat b).toNat = b ∧ Char.ofNat b ≠ ':' ∨
      isUnreserved (UInt8.ofNat b) = false ∧
        16 * upperHexValue (upperHexDigit (b / 16)) + upperHexValue (upperHexDigit (b % 16)) = b ∧
        upperHexDigit (b / 16) ≠ ':' ∧ upperHexDigit (b % 16) ≠ ':' := by
  decide +kernel

private theorem percentByte_spec (b : UInt8) :
    (isUnreserved b = true ∧ percentByte b = [Char.ofNat b.toNat] ∧ Char.ofNat b.toNat ≠ '%' ∧
        (Char.ofNat b.toNat).toNat = b.toNat ∧ Char.ofNat b.toNat ≠ ':') ∨
      ∃ x y, percentByte b = ['%', x, y] ∧ 16 * upperHexValue x + upperHexValue y = b.toNat ∧
        x ≠ ':' ∧ y ≠ ':' := by
  have h := percentByte_cases ⟨b.toNat, b.toNat_lt⟩
  simp only [UInt8.ofNat_toNat] at h
  rcases h with ⟨plain, percent, value, colon⟩ | ⟨coded, value, hx, hy⟩
  · exact .inl ⟨plain, by simp [percentByte, plain], percent, value, colon⟩
  · exact .inr ⟨_, _, by simp [percentByte, coded], value, hx, hy⟩

theorem unpercent_percentByte (b : UInt8) (cs : List Char) :
    unpercent (percentByte b ++ cs) = some (b, cs) := by
  rcases percentByte_spec b with ⟨-, plain, percent, value, -⟩ | ⟨x, y, coded, value, -, -⟩
  · rw [plain, List.singleton_append, unpercent.eq_2 _ _ (by simp [percent]), value]
    simp
  · simp [coded, unpercent, value]

private theorem flatMap_percentByte_injective :
    ∀ bs bs' : List UInt8, bs.flatMap percentByte = bs'.flatMap percentByte → bs = bs' := by
  intro bs
  induction bs with
  | nil =>
      intro bs' h
      cases bs' with
      | nil => rfl
      | cons b rest =>
          have := congrArg unpercent h
          rw [List.flatMap_cons, unpercent_percentByte] at this
          simp [unpercent] at this
  | cons b rest ih =>
      intro bs' h
      have read := congrArg unpercent h
      rw [List.flatMap_cons, unpercent_percentByte] at read
      cases bs' with
      | nil => simp [unpercent] at read
      | cons b' rest' =>
          rw [List.flatMap_cons, unpercent_percentByte, Option.some_inj, Prod.mk.injEq] at read
          rw [read.1, ih rest' read.2]

/-- Different texts have different encodings. -/
theorem encodeURIComponent_injective : Function.Injective encodeURIComponent := by
  intro s s' h
  have bytes := flatMap_percentByte_injective _ _ (String.ofList_injective h)
  have encoded : s.toList.utf8Encode = s'.toList.utf8Encode := by
    simp only [List.utf8Encode, bytes]
  rw [String.utf8Encode_toList, String.utf8Encode_toList] at encoded
  exact String.toByteArray_inj.mp encoded

theorem colon_notMem_encodeURIComponent (s : String) : ':' ∉ (encodeURIComponent s).toList := by
  simp only [encodeURIComponent, String.toList_ofList, List.mem_flatMap, not_exists, not_and]
  intro b _ mem
  rcases percentByte_spec b with ⟨-, plain, -, -, colon⟩ | ⟨x, y, coded, -, hx, hy⟩
  · rw [plain, List.mem_singleton] at mem
    exact colon mem.symm
  · rw [coded] at mem
    simp only [List.mem_cons, List.not_mem_nil, or_false] at mem
    rcases mem with h | h | h
    · exact absurd h (by decide)
    · exact hx h.symm
    · exact hy h.symm

/-! ## Splitting at a separator -/

/-- The part before the first separator. -/
theorem append_cons_inj {sep : Char} {a b x y : List Char} (ha : sep ∉ a) (hb : sep ∉ b)
    (h : a ++ sep :: x = b ++ sep :: y) : a = b ∧ x = y := by
  induction a generalizing b with
  | nil =>
      cases b with
      | nil => simpa using h
      | cons c b =>
          simp only [List.nil_append, List.cons_append, List.cons.injEq] at h
          exact absurd (h.1 ▸ List.mem_cons_self) hb
  | cons c a ih =>
      cases b with
      | nil =>
          simp only [List.nil_append, List.cons_append, List.cons.injEq] at h
          exact absurd (h.1 ▸ List.mem_cons_self) ha
      | cons d b =>
          simp only [List.cons_append, List.cons.injEq] at h
          obtain ⟨rfl, rfl⟩ := ih (fun m => ha (List.mem_cons_of_mem _ m))
            (fun m => hb (List.mem_cons_of_mem _ m)) h.2
          exact ⟨by rw [h.1], rfl⟩

/-- The part behind the last separator. -/
theorem append_cons_inj_right {sep : Char} {a b x y : List Char} (hx : sep ∉ x) (hy : sep ∉ y)
    (h : a ++ sep :: x = b ++ sep :: y) : a = b ∧ x = y := by
  have reversed := congrArg List.reverse h
  simp only [List.reverse_append, List.reverse_cons, List.append_assoc, List.singleton_append]
    at reversed
  obtain ⟨hxy, hab⟩ := append_cons_inj (by simpa using hx) (by simpa using hy) reversed
  exact ⟨List.reverse_injective hab, List.reverse_injective hxy⟩

end Text
