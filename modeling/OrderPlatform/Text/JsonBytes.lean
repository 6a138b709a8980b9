import Mathlib.Data.String.Basic
import Mathlib.Algebra.BigOperators.Group.List.Basic
import Mathlib.Algebra.GroupWithZero.Nat
import OrderPlatform.Text.Json

/-!
# The size of a JSON text

`Json.bytes` is the length of the UTF-8 text that `JSON.stringify` writes for a value.  It is read off
the parts of the value: an object takes what its properties take, with a comma or a bracket for each
(`bytes_object`), and a text of plain characters takes a byte for each of them
(`bytes_str_of_plain`).
-/

namespace Text

open String (utf8Len)

/-- `Buffer.byteLength(JSON.stringify(value), "utf8")`. -/
def Json.bytes (v : Json) : ℕ := v.stringify.utf8ByteSize

theorem Json.bytes_eq_utf8Len (v : Json) : v.bytes = utf8Len v.chars :=
  String.utf8ByteSize_ofList v.chars

theorem utf8Len_quote (s : String) : utf8Len (quote s) = (Json.str s).bytes :=
  (Json.bytes_eq_utf8Len (.str s)).symm

/-- What a property takes: its key, its value, a colon, and the comma or bracket behind it. -/
def propertyBytes (property : String × Json) : ℕ :=
  (Json.str property.1).bytes + property.2.bytes + 2

private theorem utf8Len_tailFields (l : List (String × Json)) :
    utf8Len (Fields.ofList l).tailChars = 1 + (l.map propertyBytes).sum := by
  induction l with
  | nil => rfl
  | cons property l ih =>
      have colon : ':'.utf8Size = 1 := rfl
      have comma : ','.utf8Size = 1 := rfl
      rw [Fields.ofList, Fields.tailChars, String.utf8Len_cons, String.utf8Len_append,
        String.utf8Len_cons, String.utf8Len_append, ih, utf8Len_quote, ← Json.bytes_eq_utf8Len,
        List.map_cons, List.sum_cons, propertyBytes, colon, comma]
      omega

/-- **Objects.** -/
theorem Json.bytes_object {l : List (String × Json)} (nonempty : l ≠ []) :
    (Json.object l).bytes = 1 + (l.map propertyBytes).sum := by
  cases l with
  | nil => exact absurd rfl nonempty
  | cons property l =>
      have colon : ':'.utf8Size = 1 := rfl
      have brace : '\x7b'.utf8Size = 1 := rfl
      rw [Json.bytes_eq_utf8Len, Json.object, Fields.ofList, Json.chars, String.utf8Len_cons,
        String.utf8Len_append, String.utf8Len_cons, String.utf8Len_append, utf8Len_tailFields,
        utf8Len_quote, ← Json.bytes_eq_utf8Len, List.map_cons, List.sum_cons, propertyBytes, colon,
        brace]
      omega

/-- A character of one byte that is written as it is. -/
def isPlain (c : Char) : Bool := 32 ≤ c.toNat && c.toNat < 128 && c ≠ '"' && c ≠ '\\'

theorem utf8Size_of_isPlain {c : Char} (plain : isPlain c = true) : c.utf8Size = 1 := by
  simp only [isPlain, Bool.and_eq_true, decide_eq_true_eq] at plain
  refine if_pos (UInt32.le_iff_toNat_le.mpr ?_)
  have small : c.val.toNat < 128 := plain.1.1.2
  exact Nat.le_of_lt_succ small

theorem escapeChar_of_isPlain {c : Char} (plain : isPlain c = true) : escapeChar c = [c] := by
  simp only [isPlain, Bool.and_eq_true, decide_eq_true_eq] at plain
  obtain ⟨⟨⟨large, _⟩, quotation⟩, backslash⟩ := plain
  have other : ∀ d : Char, d.toNat < 32 → c ≠ d := by
    rintro _ small rfl
    omega
  rw [escapeChar, if_neg quotation, if_neg backslash, if_neg (other _ (by decide)),
    if_neg (other _ (by decide)), if_neg (other _ (by decide)), if_neg (other _ (by decide)),
    if_neg (other _ (by decide)), if_neg (Nat.not_lt.mpr large)]

/-- **Plain texts.** -/
theorem Json.bytes_str_of_plain {s : String} (plain : ∀ c ∈ s.toList, isPlain c = true) :
    (Json.str s).bytes = s.toList.length + 2 := by
  have inner : ∀ cs : List Char, (∀ c ∈ cs, isPlain c = true) →
      utf8Len (escape cs) = cs.length := by
    intro cs
    induction cs with
    | nil => exact fun _ => rfl
    | cons c cs ih =>
        intro plain
        obtain ⟨first, others⟩ := List.forall_mem_cons.mp plain
        rw [escape, List.flatMap_cons, escapeChar_of_isPlain first, List.singleton_append,
          String.utf8Len_cons, utf8Size_of_isPlain first]
        exact congrArg (· + 1) (ih others)
  have quotation : '"'.utf8Size = 1 := rfl
  rw [Json.bytes_eq_utf8Len, Json.chars, quote, String.utf8Len_cons, String.utf8Len_append,
    inner _ plain, String.utf8Len_cons, String.utf8Len_nil, quotation]

end Text
