import Mathlib.Algebra.Ring.Nat
import Mathlib.Data.List.Sort
import Mathlib.Data.Nat.Notation
import Mathlib.Order.Lex
import Mathlib.Data.List.Lex
import Mathlib.Tactic.Common
import OrderPlatform.Text.CodeUnits

/-!
# Migration files

The names of the files in `infra/postgres/migrations`.  A migration is a file whose name consists of
a version and a description; the files are taken in the order of their names, as
`Array.prototype.sort` has it.  When all versions have the same number of digits, that is the order
of the versions as numbers (`number_lt_of_sortedBefore`).
-/

namespace OrderPlatform

namespace Migrations

/-! ### Names -/

/-- The UTF-16 code units of a text, as numbers. -/
def utf16 (text : List Char) : List ℕ := (Utf16.units text).map UInt16.toNat

/-- The order in which `Array.prototype.sort` puts texts. -/
def SortedBefore (a b : String) : Prop := utf16 a.toList ≤ utf16 b.toList

instance decidableSortedBefore (a b : String) : Decidable (SortedBefore a b) :=
  inferInstanceAs (Decidable (utf16 a.toList ≤ utf16 b.toList))

/-- What the `.` of a regular expression does not match. -/
def isLineTerminator (c : Char) : Bool :=
  c = '\n' || c = '\r' || c.toNat = 0x2028 || c.toNat = 0x2029

/-- What is left of a text without its ending. -/
def dropEnding (ending text : List Char) : Option (List Char) :=
  let kept := text.take (text.length - ending.length)
  if kept ++ ending = text then some kept else none

/-- `file.match(/^(\d+)_(.+)\.sql$/)`: the two groups. -/
def parseName (file : String) : Option (String × String) :=
  match file.toList.takeWhile Char.isDigit, file.toList.dropWhile Char.isDigit with
  | digit :: digits, '_' :: rest =>
      match dropEnding ".sql".toList rest with
      | some (c :: cs) =>
          if (c :: cs).any isLineTerminator then none
          else some (String.ofList (digit :: digits), String.ofList (c :: cs))
      | _ => none
  | _, _ => none

/-- `files.filter((f) => f.endsWith(".sql")).sort()`. -/
def sqlFiles (files : List String) : List String :=
  (files.filter fun file => (dropEnding ".sql".toList file.toList).isSome).insertionSort
    SortedBefore

/-! ### Migrations -/

/-- A migration as it is read from its file, the checksum being the hash of the content. -/
structure Migration where
  version : String
  description : String
  filename : String
  content : String
  checksum : String
deriving DecidableEq

/-- `checksum(content)`, given the hash in hexadecimal. -/
def checksum (sha256 : String → String) (content : String) : String :=
  String.ofList ((sha256 content).toList.take 16)

/-- A file with a name of the expected format. -/
def toMigration (sha256 : String → String) (file content : String) : Option Migration :=
  (parseName file).map fun (version, description) =>
    { version
      description := String.ofList (description.toList.map fun c => if c = '_' then ' ' else c)
      filename := file
      content
      checksum := checksum sha256 content }

/-- A version as a number. -/
def Migration.number (m : Migration) : ℕ := Nat.ofDigitChars 10 m.version.toList 0

/-- How many digits a version has. -/
def Migration.digits (m : Migration) : ℕ := m.version.toList.length

/-! ### The order of the names and the order of the versions -/

theorem utf16_cons_of_isDigit {c : Char} (digit : c.isDigit = true) (rest : List Char) :
    utf16 (c :: rest) = c.toNat :: utf16 rest := by
  have small : c.toNat < 0x10000 := by
    have bounds := Char.isDigit_iff_toNat.mp digit
    have nine : '9'.toNat = 57 := rfl
    omega
  have first : Utf16.units [c] = [.ofNat c.toNat] := by
    show Utf16.encodePoint c.toNat ++ [] = _
    rw [Utf16.encodePoint, if_pos small, List.append_nil]
  rw [utf16, ← List.singleton_append, Utf16.units_append, first, List.map_append,
    List.map_singleton, UInt16.toNat_ofNat_of_lt' small]
  rfl

/-- The value of a list of digits is less than the next power. -/
theorem ofDigitChars_lt {v : List Char} (digits : ∀ c ∈ v, c.isDigit = true) (init : ℕ) :
    Nat.ofDigitChars 10 v init < 10 ^ v.length * (init + 1) := by
  induction v generalizing init with
  | nil => simp
  | cons c cs ih =>
      have bounds := Char.isDigit_iff_toNat.mp (digits c List.mem_cons_self)
      have zero : '0'.toNat = 48 := rfl
      have nine : '9'.toNat = 57 := rfl
      have small : 10 * init + (c.toNat - '0'.toNat) + 1 ≤ 10 * (init + 1) := by omega
      rw [Nat.ofDigitChars_cons, List.length_cons, Nat.pow_succ, Nat.mul_assoc]
      exact Nat.lt_of_lt_of_le (ih (fun d mem => digits d (List.mem_cons_of_mem c mem)) _)
        (Nat.mul_le_mul_left _ small)

/-- What is compared first decides. -/
theorem ofDigitChars_lt_of_lt {v w : List Char} (length : v.length = w.length)
    (digits : ∀ c ∈ v, c.isDigit = true) {init init' : ℕ} (lt : init < init') :
    Nat.ofDigitChars 10 v init < Nat.ofDigitChars 10 w init' := by
  calc
    Nat.ofDigitChars 10 v init < 10 ^ v.length * (init + 1) := ofDigitChars_lt digits init
    _ ≤ 10 ^ w.length * init' := by rw [length]; exact Nat.mul_le_mul_left _ lt
    _ ≤ Nat.ofDigitChars 10 w init' := by
        rw [Nat.ofDigitChars_eq_ofDigitChars_zero (l := w)]
        exact Nat.le_add_right _ _

theorem cons_le_cons {a b : ℕ} {as bs : List ℕ} (le : a :: as ≤ b :: bs) :
    a < b ∨ (a = b ∧ as ≤ bs) := by
  rcases Nat.lt_trichotomy a b with lt | equal | gt
  · exact .inl lt
  · subst equal
    refine .inr ⟨rfl, not_lt.mp fun lt => ?_⟩
    exact not_lt.mpr le (List.Lex.cons lt)
  · exact absurd le (not_le.mpr (List.Lex.rel gt))

/-- Digits of the same number are compared by the number they stand for. -/
theorem ofDigitChars_lt_of_utf16_le {v w : List Char} (length : v.length = w.length)
    (differ : v ≠ w) (digits : ∀ c ∈ v, c.isDigit = true) (digits' : ∀ c ∈ w, c.isDigit = true)
    (r r' : List Char) (le : utf16 (v ++ r) ≤ utf16 (w ++ r')) (init : ℕ) :
    Nat.ofDigitChars 10 v init < Nat.ofDigitChars 10 w init := by
  induction v generalizing w init with
  | nil =>
      rw [List.eq_nil_of_length_eq_zero length.symm] at differ
      exact absurd rfl differ
  | cons c cs ih =>
      cases w with
      | nil => cases length
      | cons d ds =>
          have isDigit := digits c List.mem_cons_self
          have isDigit' := digits' d List.mem_cons_self
          have same : cs.length = ds.length := Nat.succ.inj length
          have rest : ∀ e ∈ cs, e.isDigit = true := fun e mem =>
            digits e (List.mem_cons_of_mem c mem)
          rw [List.cons_append, List.cons_append, utf16_cons_of_isDigit isDigit,
            utf16_cons_of_isDigit isDigit'] at le
          rw [Nat.ofDigitChars_cons, Nat.ofDigitChars_cons]
          rcases cons_le_cons le with lt | ⟨equal, later⟩
          · have bounds := Char.isDigit_iff_toNat.mp isDigit
            exact ofDigitChars_lt_of_lt same rest (by omega)
          · obtain rfl : c = d := Char.toNat_inj.mp equal
            refine ih same (fun equal => differ (congrArg (c :: ·) equal)) rest ?_ later _
            exact fun e mem => digits' e (List.mem_cons_of_mem c mem)

/-- A migration carries its version at the head of its name. -/
theorem version_of_toMigration {sha256 : String → String} {file content : String} {m : Migration}
    (h : toMigration sha256 file content = some m) :
    m.filename = file ∧ m.content = content ∧ m.checksum = checksum sha256 content ∧
      (∀ c ∈ m.version.toList, c.isDigit = true) ∧
      ∃ rest, file.toList = m.version.toList ++ rest := by
  obtain ⟨⟨version, description⟩, parsed, rfl⟩ := Option.map_eq_some_iff.mp h
  refine ⟨rfl, rfl, rfl, ?_⟩
  unfold parseName at parsed
  split at parsed
  · rename_i digit digits rest taken dropped
    split at parsed
    · split at parsed
      · cases parsed
      · cases parsed
        simp only [String.toList_ofList]
        rw [← taken]
        refine ⟨fun c mem => List.all_eq_true.mp List.all_takeWhile c mem, file.toList.dropWhile Char.isDigit, ?_⟩
        exact (List.takeWhile_append_dropWhile).symm
    · cases parsed
  · cases parsed

/-- **The order of the names is the order of the versions**, when these have the same number of
digits. -/
theorem number_lt_of_sortedBefore {sha256 : String → String} {file file' : String}
    {content content' : String} {m m' : Migration}
    (h : toMigration sha256 file content = some m)
    (h' : toMigration sha256 file' content' = some m') (before : SortedBefore file file')
    (differ : m.version ≠ m'.version) (digits : m.digits = m'.digits) : m.number < m'.number := by
  obtain ⟨_, _, _, all, rest, name⟩ := version_of_toMigration h
  obtain ⟨_, _, _, all', rest', name'⟩ := version_of_toMigration h'
  unfold SortedBefore at before
  rw [name, name'] at before
  exact ofDigitChars_lt_of_utf16_le digits (fun same => differ (String.toList_inj.mp same)) all all'
    rest rest' before 0

end Migrations

end OrderPlatform
