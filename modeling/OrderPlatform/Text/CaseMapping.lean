import Mathlib.Data.List.Basic
import Mathlib.Data.Nat.Notation
import Mathlib.Tactic.Common

/-!
# Lower case

Two ways to write a text in lower case with the data of one Unicode character database.  `lower`
maps every character on its own, as `lower(text)` does in Postgres.  `toLowerCase` is that of
JavaScript: the capital I with a dot becomes two characters, and a capital sigma at the end of a
word becomes the final sigma.

They agree on a text exactly when it has neither (`lower_eq_toLowerCase_iff`).
-/

namespace CaseMapping

/-- What the character database says. -/
structure UnicodeData where
  /-- The simple lower-case mapping. -/
  simple : Char → Char
  cased : Char → Bool
  caseIgnorable : Char → Bool
  /-- The capital sigma becomes the small one. -/
  sigma : simple 'Σ' = 'σ'
  /-- The sign of an email address has no case. -/
  sign : simple '@' = '@'

namespace UnicodeData

variable (D : UnicodeData)

/-- Some case-ignorable characters, and then a cased one. -/
def meetsCased : List Char → Bool
  | [] => false
  | c :: cs => D.cased c || (D.caseIgnorable c && meetsCased cs)

/-- The condition `Final_Sigma`, given the characters before, the nearest one first, and behind. -/
def finalSigma (before behind : List Char) : Bool := D.meetsCased before && !D.meetsCased behind

/-- The full mapping of a character in its place. -/
def mapped (before : List Char) (c : Char) (behind : List Char) : List Char :=
  if c = 'İ' then ['i', '\u0307']
  else if c = 'Σ' ∧ D.finalSigma before behind = true then ['ς']
  else [D.simple c]

/-- `toLowerCase` behind some characters, the nearest one first. -/
def toLowerCaseFrom : List Char → List Char → List Char
  | _, [] => []
  | before, c :: behind => D.mapped before c behind ++ toLowerCaseFrom (c :: before) behind

/-- `lower(text)`. -/
def lower (s : String) : String := String.ofList (s.toList.map D.simple)

/-- `text.toLowerCase()`. -/
def toLowerCase (s : String) : String := String.ofList (D.toLowerCaseFrom [] s.toList)

/-- A capital sigma at the end of a word. -/
def EndsInSigma (before : List Char) (c : Char) (behind : List Char) : Prop :=
  c = 'Σ' ∧ D.finalSigma before behind = true

/-- No character of the text has a mapping other than its simple one. -/
def PlainFrom (before cs : List Char) : Prop :=
  ∀ u c v, cs = u ++ c :: v → c ≠ 'İ' ∧ ¬ D.EndsInSigma (u.reverse ++ before) c v

/-- The text has no capital I with a dot, and no capital sigma at the end of a word. -/
def Plain (s : String) : Prop := D.PlainFrom [] s.toList

variable {D}

theorem plainFrom_cons {before cs : List Char} {c : Char} :
    D.PlainFrom before (c :: cs) ↔
      (c ≠ 'İ' ∧ ¬ D.EndsInSigma before c cs) ∧ D.PlainFrom (c :: before) cs := by
  constructor
  · intro plain
    refine ⟨plain [] c cs rfl, fun u c' v same => ?_⟩
    have later := plain (c :: u) c' v (by rw [same]; rfl)
    rwa [List.reverse_cons, List.append_assoc] at later
  · rintro ⟨here, plain⟩ u c' v same
    cases u with
    | nil =>
        obtain ⟨rfl, rfl⟩ := List.cons.inj same
        exact here
    | cons d u =>
        obtain ⟨rfl, rest⟩ := List.cons.inj same
        have later := plain u c' v rest
        rwa [List.reverse_cons, List.append_assoc]

/-- A character of its own mapping. -/
theorem mapped_of_plain {before behind : List Char} {c : Char} (dotless : c ≠ 'İ')
    (inside : ¬ D.EndsInSigma before c behind) : D.mapped before c behind = [D.simple c] := by
  rw [mapped, if_neg dotless]
  exact if_neg inside

theorem mapped_of_final {before behind : List Char} {c : Char}
    (final : D.EndsInSigma before c behind) : D.mapped before c behind = ['ς'] := by
  rw [mapped, if_neg (by rw [final.1]; decide)]
  exact if_pos final

/-- No character is lost. -/
theorem length_le_length (before cs : List Char) :
    cs.length ≤ (D.toLowerCaseFrom before cs).length := by
  induction cs generalizing before with
  | nil => exact Nat.zero_le _
  | cons c cs ih =>
      have rest := ih (c :: before)
      have here : 1 ≤ (D.mapped before c cs).length := by
        unfold mapped
        split_ifs
        all_goals exact Nat.succ_pos _
      rw [toLowerCaseFrom, List.length_append, List.length_cons]
      omega

/-- **The mappings agree** exactly where only simple ones apply. -/
theorem map_simple_eq_iff (before cs : List Char) :
    cs.map D.simple = D.toLowerCaseFrom before cs ↔ D.PlainFrom before cs := by
  induction cs generalizing before with
  | nil => exact ⟨fun _ u c v same => absurd same (by simp), fun _ => rfl⟩
  | cons c cs ih =>
      rw [plainFrom_cons, ← ih (c :: before), toLowerCaseFrom, List.map_cons]
      by_cases dot : c = 'İ'
      · -- one character becomes two, and no later one makes up for it
        refine ⟨fun same => ?_, fun plain => absurd dot plain.1.1⟩
        have longer := length_le_length (D := D) (c :: before) cs
        have lengths := congrArg List.length same
        rw [mapped, if_pos dot, List.length_append, List.length_cons, List.length_map] at lengths
        simp only [List.length_cons, List.length_nil] at lengths
        omega
      · by_cases final : D.EndsInSigma before c cs
        · refine ⟨fun same => ?_, fun plain => absurd final plain.1.2⟩
          rw [mapped_of_final final, final.1, D.sigma] at same
          exact absurd (List.cons.inj same).1 (by decide)
        · rw [mapped_of_plain dot final]
          constructor
          · intro same
            exact ⟨⟨dot, final⟩, (List.cons.inj same).2⟩
          · rintro ⟨-, rest⟩
            rw [rest]
            rfl

/-- **When the two ways agree on a text.** -/
theorem lower_eq_toLowerCase_iff (s : String) : D.lower s = D.toLowerCase s ↔ D.Plain s := by
  rw [lower, toLowerCase, Plain, ← map_simple_eq_iff]
  exact String.ofList_inj

/-- The sign of an email address is kept. -/
theorem at_mem_toLowerCaseFrom {before cs : List Char} (mem : '@' ∈ cs) :
    '@' ∈ D.toLowerCaseFrom before cs := by
  induction cs generalizing before with
  | nil => cases mem
  | cons c cs ih =>
      rw [toLowerCaseFrom]
      rcases List.mem_cons.mp mem with rfl | later
      · refine List.mem_append_left _ ?_
        rw [mapped_of_plain (by decide) fun final => absurd final.1 (by decide), D.sign]
        exact List.mem_singleton_self _
      · exact List.mem_append_right _ (ih later)

theorem at_mem_toLowerCase {s : String} (mem : '@' ∈ s.toList) :
    '@' ∈ (D.toLowerCase s).toList := by
  rw [toLowerCase, String.toList_ofList]
  exact at_mem_toLowerCaseFrom mem

end UnicodeData

end CaseMapping
