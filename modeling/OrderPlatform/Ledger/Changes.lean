import Mathlib.Data.Multiset.MapFold
import Mathlib.Logic.Relation

/-!
# Things that are kept track of

A collection in which a step turns one thing into another one at most (`Change`).  What every such
turn keeps holds of all things of the collection (`Change.all`), a name that no turn touches counts
the things (`Change.names`), and each thing of the beginning is followed to what has become of it
(`Change.follows`).
-/

namespace Ledger

variable {α β : Type}

/-- Nothing changes, or one thing turns into another one. -/
inductive Change (turns : α → α → Prop) : Multiset α → Multiset α → Prop
  | nothing (all : Multiset α) : Change turns all all
  | one {a b : α} (rest : Multiset α) (turn : turns a b) : Change turns (a ::ₘ rest) (b ::ₘ rest)

namespace Change

variable {turns : α → α → Prop} {before after : Multiset α}

/-- **What every turn keeps** is kept. -/
theorem all {P : α → Prop} (h : Change turns before after)
    (keeps : ∀ a b, turns a b → P a → P b) (here : ∀ a ∈ before, P a) : ∀ a ∈ after, P a := by
  cases h with
  | nothing => exact here
  | @one a b rest turn =>
      intro x mem
      rcases Multiset.mem_cons.mp mem with rfl | mem
      · exact keeps a x turn (here a (Multiset.mem_cons_self a rest))
      · exact here x (Multiset.mem_cons_of_mem mem)

/-- **Names are kept.** -/
theorem names {name : α → β} (h : Change turns before after)
    (keeps : ∀ a b, turns a b → name b = name a) : after.map name = before.map name := by
  cases h with
  | nothing => rfl
  | @one a b rest turn => rw [Multiset.map_cons, Multiset.map_cons, keeps a b turn]

/-- **What becomes of a thing.** -/
theorem follows (h : Change turns before after) :
    ∀ a ∈ before, ∃ b ∈ after, Relation.ReflGen turns a b := by
  intro x mem
  cases h with
  | nothing => exact ⟨x, mem, .refl⟩
  | @one a b rest turn =>
      rcases Multiset.mem_cons.mp mem with rfl | mem
      · exact ⟨b, Multiset.mem_cons_self b rest, .single turn⟩
      · exact ⟨x, Multiset.mem_cons_of_mem mem, .refl⟩

end Change

end Ledger
