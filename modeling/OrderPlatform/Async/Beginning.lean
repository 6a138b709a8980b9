import OrderPlatform.Async.Contract

/-!
# A call that begins later

Some facts about the shared state stay once they are true, whatever anybody does.  What a call does
that begins after such a fact has come true is then a matter of its handler alone.

* `Growth` — a relation that every operation, every event and every crash keeps.
* `Growth.beginning` — the discipline of one thread that begins where a lasting fact holds.
* `Growth.sound_of_beginning` — from any pool, in any regime, that thread ends as its handler does.
-/

namespace Async

variable {M : Machine} {Req Res α : Type}

/-- What only grows, whatever happens. -/
structure Growth (M : Machine) where
  le : M.State → M.State → Prop
  refl : ∀ s, le s s
  trans : ∀ {s s' s''}, le s s' → le s' s'' → le s s''
  exec : ∀ {t c o s r s'}, M.exec t c o s = some (r, s') → le s s'
  event : ∀ {e s s'}, M.event e s = some s' → le s s'
  crash : ∀ t s, le s (M.crash t s)

namespace Growth

variable (G : Growth M)

/-- What stays true once it is. -/
def Lasting (P : M.State → Prop) : Prop := ∀ s s', G.le s s' → P s → P s'

/-- Thread `t` begins where `P` holds, and performs operations of `B` only. -/
def beginning {P : M.State → Prop} (lasting : G.Lasting P) (B : M.Op → Prop) (t : Tid) :
    Discipline M where
  inv := fun _ => True
  fresh := fun u s => u = t → P s
  before := fun u o _ => u = t → B o
  rely := fun _ => G.le
  rely_refl := fun _ => G.refl
  rely_trans := G.trans
  fresh_rely := fun fresh step mine => lasting _ _ step (fresh mine)

section

variable {G} {P : M.State → Prop} {lasting : G.Lasting P} {B : M.Op → Prop} {R : Regime M}
variable {t u : Tid} {s : M.State}

theorem beginning_environment : (G.beginning lasting B t).Environment R where
  event := fun _ _ hevent => ⟨trivial, fun _ => G.event hevent⟩
  crash := fun _ _ => ⟨trivial, fun _ _ => G.crash _ _⟩

/-- One operation is awaited. -/
theorem holds_await {Q : α → M.State → Prop} {E : M.Error → M.State → Prop} {o : M.Op}
    {k : M.Reply o → M.Task α} (may : u = t → B o)
    (next : ∀ s₁ c r s₂, G.le s s₁ → M.exec u c o s₁ = some (r, s₂) →
      ((G.beginning lasting B t).contract R u).Holds Q E (k r) s₂) :
    ((G.beginning lasting B t).contract R u).Holds Q E (.await o k) s :=
  fun s₁ step => ⟨may, fun c r s₂ _ hexec =>
    ⟨⟨trivial, fun _ _ => G.exec hexec⟩, next s₁ c r s₂ step.2 hexec⟩⟩

/-- A task of operations of `B` keeps what lasts. -/
theorem holds_only {task : M.Task α} (only : task.Only B) {F : M.State → Prop}
    (stays : G.Lasting F) (here : F s) :
    ((G.beginning lasting B t).contract R u).Holds (fun _ => F) (fun _ => F) task s :=
  Contract.Holds.only only here (fun _ _ step => stays _ _ step.2) fun _ _ may known =>
    ⟨fun _ => may, fun _ _ _ _ hexec =>
      ⟨⟨trivial, fun _ _ => G.exec hexec⟩, stays _ _ (G.exec hexec) known⟩⟩

/-- Where every operation is allowed, every task is. -/
theorem holds_any (may : ∀ o, u = t → B o) {task : M.Task α} :
    ((G.beginning lasting B t).contract R u).Holds (fun _ _ => True) (fun _ _ => True) task s := by
  induction task generalizing s with
  | done a => exact fun _ _ => trivial
  | thrown e => exact fun _ _ => trivial
  | await o k ih => exact holds_await (may o) fun _ _ r _ _ _ => ih r
  | either left right ihl ihr => exact ⟨ihl, ihr⟩
  | pending => trivial

/-- **A thread that begins where `P` holds** ends as its handler does from there. -/
theorem sound_of_beginning (lasting : G.Lasting P) {handler : Req → M.Task Res}
    {p q : Pool M Req Res} {Q : Req → Res → M.State → Prop}
    (ends : ∀ request s, P s → ((G.beginning lasting B t).contract R t).Holds (Q request)
      (fun _ _ => True) (handler request) s)
    (here : P p.shared) (free : p.slot t = .free) (run : Pool.Steps R handler p q) :
    Discipline.Sound (G.beginning lasting B t) R (fun u request a s => u = t → Q request a s)
      (fun _ _ _ _ => True) q := by
  have sound : Discipline.Sound (G.beginning lasting B t) R
      (fun u (request : Req) (a : Res) s => u = t → Q request a s) (fun _ _ _ _ => True) p := by
    refine ⟨trivial, fun _ _ => here, fun {u _ _} busy => ?_⟩
    have other : u ≠ t := by
      rintro rfl
      rw [free] at busy
      cases busy
    exact (holds_any fun _ mine => absurd mine other).mono
      (fun _ _ _ mine => absurd mine other) fun _ _ _ => trivial
  refine sound.steps beginning_environment ?_ run
  intro u request s _ fresh
  by_cases mine : u = t
  · subst mine
    exact (ends request s (fresh rfl)).mono (fun _ _ done _ => done) fun _ _ _ => trivial
  · exact (holds_any fun _ same => absurd same mine).mono
      (fun _ _ _ same => absurd same mine) fun _ _ _ => trivial

end

end Growth

end Async
