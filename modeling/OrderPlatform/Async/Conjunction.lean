import OrderPlatform.Async.Contract

/-!
# Two disciplines at once

What a pool agrees on may come in parts that have little to do with each other, each with its own
knowledge and its own tolerance.  `Discipline.and` puts two of them together: a task that keeps the
one and the other keeps both (`Holds.and`), so each part is proved on its own, and an invariant of the
runs may use what both of them know of a thread that awaits something.
-/

namespace Async

namespace Discipline

/-- What both disciplines ask for. -/
def and {M : Machine} (D D' : Discipline M) : Discipline M where
  inv s := D.inv s ∧ D'.inv s
  fresh t s := D.fresh t s ∧ D'.fresh t s
  before t o s := D.before t o s ∧ D'.before t o s
  rely t s s' := D.rely t s s' ∧ D'.rely t s s'
  rely_refl t s := ⟨D.rely_refl t s, D'.rely_refl t s⟩
  rely_trans h h' := ⟨D.rely_trans h.1 h'.1, D'.rely_trans h.2 h'.2⟩
  fresh_rely h h' := ⟨D.fresh_rely h.1 h'.1, D'.fresh_rely h.2 h'.2⟩

end Discipline

namespace Contract

/-- **A task that keeps two disciplines** keeps them together. -/
theorem Holds.and {M : Machine} {D D' : Discipline M} {R : Regime M} {α : Type} {t : Tid}
    {Q Q' : α → M.State → Prop} {E E' : M.Error → M.State → Prop} {task : M.Task α} {s : M.State}
    (h : (D.contract R t).Holds Q E task s) (h' : (D'.contract R t).Holds Q' E' task s) :
    ((D.and D').contract R t).Holds (fun a s => Q a s ∧ Q' a s) (fun e s => E e s ∧ E' e s)
      task s := by
  have parts : ∀ {s s'}, ((D.and D').contract R t).rely s s' →
      (D.contract R t).rely s s' ∧ (D'.contract R t).rely s s' :=
    fun step => ⟨⟨step.1.1, step.2.1⟩, ⟨step.1.2, step.2.2⟩⟩
  induction task generalizing s with
  | done a => exact fun s' step => ⟨h s' (parts step).1, h' s' (parts step).2⟩
  | thrown e => exact fun s' step => ⟨h s' (parts step).1, h' s' (parts step).2⟩
  | await o k ih =>
      intro s' step
      obtain ⟨before, next⟩ := h s' (parts step).1
      obtain ⟨before', next'⟩ := h' s' (parts step).2
      refine ⟨⟨before, before'⟩, fun c r s'' allowed hexec => ?_⟩
      obtain ⟨guar, rest⟩ := next c r s'' allowed hexec
      obtain ⟨guar', rest'⟩ := next' c r s'' allowed hexec
      exact ⟨⟨⟨guar.1, guar'.1⟩, fun u other => ⟨guar.2 u other, guar'.2 u other⟩⟩,
        ih r rest rest'⟩
  | either p q ihp ihq => exact ⟨ihp h.1 h'.1, ihq h.2 h'.2⟩
  | pending => trivial

end Contract

namespace Discipline

variable {M : Machine} {Req Res : Type} {D D' : Discipline M} {R : Regime M}

theorem Environment.and (env : D.Environment R) (env' : D'.Environment R) :
    (D.and D').Environment R where
  event inv allowed hevent :=
    have step := env.event inv.1 allowed hevent
    have step' := env'.event inv.2 allowed hevent
    ⟨⟨step.1, step'.1⟩, fun u => ⟨step.2 u, step'.2 u⟩⟩
  crash inv allowed :=
    have step := env.crash inv.1 allowed
    have step' := env'.crash inv.2 allowed
    ⟨⟨step.1, step'.1⟩, fun u other => ⟨step.2 u other, step'.2 u other⟩⟩

theorem Handles.and {handler : Req → M.Task Res} {Q Q' : Tid → Req → Res → M.State → Prop}
    {E E' : Tid → Req → M.Error → M.State → Prop} (h : D.Handles R handler Q E)
    (h' : D'.Handles R handler Q' E') :
    (D.and D').Handles R handler (fun t request v s => Q t request v s ∧ Q' t request v s)
      fun t request e s => E t request e s ∧ E' t request e s :=
  fun t request s inv fresh =>
    (h t request s inv.1 fresh.1).and (h' t request s inv.2 fresh.2)

end Discipline

end Async
