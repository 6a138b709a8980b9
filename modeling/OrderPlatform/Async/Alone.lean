import OrderPlatform.Async.Pool

/-!
# Running alone

`Machine.alone` feeds a task its choices one after another, with nobody in between.  What a
sequential run of a composed task consists of is read off its parts: `alone_bind`,
`alone_attempt` and `alone_ensuring` cut a run that has returned at `>>=`, at `try`/`catch` and
at `try`/`finally`, and `alone_await` takes its first operation off.
-/

namespace Async

namespace Machine

variable {M : Machine} {α β : Type} {t : Tid} {choices : List M.Choice} {s s' : M.State}

theorem alone_done {a : α} {out : Except M.Error α × M.State}
    (h : alone t choices (.done a : M.Task α) s = some out) : choices = [] ∧ out = (.ok a, s) := by
  cases choices with
  | nil => exact ⟨rfl, (Option.some_inj.mp h).symm⟩
  | cons c rest => cases h

theorem alone_thrown {e : M.Error} {out : Except M.Error α × M.State}
    (h : alone t choices (.thrown e : M.Task α) s = some out) :
    choices = [] ∧ out = (.error e, s) := by
  cases choices with
  | nil => exact ⟨rfl, (Option.some_inj.mp h).symm⟩
  | cons c rest => cases h

/-- The first operation of a run. -/
theorem alone_await {o : M.Op} {k : M.Reply o → M.Task α} {out : Except M.Error α × M.State}
    (h : alone t choices (.await o k) s = some out) :
    ∃ c rest r s₁, choices = c :: rest ∧ M.exec t c o s = some (r, s₁) ∧
      alone t rest (k r) s₁ = some out := by
  cases choices with
  | nil => cases h
  | cons c rest =>
      obtain ⟨⟨r, s₁⟩, exec, after⟩ := Option.bind_eq_some_iff.mp h
      exact ⟨c, rest, r, s₁, rfl, exec, after⟩

/-- **Sequencing.**  A sequence that has returned is two runs that have returned. -/
theorem alone_bind {p : M.Task α} {f : α → M.Task β} {b : β}
    (h : alone t choices (p.bind f) s = some (.ok b, s')) :
    ∃ before after a s₁, choices = before ++ after ∧ alone t before p s = some (.ok a, s₁) ∧
      alone t after (f a) s₁ = some (.ok b, s') := by
  induction p generalizing choices s with
  | done a => exact ⟨[], choices, a, s, rfl, rfl, h⟩
  | thrown e => cases (alone_thrown h).2
  | await o k ih =>
      obtain ⟨c, rest, r, s₁, rfl, exec, later⟩ := alone_await h
      obtain ⟨before, after, a, s₂, rfl, first, second⟩ := ih r later
      refine ⟨c :: before, after, a, s₂, rfl, ?_, second⟩
      show (M.exec t c o s).bind _ = _
      rw [exec]
      exact first
  | either p q _ _ => cases choices <;> cases h
  | pending => cases choices <;> cases h

/-- **`try`/`catch`** whose handler never returns. -/
theorem alone_attempt {p : M.Task α} {handler : M.Error → M.Task α} {a : α}
    (rethrows : ∀ e choices s, alone t choices (handler e) s ≠ some (.ok a, s'))
    (h : alone t choices (p.attempt handler) s = some (.ok a, s')) :
    alone t choices p s = some (.ok a, s') := by
  induction p generalizing choices s with
  | done a => exact h
  | thrown e => exact absurd h (rethrows e choices s)
  | await o k ih =>
      obtain ⟨c, rest, r, s₁, rfl, exec, later⟩ := alone_await h
      show (M.exec t c o s).bind _ = _
      rw [exec]
      exact ih r later
  | either p q _ _ => cases choices <;> cases h
  | pending => cases choices <;> cases h

/-- **`try`/`finally`.**  A run that has returned is one of the body followed by one of the
cleanup. -/
theorem alone_ensuring {p : M.Task α} {q : M.Task Unit} {a : α}
    (h : alone t choices (p.ensuring q) s = some (.ok a, s')) :
    ∃ before after s₁, choices = before ++ after ∧ alone t before p s = some (.ok a, s₁) ∧
      alone t after q s₁ = some (.ok (), s') := by
  induction p generalizing choices s with
  | done a' =>
      obtain ⟨before, after, ⟨⟩, s₁, rfl, cleanup, rest⟩ := alone_bind h
      obtain ⟨rfl, same⟩ := alone_done rest
      cases same
      exact ⟨[], before, s, (List.append_nil before), rfl, cleanup⟩
  | thrown e =>
      obtain ⟨before, after, ⟨⟩, s₁, rfl, _, rest⟩ := alone_bind h
      cases (alone_thrown rest).2
  | await o k ih =>
      obtain ⟨c, rest, r, s₁, rfl, exec, later⟩ := alone_await h
      obtain ⟨before, after, s₂, rfl, first, second⟩ := ih r later
      refine ⟨c :: before, after, s₂, rfl, ?_, second⟩
      show (M.exec t c o s).bind _ = _
      rw [exec]
      exact first
  | either p q _ _ => cases choices <;> cases h
  | pending => cases choices <;> cases h

end Machine

end Async
