import OrderPlatform.Async.Contract

/-!
# One task among others

`Path J t task s log task' s'` follows one task through its operations, from the state `s` to the
state `s'`, while the state changes behind its back only as `J` allows.  What is left of the task is
`task'`: a leaf when the task has come to its end, anything else when it was given up on the way.
`log` lists the operations it has performed, with the states they have met.

A contract that holds for the task holds for what is left of it (`Contract.Holds.path`), and what
every operation keeps is kept by the path, also where it speaks of the log (`Path.account`).
-/

namespace Async

/-- An operation that was performed, how it went, and the state it has met. -/
structure Performed (M : Machine) where
  choice : M.Choice
  op : M.Op
  state : M.State

variable {M : Machine} {α : Type}

/-- What a task does, up to a moment. -/
inductive Path (J : M.State → M.State → Prop) (t : Tid) :
    M.Task α → M.State → List (Performed M) → M.Task α → M.State → Prop
  | here {task : M.Task α} {s s' : M.State} (step : J s s') : Path J t task s [] task s'
  | await {o : M.Op} {k : M.Reply o → M.Task α} {s s₁ s₂ s' : M.State} {c : M.Choice}
      {r : M.Reply o} {log : List (Performed M)} {task : M.Task α} (step : J s s₁)
      (exec : M.exec t c o s₁ = some (r, s₂)) (rest : Path J t (k r) s₂ log task s') :
      Path J t (.await o k) s (⟨c, o, s₁⟩ :: log) task s'
  | left {p q task : M.Task α} {s s' : M.State} {log : List (Performed M)}
      (rest : Path J t p s log task s') : Path J t (.either p q) s log task s'
  | right {p q task : M.Task α} {s s' : M.State} {log : List (Performed M)}
      (rest : Path J t q s log task s') : Path J t (.either p q) s log task s'

section

variable {J : M.State → M.State → Prop} {t : Tid} {task task' : M.Task α} {s s' : M.State}
variable {log : List (Performed M)}
variable {C : Contract M} {Q : α → M.State → Prop} {E : M.Error → M.State → Prop}

/-- **A contract holds for what is left.** -/
theorem Contract.Holds.path (h : C.Holds Q E task s) (tid : C.tid = t)
    (interferes : ∀ {s s'}, J s s' → C.rely s s') (allowed : ∀ {c o s}, C.allowed c o s)
    (path : Path J t task s log task' s') : C.Holds Q E task' s' := by
  subst tid
  induction path with
  | here step => exact h.later (interferes step)
  | await step exec rest ih => exact ih ((h _ (interferes step)).2 _ _ _ allowed exec).2
  | left rest ih => exact ih h.1
  | right rest ih => exact ih h.2

/-- A path among less is a path among more. -/
theorem Path.mono {J' : M.State → M.State → Prop} (path : Path J t task s log task' s')
    (interferes : ∀ s s', J s s' → J' s s') : Path J' t task s log task' s' := by
  induction path with
  | here step => exact .here (interferes _ _ step)
  | await step exec rest ih => exact .await (interferes _ _ step) exec ih
  | left rest ih => exact .left ih
  | right rest ih => exact .right ih

/-- **What every operation keeps is kept**, also where it speaks of what has been done so far. -/
theorem Path.account {A : Type} {note : A → Performed M → A} {I : A → M.State → Prop} {a : A}
    (path : Path J t task s log task' s') (h : C.Holds Q E task s) (tid : C.tid = t)
    (interferes : ∀ {s s'}, J s s' → C.rely s s') (allowed : ∀ {c o s}, C.allowed c o s)
    (here : I a s) (stable : ∀ {a s s'}, J s s' → I a s → I a s')
    (step : ∀ a c o s r s', C.before o s → C.guar s s' → M.exec t c o s = some (r, s') → I a s →
      I (note a ⟨c, o, s⟩) s') : I (log.foldl note a) s' := by
  subst tid
  induction path generalizing a with
  | here quiet => exact stable quiet here
  | await quiet exec rest ih =>
      obtain ⟨before, next⟩ := h _ (interferes quiet)
      obtain ⟨guar, later⟩ := next _ _ _ allowed exec
      exact ih later (step a _ _ _ _ _ before guar exec (stable quiet here))
  | left rest ih => exact ih h.1 here
  | right rest ih => exact ih h.2 here

end

/-! ### Tasks that come to an end -/

/-- What is left of a task that comes to an end comes to an end. -/
theorem Path.terminates {J : M.State → M.State → Prop} {t : Tid} {task task' : M.Task α}
    {s s' : M.State} {log : List (Performed M)} (path : Path J t task s log task' s')
    (h : task.Terminates) : task'.Terminates := by
  induction path with
  | here step => exact h
  | await step exec rest ih => exact ih (h _)
  | left rest ih => exact ih h.1
  | right rest ih => exact ih h.2

/-- **A task that comes to an end has come to it** when it has no operation left: it has returned or
thrown an error. -/
theorem Path.ended {J : M.State → M.State → Prop} {t : Tid} {task task' : M.Task α}
    {s s' : M.State} {log : List (Performed M)} (path : Path J t task s log task' s')
    (h : task.Terminates) (settled : task'.Settled) : task'.Ended :=
  (path.terminates h).ended settled

/-! ### A task that nobody disturbs -/

/-- The contract of a task that nobody disturbs, every operation of which ends in a state with a
property. -/
def Contract.undisturbed (t : Tid) (I : M.State → Prop) : Contract M where
  tid := t
  allowed _ _ _ := True
  before _ _ := True
  rely s s' := s' = s
  guar _ s' := I s'
  rely_trans := fun h h' => h'.trans h
  rely_self _ := rfl

/-- A task that nobody disturbs never leaves the property, and ends as its contract says. -/
theorem Path.undisturbed {t : Tid} {I : M.State → Prop} {Q : α → M.State → Prop}
    {E : M.Error → M.State → Prop} {task task' : M.Task α} {s s' : M.State}
    {log : List (Performed M)} (path : Path (fun s s' => s' = s) t task s log task' s')
    (h : (Contract.undisturbed t I).Holds Q E task s) (here : I s) :
    I s' ∧ ∀ a, task' = .done a → Q a s' := by
  constructor
  · let note : Unit → Performed M → Unit := fun _ _ => ()
    have accounts := @Path.account M α _ _ _ _ _ _ _ (.undisturbed t I) Q E Unit note (fun _ s => I s) () path
    exact accounts h rfl id trivial here
      (fun same here => same ▸ here) fun _ _ _ _ _ _ _ guar _ _ => guar
  · rintro a rfl
    exact (h.path rfl id trivial path) s' rfl

/-! ### Cutting a path -/

section Cuts

variable {β : Type} {J : M.State → M.State → Prop} {t : Tid} {s s' : M.State}
variable {log : List (Performed M)}

theorem Path.done_inv {a : α} {task' : M.Task α} (path : Path J t (.done a) s log task' s') :
    log = [] ∧ task' = .done a ∧ J s s' := by
  cases path with
  | here step => exact ⟨rfl, rfl, step⟩

theorem Path.thrown_inv {e : M.Error} {task' : M.Task α}
    (path : Path J t (.thrown e) s log task' s') : log = [] ∧ task' = .thrown e ∧ J s s' := by
  cases path with
  | here step => exact ⟨rfl, rfl, step⟩

theorem Path.pending_inv {task' : M.Task α} (path : Path J t .pending s log task' s') :
    log = [] ∧ task' = .pending ∧ J s s' := by
  cases path with
  | here step => exact ⟨rfl, rfl, step⟩

/-- The first operation, if it is performed. -/
theorem Path.await_inv {o : M.Op} {k : M.Reply o → M.Task α} {task' : M.Task α}
    (path : Path J t (.await o k) s log task' s') :
    (log = [] ∧ task' = .await o k ∧ J s s') ∨
      ∃ c r s₁ s₂ rest, log = ⟨c, o, s₁⟩ :: rest ∧ J s s₁ ∧ M.exec t c o s₁ = some (r, s₂) ∧
        Path J t (k r) s₂ rest task' s' := by
  cases path with
  | here step => exact .inl ⟨rfl, rfl, step⟩
  | await step exec rest => exact .inr ⟨_, _, _, _, _, rfl, step, exec, rest⟩

/-- A path performs the operations of its task. -/
theorem Path.only {P : M.Op → Prop} {task task' : M.Task α}
    (path : Path J t task s log task' s') (only : task.Only P) : ∀ p ∈ log, P p.op := by
  induction path with
  | here step => exact List.forall_mem_nil _
  | await step exec rest ih => exact List.forall_mem_cons.mpr ⟨only.1, ih (only.2 _)⟩
  | left rest ih => exact ih only.1
  | right rest ih => exact ih only.2

/-- **Sequencing.**  Either the first part has been given up, or it has returned. -/
theorem Path.bind_cases (quiet : ∀ s, J s s) {p : M.Task α} {f : α → M.Task β} {task' : M.Task β}
    (path : Path J t (p.bind f) s log task' s') :
    (∃ p', Path J t p s log p' s' ∧ task' = p'.bind f ∧ ∀ a, p' ≠ .done a) ∨
      ∃ a s₁ before after, log = before ++ after ∧ Path J t p s before (.done a) s₁ ∧
        Path J t (f a) s₁ after task' s' := by
  induction p generalizing s log with
  | done a => exact .inr ⟨a, s, [], log, rfl, .here (quiet s), path⟩
  | thrown e =>
      obtain ⟨rfl, rfl, step⟩ := path.thrown_inv
      exact .inl ⟨.thrown e, .here step, rfl, nofun⟩
  | await o k ih =>
      obtain ⟨rfl, rfl, step⟩ | ⟨c, r, s₁, s₂, rest, rfl, step, exec, later⟩ := path.await_inv
      · exact .inl ⟨.await o k, .here step, rfl, nofun⟩
      · obtain ⟨p', left, rfl, other⟩ | ⟨a, s₃, before, after, rfl, first, second⟩ := ih r later
        · exact .inl ⟨p', .await step exec left, rfl, other⟩
        · exact .inr ⟨a, s₃, _ :: before, after, rfl, .await step exec first, second⟩
  | either p q ihp ihq =>
      cases path with
      | here step => exact .inl ⟨.either p q, .here step, rfl, nofun⟩
      | left rest =>
          obtain ⟨p', left, rfl, other⟩ | ⟨a, s₃, before, after, rfl, first, second⟩ := ihp rest
          · exact .inl ⟨p', .left left, rfl, other⟩
          · exact .inr ⟨a, s₃, before, after, rfl, .left first, second⟩
      | right rest =>
          obtain ⟨p', left, rfl, other⟩ | ⟨a, s₃, before, after, rfl, first, second⟩ := ihq rest
          · exact .inl ⟨p', .right left, rfl, other⟩
          · exact .inr ⟨a, s₃, before, after, rfl, .right first, second⟩
  | pending =>
      obtain ⟨rfl, rfl, step⟩ := path.pending_inv
      exact .inl ⟨.pending, .here step, rfl, nofun⟩

/-- **`try`/`catch`.** -/
theorem Path.attempt_cases (quiet : ∀ s, J s s) {p : M.Task α} {handler : M.Error → M.Task α}
    {task' : M.Task α} (path : Path J t (p.attempt handler) s log task' s') :
    (∃ p', Path J t p s log p' s' ∧ task' = p'.attempt handler ∧ ∀ e, p' ≠ .thrown e) ∨
      ∃ e s₁ before after, log = before ++ after ∧ Path J t p s before (.thrown e) s₁ ∧
        Path J t (handler e) s₁ after task' s' := by
  induction p generalizing s log with
  | done a =>
      obtain ⟨rfl, rfl, step⟩ := path.done_inv
      exact .inl ⟨.done a, .here step, rfl, nofun⟩
  | thrown e => exact .inr ⟨e, s, [], log, rfl, .here (quiet s), path⟩
  | await o k ih =>
      obtain ⟨rfl, rfl, step⟩ | ⟨c, r, s₁, s₂, rest, rfl, step, exec, later⟩ := path.await_inv
      · exact .inl ⟨.await o k, .here step, rfl, nofun⟩
      · obtain ⟨p', left, rfl, other⟩ | ⟨e, s₃, before, after, rfl, first, second⟩ := ih r later
        · exact .inl ⟨p', .await step exec left, rfl, other⟩
        · exact .inr ⟨e, s₃, _ :: before, after, rfl, .await step exec first, second⟩
  | either p q ihp ihq =>
      cases path with
      | here step => exact .inl ⟨.either p q, .here step, rfl, nofun⟩
      | left rest =>
          obtain ⟨p', left, rfl, other⟩ | ⟨e, s₃, before, after, rfl, first, second⟩ := ihp rest
          · exact .inl ⟨p', .left left, rfl, other⟩
          · exact .inr ⟨e, s₃, before, after, rfl, .left first, second⟩
      | right rest =>
          obtain ⟨p', left, rfl, other⟩ | ⟨e, s₃, before, after, rfl, first, second⟩ := ihq rest
          · exact .inl ⟨p', .right left, rfl, other⟩
          · exact .inr ⟨e, s₃, before, after, rfl, .right first, second⟩
  | pending =>
      obtain ⟨rfl, rfl, step⟩ := path.pending_inv
      exact .inl ⟨.pending, .here step, rfl, nofun⟩

/-- **`try`/`finally`.** -/
theorem Path.ensuring_cases (quiet : ∀ s, J s s) {p : M.Task α} {q : M.Task Unit}
    {task' : M.Task α} (path : Path J t (p.ensuring q) s log task' s') :
    (∃ p', Path J t p s log p' s' ∧ task' = p'.ensuring q ∧ (∀ a, p' ≠ .done a) ∧
        ∀ e, p' ≠ .thrown e) ∨
      ∃ ended s₁ before after, log = before ++ after ∧ Path J t p s before ended s₁ ∧
        ((∃ a, ended = .done a ∧ Path J t (q.bind fun _ => .done a) s₁ after task' s') ∨
          ∃ e, ended = .thrown e ∧ Path J t (q.bind fun _ => .thrown e) s₁ after task' s') := by
  induction p generalizing s log with
  | done a => exact .inr ⟨.done a, s, [], log, rfl, .here (quiet s), .inl ⟨a, rfl, path⟩⟩
  | thrown e => exact .inr ⟨.thrown e, s, [], log, rfl, .here (quiet s), .inr ⟨e, rfl, path⟩⟩
  | await o k ih =>
      obtain ⟨rfl, rfl, step⟩ | ⟨c, r, s₁, s₂, rest, rfl, step, exec, later⟩ := path.await_inv
      · exact .inl ⟨.await o k, .here step, rfl, nofun, nofun⟩
      · obtain ⟨p', left, rfl, other⟩ | ⟨ended, s₃, before, after, rfl, first, second⟩ := ih r later
        · exact .inl ⟨p', .await step exec left, rfl, other⟩
        · exact .inr ⟨ended, s₃, _ :: before, after, rfl, .await step exec first, second⟩
  | either p q' ihp ihq =>
      cases path with
      | here step => exact .inl ⟨.either p q', .here step, rfl, nofun, nofun⟩
      | left rest =>
          obtain ⟨p', left, rfl, other⟩ | ⟨ended, s₃, before, after, rfl, first, second⟩ := ihp rest
          · exact .inl ⟨p', .left left, rfl, other⟩
          · exact .inr ⟨ended, s₃, before, after, rfl, .left first, second⟩
      | right rest =>
          obtain ⟨p', left, rfl, other⟩ | ⟨ended, s₃, before, after, rfl, first, second⟩ := ihq rest
          · exact .inl ⟨p', .right left, rfl, other⟩
          · exact .inr ⟨ended, s₃, before, after, rfl, .right first, second⟩
  | pending =>
      obtain ⟨rfl, rfl, step⟩ := path.pending_inv
      exact .inl ⟨.pending, .here step, rfl, nofun, nofun⟩

end Cuts

/-! ### Evaluating a path -/

/-- Follow a task with nobody else around, and log its operations. -/
def follow (t : Tid) :
    List M.Choice → M.Task α → M.State → Option (List (Performed M) × M.Task α × M.State)
  | [], task, s => some ([], task, s)
  | c :: rest, .await o k, s =>
      (M.exec t c o s).bind fun x =>
        (follow t rest (k x.1) x.2).map fun y => (⟨c, o, s⟩ :: y.1, y.2)
  | _, _, _ => none

theorem path_of_follow {J : M.State → M.State → Prop} {t : Tid} (quiet : ∀ s, J s s)
    (choices : List M.Choice) :
    ∀ {task task' : M.Task α} {s s' : M.State} {log : List (Performed M)},
      follow t choices task s = some (log, task', s') → Path J t task s log task' s' := by
  induction choices with
  | nil =>
      intro task task' s s' log h
      cases h
      exact .here (quiet s)
  | cons c rest ih =>
      intro task task' s s' log h
      cases task with
      | await o k =>
          obtain ⟨x, exec, h⟩ := Option.bind_eq_some_iff.mp h
          obtain ⟨⟨rest', left⟩, followed, same⟩ := Option.map_eq_some_iff.mp h
          cases same
          exact .await (quiet s) exec (ih followed)
      | done a => cases h
      | thrown e => cases h
      | either p q => cases h
      | pending => cases h

/-- A task that is followed to a state with some property. -/
theorem path_of_check {J : M.State → M.State → Prop} (quiet : ∀ s, J s s) (t : Tid)
    (choices : List M.Choice) (task : M.Task α) (s : M.State)
    (P : List (Performed M) → M.Task α → M.State → Prop)
    [∀ log task s, Decidable (P log task s)]
    (check : (follow t choices task s).any (fun x => decide (P x.1 x.2.1 x.2.2)) = true) :
    ∃ log task' s', Path J t task s log task' s' ∧ P log task' s' := by
  obtain ⟨⟨log, task', s'⟩, followed, holds⟩ := (Option.any_eq_true _ _).mp check
  exact ⟨log, task', s', path_of_follow quiet choices followed, of_decide_eq_true holds⟩

end Async
