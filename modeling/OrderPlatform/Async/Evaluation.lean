import OrderPlatform.Async.Path

/-!
# Evaluating a task

`Evaluates t task s log result s'` says that the task, with nobody in between, runs from `s` to its
end in `s'`, and returns or throws what `result` holds.  `log` lists its operations with the states
they have met.

What the evaluation of a composed task consists of is read off its parts: `Evaluates.bind_cases`
cuts it at `>>=` and `Evaluates.attempt_cases` at `try`/`catch`, errors included.  `MayEnd` goes the
other way, from the operations to an evaluation.
-/

namespace Async

variable {M : Machine} {α β : Type}

/-- The task runs to its end with nobody in between. -/
inductive Evaluates (t : Tid) :
    M.Task α → M.State → List (Performed M) → Except M.Error α → M.State → Prop
  | done (a : α) (s : M.State) : Evaluates t (.done a) s [] (.ok a) s
  | thrown (e : M.Error) (s : M.State) : Evaluates t (.thrown e) s [] (.error e) s
  | await {o : M.Op} {k : M.Reply o → M.Task α} {s s₁ s' : M.State} {c : M.Choice}
      {r : M.Reply o} {log : List (Performed M)} {result : Except M.Error α}
      (exec : M.exec t c o s = some (r, s₁)) (rest : Evaluates t (k r) s₁ log result s') :
      Evaluates t (.await o k) s (⟨c, o, s⟩ :: log) result s'
  | left {p q : M.Task α} {s s' : M.State} {log : List (Performed M)}
      {result : Except M.Error α} (rest : Evaluates t p s log result s') :
      Evaluates t (.either p q) s log result s'
  | right {p q : M.Task α} {s s' : M.State} {log : List (Performed M)}
      {result : Except M.Error α} (rest : Evaluates t q s log result s') :
      Evaluates t (.either p q) s log result s'

namespace Evaluates

variable {t : Tid} {s s' : M.State} {log : List (Performed M)}

theorem done_inv {a : α} {result : Except M.Error α}
    (h : Evaluates t (.done a : M.Task α) s log result s') :
    log = [] ∧ result = .ok a ∧ s' = s := by
  cases h
  exact ⟨rfl, rfl, rfl⟩

theorem thrown_inv {e : M.Error} {result : Except M.Error α}
    (h : Evaluates t (.thrown e : M.Task α) s log result s') :
    log = [] ∧ result = .error e ∧ s' = s := by
  cases h
  exact ⟨rfl, rfl, rfl⟩

/-- Another text of the same task. -/
theorem of_eq {task task' : M.Task α} {result : Except M.Error α} (same : task = task')
    (h : Evaluates t task' s log result s') : Evaluates t task s log result s' :=
  same ▸ h

/-- The first operation. -/
theorem await_inv {o : M.Op} {k : M.Reply o → M.Task α} {result : Except M.Error α}
    (h : Evaluates t (.await o k) s log result s') :
    ∃ c r s₁ rest, log = ⟨c, o, s⟩ :: rest ∧ M.exec t c o s = some (r, s₁) ∧
      Evaluates t (k r) s₁ rest result s' := by
  cases h with
  | await exec rest => exact ⟨_, _, _, _, rfl, exec, rest⟩

/-- **Sequencing.** -/
theorem bind_cases {p : M.Task α} {f : α → M.Task β} {result : Except M.Error β}
    (h : Evaluates t (p.bind f) s log result s') :
    (∃ a s₁ before after, log = before ++ after ∧ Evaluates t p s before (.ok a) s₁ ∧
        Evaluates t (f a) s₁ after result s') ∨
      ∃ e, result = .error e ∧ Evaluates t p s log (.error e) s' := by
  induction p generalizing s log with
  | done a => exact .inl ⟨a, s, [], log, rfl, .done a s, h⟩
  | thrown e =>
      obtain ⟨rfl, rfl, rfl⟩ := thrown_inv h
      exact .inr ⟨e, rfl, .thrown e _⟩
  | await o k ih =>
      obtain ⟨c, r, s₁, rest, rfl, exec, later⟩ := await_inv h
      obtain ⟨a, s₂, before, after, rfl, first, second⟩ | ⟨e, rfl, error⟩ := ih r later
      · exact .inl ⟨a, s₂, _ :: before, after, rfl, .await exec first, second⟩
      · exact .inr ⟨e, rfl, .await exec error⟩
  | either p q ihp ihq =>
      cases h with
      | left rest =>
          obtain ⟨a, s₂, before, after, rfl, first, second⟩ | ⟨e, rfl, error⟩ := ihp rest
          · exact .inl ⟨a, s₂, before, after, rfl, .left first, second⟩
          · exact .inr ⟨e, rfl, .left error⟩
      | right rest =>
          obtain ⟨a, s₂, before, after, rfl, first, second⟩ | ⟨e, rfl, error⟩ := ihq rest
          · exact .inl ⟨a, s₂, before, after, rfl, .right first, second⟩
          · exact .inr ⟨e, rfl, .right error⟩
  | pending => cases h

/-- **`try`/`catch`.** -/
theorem attempt_cases {p : M.Task α} {handler : M.Error → M.Task α}
    {result : Except M.Error α} (h : Evaluates t (p.attempt handler) s log result s') :
    (∃ a, result = .ok a ∧ Evaluates t p s log (.ok a) s') ∨
      ∃ e s₁ before after, log = before ++ after ∧ Evaluates t p s before (.error e) s₁ ∧
        Evaluates t (handler e) s₁ after result s' := by
  induction p generalizing s log with
  | done a =>
      obtain ⟨rfl, rfl, rfl⟩ := done_inv h
      exact .inl ⟨a, rfl, .done a _⟩
  | thrown e => exact .inr ⟨e, s, [], log, rfl, .thrown e s, h⟩
  | await o k ih =>
      obtain ⟨c, r, s₁, rest, rfl, exec, later⟩ := await_inv h
      obtain ⟨a, rfl, returned⟩ | ⟨e, s₂, before, after, rfl, first, second⟩ := ih r later
      · exact .inl ⟨a, rfl, .await exec returned⟩
      · exact .inr ⟨e, s₂, _ :: before, after, rfl, .await exec first, second⟩
  | either p q ihp ihq =>
      cases h with
      | left rest =>
          obtain ⟨a, rfl, returned⟩ | ⟨e, s₂, before, after, rfl, first, second⟩ := ihp rest
          · exact .inl ⟨a, rfl, .left returned⟩
          · exact .inr ⟨e, s₂, before, after, rfl, .left first, second⟩
      | right rest =>
          obtain ⟨a, rfl, returned⟩ | ⟨e, s₂, before, after, rfl, first, second⟩ := ihq rest
          · exact .inl ⟨a, rfl, .right returned⟩
          · exact .inr ⟨e, s₂, before, after, rfl, .right first, second⟩
  | pending => cases h

/-- A part that returns, and then what follows it. -/
theorem bind {p : M.Task α} {f : α → M.Task β} {s₁ : M.State} {before after : List (Performed M)}
    {returned : Except M.Error α} {result : Except M.Error β}
    (first : Evaluates t p s before returned s₁) {a : α} (returns : returned = .ok a)
    (second : Evaluates t (f a) s₁ after result s') :
    Evaluates t (p.bind f) s (before ++ after) result s' := by
  induction first with
  | done a s =>
      cases returns
      exact second
  | thrown e s => cases returns
  | await exec _ ih => exact .await exec (ih returns second)
  | left _ ih => exact .left (ih returns second)
  | right _ ih => exact .right (ih returns second)

/-- A body that returns does not need its handler. -/
theorem attempt {p : M.Task α} {handler : M.Error → M.Task α} {returned : Except M.Error α}
    (h : Evaluates t p s log returned s') {a : α} (returns : returned = .ok a) :
    Evaluates t (p.attempt handler) s log returned s' := by
  induction h with
  | done a s => exact .done a s
  | thrown e s => cases returns
  | await exec _ ih => exact .await exec (ih returns)
  | left _ ih => exact .left (ih returns)
  | right _ ih => exact .right (ih returns)

/-- A body that returns, and then its cleanup. -/
theorem ensuring {p : M.Task α} {q : M.Task Unit} {s₁ : M.State}
    {before after : List (Performed M)} {returned : Except M.Error α}
    (first : Evaluates t p s before returned s₁) {a : α} (returns : returned = .ok a)
    (second : Evaluates t q s₁ after (.ok ()) s') :
    Evaluates t (p.ensuring q) s (before ++ after) returned s' := by
  induction first with
  | done a s =>
      have ends := bind (f := fun _ => .done a) second rfl (.done a s')
      rwa [List.append_nil] at ends
  | thrown e s => cases returns
  | await exec _ ih => exact .await exec (ih returns second)
  | left _ ih => exact .left (ih returns second)
  | right _ ih => exact .right (ih returns second)

/-- **What every operation keeps** is kept to the end, and every operation has met it. -/
theorem keeps {P : M.Op → Prop} {I : M.State → Prop} {task : M.Task α}
    {result : Except M.Error α} (h : Evaluates t task s log result s') (only : task.Only P)
    (here : I s) (step : ∀ c o s r s', P o → M.exec t c o s = some (r, s') → I s → I s') :
    I s' ∧ ∀ p ∈ log, P p.op ∧ I p.state := by
  induction h with
  | done a s => exact ⟨here, List.forall_mem_nil _⟩
  | thrown e s => exact ⟨here, List.forall_mem_nil _⟩
  | await exec rest ih =>
      obtain ⟨kept, met⟩ := ih (only.2 _) (step _ _ _ _ _ only.1 exec here)
      exact ⟨kept, List.forall_mem_cons.mpr ⟨⟨only.1, here⟩, met⟩⟩
  | left rest ih => exact ih only.1 here
  | right rest ih => exact ih only.2 here

end Evaluates

/-! ### In a pool -/

/-- The end of a task with an outcome. -/
def leaf : Except M.Error α → M.Task α
  | .ok a => .done a
  | .error e => .thrown e

section

variable {Req Res : Type} {R : Regime M} {handler : Req → M.Task Res} {q p : Pool M Req Res}

/-- **An evaluation is a run** of a pool in which nobody else moves. -/
theorem Evaluates.steps {t : Tid} {task : M.Task Res} {s s' : M.State} {log : List (Performed M)}
    {result : Except M.Error Res} (h : Evaluates t task s log result s')
    (allowed : ∀ x ∈ log, R.advance t x.choice x.op x.state) (run : Pool.Steps R handler q p)
    (shared : p.shared = s) {request : Req} (busy : p.slot t = .busy request task) :
    ∃ p', Pool.Steps R handler q p' ∧ p'.shared = s' ∧
      p'.slot t = .busy request (leaf result) := by
  induction h generalizing p with
  | done a s => exact ⟨p, run, shared, busy⟩
  | thrown e s => exact ⟨p, run, shared, busy⟩
  | @await o k s s₁ s' c r log result exec rest ih =>
      have may := allowed _ List.mem_cons_self
      subst shared
      obtain ⟨p₁, run₁, shared₁, slot₁⟩ := run.advance busy c may exec
      refine ih (fun x mem => allowed x (List.mem_cons_of_mem _ mem)) run₁ shared₁ ?_
      exact (congrFun slot₁ t).trans (Function.update_self _ _ _)
  | left rest ih =>
      obtain ⟨p₁, run₁, shared₁, slot₁⟩ := run.pick busy true
      exact ih allowed run₁ (shared₁.trans shared)
        ((congrFun slot₁ t).trans (Function.update_self _ _ _))
  | right rest ih =>
      obtain ⟨p₁, run₁, shared₁, slot₁⟩ := run.pick busy false
      exact ih allowed run₁ (shared₁.trans shared)
        ((congrFun slot₁ t).trans (Function.update_self _ _ _))

end

/-- **An evaluation is a path** with nobody in between. -/
theorem Evaluates.path {t : Tid} {task : M.Task α} {s s' : M.State} {log : List (Performed M)}
    {result : Except M.Error α} (h : Evaluates t task s log result s') :
    Path (fun s s' => s' = s) t task s log (leaf result) s' := by
  induction h with
  | done a s => exact .here rfl
  | thrown e s => exact .here rfl
  | await exec rest ih => exact .await rfl exec ih
  | left rest ih => exact .left ih
  | right rest ih => exact .right ih

/-! ### Evaluating by hand -/

/-- Evaluate a task, the left side of every choice moving first. -/
def evaluate (t : Tid) :
    M.Task α → List M.Choice → M.State →
      Option (List (Performed M) × Except M.Error α × M.State)
  | .done a, [], s => some ([], .ok a, s)
  | .thrown e, [], s => some ([], .error e, s)
  | .await o k, c :: rest, s =>
      (M.exec t c o s).bind fun x =>
        (evaluate t (k x.1) rest x.2).map fun y => (⟨c, o, s⟩ :: y.1, y.2)
  | .either p _, choices, s => evaluate t p choices s
  | _, _, _ => none

theorem evaluates_of_evaluate {t : Tid} {task : M.Task α} {choices : List M.Choice} {s s' : M.State}
    {log : List (Performed M)} {result : Except M.Error α}
    (h : evaluate t task choices s = some (log, result, s')) :
    Evaluates t task s log result s' := by
  induction task generalizing choices s log with
  | done a =>
      cases choices with
      | nil => cases h; exact .done a _
      | cons c rest => cases h
  | thrown e =>
      cases choices with
      | nil => cases h; exact .thrown e _
      | cons c rest => cases h
  | await o k ih =>
      cases choices with
      | nil => cases h
      | cons c rest =>
          obtain ⟨x, exec, h⟩ := Option.bind_eq_some_iff.mp h
          obtain ⟨⟨rest', left⟩, evaluated, same⟩ := Option.map_eq_some_iff.mp h
          cases same
          exact .await exec (ih _ evaluated)
  | either p q ihp _ => exact .left (ihp h)
  | pending => cases choices <;> cases h

/-- A task that is evaluated to a state with some property. -/
theorem evaluates_of_check (t : Tid) (choices : List M.Choice) (task : M.Task α) (s : M.State)
    (P : List (Performed M) → Except M.Error α → M.State → Prop)
    [∀ log result s, Decidable (P log result s)]
    (check : (evaluate t task choices s).any (fun x => decide (P x.1 x.2.1 x.2.2)) = true) :
    ∃ log result s', Evaluates t task s log result s' ∧ P log result s' := by
  obtain ⟨⟨log, result, s'⟩, evaluated, holds⟩ := (Option.any_eq_true _ _).mp check
  exact ⟨log, result, s', evaluates_of_evaluate evaluated, of_decide_eq_true holds⟩

/-! ### Ends that are possible -/

/-- The task, with nobody in between, may end like this, its operations going as `allowed` says. -/
def MayEnd (t : Tid) (allowed : M.Choice → M.Op → Prop) (task : M.Task α) (s : M.State)
    (Q : Except M.Error α → M.State → Prop) : Prop :=
  ∃ log result s', Evaluates t task s log result s' ∧
    (∀ p ∈ log, allowed p.choice p.op) ∧ Q result s'

namespace MayEnd

variable {t : Tid} {allowed : M.Choice → M.Op → Prop} {s s₁ : M.State}
variable {Q : Except M.Error α → M.State → Prop}

theorem done {a : α} (h : Q (.ok a) s) : MayEnd t allowed (.done a) s Q :=
  ⟨[], .ok a, s, .done a s, List.forall_mem_nil _, h⟩

theorem thrown {e : M.Error} (h : Q (.error e) s) : MayEnd t allowed (.thrown e) s Q :=
  ⟨[], .error e, s, .thrown e s, List.forall_mem_nil _, h⟩

/-- One operation. -/
theorem await {o : M.Op} {k : M.Reply o → M.Task α} (c : M.Choice) {r : M.Reply o}
    (may : allowed c o) (exec : M.exec t c o s = some (r, s₁))
    (rest : MayEnd t allowed (k r) s₁ Q) : MayEnd t allowed (.await o k) s Q := by
  obtain ⟨log, result, s', evaluates, went, known⟩ := rest
  exact ⟨_, result, s', .await exec evaluates, List.forall_mem_cons.mpr ⟨may, went⟩, known⟩

/-- One task after another. -/
theorem chain {p : M.Task α} {f : α → M.Task β} {Q' : Except M.Error β → M.State → Prop}
    (first : MayEnd t allowed p s Q)
    (next : ∀ result s₁, Q result s₁ → ∃ a, result = .ok a ∧ MayEnd t allowed (f a) s₁ Q') :
    MayEnd t allowed (p.bind f) s Q' := by
  obtain ⟨before, returned, s₁, evaluates, went, known⟩ := first
  obtain ⟨a, returns, after, result, s', evaluates', went', known'⟩ := next returned s₁ known
  exact ⟨_, result, s', evaluates.bind returns evaluates',
    List.forall_mem_append.mpr ⟨went, went'⟩, known'⟩

/-- `try`/`catch` around a task that returns. -/
theorem tried {p : M.Task α} {handler : M.Error → M.Task α} (first : MayEnd t allowed p s Q)
    (returns : ∀ result s₁, Q result s₁ → ∃ a, result = .ok a) :
    MayEnd t allowed (p.attempt handler) s Q := by
  obtain ⟨log, returned, s₁, evaluates, went, known⟩ := first
  obtain ⟨a, same⟩ := returns returned s₁ known
  exact ⟨log, returned, s₁, evaluates.attempt same, went, known⟩

/-- `try`/`catch`/`finally` around a task that returns. -/
theorem guarded {p : M.Task α} {handler : M.Error → M.Task α} {q : M.Task Unit}
    {Q' : Except M.Error α → M.State → Prop} (first : MayEnd t allowed p s Q)
    (next : ∀ result s₁, Q result s₁ → ∃ a, result = .ok a ∧
      MayEnd t allowed q s₁ fun cleaned s' => cleaned = .ok () ∧ Q' result s') :
    MayEnd t allowed ((p.attempt handler).ensuring q) s Q' := by
  obtain ⟨before, returned, s₁, evaluates, went, known⟩ := first
  obtain ⟨a, returns, after, _, s', evaluates', went', rfl, known'⟩ := next returned s₁ known
  exact ⟨_, returned, s', (evaluates.attempt returns).ensuring returns evaluates',
    List.forall_mem_append.mpr ⟨went, went'⟩, known'⟩

end MayEnd

/-! ### Contracts -/

namespace Contract

/-- The contract of a task that nobody disturbs, and whose operations go as `allowed` says. -/
def alone (t : Tid) (allowed : M.Choice → M.Op → M.State → Prop) : Contract M :=
  { undisturbed t fun _ => True with allowed := allowed }

section

variable {t : Tid} {allowed : M.Choice → M.Op → M.State → Prop} {Q : α → M.State → Prop}
variable {E : M.Error → M.State → Prop} {s s' : M.State}

theorem alone_done {a : α} (h : Q a s) : (alone t allowed).Holds Q E (.done a) s := by
  rintro _ rfl
  exact h

theorem alone_thrown {e : M.Error} (h : E e s) : (alone t allowed).Holds Q E (.thrown e) s := by
  rintro _ rfl
  exact h

theorem alone_await {o : M.Op} {k : M.Reply o → M.Task α}
    (h : ∀ c r s', allowed c o s → M.exec t c o s = some (r, s') →
      (alone t allowed).Holds Q E (k r) s') :
    (alone t allowed).Holds Q E (.await o k) s := by
  rintro _ rfl
  exact ⟨trivial, fun c r s' may exec => ⟨trivial, h c r s' may exec⟩⟩

/-- Nothing is asked of the task. -/
theorem alone_anyhow (task : M.Task α) (s : M.State) :
    (alone t allowed).Holds (fun _ _ => True) (fun _ _ => True) task s := by
  induction task generalizing s with
  | done a => exact alone_done trivial
  | thrown e => exact alone_thrown trivial
  | await o k ih => exact alone_await fun c r s' _ _ => ih r s'
  | either p q ihp ihq => exact ⟨ihp s, ihq s⟩
  | pending => trivial

/-- **A contract holds for what is evaluated.** -/
theorem Holds.evaluates {task : M.Task α} {log : List (Performed M)} {result : Except M.Error α}
    (h : (alone t allowed).Holds Q E task s) (evaluates : Evaluates t task s log result s')
    (went : ∀ p ∈ log, allowed p.choice p.op p.state) :
    (∀ a, result = .ok a → Q a s') ∧ ∀ e, result = .error e → E e s' := by
  induction evaluates with
  | done a s => exact ⟨fun a' same => (Except.ok.inj same) ▸ h s rfl, nofun⟩
  | thrown e s => exact ⟨nofun, fun e' same => (Except.error.inj same) ▸ h s rfl⟩
  | await exec rest ih =>
      have next := ((h _ rfl).2 _ _ _ (went _ List.mem_cons_self) exec).2
      exact ih next fun p mem => went p (List.mem_cons_of_mem _ mem)
  | left rest ih => exact ih h.1 went
  | right rest ih => exact ih h.2 went

end

end Contract

end Async
