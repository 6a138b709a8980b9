import OrderPlatform.Async.Pool

/-!
# Rely and guarantee

A thread of a pool is interrupted at every operation it awaits.  What it knows about the
shared state therefore has to survive what the others do, and what it does has to be
tolerable for them.  A `Contract` fixes the two relations for one thread: `rely`, which
covers every interruption, and `guar`, which every operation of the thread has to satisfy.
It also fixes, for each operation, what is true wherever the thread stands before it
(`before`).

`Contract.Holds C task Q E s` says that `task`, started in `s`, keeps the contract whatever
the replies are, and that it returns only values and states that satisfy `Q`, and throws
only errors and states that satisfy `E`.  It is defined by recursion on the task, so that a
proof about a handler follows the handler's text: `Holds.bind` and `Holds.attempt` cut it at
`>>=` and at `try`, `Holds.both` treats two sides that run next to each other, and an awaited
operation is the only place where the machine is consulted.

`Discipline` is what the threads of a whole pool agree on: an invariant of the shared state
and one relation per thread.  `Discipline.Sound` is preserved by every step of a run
(`Sound.step`, `Sound.steps`), and a sound pool's answers satisfy their postconditions
(`Sound.answered`).
-/

namespace Async

/-- The scheduler may let the program perform `o` next. -/
def Program.Awaits {Op : Type} {Reply : Op → Type} {ε α : Type} (o : Op) :
    Program Op Reply ε α → Prop
  | .await o' _ => o' = o
  | .either p q => p.Awaits o ∨ q.Awaits o
  | _ => False

/-- What one thread may assume of its interruptions and owes at each of its operations.

The other threads enter only through `rely`.  What a proof about a handler knows after an operation
is what it knew before it, as far as that survives `rely`, and what the operation has done. -/
structure Contract (M : Machine) where
  tid : Tid
  allowed : M.Choice → M.Op → M.State → Prop
  before : M.Op → M.State → Prop
  rely : M.State → M.State → Prop
  guar : M.State → M.State → Prop
  rely_trans : ∀ {s s' s''}, rely s s' → rely s' s'' → rely s s''
  /-- A state left behind by the thread itself is one from which it may go on at once. -/
  rely_self : ∀ {s s'}, guar s s' → rely s' s'

namespace Contract

variable {M : Machine} {α β γ : Type} {C : Contract M}
variable {Q : α → M.State → Prop} {E : M.Error → M.State → Prop} {s s' : M.State}

/-- The task keeps the contract and ends only as `Q` and `E` say. -/
def Holds (C : Contract M) {α : Type} (Q : α → M.State → Prop) (E : M.Error → M.State → Prop) :
    M.Task α → M.State → Prop
  | .done a, s => ∀ s', C.rely s s' → Q a s'
  | .thrown e, s => ∀ s', C.rely s s' → E e s'
  | .await o k, s =>
      ∀ s', C.rely s s' → C.before o s' ∧
        ∀ c r s'', C.allowed c o s' → M.exec C.tid c o s' = some (r, s'') →
          C.guar s' s'' ∧ Holds C Q E (k r) s''
  | .either p q, s => Holds C Q E p s ∧ Holds C Q E q s
  | .pending, _ => True

theorem holds_await {o : M.Op} {k : M.Reply o → M.Task α} :
    C.Holds Q E (.await o k) s ↔
      ∀ s', C.rely s s' → C.before o s' ∧
        ∀ c r s'', C.allowed c o s' → M.exec C.tid c o s' = some (r, s'') →
          C.guar s' s'' ∧ C.Holds Q E (k r) s'' := Iff.rfl

namespace Holds

/-- What is true wherever the thread may go on. -/
theorem awaits {task : M.Task α} {o : M.Op} (h : C.Holds Q E task s) (here : C.rely s s)
    (next : task.Awaits o) : C.before o s := by
  induction task with
  | done a => exact next.elim
  | thrown e => exact next.elim
  | await o' k _ =>
      obtain rfl : o' = o := next
      exact (h s here).1
  | either p q ihp ihq =>
      rcases next with left | right
      · exact ihp h.1 left
      · exact ihq h.2 right
  | pending => exact next.elim

/-- An interruption does not break a contract that holds. -/
theorem later {task : M.Task α} (h : C.Holds Q E task s) (step : C.rely s s') :
    C.Holds Q E task s' := by
  induction task with
  | done a => exact fun s'' next => h s'' (C.rely_trans step next)
  | thrown e => exact fun s'' next => h s'' (C.rely_trans step next)
  | await o k _ => exact fun s'' next => h s'' (C.rely_trans step next)
  | either p q ihp ihq => exact ⟨ihp h.1, ihq h.2⟩
  | pending => trivial

/-- Weaken the postconditions.  The weakening may use that the final state is one the
thread may stand in. -/
theorem mono {Q' : α → M.State → Prop} {E' : M.Error → M.State → Prop} {task : M.Task α}
    (h : C.Holds Q E task s) (hQ : ∀ a s, Q a s → Q' a s) (hE : ∀ e s, E e s → E' e s) :
    C.Holds Q' E' task s := by
  induction task generalizing s with
  | done a => exact fun s' step => hQ a s' (h s' step)
  | thrown e => exact fun s' step => hE e s' (h s' step)
  | await o k ih =>
      intro s' step
      refine ⟨(h s' step).1, fun c r s'' allowed hexec => ?_⟩
      obtain ⟨guar, rest⟩ := (h s' step).2 c r s'' allowed hexec
      exact ⟨guar, ih r rest⟩
  | either p q ihp ihq => exact ⟨ihp h.1, ihq h.2⟩
  | pending => trivial

/-- **Sequencing.**  The continuation starts in a state the thread may stand in. -/
theorem bind {Q' : β → M.State → Prop} {p : M.Task α} {f : α → M.Task β}
    (h : C.Holds (fun a s => C.rely s s → C.Holds Q' E (f a) s) E p s) (here : C.rely s s) :
    C.Holds Q' E (p.bind f) s := by
  induction p generalizing s with
  | done a => exact h s here here
  | thrown e => exact h
  | await o k ih =>
      intro s' step
      refine ⟨(h s' step).1, fun c r s'' allowed hexec => ?_⟩
      obtain ⟨guar, rest⟩ := (h s' step).2 c r s'' allowed hexec
      exact ⟨guar, ih r rest (C.rely_self guar)⟩
  | either p q ihp ihq => exact ⟨ihp h.1 here, ihq h.2 here⟩
  | pending => trivial

/-- Sequencing, from what is known of the first part. -/
theorem chain {Q' : β → M.State → Prop} {p : M.Task α} {f : α → M.Task β} (h : C.Holds Q E p s)
    (here : C.rely s s) (next : ∀ a s', Q a s' → C.rely s' s' → C.Holds Q' E (f a) s') :
    C.Holds Q' E (p.bind f) s :=
  bind (h.mono (fun a s' known here' => next a s' known here') fun _ _ error => error) here

/-- **`try`/`catch`.** -/
theorem attempt {p : M.Task α} {handler : M.Error → M.Task α}
    (h : C.Holds Q (fun e s => C.rely s s → C.Holds Q E (handler e) s) p s)
    (here : C.rely s s) :
    C.Holds Q E (p.attempt handler) s := by
  induction p generalizing s with
  | done a => exact h
  | thrown e => exact h s here here
  | await o k ih =>
      intro s' step
      refine ⟨(h s' step).1, fun c r s'' allowed hexec => ?_⟩
      obtain ⟨guar, rest⟩ := (h s' step).2 c r s'' allowed hexec
      exact ⟨guar, ih r rest (C.rely_self guar)⟩
  | either p q ihp ihq => exact ⟨ihp h.1 here, ihq h.2 here⟩
  | pending => trivial

/-- The postcondition of a task may be taken at any later moment. -/
theorem closed {task : M.Task α} (h : C.Holds Q E task s) :
    C.Holds (fun a s => ∀ s', C.rely s s' → Q a s') E task s := by
  induction task generalizing s with
  | done a => exact fun s' step s'' next => h s'' (C.rely_trans step next)
  | thrown e => exact h
  | await o k ih =>
      intro s' step
      refine ⟨(h s' step).1, fun c r s'' allowed hexec => ?_⟩
      obtain ⟨guar, rest⟩ := (h s' step).2 c r s'' allowed hexec
      exact ⟨guar, ih r rest⟩
  | either p q ihp ihq => exact ⟨ihp h.1, ihq h.2⟩
  | pending => trivial

/-- A task whose result is mapped. -/
theorem map {Q' : β → M.State → Prop} {p : M.Task α} (f : α → β)
    (h : C.Holds (fun a s => Q' (f a) s) E p s) : C.Holds Q' E (p.bind fun a => .done (f a)) s := by
  induction p generalizing s with
  | done a => exact h
  | thrown e => exact h
  | await o k ih =>
      intro s' step
      refine ⟨(h s' step).1, fun c r s'' allowed hexec => ?_⟩
      obtain ⟨guar, rest⟩ := (h s' step).2 c r s'' allowed hexec
      exact ⟨guar, ih r rest⟩
  | either p q ihp ihq => exact ⟨ihp h.1, ihq h.2⟩
  | pending => trivial

/-- A task whose errors are turned into results. -/
theorem recover {p : M.Task α} (f : M.Error → α) (h : C.Holds Q (fun e s => Q (f e) s) p s) :
    C.Holds Q E (p.attempt fun e => .done (f e)) s := by
  induction p generalizing s with
  | done a => exact h
  | thrown e => exact h
  | await o k ih =>
      intro s' step
      refine ⟨(h s' step).1, fun c r s'' allowed hexec => ?_⟩
      obtain ⟨guar, rest⟩ := (h s' step).2 c r s'' allowed hexec
      exact ⟨guar, ih r rest⟩
  | either p q ihp ihq => exact ⟨ihp h.1, ihq h.2⟩
  | pending => trivial

/-- **`try`/`finally`.** -/
theorem ensuring {p : M.Task α} {q : M.Task Unit}
    (h : C.Holds (fun a s => C.rely s s → C.Holds (fun _ s => Q a s) E q s)
      (fun e s => C.rely s s → C.Holds (fun _ s => E e s) E q s) p s)
    (here : C.rely s s) : C.Holds Q E (p.ensuring q) s := by
  induction p generalizing s with
  | done a => exact bind ((h s here here).closed.mono (fun _ _ later _ => later) fun _ _ h => h) here
  | thrown e =>
      exact bind ((h s here here).closed.mono (fun _ _ later _ => later) fun _ _ h => h) here
  | await o k ih =>
      intro s' step
      refine ⟨(h s' step).1, fun c r s'' allowed hexec => ?_⟩
      obtain ⟨guar, rest⟩ := (h s' step).2 c r s'' allowed hexec
      exact ⟨guar, ih r rest (C.rely_self guar)⟩
  | either p q ihp ihq => exact ⟨ihp h.1 here, ihq h.2 here⟩
  | pending => trivial

/-- **Consequence.**  A contract may be exchanged for one that interrupts less and owes less. -/
theorem weaken {C' : Contract M} {task : M.Task α} (h : C.Holds Q E task s)
    (tid : C'.tid = C.tid) (allowed : ∀ {c o s}, C'.allowed c o s → C.allowed c o s)
    (before : ∀ {o s}, C.before o s → C'.before o s)
    (rely : ∀ {s s'}, C'.rely s s' → C.rely s s')
    (guar : ∀ {s s'}, C.guar s s' → C'.guar s s') : C'.Holds Q E task s := by
  induction task generalizing s with
  | done a => exact fun s' step => h s' (rely step)
  | thrown e => exact fun s' step => h s' (rely step)
  | await o k ih =>
      intro s' step
      obtain ⟨standing, next⟩ := h s' (rely step)
      refine ⟨before standing, fun c r s'' may hexec => ?_⟩
      rw [tid] at hexec
      obtain ⟨owed, rest⟩ := next c r s'' (allowed may) hexec
      exact ⟨guar owed, ih r rest⟩
  | either p q ihp ihq => exact ⟨ihp h.1, ihq h.2⟩
  | pending => trivial

/-- **A task whose operations all keep a property** keeps it to its end, if interruptions do. -/
theorem only {P : M.Op → Prop} {I : M.State → Prop} {task : M.Task α} (h : task.Only P)
    (here : I s) (stable : ∀ s s', C.rely s s' → I s → I s')
    (step : ∀ o s, P o → I s → C.before o s ∧ ∀ c r s', C.allowed c o s →
      M.exec C.tid c o s = some (r, s') → C.guar s s' ∧ I s') :
    C.Holds (fun _ => I) (fun _ => I) task s := by
  induction task generalizing s with
  | done a => exact fun s' quiet => stable s s' quiet here
  | thrown e => exact fun s' quiet => stable s s' quiet here
  | await o k ih =>
      intro s' quiet
      obtain ⟨before, next⟩ := step o s' h.1 (stable s s' quiet here)
      refine ⟨before, fun c r s'' allowed hexec => ?_⟩
      obtain ⟨guar, kept⟩ := next c r s'' allowed hexec
      exact ⟨guar, ih r (h.2 r) kept⟩
  | either p q ihp ihq => exact ⟨ihp h.1 here, ihq h.2 here⟩
  | pending => trivial

/-- One operation awaited for its reply. -/
theorem perform {o : M.Op} {Q : M.Reply o → M.State → Prop}
    (h : ∀ s', C.rely s s' → C.before o s' ∧
      ∀ c r s'', C.allowed c o s' → M.exec C.tid c o s' = some (r, s'') →
        C.guar s' s'' ∧ ∀ s''', C.rely s'' s''' → Q r s''') :
    C.Holds Q E (Program.perform o) s := h

end Holds

/-! ### Two sides of one thread

The two sides of a `Program.both` interrupt each other under one thread name.  Each side has a
`rely` of its own, no stricter than that of the thread, and every operation of one side has to
stay within the `rely` of the other. -/

/-- What the two sides of one thread tolerate. -/
structure Sides (C : Contract M) where
  left : M.State → M.State → Prop
  right : M.State → M.State → Prop
  left_rely : ∀ {s s'}, C.rely s s' → left s s'
  right_rely : ∀ {s s'}, C.rely s s' → right s s'
  left_trans : ∀ {s s' s''}, left s s' → left s' s'' → left s s''
  right_trans : ∀ {s s' s''}, right s s' → right s' s'' → right s s''
  left_self : ∀ {s s'}, C.guar s s' → left s' s'
  right_self : ∀ {s s'}, C.guar s s' → right s' s'

namespace Sides

/-- The contract of the left side. -/
def leftContract (S : C.Sides) : Contract M where
  tid := C.tid
  allowed := C.allowed
  before := C.before
  rely := S.left
  guar s s' := C.guar s s' ∧ S.right s s'
  rely_trans := S.left_trans
  rely_self h := S.left_self h.1

/-- The sides with their names exchanged. -/
def swap (S : C.Sides) : C.Sides where
  left := S.right
  right := S.left
  left_rely := S.right_rely
  right_rely := S.left_rely
  left_trans := S.right_trans
  right_trans := S.left_trans
  left_self := S.right_self
  right_self := S.left_self

/-- The contract of the right side. -/
def rightContract (S : C.Sides) : Contract M := S.swap.leftContract

end Sides

namespace Holds

variable {S : C.Sides}

/-- When the other side has ended, its result stays admissible and this side keeps the contract of
the whole thread. -/
private theorem left_alone {Q' : β → M.State → Prop} {P : M.State → Prop} {task : M.Task α}
    (f : α → β) (h : S.leftContract.Holds Q E task s) (stable : ∀ s', S.right s s' → P s')
    (result : ∀ a s', Q a s' → P s' → Q' (f a) s') :
    C.Holds Q' E (task.bind fun a => .done (f a)) s := by
  induction task generalizing s with
  | done a =>
      exact fun s' step => result a s' (h s' (S.left_rely step)) (stable s' (S.right_rely step))
  | thrown e => exact fun s' step => h s' (S.left_rely step)
  | await o k ih =>
      intro s' step
      obtain ⟨before, next⟩ := h s' (S.left_rely step)
      refine ⟨before, fun c r s'' allowed hexec => ?_⟩
      obtain ⟨guar, rest⟩ := next c r s'' allowed hexec
      exact ⟨guar.1, ih r rest fun t after =>
        stable t (S.right_trans (S.right_rely step) (S.right_trans guar.2 after))⟩
  | either p q ihp ihq => exact ⟨ihp h.1 stable, ihq h.2 stable⟩
  | pending => trivial

/-- When the other side has thrown, this side runs on and the error stays admissible. -/
private theorem left_andThenThrow {Q' : β → M.State → Prop} {e : M.Error} {task : M.Task α}
    (h : S.leftContract.Holds Q E task s) (stable : ∀ s', S.right s s' → E e s') :
    C.Holds Q' E (task.andThenThrow e) s := by
  induction task generalizing s with
  | done a => exact fun s' step => stable s' (S.right_rely step)
  | thrown e' => exact fun s' step => stable s' (S.right_rely step)
  | await o k ih =>
      intro s' step
      obtain ⟨before, next⟩ := h s' (S.left_rely step)
      refine ⟨before, fun c r s'' allowed hexec => ?_⟩
      obtain ⟨guar, rest⟩ := next c r s'' allowed hexec
      exact ⟨guar.1, ih r rest fun t after =>
        stable t (S.right_trans (S.right_rely step) (S.right_trans guar.2 after))⟩
  | either p q ihp ihq => exact ⟨ihp h.1 stable, ihq h.2 stable⟩
  | pending => trivial

/-- When the other side does not settle, this side runs on and its outcome is dropped. -/
private theorem left_andThenPend {Q' : β → M.State → Prop} {task : M.Task α}
    (h : S.leftContract.Holds Q E task s) : C.Holds Q' E task.andThenPend s := by
  induction task generalizing s with
  | done a => trivial
  | thrown e' => trivial
  | await o k ih =>
      intro s' step
      obtain ⟨before, next⟩ := h s' (S.left_rely step)
      refine ⟨before, fun c r s'' allowed hexec => ?_⟩
      obtain ⟨guar, rest⟩ := next c r s'' allowed hexec
      exact ⟨guar.1, ih r rest⟩
  | either p q ihp ihq => exact ⟨ihp h.1, ihq h.2⟩
  | pending => trivial

/-- **Two sides**, each of which stays within what the other one tolerates. -/
theorem parallel {Q' : β → M.State → Prop} {p : M.Task α} {q : M.Task β}
    (hp : S.leftContract.Holds Q E p s) (hq : S.rightContract.Holds Q' E q s) :
    C.Holds (fun x s => Q x.1 s ∧ Q' x.2 s) E (p.both q) s := by
  induction p generalizing s q with
  | done a => exact left_alone (S := S.swap) (fun b => (a, b)) hq hp fun b s' hb ha => ⟨ha, hb⟩
  | thrown e => exact left_andThenThrow (S := S.swap) hq hp
  | either p p' ihp ihp' => exact ⟨ihp hp.1 hq, ihp' hp.2 hq⟩
  | pending => exact left_andThenPend (S := S.swap) hq
  | await o k ih =>
      -- the left side has an operation to perform: the right side decides who is next
      induction q generalizing s with
      | done b => exact left_alone (fun a => (a, b)) hp hq fun a s' ha hb => ⟨ha, hb⟩
      | thrown e => exact left_andThenThrow hp hq
      | either q q' ihq ihq' => exact ⟨ihq hp hq.1, ihq' hp hq.2⟩
      | pending => exact left_andThenPend hp
      | await o' k' ih' =>
          constructor
          · intro s' step
            obtain ⟨before, next⟩ := hp s' (S.left_rely step)
            refine ⟨before, fun c r s'' allowed hexec => ?_⟩
            obtain ⟨guar, rest⟩ := next c r s'' allowed hexec
            exact ⟨guar.1, ih r rest (hq.later (S.right_trans (S.right_rely step) guar.2))⟩
          · intro s' step
            obtain ⟨before, next⟩ := hq s' (S.right_rely step)
            refine ⟨before, fun c r s'' allowed hexec => ?_⟩
            obtain ⟨guar, rest⟩ := next c r s'' allowed hexec
            exact ⟨guar.1, ih' r (hp.later (S.left_trans (S.left_rely step) guar.2)) rest⟩

end Holds

/-! Two sides that tolerate no more than the thread does are the common case: each keeps the
contract `C.quiet`. -/

/-- The contract whose operations are, to the thread itself, no worse than interruptions. -/
def quiet (C : Contract M) : Contract M where
  tid := C.tid
  allowed := C.allowed
  before := C.before
  rely := C.rely
  guar s s' := C.guar s s' ∧ C.rely s s'
  rely_trans := C.rely_trans
  rely_self h := C.rely_self h.1

/-- Both sides tolerate what the thread tolerates. -/
def evenSides (C : Contract M) : C.Sides where
  left := C.rely
  right := C.rely
  left_rely h := h
  right_rely h := h
  left_trans := C.rely_trans
  right_trans := C.rely_trans
  left_self := C.rely_self
  right_self := C.rely_self

namespace Holds

theorem of_quiet {task : M.Task α} (h : C.quiet.Holds Q E task s) : C.Holds Q E task s :=
  h.weaken rfl id id id And.left

/-- A fact that survives interruptions survives a quiet task. -/
theorem frame {P : M.State → Prop} {task : M.Task α} (h : C.quiet.Holds Q E task s)
    (stable : ∀ s', C.rely s s' → P s') :
    C.quiet.Holds (fun a s => Q a s ∧ P s) (fun e s => E e s ∧ P s) task s := by
  induction task generalizing s with
  | done a => exact fun s' step => ⟨h s' step, stable s' step⟩
  | thrown e => exact fun s' step => ⟨h s' step, stable s' step⟩
  | await o k ih =>
      intro s' step
      refine ⟨(h s' step).1, fun c r s'' allowed hexec => ?_⟩
      obtain ⟨guar, rest⟩ := (h s' step).2 c r s'' allowed hexec
      exact ⟨guar, ih r rest fun t after =>
        stable t (C.rely_trans step (C.rely_trans guar.2 after))⟩
  | either p q ihp ihq => exact ⟨ihp h.1 stable, ihq h.2 stable⟩
  | pending => trivial

/-- Two quiet tasks may run next to each other. -/
theorem both {Q' : β → M.State → Prop} {p : M.Task α} {q : M.Task β}
    (hp : C.quiet.Holds Q E p s) (hq : C.quiet.Holds Q' E q s) :
    C.quiet.Holds (fun x s => Q x.1 s ∧ Q' x.2 s) E (p.both q) s :=
  parallel (S := C.quiet.evenSides) (hp.weaken rfl id id id fun owed => ⟨owed, owed.2⟩)
    (hq.weaken rfl id id id fun owed => ⟨owed, owed.2⟩)

end Holds

end Contract

/-! ### Pools -/

/-- What the threads of a pool agree on: an invariant of the shared state, for each thread
the changes of the shared state that it tolerates, what is known of a thread name that has
not been used yet, and what is true of a thread that stands before an operation.

A discipline is proved once for a service: each handler is verified alone against its contract, and
`Sound` then holds in every run, whatever the interleaving. -/
structure Discipline (M : Machine) where
  inv : M.State → Prop
  fresh : Tid → M.State → Prop
  before : Tid → M.Op → M.State → Prop := fun _ _ _ => True
  rely : Tid → M.State → M.State → Prop
  rely_refl : ∀ t s, rely t s s
  rely_trans : ∀ {t s s' s''}, rely t s s' → rely t s' s'' → rely t s s''
  fresh_rely : ∀ {t s s'}, fresh t s → rely t s s' → fresh t s'

namespace Discipline

variable {M : Machine} {Req Res : Type}

/-- A change that keeps the invariant and that every thread but `t` tolerates. -/
def Tolerable (D : Discipline M) (t : Tid) (s s' : M.State) : Prop :=
  D.inv s' ∧ ∀ u, u ≠ t → D.rely u s s'

/-- The contract of one thread. -/
def contract (D : Discipline M) (R : Regime M) (t : Tid) : Contract M where
  tid := t
  allowed := R.advance t
  before := D.before t
  rely s s' := D.inv s' ∧ D.rely t s s'
  guar := D.Tolerable t
  rely_trans h h' := ⟨h'.1, D.rely_trans h.2 h'.2⟩
  rely_self h := ⟨h.1, D.rely_refl _ _⟩

/-- What the environment owes to the threads. -/
structure Environment (D : Discipline M) (R : Regime M) : Prop where
  event : ∀ {e s s'}, D.inv s → R.event e s → M.event e s = some s' →
    D.inv s' ∧ ∀ u, D.rely u s s'
  crash : ∀ {t s}, D.inv s → R.crash t s → D.Tolerable t s (M.crash t s)

/-- The shared state satisfies the invariant, and the task of every busy thread keeps the
discipline and ends as its postconditions say. -/
structure Sound (D : Discipline M) (R : Regime M) (Q : Tid → Req → Res → M.State → Prop)
    (E : Tid → Req → M.Error → M.State → Prop) (p : Pool M Req Res) : Prop where
  inv : D.inv p.shared
  free : ∀ {t}, p.slot t = .free → D.fresh t p.shared
  busy : ∀ {t request task}, p.slot t = .busy request task →
    (D.contract R t).Holds (Q t request) (E t request) task p.shared

variable {D : Discipline M} {R : Regime M} {handler : Req → M.Task Res}
variable {Q : Tid → Req → Res → M.State → Prop} {E : Tid → Req → M.Error → M.State → Prop}
variable {p q : Pool M Req Res}

/-- The handlers keep the discipline from every state they may be started in. -/
def Handles (D : Discipline M) (R : Regime M) (handler : Req → M.Task Res)
    (Q : Tid → Req → Res → M.State → Prop) (E : Tid → Req → M.Error → M.State → Prop) : Prop :=
  ∀ t request s, D.inv s → D.fresh t s →
    (D.contract R t).Holds (Q t request) (E t request) (handler request) s

/-- Handlers that end as `Q` and `E` say end somehow. -/
theorem Handles.any {D : Discipline M} {R : Regime M} {handler : Req → M.Task Res}
    {Q : Tid → Req → Res → M.State → Prop} {E : Tid → Req → M.Error → M.State → Prop}
    (h : D.Handles R handler Q E) :
    D.Handles R handler (fun _ _ _ _ => True) (fun _ _ _ _ => True) :=
  fun t request s inv fresh =>
    (h t request s inv fresh).mono (fun _ _ _ => trivial) (fun _ _ _ => trivial)

theorem sound_idle {s : M.State} (h : D.inv s) (fresh : ∀ t, D.fresh t s) :
    Sound D R Q E (Pool.idle s : Pool M Req Res) := ⟨h, fun _ => fresh _, nofun⟩

namespace Sound

/-- Only the slot of `t` changes, to `slot`, and the shared state changes tolerably. -/
theorem update {t : Tid} {s : M.State} {slot : Slot M Req Res} (h : Sound D R Q E p)
    (step : D.Tolerable t p.shared s) (used : slot ≠ .free)
    (own : ∀ {request task}, slot = .busy request task →
      (D.contract R t).Holds (Q t request) (E t request) task s) :
    Sound D R Q E ⟨s, Function.update p.slot t slot⟩ := by
  refine ⟨step.1, ?_, ?_⟩
  · intro u hslot
    have other : u ≠ t := by
      rintro rfl
      exact used (by simpa using hslot)
    simp only [Function.update_of_ne other] at hslot
    exact D.fresh_rely (h.free hslot) (step.2 u other)
  intro u request task hslot
  by_cases same : u = t
  · subst same
    exact own (by simpa using hslot)
  · simp only [Function.update_of_ne same] at hslot
    exact (h.busy hslot).later ⟨step.1, step.2 u same⟩

/-- A sound pool whose answers are of no interest. -/
theorem any (h : Sound D R Q E p) :
    Sound D R (fun _ _ _ _ => True) (fun _ _ _ _ => True) p :=
  ⟨h.inv, h.free, fun busy => (h.busy busy).mono (fun _ _ _ => trivial) (fun _ _ _ => trivial)⟩

/-- **One step keeps a pool sound**, whoever takes it. -/
theorem step (h : Sound D R Q E p) (env : D.Environment R) (handles : D.Handles R handler Q E)
    (hstep : Pool.Step R handler p q) : Sound D R Q E q := by
  have still : ∀ t, D.Tolerable t p.shared p.shared := fun t =>
    ⟨h.inv, fun u _ => D.rely_refl u _⟩
  rcases Pool.step_cases hstep with ⟨t, request, free, rfl⟩ |
    ⟨t, request, c, o, k, r, s, busy, allowed, hexec, rfl⟩ |
    ⟨t, request, left, right, task, busy, side, rfl⟩ |
    ⟨e, s, allowed, hevent, rfl⟩ | ⟨t, request, o, k, _, allowed, rfl⟩
  · refine h.update (still t) nofun fun hslot => ?_
    cases hslot
    exact handles t request p.shared h.inv (h.free free)
  · obtain ⟨guar, rest⟩ :=
      (h.busy busy p.shared ⟨h.inv, D.rely_refl t _⟩).2 c r s allowed hexec
    refine h.update guar nofun fun hslot => ?_
    cases hslot
    exact rest
  · refine h.update (still t) nofun fun hslot => ?_
    cases hslot
    rcases side with rfl | rfl
    · exact (h.busy busy).1
    · exact (h.busy busy).2
  · obtain ⟨inv, tolerated⟩ := env.event h.inv allowed hevent
    exact ⟨inv, fun free => D.fresh_rely (h.free free) (tolerated _),
      fun busy => (h.busy busy).later ⟨inv, tolerated _⟩⟩
  · exact h.update (env.crash h.inv allowed) nofun nofun

/-- **A whole run keeps a pool sound.** -/
theorem steps (h : Sound D R Q E p) (env : D.Environment R) (handles : D.Handles R handler Q E)
    (run : Pool.Steps R handler p q) : Sound D R Q E q := by
  induction run with
  | refl => exact h
  | tail _ hstep ih => exact ih.step env handles hstep

/-- What a thread has answered satisfies the postcondition of its request. -/
theorem answered {t : Tid} {request : Req} {v : Res} (h : Sound D R Q E p)
    (answer : p.Answered t request v) : Q t request v p.shared :=
  h.busy answer p.shared ⟨h.inv, D.rely_refl t _⟩

/-- What is true of a thread that stands before an operation. -/
theorem standing {t : Tid} {request : Req} {o : M.Op} {k : M.Reply o → M.Task Res}
    (h : Sound D R Q E p) (busy : p.slot t = .busy request (.await o k)) :
    D.before t o p.shared :=
  (h.busy busy p.shared ⟨h.inv, D.rely_refl t _⟩).1

/-- What is true of a thread that the scheduler may let perform an operation. -/
theorem awaiting {t : Tid} {request : Req} {task : M.Task Res} {o : M.Op}
    (h : Sound D R Q E p) (busy : p.slot t = .busy request task) (next : task.Awaits o) :
    D.before t o p.shared :=
  (h.busy busy).awaits ⟨h.inv, D.rely_refl t _⟩ next

/-- What a thread has failed with satisfies the exceptional postcondition. -/
theorem failed {t : Tid} {request : Req} {e : M.Error} (h : Sound D R Q E p)
    (failure : p.Failed t request e) : E t request e p.shared :=
  h.busy failure p.shared ⟨h.inv, D.rely_refl t _⟩

/-- What is true of every name when no request is in progress. -/
theorem settled {P : Tid → M.State → Prop} (h : Sound D R Q E p) (settled : p.Settled)
    (fresh : ∀ t s, D.fresh t s → P t s) (answered : ∀ t request v s, Q t request v s → P t s)
    (failed : ∀ t request e s, E t request e s → P t s)
    (dead : ∀ t request, p.slot t = .dead request → P t p.shared) (t : Tid) : P t p.shared := by
  have here := settled t
  cases slot : p.slot t with
  | free => exact fresh t _ (h.free slot)
  | dead request => exact dead t request slot
  | busy request task =>
      rw [slot] at here
      cases task with
      | done v => exact answered t request v _ (h.answered slot)
      | thrown e => exact failed t request e _ (h.failed slot)
      | await o k => cases here
      | either l r => cases here
      | pending => cases here

/-- A thread that has answered tolerates whatever a step does. -/
private theorem still_step {t : Tid} {request : Req} {v : Res} (h : Sound D R Q E p)
    (env : D.Environment R) (answer : p.Answered t request v)
    (hstep : Pool.Step R handler p q) : D.rely t p.shared q.shared := by
  rcases Pool.step_cases hstep with ⟨_, _, _, rfl⟩ |
    ⟨u, request, c, o, k, r, s, busy, allowed, hexec, rfl⟩ | ⟨_, _, _, _, _, _, _, rfl⟩ |
    ⟨e, s, allowed, hevent, rfl⟩ | ⟨u, request, o, k, busy, allowed, rfl⟩
  · exact D.rely_refl t _
  · have other : t ≠ u := by rintro rfl; simp [Pool.Answered, busy] at answer
    have done := (h.busy busy p.shared ⟨h.inv, D.rely_refl u _⟩).2 c r s allowed hexec
    exact done.1.2 t other
  · exact D.rely_refl t _
  · exact (env.event h.inv allowed hevent).2 t
  · have other : t ≠ u := by rintro rfl; simp [Pool.Answered, busy] at answer
    exact (env.crash h.inv allowed).2 t other

/-- **A thread that has answered tolerates whatever the rest of the run does.** -/
theorem still {t : Tid} {request : Req} {v : Res} (h : Sound D R Q E p) (env : D.Environment R)
    (handles : D.Handles R handler Q E) (answer : p.Answered t request v)
    (run : Pool.Steps R handler p q) : D.rely t p.shared q.shared := by
  induction run with
  | refl => exact D.rely_refl t _
  | tail before hstep ih =>
      exact D.rely_trans ih
        ((h.steps env handles before).still_step env (answer.steps before) hstep)

/-- **An invariant beside the discipline.**  Whatever is kept by the operations that threads
standing as they do may perform, by the environment and by crashes, is kept by a run. -/
theorem invariant {I : M.State → Prop} (h : Sound D R Q E p) (env : D.Environment R)
    (handles : D.Handles R handler Q E) (here : I p.shared)
    (advance : ∀ t c o s r s', D.inv s → D.before t o s → R.advance t c o s →
      M.exec t c o s = some (r, s') → I s → I s')
    (event : ∀ e s s', D.inv s → R.event e s → M.event e s = some s' → I s → I s')
    (crash : ∀ t s, D.inv s → R.crash t s → I s → I (M.crash t s))
    (run : Pool.Steps R handler p q) : I q.shared := by
  induction run with
  | refl => exact here
  | tail before hstep ih =>
      have sound := h.steps env handles before
      rcases Pool.step_cases hstep with ⟨_, _, _, rfl⟩ |
        ⟨t, request, c, o, k, r, s, busy, allowed, hexec, rfl⟩ | ⟨_, _, _, _, _, _, _, rfl⟩ |
        ⟨e, s, allowed, hevent, rfl⟩ | ⟨t, request, o, k, busy, allowed, rfl⟩
      · exact ih
      · exact advance t c o _ r s sound.inv (sound.standing busy) allowed hexec ih
      · exact ih
      · exact event e _ s sound.inv allowed hevent ih
      · exact crash t _ sound.inv allowed ih

/-- **What is true of a thread when it dies stays true**, if it survives interruptions. -/
theorem dead {P : Tid → M.State → Prop} (h : Sound D R Q E p) (env : D.Environment R)
    (handles : D.Handles R handler Q E)
    (here : ∀ t request, p.slot t = .dead request → P t p.shared)
    (stable : ∀ t s s', D.rely t s s' → P t s → P t s')
    (dies : ∀ t s, D.inv s → R.crash t s → P t (M.crash t s))
    (run : Pool.Steps R handler p q) : ∀ t request, q.slot t = .dead request → P t q.shared := by
  -- only the slot of `t` changes, and `t` does not die of it
  have alive : ∀ {p : Pool M Req Res} {t : Tid} {s : M.State} {request : Req} {task : M.Task Res},
      (∀ u request, p.slot u = .dead request → P u p.shared) →
      (∀ u, u ≠ t → D.rely u p.shared s) → ∀ u request',
        Function.update p.slot t (.busy request task) u = .dead request' → P u s := by
    intro p t s request task before others u request' dead
    by_cases same : u = t
    · rw [same, Function.update_self] at dead
      cases dead
    · rw [Function.update_of_ne same] at dead
      exact stable u p.shared s (others u same) (before u request' dead)
  induction run with
  | refl => exact here
  | @tail p' q before hstep ih =>
      have sound := h.steps env handles before
      rcases Pool.step_cases hstep with ⟨t, request, _, rfl⟩ |
        ⟨t, request, c, o, k, r, s, busy, allowed, hexec, rfl⟩ | ⟨t, request, _, _, _, _, _, rfl⟩ |
        ⟨e, s, allowed, hevent, rfl⟩ | ⟨t, request, o, k, busy, allowed, rfl⟩
      · exact alive ih fun u _ => D.rely_refl u _
      · exact alive ih ((sound.busy busy _ ⟨sound.inv, D.rely_refl t _⟩).2 c r s allowed hexec).1.2
      · exact alive ih fun u _ => D.rely_refl u _
      · exact fun u request' dead =>
          stable u _ _ ((env.event sound.inv allowed hevent).2 u) (ih u request' dead)
      · intro u request' dead
        by_cases same : u = t
        · subst same
          exact dies u _ sound.inv allowed
        · refine stable u _ _ ((env.crash sound.inv allowed).2 u same) (ih u request' ?_)
          exact (Function.update_of_ne same _ _).symm.trans dead

end Sound

/-! ### From a moment on -/

section Since

variable {P P' : M.State → Prop}

/-- The discipline from a moment on: what is true then, and survives every interruption, belongs
to the invariant. -/
def since (D : Discipline M) (P : M.State → Prop) : Discipline M where
  inv s := D.inv s ∧ P s
  fresh := D.fresh
  before := D.before
  rely := D.rely
  rely_refl := D.rely_refl
  rely_trans := D.rely_trans
  fresh_rely := D.fresh_rely

/-- A tolerable change is tolerable from any moment on: there is always another thread to vouch
for what is stable. -/
theorem Tolerable.since {t : Tid} {s s' : M.State}
    (stable : ∀ {t s s'}, D.rely t s s' → P s → P s') (h : D.Tolerable t s s') (here : P s) :
    (D.since P).Tolerable t s s' :=
  ⟨⟨h.1, stable (h.2 (t + 1) (Nat.succ_ne_self t)) here⟩, h.2⟩

theorem Environment.since (stable : ∀ {t s s'}, D.rely t s s' → P s → P s')
    (env : D.Environment R) : (D.since P).Environment R where
  event := fun inv allowed hevent =>
    have step := env.event inv.1 allowed hevent
    ⟨⟨step.1, stable (step.2 0) inv.2⟩, step.2⟩
  crash := fun inv allowed => (env.crash inv.1 allowed).since stable inv.2

/-- A task that keeps the discipline from one moment on keeps it from a later one on. -/
private theorem holds_since {α : Type} {t : Tid} {Q : α → M.State → Prop}
    {E : M.Error → M.State → Prop} {task : M.Task α} {s : M.State}
    (stable : ∀ {t s s'}, D.rely t s s' → P' s → P' s') (later : ∀ s, P' s → P s)
    (h : ((D.since P).contract R t).Holds Q E task s) :
    ((D.since P').contract R t).Holds Q E task s := by
  have weaker : ∀ {s s'}, ((D.since P').contract R t).rely s s' →
      ((D.since P).contract R t).rely s s' :=
    fun step => ⟨⟨step.1.1, later _ step.1.2⟩, step.2⟩
  induction task generalizing s with
  | done a => exact fun s' step => h s' (weaker step)
  | thrown e => exact fun s' step => h s' (weaker step)
  | await o k ih =>
      intro s' step
      refine ⟨(h s' (weaker step)).1, fun c r s'' allowed hexec => ?_⟩
      obtain ⟨guar, rest⟩ := (h s' (weaker step)).2 c r s'' allowed hexec
      have tolerable : D.Tolerable t s' s'' := ⟨guar.1.1, guar.2⟩
      exact ⟨tolerable.since stable step.1.2, ih r rest⟩
  | either p q ihp ihq => exact ⟨ihp h.1, ihq h.2⟩
  | pending => trivial

/-- **A sound pool is sound from a later moment on.**  Nothing is said any more of the answers
of threads that are already under way; the answers of all others may refer to the moment. -/
theorem Sound.since {Q' : Tid → Req → Res → M.State → Prop}
    {E' : Tid → Req → M.Error → M.State → Prop}
    (stable : ∀ {t s s'}, D.rely t s s' → P' s → P' s') (h : Sound (D.since P) R Q E p)
    (now : P' p.shared) (later : ∀ s, P' s → P s) :
    Sound (D.since P') R (fun t request v s => p.slot t = .free → Q' t request v s)
      (fun t request e s => p.slot t = .free → E' t request e s) p where
  inv := ⟨h.inv.1, now⟩
  free := h.free
  busy := fun {t request task} busy => by
    refine (holds_since stable later (h.busy busy)).mono ?_ ?_
    · intro _ _ _ free
      rw [busy] at free
      cases free
    · intro _ _ _ free
      rw [busy] at free
      cases free

end Since

end Discipline

end Async
