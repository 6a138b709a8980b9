import OrderPlatform.Async.Background
import OrderPlatform.Async.Path

/-!
# What a task makes of its replies

Whether a task returns or throws is up to the replies that it gets, and to nothing else.
`Program.Notes note Q E a task` says so without a machine: while the replies are noted in `a`, the
task returns only what `Q` says and throws only what `E` says, of the notes and the outcome.  The
rules follow the text of a task, as those of `Contract.Holds` do; a task that goes on behind its
caller is of no matter as long as its replies are not noted (`Notes.background`, `Notes.deadline`).

A path of the task in a machine ends as the notes about its log say (`Notes.path`).
-/

namespace Async

namespace Program

variable {Op : Type} {Reply : Op → Type} {ε α β : Type} {A : Type}

/-- While the replies are noted, the task ends only as `Q` and `E` say. -/
def Notes (note : A → (o : Op) → Reply o → A) (Q : A → α → Prop) (E : A → ε → Prop) :
    A → Program Op Reply ε α → Prop
  | a, done v => Q a v
  | a, thrown e => E a e
  | a, await o k => ∀ r, Notes note Q E (note a o r) (k r)
  | a, either p q => Notes note Q E a p ∧ Notes note Q E a q
  | _, pending => True

namespace Notes

variable {note : A → (o : Op) → Reply o → A} {Q : A → α → Prop} {E : A → ε → Prop} {a : A}
variable {p : Program Op Reply ε α}

theorem mono {Q' : A → α → Prop} {E' : A → ε → Prop} (h : Notes note Q E a p)
    (hQ : ∀ a v, Q a v → Q' a v) (hE : ∀ a e, E a e → E' a e) : Notes note Q' E' a p := by
  induction p generalizing a with
  | done v => exact hQ a v h
  | thrown e => exact hE a e h
  | await o k ih => exact fun r => ih r (h r)
  | either p q ihp ihq => exact ⟨ihp h.1, ihq h.2⟩
  | pending => trivial

/-- **Sequencing.** -/
theorem bind {Q' : A → β → Prop} {f : α → Program Op Reply ε β}
    (h : Notes note (fun a v => Notes note Q' E a (f v)) E a p) : Notes note Q' E a (p.bind f) := by
  induction p generalizing a with
  | done v => exact h
  | thrown e => exact h
  | await o k ih => exact fun r => ih r (h r)
  | either p q ihp ihq => exact ⟨ihp h.1, ihq h.2⟩
  | pending => trivial

/-- **`try`/`catch`.** -/
theorem attempt {handler : ε → Program Op Reply ε α}
    (h : Notes note Q (fun a e => Notes note Q E a (handler e)) a p) :
    Notes note Q E a (p.attempt handler) := by
  induction p generalizing a with
  | done v => exact h
  | thrown e => exact h
  | await o k ih => exact fun r => ih r (h r)
  | either p q ihp ihq => exact ⟨ihp h.1, ihq h.2⟩
  | pending => trivial

/-- **`try`/`finally`.** -/
theorem ensuring {q : Program Op Reply ε Unit}
    (h : Notes note (fun a v => Notes note (fun a _ => Q a v) E a q)
      (fun a e => Notes note (fun a _ => E a e) E a q) a p) : Notes note Q E a (p.ensuring q) := by
  induction p generalizing a with
  | done v => exact bind h
  | thrown e => exact bind h
  | await o k ih => exact fun r => ih r (h r)
  | either p q ihp ihq => exact ⟨ihp h.1, ihq h.2⟩
  | pending => trivial

/-! ### Operations whose replies are not noted -/

variable {P : Op → Prop}

/-- A task whose replies are not noted. -/
theorem unnoted (quiet : ∀ a o r, P o → note a o r = a) (only : p.Only P) :
    Notes note (fun a' _ => a' = a) (fun a' _ => a' = a) a p := by
  induction p with
  | done v => rfl
  | thrown e => rfl
  | await o k ih =>
      intro r
      rw [quiet a o r only.1]
      exact ih r (only.2 r)
  | either p q ihp ihq => exact ⟨ihp only.1, ihq only.2⟩
  | pending => trivial

private theorem andThenThrow {e : ε} {Q' : A → β → Prop} (quiet : ∀ a o r, P o → note a o r = a)
    (only : p.Only P) (h : E a e) :
    Notes note Q' E a (p.andThenThrow e : Program Op Reply ε β) := by
  induction p with
  | done v => exact h
  | thrown e' => exact h
  | await o k ih =>
      intro r
      rw [quiet a o r only.1]
      exact ih r (only.2 r)
  | either p q ihp ihq => exact ⟨ihp only.1, ihq only.2⟩
  | pending => trivial

private theorem andThenPend {Q' : A → β → Prop} :
    Notes note Q' E a (p.andThenPend : Program Op Reply ε β) := by
  induction p generalizing a with
  | done v => trivial
  | thrown e => trivial
  | await o k ih => exact fun r => ih r
  | either p q ihp ihq => exact ⟨ihp, ihq⟩
  | pending => trivial

/-- When the other side has returned, the rest of this one is of no matter. -/
private theorem ignore_bind {b : β} {Q' : A → Unit × β → Prop}
    (quiet : ∀ a o r, P o → note a o r = a) (only : p.Only P) (h : Q' a ((), b)) :
    Notes note Q' E a (p.ignore.bind fun x => done (x, b)) := by
  induction p with
  | done v => exact h
  | thrown e => exact h
  | await o k ih =>
      intro r
      rw [quiet a o r only.1]
      exact ih r (only.2 r)
  | either p q ihp ihq => exact ⟨ihp only.1, ihq only.2⟩
  | pending => trivial

private theorem ignore_both {Q' : A → β → Prop} {q : Program Op Reply ε β}
    (quiet : ∀ a o r, P o → note a o r = a) (only : p.Only P) (h : Notes note Q' E a q) :
    Notes note (fun a x => Q' a x.2) E a (p.ignore.both q) := by
  induction p generalizing q a with
  | done v => exact bind (h.mono (fun _ _ known => known) fun _ _ known => known)
  | thrown e => exact bind (h.mono (fun _ _ known => known) fun _ _ known => known)
  | either p p' ihp ihp' => exact ⟨ihp only.1 h, ihp' only.2 h⟩
  | pending => exact andThenPend
  | await o k ih =>
      -- the side that is ignored awaits; the other one may move any number of times
      induction q generalizing a with
      | done b =>
          intro r
          rw [quiet a o r only.1]
          exact ignore_bind quiet (only.2 r) h
      | thrown e =>
          intro r
          rw [quiet a o r only.1]
          exact andThenThrow quiet (Only.ignore (only.2 r)) h
      | either q q' ihq ihq' => exact ⟨ihq h.1, ihq' h.2⟩
      | pending => exact fun r => andThenPend
      | await o' k' ih' =>
          constructor
          · intro r
            rw [quiet a o r only.1]
            exact ih r (only.2 r) h
          · exact fun r => ih' r (h r)

/-- **One task behind another.** -/
theorem background {Q' : A → β → Prop} {q : Program Op Reply ε β}
    (quiet : ∀ a o r, P o → note a o r = a) (only : p.Only P) (h : Notes note Q' E a q) :
    Notes note Q' E a (p.background q) :=
  bind (ignore_both quiet only h)

/-- **A race against a timer**, whatever its outcome. -/
theorem deadline {Q' : A → β → Prop} {late : ε} {next : Except ε α → Program Op Reply ε β}
    (quiet : ∀ a o r, P o → note a o r = a) (only : p.Only P)
    (h : ∀ outcome, Notes note Q' E a (next outcome)) :
    Notes note Q' E a (p.deadline late next) := by
  induction p with
  | done v => exact h (.ok v)
  | thrown e => exact h (.error e)
  | await o k ih =>
      refine ⟨fun r => ?_, background quiet only (h (.error late))⟩
      rw [quiet a o r only.1]
      exact ih r (only.2 r)
  | either p q ihp ihq => exact ⟨ihp only.1, ihq only.2⟩
  | pending => exact h (.error late)

end Notes

end Program

/-! ### In a machine -/

section

variable {M : Machine} {α A : Type} {note : A → (o : M.Op) → M.Reply o → A}

/-- The notes about an operation that has been performed. -/
def Performed.noted (t : Tid) (note : A → (o : M.Op) → M.Reply o → A) (a : A) (x : Performed M) : A :=
  match M.exec t x.choice x.op x.state with
  | some (r, _) => note a x.op r
  | none => a

/-- **A path ends as the notes about its log say.** -/
theorem Program.Notes.path {J : M.State → M.State → Prop} {t : Tid} {Q : A → α → Prop}
    {E : A → M.Error → Prop} {a : A} {task task' : M.Task α} {s s' : M.State}
    {log : List (Performed M)} (path : Path J t task s log task' s')
    (h : Program.Notes note Q E a task) :
    Program.Notes note Q E (log.foldl (Performed.noted t note) a) task' := by
  induction path generalizing a with
  | here step => exact h
  | await step exec rest ih =>
      have noted := ih (h _)
      simpa only [List.foldl_cons, Performed.noted, exec] using noted
  | left rest ih => exact ih h.1
  | right rest ih => exact ih h.2

/-! ### One flag -/

/-- The flag is raised by a bad reply, and it stays raised. -/
def flag {Op : Type} {Reply : Op → Type} (bad : (o : Op) → Reply o → Bool) (raised : Bool) (o : Op)
    (r : Reply o) : Bool := raised || bad o r

/-- An operation has got a bad reply. -/
def Performed.Bad (t : Tid) (bad : (o : M.Op) → M.Reply o → Bool) (x : Performed M) : Prop :=
  ∃ r s', M.exec t x.choice x.op x.state = some (r, s') ∧ bad x.op r = true

theorem Performed.noted_flag {t : Tid} {bad : (o : M.Op) → M.Reply o → Bool} {raised : Bool}
    {x : Performed M} : x.noted t (flag bad) raised = true ↔ raised = true ∨ x.Bad t bad := by
  unfold Performed.noted Performed.Bad flag
  split
  · rename_i r s' performed
    simp [performed]
  · rename_i none
    simp [none]

/-- The flag is up when some reply was bad. -/
theorem flag_iff {t : Tid} {bad : (o : M.Op) → M.Reply o → Bool} (log : List (Performed M)) :
    ∀ raised, log.foldl (Performed.noted t (flag bad)) raised = true ↔
      raised = true ∨ ∃ x ∈ log, x.Bad t bad := by
  induction log with
  | nil => simp
  | cons x rest ih =>
      intro raised
      rw [List.foldl_cons, ih, Performed.noted_flag]
      simp [or_assoc]

/-- **A task that throws just when a reply was bad.** -/
theorem Program.Notes.returns_iff {J : M.State → M.State → Prop} {t : Tid}
    {bad : (o : M.Op) → M.Reply o → Bool} {task task' : M.Task α} {s s' : M.State}
    {log : List (Performed M)} (path : Path J t task s log task' s')
    (h : Program.Notes (flag bad) (fun raised _ => raised = false) (fun raised _ => raised = true)
      false task) :
    (∀ v, task' = .done v → ∀ x ∈ log, ¬x.Bad t bad) ∧
      ∀ e, task' = .thrown e → ∃ x ∈ log, x.Bad t bad := by
  have ended := h.path path
  have raised : log.foldl (Performed.noted t (flag bad)) false = true ↔ _ := flag_iff log false
  constructor
  · rintro v rfl x mem worse
    have down : log.foldl (Performed.noted t (flag bad)) false = false := ended
    rw [raised.mpr (.inr ⟨x, mem, worse⟩)] at down
    cases down
  · rintro e rfl
    have up : log.foldl (Performed.noted t (flag bad)) false = true := ended
    exact (raised.mp up).resolve_left Bool.false_ne_true

end

end Async
