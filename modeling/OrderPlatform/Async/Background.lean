import OrderPlatform.Async.Contract

/-!
# Work that goes on behind its caller

`Promise.race` against a timer settles as soon as the timer fires, but nothing stops the other
promise: its remaining operations are performed while the caller already handles the timeout.
`Program.deadline` is such a race together with the code behind it.  At every operation the
scheduler may let the timer fire; from then on the rest of the task and the caller's code are two
sides of one thread, and the outcome of the task is dropped.

`Contract.Holds.deadline` follows both continuations.  The task is followed under a contract that
leaves alone what the caller knows (`Contract.Sides`), so that the caller may still rely on it
whenever the timer fires.
-/

namespace Async

namespace Program

variable {Op : Type} {Reply : Op → Type} {ε α β : Type}

/-- Run to the end and drop the outcome. -/
def ignore : Program Op Reply ε α → Program Op Reply ε Unit
  | done _ => done ()
  | thrown _ => done ()
  | await o k => await o fun r => (k r).ignore
  | either p q => either p.ignore q.ignore
  | pending => pending

/-- Run `left` behind `right`: the outcome is that of `right`. -/
def background (left : Program Op Reply ε α) (right : Program Op Reply ε β) :
    Program Op Reply ε β :=
  (left.ignore.both right).bind fun x => done x.2

/-- `Promise.race` of a task and a timer that rejects with `late`, and what its caller does with
the outcome. -/
def deadline (late : ε) (next : Except ε α → Program Op Reply ε β) :
    Program Op Reply ε α → Program Op Reply ε β
  | done a => next (.ok a)
  | thrown e => next (.error e)
  | await o k =>
      either (await o fun r => deadline late next (k r))
        (background (await o k) (next (.error late)))
  | either p q => either (deadline late next p) (deadline late next q)
  | pending => next (.error late)

/-! ### What goes on -/

section Only

variable {P : Op → Prop} {p : Program Op Reply ε α}

theorem Only.ignore (h : p.Only P) : p.ignore.Only P := by
  induction p with
  | done a => trivial
  | thrown e => trivial
  | await o k ih => exact ⟨h.1, fun r => ih r (h.2 r)⟩
  | either p q ihp ihq => exact ⟨ihp h.1, ihq h.2⟩
  | pending => trivial

theorem Only.background {q : Program Op Reply ε β} (h : p.Only P) (h' : q.Only P) :
    (p.background q).Only P :=
  (Only.both h.ignore h').bind fun _ => trivial

theorem Only.deadline {late : ε} {next : Except ε α → Program Op Reply ε β} (h : p.Only P)
    (h' : ∀ outcome, (next outcome).Only P) : (p.deadline late next).Only P := by
  induction p with
  | done a => exact h' (.ok a)
  | thrown e => exact h' (.error e)
  | await o k ih => exact ⟨⟨h.1, fun r => ih r (h.2 r)⟩, Only.background h (h' (.error late))⟩
  | either p q ihp ihq => exact ⟨ihp h.1, ihq h.2⟩
  | pending => exact h' (.error late)

end Only

/-! ### Races come to an end -/

namespace Terminates

variable {p : Program Op Reply ε α}

theorem ignore (h : p.Terminates) : p.ignore.Terminates := by
  induction p with
  | done a => trivial
  | thrown e => trivial
  | await o k ih => exact fun r => ih r (h r)
  | either p q ihp ihq => exact ⟨ihp h.1, ihq h.2⟩
  | pending => exact h

theorem background {q : Program Op Reply ε β} (h : p.Terminates) (h' : q.Terminates) :
    (p.background q).Terminates :=
  (Terminates.both h.ignore h').bind fun _ => trivial

/-- A race comes to an end when the task and its caller do, whenever the timer fires. -/
theorem deadline {late : ε} {next : Except ε α → Program Op Reply ε β} (h : p.Terminates)
    (h' : ∀ outcome, (next outcome).Terminates) : (p.deadline late next).Terminates := by
  induction p with
  | done a => exact h' (.ok a)
  | thrown e => exact h' (.error e)
  | await o k ih => exact ⟨fun r => ih r (h r), Terminates.background h (h' (.error late))⟩
  | either p q ihp ihq => exact ⟨ihp h.1, ihq h.2⟩
  | pending => exact h' (.error late)

end Terminates

end Program

namespace Pool

variable {M : Machine} {Req Res : Type} {R : Regime M} {handler : Req → M.Task Res}

/-- **A thread awaits only what its request allows**, as long as it lasts. -/
theorem Steps.only {P : Req → M.Op → Prop} (handlers : ∀ request, (handler request).Only (P request))
    {s : M.State} {q : Pool M Req Res} (run : Steps R handler (idle s) q) {t : Tid} {request : Req}
    {task : M.Task Res} (busy : q.slot t = .busy request task) : task.Only (P request) := by
  induction run generalizing t request task with
  | refl => cases busy
  | @tail p q _ step ih =>
      -- the slot of one thread changes
      have update : ∀ {u : Tid} {s : M.State} {request' : Req} {task' : M.Task Res},
          q = ⟨s, Function.update p.slot u (.busy request' task')⟩ →
            task'.Only (P request') → task.Only (P request) := by
        intro u s request' task' same only
        have busy : Function.update p.slot u (.busy request' task') t = .busy request task := by
          rw [same] at busy
          exact busy
        by_cases self : t = u
        · rw [self, Function.update_self] at busy
          cases busy
          exact only
        · exact ih ((Function.update_of_ne self _ _).symm.trans busy)
      rcases step_cases step with ⟨u, request', _, same⟩ |
        ⟨u, request', c, o, k, r, s, there, _, _, same⟩ |
        ⟨u, request', left, right, task', there, side, same⟩ | ⟨_, _, _, _, same⟩ |
        ⟨u, request', o, k, _, _, same⟩
      · exact update same (handlers request')
      · exact update same ((ih there).2 r)
      · refine update same ?_
        rcases side with rfl | rfl
        · exact (ih there).1
        · exact (ih there).2
      · rw [same] at busy
        exact ih busy
      · have busy : Function.update p.slot u (.dead request') t = .busy request task := by
          rw [same] at busy
          exact busy
        by_cases self : t = u
        · rw [self, Function.update_self] at busy
          cases busy
        · exact ih ((Function.update_of_ne self _ _).symm.trans busy)

end Pool

namespace Contract

namespace Holds

variable {M : Machine} {α β : Type} {C : Contract M}
variable {Q : α → M.State → Prop} {E : M.Error → M.State → Prop} {s : M.State}

/-- A task whose outcome is dropped. -/
theorem ignore {E' : M.Error → M.State → Prop} {task : M.Task α} (h : C.Holds Q E task s) :
    C.Holds (fun _ _ => True) E' task.ignore s := by
  induction task generalizing s with
  | done a => exact fun _ _ => trivial
  | thrown e => exact fun _ _ => trivial
  | await o k ih =>
      intro s' step
      obtain ⟨before, next⟩ := h s' step
      refine ⟨before, fun c r s'' allowed hexec => ?_⟩
      obtain ⟨guar, rest⟩ := next c r s'' allowed hexec
      exact ⟨guar, ih r rest⟩
  | either p q ihp ihq => exact ⟨ihp h.1, ihq h.2⟩
  | pending => trivial

variable {S : C.Sides} {Q' : β → M.State → Prop} {E' : M.Error → M.State → Prop}

/-- The right side alone keeps the contract of the thread. -/
theorem of_right {task : M.Task β} (h : S.rightContract.Holds Q' E' task s) :
    C.Holds Q' E' task s :=
  h.weaken rfl id id S.right_rely And.left

/-- **One task behind another.** -/
theorem background {p : M.Task α} {q : M.Task β} (hp : S.leftContract.Holds Q E p s)
    (hq : S.rightContract.Holds Q' E' q s) : C.Holds Q' E' (p.background q) s :=
  Holds.map Prod.snd ((parallel hp.ignore hq).mono (fun _ _ both => both.2) fun _ _ error => error)

/-- **A race against a timer.**  What the caller knows (`P`) is left alone by the task, so that it
may be used whenever the timer fires, and when the task is in time. -/
theorem deadline {P : M.State → Prop} {late : M.Error} {next : Except M.Error α → M.Task β}
    {p : M.Task α}
    (h : S.leftContract.Holds (fun a s' => P s' → C.Holds Q' E' (next (.ok a)) s')
      (fun e s' => P s' → C.Holds Q' E' (next (.error e)) s') p s)
    (here : S.left s s) (known : P s) (stable : ∀ {s s'}, S.right s s' → P s → P s')
    (timeout : ∀ s', P s' → S.rightContract.Holds Q' E' (next (.error late)) s') :
    C.Holds Q' E' (p.deadline late next) s := by
  induction p generalizing s with
  | done a => exact h s here known
  | thrown e => exact h s here known
  | await o k ih =>
      constructor
      · -- the task is in time so far
        intro s' step
        obtain ⟨before, rest⟩ := h s' (S.left_rely step)
        refine ⟨before, fun c r s'' allowed hexec => ?_⟩
        obtain ⟨guar, later⟩ := rest c r s'' allowed hexec
        exact ⟨guar.1, ih r later (S.left_self guar.1)
          (stable guar.2 (stable (S.right_rely step) known))⟩
      · exact background h (timeout s known)
  | either p q ihp ihq => exact ⟨ihp h.1 here known, ihq h.2 here known⟩
  | pending => exact of_right (timeout s known)

end Holds

end Contract

end Async
