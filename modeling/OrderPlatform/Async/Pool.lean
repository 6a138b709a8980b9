import Mathlib.Data.Nat.Notation
import Mathlib.Logic.Function.Basic
import Mathlib.Logic.Relation
import OrderPlatform.Async.Program

/-!
# Pools of interleaved programs

A `Machine` says what the awaited operations do to the state that all programs share: it is
the only place where an operation gets a meaning.  `Machine.exec` is a partial function of a
*choice*, which resolves whatever the operation leaves open (a failure, an order, an
identifier); it is undefined where the operation has to wait.

A `Pool` is the shared state together with one `Slot` per thread name.  One `Move` of the
pool starts a thread on a request, lets one thread perform the operation it awaits, resolves
an internal choice, lets the environment act, or kills a thread.  Moves are data, so a
schedule is a list of moves and `Pool.run` evaluates it.

Which moves a run may contain is a separate matter: a `Regime` restricts the choices of the
operations, the events of the environment and the crashes, by a condition on the state the
move starts from.  `Step` and `Steps` are the runs of a regime.
-/

namespace Async

/-- Thread names. -/
abbrev Tid := ℕ

/-- The meaning of the operations on a shared state.

A choice resolves what the program does not determine: whether a command fails, which row order a
query has, which random value is drawn.  Where `exec` is `none`, the operation cannot be performed
in this state with this choice. -/
structure Machine where
  Op : Type
  Reply : Op → Type
  Error : Type
  State : Type
  /-- What resolves the nondeterminism of an operation. -/
  Choice : Type
  /-- What the environment may do on its own. -/
  Event : Type
  /-- Perform an operation for a thread; `none` where the choice does not apply or the
  operation has to wait. -/
  exec : Tid → Choice → (o : Op) → State → Option (Reply o × State)
  event : Event → State → Option State
  /-- What the death of a thread leaves behind. -/
  crash : Tid → State → State

namespace Machine

/-- A program over the operations of `M`. -/
abbrev Task (M : Machine) (α : Type) := Program M.Op M.Reply M.Error α

variable {M : Machine} {α : Type}

/-- Run a task alone, its operations resolved by the given choices.  Defined where the
choices are just enough for the task to return or throw. -/
def alone (t : Tid) : List M.Choice → M.Task α → M.State → Option (Except M.Error α × M.State)
  | [], .done a, s => some (.ok a, s)
  | [], .thrown e, s => some (.error e, s)
  | c :: rest, .await o k, s =>
      (M.exec t c o s).bind fun x => alone t rest (k x.1) x.2
  | _, _, _ => none

end Machine

/-- A thread name is free, in use by a request that is being handled (or has been: its
task is then a leaf), or was killed while it handled a request. -/
inductive Slot (M : Machine) (Req Res : Type)
  | free
  | busy (request : Req) (task : M.Task Res)
  | dead (request : Req)

namespace Slot

variable {M : Machine} {Req Res : Type}

/-- Whether nothing runs in the slot. -/
def isFree : Slot M Req Res → Bool
  | free => true
  | _ => false

/-- No request is being handled under this name. -/
def isSettled : Slot M Req Res → Bool
  | free => true
  | busy _ (.done _) => true
  | busy _ (.thrown _) => true
  | busy _ _ => false
  | dead _ => true

theorem eq_free {slot : Slot M Req Res} (h : slot.isFree = true) : slot = free := by
  cases slot with
  | free => rfl
  | busy request task => cases h
  | dead request => cases h

end Slot

/-- The shared state and the threads that work on it. -/
structure Pool (M : Machine) (Req Res : Type) where
  shared : M.State
  slot : Tid → Slot M Req Res

/-- One move of a pool. -/
inductive Move (M : Machine) (Req : Type)
  | start (t : Tid) (request : Req)
  | advance (t : Tid) (choice : M.Choice)
  | pick (t : Tid) (left : Bool)
  | event (e : M.Event)
  | crash (t : Tid)

/-- Which moves a run may contain.

Every condition is on the state before the move, so that a result about the runs of a regime is a
result about all runs that have met the condition so far. -/
structure Regime (M : Machine) where
  advance : Tid → M.Choice → M.Op → M.State → Prop
  event : M.Event → M.State → Prop
  crash : Tid → M.State → Prop

namespace Pool

variable {M : Machine} {Req Res : Type}

/-- The pool in which no thread has started. -/
def idle (s : M.State) : Pool M Req Res := ⟨s, fun _ => .free⟩

/-- Thread `t` has answered its request with `v`. -/
def Answered (p : Pool M Req Res) (t : Tid) (request : Req) (v : Res) : Prop :=
  p.slot t = .busy request (.done v)

/-- Thread `t` has failed its request with `e`. -/
def Failed (p : Pool M Req Res) (t : Tid) (request : Req) (e : M.Error) : Prop :=
  p.slot t = .busy request (.thrown e)

/-- What thread `t` has answered. -/
def answer (p : Pool M Req Res) (t : Tid) : Option Res :=
  match p.slot t with
  | .busy _ (.done v) => some v
  | _ => none

/-- The request that thread `t` has answered, and its answer. -/
def exchange (p : Pool M Req Res) (t : Tid) : Option (Req × Res) :=
  match p.slot t with
  | .busy request (.done v) => some (request, v)
  | _ => none

theorem answered_of_exchange {p : Pool M Req Res} {t : Tid} {request : Req} {v : Res}
    (h : p.exchange t = some (request, v)) : p.Answered t request v := by
  unfold exchange at h
  split at h
  · rename_i busy
    cases h
    exact busy
  · cases h

/-- What thread `t` has failed with. -/
def failure (p : Pool M Req Res) (t : Tid) : Option M.Error :=
  match p.slot t with
  | .busy _ (.thrown e) => some e
  | _ => none

/-- No request is in progress. -/
def Settled (p : Pool M Req Res) : Prop := ∀ t, (p.slot t).isSettled = true

/-- Perform one move; `none` where it is not possible. -/
def next (handler : Req → M.Task Res) (p : Pool M Req Res) : Move M Req → Option (Pool M Req Res)
  | .start t request =>
      match p.slot t with
      | .free => some { p with slot := Function.update p.slot t (.busy request (handler request)) }
      | _ => none
  | .advance t choice =>
      match p.slot t with
      | .busy request (.await o k) =>
          (M.exec t choice o p.shared).map fun x =>
            ⟨x.2, Function.update p.slot t (.busy request (k x.1))⟩
      | _ => none
  | .pick t left =>
      match p.slot t with
      | .busy request (.either q q') =>
          some { p with slot := Function.update p.slot t (.busy request (bif left then q else q')) }
      | _ => none
  | .event e => (M.event e p.shared).map fun s => { p with shared := s }
  | .crash t =>
      match p.slot t with
      | .busy request (.await _ _) =>
          some ⟨M.crash t p.shared, Function.update p.slot t (.dead request)⟩
      | _ => none

/-- The condition a regime puts on a move of this pool. -/
def Allows (R : Regime M) (p : Pool M Req Res) : Move M Req → Prop
  | .advance t choice =>
      match p.slot t with
      | .busy _ (.await o _) => R.advance t choice o p.shared
      | _ => True
  | .event e => R.event e p.shared
  | .crash t => R.crash t p.shared
  | _ => True

instance decidableAllows (R : Regime M) [∀ t c o s, Decidable (R.advance t c o s)]
    [∀ e s, Decidable (R.event e s)] [∀ t s, Decidable (R.crash t s)] (p : Pool M Req Res) :
    (m : Move M Req) → Decidable (p.Allows R m)
  | .start _ _ => inferInstanceAs (Decidable True)
  | .pick _ _ => inferInstanceAs (Decidable True)
  | .event e => inferInstanceAs (Decidable (R.event e p.shared))
  | .crash t => inferInstanceAs (Decidable (R.crash t p.shared))
  | .advance t c =>
      match h : p.slot t with
      | .busy _ (.await o _) => decidable_of_iff (R.advance t c o p.shared) (by simp [Allows, h])
      | .busy _ (.done _) => .isTrue (by simp [Allows, h])
      | .busy _ (.thrown _) => .isTrue (by simp [Allows, h])
      | .busy _ (.either _ _) => .isTrue (by simp [Allows, h])
      | .busy _ .pending => .isTrue (by simp [Allows, h])
      | .free => .isTrue (by simp [Allows, h])
      | .dead _ => .isTrue (by simp [Allows, h])

/-- One step of a run. -/
def Step (R : Regime M) (handler : Req → M.Task Res) (p q : Pool M Req Res) : Prop :=
  ∃ m, p.Allows R m ∧ p.next handler m = some q

/-- The runs of a regime. -/
def Steps (R : Regime M) (handler : Req → M.Task Res) :
    Pool M Req Res → Pool M Req Res → Prop :=
  Relation.ReflTransGen (Step R handler)

/-- Evaluate a schedule, checking every move against the regime. -/
def run (R : Regime M) (handler : Req → M.Task Res) [∀ t c o s, Decidable (R.advance t c o s)]
    [∀ e s, Decidable (R.event e s)] [∀ t s, Decidable (R.crash t s)] :
    Pool M Req Res → List (Move M Req) → Option (Pool M Req Res)
  | p, [] => some p
  | p, m :: rest =>
      if p.Allows R m then (p.next handler m).bind fun q => run R handler q rest else none

/-- An evaluated schedule is a run. -/
theorem steps_of_run (R : Regime M) (handler : Req → M.Task Res)
    [∀ t c o s, Decidable (R.advance t c o s)] [∀ e s, Decidable (R.event e s)]
    [∀ t s, Decidable (R.crash t s)] (moves : List (Move M Req)) :
    ∀ {p q : Pool M Req Res}, run R handler p moves = some q → Steps R handler p q := by
  induction moves with
  | nil => intro p q h; cases h; exact .refl
  | cons m rest ih =>
      intro p q h
      simp only [run] at h
      split at h
      · rename_i allowed
        obtain ⟨mid, hmid, hrest⟩ := Option.bind_eq_some_iff.mp h
        exact .head ⟨m, allowed, hmid⟩ (ih hrest)
      · cases h

/-- A schedule that is checked to lead to a pool with some property is a run that leads to
such a pool. -/
theorem steps_of_check (R : Regime M) (handler : Req → M.Task Res)
    [∀ t c o s, Decidable (R.advance t c o s)] [∀ e s, Decidable (R.event e s)]
    [∀ t s, Decidable (R.crash t s)] (p : Pool M Req Res) (moves : List (Move M Req))
    (P : Pool M Req Res → Prop) [DecidablePred P]
    (check : (run R handler p moves).any (fun q => decide (P q)) = true) :
    ∃ q, Steps R handler p q ∧ P q := by
  cases reached : run R handler p moves with
  | none => simp [reached] at check
  | some q => exact ⟨q, steps_of_run R handler moves reached, by simpa [reached] using check⟩

/-! ### What a move can do -/

section

variable {handler : Req → M.Task Res} {p q : Pool M Req Res} {t : Tid}

theorem next_start {request : Req} (h : p.next handler (.start t request) = some q) :
    p.slot t = .free ∧
      q = ⟨p.shared, Function.update p.slot t (.busy request (handler request))⟩ := by
  simp only [next] at h
  split at h
  · rename_i free
    exact ⟨free, (Option.some_inj.mp h).symm⟩
  · cases h

theorem next_advance {choice : M.Choice} (h : p.next handler (.advance t choice) = some q) :
    ∃ request o k r s, p.slot t = .busy request (.await o k) ∧
      M.exec t choice o p.shared = some (r, s) ∧
      q = ⟨s, Function.update p.slot t (.busy request (k r))⟩ := by
  simp only [next] at h
  split at h
  · rename_i request o k busy
    obtain ⟨x, hx, rfl⟩ := Option.map_eq_some_iff.mp h
    exact ⟨request, o, k, x.1, x.2, busy, hx, rfl⟩
  · cases h

theorem next_pick {left : Bool} (h : p.next handler (.pick t left) = some q) :
    ∃ request l r task, p.slot t = .busy request (.either l r) ∧ (task = l ∨ task = r) ∧
      q = ⟨p.shared, Function.update p.slot t (.busy request task)⟩ := by
  simp only [next] at h
  split at h
  · rename_i request l r busy
    refine ⟨request, l, r, _, busy, ?_, (Option.some_inj.mp h).symm⟩
    cases left
    · exact .inr rfl
    · exact .inl rfl
  · cases h

theorem next_event {e : M.Event} (h : p.next handler (.event e) = some q) :
    ∃ s, M.event e p.shared = some s ∧ q = ⟨s, p.slot⟩ := by
  obtain ⟨s, hs, rfl⟩ := Option.map_eq_some_iff.mp h
  exact ⟨s, hs, rfl⟩

theorem next_crash (h : p.next handler (.crash t) = some q) :
    ∃ request o k, p.slot t = .busy request (.await o k) ∧
      q = ⟨M.crash t p.shared, Function.update p.slot t (.dead request)⟩ := by
  simp only [next] at h
  split at h
  · rename_i request o k busy
    exact ⟨request, o, k, busy, (Option.some_inj.mp h).symm⟩
  · cases h

end

/-- **What a step can do**, one case per kind of move. -/
theorem step_cases {R : Regime M} {handler : Req → M.Task Res} {p q : Pool M Req Res}
    (h : Step R handler p q) :
    (∃ t request, p.slot t = .free ∧
      q = ⟨p.shared, Function.update p.slot t (.busy request (handler request))⟩) ∨
    (∃ t request choice o k r s, p.slot t = .busy request (.await o k) ∧
      R.advance t choice o p.shared ∧ M.exec t choice o p.shared = some (r, s) ∧
      q = ⟨s, Function.update p.slot t (.busy request (k r))⟩) ∨
    (∃ t request left right task, p.slot t = .busy request (.either left right) ∧
      (task = left ∨ task = right) ∧
      q = ⟨p.shared, Function.update p.slot t (.busy request task)⟩) ∨
    (∃ e s, R.event e p.shared ∧ M.event e p.shared = some s ∧ q = ⟨s, p.slot⟩) ∨
    (∃ t request o k, p.slot t = .busy request (.await o k) ∧ R.crash t p.shared ∧
      q = ⟨M.crash t p.shared, Function.update p.slot t (.dead request)⟩) := by
  obtain ⟨m, allowed, hnext⟩ := h
  cases m with
  | start t request => exact .inl ⟨t, request, next_start hnext⟩
  | advance t choice =>
      obtain ⟨request, o, k, r, s, busy, hexec, same⟩ := next_advance hnext
      simp only [Allows, busy] at allowed
      exact .inr (.inl ⟨t, request, choice, o, k, r, s, busy, allowed, hexec, same⟩)
  | pick t left =>
      obtain ⟨request, l, r, task, busy, side, same⟩ := next_pick hnext
      exact .inr (.inr (.inl ⟨t, request, l, r, task, busy, side, same⟩))
  | event e =>
      obtain ⟨s, hs, same⟩ := next_event hnext
      exact .inr (.inr (.inr (.inl ⟨e, s, allowed, hs, same⟩)))
  | crash t =>
      obtain ⟨request, o, k, busy, same⟩ := next_crash hnext
      exact .inr (.inr (.inr (.inr ⟨t, request, o, k, busy, allowed, same⟩)))

/-! ### Extending a run -/

section

variable {R : Regime M} {handler : Req → M.Task Res} {p q : Pool M Req Res} {t : Tid}
variable {request : Req}

theorem Steps.start (run : Steps R handler p q) (free : q.slot t = .free) (request : Req) :
    ∃ q' : Pool M Req Res, Steps R handler p q' ∧ q'.shared = q.shared ∧
      q'.slot = Function.update q.slot t (.busy request (handler request)) :=
  ⟨⟨q.shared, Function.update q.slot t (.busy request (handler request))⟩, run.tail
    ⟨.start t request, trivial, by simp only [next, free]⟩, rfl, rfl⟩

theorem Steps.advance {o : M.Op} {k : M.Reply o → M.Task Res} {r : M.Reply o} {s : M.State}
    (run : Steps R handler p q) (busy : q.slot t = .busy request (.await o k)) (choice : M.Choice)
    (allowed : R.advance t choice o q.shared) (hexec : M.exec t choice o q.shared = some (r, s)) :
    ∃ q' : Pool M Req Res, Steps R handler p q' ∧ q'.shared = s ∧
      q'.slot = Function.update q.slot t (.busy request (k r)) :=
  ⟨⟨s, Function.update q.slot t (.busy request (k r))⟩, run.tail
    ⟨.advance t choice, by simpa only [Allows, busy] using allowed,
      by simp only [next, busy, hexec, Option.map_some]⟩, rfl, rfl⟩

theorem Steps.pick {left right : M.Task Res} (run : Steps R handler p q)
    (busy : q.slot t = .busy request (.either left right)) (side : Bool) :
    ∃ q' : Pool M Req Res, Steps R handler p q' ∧ q'.shared = q.shared ∧
      q'.slot = Function.update q.slot t (.busy request (bif side then left else right)) :=
  ⟨⟨q.shared, Function.update q.slot t (.busy request (bif side then left else right))⟩, run.tail
    ⟨.pick t side, trivial, by simp only [next, busy]⟩, rfl, rfl⟩

theorem Steps.event {s : M.State} (run : Steps R handler p q) (e : M.Event)
    (allowed : R.event e q.shared) (hevent : M.event e q.shared = some s) :
    ∃ q' : Pool M Req Res, Steps R handler p q' ∧ q'.shared = s ∧ q'.slot = q.slot :=
  ⟨⟨s, q.slot⟩, run.tail ⟨.event e, allowed, by simp only [next, hevent, Option.map_some]⟩,
    rfl, rfl⟩

end

/-- A step uses up at most one thread name. -/
theorem Step.free {R : Regime M} {handler : Req → M.Task Res} {p q : Pool M Req Res}
    (h : Step R handler p q) : ∃ t, ∀ u, u ≠ t → p.slot u = .free → q.slot u = .free := by
  rcases step_cases h with ⟨t, _, _, rfl⟩ | ⟨t, _, _, _, _, _, _, _, _, _, rfl⟩ |
    ⟨t, _, _, _, _, _, _, rfl⟩ | ⟨_, _, _, _, rfl⟩ | ⟨t, _, _, _, _, _, rfl⟩
  · exact ⟨t, fun u other free => (Function.update_of_ne other _ _).trans free⟩
  · exact ⟨t, fun u other free => (Function.update_of_ne other _ _).trans free⟩
  · exact ⟨t, fun u other free => (Function.update_of_ne other _ _).trans free⟩
  · exact ⟨0, fun u _ free => free⟩
  · exact ⟨t, fun u other free => (Function.update_of_ne other _ _).trans free⟩

/-- There is always a thread name left. -/
theorem Steps.free {R : Regime M} {handler : Req → M.Task Res} {s : M.State}
    {q : Pool M Req Res} (run : Steps R handler (idle s) q) :
    ∃ n : ℕ, ∀ u : ℕ, n ≤ u → q.slot u = .free := by
  induction run with
  | refl => exact ⟨0, fun _ _ => rfl⟩
  | tail _ hstep ih =>
      obtain ⟨n, free⟩ := ih
      obtain ⟨(t : ℕ), kept⟩ := Step.free hstep
      refine ⟨max n (t + 1), fun u le => kept u ?_ (free u (by omega))⟩
      rintro rfl
      omega

/-- An answer that was given stays given. -/
theorem Answered.step {R : Regime M} {handler : Req → M.Task Res} {p q : Pool M Req Res}
    {t : Tid} {request : Req} {v : Res} (h : p.Answered t request v)
    (hstep : Step R handler p q) : q.Answered t request v := by
  simp only [Answered] at h ⊢
  rcases step_cases hstep with ⟨u, _, free, rfl⟩ | ⟨u, _, _, _, _, _, _, busy, _, _, rfl⟩ |
    ⟨u, _, _, _, _, busy, _, rfl⟩ | ⟨_, _, _, _, rfl⟩ | ⟨u, _, _, _, busy, _, rfl⟩
  · have other : t ≠ u := by rintro rfl; simp [h] at free
    simpa [Function.update_of_ne other] using h
  · have other : t ≠ u := by rintro rfl; simp [h] at busy
    simpa [Function.update_of_ne other] using h
  · have other : t ≠ u := by rintro rfl; simp [h] at busy
    simpa [Function.update_of_ne other] using h
  · exact h
  · have other : t ≠ u := by rintro rfl; simp [h] at busy
    simpa [Function.update_of_ne other] using h

theorem Answered.steps {R : Regime M} {handler : Req → M.Task Res} {p q : Pool M Req Res}
    {t : Tid} {request : Req} {v : Res} (h : p.Answered t request v)
    (run : Steps R handler p q) : q.Answered t request v := by
  induction run with
  | refl => exact h
  | tail _ hstep ih => exact ih.step hstep

end Pool

end Async
