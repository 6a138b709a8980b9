import Mathlib.Init

/-!
# Programs that await

A handler of a server is a sequential text that stops at every `await`, hands an
operation to the outside (a cache command, a statement, a timer) and goes on with the
reply.  Between two `await`s nothing else runs; at an `await` everything else may run.
`Program` is exactly that shape: a tree whose inner nodes are the awaited operations, whose
branches are the possible replies, and whose leaves are `return` and `throw`.  A third kind
of leaf, `pending`, is a computation that never settles; a recursion that is given a bound on
its depth is cut off there.

Because the tree exposes every point at which another program may be scheduled, the same
program text serves a sequential reading (feed it one reply after another) and a concurrent
one (`OrderPlatform.Async.Pool` interleaves any number of them).

* `Program.bind`, `Program.attempt`, `Program.ensuring` — sequencing, `try`/`catch` and
  `try`/`finally`, by structural recursion on the tree.
* `Program.either` — an internal choice, resolved by the scheduler.  It is there for
  `Program.both`.
* `Program.both` — two programs side by side (`Promise.all` of two).  When one of them
  throws, the combined program still runs the other one to its end and then throws the
  first error: the caller learns of the error later than it could, but no operation of the
  surviving side is lost.
-/

namespace Async

/-- An asynchronous computation over the operations `Op`, whose awaited operation `o` is
answered by a value of `Reply o`; it returns an `α` or throws an `ε`.

Nothing is said here of what an operation does: the same program runs against any machine.  `either`
stands where the scheduler decides which side of a `Promise.all` moves next, and `pending` is a
promise that is never settled. -/
inductive Program (Op : Type) (Reply : Op → Type) (ε α : Type) : Type
  | done (value : α)
  | thrown (error : ε)
  | await (op : Op) (next : Reply op → Program Op Reply ε α)
  | either (left right : Program Op Reply ε α)
  | pending

namespace Program

variable {Op : Type} {Reply : Op → Type} {ε α β γ : Type}

/-- Sequencing: graft `f` onto every returning leaf. -/
def bind : Program Op Reply ε α → (α → Program Op Reply ε β) → Program Op Reply ε β
  | done a, f => f a
  | thrown e, _ => thrown e
  | await o k, f => await o fun r => (k r).bind f
  | either p q, f => either (p.bind f) (q.bind f)
  | pending, _ => pending

/-- `try p catch e => handler e`: graft `handler` onto every throwing leaf. -/
def attempt : Program Op Reply ε α → (ε → Program Op Reply ε α) → Program Op Reply ε α
  | done a, _ => done a
  | thrown e, handler => handler e
  | await o k, handler => await o fun r => (k r).attempt handler
  | either p q, handler => either (p.attempt handler) (q.attempt handler)
  | pending, _ => pending

/-- `try p finally q`: run `q` behind every outcome of `p`. -/
def ensuring : Program Op Reply ε α → Program Op Reply ε Unit → Program Op Reply ε α
  | done a, q => q.bind fun _ => done a
  | thrown e, q => q.bind fun _ => thrown e
  | await o k, q => await o fun r => (k r).ensuring q
  | either l r, q => either (l.ensuring q) (r.ensuring q)
  | pending, _ => pending

/-- Run to the end, discarding the outcome, and then throw `e`. -/
def andThenThrow (e : ε) : Program Op Reply ε α → Program Op Reply ε β
  | done _ => thrown e
  | thrown _ => thrown e
  | await o k => await o fun r => (k r).andThenThrow e
  | either p q => either (p.andThenThrow e) (q.andThenThrow e)
  | pending => pending

instance : Monad (Program Op Reply ε) where
  pure := done
  bind := bind

/-- `await` of one operation whose reply is returned as it is. -/
def perform (o : Op) : Program Op Reply ε (Reply o) := await o done

/-- Run to the end, discarding the outcome, and settle nothing. -/
def andThenPend : Program Op Reply ε α → Program Op Reply ε β
  | done _ => pending
  | thrown _ => pending
  | await o k => await o fun r => (k r).andThenPend
  | either p q => either p.andThenPend q.andThenPend
  | pending => pending

/-- The right-hand side of a `both`, seen from a left-hand side that awaits: `left` is the
combined program in which the left side moves first. -/
def bothRight (left : Program Op Reply ε β → Program Op Reply ε γ)
    (onDone : β → Program Op Reply ε γ) (onThrown : ε → Program Op Reply ε γ)
    (onPending : Program Op Reply ε γ) :
    Program Op Reply ε β → Program Op Reply ε γ
  | done b => onDone b
  | thrown e => onThrown e
  | pending => onPending
  | await o k =>
      either (left (await o k)) (await o fun r => bothRight left onDone onThrown onPending (k r))
  | either p q =>
      either (bothRight left onDone onThrown onPending p) (bothRight left onDone onThrown onPending q)

/-- `Promise.all [p, q]`: the scheduler decides, one operation at a time, which side moves. -/
def both : Program Op Reply ε α → Program Op Reply ε β → Program Op Reply ε (α × β)
  | done a, q => q.bind fun b => done (a, b)
  | thrown e, q => q.andThenThrow e
  | await o k, q =>
      bothRight (fun q => await o fun r => both (k r) q)
        (fun b => await o fun r => (k r).bind fun a => done (a, b))
        (fun e => await o fun r => (k r).andThenThrow e)
        (await o fun r => (k r).andThenPend) q
  | either p p', q => either (both p q) (both p' q)
  | pending, q => q.andThenPend

/-- Every operation that the program may perform is one of these. -/
def Only (P : Op → Prop) : Program Op Reply ε α → Prop
  | done _ => True
  | thrown _ => True
  | await o k => P o ∧ ∀ r, (k r).Only P
  | either p q => p.Only P ∧ q.Only P
  | pending => True

theorem Only.bind {P : Op → Prop} {p : Program Op Reply ε α} {f : α → Program Op Reply ε β}
    (h : p.Only P) (next : ∀ a, (f a).Only P) : (p.bind f).Only P := by
  induction p with
  | done a => exact next a
  | thrown e => trivial
  | await o k ih => exact ⟨h.1, fun r => ih r (h.2 r)⟩
  | either p q ihp ihq => exact ⟨ihp h.1, ihq h.2⟩
  | pending => trivial

theorem Only.attempt {P : Op → Prop} {p : Program Op Reply ε α}
    {handler : ε → Program Op Reply ε α} (h : p.Only P) (next : ∀ e, (handler e).Only P) :
    (p.attempt handler).Only P := by
  induction p with
  | done a => trivial
  | thrown e => exact next e
  | await o k ih => exact ⟨h.1, fun r => ih r (h.2 r)⟩
  | either p q ihp ihq => exact ⟨ihp h.1, ihq h.2⟩
  | pending => trivial

theorem Only.ensuring {P : Op → Prop} {p : Program Op Reply ε α} {q : Program Op Reply ε Unit} (h : p.Only P)
    (last : q.Only P) : (p.ensuring q).Only P := by
  induction p with
  | done a => exact last.bind fun _ => trivial
  | thrown e => exact last.bind fun _ => trivial
  | await o k ih => exact ⟨h.1, fun r => ih r (h.2 r)⟩
  | either p q ihp ihq => exact ⟨ihp h.1, ihq h.2⟩
  | pending => trivial

theorem Only.andThenThrow {P : Op → Prop} {p : Program Op Reply ε α} {e : ε} (h : p.Only P) :
    (p.andThenThrow e : Program Op Reply ε β).Only P := by
  induction p with
  | done a => trivial
  | thrown e => trivial
  | await o k ih => exact ⟨h.1, fun r => ih r (h.2 r)⟩
  | either p q ihp ihq => exact ⟨ihp h.1, ihq h.2⟩
  | pending => trivial

theorem Only.andThenPend {P : Op → Prop} {p : Program Op Reply ε α} (h : p.Only P) :
    (p.andThenPend : Program Op Reply ε β).Only P := by
  induction p with
  | done a => trivial
  | thrown e => trivial
  | await o k ih => exact ⟨h.1, fun r => ih r (h.2 r)⟩
  | either p q ihp ihq => exact ⟨ihp h.1, ihq h.2⟩
  | pending => trivial

theorem Only.both {P : Op → Prop} {p : Program Op Reply ε α} {q : Program Op Reply ε β} (h : p.Only P)
    (h' : q.Only P) : (both p q).Only P := by
  induction p generalizing q with
  | done a => exact h'.bind fun _ => trivial
  | thrown e => exact h'.andThenThrow
  | pending => exact h'.andThenPend
  | either p p' ihp ihp' => exact ⟨ihp h.1 h', ihp' h.2 h'⟩
  | await o k ih =>
      -- the left side awaits; the right side may move any number of times before it goes on
      induction q with
      | done b => exact ⟨h.1, fun r => (h.2 r).bind fun _ => trivial⟩
      | thrown e => exact ⟨h.1, fun r => (h.2 r).andThenThrow⟩
      | pending => exact ⟨h.1, fun r => (h.2 r).andThenPend⟩
      | await o' k' ih' =>
          exact ⟨⟨h.1, fun r => ih r (h.2 r) h'⟩, h'.1, fun r => ih' r (h'.2 r)⟩
      | either q q' ihq ihq' => exact ⟨ihq h'.1, ihq' h'.2⟩

/-! ### Programs that come to an end -/

/-- However its operations go, the program returns or throws. -/
def Terminates : Program Op Reply ε α → Prop
  | done _ => True
  | thrown _ => True
  | await _ k => ∀ r, (k r).Terminates
  | either p q => p.Terminates ∧ q.Terminates
  | pending => False

/-- There is no operation left. -/
def Settled (p : Program Op Reply ε α) : Prop :=
  (∀ o k, p ≠ await o k) ∧ ∀ l r, p ≠ either l r

theorem settled_done (a : α) : (done a : Program Op Reply ε α).Settled := ⟨nofun, nofun⟩

/-- The program has returned, or thrown an error. -/
def Ended (p : Program Op Reply ε α) : Prop := (∃ a, p = done a) ∨ ∃ e, p = thrown e

namespace Terminates

/-- What has no operation left is at its end, unless it never settles. -/
theorem ended {p : Program Op Reply ε α} (h : p.Terminates) (settled : p.Settled) : p.Ended := by
  cases p with
  | done a => exact .inl ⟨a, rfl⟩
  | thrown e => exact .inr ⟨e, rfl⟩
  | await o k => exact absurd rfl (settled.1 o k)
  | either p q => exact absurd rfl (settled.2 p q)
  | pending => exact h.elim

theorem ne_pending {p : Program Op Reply ε α} (h : p.Terminates) : p ≠ pending := by
  rintro rfl
  exact h

theorem bind {p : Program Op Reply ε α} {f : α → Program Op Reply ε β} (h : p.Terminates)
    (next : ∀ a, (f a).Terminates) : (p.bind f).Terminates := by
  induction p with
  | done a => exact next a
  | thrown e => trivial
  | await o k ih => exact fun r => ih r (h r)
  | either p q ihp ihq => exact ⟨ihp h.1, ihq h.2⟩
  | pending => exact h

theorem attempt {p : Program Op Reply ε α} {handler : ε → Program Op Reply ε α}
    (h : p.Terminates) (next : ∀ e, (handler e).Terminates) :
    (p.attempt handler).Terminates := by
  induction p with
  | done a => trivial
  | thrown e => exact next e
  | await o k ih => exact fun r => ih r (h r)
  | either p q ihp ihq => exact ⟨ihp h.1, ihq h.2⟩
  | pending => exact h

theorem ensuring {p : Program Op Reply ε α} {q : Program Op Reply ε Unit} (h : p.Terminates)
    (last : q.Terminates) : (p.ensuring q).Terminates := by
  induction p with
  | done a => exact last.bind fun _ => trivial
  | thrown e => exact last.bind fun _ => trivial
  | await o k ih => exact fun r => ih r (h r)
  | either p q ihp ihq => exact ⟨ihp h.1, ihq h.2⟩
  | pending => exact h

theorem andThenThrow {p : Program Op Reply ε α} {e : ε} (h : p.Terminates) :
    (p.andThenThrow e : Program Op Reply ε β).Terminates := by
  induction p with
  | done a => trivial
  | thrown e => trivial
  | await o k ih => exact fun r => ih r (h r)
  | either p q ihp ihq => exact ⟨ihp h.1, ihq h.2⟩
  | pending => exact h

/-- Two programs side by side come to an end when both do, in whatever order they move: the proof
follows the left one, and below it the right one. -/
theorem both {p : Program Op Reply ε α} {q : Program Op Reply ε β} (h : p.Terminates)
    (h' : q.Terminates) : (both p q).Terminates := by
  induction p generalizing q with
  | done a => exact h'.bind fun _ => trivial
  | thrown e => exact h'.andThenThrow
  | pending => exact h.elim
  | either p p' ihp ihp' => exact ⟨ihp h.1 h', ihp' h.2 h'⟩
  | await o k ih =>
      induction q with
      | done b => exact fun r => (h r).bind fun _ => trivial
      | thrown e => exact fun r => (h r).andThenThrow
      | pending => exact h'.elim
      | await o' k' ih' => exact ⟨fun r => ih r (h r) h', fun r => ih' r (h' r)⟩
      | either q q' ihq ihq' => exact ⟨ihq h'.1, ihq' h'.2⟩

end Terminates

@[simp] theorem pure_eq (a : α) : (pure a : Program Op Reply ε α) = done a := rfl

@[simp] theorem bind_eq (p : Program Op Reply ε α) (f : α → Program Op Reply ε β) :
    p >>= f = p.bind f := rfl

@[simp] theorem bind_done (a : α) (f : α → Program Op Reply ε β) :
    (done a : Program Op Reply ε α).bind f = f a := rfl

@[simp] theorem bind_thrown (e : ε) (f : α → Program Op Reply ε β) :
    (thrown e : Program Op Reply ε α).bind f = thrown e := rfl

@[simp] theorem bind_await (o : Op) (k : Reply o → Program Op Reply ε α)
    (f : α → Program Op Reply ε β) :
    (await o k).bind f = await o fun r => (k r).bind f := rfl

/-- Returning what was returned changes nothing. -/
@[simp] theorem bind_done_right (p : Program Op Reply ε α) : p.bind done = p := by
  induction p with
  | done a => rfl
  | thrown e => rfl
  | await o k ih => exact congrArg (await o) (funext ih)
  | either p q ihp ihq => rw [bind, ihp, ihq]
  | pending => rfl

@[simp] theorem attempt_done (a : α) (handler : ε → Program Op Reply ε α) :
    (done a : Program Op Reply ε α).attempt handler = done a := rfl

@[simp] theorem attempt_thrown (e : ε) (handler : ε → Program Op Reply ε α) :
    (thrown e : Program Op Reply ε α).attempt handler = handler e := rfl

@[simp] theorem attempt_await (o : Op) (k : Reply o → Program Op Reply ε α)
    (handler : ε → Program Op Reply ε α) :
    (await o k).attempt handler = await o fun r => (k r).attempt handler := rfl

end Program

end Async
