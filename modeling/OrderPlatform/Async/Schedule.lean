import OrderPlatform.Async.Pool

/-!
# Conditions on whole pools

A `Regime` restricts a move by the shared state it starts from.  Some conditions are about the
other threads: an operation may run only while nobody else stands at a certain point.
`StepsWhere C` are the runs of a regime in which every move meets a condition `C` on the whole
pool.

A pool has a slot for every thread name, so `C` is rarely decidable as it stands.  But a schedule
uses finitely many names: `stepsWhere_of_check` evaluates a schedule over the names below a bound,
against a decidable condition that implies `C` where all other slots are free.
-/

namespace Async

namespace Pool

variable {M : Machine} {Req Res : Type}

/-- One step of a run whose moves meet a condition on the pool. -/
def StepWhere (R : Regime M) (C : Pool M Req Res → Move M Req → Prop) (handler : Req → M.Task Res)
    (p q : Pool M Req Res) : Prop :=
  ∃ m, C p m ∧ p.Allows R m ∧ p.next handler m = some q

/-- The runs of a regime whose moves meet a condition on the pool. -/
def StepsWhere (R : Regime M) (C : Pool M Req Res → Move M Req → Prop)
    (handler : Req → M.Task Res) : Pool M Req Res → Pool M Req Res → Prop :=
  Relation.ReflTransGen (StepWhere R C handler)

/-- Every run that meets a condition is a run. -/
theorem StepsWhere.steps {R : Regime M} {C : Pool M Req Res → Move M Req → Prop}
    {handler : Req → M.Task Res} {p q : Pool M Req Res} (run : StepsWhere R C handler p q) :
    Steps R handler p q := by
  induction run with
  | refl => exact .refl
  | tail _ step ih =>
      obtain ⟨m, _, allowed, hnext⟩ := step
      exact ih.tail ⟨m, allowed, hnext⟩

/-- A run of a regime is a run of every regime that allows more. -/
theorem Steps.mono {R R' : Regime M} {handler : Req → M.Task Res} {p q : Pool M Req Res}
    (advance : ∀ t c o s, R.advance t c o s → R'.advance t c o s)
    (event : ∀ e s, R.event e s → R'.event e s) (crash : ∀ t s, R.crash t s → R'.crash t s)
    (run : Steps R handler p q) : Steps R' handler p q := by
  induction run with
  | refl => exact .refl
  | tail _ step ih =>
      obtain ⟨m, allowed, hnext⟩ := step
      refine ih.tail ⟨m, ?_, hnext⟩
      cases m with
      | start t request => trivial
      | advance t choice =>
          unfold Allows at allowed ⊢
          dsimp only at allowed ⊢
          split
          · rename_i busy
            rw [busy] at allowed
            exact advance _ _ _ _ allowed
          · trivial
      | pick t left => trivial
      | event e => exact event _ _ allowed
      | crash t => exact crash _ _ allowed

/-- **An invariant of the runs that meet a condition.** -/
theorem StepsWhere.invariant {R : Regime M} {C : Pool M Req Res → Move M Req → Prop}
    {handler : Req → M.Task Res} {I : Pool M Req Res → Prop} {p q : Pool M Req Res}
    (run : StepsWhere R C handler p q) (initially : I p)
    (step : ∀ p q m, I p → C p m → p.Allows R m → p.next handler m = some q → I q) : I q := by
  induction run with
  | refl => exact initially
  | tail _ hstep ih =>
      obtain ⟨m, met, allowed, hnext⟩ := hstep
      exact step _ _ m ih met allowed hnext

/-! ### Schedules over finitely many names -/

/-- All names from `n` on are free. -/
def FreeFrom (n : ℕ) (p : Pool M Req Res) : Prop := ∀ u : ℕ, n ≤ u → p.slot u = .free

theorem FreeFrom.settled {n : ℕ} {p : Pool M Req Res} (free : FreeFrom n p)
    (below : ∀ t < n, (p.slot t).isSettled = true) : p.Settled := by
  intro t
  rcases Nat.lt_or_ge t n with lt | le
  · exact below t lt
  · rw [free t le]
    rfl

/-- The move starts no thread with a name from `n` on. -/
def Below (n : ℕ) : Move M Req → Prop
  | .start t _ => t < n
  | _ => True

instance decidableBelow (n : ℕ) : (m : Move M Req) → Decidable (Below n m)
  | .start t _ => inferInstanceAs (Decidable (t < n))
  | .advance _ _ => .isTrue trivial
  | .pick _ _ => .isTrue trivial
  | .event _ => .isTrue trivial
  | .crash _ => .isTrue trivial

/-- Only a start uses up a name. -/
theorem FreeFrom.next {n : ℕ} {handler : Req → M.Task Res} {p q : Pool M Req Res} {m : Move M Req}
    (free : FreeFrom n p) (below : Below n m) (h : p.next handler m = some q) : FreeFrom n q := by
  -- the slot that changes is not one of those
  have update : ∀ {t : Tid} {slot : Slot M Req Res} {s : M.State},
      (t < n ∨ p.slot t ≠ .free) → FreeFrom n ⟨s, Function.update p.slot t slot⟩ := by
    intro t slot s used u le
    have other : u ≠ t := by
      rintro rfl
      rcases used with lt | busy
      · exact absurd lt (Nat.not_lt.mpr le)
      · exact busy (free u le)
    exact (Function.update_of_ne other _ _).trans (free u le)
  cases m with
  | start t request =>
      obtain ⟨_, rfl⟩ := next_start h
      exact update (.inl below)
  | advance t choice =>
      obtain ⟨_, _, _, _, _, busy, _, rfl⟩ := next_advance h
      exact update (.inr (by rw [busy]; nofun))
  | pick t left =>
      obtain ⟨_, _, _, _, busy, _, rfl⟩ := next_pick h
      exact update (.inr (by rw [busy]; nofun))
  | event e =>
      obtain ⟨_, _, rfl⟩ := next_event h
      exact free
  | crash t =>
      obtain ⟨_, _, _, busy, rfl⟩ := next_crash h
      exact update (.inr (by rw [busy]; nofun))

section

variable (R : Regime M) (C : Pool M Req Res → Move M Req → Prop) (handler : Req → M.Task Res)
variable [∀ t c o s, Decidable (R.advance t c o s)] [∀ e s, Decidable (R.event e s)]
variable [∀ t s, Decidable (R.crash t s)] [∀ p m, Decidable (C p m)]

/-- Evaluate a schedule over the names below `n`, checking every move against the regime and the
condition. -/
def runBelow (n : ℕ) : Pool M Req Res → List (Move M Req) → Option (Pool M Req Res)
  | p, [] => some p
  | p, m :: rest =>
      if Below n m ∧ C p m ∧ p.Allows R m then
        (p.next handler m).bind fun q => runBelow n q rest
      else none

end

/-- An evaluated schedule is a run. -/
theorem stepsWhere_of_runBelow {R : Regime M} {C C' : Pool M Req Res → Move M Req → Prop}
    {handler : Req → M.Task Res} [∀ t c o s, Decidable (R.advance t c o s)]
    [∀ e s, Decidable (R.event e s)] [∀ t s, Decidable (R.crash t s)]
    [∀ p m, Decidable (C' p m)] {n : ℕ}
    (implies : ∀ p m, FreeFrom n p → C' p m → C p m) (moves : List (Move M Req)) :
    ∀ {p q : Pool M Req Res}, FreeFrom n p → runBelow R C' handler n p moves = some q →
      StepsWhere R C handler p q ∧ FreeFrom n q := by
  induction moves with
  | nil => intro p q free h; cases h; exact ⟨.refl, free⟩
  | cons m rest ih =>
      intro p q free h
      simp only [runBelow] at h
      split at h
      · rename_i met
        obtain ⟨below, condition, allowed⟩ := met
        obtain ⟨mid, hmid, hrest⟩ := Option.bind_eq_some_iff.mp h
        obtain ⟨run, still⟩ := ih (free.next below hmid) hrest
        exact ⟨.head ⟨m, implies p m free condition, allowed, hmid⟩ run, still⟩
      · cases h

/-- A schedule that is checked to lead to a pool with some property is a run that leads to such a
pool, in which no other name has been used. -/
theorem stepsWhere_of_check (R : Regime M) {C : Pool M Req Res → Move M Req → Prop}
    (C' : Pool M Req Res → Move M Req → Prop) (handler : Req → M.Task Res)
    [∀ t c o s, Decidable (R.advance t c o s)] [∀ e s, Decidable (R.event e s)]
    [∀ t s, Decidable (R.crash t s)] [∀ p m, Decidable (C' p m)] (n : ℕ)
    (implies : ∀ p m, FreeFrom n p → C' p m → C p m) (s : M.State) (moves : List (Move M Req))
    (P : Pool M Req Res → Prop) [DecidablePred P]
    (check : (runBelow R C' handler n (idle s) moves).any (fun q => decide (P q)) = true) :
    ∃ q, StepsWhere R C handler (idle s) q ∧ FreeFrom n q ∧ P q := by
  cases reached : runBelow R C' handler n (idle s) moves with
  | none => simp [reached] at check
  | some q =>
      have free : FreeFrom n (idle s : Pool M Req Res) := fun _ _ => rfl
      obtain ⟨run, still⟩ := stepsWhere_of_runBelow implies moves free reached
      exact ⟨q, run, still, by simpa [reached] using check⟩

end Pool

end Async
