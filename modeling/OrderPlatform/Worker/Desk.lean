import Mathlib.Logic.Function.Basic
import OrderPlatform.Async.Pool

/-!
# The desk of a process

What the reconnect loops of a process have to do with: how many of them have been called and have not
begun, the variable `channel`, who has begun last, and which connections the process has, open or not,
with how many consumers.  `Desk` is that, of a process that is up, and of nothing else; what a call or
an event does to it is one of `Desk.begin`, `Desk.connect`, `Desk.store`, `Desk.consume`, `Desk.cut` and
`Desk.close`.

`Desk.Ok` is the order that a desk keeps as long as no channel is left without a consumer half-way: there
is one loop that is called, or one that has begun; there is at most one consumer, on the channel that is
stored; and that is the latest connection.  `Desk.Turn` is a desk at which a loop is at work, `Desk.Over`
one that it has left.

* `Desk` and its steps.
* `Desk.Ok`, `Desk.Turn`, `Desk.Over` — what is known of it.
* `Desk.Others` — what a loop tolerates.
-/

namespace OrderPlatform

namespace Worker

open Async (Tid)

/-! ### Desks -/

/-- What one process has on its desk: the stored channel, the calls of `reconnectLoop`, and its
connections.  The rest of the state does not matter for how many consumers there are. -/
structure Desk where
  /-- Calls of `reconnectLoop` that have been made and have not begun. -/
  loops : ℕ
  channel : Option ℕ
  looping : Option Tid
  /-- The connections of the process: whether they are open, and how many consumers they have. -/
  line : ℕ → Option (Bool × ℕ)

namespace Desk

variable {d : Desk} {c : ℕ} {t u : Tid}

/-- The desk of a process that starts. -/
def started : Desk := ⟨1, none, none, fun _ => none⟩

/-- A call of `reconnectLoop` begins. -/
def begin (t : Tid) (d : Desk) : Desk := { d with loops := d.loops - 1, looping := some t }

/-- A new connection, without a consumer. -/
def connect (c : ℕ) (d : Desk) : Desk :=
  { d with line := Function.update d.line c (some (true, 0)) }

/-- The assignment of `channel`. -/
def store (c : ℕ) (d : Desk) : Desk := { d with channel := some c }

/-- One more consumer on a connection. -/
def consume (c : ℕ) (d : Desk) : Desk :=
  { d with line := Function.update d.line c ((d.line c).map fun l => (l.1, l.2 + 1)) }

/-- The broker takes nothing more from a connection, and its consumers are gone. -/
def cut (c : ℕ) (d : Desk) : Desk :=
  { d with line := Function.update d.line c ((d.line c).map fun _ => (false, 0)) }

/-- The `close` handler of a connection: the channel is dropped, and `reconnectLoop` is called. -/
def close (c : ℕ) (d : Desk) : Desk :=
  { d.cut c with channel := none, loops := d.loops + 1 }

/-- A channel is stored, and its consumer has not been started. -/
def HalfWay (c : ℕ) (d : Desk) : Prop := d.channel = some c ∧ d.line c = some (true, 0)

instance decidableHalfWay : Decidable (d.HalfWay c) :=
  inferInstanceAs (Decidable (d.channel = some c ∧ d.line c = some (true, 0)))

/-- All connections of the process were made before this one. -/
def Newest (c : ℕ) (d : Desk) : Prop := ∀ c', d.line c' ≠ none → c' ≤ c

/-- The desk is in order: only the stored channel has a consumer, and no more than one; it is the
newest connection; and exactly one call of `reconnectLoop` is responsible at a time. -/
structure Ok (d : Desk) : Prop where
  consuming : ∀ c b n, d.line c = some (b, n) → 0 < n → n = 1 ∧ d.channel = some c
  newest : ∀ c, d.channel = some c → d.Newest c
  one : (d.loops = 0 ∧ d.looping ≠ none) ∨ (d.loops = 1 ∧ d.channel = none)

/-- A loop is at work, and has stored this channel. -/
structure Turn (t : Tid) (channel : Option ℕ) (d : Desk) : Prop where
  looping : d.looping = some t
  begun : d.loops = 0
  stored : d.channel = channel
  open' : ∀ c, channel = some c → d.line c = some (true, 0)

/-- A loop has come to its end, and no other one has been called: its channel has one consumer, unless
the broker has lost it. -/
def Over (t : Tid) (d : Desk) : Prop :=
  d.looping = some t → d.loops = 0 → ∃ c b n, d.channel = some c ∧ d.line c = some (b, n) ∧
    (b = true → n = 1)

/-- What a loop tolerates at the desk. -/
structure Others (t : Tid) (d d' : Desk) : Prop where
  turn : ∀ channel, d.Turn t channel →
    d'.Turn t channel ∧ ∀ c, d'.line c ≠ none → d.line c ≠ none
  ended : d.Over t → d'.Over t

theorem Others.refl (t : Tid) (d : Desk) : Others t d d := ⟨fun _ h => ⟨h, fun _ h => h⟩, id⟩

theorem Others.trans {d' d'' : Desk} (h : Others t d d') (h' : Others t d' d'') :
    Others t d d'' := by
  refine ⟨fun channel turn => ?_, fun left => h'.ended (h.ended left)⟩
  obtain ⟨turn', lines⟩ := h.turn channel turn
  obtain ⟨turn'', lines'⟩ := h'.turn channel turn'
  exact ⟨turn'', fun c known => lines c (lines' c known)⟩

/-- While one loop is the last that has begun, the others have nothing to do at the desk. -/
theorem Others.of_turn {d' : Desk} {channel : Option ℕ} (turn : d.Turn t channel)
    (same : d'.looping = some t) (other : u ≠ t) : Others u d d' := by
  refine ⟨fun _ theirs => ?_, fun _ theirs => ?_⟩
  · exact absurd (Option.some.inj (theirs.looping.symm.trans turn.looping)) other
  · exact absurd (Option.some.inj (theirs.symm.trans same)) other

theorem line_cut (c c' : ℕ) : (d.cut c).line c' = none ↔ d.line c' = none := by
  unfold cut
  by_cases same : c' = c
  · subst same
    show Function.update d.line c' _ c' = none ↔ _
    rw [Function.update_self, Option.map_eq_none_iff]
  · show Function.update d.line c _ c' = none ↔ _
    rw [Function.update_of_ne same]

theorem line_cut_eq_some {c' n : ℕ} {b : Bool} (h : (d.cut c).line c' = some (b, n)) :
    (c' = c ∧ b = false ∧ n = 0) ∨ (c' ≠ c ∧ d.line c' = some (b, n)) := by
  have h : Function.update d.line c ((d.line c).map fun _ => (false, 0)) c' = some (b, n) := h
  by_cases same : c' = c
  · subst same
    rw [Function.update_self] at h
    obtain ⟨_, _, equal⟩ := Option.map_eq_some_iff.mp h
    cases equal
    exact .inl ⟨rfl, rfl, rfl⟩
  · rw [Function.update_of_ne same] at h
    exact .inr ⟨same, h⟩

namespace Ok

theorem started : Desk.started.Ok where
  consuming c b n known := by cases known
  newest c stored := by cases stored
  one := .inr ⟨rfl, rfl⟩

theorem begin (ok : d.Ok) (called : 0 < d.loops) (t : Tid) :
    (d.begin t).Ok ∧ (d.begin t).loops = 0 ∧ d.channel = none := by
  obtain ⟨none', _⟩ | ⟨one, unset⟩ := ok.one
  · exact absurd called (by omega)
  · have begun : (d.begin t).loops = 0 := by
      show d.loops - 1 = 0
      omega
    exact ⟨⟨ok.consuming, ok.newest, .inl ⟨begun, nofun⟩⟩, begun, unset⟩

theorem connect (ok : d.Ok) (unset : d.channel = none) : (d.connect c).Ok := by
  refine ⟨fun c' b n known more => ?_, fun c' stored => ?_, ok.one⟩
  · have known : Function.update d.line c (some (true, 0)) c' = some (b, n) := known
    by_cases same : c' = c
    · rw [same, Function.update_self] at known
      cases known
      exact absurd more (Nat.lt_irrefl 0)
    · rw [Function.update_of_ne same] at known
      exact ok.consuming c' b n known more
  · have stored : d.channel = some c' := stored
    rw [unset] at stored
    cases stored

theorem store (ok : d.Ok) (unset : d.channel = none) (begun : d.loops = 0) (newest : d.Newest c) :
    (d.store c).Ok := by
  refine ⟨fun c' b n known more => ?_, fun c' stored => ?_, ?_⟩
  · have stored := (ok.consuming c' b n known more).2
    rw [unset] at stored
    cases stored
  · obtain rfl : c = c' := Option.some.inj stored
    exact newest
  · obtain ⟨_, heard⟩ | ⟨one, _⟩ := ok.one
    · exact .inl ⟨begun, heard⟩
    · exact absurd one (by omega)

/-- Nobody consumes as long as no channel is stored. -/
theorem idle (ok : d.Ok) (unset : d.channel = none) {b : Bool} {n : ℕ}
    (known : d.line c = some (b, n)) : n = 0 := by
  rcases Nat.eq_zero_or_pos n with none' | more
  · exact none'
  · have stored := (ok.consuming c b n known more).2
    rw [unset] at stored
    cases stored

theorem consume (ok : d.Ok) (half : d.HalfWay c) : (d.consume c).Ok := by
  obtain ⟨stored, here⟩ := half
  refine ⟨fun c' b n known more => ?_, fun c' stored' c'' known => ?_, ok.one⟩
  · have known : Function.update d.line c ((d.line c).map fun l => (l.1, l.2 + 1)) c' =
      some (b, n) := known
    by_cases same : c' = c
    · rw [same, Function.update_self, here] at known
      cases known
      exact ⟨rfl, same ▸ stored⟩
    · rw [Function.update_of_ne same] at known
      exact ok.consuming c' b n known more
  · refine ok.newest c' stored' c'' fun missing => known ?_
    show Function.update d.line c ((d.line c).map fun l => (l.1, l.2 + 1)) c'' = none
    by_cases same : c'' = c
    · rw [same, here] at missing
      cases missing
    · rw [Function.update_of_ne same]
      exact missing

theorem cut (ok : d.Ok) (c : ℕ) : (d.cut c).Ok := by
  refine ⟨fun c' b n known more => ?_, fun c' stored c'' known => ?_, ok.one⟩
  · rcases line_cut_eq_some known with ⟨_, _, none'⟩ | ⟨_, known⟩
    · omega
    · exact ok.consuming c' b n known more
  · exact ok.newest c' stored c'' ((line_cut c c'').not.mp known)

theorem close (ok : d.Ok) (stored : d.channel = some c) : (d.close c).Ok := by
  refine ⟨fun c' b n known more => ?_, fun c' stored' => (by cases stored'), ?_⟩
  · rcases line_cut_eq_some known with ⟨_, _, none'⟩ | ⟨other, known⟩
    · omega
    · have same := (ok.consuming c' b n known more).2
      exact absurd (Option.some.inj (same.symm.trans stored)) other
  · obtain ⟨none', _⟩ | ⟨_, unset⟩ := ok.one
    · refine .inr ⟨?_, rfl⟩
      show d.loops + 1 = 1
      omega
    · rw [unset] at stored
      cases stored

end Ok

/-- A loop that is called and begins is nobody else's. -/
theorem others_begin (called : 0 < d.loops) (other : u ≠ t) :
    Others u d (d.begin t) := by
  refine ⟨fun channel turn => ?_, fun _ theirs => ?_⟩
  · have begun := turn.begun
    omega
  · exact absurd (Option.some.inj theirs).symm other

/-- A connection that is lost is not the one on which a loop is half-way. -/
theorem others_cut (whole : ¬d.HalfWay c) (t : Tid) : Others t d (d.cut c) := by
  refine ⟨fun channel turn => ⟨⟨turn.looping, turn.begun, turn.stored, fun c' stored => ?_⟩,
    fun c' known => (line_cut c c').not.mp known⟩, fun left heard begun => ?_⟩
  · have here := turn.open' c' stored
    have other : c' ≠ c := by
      rintro rfl
      exact whole ⟨turn.stored.trans stored, here⟩
    exact (Function.update_of_ne other _ _).trans here
  · obtain ⟨c', b, n, stored, known, one⟩ := left heard begun
    by_cases same : c' = c
    · subst same
      refine ⟨c', false, 0, stored, ?_, nofun⟩
      show Function.update d.line c' _ c' = _
      rw [Function.update_self, known]
      rfl
    · exact ⟨c', b, n, stored, (Function.update_of_ne same _ _).trans known, one⟩

theorem others_close (whole : ¬d.HalfWay c) (stored : d.channel = some c) (t : Tid) :
    Others t d (d.close c) := by
  refine ⟨fun channel turn => ?_, fun _ _ begun => ?_⟩
  · exact absurd ⟨stored, turn.open' c (turn.stored.symm.trans stored)⟩ whole
  · have begun : d.loops + 1 = 0 := begun
    omega

/-- A loop starts its consumer. -/
theorem Turn.ended (turn : d.Turn t (some c)) : (d.consume c).Over t := by
  intro _ _
  refine ⟨c, true, 1, turn.stored, ?_, fun _ => rfl⟩
  show Function.update d.line c _ c = _
  rw [Function.update_self, turn.open' c rfl]
  rfl

end Desk

end Worker

end OrderPlatform
