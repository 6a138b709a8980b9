import OrderPlatform.Async.Schedule
import OrderPlatform.Worker.Acknowledgement
import OrderPlatform.Worker.Desk
import OrderPlatform.Worker.Turns

/-!
# One consumer

`reconnectLoop` looks at `channel` only, and `setupRabbit` stores the channel before its consumer is
there.  A loop whose set-up fails after that returns all the same, and leaves a channel without a
consumer (`channel_without_consumer`); a connection that is lost meanwhile starts a second loop.

As long as no set-up fails half-way and no connection is lost before its consumer has been started
(`wholeSetups`), whenever no loop is running exactly one consumer is active, on the latest connection
(`one_consumer`).  What is followed is the desk of each process.

The state that matters to a loop is that of one desk, so the invariant is a statement about each desk
(`Sole`) and what a loop tolerates of the others is one as well (`LoopKept`).  A step changes one desk
(`OneDesk`), which is then followed by a lemma of `Desk`, or it changes none (`Quiet`).  The conditions
of `wholeSetups` are used where a step would leave a desk half-way; everything else holds of all
runs.
-/

namespace OrderPlatform

namespace Worker

open Async (Tid Contract Discipline Regime)
open Rabbit

variable {ctx : WorkerContext} {s s' : State} {t u : Tid} {v w c : ℕ}

/-! ### The desk of a process in a state -/

/-- Alive, and not asked to shut down. -/
def Process.up (p : Process) : Bool := p.alive && !p.shuttingDown

/-- A connection of a process: whether it is open, and how many consumers it has. -/
def line (s : State) (w c : ℕ) : Option (Bool × ℕ) :=
  (s.server.connections c).bind fun x =>
    if x.owner = w then some (x.isOpen, x.consumers) else none

/-- The desk of a process that is up. -/
def desk (s : State) (w : ℕ) : Option Desk :=
  (s.processes w).bind fun p =>
    if p.up then some ⟨p.loops, p.channel, s.history.looping w, line s w⟩ else none

theorem desk_eq_some {d : Desk} :
    desk s w = some d ↔ ∃ p, s.processes w = some p ∧ p.up = true ∧
      d = ⟨p.loops, p.channel, s.history.looping w, line s w⟩ := by
  unfold desk
  constructor
  · intro h
    obtain ⟨p, process, h⟩ := Option.bind_eq_some_iff.mp h
    split at h
    · rename_i up
      cases h
      exact ⟨p, process, up, rfl⟩
    · cases h
  · rintro ⟨p, process, up, rfl⟩
    rw [process, Option.bind_some, if_pos up]

theorem line_eq_some {l : Bool × ℕ} :
    line s w c = some l ↔ ∃ x, s.server.connections c = some x ∧ x.owner = w ∧
      l = (x.isOpen, x.consumers) := by
  unfold line
  constructor
  · intro h
    obtain ⟨x, known, h⟩ := Option.bind_eq_some_iff.mp h
    split at h
    · rename_i owner
      cases h
      exact ⟨x, known, owner, rfl⟩
    · cases h
  · rintro ⟨x, known, owner, rfl⟩
    rw [known, Option.bind_some, if_pos owner]

theorem owns_iff_line : s.owns w c = true ↔ line s w c ≠ none := by
  rw [Option.ne_none_iff_exists', owns_iff]
  constructor
  · rintro ⟨x, known, owner⟩
    exact ⟨_, line_eq_some.mpr ⟨x, known, owner, rfl⟩⟩
  · rintro ⟨l, known⟩
    obtain ⟨x, known, owner, _⟩ := line_eq_some.mp known
    exact ⟨x, known, owner⟩

/-- A connection changes, but for its owner. -/
theorem line_of_update {f : Connection → Connection} (g : Bool × ℕ → Bool × ℕ)
    (connections : s'.server.connections =
      Function.update s.server.connections c ((s.server.connections c).map f))
    (owner : ∀ x, (f x).owner = x.owner)
    (effect : ∀ x, ((f x).isOpen, (f x).consumers) = g (x.isOpen, x.consumers)) (w : ℕ) :
    line s' w = Function.update (line s w) c ((line s w c).map g) := by
  funext c'
  unfold line
  rw [connections]
  by_cases same : c' = c
  · subst same
    rw [Function.update_self, Function.update_self]
    cases s.server.connections c' with
    | none => rfl
    | some x =>
        simp only [Option.map_some, Option.bind_some, owner, effect]
        split
        · rfl
        · rfl
  · rw [Function.update_of_ne same, Function.update_of_ne same]

/-- What is known of the lines stays. -/
theorem line_of_quiet {f : Connection → Connection}
    (connections : s'.server.connections =
      Function.update s.server.connections c ((s.server.connections c).map f))
    (keeps : ∀ x, (f x).owner = x.owner ∧ (f x).isOpen = x.isOpen ∧ (f x).consumers = x.consumers) :
    line s' = line s := by
  funext w
  rw [line_of_update (s := s) id connections (fun x => (keeps x).1)
    (fun x => Prod.ext (keeps x).2.1 (keeps x).2.2)]
  simp

/-- A process that has no such connection. -/
theorem update_none {α : Type} {l : ℕ → Option α} {g : α → α} (missing : l c = none) :
    Function.update l c ((l c).map g) = l := by
  rw [missing]
  exact Function.update_eq_self_iff.mpr missing.symm

/-! ### The order of all desks -/

/-- The invariant of the theorem: connections are made in order, what a process holds is its own, a
process that has never run has left nothing, and every desk is in order. -/
structure Sole (s : State) : Prop where
  inOrder : InOrder s
  owned : ∀ v c, channelOf s v = some c → line s v c ≠ none
  absent : ∀ v, s.processes v = none → s.history.looping v = none ∧ ∀ c, line s v c = none
  desks : ∀ v d, desk s v = some d → d.Ok

/-- What a loop tolerates. -/
structure LoopKept (t : Tid) (s s' : State) : Prop where
  owners : OwnersKept s s'
  heard : ∀ v, s'.history.looping v = some t → s.history.looping v = some t
  started : ∀ v, (s.processes v).isSome → (s'.processes v).isSome
  desks : ∀ v d', (s.processes v).isSome → desk s' v = some d' →
    ∃ d, desk s v = some d ∧ d.Others t d'

theorem LoopKept.refl (t : Tid) (s : State) : LoopKept t s s where
  owners := fun _ _ owned => owned
  heard := fun _ h => h
  started := fun _ h => h
  desks := fun _ d _ known => ⟨d, known, .refl t d⟩

theorem LoopKept.trans {s'' : State} (h : LoopKept t s s') (h' : LoopKept t s' s'') :
    LoopKept t s s'' where
  owners := fun v c owned => h'.owners v c (h.owners v c owned)
  heard := fun v mine => h.heard v (h'.heard v mine)
  started := fun v there => h'.started v (h.started v there)
  desks := by
    intro v d'' there known
    obtain ⟨d', known', step'⟩ := h'.desks v d'' (h.started v there) known
    obtain ⟨d, known, step⟩ := h.desks v d' there known'
    exact ⟨d, known, step.trans step'⟩

/-- A loop is at work at the desk of a process, if that is up. -/
structure AtDesk (P : Desk → Prop) (w : ℕ) (s : State) : Prop where
  started : (s.processes w).isSome
  desk : ∀ d, desk s w = some d → P d

theorem AtDesk.later {P : Desk → Prop} (h : AtDesk P w s) (step : LoopKept t s s')
    (stable : ∀ d d', d.Others t d' → P d → P d') : AtDesk P w s' := by
  refine ⟨step.started w h.started, fun d' known => ?_⟩
  obtain ⟨d, known', others⟩ := step.desks w d' h.started known
  exact stable d d' others (h.desk d known')

/-- It is the turn of a call at the desk of a process. -/
def TurnAt (t : Tid) (w : ℕ) (channel : Option ℕ) : State → Prop := AtDesk (Desk.Turn t channel) w

/-- A call no longer counts at the desk of a process. -/
def OverAt (t : Tid) (w : ℕ) : State → Prop := AtDesk (Desk.Over t) w

/-- A loop has made a connection, and has stored no channel. -/
structure ConnectedAt (t : Tid) (w c : ℕ) (s : State) : Prop where
  desk : AtDesk (fun d => d.Turn t none ∧ d.Newest c) w s
  own : s.owns w c = true

/-- A loop has stored a channel, and its consumer is not there yet. -/
structure HalfWayAt (t : Tid) (w c : ℕ) (s : State) : Prop where
  desk : TurnAt t w (some c) s
  own : s.owns w c = true

theorem TurnAt.later {channel : Option ℕ} (h : TurnAt t w channel s) (step : LoopKept t s s') :
    TurnAt t w channel s' :=
  AtDesk.later h step fun _ _ others turn => (others.turn channel turn).1

theorem OverAt.later (h : OverAt t w s) (step : LoopKept t s s') : OverAt t w s' :=
  AtDesk.later h step fun _ _ others => others.ended

theorem ConnectedAt.later (h : ConnectedAt t w c s) (step : LoopKept t s s') :
    ConnectedAt t w c s' := by
  refine ⟨h.desk.later step fun d d' others turn => ?_, step.owners w c h.own⟩
  obtain ⟨turn', lines⟩ := others.turn none turn.1
  exact ⟨turn', fun c' known => turn.2 c' (lines c' known)⟩

theorem HalfWayAt.later (h : HalfWayAt t w c s) (step : LoopKept t s s') : HalfWayAt t w c s' :=
  ⟨h.desk.later step, step.owners w c h.own⟩

/-- What is true when a loop awaits something. -/
def SoleBefore (t : Tid) (o : Operation) (s : State) : Prop :=
  match o.call with
  | .enter => ∀ v, s.history.looping v ≠ some t
  | .connect => TurnAt t o.process none s
  | .createChannel c => ConnectedAt t o.process c s
  | .declare c _ => HalfWayAt t o.process c s
  | .prefetch c _ => HalfWayAt t o.process c s
  | .consume c => HalfWayAt t o.process c s
  | .sleep _ => TurnAt t o.process none s
  | _ => True

/-! ### Steps that leave the desks alone -/

/-- A step that leaves every desk as it was. -/
structure Quiet (s s' : State) : Prop where
  inOrder : InOrder s'
  owners : OwnersKept s s'
  looping : s'.history.looping = s.history.looping
  processes : ∀ v, (s'.processes v).map (fun p => (p.up, p.loops, p.channel)) =
    (s.processes v).map fun p => (p.up, p.loops, p.channel)
  lines : line s' = line s

namespace Quiet

theorem of_same (connections : InOrder s' ∧ OwnersKept s s')
    (looping : s'.history.looping = s.history.looping) (processes : s'.processes = s.processes)
    (lines : line s' = line s) : Quiet s s' :=
  ⟨connections.1, connections.2, looping, fun v => by rw [processes], lines⟩

theorem setProcess {p p' : Process} (connections : InOrder s' ∧ OwnersKept s s')
    (process : s.processes w = some p)
    (processes : s'.processes = Function.update s.processes w (some p'))
    (looping : s'.history.looping = s.history.looping)
    (same : (p'.up, p'.loops, p'.channel) = (p.up, p.loops, p.channel))
    (lines : line s' = line s) : Quiet s s' := by
  refine ⟨connections.1, connections.2, looping, fun v => ?_, lines⟩
  rw [processes]
  by_cases here : v = w
  · subst here
    rw [Function.update_self, process]
    exact congrArg some same
  · rw [Function.update_of_ne here]

theorem process (h : Quiet s s') {p' : Process} (known : s'.processes v = some p') :
    ∃ p, s.processes v = some p ∧ p.up = p'.up ∧ p.loops = p'.loops ∧ p.channel = p'.channel := by
  have same := h.processes v
  rw [known] at same
  obtain ⟨p, known', equal⟩ := Option.map_eq_some_iff.mp same.symm
  obtain ⟨up, rest⟩ := Prod.ext_iff.mp equal
  obtain ⟨loops, channel⟩ := Prod.ext_iff.mp rest
  exact ⟨p, known', up, loops, channel⟩

theorem desk (h : Quiet s s') (v : ℕ) : desk s' v = desk s v := by
  cases known : s'.processes v with
  | none =>
      have same := h.processes v
      rw [known] at same
      unfold Worker.desk
      rw [known, Option.map_eq_none_iff.mp same.symm]
      rfl
  | some p' =>
      obtain ⟨p, known', up, loops, channel⟩ := h.process known
      unfold Worker.desk
      rw [known, known', Option.bind_some, Option.bind_some, up, loops, channel, h.looping, h.lines]

theorem sole (h : Quiet s s') (inv : Sole s) : Sole s' := by
  refine ⟨h.inOrder, fun v c stored => ?_, fun v missing => ?_, fun v d known => ?_⟩
  · obtain ⟨p', known, stored⟩ := Option.bind_eq_some_iff.mp stored
    obtain ⟨p, known', _, _, channel⟩ := h.process known
    rw [h.lines]
    refine inv.owned v c ?_
    unfold channelOf
    rw [known', Option.bind_some, channel, stored]
  · have same := h.processes v
    rw [missing] at same
    rw [h.looping, h.lines]
    exact inv.absent v (Option.map_eq_none_iff.mp same.symm)
  · rw [h.desk] at known
    exact inv.desks v d known

theorem kept (h : Quiet s s') (t : Tid) : LoopKept t s s' := by
  refine ⟨h.owners, fun v mine => ?_, fun v there => ?_, fun v d _ known => ?_⟩
  · rw [h.looping] at mine
    exact mine
  · have same := congrArg Option.isSome (h.processes v)
    rw [Option.isSome_map, Option.isSome_map] at same
    exact same.trans there
  · rw [h.desk] at known
    exact ⟨d, known, .refl t d⟩

end Quiet

/-! ### Steps at one desk -/

/-- Only the desk of one process changes. -/
structure OneDesk (w : ℕ) (s s' : State) : Prop where
  inOrder : InOrder s'
  owners : OwnersKept s s'
  processes : ∀ v, v ≠ w → s'.processes v = s.processes v
  looping : ∀ v, v ≠ w → s'.history.looping v = s.history.looping v
  lines : ∀ v, v ≠ w → line s' v = line s v

namespace OneDesk

theorem desk (h : OneDesk w s s') (other : v ≠ w) : desk s' v = desk s v := by
  unfold Worker.desk
  rw [h.processes v other, h.looping v other, h.lines v other]

theorem sole (h : OneDesk w s s') (inv : Sole s)
    (owned : ∀ c, channelOf s' w = some c → line s' w c ≠ none) (there : (s'.processes w).isSome)
    (ok : ∀ d, Worker.desk s' w = some d → d.Ok) : Sole s' := by
  refine ⟨h.inOrder, fun v c stored => ?_, fun v missing => ?_, fun v d known => ?_⟩
  · by_cases here : v = w
    · subst here
      exact owned c stored
    · rw [h.lines v here]
      refine inv.owned v c ?_
      unfold channelOf at stored ⊢
      rw [← h.processes v here]
      exact stored
  · by_cases here : v = w
    · rw [here] at missing
      rw [missing] at there
      cases there
    · rw [h.looping v here, h.lines v here]
      exact inv.absent v ((h.processes v here).symm.trans missing)
  · by_cases here : v = w
    · subst here
      exact ok d known
    · rw [h.desk here] at known
      exact inv.desks v d known

theorem kept (h : OneDesk w s s')
    (heard : s'.history.looping w = some t → s.history.looping w = some t)
    (there : (s.processes w).isSome → (s'.processes w).isSome)
    (desks : ∀ d', (s.processes w).isSome → Worker.desk s' w = some d' →
      ∃ d, Worker.desk s w = some d ∧ d.Others t d') : LoopKept t s s' := by
  refine ⟨h.owners, fun v mine => ?_, fun v some => ?_, fun v d' some known => ?_⟩
  · by_cases here : v = w
    · subst here
      exact heard mine
    · rw [← h.looping v here]
      exact mine
  · by_cases here : v = w
    · subst here
      exact there some
    · rw [h.processes v here]
      exact some
  · by_cases here : v = w
    · subst here
      exact desks d' some known
    · rw [h.desk here] at known
      exact ⟨d', known, .refl t d'⟩

end OneDesk

/-! ### What a call does -/

/-- No set-up fails between the storing of the channel and its consumer, and no connection is lost
meanwhile; a process that is asked to shut down, or dies, may lose what it likes.  No call is lost
but with its process.

All of this is said of the desk of the process, before the step: a desk is half-way on a channel
when the channel is stored and its loop has not called `consume` yet.  Where the desk is half-way,
a `declare`, a `prefetch` or a `consume` may not fail, the connection may be neither cut nor
closed, and no handler may write a frame, since the broker closes a channel on which it does not
know a number.  At every other moment connections may be lost as often as they like. -/
def wholeSetups (ctx : WorkerContext) : Regime (machine ctx) where
  advance := fun _ choice o s =>
    match choice, o.call with
    | .fails _, .declare _ _ => (desk s o.process).isNone = true
    | .fails _, .prefetch _ _ => (desk s o.process).isNone = true
    | .fails _, .consume _ => (desk s o.process).isNone = true
    | .concludes faults _, .conclude d outcome =>
        (∀ D ∈ desk s o.process, ∀ c ∈ D.channel, ¬D.HalfWay c) ∨
          ∀ p ∈ s.processes o.process,
            (conclude ctx p.channel (s.writable p.channel) faults d outcome).frames = []
    | _, _ => True
  event := fun e s =>
    match e with
    | .cut c => ∀ x ∈ s.server.connections c, ∀ D ∈ desk s x.owner, ¬D.HalfWay c
    | .closed c =>
        ∀ x ∈ s.server.connections c, ∀ D ∈ desk s x.owner, D.channel = some c ∧ ¬D.HalfWay c
    | _ => True
  crash := fun _ _ => False

/-- A connection has one owner. -/
theorem line_of_other (own : s.owns w c = true) (other : v ≠ w) : line s v c = none := by
  obtain ⟨x, known, owner⟩ := owns_iff.mp own
  unfold line
  rw [known, Option.bind_some, if_neg fun same => other (same.symm.trans owner)]

theorem cut_congr {a b : Server} (same : a.connections = b.connections) (c : ℕ) :
    (a.cut c).connections = (b.cut c).connections := by
  unfold Server.cut Server.updateConnection
  rw [same]

theorem cut_cut (a : Server) (c : ℕ) : ((a.cut c).cut c).connections = (a.cut c).connections := by
  funext c'
  show Function.update (a.cut c).connections c (((a.cut c).connections c).map _) c' = _
  by_cases same : c' = c
  · subst same
    rw [Function.update_self]
    show Option.map _ (Function.update a.connections c' _ c') = Function.update a.connections c' _ c'
    rw [Function.update_self, Option.map_map]
    rfl
  · rw [Function.update_of_ne same]

/-- Frames on one channel do no more to the connections than cut it. -/
theorem connections_of_frames {fs : List Frame} (on : ∀ f ∈ fs, f.channel = c) (server : Server)
    (n : ℕ) : (server.frames fs n).connections = server.connections ∨
      (server.frames fs n).connections = (server.cut c).connections := by
  have cut : ∀ s' : Server, s'.connections = server.connections ∨
      s'.connections = (server.cut c).connections →
      (s'.cut c).connections = (server.cut c).connections := by
    rintro s' (same | same)
    · exact cut_congr same c
    · exact (cut_congr same c).trans (cut_cut server c)
  refine Server.frames_induction_on (P := fun s' => s'.connections = server.connections ∨
    s'.connections = (server.cut c).connections) n fs (.inl rfl) ?_ ?_
  · intro s' f mem here
    unfold Server.frame
    split
    · cases f with
      | publish c' q copy =>
          have same : (s'.enqueue q copy).connections = s'.connections := by
            unfold Server.enqueue
            split
            · rfl
            · rfl
          rw [same]
          exact here
      | ack c' tag completes =>
          obtain rfl : c' = c := on _ mem
          have effect : (s'.acknowledge c' tag completes).connections = s'.connections ∨
              (s'.acknowledge c' tag completes).connections = (s'.cut c').connections := by
            unfold Server.acknowledge
            split
            · exact .inl rfl
            · exact .inr rfl
          rcases effect with same | same
          · rw [same]
            exact here
          · exact .inr (same.trans (cut s' here))
    · exact here
  · intro s' f mem here
    rw [on f mem]
    exact .inr (cut s' here)

section Perform

variable {p : Process} {choice : Choice} {call : Call} {r : Except String call.Result}

/-- What a process does when its desk may change: its process stays, but for what is at the desk. -/
theorem desk_of_setProcess {p' : Process} {d' : Desk} (process : s.processes w = some p)
    (processes : s'.processes w = some p') (up : p'.up = true → p.up = true)
    (known : desk s' w = some d') :
    desk s w = some ⟨p.loops, p.channel, s.history.looping w, line s w⟩ ∧
      d' = ⟨p'.loops, p'.channel, s'.history.looping w, line s' w⟩ := by
  obtain ⟨q, process', up', rfl⟩ := desk_eq_some.mp known
  obtain rfl : p' = q := Option.some.inj (processes.symm.trans process')
  exact ⟨desk_eq_some.mpr ⟨p, process, up up', rfl⟩, rfl⟩

/-- What has to do with the desks. -/
def Call.atDesk : Call → Bool
  | .conclude _ _ => true
  | .enter => true
  | .connect => true
  | .createChannel _ => true
  | .consume _ => true
  | _ => false

theorem quiet_of_perform (inOrder : InOrder s) (process : s.processes w = some p)
    (away : call.atDesk = false) (h : perform ctx t w p choice call s = some (r, s')) : Quiet s s' := by
  have kept := connections_of_perform inOrder h
  cases call with
  | receive =>
      obtain ⟨c', _, d, server, _, _, delivered, handled⟩ := perform_receive h
      obtain ⟨_, _, _, _, _, _, same⟩ := Server.deliver_eq delivered
      have lines : ∀ s'' : State, s''.server = server → line s'' = line s := by
        intro s'' equal
        have connections : s''.server.connections = Function.update s.server.connections c'
            ((s.server.connections c').map fun x => { x with nextTag := x.nextTag + 1 }) := by
          rw [equal, same]
          rfl
        exact line_of_quiet connections fun _ => ⟨rfl, rfl, rfl⟩
      obtain ⟨_, _, rfl⟩ | ⟨_, _, rfl⟩ := handled
      · exact .of_same kept rfl rfl (lines _ rfl)
      · exact .setProcess kept process rfl rfl rfl (lines _ rfl)
  | query st =>
      obtain ⟨_, _, rfl⟩ | ⟨_, n, _, _, _, _, rfl⟩ := perform_query h
      · exact .of_same kept rfl rfl rfl
      · exact .of_same kept (by rw [noteInsert_eq]) rfl rfl
  | work event => cases perform_work h; exact .of_same kept rfl rfl rfl
  | conclude d outcome => cases away
  | enter => cases away
  | connect => cases away
  | createChannel c' => cases away
  | declare c' d =>
      obtain ⟨_, _, rfl⟩ | ⟨_, _, _, rfl⟩ := perform_declare h
      · exact .of_same kept rfl rfl rfl
      · exact .of_same kept rfl rfl rfl
  | prefetch c' n => obtain ⟨rfl, _⟩ := perform_prefetch h; exact .of_same kept rfl rfl rfl
  | consume c' => cases away
  | sleep ms => obtain ⟨_, rfl⟩ := perform_sleep h; exact .of_same kept rfl rfl rfl

/-- What a step of call `t` leaves, and what it does to the loops of the others. -/
def KeepsDesks (t : Tid) (s s' : State) : Prop := Sole s' ∧ ∀ u, u ≠ t → LoopKept u s s'

theorem Quiet.keeps (h : Quiet s s') (inv : Sole s) : KeepsDesks t s s' :=
  ⟨h.sole inv, fun u _ => h.kept u⟩

theorem keeps_of_enter {r : Except String Snapshot} (inv : Sole s)
    (process : s.processes w = some p)
    (h : perform ctx t w p choice .enter s = some (r, s')) : KeepsDesks t s s' := by
  have kept := connections_of_perform inv.inOrder h
  obtain ⟨called, _, same⟩ := perform_enter h
  have processes : s'.processes = Function.update s.processes w (some { p with loops := p.loops - 1 }) := by
    rw [same]
    rfl
  have looping : s'.history.looping = Function.update s.history.looping w (some t) := by rw [same]
  have lines : line s' = line s := by
    rw [same]
    rfl
  have here : s'.processes w = some { p with loops := p.loops - 1 } := by
    rw [processes, Function.update_self]
  have one : OneDesk w s s' :=
    ⟨kept.1, kept.2, fun v other => by rw [processes, Function.update_of_ne other],
      fun v other => by rw [looping, Function.update_of_ne other], fun _ _ => by rw [lines]⟩
  have begun : ∀ d', desk s' w = some d' →
      ∃ d, desk s w = some d ∧ 0 < d.loops ∧ d' = d.begin t := by
    intro d' known
    obtain ⟨there, rfl⟩ := desk_of_setProcess process here id known
    refine ⟨_, there, called, ?_⟩
    unfold Desk.begin
    rw [looping, Function.update_self, lines]
  refine ⟨one.sole inv (fun c stored => ?_) (by rw [here]; rfl) fun d' known => ?_,
    fun u other => one.kept (fun mine => ?_) (fun _ => by rw [here]; rfl) fun d' _ known => ?_⟩
  · rw [lines]
    refine inv.owned w c ?_
    unfold channelOf at stored ⊢
    rw [here] at stored
    rw [process]
    exact stored
  · obtain ⟨d, there, called, rfl⟩ := begun d' known
    exact ((inv.desks w d there).begin called t).1
  · rw [looping, Function.update_self] at mine
    exact absurd (Option.some.inj mine).symm other
  · obtain ⟨d, there, called, rfl⟩ := begun d' known
    exact ⟨d, there, Desk.others_begin called other⟩

/-- A desk that stays in the hands of the loop that works at it. -/
theorem OneDesk.keeps (one : OneDesk w s s') (inv : Sole s) (there : (s'.processes w).isSome)
    (owned : ∀ c, channelOf s' w = some c → line s' w c ≠ none)
    (looping : s'.history.looping = s.history.looping)
    (desks : ∀ d', Worker.desk s' w = some d' → ∃ d, Worker.desk s w = some d ∧ (d.Ok → d'.Ok) ∧
      ∀ u, u ≠ t → d.Others u d') : KeepsDesks t s s' := by
  refine ⟨one.sole inv owned there fun d' known => ?_, fun u other =>
    one.kept (fun mine => ?_) (fun _ => there) fun d' _ known => ?_⟩
  · obtain ⟨d, before, ok, _⟩ := desks d' known
    exact ok (inv.desks w d before)
  · rw [looping] at mine
    exact mine
  · obtain ⟨d, before, _, others⟩ := desks d' known
    exact ⟨d, before, others u other⟩

theorem keeps_of_connect {r : Except String ℕ} (inv : Sole s) (before : TurnAt t w none s)
    (process : s.processes w = some p)
    (h : perform ctx t w p choice .connect s = some (r, s')) : KeepsDesks t s s' := by
  have kept := connections_of_perform inv.inOrder h
  obtain ⟨_, _, rfl⟩ | ⟨_, rfl⟩ := perform_connect h
  · exact ⟨inv, fun u _ => .refl u _⟩
  · have fresh : s.server.connections s.server.nextConnection = none :=
      inv.inOrder _ (Nat.le_refl _)
    have lines : ∀ v, line { s with server := (s.server.connect w).2 } v =
        if v = w then Function.update (line s v) s.server.nextConnection (some (true, 0))
        else line s v := by
      intro v
      funext c'
      unfold line
      show (Function.update s.server.connections s.server.nextConnection _ c').bind _ = _
      by_cases new : c' = s.server.nextConnection
      · subst new
        rw [Function.update_self]
        by_cases here : v = w
        · subst here
          simp
        · simp [here, fresh, Ne.symm here]
      · rw [Function.update_of_ne new]
        by_cases here : v = w
        · simp [here, new]
        · simp [here]
    have one : OneDesk w s { s with server := (s.server.connect w).2 } :=
      ⟨kept.1, kept.2, fun _ _ => rfl, fun _ _ => rfl, fun v other => by
        rw [lines, if_neg other]⟩
    refine one.keeps inv (by rw [process]; rfl) (fun c stored => ?_) rfl fun d' known => ?_
    · exact owns_iff_line.mp (kept.2 w c (owns_iff_line.mpr (inv.owned w c stored)))
    · have process' : State.processes { s with server := (s.server.connect w).2 } w = some p :=
        process
      obtain ⟨here, rfl⟩ := desk_of_setProcess process process' id known
      have turn := before.desk _ here
      refine ⟨_, here, fun ok => ?_, fun u other => .of_turn turn turn.looping other⟩
      have connected := ok.connect (c := s.server.nextConnection) turn.stored
      unfold Desk.connect at connected
      rw [lines, if_pos rfl]
      exact connected

theorem keeps_of_createChannel {r : Except String Unit} (inv : Sole s)
    (before : ConnectedAt t w c s) (process : s.processes w = some p)
    (h : perform ctx t w p choice (.createChannel c) s = some (r, s')) : KeepsDesks t s s' := by
  have kept := connections_of_perform inv.inOrder h
  obtain ⟨_, _, rfl⟩ | ⟨_, _, _, same⟩ := perform_createChannel h
  · exact ⟨inv, fun u _ => .refl u _⟩
  · have lines : line s' = line s := by
      have connections : s'.server.connections = Function.update s.server.connections c
          ((s.server.connections c).map fun x => { x with channel := true }) := by
        rw [same]
        rfl
      exact line_of_quiet connections fun _ => ⟨rfl, rfl, rfl⟩
    have processes : s'.processes = Function.update s.processes w (some { p with channel := some c }) := by
      rw [same]
      rfl
    have looping : s'.history.looping = s.history.looping := by
      rw [same]
      rfl
    have here : s'.processes w = some { p with channel := some c } := by
      rw [processes, Function.update_self]
    have one : OneDesk w s s' :=
      ⟨kept.1, kept.2, fun v other => by rw [processes, Function.update_of_ne other],
        fun _ _ => by rw [looping], fun _ _ => by rw [lines]⟩
    refine one.keeps inv (by rw [here]; rfl) (fun c' stored => ?_) looping fun d' known => ?_
    · unfold channelOf at stored
      rw [here] at stored
      obtain rfl : c = c' := Option.some.inj stored
      rw [lines]
      exact owns_iff_line.mp before.own
    · obtain ⟨there, rfl⟩ := desk_of_setProcess process here id known
      obtain ⟨turn, newest⟩ := before.desk.desk _ there
      have stays : s'.history.looping w = s.history.looping w := by rw [looping]
      refine ⟨_, there, fun ok => ?_, fun u other => .of_turn turn (stays.trans turn.looping) other⟩
      have stored := ok.store turn.stored turn.begun newest
      unfold Desk.store at stored
      rw [lines, stays]
      exact stored

theorem keeps_of_consume {r : Except String Unit} (inv : Sole s) (before : HalfWayAt t w c s)
    (process : s.processes w = some p)
    (h : perform ctx t w p choice (.consume c) s = some (r, s')) : KeepsDesks t s s' := by
  have kept := connections_of_perform inv.inOrder h
  obtain ⟨_, _, rfl⟩ | ⟨_, _, same⟩ := perform_consume h
  · exact ⟨inv, fun u _ => .refl u _⟩
  · have lines : ∀ v, line s' v =
        Function.update (line s v) c ((line s v c).map fun l => (l.1, l.2 + 1)) := by
      have connections : s'.server.connections = Function.update s.server.connections c
          ((s.server.connections c).map fun x => { x with consumers := x.consumers + 1 }) := by
        rw [same]
        rfl
      exact line_of_update _ connections (fun _ => rfl) fun _ => rfl
    have processes : s'.processes = s.processes := by rw [same]
    have looping : s'.history.looping = s.history.looping := by rw [same]
    have one : OneDesk w s s' :=
      ⟨kept.1, kept.2, fun v _ => by rw [processes], fun _ _ => by rw [looping],
        fun v other => by rw [lines, update_none (line_of_other before.own other)]⟩
    refine one.keeps inv (by rw [processes, process]; rfl) (fun c' stored => ?_) looping
      fun d' known => ?_
    · unfold channelOf at stored
      rw [processes] at stored
      exact owns_iff_line.mp (kept.2 w c' (owns_iff_line.mpr (inv.owned w c' stored)))
    · obtain ⟨there, rfl⟩ := desk_of_setProcess process (by rw [processes]; exact process) id known
      have turn := before.desk.desk _ there
      have stays : s'.history.looping w = s.history.looping w := by rw [looping]
      refine ⟨_, there, fun ok => ?_, fun u other => .of_turn turn (stays.trans turn.looping) other⟩
      have consumed := ok.consume (c := c) ⟨turn.stored, turn.open' c rfl⟩
      unfold Desk.consume at consumed
      rw [lines, stays]
      exact consumed

/-- A connection is cut on which no loop is half-way. -/
theorem keeps_of_cut (inv : Sole s) (kept : InOrder s' ∧ OwnersKept s s')
    (process : s.processes w = some p) {p' : Process} (here : s'.processes w = some p')
    (same : (p'.up, p'.loops, p'.channel) = (p.up, p.loops, p.channel))
    (processes : ∀ v, v ≠ w → s'.processes v = s.processes v)
    (looping : s'.history.looping = s.history.looping)
    (connections : s'.server.connections = (s.server.cut c).connections)
    (own : s.owns w c = true) (whole : ∀ d, desk s w = some d → ¬d.HalfWay c) :
    KeepsDesks t s s' ∧ ∀ u, LoopKept u s s' := by
  have lines : ∀ v, line s' v = Function.update (line s v) c ((line s v c).map fun _ => (false, 0)) :=
    line_of_update _ connections (fun _ => rfl) fun _ => rfl
  obtain ⟨up, rest⟩ := Prod.ext_iff.mp same
  obtain ⟨loops, channel⟩ := Prod.ext_iff.mp rest
  have one : OneDesk w s s' :=
    ⟨kept.1, kept.2, processes, fun _ _ => by rw [looping],
      fun v other => by rw [lines, update_none (line_of_other own other)]⟩
  have desks : ∀ d', desk s' w = some d' → ∃ d, desk s w = some d ∧ d' = d.cut c := by
    intro d' known
    obtain ⟨there, rfl⟩ := desk_of_setProcess process here (fun now => up.symm.trans now) known
    refine ⟨_, there, ?_⟩
    unfold Desk.cut
    rw [lines, looping]
    congr 1
  have owned : ∀ c', channelOf s' w = some c' → line s' w c' ≠ none := by
    intro c' stored
    have stored' : channelOf s w = some c' := by
      unfold channelOf at stored ⊢
      rw [here] at stored
      rw [process]
      exact channel.symm.trans stored
    exact owns_iff_line.mp (kept.2 w c' (owns_iff_line.mpr (inv.owned w c' stored')))
  have keeps : ∀ u, LoopKept u s s' := by
    refine fun u => one.kept (fun mine => ?_) (fun _ => ?_) fun d' _ known => ?_
    · rw [looping] at mine
      exact mine
    · rw [here]
      rfl
    · obtain ⟨d, there, rfl⟩ := desks d' known
      exact ⟨d, there, Desk.others_cut (whole d there) u⟩
  refine ⟨⟨one.sole inv owned (by rw [here]; rfl) fun d' known => ?_, fun u _ => keeps u⟩, keeps⟩
  obtain ⟨d, there, rfl⟩ := desks d' known
  exact (inv.desks w d there).cut c

theorem keeps_of_conclude {d : Delivery} {outcome : Except String ProcessingResult}
    {r : Except String Unit} (inv : Sole s)
    (allowed : (wholeSetups ctx).advance t choice ⟨w, .conclude d outcome⟩ s)
    (process : s.processes w = some p)
    (h : perform ctx t w p choice (.conclude d outcome) s = some (r, s')) :
    KeepsDesks t s s' := by
  have kept := connections_of_perform inv.inOrder h
  obtain ⟨faults, n, rfl, segment, known, _, same⟩ := perform_conclude h
  have server : s'.server = s.server.frames segment.frames n := by rw [same]
  have processes : s'.processes = Function.update s.processes w (some { p with inFlight := p.inFlight - 1 }) := by
    rw [same]
    rfl
  have looping : s'.history.looping = s.history.looping := by rw [same]
  have quiet : s'.server.connections = s.server.connections → KeepsDesks t s s' := by
    intro connections
    refine Quiet.keeps (.setProcess kept process processes looping rfl ?_) inv
    funext v c'
    unfold line
    rw [connections]
  -- frames go to the stored channel only; where the broker closes it, its consumer is gone as well
  by_cases silent : segment.frames = []
  · refine quiet ?_
    rw [server, silent]
    simp [Server.frames]
  · obtain ⟨f, mem⟩ := List.exists_mem_of_ne_nil _ silent
    obtain ⟨c, stored, _⟩ := mem_conclude (known ▸ mem)
    have on : ∀ g ∈ segment.frames, g.channel = c := by
      intro g mem'
      obtain ⟨c', stored', concludes⟩ := mem_conclude (known ▸ mem')
      obtain rfl : c = c' := Option.some.inj (stored.symm.trans stored')
      cases concludes with
      | ack completes => rfl
      | publish e => rfl
    rcases connections_of_frames on s.server n with connections | connections
    · exact quiet (by rw [server]; exact connections)
    · have own : s.owns w c = true := by
        refine owns_iff_line.mpr (inv.owned w c ?_)
        unfold channelOf
        rw [process]
        exact stored
      have here : s'.processes w = some { p with inFlight := p.inFlight - 1 } := by
        rw [processes, Function.update_self]
      refine (keeps_of_cut inv kept process here rfl (fun v other => by
        rw [processes, Function.update_of_ne other]) looping (by rw [server]; exact connections) own fun D there => ?_).1
      rcases allowed with whole | silent'
      · obtain ⟨q, process', _, rfl⟩ := desk_eq_some.mp there
        obtain rfl : p = q := Option.some.inj (process.symm.trans process')
        exact whole _ there c stored
      · exact absurd (known ▸ silent' p process) silent

/-- **What a call does to the desks.** -/
theorem keeps_of_perform (inv : Sole s) (before : SoleBefore t ⟨w, call⟩ s)
    (allowed : (wholeSetups ctx).advance t choice ⟨w, call⟩ s) (process : s.processes w = some p)
    (h : perform ctx t w p choice call s = some (r, s')) : KeepsDesks t s s' := by
  have quiet : call.atDesk = false → KeepsDesks t s s' :=
    fun away => (quiet_of_perform inv.inOrder process away h).keeps inv
  cases call with
  | receive => exact quiet rfl
  | query st => exact quiet rfl
  | work event => exact quiet rfl
  | conclude d outcome => exact keeps_of_conclude inv allowed process h
  | enter => exact keeps_of_enter inv process h
  | connect => exact keeps_of_connect inv before process h
  | createChannel c => exact keeps_of_createChannel inv before process h
  | declare c d => exact quiet rfl
  | prefetch c n => exact quiet rfl
  | consume c => exact keeps_of_consume inv before process h
  | sleep ms => exact quiet rfl

end Perform

/-! ### What happens beside the calls -/

/-- A process that is no longer up has no desk. -/
theorem OneDesk.stops (one : OneDesk w s s') (inv : Sole s) {p p' : Process}
    (process : s.processes w = some p) (here : s'.processes w = some p') (down : p'.up = false)
    (channel : p'.channel = p.channel) (looping : s'.history.looping = s.history.looping) :
    Sole s' ∧ ∀ u, LoopKept u s s' := by
  have none' : ∀ d', Worker.desk s' w ≠ some d' := by
    intro d' known
    obtain ⟨q, known, up, _⟩ := desk_eq_some.mp known
    obtain rfl : p' = q := Option.some.inj (here.symm.trans known)
    rw [down] at up
    cases up
  refine ⟨one.sole inv (fun c stored => ?_) (by rw [here]; rfl) fun d' known =>
    absurd known (none' d'), fun u => one.kept (fun mine => ?_) (fun _ => by rw [here]; rfl)
      fun d' _ known => absurd known (none' d')⟩
  · refine owns_iff_line.mp (one.owners w c (owns_iff_line.mpr (inv.owned w c ?_)))
    unfold channelOf at stored ⊢
    rw [here] at stored
    rw [process]
    exact channel.symm.trans stored
  · rw [looping] at mine
    exact mine

theorem keeps_of_closed (inv : Sole s) (allowed : (wholeSetups ctx).event (.closed c) s)
    (h : State.event ctx (.closed c) s = some s') : Sole s' ∧ ∀ u, LoopKept u s s' := by
  have step := settles_of_event h
  have kept : InOrder s' ∧ OwnersKept s s' := ⟨inv.inOrder.of_settles step, .of_settles step⟩
  obtain ⟨x, connection, h⟩ := Option.bind_eq_some_iff.mp h
  obtain ⟨p, process, h⟩ := Option.bind_eq_some_iff.mp h
  split at h
  · rename_i live
    have alive : p.alive = true := (Bool.and_eq_true _ _ ▸ live).2
    let p' : Process :=
      { p with channel := none, loops := if p.shuttingDown then p.loops else p.loops + 1 }
    have same := (Option.some.inj h).symm
    have processes : s'.processes = Function.update s.processes x.owner (some p') := by
      rw [same]
      rfl
    have looping : s'.history.looping = s.history.looping := by
      rw [same]
      rfl
    have connections : s'.server.connections = (s.server.close c).connections := by
      rw [same]
    have own : s.owns x.owner c = true := owns_iff.mpr ⟨x, connection, rfl⟩
    have lines : ∀ v, line s' v =
        Function.update (line s v) c ((line s v c).map fun _ => (false, 0)) :=
      line_of_update _ connections (fun _ => rfl) fun _ => rfl
    have here : s'.processes x.owner = some p' := by rw [processes, Function.update_self]
    have one : OneDesk x.owner s s' :=
      ⟨kept.1, kept.2, fun v other => by rw [processes, Function.update_of_ne other],
        fun _ _ => by rw [looping],
        fun v other => by rw [lines, update_none (line_of_other own other)]⟩
    -- the channel was stored and had its consumer, so that the desk is cleared for one new loop
    have desks : ∀ d', desk s' x.owner = some d' → ∃ d, desk s x.owner = some d ∧
        d.channel = some c ∧ ¬d.HalfWay c ∧ d' = d.close c := by
      intro d' known
      have up : p.up = true := by
        obtain ⟨q, known, up, _⟩ := desk_eq_some.mp known
        obtain rfl : p' = q := Option.some.inj (here.symm.trans known)
        exact up
      obtain ⟨there, rfl⟩ := desk_of_setProcess process here (fun _ => up) known
      obtain ⟨stored, whole⟩ := allowed x connection _ there
      refine ⟨_, there, stored, whole, ?_⟩
      have running : p.shuttingDown = false := by
        unfold Process.up at up
        simpa [alive] using up
      unfold Desk.close Desk.cut
      rw [lines, looping]
      congr 1
      show (if p.shuttingDown = true then p.loops else p.loops + 1) = p.loops + 1
      rw [running]
      rfl
    refine ⟨one.sole inv (fun c' stored => ?_) (by rw [here]; rfl) fun d' known => ?_,
      fun u => one.kept (fun mine => ?_) (fun _ => by rw [here]; rfl) fun d' _ known => ?_⟩
    · unfold channelOf at stored
      rw [here] at stored
      cases stored
    · obtain ⟨d, there, stored, _, rfl⟩ := desks d' known
      exact (inv.desks _ d there).close stored
    · rw [looping] at mine
      exact mine
    · obtain ⟨d, there, stored, whole, rfl⟩ := desks d' known
      exact ⟨d, there, Desk.others_close whole stored u⟩
  · cases h

/-- A connection is cut. -/
private theorem keeps_of_cut_event (inv : Sole s) (allowed : (wholeSetups ctx).event (.cut c) s)
    (h : State.event ctx (.cut c) s = some s') : Sole s' ∧ ∀ u, LoopKept u s s' := by
  have step := settles_of_event h
  have kept : InOrder s' ∧ OwnersKept s s' := ⟨inv.inOrder.of_settles step, .of_settles step⟩
  obtain rfl := Option.some.inj h
  cases connection : s.server.connections c with
  | none =>
      have quiet : Quiet s _ := .of_same kept rfl rfl (by
        funext v c'
        unfold line
        show (Function.update s.server.connections c ((s.server.connections c).map _) c').bind _ = _
        rw [update_none connection])
      exact ⟨quiet.sole inv, fun u => quiet.kept u⟩
  | some x =>
      have own : s.owns x.owner c = true := owns_iff.mpr ⟨x, connection, rfl⟩
      cases process : s.processes x.owner with
      | none =>
          have missing := (inv.absent x.owner process).2 c
          exact absurd missing (owns_iff_line.mp own)
      | some p =>
          have cut : KeepsDesks 0 s _ ∧ _ := keeps_of_cut inv kept process process rfl
            (fun _ _ => rfl) rfl rfl own fun d there => allowed x connection d there
          exact ⟨cut.1.1, cut.2⟩

/-- A process is started: its desk is that of a process whose loop has not begun. -/
private theorem keeps_of_boot (inv : Sole s) (h : State.event ctx (.boot w) s = some s') :
    Sole s' ∧ ∀ u, LoopKept u s s' := by
  have step := settles_of_event h
  simp only [State.event] at h
  split at h
  · rename_i absent
    cases h
    obtain ⟨unheard, unconnected⟩ := inv.absent w absent
    have one : OneDesk w s (s.setProcess w .started) :=
      ⟨inv.inOrder.of_settles step, .of_settles step,
        fun v other => Function.update_of_ne other _ _, fun _ _ => rfl, fun _ _ => rfl⟩
    have here : (s.setProcess w .started).processes w = some .started := Function.update_self ..
    refine ⟨one.sole inv (fun c stored => ?_) (by rw [here]; rfl) fun d known => ?_,
      fun u => one.kept id (fun _ => by rw [here]; rfl) fun d' there _ => ?_⟩
    · unfold channelOf at stored
      rw [here] at stored
      cases stored
    · obtain ⟨p, process, _, rfl⟩ := desk_eq_some.mp known
      obtain rfl : Process.started = p := Option.some.inj (here.symm.trans process)
      have lines : line (s.setProcess w .started) w = fun _ => none := funext unconnected
      have started := Desk.Ok.started
      unfold Desk.started at started
      rw [lines, show (s.setProcess w .started).history.looping w = none from unheard]
      exact started
    · rw [absent] at there
      cases there
  · cases h

/-- A process dies, and its connections are cut. -/
private theorem keeps_of_die (inv : Sole s) (h : State.event ctx (.die w) s = some s') :
    Sole s' ∧ ∀ u, LoopKept u s s' := by
  have step := settles_of_event h
  obtain ⟨p, process, same⟩ := Option.map_eq_some_iff.mp h
  have processes : s'.processes = Function.update s.processes w (some { p with alive := false }) := by
    rw [← same]
    rfl
  have looping : s'.history.looping = s.history.looping := by
    rw [← same]
    rfl
  have here : s'.processes w = some { p with alive := false } := by
    rw [processes, Function.update_self]
  have one : OneDesk w s s' := by
    refine ⟨inv.inOrder.of_settles step, .of_settles step,
      fun v other => by rw [processes, Function.update_of_ne other], fun _ _ => by rw [looping],
      fun v other => ?_⟩
    funext c'
    rw [← same]
    unfold line
    show ((s.server.connections c').map _).bind _ = _
    cases s.server.connections c' with
    | none => rfl
    | some x =>
        by_cases own : x.owner = w
        · simp [own, Ne.symm other]
        · simp [own]
  exact one.stops inv process here rfl rfl looping

/-- **What an event does to the desks.** -/
theorem keeps_of_event {e : Event} (inv : Sole s) (allowed : (wholeSetups ctx).event e s)
    (h : State.event ctx e s = some s') : Sole s' ∧ ∀ u, LoopKept u s s' := by
  have step := settles_of_event h
  have kept : InOrder s' ∧ OwnersKept s s' := ⟨inv.inOrder.of_settles step, .of_settles step⟩
  -- messages come and go, and no connection changes
  have quiet : s'.processes = s.processes → s'.history.looping = s.history.looping →
      s'.server.connections = s.server.connections → Sole s' ∧ ∀ u, LoopKept u s s' := by
    intro processes looping connections
    have same : Quiet s s' := .of_same kept looping processes (by unfold line; rw [connections])
    exact ⟨same.sole inv, fun u => same.kept u⟩
  cases e with
  | publish m =>
      obtain ⟨server, published, rfl⟩ := Option.map_eq_some_iff.mp h
      exact quiet rfl rfl (Server.publish_connections published)
  | expire i =>
      obtain ⟨server, expired, rfl⟩ := Option.map_eq_some_iff.mp h
      exact quiet rfl rfl (Server.expire_connections expired)
  | requeue c =>
      obtain ⟨server, back, rfl⟩ := Option.map_eq_some_iff.mp h
      obtain ⟨_, rfl⟩ := Server.requeue_eq back
      exact quiet rfl rfl rfl
  | cut c => exact keeps_of_cut_event inv allowed h
  | closed c => exact keeps_of_closed inv allowed h
  | boot w => exact keeps_of_boot inv h
  | terminate w =>
      obtain ⟨p, process, rfl⟩ := Option.map_eq_some_iff.mp h
      have one : OneDesk w s (s.setProcess w { p with shuttingDown := true }) :=
        ⟨kept.1, kept.2, fun v other => Function.update_of_ne other _ _, fun _ _ => rfl,
          fun _ _ => rfl⟩
      exact one.stops inv process (Function.update_self ..) (by simp [Process.up]) rfl rfl
  | die w => exact keeps_of_die inv h

/-! ### The discipline -/

/-- What the loops agree on. -/
def soles (ctx : WorkerContext) : Discipline (machine ctx) where
  inv := Sole
  fresh := fun t s => ∀ v, s.history.looping v ≠ some t
  before := SoleBefore
  rely := LoopKept
  rely_refl := LoopKept.refl
  rely_trans := LoopKept.trans
  fresh_rely := fun fresh step v mine => fresh v (step.heard v mine)

theorem soles_environment : (soles ctx).Environment (wholeSetups ctx) where
  event := keeps_of_event
  crash := fun _ impossible => impossible.elim

/-! ### A loop at its desk -/

section Loop

variable {α : Type} {Q : α → State → Prop} {E : String → State → Prop} {prefetch : ℕ}

/-- A call awaited by a loop. -/
private theorem sole_call {c : Call} {f : c.Result → (machine ctx).Task α}
    (before : ∀ s', LoopKept t s s' → SoleBefore t ⟨w, c⟩ s')
    (next : ∀ s₁ choice p v s₂, LoopKept t s s₁ → Sole s₁ → s₁.processes w = some p →
      perform ctx t w p choice c s₁ = some (.ok v, s₂) → Sole s₂ →
      ((soles ctx).contract (wholeSetups ctx) t).Holds Q E (f v) s₂)
    (failed : ∀ s₁ choice p e s₂ s₃, LoopKept t s s₁ → Sole s₁ →
      (wholeSetups ctx).advance t choice ⟨w, c⟩ s₁ → s₁.processes w = some p →
      perform ctx t w p choice c s₁ = some (.error e, s₂) → LoopKept t s₂ s₃ → E e s₃) :
    ((soles ctx).contract (wholeSetups ctx) t).Holds Q E ((call w c).bind f) s := by
  intro s₁ step
  refine ⟨before s₁ step.2, fun choice r s₂ allowed hexec => ?_⟩
  obtain ⟨p, process, _, done⟩ := perform_of_exec hexec
  have owed := keeps_of_perform step.1 (before s₁ step.2) allowed process done
  refine ⟨owed, ?_⟩
  cases r with
  | ok v => exact next s₁ choice p v s₂ step.2 step.1 process done owed.1
  | error e =>
      exact fun s₃ later => failed s₁ choice p e s₂ s₃ step.2 step.1 allowed process done later.2

/-- A process that is not up has no desk to be at. -/
theorem AtDesk.of_none {P : Desk → Prop} (started : (s.processes w).isSome)
    (none' : Worker.desk s w = none) : AtDesk P w s :=
  ⟨started, fun d known => by rw [none'] at known; cases known⟩

/-- The set-up of a channel that is stored fails only when its process is not up. -/
private theorem failed_half_way {c' : ℕ} {call : Call} {choice : Choice} {p : Process} {e : String}
    {s₁ s₂ s₃ : State} (half : HalfWayAt t w c' s₁)
    (call_eq : (∃ d, call = .declare c' d) ∨ (∃ n, call = .prefetch c' n) ∨ call = .consume c')
    (allowed : (wholeSetups ctx).advance t choice ⟨w, call⟩ s₁)
    (done : perform ctx t w p choice call s₁ = some (.error e, s₂)) (later : LoopKept t s₂ s₃) :
    TurnAt t w none s₃ := by
  have same : s₂ = s₁ ∧ ∃ m, choice = .fails m := by
    rcases call_eq with ⟨d, rfl⟩ | ⟨n, rfl⟩ | rfl
    · cases choice with
      | fails m => cases done; exact ⟨rfl, _, rfl⟩
      | succeeds =>
          obtain ⟨_, reply, same⟩ | ⟨_, _, impossible, _⟩ := perform_declare done
          · simp only [perform] at done
            split at done
            · obtain ⟨_, _, impossible⟩ := Option.map_eq_some_iff.mp done
              cases impossible
            · cases done
          · cases impossible
      | _ => cases done
    · cases choice with
      | fails m => cases done; exact ⟨rfl, _, rfl⟩
      | succeeds =>
          simp only [perform] at done
          split at done
          · cases done
          · cases done
      | _ => cases done
    · cases choice with
      | fails m => cases done; exact ⟨rfl, _, rfl⟩
      | succeeds =>
          simp only [perform] at done
          split at done
          · cases done
          · cases done
      | _ => cases done
  obtain ⟨rfl, m, rfl⟩ := same
  have none' : desk s₂ w = none := by
    rcases call_eq with ⟨d, rfl⟩ | ⟨n, rfl⟩ | rfl
    · exact Option.isNone_iff_eq_none.mp allowed
    · exact Option.isNone_iff_eq_none.mp allowed
    · exact Option.isNone_iff_eq_none.mp allowed
  exact TurnAt.later (AtDesk.of_none half.desk.started none') later

private theorem sole_declareAll {c' : ℕ} (todo : List Declaration) :
    ∀ {s : State}, HalfWayAt t w c' s →
      ((soles ctx).contract (wholeSetups ctx) t).Holds (fun _ s' => HalfWayAt t w c' s')
        (fun _ s' => TurnAt t w none s') (declareAll w c' todo) s := by
  induction todo with
  | nil => exact fun half s' step => half.later step.2
  | cons d rest ih =>
      intro s half
      refine sole_call (c := .declare c' d) (fun _ step => half.later step) ?_ ?_
      · intro s₁ choice p v s₂ step inv process done _
        have quiet := quiet_of_perform inv.inOrder process rfl done
        exact ih ((half.later step).later (quiet.kept t))
      · intro s₁ choice p e s₂ s₃ step _ allowed _ done later
        exact failed_half_way (half.later step) (.inl ⟨d, rfl⟩) allowed done later

/-- What a loop knows of the channel that `setupRabbit` finds. -/
def Found (t : Tid) (w : ℕ) : Option ℕ → State → Prop
  | some c => HalfWayAt t w c
  | none => TurnAt t w none

theorem Found.later {channel : Option ℕ} (h : Found t w channel s) (step : LoopKept t s s') :
    Found t w channel s' := by
  cases channel with
  | none => exact TurnAt.later h step
  | some c => exact HalfWayAt.later h step

/-- A connection that has just been made is the one with the greatest number. -/
private theorem connectedAt_of_connect {connection : ℕ} (here : TurnAt t w none s) (inv : Sole s')
    (process : s.processes w = some p)
    (done : perform ctx t w p choice .connect s = some (.ok connection, s')) :
    ConnectedAt t w connection s' := by
  obtain ⟨_, impossible, _⟩ | ⟨reply, same⟩ := perform_connect done
  · cases impossible
  obtain rfl : connection = s.server.nextConnection := Except.ok.inj reply
  have own : s'.owns w s.server.nextConnection = true := by
    rw [same]
    exact owns_iff.mpr ⟨_, Function.update_self .., rfl⟩
  have process' : s'.processes w = some p := by
    rw [same]
    exact process
  refine ⟨⟨by rw [same]; exact here.started, fun d known => ?_⟩, own⟩
  obtain ⟨there, rfl⟩ := desk_of_setProcess process process' id known
  obtain ⟨looping, begun, stored, _⟩ := here.desk _ there
  refine ⟨⟨?_, begun, stored, nofun⟩, fun c known' => ?_⟩
  · rw [same]
    exact looping
  · -- no connection has a greater number
    refine Nat.lt_succ_iff.mp (Nat.lt_of_not_le fun le => known' ?_)
    have next : s'.server.nextConnection ≤ c := by
      rw [same]
      exact le
    show line s' w c = none
    unfold line
    rw [inv.inOrder c next]
    rfl

/-- A channel that has just been stored is open, and has no consumer. -/
private theorem halfWayAt_of_createChannel {connection : ℕ} {v : Unit}
    (here : ConnectedAt t w connection s) (inv : Sole s) (process : s.processes w = some p)
    (done : perform ctx t w p choice (.createChannel connection) s = some (.ok v, s')) :
    HalfWayAt t w connection s' := by
  have kept := connections_of_perform inv.inOrder done
  obtain ⟨_, impossible, _⟩ | ⟨_, usable, _, same⟩ := perform_createChannel done
  · cases impossible
  have process' : s'.processes w = some { p with channel := some connection } := by
    rw [same]
    exact Function.update_self ..
  refine ⟨⟨by rw [process']; rfl, fun d known => ?_⟩, kept.2 w connection here.own⟩
  obtain ⟨there, rfl⟩ := desk_of_setProcess process process' id known
  obtain ⟨⟨looping, begun, stored, _⟩, _⟩ := here.desk.desk _ there
  refine ⟨?_, begun, rfl, ?_⟩
  · rw [same]
    exact looping
  · rintro c' equal
    obtain rfl : connection = c' := Option.some.inj equal
    have connections : s'.server.connections = Function.update s.server.connections connection
        ((s.server.connections connection).map fun x => { x with channel := true }) := by
      rw [same]
      rfl
    have lines : line s' = line s := line_of_quiet connections fun _ => ⟨rfl, rfl, rfl⟩
    show line s' w connection = some (true, 0)
    rw [lines]
    obtain ⟨x, known', owner⟩ := owns_iff.mp here.own
    have isOpen : x.isOpen = true := by
      unfold Server.usable at usable
      rw [known'] at usable
      exact (Bool.and_eq_true _ _ ▸ usable : x.isOpen = true ∧ x.live = true).1
    have here' : line s w connection = some (x.isOpen, x.consumers) :=
      line_eq_some.mpr ⟨x, known', owner, rfl⟩
    have idle := (inv.desks w _ there).idle stored here'
    rw [here', isOpen, idle]

/-- Behind `prefetch`, the variable `channel` refers to the channel of the loop, or the process is not
up any more. -/
private theorem found_of_prefetch {connection count : ℕ} {stored : Option ℕ}
    (half : HalfWayAt t w connection s) (inv : Sole s) (process : s.processes w = some p)
    (done : perform ctx t w p choice (.prefetch connection count) s = some (.ok stored, s')) :
    HalfWayAt t w connection s' ∧ Found t w stored s' := by
  obtain ⟨same, ⟨_, impossible⟩ | ⟨_, reply⟩⟩ := perform_prefetch done
  · cases impossible
  obtain rfl : s = s' := same.symm
  obtain rfl : stored = p.channel := Except.ok.inj reply
  refine ⟨half, ?_⟩
  have channel : channelOf s w = p.channel := by
    unfold channelOf
    rw [process]
    rfl
  cases up : p.up with
  | true =>
      have there : desk s w = some ⟨p.loops, p.channel, s.history.looping w, line s w⟩ :=
        desk_eq_some.mpr ⟨p, process, up, rfl⟩
      have stored : p.channel = some connection := (half.desk.desk _ there).stored
      rw [stored]
      exact half
  | false =>
      have none' : desk s w = none := by
        unfold desk
        rw [process, Option.bind_some, up]
        rfl
      have vacuous : ∀ {P : Desk → Prop}, AtDesk P w s := .of_none (by rw [process]; rfl) none'
      cases stored : p.channel with
      | none => exact vacuous
      | some c' => exact ⟨vacuous, owns_iff_line.mpr (inv.owned w c' (channel.trans stored))⟩

/-- **Setting up the channel**: what it returns is half-way. -/
private theorem sole_setupRabbit {channel : Option ℕ} (found : Found t w channel s) :
    ((soles ctx).contract (wholeSetups ctx) t).Holds
      (fun pair s' => HalfWayAt t w pair.1 s' ∧ Found t w pair.2 s')
      (fun _ s' => TurnAt t w none s') (setupRabbit w prefetch channel) s := by
  cases channel with
  | some c => exact fun s' step => ⟨HalfWayAt.later found step.2, HalfWayAt.later found step.2⟩
  | none =>
      have turn : TurnAt t w none s := found
      refine sole_call (c := .connect) (fun _ step => turn.later step) ?_ ?_
      · intro s₁ choice p (connection : ℕ) s₂ step inv process done inv₂
        have connected : ConnectedAt t w connection s₂ :=
          connectedAt_of_connect (turn.later step) inv₂ process done
        refine sole_call (c := .createChannel connection) (fun _ step => connected.later step) ?_ ?_
        · intro s₃ choice p v s₄ step₃ inv₃ process₃ done₃ inv₄
          have half : HalfWayAt t w connection s₄ :=
            halfWayAt_of_createChannel (connected.later step₃) inv₃ process₃ done₃
          refine (sole_declareAll declarations half).chain ⟨inv₄, .refl t _⟩ ?_
          intro _ s₅ half₅ _
          refine sole_call (c := .prefetch connection prefetch) (fun _ step => half₅.later step) ?_ ?_
          · intro s₆ choice p (stored : Option ℕ) s₇ step₆ inv₆ process₆ done₆ _ s₈ later
            obtain ⟨half₇, found₇⟩ := found_of_prefetch (half₅.later step₆) inv₆ process₆ done₆
            exact ⟨half₇.later later.2, Found.later found₇ later.2⟩
          · intro s₆ choice p e s₇ s₈ step₆ _ allowed _ done₆ later
            exact failed_half_way (half₅.later step₆) (.inr (.inl ⟨prefetch, rfl⟩)) allowed done₆ later
        · intro s₃ choice p e s₄ s₅ step₃ _ _ _ done₃ later
          obtain ⟨_, _, rfl⟩ | ⟨_, _, impossible, _⟩ := perform_createChannel done₃
          · refine TurnAt.later ?_ later
            have here := (connected.later step₃).desk
            exact ⟨here.started, fun d known => (here.desk d known).1⟩
          · cases impossible
      · intro s₁ choice p e s₂ s₃ step _ _ _ done later
        obtain ⟨_, _, rfl⟩ | ⟨impossible, _⟩ := perform_connect done
        · exact (turn.later step).later later
        · cases impossible

private theorem sole_startConsumer {channel : Option ℕ} (inv : Sole s)
    (found : Found t w channel s) :
    ((soles ctx).contract (wholeSetups ctx) t).Holds (fun _ s' => OverAt t w s')
      (fun _ s' => TurnAt t w none s') (startConsumer w prefetch channel) s := by
  refine (sole_setupRabbit found).chain ⟨inv, .refl t _⟩ ?_
  rintro ⟨active, _⟩ s₁ ⟨half, _⟩ _
  show ((soles ctx).contract (wholeSetups ctx) t).Holds _ _ (call w (.consume active)) s₁
  rw [← Async.Program.bind_done_right (call w (.consume active))]
  refine sole_call (fun _ step => half.later step) ?_ ?_
  · intro s₂ choice p v s₃ step inv₂ process done _ s₄ later
    refine OverAt.later ?_ later.2
    have here := half.later step
    obtain ⟨_, impossible, _⟩ | ⟨_, _, same⟩ := perform_consume done
    · cases impossible
    have process₃ : s₃.processes w = some p := by
      rw [same]
      exact process
    refine ⟨by rw [process₃]; rfl, fun d known => ?_⟩
    obtain ⟨there, rfl⟩ := desk_of_setProcess process process₃ id known
    have lines : line s₃ w =
        Function.update (line s₂ w) active ((line s₂ w active).map fun l => (l.1, l.2 + 1)) := by
      have connections : s₃.server.connections = Function.update s₂.server.connections active
          ((s₂.server.connections active).map fun x => { x with consumers := x.consumers + 1 }) := by
        rw [same]
        rfl
      exact line_of_update _ connections (fun _ => rfl) (fun _ => rfl) w
    have looping : s₃.history.looping w = s₂.history.looping w := by rw [same]
    have ended := (here.desk.desk _ there).ended
    unfold Desk.consume at ended
    rw [lines, looping]
    exact ended
  · intro s₂ choice p e s₃ s₄ step _ allowed _ done later
    exact failed_half_way (half.later step) (.inr (.inr rfl)) allowed done later

private theorem sole_reconnect (inv : Sole s) (turn : TurnAt t w none s) :
    ((soles ctx).contract (wholeSetups ctx) t).Holds
      (fun returns s' => if returns = true then OverAt t w s' else TurnAt t w none s')
      (fun _ _ => False) (reconnect w prefetch none) s := by
  have here : ((soles ctx).contract (wholeSetups ctx) t).rely s s := ⟨inv, .refl t _⟩
  refine Contract.Holds.attempt ?_ here
  have found : Found t w none s := turn
  refine Contract.Holds.chain ((sole_setupRabbit found).mono
    (fun _ _ done => done) fun _ _ turn' _ s' later => turn'.later later.2) here ?_
  rintro ⟨active, channel⟩ s₁ ⟨_, found⟩ here₁
  refine Contract.Holds.chain ((sole_startConsumer here₁.1 found).mono (fun _ _ done => done)
    fun _ _ turn' _ s' later => turn'.later later.2) here₁ ?_
  exact fun _ s₂ ended _ s' later => ended.later later.2

/-- What a loop knows when it looks at the module variables. -/
structure Looks (t : Tid) (w : ℕ) (now : Snapshot) (s : State) : Prop where
  turn : TurnAt t w none s
  stops : now.shuttingDown = true ∨ now.channel.isSome = true → desk s w = none

theorem looks_of_process {p : Process} (process : s.processes w = some p)
    (turn : TurnAt t w none s) : Looks t w p.snapshot s := by
  refine ⟨turn, fun stops => ?_⟩
  cases known : desk s w with
  | none => rfl
  | some d =>
      obtain ⟨q, process', up, rfl⟩ := desk_eq_some.mp known
      obtain rfl : p = q := Option.some.inj (process.symm.trans process')
      have unset : p.channel = none := (turn.desk _ known).stored
      rcases stops with stopped | stored
      · have stopped : p.shuttingDown = true := stopped
        unfold Process.up at up
        rw [stopped, Bool.not_true, Bool.and_false] at up
        cases up
      · have stored : p.channel.isSome = true := stored
        rw [unset] at stored
        cases stored

private theorem sole_reconnectFrom (rounds : ℕ) :
    ∀ {s : State} (delayMs : ℕ) (now : Snapshot), Sole s → Looks t w now s →
      ((soles ctx).contract (wholeSetups ctx) t).Holds (fun _ s' => OverAt t w s')
        (fun _ _ => False) (reconnectFrom w prefetch rounds delayMs now) s := by
  induction rounds with
  | zero => exact fun _ _ _ _ => trivial
  | succ rounds ih =>
      intro s delayMs now inv looks
      unfold reconnectFrom
      split
      · rename_i stops
        have none' := looks.stops (by simpa using stops)
        intro s' later
        exact OverAt.later (AtDesk.of_none looks.turn.started none') later.2
      · rename_i goes
        have channel : now.channel = none := by
          simp only [Bool.or_eq_true, not_or, Option.not_isSome_iff_eq_none] at goes
          exact goes.2
        rw [channel]
        refine (sole_reconnect inv looks.turn).chain ⟨inv, .refl t _⟩ ?_
        intro returns s₁ known here
        cases returns with
        | true => exact fun s' later => OverAt.later known later.2
        | false =>
            have turn₁ : TurnAt t w none s₁ := known
            refine sole_call (c := .sleep delayMs) (fun _ step => turn₁.later step) ?_ ?_
            · intro s₂ choice p (now : Snapshot) s₃ step _ process done inv₃
              obtain ⟨reply, rfl⟩ := perform_sleep done
              obtain rfl : now = p.snapshot := Except.ok.inj reply
              exact ih (min (delayMs * 2) 30000) p.snapshot inv₃
                (looks_of_process process (turn₁.later step))
            · intro s₂ choice p e s₃ s₄ _ _ _ _ done _
              obtain ⟨impossible, _⟩ := perform_sleep done
              cases impossible

private theorem sole_reconnectLoop {rounds : ℕ} (fresh : ∀ v, s.history.looping v ≠ some t) :
    ((soles ctx).contract (wholeSetups ctx) t).Holds (fun _ s' => OverAt t w s')
      (fun _ _ => False) (reconnectLoop w prefetch rounds) s := by
  refine sole_call (c := .enter) (fun s' step v mine => fresh v (step.heard v mine)) ?_ ?_
  · intro s₁ choice p (now : Snapshot) s₂ _ inv process done inv₂
    obtain ⟨called, reply, same⟩ := perform_enter done
    obtain rfl : now = p.snapshot := Except.ok.inj reply
    have process₂ : s₂.processes w = some { p with loops := p.loops - 1 } := by
      rw [same]
      exact Function.update_self ..
    have turn : TurnAt t w none s₂ := by
      refine ⟨by rw [process₂]; rfl, fun d known => ?_⟩
      obtain ⟨there, rfl⟩ := desk_of_setProcess process process₂ id known
      obtain ⟨_, begun, unset⟩ := (inv.desks w _ there).begin called t
      refine ⟨?_, begun, unset, nofun⟩
      rw [same]
      exact Function.update_self ..
    have looks : Looks t w (Process.snapshot { p with loops := p.loops - 1 }) s₂ :=
      looks_of_process process₂ turn
    exact sole_reconnectFrom rounds 1000 p.snapshot inv₂ looks
  · intro s₁ choice p e s₂ s₃ _ _ _ _ done _
    obtain ⟨_, impossible, _⟩ := perform_enter done
    cases impossible

end Loop

/-- What a request may await. -/
def Awaitable : Request → Operation → Prop
  | .message _, o => OfMessage o
  | .reconnect w _, o => o.process = w

private theorem call_only {c : Call} : (call w c).Only (Awaitable (.reconnect w 0)) := by
  refine ⟨rfl, fun r => ?_⟩
  cases r with
  | ok v => trivial
  | error e => trivial

private theorem declareAll_only {c' : ℕ} (todo : List Declaration) :
    (declareAll w c' todo).Only (Awaitable (.reconnect w 0)) := by
  induction todo with
  | nil => trivial
  | cons d rest ih => exact call_only.bind fun _ => ih

private theorem setupRabbit_only {prefetch : ℕ} (channel : Option ℕ) :
    (setupRabbit w prefetch channel).Only (Awaitable (.reconnect w 0)) := by
  cases channel with
  | some c => trivial
  | none =>
      refine call_only.bind fun (connection : ℕ) => ?_
      refine call_only.bind fun _ => (declareAll_only _).bind fun _ => ?_
      refine call_only.bind fun (channel : Option ℕ) => ?_
      trivial

private theorem reconnect_only {prefetch : ℕ} (channel : Option ℕ) :
    (reconnect w prefetch channel).Only (Awaitable (.reconnect w 0)) := by
  refine Async.Program.Only.attempt ((setupRabbit_only channel).bind fun _ => ?_) fun _ => trivial
  refine Async.Program.Only.bind ((setupRabbit_only _).bind fun _ => call_only) fun _ => ?_
  trivial

private theorem reconnectFrom_only {prefetch : ℕ} (rounds : ℕ) : ∀ (delayMs : ℕ) (now : Snapshot),
    (reconnectFrom w prefetch rounds delayMs now).Only (Awaitable (.reconnect w 0)) := by
  induction rounds with
  | zero => exact fun _ _ => trivial
  | succ rounds ih =>
      intro delayMs now
      unfold reconnectFrom
      split
      · trivial
      · refine (reconnect_only now.channel).bind fun returns => ?_
        cases returns with
        | true => trivial
        | false => exact call_only.bind fun now => ih (min (delayMs * 2) 30000) now

theorem only_handler (request : Request) : (handler ctx request).Only (Awaitable request) := by
  cases request with
  | message w => exact only_handleMessage
  | reconnect w rounds => exact call_only.bind fun now => reconnectFrom_only rounds 1000 now

/-- The handling of a message leaves the desks alone. -/
private theorem sole_handleMessage (inv : Sole s) :
    ((soles ctx).contract (wholeSetups ctx) t).Holds (fun _ _ => True) (fun _ _ => True)
      (handleMessage w ctx) s := by
  refine (Contract.Holds.only (C := (soles ctx).contract (wholeSetups ctx) t) (I := Sole)
    only_handleMessage inv (fun _ _ step _ => step.1) ?_).mono (fun _ _ _ => trivial)
      fun _ _ _ => trivial
  rintro ⟨v, c⟩ s₁ message inv₁
  have before : SoleBefore t ⟨v, c⟩ s₁ := by
    rcases message with ofHandler | ⟨event, known⟩
    · cases c with
      | receive => trivial
      | query st => trivial
      | conclude d outcome => trivial
      | _ => cases ofHandler
    · obtain rfl : c = .work event := known
      trivial
  refine ⟨before, fun choice r s₂ allowed hexec => ?_⟩
  obtain ⟨p, process, _, done⟩ := perform_of_exec hexec
  have owed := keeps_of_perform inv₁ before allowed process done
  exact ⟨owed, owed.1⟩

/-- Where a call of `reconnectLoop` ends. -/
def Ended (t : Tid) : Request → State → Prop
  | .message _, _ => True
  | .reconnect w _, s => OverAt t w s

theorem soles_handles : (soles ctx).Handles (wholeSetups ctx) (handler ctx)
    (fun t request _ s => Ended t request s)
    fun _ request _ _ => ∃ w, request = .message w := by
  intro t request s inv fresh
  cases request with
  | message w => exact (sole_handleMessage inv).mono (fun _ _ _ => trivial) fun _ _ _ => ⟨w, rfl⟩
  | reconnect w rounds => exact (sole_reconnectLoop fresh).mono (fun _ _ ended => ended) nofun

/-! ### Runs -/

/-- No call of `reconnectLoop` of a process is running: all that have been made have come to their
end. -/
structure NoLoop (p : Service ctx) (w : ℕ) : Prop where
  called : ∀ P, p.shared.processes w = some P → P.loops = 0
  ended : ∀ t rounds task, p.slot t = .busy (.reconnect w rounds) task →
    (p.slot t).isSettled = true ∨ task.Awaits ⟨w, .enter⟩

theorem looping_of_perform {p : Process} {choice : Choice} {call : Call}
    {r : Except String call.Result} (h : perform ctx t w p choice call s = some (r, s')) :
    s'.history.looping = s.history.looping ∨
      (call = .enter ∧ s'.history.looping = Function.update s.history.looping w (some t)) := by
  cases call with
  | receive =>
      obtain ⟨_, _, _, _, _, _, _, ⟨_, _, rfl⟩ | ⟨_, _, rfl⟩⟩ := perform_receive h
      · exact .inl rfl
      · exact .inl rfl
  | query st =>
      obtain ⟨_, _, rfl⟩ | ⟨_, _, _, _, _, _, rfl⟩ := perform_query h
      · exact .inl rfl
      · exact .inl (by rw [noteInsert_eq])
  | work event => cases perform_work h; exact .inl rfl
  | conclude d outcome => obtain ⟨_, _, _, _, _, _, rfl⟩ := perform_conclude h; exact .inl rfl
  | enter => obtain ⟨_, _, rfl⟩ := perform_enter h; exact .inr ⟨rfl, rfl⟩
  | connect =>
      obtain ⟨_, _, rfl⟩ | ⟨_, rfl⟩ := perform_connect h
      · exact .inl rfl
      · exact .inl rfl
  | createChannel c =>
      obtain ⟨_, _, rfl⟩ | ⟨_, _, _, rfl⟩ := perform_createChannel h
      · exact .inl rfl
      · exact .inl rfl
  | declare c d =>
      obtain ⟨_, _, rfl⟩ | ⟨_, _, _, rfl⟩ := perform_declare h
      · exact .inl rfl
      · exact .inl rfl
  | prefetch c n => obtain ⟨rfl, _⟩ := perform_prefetch h; exact .inl rfl
  | consume c =>
      obtain ⟨_, _, rfl⟩ | ⟨_, _, rfl⟩ := perform_consume h
      · exact .inl rfl
      · exact .inl rfl
  | sleep ms => obtain ⟨_, rfl⟩ := perform_sleep h; exact .inl rfl

theorem looping_of_event {e : Event} (h : State.event ctx e s = some s') :
    s'.history.looping = s.history.looping := by
  cases e with
  | publish m => obtain ⟨_, _, rfl⟩ := Option.map_eq_some_iff.mp h; rfl
  | expire i => obtain ⟨_, _, rfl⟩ := Option.map_eq_some_iff.mp h; rfl
  | cut c => cases h; rfl
  | requeue c => obtain ⟨_, _, rfl⟩ := Option.map_eq_some_iff.mp h; rfl
  | closed c =>
      obtain ⟨x, _, h⟩ := Option.bind_eq_some_iff.mp h
      obtain ⟨p, _, h⟩ := Option.bind_eq_some_iff.mp h
      split at h
      · cases h
        rfl
      · cases h
  | boot w =>
      simp only [State.event] at h
      split at h
      · cases h
        rfl
      · cases h
  | die w => obtain ⟨_, _, rfl⟩ := Option.map_eq_some_iff.mp h; rfl
  | terminate w => obtain ⟨_, _, rfl⟩ := Option.map_eq_some_iff.mp h; rfl

/-- Who has begun last in a process is a call of its `reconnectLoop`. -/
theorem looping_of_run {p : Service ctx} (run : Run (wholeSetups ctx) (Async.Pool.idle .initial) p)
    (mine : p.shared.history.looping w = some t) :
    ∃ rounds task, p.slot t = .busy (.reconnect w rounds) task := by
  induction run generalizing w t with
  | refl => cases mine
  | @tail p q before step ih =>
      -- the slot of one thread goes on with its request
      have update : ∀ {u : Tid} {s : State} {request : Request} {task task' : (machine ctx).Task Unit},
          p.slot u = .busy request task → p.shared.history.looping w = some t →
          ∃ rounds task, Function.update p.slot u (.busy request task') t =
            .busy (.reconnect w rounds) task := by
        intro u s request task task' busy mine
        obtain ⟨rounds, task₀, there⟩ := ih mine
        by_cases self : t = u
        · subst self
          rw [busy] at there
          cases there
          exact ⟨rounds, task', Function.update_self ..⟩
        · exact ⟨rounds, task₀, (Function.update_of_ne self _ _).trans there⟩
      rcases Async.Pool.step_cases step with ⟨u, request, free, rfl⟩ |
        ⟨u, request, c, o, k, r, s, busy, _, hexec, rfl⟩ |
        ⟨u, request, left, right, task, busy, _, rfl⟩ | ⟨e, s, _, hevent, rfl⟩ |
        ⟨u, request, o, k, _, impossible, _⟩
      · obtain ⟨rounds, task, there⟩ := ih mine
        have other : t ≠ u := by
          rintro rfl
          rw [free] at there
          cases there
        exact ⟨rounds, task, (Function.update_of_ne other _ _).trans there⟩
      · obtain ⟨P, _, _, done⟩ := perform_of_exec (w := o.process) (c := o.call) hexec
        rcases looping_of_perform done with same | ⟨begins, same⟩
        · exact update (s := s) busy (same ▸ mine)
        · have mine : s.history.looping w = some t := mine
          rw [same] at mine
          by_cases here : w = o.process
          · subst here
            rw [Function.update_self] at mine
            obtain rfl : u = t := Option.some.inj mine
            have only := (Async.Pool.Steps.only only_handler before busy).1
            cases request with
            | message v =>
                rcases only with ofHandler | ⟨event, known⟩
                · rw [begins] at ofHandler
                  cases ofHandler
                · rw [begins] at known
                  cases known
            | reconnect v rounds =>
                obtain rfl : o.process = v := only
                exact ⟨rounds, k r, Function.update_self ..⟩
          · rw [Function.update_of_ne here] at mine
            exact update (s := s) busy mine
      · exact update (s := p.shared) busy mine
      · rw [looping_of_event hevent] at mine
        exact ih mine
      · exact impossible.elim

/-- The discipline holds along every run. -/
theorem soles_of_run {p : Service ctx} (run : Run (wholeSetups ctx) (Async.Pool.idle .initial) p) :
    (soles ctx).Sound (wholeSetups ctx) (fun t request _ s => Ended t request s)
      (fun _ request _ _ => ∃ w, request = .message w) p := by
  have idle : (soles ctx).Sound (wholeSetups ctx) (fun t request _ s => Ended t request s)
      (fun _ request _ _ => ∃ w, request = .message w)
      (Async.Pool.idle .initial : Service ctx) := by
    refine Discipline.sound_idle ?_ fun _ _ => nofun
    exact ⟨fun _ _ => rfl, fun v c stored => (by cases stored), fun v _ => ⟨rfl, fun _ => rfl⟩,
      fun v d known => (by cases known)⟩
  exact idle.steps soles_environment soles_handles run

/-- **One consumer after every reconnect.**  No loop is running, the process is up and its latest
connection is open: then `channel` refers to that connection, it has one consumer, and no other
connection of the process has any.

The run carries the proof: `soles_of_run` keeps at every desk that at most one loop works at it
(`Sole`) and that a consumer is only where the stored channel is.  The hypotheses about the present
moment only say which desk is looked at; `noLoop` turns the loop that has begun last into one that
has come to its end, whose set-up has been a whole one. -/
theorem one_consumer {p : Service ctx} (run : Run (wholeSetups ctx) (Async.Pool.idle .initial) p)
    {P : Process} {x : Connection} (process : p.shared.processes w = some P)
    (alive : P.alive = true) (goesOn : P.shuttingDown = false) (noLoop : NoLoop p w)
    (known : p.shared.server.connections c = some x) (owner : x.owner = w)
    (latest : ∀ c', p.shared.owns w c' = true → c' ≤ c) (isOpen : x.isOpen = true) :
    P.channel = some c ∧ ∀ c' x', p.shared.server.connections c' = some x' → x'.owner = w →
      x'.consumers = if c' = c then 1 else 0 := by
  have sound := soles_of_run run
  have up : P.up = true := by
    unfold Process.up
    rw [alive, goesOn]
    rfl
  have there : desk p.shared w =
      some ⟨P.loops, P.channel, p.shared.history.looping w, line p.shared w⟩ :=
    desk_eq_some.mpr ⟨P, process, up, rfl⟩
  have ok := sound.inv.desks w _ there
  have begun := noLoop.called P process
  -- the loop that has begun last has come to its end
  obtain ⟨t, mine⟩ : ∃ t, p.shared.history.looping w = some t := by
    rcases ok.one with ⟨_, heard⟩ | ⟨one, _⟩
    · exact Option.ne_none_iff_exists'.mp heard
    · have one : P.loops = 1 := one
      omega
  obtain ⟨rounds, task, busy⟩ := looping_of_run run mine
  have ended : OverAt t w p.shared := by
    rcases noLoop.ended t rounds task busy with settled | awaits
    · rw [busy] at settled
      cases task with
      | done v => exact sound.answered busy
      | thrown e =>
          obtain ⟨_, impossible⟩ := sound.failed busy
          cases impossible
      | await o k => cases settled
      | either l r => cases settled
      | pending => cases settled
    · exact absurd mine (sound.awaiting busy awaits w)
  obtain ⟨c₀, b, n, stored, consumes, one⟩ := ended.desk _ there mine begun
  have here : line p.shared w c = some (x.isOpen, x.consumers) :=
    line_eq_some.mpr ⟨x, known, owner, rfl⟩
  have same : c₀ = c := by
    have le : c ≤ c₀ := ok.newest c₀ stored c (by rw [show Desk.line _ c = _ from here]; nofun)
    have ge : c₀ ≤ c := latest c₀ (owns_iff_line.mpr (by
      rw [show line p.shared w c₀ = _ from consumes]
      nofun))
    omega
  subst same
  obtain ⟨rfl, rfl⟩ : x.isOpen = b ∧ x.consumers = n :=
    Prod.ext_iff.mp (Option.some.inj (here.symm.trans consumes))
  refine ⟨stored, fun c' x' known' owner' => ?_⟩
  split
  · rename_i same
    subst same
    obtain rfl : x = x' := Option.some.inj (known.symm.trans known')
    exact one isOpen
  · rename_i other
    rcases Nat.eq_zero_or_pos x'.consumers with none' | more
    · exact none'
    · have consuming := ok.consuming c' x'.isOpen x'.consumers
        (line_eq_some.mpr ⟨x', known', owner', rfl⟩) more
      exact absurd (Option.some.inj (consuming.2.symm.trans stored)) other

/-! ### Two schedules -/

/-- Whether a segment writes anything. -/
instance decidableSilent (faults : Faults) (d : Delivery) (outcome : Except String ProcessingResult)
    (s : State) (p : Process) : Decidable
      ((conclude ctx p.channel (s.writable p.channel) faults d outcome).frames = []) :=
  decidable_of_iff _ List.isEmpty_iff

instance decidableWholeSetupsAdvance (t : Tid) :
    (choice : Choice) → (o : Operation) → (s : State) →
      Decidable ((wholeSetups ctx).advance t choice o s)
  | .concludes faults _, ⟨w, .conclude d outcome⟩, s =>
      inferInstanceAs (Decidable ((∀ D ∈ desk s w, ∀ c ∈ D.channel, ¬D.HalfWay c) ∨
        ∀ p ∈ s.processes w,
          (conclude ctx p.channel (s.writable p.channel) faults d outcome).frames = []))
  | .fails _, ⟨w, .declare _ _⟩, s => inferInstanceAs (Decidable ((desk s w).isNone = true))
  | .fails _, ⟨w, .prefetch _ _⟩, s => inferInstanceAs (Decidable ((desk s w).isNone = true))
  | .fails _, ⟨w, .consume _⟩, s => inferInstanceAs (Decidable ((desk s w).isNone = true))
  | .fails _, ⟨_, .receive⟩, _ => .isTrue trivial
  | .fails _, ⟨_, .query _⟩, _ => .isTrue trivial
  | .fails _, ⟨_, .work _⟩, _ => .isTrue trivial
  | .fails _, ⟨_, .conclude _ _⟩, _ => .isTrue trivial
  | .fails _, ⟨_, .enter⟩, _ => .isTrue trivial
  | .fails _, ⟨_, .connect⟩, _ => .isTrue trivial
  | .fails _, ⟨_, .createChannel _⟩, _ => .isTrue trivial
  | .fails _, ⟨_, .sleep _⟩, _ => .isTrue trivial
  | .concludes _ _, ⟨_, .receive⟩, _ => .isTrue trivial
  | .concludes _ _, ⟨_, .query _⟩, _ => .isTrue trivial
  | .concludes _ _, ⟨_, .work _⟩, _ => .isTrue trivial
  | .concludes _ _, ⟨_, .enter⟩, _ => .isTrue trivial
  | .concludes _ _, ⟨_, .connect⟩, _ => .isTrue trivial
  | .concludes _ _, ⟨_, .createChannel _⟩, _ => .isTrue trivial
  | .concludes _ _, ⟨_, .declare _ _⟩, _ => .isTrue trivial
  | .concludes _ _, ⟨_, .prefetch _ _⟩, _ => .isTrue trivial
  | .concludes _ _, ⟨_, .consume _⟩, _ => .isTrue trivial
  | .concludes _ _, ⟨_, .sleep _⟩, _ => .isTrue trivial
  | .delivers _ _, _, _ => .isTrue trivial
  | .executes _, _, _ => .isTrue trivial
  | .succeeds, _, _ => .isTrue trivial

instance decidableWholeSetupsEvent (e : Event) (s : State) :
    Decidable ((wholeSetups ctx).event e s) := by
  unfold wholeSetups
  dsimp only
  split
  · infer_instance
  · infer_instance
  · infer_instance

instance decidableWholeSetupsCrash (t : Tid) (s : State) :
    Decidable ((wholeSetups ctx).crash t s) := .isFalse id

/-- In every run connections are made in the order of their numbers. -/
theorem inOrder_of_run {R : Regime (machine ctx)} {p : Service ctx}
    (run : Run R (Async.Pool.idle .initial) p) : InOrder p.shared := by
  induction run with
  | refl => exact fun _ _ => rfl
  | tail _ step ih =>
      rcases Async.Pool.step_cases step with ⟨_, _, _, rfl⟩ | ⟨_, _, _, _, _, _, _, _, _, hexec, rfl⟩ |
        ⟨_, _, _, _, _, _, _, rfl⟩ | ⟨_, _, _, hevent, rfl⟩ | ⟨_, _, _, _, _, _, rfl⟩
      · exact ih
      · obtain ⟨_, _, _, done⟩ := perform_of_exec hexec
        exact (connections_of_perform ih done).1
      · exact ih
      · exact ih.of_settles (settles_of_event hevent)
      · exact ih

/-- The connections of a process have numbers below the next one. -/
theorem lt_of_owns {R : Regime (machine ctx)} {p : Service ctx}
    (run : Run R (Async.Pool.idle .initial) p) (owned : p.shared.owns w c = true) :
    c < p.shared.server.nextConnection := by
  by_contra later
  obtain ⟨x, known, _⟩ := owns_iff.mp owned
  rw [inOrder_of_run run c (Nat.le_of_not_lt later)] at known
  cases known

/-- Of a process: whether it is alive, whether it is shutting down, its channel and the calls of
`reconnectLoop` that have not begun. -/
def standing (s : State) (w : ℕ) : Option (Bool × Bool × Option ℕ × ℕ) :=
  (s.processes w).map fun P => (P.alive, P.shuttingDown, P.channel, P.loops)

/-- Where all calls below a bound are over, and the others have not been made, no loop is running. -/
theorem noLoop_of_settled {p : Service ctx} {n : ℕ} {alive shuttingDown : Bool} {channel : Option ℕ}
    (free : Async.Pool.FreeFrom n p) (below : ∀ t < n, (p.slot t).isSettled = true)
    (stands : standing p.shared w = some (alive, shuttingDown, channel, 0)) : NoLoop p w where
  called := by
    intro P process
    unfold standing at stands
    rw [process] at stands
    cases P
    cases stands
    rfl
  ended := fun t _ _ _ => .inl (free.settled below t)

/-- The connection is lost and made again: the consumer is on the second one, the first one has
none. -/
theorem one_consumer_of_reconnect :
    ∃ p : Service (workerContext 3), Run (wholeSetups _) (Async.Pool.idle .initial) p ∧
      NoLoop p 0 ∧ channelOf p.shared 0 = some 1 ∧
      ∀ c' x', p.shared.server.connections c' = some x' → x'.owner = 0 →
        x'.consumers = if c' = 1 then 1 else 0 := by
  obtain ⟨p, run, free, settled, stands, here, last⟩ := Async.Pool.stepsWhere_of_check
    (wholeSetups (workerContext 3)) (C := fun _ _ => True) (fun _ _ => True)
    (handler (workerContext 3)) 2 (fun _ _ _ _ => trivial) .initial
    (startMoves 3 0 0 ++ lossMoves 3 0 0 1)
    (fun p => (∀ t : ℕ, t < 2 → (p.slot t).isSettled = true) ∧
      standing p.shared 0 = some (true, false, some 1, 0) ∧
      line p.shared 0 1 = some (true, 1) ∧ p.shared.server.nextConnection = 2) (by decide)
  have run := run.steps
  have noLoop := noLoop_of_settled free settled stands
  obtain ⟨P, process, same⟩ := Option.map_eq_some_iff.mp stands
  obtain ⟨x, known, owner, same'⟩ := line_eq_some.mp here
  have latest : ∀ c', p.shared.owns 0 c' = true → c' ≤ 1 := by
    intro c' owned
    have lt := lt_of_owns run owned
    omega
  obtain ⟨stored, consumers⟩ := one_consumer run process (congrArg (·.1) same)
    (congrArg (·.2.1) same) noLoop known owner latest (congrArg (·.1) same').symm
  refine ⟨p, run, noLoop, ?_, consumers⟩
  unfold channelOf
  rw [process]
  exact stored

/-- **A channel without a consumer.**  The channel is stored, the first declaration fails, and the
loop sleeps; then it finds the channel and returns.  No connection is lost, and there is no
consumer. -/
theorem channel_without_consumer :
    ∃ p : Service (workerContext 3), Run (unrestricted _) (Async.Pool.idle .initial) p ∧
      NoLoop p 0 ∧ standing p.shared 0 = some (true, false, some 0, 0) ∧
      line p.shared 0 0 = some (true, 0) ∧ ∀ c', p.shared.owns 0 c' = true → c' = 0 := by
  obtain ⟨p, run, free, settled, stands, here, last⟩ := Async.Pool.stepsWhere_of_check
    (unrestricted (workerContext 3)) (C := fun _ _ => True) (fun _ _ => True)
    (handler (workerContext 3)) 1 (fun _ _ _ _ => trivial) .initial
    [.event (.boot 0), .start 0 (.reconnect 0 2), .advance 0 .succeeds, .advance 0 .succeeds,
      .advance 0 .succeeds, .advance 0 (.fails "Channel closed"), .advance 0 .succeeds]
    (fun p => (∀ t : ℕ, t < 1 → (p.slot t).isSettled = true) ∧
      standing p.shared 0 = some (true, false, some 0, 0) ∧
      line p.shared 0 0 = some (true, 0) ∧ p.shared.server.nextConnection = 1) (by decide)
  refine ⟨p, run.steps, noLoop_of_settled free settled stands, stands, here, fun c' owned => ?_⟩
  have lt := lt_of_owns run.steps owned
  omega

end Worker

end OrderPlatform
