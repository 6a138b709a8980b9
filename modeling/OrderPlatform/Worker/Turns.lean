import OrderPlatform.Async.Conjunction
import OrderPlatform.Worker.Acknowledgement

/-!
# One loop at a time

As long as no connection is lost, `reconnectLoop` is called once in each process, when the process
starts.  So the loop that runs has the variable `channel` to itself: it stores at most one channel,
and it starts its consumer on the channel that is stored (`Turn`).

This is a discipline of its own (`turns`), beside the one that all runs keep; `losslessDiscipline` is
both of them.

The regime `lossless` belongs here because it is what makes the turn unique: a second call of
`reconnectLoop` comes from the loss of a connection only.
-/

namespace OrderPlatform

namespace Worker

open Async (Tid Contract Discipline Regime)
open Rabbit

variable {ctx : WorkerContext} {t u : Tid} {s s' : State}

/-- No connection is lost: what is written arrives, and `requeueOrDeadLetter` does not throw.

A call that throws there, although its channel is open, and a header that cannot be converted are
excluded because they end in the same way: nobody handles the promise of `handleMessage`, so the
process dies of it, and its connection is lost with it.  An ack that throws in `handleMessage` itself
is caught, so it may. -/
def lossless (ctx : WorkerContext) : Regime (machine ctx) where
  advance := fun _ choice o _ =>
    match choice with
    | .concludes faults n =>
        faults.send = none ∧ faults.settle = none ∧ 2 ≤ n ∧ o.call.converts ctx faults = true
    | _ => True
  event := fun e _ =>
    match e with
    | .cut _ => False
    | .closed _ => False
    | .die _ => False
    | _ => True
  crash := fun _ _ => True

instance decidableLosslessAdvance (t : Tid) :
    (choice : Choice) → (o : Operation) → (s : State) →
      Decidable ((lossless ctx).advance t choice o s)
  | .concludes faults n, o, _ =>
      inferInstanceAs (Decidable (faults.send = none ∧ faults.settle = none ∧ 2 ≤ n ∧
        o.call.converts ctx faults = true))
  | .delivers _ _, _, _ => .isTrue trivial
  | .executes _, _, _ => .isTrue trivial
  | .succeeds, _, _ => .isTrue trivial
  | .fails _, _, _ => .isTrue trivial

instance decidableLosslessEvent :
    (e : Event) → (s : State) → Decidable ((lossless ctx).event e s)
  | .cut _, _ => .isFalse id
  | .closed _, _ => .isFalse id
  | .die _, _ => .isFalse id
  | .publish _, _ => .isTrue trivial
  | .expire _, _ => .isTrue trivial
  | .requeue _, _ => .isTrue trivial
  | .boot _, _ => .isTrue trivial
  | .terminate _, _ => .isTrue trivial

instance decidableLosslessCrash (t : Tid) (s : State) : Decidable ((lossless ctx).crash t s) :=
  .isTrue trivial

/-! ### Connections are only added -/

/-- Connections are made in the order of their numbers. -/
def InOrder (s : State) : Prop :=
  ∀ c, s.server.nextConnection ≤ c → s.server.connections c = none

/-- A connection stays that of the process that has made it. -/
def OwnersKept (s s' : State) : Prop := ∀ w c, s.owns w c = true → s'.owns w c = true

theorem owns_iff {w c : ℕ} :
    s.owns w c = true ↔ ∃ x, s.server.connections c = some x ∧ x.owner = w := by
  unfold State.owns
  rw [Option.any_eq_true_iff_get]
  cases s.server.connections c with
  | none => simp
  | some x => simp

theorem OwnersKept.of_settles (step : Server.Settles s.server s'.server) : OwnersKept s s' := by
  intro w c owned
  obtain ⟨x, known, owner⟩ := owns_iff.mp owned
  obtain ⟨x', known', owner', _⟩ := step.connections c x known
  exact owns_iff.mpr ⟨x', known', owner'.trans owner⟩

theorem InOrder.of_settles (inOrder : InOrder s) (step : Server.Settles s.server s'.server) :
    InOrder s' := by
  intro c le
  obtain ⟨le', none⟩ := step.fresh c le
  exact none (inOrder c le')

/-- What a call does to the connections. -/
theorem connections_of_perform {w : ℕ} {p : Process} {choice : Choice} {c : Call}
    {r : Except String c.Result} (inOrder : InOrder s)
    (h : perform ctx t w p choice c s = some (r, s')) : InOrder s' ∧ OwnersKept s s' := by
  by_cases entry : c = .receive
  · subst entry
    obtain ⟨c, i, d, server, _, _, delivered, handled⟩ := perform_receive h
    have same : s'.server = server := by
      rcases handled with ⟨_, _, rfl⟩ | ⟨_, _, rfl⟩
      · rfl
      · rfl
    obtain ⟨x, copy, connection, _, _, _, rfl⟩ := Server.deliver_eq delivered
    -- only the next number on the channel is another one
    have connections : ∀ c', s'.server.connections c' = (s.server.connections c').map
        fun y => if c' = c then { y with nextTag := y.nextTag + 1 } else y := by
      intro c'
      rw [same]
      show Function.update s.server.connections c ((s.server.connections c).map _) c' = _
      by_cases here : c' = c
      · subst here
        rw [Function.update_self]
        simp
      · rw [Function.update_of_ne here]
        simp [here]
    refine ⟨fun c' le => ?_, fun v c' owned => ?_⟩
    · have le : s.server.nextConnection ≤ c' := by rw [same] at le; exact le
      rw [connections, inOrder c' le]
      rfl
    · obtain ⟨y, known, owner⟩ := owns_iff.mp owned
      refine owns_iff.mpr ⟨_, by rw [connections, known]; rfl, ?_⟩
      split
      · exact owner
      · exact owner
  · obtain ⟨step, _⟩ := settles_of_perform entry (inOrder _ (Nat.le_refl _)) h
    exact ⟨inOrder.of_settles step, .of_settles step⟩

/-! ### Who has the variable `channel` to itself -/

/-- The variable `channel` of a process. -/
def channelOf (s : State) (w : ℕ) : Option ℕ := (s.processes w).bind Process.channel

/-- A call of `reconnectLoop` is the one that has begun last, and this is what `channel` refers to. -/
structure Turn (t : Tid) (w : ℕ) (channel : Option ℕ) (s : State) : Prop where
  looping : s.history.looping w = some t
  channel : channelOf s w = channel

/-- A loop that has not begun is the only one of its process, and nobody has stored a channel. -/
structure Alone (s : State) : Prop where
  inOrder : InOrder s
  unstarted : ∀ w, s.processes w = none → s.history.looping w = none
  waiting : ∀ w p, s.processes w = some p → 0 < p.loops →
    p.loops = 1 ∧ p.channel = none ∧ s.history.looping w = none

/-- What a loop tolerates: it stays the last one, and `channel` is left to it. -/
structure TurnKept (t : Tid) (s s' : State) : Prop where
  turn : ∀ w, s.history.looping w = some t →
    s'.history.looping w = some t ∧ channelOf s' w = channelOf s w
  owners : OwnersKept s s'

theorem TurnKept.refl (t : Tid) (s : State) : TurnKept t s s :=
  ⟨fun _ mine => ⟨mine, rfl⟩, fun _ _ owned => owned⟩

theorem TurnKept.trans {s'' : State} (h : TurnKept t s s') (h' : TurnKept t s' s'') :
    TurnKept t s s'' := by
  refine ⟨fun w mine => ?_, fun w c owned => h'.owners w c (h.owners w c owned)⟩
  obtain ⟨still, same⟩ := h.turn w mine
  obtain ⟨still', same'⟩ := h'.turn w still
  exact ⟨still', same'.trans same⟩

theorem TurnKept.looping {w : ℕ} (step : TurnKept t s s') (mine : s.history.looping w = some t) :
    s'.history.looping w = some t := (step.turn w mine).1

theorem Turn.later {w : ℕ} {channel : Option ℕ} (h : Turn t w channel s) (step : TurnKept t s s') :
    Turn t w channel s' := by
  obtain ⟨still, same⟩ := step.turn w h.looping
  exact ⟨still, same.trans h.channel⟩

/-- What is true when a loop awaits something. -/
def TurnBefore (t : Tid) (o : Operation) (s : State) : Prop :=
  match o.call with
  | .connect => Turn t o.process none s
  | .createChannel c => Turn t o.process none s ∧ s.owns o.process c = true
  | .declare c _ => Turn t o.process (some c) s
  | .prefetch c _ => Turn t o.process (some c) s
  | .consume c => Turn t o.process (some c) s
  | .sleep _ => s.history.looping o.process = some t
  | _ => True

/-! ### What a call does to the loops -/

/-- The loops and channels of all processes stay as they are. -/
structure Calm (s s' : State) : Prop where
  inOrder : InOrder s'
  owners : OwnersKept s s'
  looping : s'.history.looping = s.history.looping
  processes : ∀ w, (s'.processes w).map (fun p => (p.loops, p.channel)) =
    (s.processes w).map fun p => (p.loops, p.channel)

namespace Calm

theorem of_same (connections : InOrder s' ∧ OwnersKept s s')
    (looping : s'.history.looping = s.history.looping) (processes : s'.processes = s.processes) :
    Calm s s' := ⟨connections.1, connections.2, looping, fun w => by rw [processes]⟩

/-- A process changes, but for its loops and its channel. -/
theorem setProcess {w : ℕ} {p p' : Process} (connections : InOrder s' ∧ OwnersKept s s')
    (process : s.processes w = some p)
    (processes : s'.processes = Function.update s.processes w (some p'))
    (looping : s'.history.looping = s.history.looping) (loops : p'.loops = p.loops)
    (channel : p'.channel = p.channel) : Calm s s' := by
  refine ⟨connections.1, connections.2, looping, fun v => ?_⟩
  rw [processes]
  by_cases same : v = w
  · subst same
    rw [Function.update_self, process]
    simp [loops, channel]
  · rw [Function.update_of_ne same]

theorem channelOf (h : Calm s s') (w : ℕ) : channelOf s' w = channelOf s w := by
  have same := h.processes w
  unfold Worker.channelOf
  cases known : s'.processes w with
  | none =>
      rw [known] at same
      rw [Option.map_eq_none_iff.mp same.symm]
  | some p' =>
      rw [known] at same
      obtain ⟨p, known', equal⟩ := Option.map_eq_some_iff.mp same.symm
      rw [known']
      exact (Prod.ext_iff.mp equal).2.symm

theorem kept (h : Calm s s') (t : Tid) : TurnKept t s s' :=
  ⟨fun w mine => ⟨by rw [h.looping]; exact mine, h.channelOf w⟩, h.owners⟩

theorem alone (h : Calm s s') (inv : Alone s) : Alone s' := by
  refine ⟨h.inOrder, ?_, ?_⟩
  · intro w none
    have same := h.processes w
    rw [none] at same
    rw [h.looping]
    exact inv.unstarted w (Option.map_eq_none_iff.mp same.symm)
  · intro w p' known pending
    have same := h.processes w
    rw [known] at same
    obtain ⟨p, known', equal⟩ := Option.map_eq_some_iff.mp same.symm
    obtain ⟨loops, channel⟩ := Prod.ext_iff.mp equal
    have loops : p.loops = p'.loops := loops
    obtain ⟨one, none, unheard⟩ := inv.waiting w p known' (by rw [loops]; exact pending)
    rw [h.looping]
    exact ⟨loops.symm.trans one, channel.symm.trans none, unheard⟩

end Calm

section Perform

variable {w : ℕ} {p : Process} {choice : Choice} {c : Call} {r : Except String c.Result}

/-- Only the begin of a loop and the creation of a channel are of any matter to the loops. -/
theorem calm_of_perform (inOrder : InOrder s) (begins : c ≠ .enter)
    (creates : ∀ c', c ≠ .createChannel c') (process : s.processes w = some p)
    (h : perform ctx t w p choice c s = some (r, s')) : Calm s s' := by
  have kept := connections_of_perform inOrder h
  cases c with
  | receive =>
      obtain ⟨_, _, d, server, _, _, _, ⟨_, _, rfl⟩ | ⟨_, _, rfl⟩⟩ := perform_receive h
      · exact .of_same kept rfl rfl
      · exact .setProcess kept process rfl rfl rfl rfl
  | query st =>
      obtain ⟨_, _, rfl⟩ | ⟨_, n, _, _, _, _, rfl⟩ := perform_query h
      · exact .of_same kept rfl rfl
      · exact .of_same kept (by rw [noteInsert_eq]) rfl
  | work event => cases perform_work h; exact .of_same kept rfl rfl
  | conclude d outcome =>
      obtain ⟨faults, n, _, segment, _, _, rfl⟩ := perform_conclude h
      exact .setProcess kept process rfl rfl rfl rfl
  | enter => exact absurd rfl begins
  | connect =>
      obtain ⟨_, _, rfl⟩ | ⟨_, rfl⟩ := perform_connect h
      · exact .of_same kept rfl rfl
      · exact .of_same kept rfl rfl
  | createChannel c' => exact absurd rfl (creates c')
  | declare c' d =>
      obtain ⟨_, _, rfl⟩ | ⟨_, _, _, rfl⟩ := perform_declare h
      · exact .of_same kept rfl rfl
      · exact .of_same kept rfl rfl
  | prefetch c' n => obtain ⟨rfl, _⟩ := perform_prefetch h; exact .of_same kept rfl rfl
  | consume c' =>
      obtain ⟨_, _, rfl⟩ | ⟨_, _, rfl⟩ := perform_consume h
      · exact .of_same kept rfl rfl
      · exact .of_same kept rfl rfl
  | sleep ms => obtain ⟨_, rfl⟩ := perform_sleep h; exact .of_same kept rfl rfl

/-- What a step of call `t` leaves, and what it does to the loops of the others. -/
def TakesTurns (t : Tid) (s s' : State) : Prop := Alone s' ∧ ∀ u, u ≠ t → TurnKept u s s'

/-- **What a call does to the loops**: it begins when nobody else has, and it stores a channel when it
has its turn. -/
theorem turns_of_perform (inv : Alone s) (before : TurnBefore t ⟨w, c⟩ s)
    (process : s.processes w = some p) (h : perform ctx t w p choice c s = some (r, s')) :
    TakesTurns t s s' := by
  have kept := connections_of_perform inv.inOrder h
  -- apart from `enter` and `createChannel` no operation matters to the loops
  by_cases begins : c = .enter
  · subst begins
    obtain ⟨pending, _, rfl⟩ := perform_enter h
    obtain ⟨one, none, unheard⟩ := inv.waiting w p process pending
    refine ⟨⟨kept.1, fun v missing => ?_, fun v q known more => ?_⟩,
      fun u other => ⟨fun v mine => ?_, kept.2⟩⟩
    · have missing : Function.update s.processes w (some { p with loops := p.loops - 1 }) v =
        .none := missing
      by_cases same : v = w
      · rw [same, Function.update_self] at missing
        cases missing
      · rw [Function.update_of_ne same] at missing
        exact (Function.update_of_ne same _ _).trans (inv.unstarted v missing)
    · have known : Function.update s.processes w (some { p with loops := p.loops - 1 }) v =
        some q := known
      by_cases same : v = w
      · rw [same, Function.update_self] at known
        cases known
        have more : 0 < p.loops - 1 := more
        omega
      · rw [Function.update_of_ne same] at known
        obtain ⟨one', none', unheard'⟩ := inv.waiting v q known more
        exact ⟨one', none', (Function.update_of_ne same _ _).trans unheard'⟩
    · have different : v ≠ w := by
        rintro rfl
        rw [unheard] at mine
        cases mine
      refine ⟨(Function.update_of_ne different _ _).trans mine, ?_⟩
      show (Function.update s.processes w _ v).bind Process.channel = _
      rw [Function.update_of_ne different]
      rfl
  by_cases creates : ∃ c', c = .createChannel c'
  · obtain ⟨c', rfl⟩ := creates
    obtain ⟨_, _, rfl⟩ | ⟨_, _, _, rfl⟩ := perform_createChannel h
    · exact ⟨inv, fun u _ => .refl u _⟩
    · have mine : s.history.looping w = some t := before.1.looping
      refine ⟨⟨kept.1, fun v missing => ?_, fun v q known more => ?_⟩,
        fun u other => ⟨fun v theirs => ?_, kept.2⟩⟩
      · have missing : Function.update s.processes w (some { p with channel := some c' }) v =
          .none := missing
        by_cases same : v = w
        · rw [same, Function.update_self] at missing
          cases missing
        · rw [Function.update_of_ne same] at missing
          exact inv.unstarted v missing
      · have known : Function.update s.processes w (some { p with channel := some c' }) v =
          some q := known
        by_cases same : v = w
        · rw [same, Function.update_self] at known
          cases known
          obtain ⟨_, _, unheard⟩ := inv.waiting w p process more
          rw [mine] at unheard
          cases unheard
        · rw [Function.update_of_ne same] at known
          exact inv.waiting v q known more
      · have different : v ≠ w := by
          rintro rfl
          exact other (Option.some.inj (theirs.symm.trans mine))
        refine ⟨theirs, ?_⟩
        show (Function.update s.processes w _ v).bind Process.channel = _
        rw [Function.update_of_ne different]
        rfl
  · have calm := calm_of_perform inv.inOrder begins (fun c' equal => creates ⟨c', equal⟩) process h
    exact ⟨calm.alone inv, fun u _ => calm.kept u⟩

end Perform

/-- What happens beside the calls of a run without losses. -/
theorem turns_of_event {e : Event} (inv : Alone s) (allowed : (lossless ctx).event e s)
    (h : State.event ctx e s = some s') : Alone s' ∧ ∀ u, TurnKept u s s' := by
  have quiet : Calm s s' → Alone s' ∧ ∀ u, TurnKept u s s' :=
    fun calm => ⟨calm.alone inv, fun u => calm.kept u⟩
  have step := settles_of_event h
  have kept : InOrder s' ∧ OwnersKept s s' := ⟨inv.inOrder.of_settles step, .of_settles step⟩
  cases e with
  | publish m =>
      obtain ⟨_, _, rfl⟩ := Option.map_eq_some_iff.mp h
      exact quiet (.of_same kept rfl rfl)
  | expire i =>
      obtain ⟨_, _, rfl⟩ := Option.map_eq_some_iff.mp h
      exact quiet (.of_same kept rfl rfl)
  | requeue c =>
      obtain ⟨_, _, rfl⟩ := Option.map_eq_some_iff.mp h
      exact quiet (.of_same kept rfl rfl)
  | boot w =>
      simp only [State.event] at h
      split at h
      · rename_i absent
        cases h
        -- a process that has never run has no loop yet, and starts with one
        have unheard := inv.unstarted w absent
        refine ⟨⟨kept.1, fun v missing => ?_, fun v q known more => ?_⟩,
          fun u => ⟨fun v theirs => ?_, kept.2⟩⟩
        · have missing : Function.update s.processes w (some .started) v = .none := missing
          by_cases same : v = w
          · rw [same, Function.update_self] at missing
            cases missing
          · rw [Function.update_of_ne same] at missing
            exact inv.unstarted v missing
        · have known : Function.update s.processes w (some .started) v = some q := known
          by_cases same : v = w
          · rw [same, Function.update_self] at known
            cases known
            exact ⟨rfl, rfl, same ▸ unheard⟩
          · rw [Function.update_of_ne same] at known
            exact inv.waiting v q known more
        · have different : v ≠ w := by
            rintro rfl
            rw [unheard] at theirs
            cases theirs
          refine ⟨theirs, ?_⟩
          show (Function.update s.processes w _ v).bind Process.channel = _
          rw [Function.update_of_ne different]
          rfl
      · cases h
  | terminate w =>
      obtain ⟨p, process, rfl⟩ := Option.map_eq_some_iff.mp h
      exact quiet (.setProcess kept process rfl rfl rfl rfl)
  -- a run without losses has none of these events
  | cut c => cases allowed
  | closed c => cases allowed
  | die w => cases allowed

/-! ### The discipline -/

/-- What the loops of a run without losses agree on. -/
def turns (ctx : WorkerContext) : Discipline (machine ctx) where
  inv := Alone
  fresh := fun _ _ => True
  before := TurnBefore
  rely := TurnKept
  rely_refl := TurnKept.refl
  rely_trans := TurnKept.trans
  fresh_rely := fun _ _ => trivial

theorem turns_environment : (turns ctx).Environment (lossless ctx) where
  event := turns_of_event
  crash := fun inv _ => ⟨inv, fun u _ => .refl u _⟩

/-! ### A loop has its turn -/

section Loop

variable {R : Regime (machine ctx)} {α : Type} {Q : α → State → Prop} {E : String → State → Prop}
variable {w prefetch : ℕ}

/-- A call awaited by a loop. -/
private theorem turn_call {c : Call} {f : c.Result → (machine ctx).Task α}
    (before : ∀ s', TurnKept t s s' → TurnBefore t ⟨w, c⟩ s')
    (next : ∀ s₁ choice p v s₂, TurnKept t s s₁ → Alone s₁ → s₁.processes w = some p →
      perform ctx t w p choice c s₁ = some (.ok v, s₂) → Alone s₂ →
      ((turns ctx).contract R t).Holds Q E (f v) s₂)
    (failed : ∀ s₁ choice p e s₂ s₃, TurnKept t s s₁ → Alone s₁ → s₁.processes w = some p →
      perform ctx t w p choice c s₁ = some (.error e, s₂) → TurnKept t s₂ s₃ → E e s₃) :
    ((turns ctx).contract R t).Holds Q E ((call w c).bind f) s := by
  intro s₁ step
  refine ⟨before s₁ step.2, fun choice r s₂ _ hexec => ?_⟩
  obtain ⟨p, process, _, done⟩ := perform_of_exec hexec
  have owed := turns_of_perform step.1 (before s₁ step.2) process done
  refine ⟨owed, ?_⟩
  cases r with
  | ok v => exact next s₁ choice p v s₂ step.2 step.1 process done owed.1
  | error e => exact fun s₃ later => failed s₁ choice p e s₂ s₃ step.2 step.1 process done later.2

/-- A call of a loop that changes neither the loops nor the channels. -/
private theorem calm_call {channel : Option ℕ} {c : Call} {f : c.Result → (machine ctx).Task α}
    (begins : c ≠ .enter) (creates : ∀ c', c ≠ .createChannel c') (turn : Turn t w channel s)
    (before : ∀ s', Turn t w channel s' → TurnBefore t ⟨w, c⟩ s')
    (next : ∀ s₁ choice p v s₂, s₁.processes w = some p → Turn t w channel s₁ →
      perform ctx t w p choice c s₁ = some (.ok v, s₂) → Alone s₂ → Turn t w channel s₂ →
      ((turns ctx).contract R t).Holds Q E (f v) s₂)
    (failed : ∀ e s', Turn t w channel s' → E e s') :
    ((turns ctx).contract R t).Holds Q E ((call w c).bind f) s := by
  refine turn_call (fun s' step => before s' (turn.later step)) ?_ ?_
  · intro s₁ choice p v s₂ step inv process done alone
    have calm := calm_of_perform inv.inOrder begins creates process done
    exact next s₁ choice p v s₂ process (turn.later step) done alone
      ((turn.later step).later (calm.kept t))
  · intro s₁ choice p e s₂ s₃ step inv process done later
    have calm := calm_of_perform inv.inOrder begins creates process done
    exact failed e s₃ (((turn.later step).later (calm.kept t)).later later)

private theorem turns_declareAll {channel : ℕ} (todo : List Declaration) :
    ∀ {s : State}, Turn t w (some channel) s →
      ((turns ctx).contract R t).Holds (fun _ s' => Turn t w (some channel) s')
        (fun _ s' => s'.history.looping w = some t) (declareAll w channel todo) s := by
  induction todo with
  | nil => exact fun turn s' step => turn.later step.2
  | cons d rest ih =>
      intro s turn
      exact calm_call (c := .declare channel d) nofun nofun turn (fun _ now => now)
        (fun _ _ _ _ _ _ _ _ _ now => ih now) fun _ _ now => now.looping

/-- **Setting up the channel**: what it returns is the channel that is stored. -/
private theorem turns_setupRabbit {channel : Option ℕ} (turn : Turn t w channel s) :
    ((turns ctx).contract R t).Holds
      (fun pair s' => pair.2 = some pair.1 ∧ Turn t w (some pair.1) s')
      (fun _ s' => s'.history.looping w = some t) (setupRabbit w prefetch channel) s := by
  cases channel with
  | some c => exact fun s' step => ⟨rfl, turn.later step.2⟩
  | none =>
      refine calm_call (c := .connect) nofun nofun turn (fun _ now => now) ?_
        fun _ _ now => now.looping
      intro s₁ choice p (connection : ℕ) s₂ _ _ done _ turn₂
      have own : s₂.owns w connection = true := by
        obtain ⟨_, impossible, _⟩ | ⟨reply, rfl⟩ := perform_connect done
        · cases impossible
        obtain rfl : connection = s₁.server.nextConnection := Except.ok.inj reply
        exact owns_iff.mpr ⟨_, Function.update_self .., rfl⟩
      refine turn_call (c := .createChannel connection)
        (fun _ step => ⟨turn₂.later step, step.owners w connection own⟩) ?_ ?_
      · intro s₃ choice p v s₄ step _ process done alone₄
        have turn₄ : Turn t w (some connection) s₄ := by
          obtain ⟨_, impossible, _⟩ | ⟨_, _, _, rfl⟩ := perform_createChannel done
          · cases impossible
          refine ⟨(turn₂.later step).looping, ?_⟩
          show (Function.update s₃.processes w _ w).bind Process.channel = _
          rw [Function.update_self]
          rfl
        refine (turns_declareAll declarations turn₄).chain ⟨alone₄, .refl t _⟩ ?_
        intro _ s₅ turn₅ _
        refine calm_call (c := .prefetch connection prefetch) nofun nofun turn₅
          (fun _ now => now) ?_ fun _ _ now => now.looping
        intro s₆ choice p (stored : Option ℕ) s₇ process₆ turn₆ done _ turn₇ s₈ later
        -- the module variable still refers to the channel of this call
        obtain ⟨_, ⟨_, impossible⟩ | ⟨_, reply⟩⟩ := perform_prefetch done
        · cases impossible
        obtain rfl : stored = p.channel := Except.ok.inj reply
        have own : channelOf s₆ w = p.channel := by
          unfold channelOf
          rw [process₆]
          rfl
        exact ⟨own.symm.trans turn₆.channel, turn₇.later later.2⟩
      · intro s₃ choice p e s₄ s₅ step _ _ done later
        obtain ⟨_, _, rfl⟩ | ⟨_, _, impossible, _⟩ := perform_createChannel done
        · exact ((turn₂.later step).later later).looping
        · cases impossible

private theorem turns_startConsumer {channel : Option ℕ} (alone : Alone s)
    (turn : Turn t w channel s) :
    ((turns ctx).contract R t).Holds (fun _ s' => s'.history.looping w = some t)
      (fun _ s' => s'.history.looping w = some t) (startConsumer w prefetch channel) s := by
  refine (turns_setupRabbit turn).chain ⟨alone, .refl t _⟩ ?_
  rintro ⟨active, _⟩ s₁ ⟨_, turn₁⟩ _
  show ((turns ctx).contract R t).Holds _ _ (call w (.consume active)) s₁
  rw [← Async.Program.bind_done_right (call w (.consume active))]
  exact calm_call nofun nofun turn₁ (fun _ now => now)
    (fun _ _ _ _ _ _ _ _ _ now s' later => (now.later later.2).looping) fun _ _ now => now.looping

private theorem turns_reconnect (alone : Alone s) (turn : Turn t w none s) :
    ((turns ctx).contract R t).Holds (fun _ s' => s'.history.looping w = some t)
      (fun _ s' => s'.history.looping w = some t) (reconnect w prefetch none) s := by
  have here : ((turns ctx).contract R t).rely s s := ⟨alone, .refl t _⟩
  refine Contract.Holds.attempt (Contract.Holds.chain ((turns_setupRabbit turn).mono
    (fun _ _ done => done) fun _ _ looping _ s' later => later.2.looping looping) here ?_) here
  rintro ⟨active, channel⟩ s₁ ⟨stored, turn₁⟩ here₁
  obtain rfl : channel = some active := stored
  refine Contract.Holds.chain ((turns_startConsumer here₁.1 turn₁).mono (fun _ _ done => done)
    fun _ _ looping _ s' later => later.2.looping looping) here₁ ?_
  exact fun _ s₂ looping _ s' later => later.2.looping looping

private theorem turns_reconnectFrom (rounds : ℕ) :
    ∀ {s : State} (delayMs : ℕ) (now : Snapshot), Alone s → Turn t w now.channel s →
      ((turns ctx).contract R t).Holds (fun _ _ => True) (fun _ _ => True)
        (reconnectFrom w prefetch rounds delayMs now) s := by
  induction rounds with
  | zero => exact fun _ _ _ _ => trivial
  | succ rounds ih =>
      intro s delayMs now alone turn
      unfold reconnectFrom
      split
      · exact fun _ _ => trivial
      · rename_i goes
        have channel : now.channel = none := by
          simp only [Bool.or_eq_true, not_or, Option.not_isSome_iff_eq_none] at goes
          exact goes.2
        rw [channel] at turn ⊢
        refine ((turns_reconnect alone turn).mono (fun _ _ done => done)
          fun _ _ _ => trivial).chain ⟨alone, .refl t _⟩ ?_
        intro returns s₁ looping here
        cases returns with
        | true => exact fun _ _ => trivial
        | false =>
            have turn₁ : Turn t w (channelOf s₁ w) s₁ := ⟨looping, rfl⟩
            refine calm_call (c := .sleep delayMs) nofun nofun turn₁
              (fun _ now => now.looping) ?_ fun _ _ _ => trivial
            intro s₂ choice p (now : Snapshot) s₃ process turn₂ done alone₃ turn₃
            obtain ⟨reply, rfl⟩ := perform_sleep done
            obtain rfl : now = p.snapshot := Except.ok.inj reply
            refine ih (min (delayMs * 2) 30000) p.snapshot alone₃ ⟨turn₃.looping, ?_⟩
            unfold channelOf
            rw [process]
            rfl

theorem turns_reconnectLoop {rounds : ℕ} :
    ((turns ctx).contract R t).Holds (fun _ _ => True) (fun _ _ => True)
      (reconnectLoop w prefetch rounds) s := by
  refine turn_call (c := .enter) (fun _ _ => trivial) ?_ fun _ _ _ _ _ _ _ _ _ _ _ => trivial
  intro s₁ choice p (now : Snapshot) s₂ _ _ _ done alone
  obtain ⟨_, reply, rfl⟩ := perform_enter done
  obtain rfl : now = p.snapshot := Except.ok.inj reply
  refine turns_reconnectFrom rounds 1000 p.snapshot alone ⟨Function.update_self .., ?_⟩
  show (Function.update s₁.processes w _ w).bind Process.channel = _
  rw [Function.update_self]
  rfl

end Loop

/-! ### Handlers have nothing to do with the loops -/

section Messages

variable {R : Regime (machine ctx)} {w : ℕ}

/-- What the handling of a message awaits. -/
def OfMessage (o : Operation) : Prop := o.call.ofHandler = true ∨ ∃ event, o.call = .work event

private theorem only_call {c : Call} (handler : OfMessage ⟨w, c⟩) : (call w c).Only OfMessage := by
  refine ⟨handler, fun r => ?_⟩
  cases r with
  | ok v => trivial
  | error e => trivial

private theorem only_processEvent (event : OrderCreatedEvent) :
    (processEvent w event).Only OfMessage := by
  refine (only_call (c := .query _) (.inl rfl)).bind fun (inserted : ℕ) => ?_
  split
  · trivial
  · refine Async.Program.Only.attempt ?_ fun e => ?_
    · exact (only_call (.inr ⟨event, rfl⟩)).bind fun _ =>
        (only_call (c := .query _) (.inl rfl)).bind fun _ => trivial
    · exact (only_call (c := .query _) (.inl rfl)).bind fun _ => trivial

theorem only_handleMessage : (handleMessage w ctx).Only OfMessage := by
  refine (only_call (c := .receive) (.inl rfl)).bind fun (d : Option Delivery) => ?_
  cases d with
  | none => trivial
  | some d =>
      show (handleDelivery w ctx d).Only OfMessage
      unfold handleDelivery
      split
      · exact only_call (.inl rfl)
      · exact (only_processEvent _).deadline fun _ => only_call (.inl rfl)

/-- The handling of a message leaves the loops alone. -/
theorem turns_handleMessage (alone : Alone s) :
    ((turns ctx).contract R t).Holds (fun _ _ => True) (fun _ _ => True) (handleMessage w ctx) s := by
  refine (Contract.Holds.only (C := (turns ctx).contract R t) (I := Alone) only_handleMessage alone
    (fun _ _ step _ => step.1) ?_).mono (fun _ _ _ => trivial) fun _ _ _ => trivial
  rintro ⟨v, c⟩ s₁ message alone₁
  have others : TurnBefore t ⟨v, c⟩ s₁ ∧ c ≠ .enter ∧ ∀ c', c ≠ .createChannel c' := by
    rcases message with handler | ⟨event, known⟩
    · cases c with
      | receive => exact ⟨trivial, nofun, nofun⟩
      | query st => exact ⟨trivial, nofun, nofun⟩
      | conclude d outcome => exact ⟨trivial, nofun, nofun⟩
      | _ => cases handler
    · obtain rfl : c = .work event := known
      exact ⟨trivial, nofun, nofun⟩
  obtain ⟨before, begins, creates⟩ := others
  refine ⟨before, fun choice r s₂ _ hexec => ?_⟩
  obtain ⟨p, process, _, done⟩ := perform_of_exec hexec
  have calm := calm_of_perform alone₁.inOrder begins creates process done
  exact ⟨⟨calm.alone alone₁, fun u _ => calm.kept u⟩, calm.alone alone₁⟩

end Messages

/-- **The calls take turns**, in every regime. -/
theorem turns_handles {R : Regime (machine ctx)} :
    (turns ctx).Handles R (handler ctx) (fun _ _ _ _ => True) fun _ _ _ _ => True := by
  intro t request s alone _
  cases request with
  | message w => exact turns_handleMessage alone
  | reconnect w rounds => exact turns_reconnectLoop

/-! ### Runs without losses -/

/-- What is known of a call in a run without losses. -/
def LosslessBefore (ctx : WorkerContext) (t : Tid) (o : Operation) (s : State) : Prop :=
  Before ctx t o s ∧ TurnBefore t o s

/-- **An invariant of all runs without losses.** -/
theorem invariant_of_lossless_run {I : State → Prop} {p q : Service ctx}
    (start : Run (lossless ctx) (Async.Pool.idle .initial) p) (initially : I p.shared)
    (advance : ∀ t w c choice p r s s', Alone s → LosslessBefore ctx t ⟨w, c⟩ s →
      (lossless ctx).advance t choice ⟨w, c⟩ s → s.processes w = some p →
      perform ctx t w p choice c s = some (r, s') → I s → I s')
    (event : ∀ e s s', Alone s → (lossless ctx).event e s → State.event ctx e s = some s' →
      I s → I s')
    (run : Run (lossless ctx) p q) : I q.shared := by
  have environments := (environment (R := lossless ctx)).and turns_environment
  have handlers : ((discipline ctx).and (turns ctx)).Handles (lossless ctx) (handler ctx) _ _ :=
    handles.and turns_handles
  have idle : Discipline.Sound ((discipline ctx).and (turns ctx)) (lossless ctx)
      (fun _ _ _ _ => True ∧ True) (fun _ _ _ _ => True ∧ True)
      (Async.Pool.idle .initial : Service ctx) := by
    refine Discipline.sound_idle ?_ fun _ => ⟨⟨rfl, rfl, rfl⟩, trivial⟩
    exact ⟨trivial, fun _ _ => rfl, fun _ _ => rfl, fun w p known => (by cases known)⟩
  have sound := idle.steps environments handlers start
  exact sound.invariant environments handlers initially
    (fun t c o s r s' inv before allowed hexec here => by
      obtain ⟨p, process, _, done⟩ := perform_of_exec hexec
      exact advance t o.process o.call c p r s s' inv.2 before allowed process done here)
    (fun e s s' inv allowed hevent here => event e s s' inv.2 allowed hevent here)
    (fun _ _ _ _ here => here) run

end Worker

end OrderPlatform
