import OrderPlatform.Worker.Contract

/-!
# Deliveries

The broker numbers the deliveries on each channel, and a number is never used twice: two handlers
never handle deliveries of one name, and a delivery that is not acknowledged is the one that its
handler knows (`Numbered`).  This holds in every run, whatever the workers do.

`Numbered` is kept by a lemma for each of the two kinds of steps: a delivery takes the next number of
its channel (`deliver`), and whatever else happens only takes deliveries away (`settle`).
-/

namespace OrderPlatform

namespace Worker

open Async (Tid Regime)
open Rabbit

variable {ctx : WorkerContext} {s s' : State}

/-- How a delivery is named in an ack. -/
def name (d : Delivery) : ℕ × ℕ := (d.channel, d.tag)

/-- Deliveries are named by their channel and their tag, the tags of a channel are never used twice,
and a name belongs to at most one call. -/
structure Numbered (s : State) : Prop where
  /-- Connections are made in the order of their numbers. -/
  fresh : ∀ c, s.server.nextConnection ≤ c → s.server.connections c = none
  unacked : ∀ d ∈ s.server.unacked,
    ∃ x, s.server.connections d.channel = some x ∧ d.tag < x.nextTag
  handled : ∀ t h, s.history.handling t = some h →
    ∃ x, s.server.connections h.delivery.channel = some x ∧ x.owner = h.process ∧
      h.delivery.tag < x.nextTag
  distinct : (s.server.unacked.map name).Nodup
  single : ∀ t u h h', s.history.handling t = some h → s.history.handling u = some h' →
    name h.delivery = name h'.delivery → t = u
  known : ∀ t h, s.history.handling t = some h → ∀ d ∈ s.server.unacked,
    name d = name h.delivery → d = h.delivery

namespace Numbered

theorem initial : Numbered .initial where
  fresh _ _ := rfl
  unacked _ mem := absurd mem List.not_mem_nil
  handled t h known := by
    change none = some h at known
    cases known
  distinct := List.nodup_nil
  single t u h h' known := by
    change none = some h at known
    cases known
  known t h known := by
    change none = some h at known
    cases known

/-- Everything but a delivery keeps the numbering. -/
theorem settle (h : Numbered s) (step : Server.Settles s.server s'.server)
    (handling : s'.history.handling = s.history.handling) : Numbered s' where
  fresh c le := by
    obtain ⟨le', none⟩ := step.fresh c le
    exact none (h.fresh c le')
  unacked d mem := by
    obtain ⟨x, known, lt⟩ := h.unacked d (step.unacked.subset mem)
    obtain ⟨x', known', _, tag⟩ := step.connections _ x known
    exact ⟨x', known', by rw [tag]; exact lt⟩
  handled t g known := by
    rw [handling] at known
    obtain ⟨x, connection, owner, lt⟩ := h.handled t g known
    obtain ⟨x', connection', owner', tag⟩ := step.connections _ x connection
    exact ⟨x', connection', owner'.trans owner, by rw [tag]; exact lt⟩
  distinct := h.distinct.sublist (step.unacked.map name)
  single t u g g' known known' := by
    rw [handling] at known known'
    exact h.single t u g g' known known'
  known t g known d mem := by
    rw [handling] at known
    exact h.known t g known d (step.unacked.subset mem)

end Numbered

/-- What a call does that is not the entry of a handler. -/
theorem settles_of_perform {t : Tid} {w : ℕ} {p : Process} {choice : Choice} {c : Call}
    {r : Except String c.Result} (other : c ≠ .receive)
    (fresh : s.server.connections s.server.nextConnection = none)
    (h : perform ctx t w p choice c s = some (r, s')) :
    Server.Settles s.server s'.server ∧ s'.history.handling = s.history.handling := by
  cases c with
  | receive => exact absurd rfl other
  | query st =>
      obtain ⟨_, _, rfl⟩ | ⟨_, n, _, _, _, _, rfl⟩ := perform_query h
      · exact ⟨.refl _, rfl⟩
      · exact ⟨.refl _, (noteInsert_handling n st s.history).1⟩
  | work event => cases perform_work h; exact ⟨.refl _, rfl⟩
  | conclude d outcome =>
      obtain ⟨faults, n, _, segment, _, _, rfl⟩ := perform_conclude h
      exact ⟨.frames s.server segment.frames n, rfl⟩
  | enter => obtain ⟨_, _, rfl⟩ := perform_enter h; exact ⟨.refl _, rfl⟩
  | connect =>
      obtain ⟨_, _, rfl⟩ | ⟨_, rfl⟩ := perform_connect h
      · exact ⟨.refl _, rfl⟩
      · exact ⟨.connect s.server fresh w, rfl⟩
  | createChannel c =>
      obtain ⟨_, _, rfl⟩ | ⟨_, _, _, rfl⟩ := perform_createChannel h
      · exact ⟨.refl _, rfl⟩
      · exact ⟨.updateConnection fun _ => ⟨rfl, rfl⟩, rfl⟩
  | declare c d =>
      obtain ⟨_, _, rfl⟩ | ⟨_, _, _, rfl⟩ := perform_declare h
      · exact ⟨.refl _, rfl⟩
      · exact ⟨.of_same rfl rfl (List.Sublist.refl _), rfl⟩
  | prefetch c n => obtain ⟨rfl, _⟩ := perform_prefetch h; exact ⟨.refl _, rfl⟩
  | consume c =>
      obtain ⟨_, _, rfl⟩ | ⟨_, _, rfl⟩ := perform_consume h
      · exact ⟨.refl _, rfl⟩
      · exact ⟨.updateConnection fun _ => ⟨rfl, rfl⟩, rfl⟩
  | sleep ms => obtain ⟨_, rfl⟩ := perform_sleep h; exact ⟨.refl _, rfl⟩

theorem settles_of_event {e : Event} (h : State.event ctx e s = some s') :
    Server.Settles s.server s'.server := by
  cases e with
  | publish m =>
      obtain ⟨server, published, rfl⟩ := Option.map_eq_some_iff.mp h
      exact .publish published
  | expire i =>
      obtain ⟨server, expired, rfl⟩ := Option.map_eq_some_iff.mp h
      exact .expire expired
  | cut c => cases h; exact .cut s.server c
  | requeue c =>
      obtain ⟨server, back, rfl⟩ := Option.map_eq_some_iff.mp h
      exact .requeue back
  | closed c =>
      obtain ⟨x, _, h⟩ := Option.bind_eq_some_iff.mp h
      obtain ⟨p, _, h⟩ := Option.bind_eq_some_iff.mp h
      split at h
      · cases h
        exact .close s.server c
      · cases h
  | boot w =>
      simp only [State.event] at h
      split at h
      · cases h
        exact .refl _
      · cases h
  | die w =>
      obtain ⟨p, _, rfl⟩ := Option.map_eq_some_iff.mp h
      refine .of_map (fun _ x => if x.owner = w then
        { x with isOpen := false, live := false, consumers := 0 } else x) ?_ (fun _ => rfl) rfl
        (List.Sublist.refl _)
      intro c x
      split
      · exact ⟨rfl, rfl⟩
      · exact ⟨rfl, rfl⟩
  | terminate w =>
      obtain ⟨p, _, rfl⟩ := Option.map_eq_some_iff.mp h
      exact .refl _

namespace Numbered

/-- A delivery uses up a number of its channel. -/
private theorem connection_grown {c : ℕ} {x : Connection} {server : Server}
    (connection : server.connections c = some x) :
    ∀ c' y, server.connections c' = some y → ∃ y',
      (server.updateConnection c fun x => { x with nextTag := x.nextTag + 1 }).connections c' =
        some y' ∧ y'.owner = y.owner ∧ y.nextTag ≤ y'.nextTag := by
  intro c' y known
  by_cases equal : c' = c
  · subst equal
    obtain rfl := Option.some.inj (connection.symm.trans known)
    refine ⟨{ x with nextTag := x.nextTag + 1 }, ?_, rfl, Nat.le_succ _⟩
    show Function.update server.connections c' ((server.connections c').map _) c' = _
    rw [Function.update_self, connection]
    rfl
  · exact ⟨y, (Function.update_of_ne equal _ _).trans known, rfl, Nat.le_refl _⟩

/-- The next number of a channel is that of no earlier delivery. -/
private theorem name_ne {c : ℕ} {x : Connection} {server : Server}
    (connection : server.connections c = some x) {d : Delivery}
    (earlier : ∃ y, server.connections d.channel = some y ∧ d.tag < y.nextTag) :
    name d ≠ (c, x.nextTag) := by
  obtain ⟨y, known, lt⟩ := earlier
  intro equal
  obtain ⟨channel, tag⟩ := Prod.mk.inj equal
  rw [channel, connection] at known
  obtain rfl := Option.some.inj known
  rw [tag] at lt
  exact Nat.lt_irrefl _ lt

/-- What a thread handles after a delivery. -/
private theorem handling_cases {t : Tid} {g : Handling}
    (handling : s'.history.handling = s.history.handling ∨
      s'.history.handling = Function.update s.history.handling t (some g)) {u : Tid} {g' : Handling}
    (known : s'.history.handling u = some g') :
    s.history.handling u = some g' ∨ (u = t ∧ g' = g) := by
  rcases handling with equal | equal
  · rw [equal] at known
    exact .inl known
  · rw [equal] at known
    by_cases self : u = t
    · subst self
      rw [Function.update_self] at known
      exact .inr ⟨rfl, (Option.some.inj known).symm⟩
    · rw [Function.update_of_ne self] at known
      exact .inl known

/-- A delivery gets a number that is new on its channel. -/
theorem deliver {t : Tid} {w c i : ℕ} {d : Delivery} {server : Server} (h : Numbered s)
    (owned : s.owns w c = true) (delivered : s.server.deliver c i = some (d, server))
    (unused : s.history.handling t = none) (same : s'.server = server)
    (handling : s'.history.handling = s.history.handling ∨
      s'.history.handling = Function.update s.history.handling t (some ⟨w, d⟩)) : Numbered s' := by
  obtain ⟨x, copy, connection, _, _, rfl, rfl⟩ := Server.deliver_eq delivered
  have owner : x.owner = w := by
    rw [State.owns, connection] at owned
    exact of_decide_eq_true owned
  have connections : s'.server.connections =
      (s.server.updateConnection c fun x => { x with nextTag := x.nextTag + 1 }).connections := by
    rw [same]
  have unacked : s'.server.unacked = ⟨c, x.nextTag, copy⟩ :: s.server.unacked := by rw [same]
  have grown := connection_grown connection
  rw [← connections] at grown
  have here : ∃ y, s'.server.connections c = some y ∧ y.owner = w ∧ x.nextTag < y.nextTag := by
    refine ⟨{ x with nextTag := x.nextTag + 1 }, ?_, owner, Nat.lt_succ_self _⟩
    rw [connections]
    show Function.update s.server.connections c ((s.server.connections c).map _) c = _
    rw [Function.update_self, connection]
    rfl
  -- the tag is new on the channel, so that nothing has the name of the delivery yet
  have old : ∀ u g, s.history.handling u = some g → name g.delivery ≠ (c, x.nextTag) := by
    intro u g known
    obtain ⟨y, known', _, lt⟩ := h.handled u g known
    exact name_ne connection ⟨y, known', lt⟩
  have which {u : Tid} {g : Handling} (known : s'.history.handling u = some g) :
      s.history.handling u = some g ∨ (u = t ∧ g = ⟨w, c, x.nextTag, copy⟩) :=
    handling_cases handling known
  refine ⟨?_, ?_, ?_, ?_, ?_, ?_⟩
  · intro c' le
    have le' : s.server.nextConnection ≤ c' := by rw [same] at le; exact le
    have other : c' ≠ c := by
      rintro rfl
      rw [h.fresh c' le'] at connection
      cases connection
    rw [connections]
    exact (Function.update_of_ne other _ _).trans (h.fresh c' le')
  · intro d' mem
    rw [unacked] at mem
    rcases List.mem_cons.mp mem with rfl | mem
    · obtain ⟨y, known, _, lt⟩ := here
      exact ⟨y, known, lt⟩
    · obtain ⟨y, known, lt⟩ := h.unacked d' mem
      obtain ⟨y', known', _, le⟩ := grown _ y known
      exact ⟨y', known', Nat.lt_of_lt_of_le lt le⟩
  · intro u g known
    rcases which known with known | ⟨rfl, rfl⟩
    · obtain ⟨y, known', owner', lt⟩ := h.handled u g known
      obtain ⟨y', known'', owner'', le⟩ := grown _ y known'
      exact ⟨y', known'', owner''.trans owner', Nat.lt_of_lt_of_le lt le⟩
    · exact here
  · rw [unacked, List.map_cons]
    refine List.nodup_cons.mpr ⟨fun mem => ?_, h.distinct⟩
    obtain ⟨d', mem, equal⟩ := List.mem_map.mp mem
    exact name_ne connection (h.unacked d' mem) equal
  · intro u v g g' known known' equal
    rcases which known with known | ⟨rfl, rfl⟩
    · rcases which known' with known' | ⟨rfl, rfl⟩
      · exact h.single u v g g' known known' equal
      · exact absurd equal (old u g known)
    · rcases which known' with known' | ⟨rfl, rfl⟩
      · exact absurd equal.symm (old v g' known')
      · rfl
  · intro u g known d' mem equal
    rw [unacked] at mem
    rcases which known with known | ⟨rfl, rfl⟩
    · rcases List.mem_cons.mp mem with rfl | mem
      · exact absurd equal.symm (old u g known)
      · exact h.known u g known d' mem equal
    · rcases List.mem_cons.mp mem with rfl | mem
      · rfl
      · exact absurd equal (name_ne connection (h.unacked d' mem))

/-- One call. -/
theorem perform {t : Tid} {w : ℕ} {p : Process} {choice : Choice} {c : Call}
    {r : Except String c.Result} (inv : Numbered s) (before : Before ctx t ⟨w, c⟩ s)
    (done : perform ctx t w p choice c s = some (r, s')) : Numbered s' := by
  by_cases entry : c = .receive
  · subst entry
    obtain ⟨_, _, d, server, _, owned, delivered, ⟨_, _, rfl⟩ | ⟨_, _, rfl⟩⟩ := perform_receive done
    · exact inv.deliver owned delivered before.1 rfl (.inl rfl)
    · exact inv.deliver owned delivered before.1 rfl (.inr rfl)
  · obtain ⟨step, handling⟩ := settles_of_perform entry (inv.fresh _ (Nat.le_refl _)) done
    exact inv.settle step handling

/-- What happens beside the calls. -/
theorem event {e : Event} (inv : Numbered s) (h : State.event ctx e s = some s') : Numbered s' := by
  obtain ⟨_, _, history⟩ := event_aside h
  exact inv.settle (settles_of_event h) (by rw [history])

/-- **The deliveries of every run are numbered.** -/
theorem of_run {R : Regime (machine ctx)} {p : Service ctx}
    (run : Run R (Async.Pool.idle .initial) p) : Numbered p.shared :=
  invariant_of_run run initial
    (fun _ _ _ _ _ _ _ _ before _ _ done inv => inv.perform before done)
    fun _ _ _ _ hevent inv => inv.event hevent

end Numbered

end Worker

end OrderPlatform
