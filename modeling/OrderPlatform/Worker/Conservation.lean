import Mathlib.Data.Multiset.Range
import OrderPlatform.Ledger.Changes
import OrderPlatform.Worker.Lossless

/-!
# No message is lost, and none is doubled

Each message that is published has a number, and at every moment of a run without losses the broker
has exactly one copy of it (`Tracked`): in one of the queues, unacknowledged, or done with.  A step
moves one copy at most along the life cycle of a message (`Transit`), and so what every such move
keeps holds of each copy at every moment (`Fits`): the content and the headers of the message, the
number of its failures, and where it is.

* `Place`, `Item`, `items` — the copies of the broker and where they are.
* `Transit`, `Progress` — the life cycle, and what a step does.
* `kept_of_run`, `follows_of_run` — runs.
* `Fits`, `fits_of_run` — what is known of a copy.
-/

namespace OrderPlatform

namespace Worker

open Async (Tid Regime)
open Ledger (Change)
open Rabbit

variable {ctx : WorkerContext} {t : Tid} {s s' : State}

/-! ### The copies of the broker -/

/-- Where the broker has a message, or that it is done with. -/
inductive Place
  | ready (q : Queue)
  | unacked
  | completed
deriving DecidableEq

/-- The messages in a queue. -/
def inQueue (q : Queue) (server : Server) : Multiset (Place × Copy) :=
  ((server.ready q).map fun copy => (Place.ready q, copy) : List (Place × Copy))

/-- The messages that were delivered and not acknowledged. -/
def inHands (server : Server) : Multiset (Place × Copy) :=
  (server.unacked.map fun d => (Place.unacked, d.copy) : List (Place × Copy))

/-- The messages that are done with. -/
def doneWith (server : Server) : Multiset (Place × Copy) :=
  (server.completed.map fun copy => (Place.completed, copy) : List (Place × Copy))

/-- Every copy that the broker has ever had, with the place where it is now. -/
def placed (server : Server) : Multiset (Place × Copy) :=
  inQueue .primary server + inQueue .retry server + inQueue .deadLetter server + inHands server +
    doneWith server

section Placed

variable {server : Server} {q : Queue} {copy : Copy}

/-- One message more in a queue, and everything else as it is. -/
theorem placed_cons {a b : Server} {x : Place × Copy} (q : Queue)
    (here : inQueue q a = x ::ₘ inQueue q b) (there : ∀ q', q' ≠ q → a.ready q' = b.ready q')
    (unacked : a.unacked = b.unacked) (completed : a.completed = b.completed) :
    placed a = x ::ₘ placed b := by
  have others : ∀ q', q' ≠ q → inQueue q' a = inQueue q' b := by
    intro q' other
    unfold inQueue
    rw [there q' other]
  have hands : inHands a = inHands b := by
    unfold inHands
    rw [unacked]
  have done : doneWith a = doneWith b := by
    unfold doneWith
    rw [completed]
  unfold placed
  rw [hands, done]
  cases q with
  | primary =>
      rw [here, others .retry nofun, others .deadLetter nofun]
      simp only [Multiset.cons_add]
  | retry =>
      rw [here, others .primary nofun, others .deadLetter nofun]
      simp only [Multiset.cons_add, Multiset.add_cons]
  | deadLetter =>
      rw [here, others .primary nofun, others .retry nofun]
      simp only [Multiset.cons_add, Multiset.add_cons]

/-- A message comes into a queue. -/
theorem placed_append (q : Queue) (copy : Copy) (server : Server) :
    placed { server with ready := Function.update server.ready q (server.ready q ++ [copy]) } =
      (.ready q, copy) ::ₘ placed server := by
  refine placed_cons q ?_ (fun q' other => Function.update_of_ne other _ _) rfl rfl
  unfold inQueue
  dsimp only
  rw [Function.update_self, Multiset.cons_coe, Multiset.coe_eq_coe, List.map_append]
  exact List.perm_append_comm

/-- A message goes out of a queue. -/
theorem placed_take {i : ℕ} (found : (server.ready q)[i]? = some copy) :
    placed server = (.ready q, copy) ::ₘ placed { server with
      ready := Function.update server.ready q ((server.ready q).eraseIdx i) } := by
  refine placed_cons q ?_ (fun q' other => (Function.update_of_ne other _ _).symm) rfl rfl
  obtain ⟨lt, rfl⟩ := List.getElem?_eq_some_iff.mp found
  unfold inQueue
  dsimp only
  rw [Function.update_self, Multiset.cons_coe, Multiset.coe_eq_coe]
  exact (List.getElem_cons_eraseIdx_perm lt).symm.map fun copy => (Place.ready q, copy)

/-- A delivery. -/
theorem placed_unack (d : Delivery) (server : Server) :
    placed { server with unacked := d :: server.unacked } = (.unacked, d.copy) ::ₘ placed server := by
  unfold placed inHands
  rw [List.map_cons, ← Multiset.cons_coe]
  simp only [Multiset.cons_add, Multiset.add_cons]
  rfl

/-- A delivery is done with. -/
theorem placed_settle {d : Delivery} (distinct : (server.unacked.map name).Nodup)
    (mem : d ∈ server.unacked) : placed server = (.unacked, d.copy) ::ₘ placed (settle d server) := by
  have parts : server.unacked.Perm (d :: (settle d server).unacked) := by
    have both := List.filter_append_perm (Delivery.isNamed d.channel d.tag) server.unacked
    rw [filter_named distinct mem] at both
    exact both.symm
  have here : inHands server = (.unacked, d.copy) ::ₘ inHands (settle d server) := by
    unfold inHands
    rw [Multiset.cons_coe, Multiset.coe_eq_coe]
    exact parts.map fun d => (Place.unacked, d.copy)
  unfold placed
  rw [here]
  simp only [Multiset.cons_add, Multiset.add_cons]
  rfl

theorem placed_complete (copy : Copy) (server : Server) :
    placed { server with completed := copy :: server.completed } =
      (.completed, copy) ::ₘ placed server := by
  unfold placed doneWith
  rw [List.map_cons, ← Multiset.cons_coe]
  simp only [Multiset.add_cons]
  rfl

end Placed

/-- How often a message has been handed to a handler. -/
def handlings (s : State) (serial : ℕ) : ℕ :=
  s.history.handlers.countP fun t =>
    (s.history.handling t).any fun h => decide (h.delivery.copy.serial = serial)

/-- A copy, where it is, and how often it has been handed to a handler. -/
structure Item where
  place : Place
  copy : Copy
  handlings : ℕ

/-- A copy with its place and with the calls that have been given it. -/
def item (s : State) (x : Place × Copy) : Item := ⟨x.1, x.2, handlings s x.2.serial⟩

/-- The copies as the abstract life cycle sees them. -/
def items (s : State) : Multiset Item := (placed s.server).map (item s)

/-- A message in a queue. -/
theorem item_of_ready {q : Queue} {copy : Copy} (mem : copy ∈ s.server.ready q) :
    item s (.ready q, copy) ∈ items s := by
  have here : (Place.ready q, copy) ∈ inQueue q s.server := by
    unfold inQueue
    exact List.mem_map_of_mem mem
  refine Multiset.mem_map_of_mem _ ?_
  unfold placed
  cases q with
  | primary => simp [here]
  | retry => simp [here]
  | deadLetter => simp [here]

/-! ### The life cycle of a message -/

/-- What may become of a copy. -/
inductive Transit (ctx : WorkerContext) : Item → Item → Prop
  | delivered (copy : Copy) (n : ℕ) :
      Transit ctx ⟨.ready .primary, copy, n⟩ ⟨.unacked, copy, n + 1⟩
  | completed (copy : Copy) (n : ℕ) : Transit ctx ⟨.unacked, copy, n⟩ ⟨.completed, copy, n⟩
  | failed (copy : Copy) (n : ℕ) (e : String) :
      Transit ctx ⟨.unacked, copy, n⟩
        ⟨.ready (retryTarget ctx copy.message.properties.headers), failedCopy ctx copy e, n⟩
  | expired (copy : Copy) (n : ℕ) :
      Transit ctx ⟨.ready .retry, copy, n⟩
        ⟨.ready .primary, { copy with message := ctx.deadLettering.apply copy.message }, n⟩

/-- The number that a message has from its first publication. -/
def Item.serial (x : Item) : ℕ := x.copy.serial

theorem Transit.serial {a b : Item} (h : Transit ctx a b) : b.serial = a.serial := by
  cases h <;> rfl

theorem Transit.origin {a b : Item} (h : Transit ctx a b) : b.copy.origin = a.copy.origin := by
  cases h <;> rfl

/-- **Every message is there once.** -/
structure Tracked (s : State) : Prop where
  serials : (items s).map Item.serial = Multiset.range s.server.nextSerial
  handled : ∀ t h, s.history.handling t = some h →
    h.delivery.copy.serial < s.server.nextSerial

/-- What a step does with the messages: it moves one at most, or a new one arrives. -/
inductive Progress (ctx : WorkerContext) (s s' : State) : Prop
  | moves (next : s'.server.nextSerial = s.server.nextSerial)
      (change : Change (Transit ctx) (items s) (items s'))
  | arrives (m : Message) (next : s'.server.nextSerial = s.server.nextSerial + 1)
      (items : items s' =
        ⟨.ready .primary, ⟨m, s.server.nextSerial, m, 0⟩, 0⟩ ::ₘ items s)

namespace Progress

/-- Nothing changes. -/
theorem still (placed : placed s'.server = placed s.server)
    (next : s'.server.nextSerial = s.server.nextSerial)
    (handlings : handlings s' = handlings s) : Progress ctx s s' := by
  have same : items s' = items s := by
    unfold items item
    rw [placed, handlings]
  refine .moves next ?_
  rw [same]
  exact .nothing (items s)

/-- One copy moves, and no handler begins. -/
theorem turn {x y : Place × Copy} {rest : Multiset (Place × Copy)}
    (before : placed s.server = x ::ₘ rest) (after : placed s'.server = y ::ₘ rest)
    (next : s'.server.nextSerial = s.server.nextSerial)
    (handlings : handlings s' = handlings s)
    (transit : Transit ctx (item s x) (item s y)) : Progress ctx s s' := by
  have same : item s' = item s := by
    unfold item
    rw [handlings]
  refine .moves next ?_
  unfold items
  rw [before, after, same, Multiset.map_cons, Multiset.map_cons]
  exact .one _ transit

end Progress

/-- The handlers have not changed. -/
theorem handlings_same (handling : s'.history.handling = s.history.handling)
    (handlers : s'.history.handlers = s.history.handlers) : handlings s' = handlings s := by
  unfold handlings
  rw [handling, handlers]

/-- A handler begins. -/
theorem handlings_begin {w : ℕ} {d : Delivery} (inHand : InHand s)
    (unused : s.history.handling t = none)
    (handling : s'.history.handling = Function.update s.history.handling t (some ⟨w, d⟩))
    (handlers : s'.history.handlers = t :: s.history.handlers) (serial : ℕ) :
    handlings s' serial = handlings s serial + if d.copy.serial = serial then 1 else 0 := by
  have others : s.history.handlers.countP (fun u => (s'.history.handling u).any fun h =>
      decide (h.delivery.copy.serial = serial)) = handlings s serial := by
    refine List.countP_congr fun u mem => ?_
    have other : u ≠ t := by
      rintro rfl
      have some := inHand.listed u mem
      rw [unused] at some
      cases some
    rw [handling, Function.update_of_ne other]
  unfold handlings at others ⊢
  rw [handlers, List.countP_cons, others, handling, Function.update_self]
  simp

/-- A delivery: the copies of all other messages are left alone. -/
theorem progress_of_deliver {w c i : ℕ} {d : Delivery} {server : Server} (tracked : Tracked s)
    (inHand : InHand s) (unused : s.history.handling t = none)
    (delivered : s.server.deliver c i = some (d, server)) (same : s'.server = server)
    (handling : s'.history.handling = Function.update s.history.handling t (some ⟨w, d⟩))
    (handlers : s'.history.handlers = t :: s.history.handlers) : Progress ctx s s' := by
  obtain ⟨x, copy, _, found, _, rfl, rfl⟩ := Server.deliver_eq delivered
  have begun := handlings_begin inHand unused handling handlers
  have before := placed_take found
  have after : placed s'.server = (.unacked, copy) ::ₘ placed { s.server with
      ready := Function.update s.server.ready .primary ((s.server.ready .primary).eraseIdx i) } := by
    rw [same]
    exact placed_unack ⟨c, x.nextTag, copy⟩ { s.server with
      ready := Function.update s.server.ready .primary ((s.server.ready .primary).eraseIdx i) }
  -- no other copy has this number
  have distinct := tracked.serials ▸ Multiset.nodup_range s.server.nextSerial
  unfold items at distinct
  rw [before, Multiset.map_cons, Multiset.map_cons, Multiset.nodup_cons] at distinct
  have others : ∀ y ∈ placed { s.server with
      ready := Function.update s.server.ready .primary ((s.server.ready .primary).eraseIdx i) },
      item s' y = item s y := by
    intro y mem
    have other : copy.serial ≠ y.2.serial := by
      intro equal
      refine distinct.1 ?_
      rw [Multiset.map_map]
      exact Multiset.mem_map.mpr ⟨y, mem, equal.symm⟩
    unfold item
    rw [begun, if_neg other]
    rfl
  refine .moves (by rw [same]; rfl) ?_
  unfold items
  rw [before, after, Multiset.map_cons, Multiset.map_cons, Multiset.map_congr rfl others]
  refine .one _ ?_
  unfold item
  rw [begun, if_pos rfl]
  exact .delivered copy (handlings s copy.serial)

/-- The end of a handler. -/
theorem progress_of_ends {d : Delivery} (distinct : (s.server.unacked.map name).Nodup)
    (mem : d ∈ s.server.unacked) (ends : Ends ctx d s.server s'.server)
    (handlings : handlings s' = handlings s) : Progress ctx s s' := by
  obtain ⟨_, _, next, _⟩ := ends.same
  have before := placed_settle distinct mem
  generalize after : s'.server = server at ends
  cases ends with
  | completed =>
      refine .turn (y := (.completed, d.copy)) before ?_ next handlings (.completed d.copy _)
      rw [after]
      exact placed_complete d.copy (settle d s.server)
  | failed e =>
      refine .turn (y := (.ready (retryTarget ctx d.copy.message.properties.headers),
        failedCopy ctx d.copy e)) before ?_ next handlings (.failed d.copy _ e)
      rw [after]
      exact placed_append _ _ (settle d s.server)

/-- **One call.** -/
theorem progress_of_perform {w : ℕ} {p : Process} {choice : Choice} {c : Call}
    {r : Except String c.Result} (tracked : Tracked s) (steady : Steady s)
    (before : Before ctx t ⟨w, c⟩ s) (allowed : (lossless ctx).advance t choice ⟨w, c⟩ s)
    (process : s.processes w = some p)
    (done : perform ctx t w p choice c s = some (r, s')) : Progress ctx s s' := by
  cases c with
  | receive =>
      obtain ⟨_, _, d, server, _, own, delivered, ⟨none, _, rfl⟩ | ⟨_, _, rfl⟩⟩ :=
        perform_receive done
      · rw [(stored_of_deliver steady.connected process own delivered).1] at none
        cases none
      · exact progress_of_deliver tracked steady.inHand before.1 delivered rfl rfl rfl
  | query st =>
      obtain ⟨_, _, rfl⟩ | ⟨_, _, _, _, _, _, rfl⟩ := perform_query done
      · exact .still rfl rfl rfl
      · exact .still rfl rfl (by rw [noteInsert_eq]; rfl)
  | work event => cases perform_work done; exact .still rfl rfl rfl
  | conclude d outcome =>
      -- the copy of the delivery moves on, and everything else stays in its place
      have ends := ends_of_conclude steady.numbered steady.connected steady.inHand before allowed
        process done
      have mem := (steady.inHand.handled t _ before.1 before.2.1).1
      have same : handlings s' = handlings s := by
        obtain ⟨_, _, _, _, _, _, rfl⟩ := perform_conclude done
        rfl
      exact progress_of_ends steady.numbered.distinct mem ends same
  | enter => obtain ⟨_, _, rfl⟩ := perform_enter done; exact .still rfl rfl rfl
  | connect =>
      obtain ⟨_, _, rfl⟩ | ⟨_, rfl⟩ := perform_connect done
      · exact .still rfl rfl rfl
      · exact .still rfl rfl rfl
  | createChannel c' =>
      obtain ⟨_, _, rfl⟩ | ⟨_, _, _, rfl⟩ := perform_createChannel done
      · exact .still rfl rfl rfl
      · exact .still rfl rfl rfl
  | declare c' d =>
      obtain ⟨_, _, rfl⟩ | ⟨_, _, _, rfl⟩ := perform_declare done
      · exact .still rfl rfl rfl
      · exact .still rfl rfl rfl
  | prefetch c' n => obtain ⟨rfl, _⟩ := perform_prefetch done; exact .still rfl rfl rfl
  | consume c' =>
      obtain ⟨_, _, rfl⟩ | ⟨_, _, rfl⟩ := perform_consume done
      · exact .still rfl rfl rfl
      · exact .still rfl rfl rfl
  | sleep ms => obtain ⟨_, rfl⟩ := perform_sleep done; exact .still rfl rfl rfl

/-- **What happens beside the calls.** -/
theorem progress_of_event {e : Event} (tracked : Tracked s) (steady : Steady s)
    (allowed : (lossless ctx).event e s) (h : State.event ctx e s = some s') :
    Progress ctx s s' := by
  have occurs := occurs_of_event steady.numbered steady.connected steady.inHand allowed h
  have same : handlings s' = handlings s := by
    obtain ⟨_, _, history⟩ := event_aside h
    exact handlings_same (by rw [history]) (by rw [history])
  generalize after : s'.server = server at occurs
  cases occurs with
  | nothing => exact .still (by rw [after]) (by rw [after]) same
  | published m =>
      have new : placed s'.server =
          (.ready .primary, ⟨m, s.server.nextSerial, m, 0⟩) ::ₘ placed s.server := by
        rw [after]
        exact placed_append .primary _ s.server
      -- nobody has handled what has just been published
      have unseen : handlings s s.server.nextSerial = 0 := by
        refine List.countP_eq_zero.mpr fun u _ some => ?_
        cases known : s.history.handling u with
        | none =>
            rw [known] at some
            cases some
        | some h =>
            rw [known] at some
            have lt := tracked.handled u h known
            rw [of_decide_eq_true some] at lt
            exact Nat.lt_irrefl _ lt
      refine .arrives m (by rw [after]) ?_
      unfold items
      have alike : item s' = item s := by
        unfold item
        rw [same]
      rw [new, Multiset.map_cons, alike]
      unfold item
      dsimp only
      rw [unseen]
  | @expired i copy found =>
      refine .turn (y := (.ready .primary, { copy with
        message := ctx.deadLettering.apply copy.message })) (placed_take found) ?_ (by rw [after])
        same (.expired copy _)
      have other : Function.update s.server.ready .retry ((s.server.ready .retry).eraseIdx i)
          .primary = s.server.ready .primary :=
        Function.update_of_ne (show Queue.primary ≠ .retry from nofun) _ _
      rw [after, ← other]
      exact placed_append .primary _ { s.server with
        ready := Function.update s.server.ready .retry ((s.server.ready .retry).eraseIdx i) }

/-! ### Runs -/

namespace Tracked

theorem initial : Tracked .initial where
  serials := rfl
  handled t h known := by cases known

/-- What a step does keeps the numbers. -/
theorem progress (inv : Tracked s) (step : Progress ctx s s')
    (handled : ∀ t h, s'.history.handling t = some h →
      h.delivery.copy.serial < s.server.nextSerial) : Tracked s' := by
  cases step with
  | moves next change =>
      refine ⟨?_, fun t h known => by rw [next]; exact handled t h known⟩
      rw [change.names fun a b => Transit.serial, inv.serials, next]
  | arrives m next all =>
      refine ⟨?_, fun t h known => ?_⟩
      · rw [all, Multiset.map_cons, inv.serials, next, Multiset.range_succ]
        rfl
      · rw [next]
        exact Nat.lt_succ_of_lt (handled t h known)

/-- A copy that the broker has is a numbered one. -/
theorem serial_lt (inv : Tracked s) {x : Place × Copy} (mem : x ∈ placed s.server) :
    x.2.serial < s.server.nextSerial := by
  have known : (item s x).serial ∈ (items s).map Item.serial :=
    Multiset.mem_map_of_mem _ (Multiset.mem_map_of_mem _ mem)
  rw [inv.serials] at known
  exact Multiset.mem_range.mp known

theorem perform {w : ℕ} {p : Process} {choice : Choice} {c : Call} {r : Except String c.Result}
    (inv : Tracked s) (steady : Steady s) (before : Before ctx t ⟨w, c⟩ s)
    (allowed : (lossless ctx).advance t choice ⟨w, c⟩ s) (process : s.processes w = some p)
    (done : Worker.perform ctx t w p choice c s = some (r, s')) : Tracked s' := by
  refine inv.progress (progress_of_perform inv steady before allowed process done) ?_
  by_cases entry : c = .receive
  · subst entry
    obtain ⟨_, _, d, server, _, _, delivered, ⟨_, _, rfl⟩ | ⟨_, _, rfl⟩⟩ := perform_receive done
    · exact inv.handled
    · intro u h known
      by_cases self : u = t
      · subst self
        have own : Function.update s.history.handling u (some ⟨w, d⟩) u = some h := known
        rw [Function.update_self] at own
        cases own
        obtain ⟨_, copy, _, found, _, rfl, _⟩ := Server.deliver_eq delivered
        refine inv.serial_lt (x := (.ready .primary, copy)) ?_
        rw [placed_take found]
        exact Multiset.mem_cons_self _ _
      · have other : Function.update s.history.handling t (some ⟨w, d⟩) u = some h := known
        rw [Function.update_of_ne self] at other
        exact inv.handled u h other
  · obtain ⟨_, handling⟩ :=
      settles_of_perform entry (steady.numbered.fresh _ (Nat.le_refl _)) done
    rw [handling]
    exact inv.handled

theorem event {e : Event} (inv : Tracked s) (steady : Steady s)
    (allowed : (lossless ctx).event e s) (h : State.event ctx e s = some s') : Tracked s' := by
  refine inv.progress (progress_of_event inv steady allowed h) ?_
  obtain ⟨_, _, history⟩ := event_aside h
  rw [history]
  exact inv.handled

end Tracked

/-- What holds of the messages in every run without losses. -/
structure Kept (ctx : WorkerContext) (P : Item → Prop) (s : State) : Prop where
  steady : Steady s
  tracked : Tracked s
  items : ∀ x ∈ items s, P x

section Runs

variable {P : Item → Prop} {p q : Service ctx}

/-- **What every move keeps, and what holds of a new message, holds of all messages** at every
moment. -/
theorem kept_of_run (moves : ∀ a b, Transit ctx a b → P a → P b)
    (arrives : ∀ m serial, P ⟨.ready .primary, ⟨m, serial, m, 0⟩, 0⟩)
    (run : Run (lossless ctx) (Async.Pool.idle .initial) p) : Kept ctx P p.shared := by
  have step : ∀ {s s' : State}, Progress ctx s s' → (∀ x ∈ items s, P x) → ∀ x ∈ items s', P x := by
    intro s s' progress here
    cases progress with
    | moves _ change => exact change.all moves here
    | arrives m _ all =>
        rw [all]
        intro x mem
        rcases Multiset.mem_cons.mp mem with rfl | mem
        · exact arrives m _
        · exact here x mem
  refine invariant_of_lossless_run .refl ⟨.initial, .initial, fun x mem => ?_⟩ ?_ ?_ run
  · exact absurd mem (Multiset.notMem_zero x)
  · intro t w c choice p r s s' alone before allowed process done inv
    exact ⟨inv.steady.perform alone before allowed process done,
      inv.tracked.perform inv.steady before.1 allowed process done,
      step (progress_of_perform inv.tracked inv.steady before.1 allowed process done) inv.items⟩
  · intro e s s' _ allowed hevent inv
    exact ⟨inv.steady.event allowed hevent, inv.tracked.event inv.steady allowed hevent,
      step (progress_of_event inv.tracked inv.steady allowed hevent) inv.items⟩

/-- **What becomes of a message**: its copy moves along the life cycle, and there is no other. -/
theorem follows_of_run (start : Run (lossless ctx) (Async.Pool.idle .initial) p)
    (run : Run (lossless ctx) p q) :
    ∀ a ∈ items p.shared, ∃ b ∈ items q.shared, Relation.ReflTransGen (Transit ctx) a b := by
  intro a mem
  have here := kept_of_run (P := fun _ => True) (fun _ _ _ _ => trivial) (fun _ _ => trivial) start
  have step : ∀ {s s' : State}, Progress ctx s s' →
      (∃ b ∈ items s, Relation.ReflTransGen (Transit ctx) a b) →
      ∃ b ∈ items s', Relation.ReflTransGen (Transit ctx) a b := by
    rintro s s' progress ⟨b, mem, path⟩
    cases progress with
    | moves _ change =>
        obtain ⟨c, mem', turn⟩ := change.follows b mem
        exact ⟨c, mem', path.trans turn.to_reflTransGen⟩
    | arrives m _ all => exact ⟨b, by rw [all]; exact Multiset.mem_cons_of_mem mem, path⟩
  refine (invariant_of_lossless_run (I := fun s => (Steady s ∧ Tracked s) ∧
    ∃ b ∈ items s, Relation.ReflTransGen (Transit ctx) a b) start
    ⟨⟨here.steady, here.tracked⟩, a, mem, .refl⟩ ?_ ?_ run).2
  · rintro t w c choice p r s s' alone before allowed process done ⟨⟨steady, tracked⟩, found⟩
    exact ⟨⟨steady.perform alone before allowed process done,
      tracked.perform steady before.1 allowed process done⟩,
      step (progress_of_perform tracked steady before.1 allowed process done) found⟩
  · rintro e s s' _ allowed hevent ⟨⟨steady, tracked⟩, found⟩
    exact ⟨⟨steady.event allowed hevent, tracked.event steady allowed hevent⟩,
      step (progress_of_event tracked steady allowed hevent) found⟩

end Runs

/-! ### What is known of a copy -/

/-- The number of retries of a message that has failed so often. -/
def counted (ctx : WorkerContext) (m : Message) (failures : ℕ) : JsNumber :=
  JsNumber.plusOne^[failures] (retryCount ctx m.properties.headers)

/-- A message that has failed so often is not tried again when it fails once more. -/
def exhausted (ctx : WorkerContext) (m : Message) (failures : ℕ) : Bool :=
  (counted ctx m failures).atLeast ctx.config.maxRetries

/-- The last time that a message was handed to a handler, it did not fail, or has not yet. -/
def Place.unfailed : Place → ℕ
  | ready _ => 0
  | unacked => 1
  | completed => 1

/-- A copy and the message as it was first published. -/
structure Fits (ctx : WorkerContext) (x : Item) : Prop where
  content : x.copy.message.content = x.copy.origin.content
  headers : ∀ name ∉ ctx.deadLettering.own, name ≠ "x-retry-count" → name ≠ "x-last-error" →
    x.copy.message.header name = x.copy.origin.header name
  count : x.copy.message.header "x-retry-count" =
    if x.copy.failures = 0 then x.copy.origin.header "x-retry-count"
    else some (.number (counted ctx x.copy.origin x.copy.failures))
  dead : x.place = .ready .deadLetter ↔
    ∃ n, x.copy.failures = n + 1 ∧ exhausted ctx x.copy.origin n = true
  early : ∀ n, n + 1 < x.copy.failures → exhausted ctx x.copy.origin n = false
  handlings : x.handlings = x.copy.failures + x.place.unfailed

/-- The number of retries is read off one header. -/
theorem retryCount_congr {headers headers' : Headers}
    (same : headers "x-retry-count" = headers' "x-retry-count") :
    retryCount ctx headers = retryCount ctx headers' := by
  unfold retryCount readRetryCount
  rw [same]

namespace Fits

variable {a b : Item}

/-- What `requeueOrDeadLetter` reads off the headers. -/
theorem retryCount (fits : Fits ctx a) :
    retryCount ctx a.copy.message.properties.headers = counted ctx a.copy.origin a.copy.failures := by
  have count := fits.count
  by_cases new : a.copy.failures = 0
  · rw [if_pos new] at count
    rw [new]
    exact retryCount_congr count
  · rw [if_neg new] at count
    have count : a.copy.message.properties.headers "x-retry-count" =
      some (.number (counted ctx a.copy.origin a.copy.failures)) := count
    unfold Worker.retryCount readRetryCount
    rw [count]

/-- The queue that a copy comes into when it fails once more. -/
theorem target (fits : Fits ctx a) : retryTarget ctx a.copy.message.properties.headers =
    if exhausted ctx a.copy.origin a.copy.failures = true then .deadLetter else .retry := by
  unfold retryTarget
  rw [fits.retryCount]
  rfl

theorem arrived (m : Message) (serial : ℕ) :
    Fits ctx ⟨.ready .primary, ⟨m, serial, m, 0⟩, 0⟩ where
  content := rfl
  headers _ _ _ _ := rfl
  count := rfl
  dead := by
    constructor
    · rintro ⟨⟩
    · rintro ⟨n, none, _⟩
      cases none
  early n lt := absurd lt (Nat.not_lt_zero _)
  handlings := rfl

/-- A message that is somewhere else than in the dead-letter queue. -/
theorem elsewhere (fits : Fits ctx a) (other : a.place ≠ .ready .deadLetter) (n : ℕ)
    (lt : n < a.copy.failures) : exhausted ctx a.copy.origin n = false := by
  rcases Nat.lt_or_eq_of_le (Nat.succ_le_of_lt lt) with before | last
  · exact fits.early n before
  · refine Bool.eq_false_iff.mpr fun exhausted => other (fits.dead.mpr ⟨n, last.symm, exhausted⟩)

/-- From one place that is not the dead-letter queue to another one. -/
theorem alive (fits : Fits ctx a) (other : a.place ≠ .ready .deadLetter) {place : Place}
    (other' : place ≠ .ready .deadLetter) : place = .ready .deadLetter ↔
      ∃ n, a.copy.failures = n + 1 ∧ exhausted ctx a.copy.origin n = true :=
  ⟨fun same => absurd same other', fun some => absurd (fits.dead.mpr some) other⟩

/-- A failure: the headers of the copy, and the queue that it comes into. -/
theorem fail {copy : Copy} {n : ℕ} (fits : Fits ctx ⟨.unacked, copy, n⟩) (e : String) :
    Fits ctx
      ⟨.ready (retryTarget ctx copy.message.properties.headers), failedCopy ctx copy e, n⟩ := by
  have read : Worker.retryCount ctx copy.message.properties.headers =
      counted ctx copy.origin copy.failures := fits.retryCount
  have one : counted ctx copy.origin (copy.failures + 1) =
      (counted ctx copy.origin copy.failures).plusOne := Function.iterate_succ_apply' _ _ _
  refine ⟨fits.content, ?_, ?_, ?_, ?_, fits.handlings⟩
  · intro name other notCount notError
    refine Eq.trans ?_ (fits.headers name other notCount notError)
    exact (Function.update_of_ne notError _ _).trans (Function.update_of_ne notCount _ _)
  · show nextHeaders ctx copy.message.properties.headers e "x-retry-count" =
      if copy.failures + 1 = 0 then _ else some (.number (counted ctx copy.origin (copy.failures + 1)))
    rw [if_neg (Nat.succ_ne_zero _), one, ← read]
    exact (Function.update_of_ne (by decide) _ _).trans (Function.update_self ..)
  · show Place.ready (retryTarget ctx copy.message.properties.headers) = _ ↔
      ∃ n, copy.failures + 1 = n + 1 ∧ exhausted ctx copy.origin n = true
    have target : retryTarget ctx copy.message.properties.headers =
      if exhausted ctx copy.origin copy.failures = true then .deadLetter else .retry := fits.target
    rw [target]
    constructor
    · intro dead
      refine ⟨copy.failures, rfl, ?_⟩
      by_contra retried
      rw [if_neg retried] at dead
      cases dead
    · rintro ⟨n, same, dead⟩
      obtain rfl := Nat.succ.inj same
      rw [if_pos dead]
  · exact fun n lt => fits.elsewhere nofun n (Nat.lt_of_succ_lt_succ lt)

/-- **What every move keeps.** -/
theorem transit (h : Transit ctx a b) (fits : Fits ctx a) : Fits ctx b := by
  cases h with
  | delivered copy n =>
      refine ⟨fits.content, fits.headers, fits.count, fits.alive nofun nofun, fits.early, ?_⟩
      exact congrArg (· + 1) fits.handlings
  | completed copy n =>
      exact ⟨fits.content, fits.headers, fits.count, fits.alive nofun nofun, fits.early,
        fits.handlings⟩
  | failed copy n e => exact fits.fail e
  | expired copy n =>
      refine ⟨fits.content, ?_, ?_, fits.alive nofun nofun, fits.early, fits.handlings⟩
      · intro name other notCount notError
        exact (ctx.deadLettering.apply_header copy.message other).trans
          (fits.headers name other notCount notError)
      · exact (ctx.deadLettering.apply_header copy.message ctx.deadLettering.retryCount).trans
          fits.count

end Fits

/-- **What is known of every copy**, in every run without losses. -/
theorem fits_of_run {p : Service ctx} (run : Run (lossless ctx) (Async.Pool.idle .initial) p) :
    Kept ctx (Fits ctx) p.shared := kept_of_run (fun _ _ => Fits.transit) Fits.arrived run

end Worker

end OrderPlatform
