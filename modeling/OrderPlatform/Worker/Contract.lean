import OrderPlatform.Worker.Service

/-!
# What the worker does

The two kinds of calls are followed once, from their start to their end, without any assumption on
what other calls, other processes and the broker do meanwhile.  What comes of it is where a call
stands when it awaits something (`Before`).

A call that processes an event beyond its time goes on behind the end of its handler.  The
processing tolerates whatever leaves its row alone (`ClaimKept`), the end of the handler whatever
leaves the delivery to it (`HandlingKept`); neither of the two touches what the other one knows.
-/

namespace OrderPlatform

namespace Worker

open Async (Tid Contract Discipline Regime)
open Rabbit
open Text (Json)

variable {ctx : WorkerContext} {t : Tid} {s s' : State}

/-! ### What one call does -/

theorem perform_of_exec {choice : Choice} {w : ℕ} {c : Call} {r : Except String c.Result}
    (h : exec ctx t choice ⟨w, c⟩ s = some (r, s')) :
    ∃ p, s.processes w = some p ∧ p.alive = true ∧ perform ctx t w p choice c s = some (r, s') := by
  obtain ⟨p, process, h⟩ := Option.bind_eq_some_iff.mp h
  by_cases alive : p.alive = true
  · rw [if_pos alive] at h
    exact ⟨p, process, alive, h⟩
  · rw [if_neg alive] at h
    cases h

section Perform

variable {w : ℕ} {p : Process} {choice : Choice}

/-- A delivery arrives; it is handled if the process has a channel. -/
theorem perform_receive {r : Except String (Option Delivery)}
    (h : perform ctx t w p choice .receive s = some (r, s')) :
    ∃ c i d server, choice = .delivers c i ∧ s.owns w c = true ∧
      s.server.deliver c i = some (d, server) ∧
      ((p.channel = none ∧ r = .ok none ∧ s' = { s with server }) ∨
        (p.channel.isSome ∧ r = .ok (some d) ∧
          s' = { s.setProcess w { p with inFlight := p.inFlight + 1 } with
            server
            history :=
              { s.history with
                handling := Function.update s.history.handling t (some ⟨w, d⟩)
                handlers := t :: s.history.handlers } })) := by
  cases choice with
  | delivers c i =>
      simp only [perform] at h
      split at h
      · rename_i owned
        obtain ⟨⟨d, server⟩, delivered, h⟩ := Option.map_eq_some_iff.mp h
        refine ⟨c, i, d, server, rfl, owned, delivered, ?_⟩
        cases channel : p.channel with
        | none =>
            simp only [channel] at h
            cases h
            exact .inl ⟨rfl, rfl, rfl⟩
        | some c' =>
            simp only [channel] at h
            cases h
            exact .inr ⟨rfl, rfl, rfl⟩
      · cases h
  | executes now => cases h
  | succeeds => cases h
  | fails e => cases h
  | concludes faults n => cases h

/-- A statement fails and changes nothing, or it is executed. -/
theorem perform_query {st : EventStatement} {r : Except String ℕ}
    (h : perform ctx t w p choice (.query st) s = some (r, s')) :
    (∃ e, r = .error e ∧ s' = s) ∨
      ∃ now n T, choice = .executes now ∧ s.events.exec ctx.uuid now t st = .ok (n, T) ∧
        r = .ok n ∧ s' = { s with events := T, history := s.history.noteInsert t n st } := by
  cases choice with
  | executes now =>
      simp only [perform] at h
      cases executed : s.events.exec ctx.uuid now t st with
      | error e =>
          rw [executed] at h
          cases h
          exact .inl ⟨e, rfl, rfl⟩
      | ok x =>
          rw [executed] at h
          cases h
          exact .inr ⟨now, x.1, x.2, rfl, executed, rfl, rfl⟩
  | fails e =>
      cases h
      exact .inl ⟨e, rfl, rfl⟩
  | delivers c i => cases h
  | succeeds => cases h
  | concludes faults n => cases h

/-- The end of a handler. -/
theorem perform_conclude {d : Delivery} {outcome : Except String ProcessingResult}
    {r : Except String Unit} (h : perform ctx t w p choice (.conclude d outcome) s = some (r, s')) :
    ∃ faults n, choice = .concludes faults n ∧
      ∃ segment, segment = conclude ctx p.channel (s.writable p.channel) faults d outcome ∧
      r = segment.outcome ∧
      s' = { s.setProcess w { p with inFlight := p.inFlight - 1 } with
        server := s.server.frames segment.frames n
        history :=
          { s.history with
            concluded := Function.update s.history.concluded t true
            acks := acksOf t segment.frames ++ s.history.acks } } := by
  cases choice with
  | concludes faults n =>
      cases h
      exact ⟨faults, n, rfl, _, rfl, rfl, rfl⟩
  | delivers c i => cases h
  | executes now => cases h
  | succeeds => cases h
  | fails e => cases h

/-- A declaration. -/
theorem perform_declare {c : ℕ} {d : Declaration} {r : Except String Unit}
    (h : perform ctx t w p choice (.declare c d) s = some (r, s')) :
    (∃ e, r = .error e ∧ s' = s) ∨
      ∃ topology, s.server.topology.declare d = some topology ∧ r = .ok () ∧
        s' = { s with server := { s.server with topology } } := by
  cases choice with
  | succeeds =>
      simp only [perform] at h
      split at h
      · obtain ⟨topology, declared, h⟩ := Option.map_eq_some_iff.mp h
        cases h
        exact .inr ⟨topology, declared, rfl, rfl⟩
      · cases h
  | fails e =>
      cases h
      exact .inl ⟨e, rfl, rfl⟩
  | delivers c i => cases h
  | executes now => cases h
  | concludes faults n => cases h

/-- A reconnect loop begins. -/
theorem perform_enter {r : Except String Snapshot}
    (h : perform ctx t w p choice .enter s = some (r, s')) :
    0 < p.loops ∧ r = .ok p.snapshot ∧
      s' = { s.setProcess w { p with loops := p.loops - 1 } with
        history := { s.history with looping := Function.update s.history.looping w (some t) } } := by
  cases choice with
  | succeeds =>
      simp only [perform] at h
      split at h
      · rename_i waiting
        cases h
        exact ⟨waiting, rfl, rfl⟩
      · cases h
  | delivers c i => cases h
  | executes now => cases h
  | fails e => cases h
  | concludes faults n => cases h

theorem perform_connect {r : Except String ℕ}
    (h : perform ctx t w p choice .connect s = some (r, s')) :
    (∃ e, r = .error e ∧ s' = s) ∨
      (r = .ok (s.server.connect w).1 ∧ s' = { s with server := (s.server.connect w).2 }) := by
  cases choice with
  | succeeds => cases h; exact .inr ⟨rfl, rfl⟩
  | fails e => cases h; exact .inl ⟨e, rfl, rfl⟩
  | delivers c i => cases h
  | executes now => cases h
  | concludes faults n => cases h

/-- A channel is created, and `channel` refers to it. -/
theorem perform_createChannel {c : ℕ} {r : Except String Unit}
    (h : perform ctx t w p choice (.createChannel c) s = some (r, s')) :
    (∃ e, r = .error e ∧ s' = s) ∨
      (choice = .succeeds ∧ s.server.usable c = true ∧ r = .ok () ∧
        s' = { s.setProcess w { p with channel := some c } with
          server := s.server.updateConnection c fun x => { x with channel := true } }) := by
  cases choice with
  | succeeds =>
      simp only [perform] at h
      split at h
      · rename_i usable
        cases h
        exact .inr ⟨rfl, usable, rfl, rfl⟩
      · cases h
  | fails e => cases h; exact .inl ⟨e, rfl, rfl⟩
  | delivers c i => cases h
  | executes now => cases h
  | concludes faults n => cases h

theorem perform_prefetch {c n : ℕ} {r : Except String (Option ℕ)}
    (h : perform ctx t w p choice (.prefetch c n) s = some (r, s')) :
    s' = s ∧ ((∃ e, r = .error e) ∨ (s.server.usable c = true ∧ r = .ok p.channel)) := by
  cases choice with
  | succeeds =>
      simp only [perform] at h
      split at h
      · rename_i usable
        cases h
        exact ⟨rfl, .inr ⟨usable, rfl⟩⟩
      · cases h
  | fails e => cases h; exact ⟨rfl, .inl ⟨e, rfl⟩⟩
  | delivers c i => cases h
  | executes now => cases h
  | concludes faults n => cases h

theorem perform_consume {c : ℕ} {r : Except String Unit}
    (h : perform ctx t w p choice (.consume c) s = some (r, s')) :
    (∃ e, r = .error e ∧ s' = s) ∨
      (s.server.usable c = true ∧ r = .ok () ∧ s' = { s with
        server := s.server.updateConnection c fun x =>
          { x with consumers := x.consumers + 1 } }) := by
  cases choice with
  | succeeds =>
      simp only [perform] at h
      split at h
      · rename_i usable
        cases h
        exact .inr ⟨usable, rfl, rfl⟩
      · cases h
  | fails e => cases h; exact .inl ⟨e, rfl, rfl⟩
  | delivers c i => cases h
  | executes now => cases h
  | concludes faults n => cases h

/-- A call that needs neither the broker nor the database. -/
theorem perform_work {event : OrderCreatedEvent} {r : Except String Unit}
    (h : perform ctx t w p choice (.work event) s = some (r, s')) : s' = s := by
  cases choice <;> cases h <;> rfl

theorem perform_sleep {ms : ℕ} {r : Except String Snapshot}
    (h : perform ctx t w p choice (.sleep ms) s = some (r, s')) :
    r = .ok p.snapshot ∧ s' = s := by
  cases choice <;> cases h
  exact ⟨rfl, rfl⟩

/-- The calls that a handler is known by. -/
def Call.ofHandler : Call → Bool
  | .receive => true
  | .query _ => true
  | .conclude _ _ => true
  | _ => false

/-- Everything else leaves the table and the handlers alone. -/
theorem perform_aside {c : Call} {r : Except String c.Result} (aside : c.ofHandler = false)
    (h : perform ctx t w p choice c s = some (r, s')) :
    s'.events = s.events ∧ s'.history = { s.history with looping := s'.history.looping } := by
  cases c with
  | receive => cases aside
  | query st => cases aside
  | conclude d outcome => cases aside
  | work event => cases perform_work h; exact ⟨rfl, rfl⟩
  | sleep ms => obtain ⟨_, rfl⟩ := perform_sleep h; exact ⟨rfl, rfl⟩
  | enter => obtain ⟨_, _, rfl⟩ := perform_enter h; exact ⟨rfl, rfl⟩
  | prefetch c n => obtain ⟨rfl, _⟩ := perform_prefetch h; exact ⟨rfl, rfl⟩
  | connect =>
      obtain ⟨_, _, rfl⟩ | ⟨_, rfl⟩ := perform_connect h
      · exact ⟨rfl, rfl⟩
      · exact ⟨rfl, rfl⟩
  | createChannel c =>
      obtain ⟨_, _, rfl⟩ | ⟨_, _, _, rfl⟩ := perform_createChannel h
      · exact ⟨rfl, rfl⟩
      · exact ⟨rfl, rfl⟩
  | declare c d =>
      obtain ⟨_, _, rfl⟩ | ⟨_, _, _, rfl⟩ := perform_declare h
      · exact ⟨rfl, rfl⟩
      · exact ⟨rfl, rfl⟩
  | consume c =>
      obtain ⟨_, _, rfl⟩ | ⟨_, _, rfl⟩ := perform_consume h
      · exact ⟨rfl, rfl⟩
      · exact ⟨rfl, rfl⟩

end Perform

/-! ### What a call tolerates -/

/-- Nothing that has been declared is gone. -/
def Declared (s s' : State) : Prop :=
  ∀ d, s.server.topology.has d = true → s'.server.topology.has d = true

/-- The row of a call is left alone. -/
structure ClaimKept (t : Tid) (s s' : State) : Prop where
  handling : s'.history.handling t = s.history.handling t
  inserts : s'.history.inserts t = s.history.inserts t
  events : ProcessedEvents.Keeps t s.events s'.events

/-- The delivery of a call is left to it. -/
structure HandlingKept (t : Tid) (s s' : State) : Prop where
  handling : s'.history.handling t = s.history.handling t
  concluded : s'.history.concluded t = s.history.concluded t

/-- What a call may rely on while other calls take their steps. -/
structure Rely (t : Tid) (s s' : State) : Prop where
  declared : Declared s s'
  claim : ClaimKept t s s'
  handling : HandlingKept t s s'

theorem ClaimKept.refl (t : Tid) (s : State) : ClaimKept t s s := ⟨rfl, rfl, .refl t _⟩

theorem ClaimKept.trans {s'' : State} (h : ClaimKept t s s') (h' : ClaimKept t s' s'') :
    ClaimKept t s s'' :=
  ⟨h'.handling.trans h.handling, h'.inserts.trans h.inserts, h.events.trans h'.events⟩

theorem HandlingKept.refl (t : Tid) (s : State) : HandlingKept t s s := ⟨rfl, rfl⟩

theorem HandlingKept.trans {s'' : State} (h : HandlingKept t s s') (h' : HandlingKept t s' s'') :
    HandlingKept t s s'' :=
  ⟨h'.handling.trans h.handling, h'.concluded.trans h.concluded⟩

theorem Rely.refl (t : Tid) (s : State) : Rely t s s := ⟨fun _ h => h, .refl t s, .refl t s⟩

theorem Rely.trans {s'' : State} (h : Rely t s s') (h' : Rely t s' s'') : Rely t s s'' :=
  ⟨fun d known => h'.declared d (h.declared d known), h.claim.trans h'.claim,
    h.handling.trans h'.handling⟩

/-- A change of the broker, of the processes and of what is known of the loops. -/
theorem Rely.of_same (declared : Declared s s') (events : s'.events = s.events)
    (history : s'.history = { s.history with looping := s'.history.looping }) : Rely t s s' := by
  refine ⟨declared, ⟨?_, ?_, by rw [events]; exact .refl t _⟩, ⟨?_, ?_⟩⟩
  all_goals rw [history]

theorem declared_of_topology (same : s'.server.topology = s.server.topology) : Declared s s' := by
  intro d known
  rw [same]
  exact known

/-! ### Where a call stands -/

/-- The event that a message is about. -/
def eventOf (ctx : WorkerContext) (m : Message) : Option Uuid :=
  match parseEvent ctx m with
  | .ok event => ctx.uuid event.eventId
  | .error _ => none

/-- What is known when `processEvent` has returned. -/
def Outcome (ctx : WorkerContext) (t : Tid) (d : Delivery) :
    Except String ProcessingResult → State → Prop
  | .ok .processed, s => ∃ id, eventOf ctx d.copy.message = some id ∧ s.events.Processed id
  | .ok .duplicate, s =>
      ∃ id, eventOf ctx d.copy.message = some id ∧ s.history.inserts t = some false
  | .error _, _ => True

/-- A call has the row of an event. -/
def Holding (ctx : WorkerContext) (t : Tid) (eventId : String) (s : State) : Prop :=
  ∃ id, ctx.uuid eventId = some id ∧ s.events.Claimed t id

/-- What is true when a call awaits something. -/
def Before (ctx : WorkerContext) (t : Tid) (o : Operation) (s : State) : Prop :=
  match o.call with
  | .receive => s.history.handling t = none ∧ s.history.concluded t = false
  | .query (.insert eventId _) =>
      s.history.inserts t = none ∧
        ∃ d event, s.history.handling t = some ⟨o.process, d⟩ ∧
          parseEvent ctx d.copy.message = .ok event ∧ event.eventId = eventId
  | .query (.markProcessed eventId) => Holding ctx t eventId s
  | .query (.delete eventId) => Holding ctx t eventId s
  | .work event => Holding ctx t event.eventId s
  | .conclude d outcome =>
      s.history.handling t = some ⟨o.process, d⟩ ∧ s.history.concluded t = false ∧
        Outcome ctx t d outcome s
  | .consume _ => s.server.topology.Complete
  | _ => True

theorem Holding.later {eventId : String} (h : Holding ctx t eventId s) (step : ClaimKept t s s') :
    Holding ctx t eventId s' := by
  obtain ⟨id, uuid, claimed⟩ := h
  exact ⟨id, uuid, step.events.claimed id claimed⟩

/-! ### What a call does to the others -/

/-- A statement takes nothing away from the others. -/
theorem keeps_of_exec {T' : ProcessedEvents} {st : EventStatement} {now : ℤ} {n w : ℕ} {u : Tid}
    (before : Before ctx t ⟨w, .query st⟩ s) (other : u ≠ t)
    (h : s.events.exec ctx.uuid now t st = .ok (n, T')) : ProcessedEvents.Keeps u s.events T' := by
  obtain ⟨id, uuid, done⟩ := ProcessedEvents.effect_of_exec h
  cases st with
  | insert eventId eventType =>
      have same : T' = _ := congrArg Prod.snd done
      rw [same]
      exact ProcessedEvents.keeps_insert _
  | markProcessed eventId =>
      obtain ⟨id', uuid', claimed⟩ := before
      obtain rfl := Option.some.inj (uuid.symm.trans uuid')
      rw [show T' = _ from done]
      exact ProcessedEvents.keeps_mark claimed other
  | delete eventId =>
      obtain ⟨id', uuid', claimed⟩ := before
      obtain rfl := Option.some.inj (uuid.symm.trans uuid')
      rw [show T' = _ from done]
      exact ProcessedEvents.keeps_remove claimed other

/-- An executed `INSERT` is noted for its own call. -/
theorem noteInsert_inserts {u : Tid} (other : u ≠ t) (n : ℕ) (st : EventStatement) (h : History) :
    (h.noteInsert t n st).inserts u = h.inserts u := by
  cases st with
  | insert eventId eventType => exact Function.update_of_ne other _ _
  | markProcessed eventId => rfl
  | delete eventId => rfl

/-- A statement changes nothing else of the history. -/
theorem noteInsert_eq (n : ℕ) (st : EventStatement) (h : History) :
    h.noteInsert t n st = { h with inserts := (h.noteInsert t n st).inserts } := by
  cases st with
  | insert eventId eventType => rfl
  | markProcessed eventId => rfl
  | delete eventId => rfl

theorem noteInsert_handling (n : ℕ) (st : EventStatement) (h : History) :
    (h.noteInsert t n st).handling = h.handling ∧
      (h.noteInsert t n st).concluded = h.concluded := by
  rw [noteInsert_eq]
  exact ⟨rfl, rfl⟩

/-- A call never takes back what has been declared. -/
theorem declared_of_perform {w : ℕ} {p : Process} {choice : Choice} {c : Call}
    {r : Except String c.Result} (h : perform ctx t w p choice c s = some (r, s')) :
    Declared s s' := by
  cases c with
  | receive =>
      obtain ⟨_, _, d, server, _, _, delivered, ⟨_, _, rfl⟩ | ⟨_, _, rfl⟩⟩ := perform_receive h
      · exact declared_of_topology (Server.deliver_topology delivered)
      · exact declared_of_topology (Server.deliver_topology delivered)
  | query st =>
      obtain ⟨_, _, rfl⟩ | ⟨_, _, _, _, _, _, rfl⟩ := perform_query h
      · exact fun _ known => known
      · exact fun _ known => known
  | conclude d outcome =>
      obtain ⟨faults, n, _, segment, _, _, rfl⟩ := perform_conclude h
      exact declared_of_topology (Server.frames_topology s.server n segment.frames)
  | work event => cases perform_work h; exact fun _ known => known
  | sleep ms => obtain ⟨_, rfl⟩ := perform_sleep h; exact fun _ known => known
  | enter => obtain ⟨_, _, rfl⟩ := perform_enter h; exact fun _ known => known
  | prefetch c n => obtain ⟨rfl, _⟩ := perform_prefetch h; exact fun _ known => known
  | connect =>
      obtain ⟨_, _, rfl⟩ | ⟨_, rfl⟩ := perform_connect h
      · exact fun _ known => known
      · exact fun _ known => known
  | createChannel c =>
      obtain ⟨_, _, rfl⟩ | ⟨_, _, _, rfl⟩ := perform_createChannel h
      · exact fun _ known => known
      · exact fun _ known => known
  | declare c d =>
      obtain ⟨_, _, rfl⟩ | ⟨topology, declared, _, rfl⟩ := perform_declare h
      · exact fun _ known => known
      · exact fun e known => (Topology.has_declare declared e).mpr (.inl known)
  | consume c =>
      obtain ⟨_, _, rfl⟩ | ⟨_, _, rfl⟩ := perform_consume h
      · exact fun _ known => known
      · exact fun _ known => known

/-- **What a call does to the others** is tolerated by them. -/
theorem rely_of_exec {w : ℕ} {c : Call} {choice : Choice} {r : Except String c.Result} {u : Tid}
    (before : Before ctx t ⟨w, c⟩ s) (other : u ≠ t)
    (h : exec ctx t choice ⟨w, c⟩ s = some (r, s')) : Rely u s s' := by
  obtain ⟨p, _, _, h⟩ := perform_of_exec h
  have declared := declared_of_perform h
  by_cases aside : c.ofHandler = false
  · obtain ⟨events, history⟩ := perform_aside aside h
    exact .of_same declared events history
  · cases c with
    | receive =>
        obtain ⟨_, _, d, server, _, _, _, ⟨_, _, rfl⟩ | ⟨_, _, rfl⟩⟩ := perform_receive h
        · exact .of_same declared rfl rfl
        · have kept : Function.update s.history.handling t (some ⟨w, d⟩) u =
              s.history.handling u := Function.update_of_ne other _ _
          exact ⟨declared, ⟨kept, rfl, .refl u _⟩, ⟨kept, rfl⟩⟩
    | query st =>
        obtain ⟨_, _, rfl⟩ | ⟨now, n, T, _, executed, _, rfl⟩ := perform_query h
        · exact .refl u s'
        · obtain ⟨handling, concluded⟩ := noteInsert_handling (t := t) n st s.history
          exact ⟨declared, ⟨congrFun handling u, noteInsert_inserts other n st s.history,
            keeps_of_exec before other executed⟩, ⟨congrFun handling u, congrFun concluded u⟩⟩
    | conclude d outcome =>
        obtain ⟨faults, n, _, segment, _, _, rfl⟩ := perform_conclude h
        have kept : Function.update s.history.concluded t true u = s.history.concluded u :=
          Function.update_of_ne other _ _
        exact ⟨declared, ⟨rfl, rfl, .refl u _⟩, ⟨rfl, kept⟩⟩
    | _ => exact absurd rfl aside

/-! ### The discipline -/

/-- A call that has not begun. -/
structure Fresh (t : Tid) (s : State) : Prop where
  handling : s.history.handling t = none
  concluded : s.history.concluded t = false
  inserts : s.history.inserts t = none

theorem Fresh.later (h : Fresh t s) (step : Rely t s s') : Fresh t s' :=
  ⟨step.handling.handling.trans h.handling, step.handling.concluded.trans h.concluded,
    step.claim.inserts.trans h.inserts⟩

/-- What all calls agree on: nothing but what they tolerate. -/
def discipline (ctx : WorkerContext) : Discipline (machine ctx) where
  inv := fun _ => True
  fresh := Fresh
  before := Before ctx
  rely := Rely
  rely_refl := Rely.refl
  rely_trans := Rely.trans
  fresh_rely := Fresh.later

variable {R : Regime (machine ctx)}

/-- What happens beside the calls changes neither the table nor the handlers. -/
theorem event_aside {e : Event} (h : State.event ctx e s = some s') :
    s'.server.topology = s.server.topology ∧ s'.events = s.events ∧ s'.history = s.history := by
  cases e with
  | publish m =>
      obtain ⟨server, published, rfl⟩ := Option.map_eq_some_iff.mp h
      exact ⟨Server.publish_topology published, rfl, rfl⟩
  | expire i =>
      obtain ⟨server, expired, rfl⟩ := Option.map_eq_some_iff.mp h
      obtain ⟨copy, _, rfl⟩ := Server.expire_eq expired
      exact ⟨Server.route_topology _ _, rfl, rfl⟩
  | cut c => cases h; exact ⟨rfl, rfl, rfl⟩
  | requeue c =>
      obtain ⟨server, back, rfl⟩ := Option.map_eq_some_iff.mp h
      obtain ⟨_, rfl⟩ := Server.requeue_eq back
      exact ⟨rfl, rfl, rfl⟩
  | closed c =>
      obtain ⟨x, _, h⟩ := Option.bind_eq_some_iff.mp h
      obtain ⟨p, _, h⟩ := Option.bind_eq_some_iff.mp h
      split at h
      · cases h
        exact ⟨rfl, rfl, rfl⟩
      · cases h
  | boot w =>
      simp only [State.event] at h
      split at h
      · cases h
        exact ⟨rfl, rfl, rfl⟩
      · cases h
  | die w =>
      obtain ⟨p, _, rfl⟩ := Option.map_eq_some_iff.mp h
      exact ⟨rfl, rfl, rfl⟩
  | terminate w =>
      obtain ⟨p, _, rfl⟩ := Option.map_eq_some_iff.mp h
      exact ⟨rfl, rfl, rfl⟩

theorem environment : (discipline ctx).Environment R where
  event := by
    intro e s s' _ _ hevent
    obtain ⟨topology, events, history⟩ := event_aside hevent
    exact ⟨trivial, fun u => .of_same (declared_of_topology topology) events (by rw [history])⟩
  crash := fun _ _ => ⟨trivial, fun u _ => .refl u _⟩

/-- The two sides of a call whose time is over: the processing, and the end of the handler. -/
def sides (ctx : WorkerContext) (R : Regime (machine ctx)) (t : Tid) :
    ((discipline ctx).contract R t).Sides where
  left := ClaimKept t
  right := HandlingKept t
  left_rely := fun step => step.2.claim
  right_rely := fun step => step.2.handling
  left_trans := ClaimKept.trans
  right_trans := HandlingKept.trans
  left_self := fun _ => .refl t _
  right_self := fun _ => .refl t _

section Rules

variable {α : Type} {Q : α → State → Prop} {E : String → State → Prop} {w : ℕ}

/-- A call awaited under the contract of a whole handler or loop. -/
theorem holds_call {c : Call} {f : c.Result → (machine ctx).Task α}
    (before : ∀ s', Rely t s s' → Before ctx t ⟨w, c⟩ s')
    (next : ∀ s' choice p v s'', Rely t s s' → s'.processes w = some p →
      perform ctx t w p choice c s' = some (.ok v, s'') →
      ((discipline ctx).contract R t).Holds Q E (f v) s'')
    (failed : ∀ s' choice p e s'', Rely t s s' →
      perform ctx t w p choice c s' = some (.error e, s'') →
      ∀ s''', Rely t s'' s''' → E e s''') :
    ((discipline ctx).contract R t).Holds Q E ((call w c).bind f) s := by
  intro s₁ rely₁
  refine ⟨before s₁ rely₁.2, fun choice r s₂ _ hexec =>
    ⟨⟨trivial, fun u ne => rely_of_exec (before s₁ rely₁.2) ne hexec⟩, ?_⟩⟩
  obtain ⟨p, process, _, done⟩ := perform_of_exec hexec
  cases r with
  | ok v => exact next s₁ choice p v s₂ rely₁.2 process done
  | error e => exact fun s' step => failed s₁ choice p e s₂ rely₁.2 done s' step.2

/-- A call of the processing: it leaves the end of the handler alone. -/
theorem holds_processing {c : Call} {f : c.Result → (machine ctx).Task α}
    (own : ∀ s' choice p r s'', perform ctx t w p choice c s' = some (r, s'') →
      HandlingKept t s' s'')
    (before : ∀ s', ClaimKept t s s' → Before ctx t ⟨w, c⟩ s')
    (next : ∀ s' choice p v s'', ClaimKept t s s' →
      perform ctx t w p choice c s' = some (.ok v, s'') →
      (sides ctx R t).leftContract.Holds Q E (f v) s'')
    (failed : ∀ s' choice p e s'', ClaimKept t s s' →
      perform ctx t w p choice c s' = some (.error e, s'') →
      ∀ s''', ClaimKept t s'' s''' → E e s''') :
    (sides ctx R t).leftContract.Holds Q E ((call w c).bind f) s := by
  intro s₁ rely₁
  refine ⟨before s₁ rely₁, fun choice r s₂ _ hexec => ?_⟩
  obtain ⟨p, _, _, done⟩ := perform_of_exec hexec
  refine ⟨⟨⟨trivial, fun u ne => rely_of_exec (before s₁ rely₁) ne hexec⟩,
    own s₁ choice p r s₂ done⟩, ?_⟩
  cases r with
  | ok v => exact next s₁ choice p v s₂ rely₁ done
  | error e => exact failed s₁ choice p e s₂ rely₁ done

theorem handlingKept_of_query {st : EventStatement} {choice : Choice} {p : Process}
    {r : Except String ℕ} (h : perform ctx t w p choice (.query st) s = some (r, s')) :
    HandlingKept t s s' := by
  obtain ⟨_, _, rfl⟩ | ⟨now, n, T, _, _, _, rfl⟩ := perform_query h
  · exact .refl t s'
  · obtain ⟨handling, concluded⟩ := noteInsert_handling (t := t) n st s.history
    exact ⟨congrFun handling t, congrFun concluded t⟩

end Rules

/-! ### The processing of an event -/

section Processing

variable {w : ℕ} {d : Delivery} {event : OrderCreatedEvent}

/-- A handler knows its delivery and the event that it is about. -/
structure Handles (ctx : WorkerContext) (t : Tid) (w : ℕ) (d : Delivery)
    (event : OrderCreatedEvent) (s : State) : Prop where
  handling : s.history.handling t = some ⟨w, d⟩
  parsed : parseEvent ctx d.copy.message = .ok event

theorem Handles.later (h : Handles ctx t w d event s) (step : ClaimKept t s s') :
    Handles ctx t w d event s' :=
  ⟨step.handling.trans h.handling, h.parsed⟩

theorem Handles.eventOf (h : Handles ctx t w d event s) :
    eventOf ctx d.copy.message = ctx.uuid event.eventId := by
  unfold Worker.eventOf
  rw [h.parsed]

/-- What is known of the delivery when `processEvent` has returned. -/
def Processed (ctx : WorkerContext) (t : Tid) (w : ℕ) (d : Delivery) (a : ProcessingResult)
    (s : State) : Prop :=
  s.history.handling t = some ⟨w, d⟩ ∧ Outcome ctx t d (.ok a) s

/-- The work, and the `UPDATE` behind it: the row is still there when they fail. -/
private theorem holds_performWork (handles : Handles ctx t w d event s)
    (holding : Holding ctx t event.eventId s) :
    (sides ctx R t).leftContract.Holds (Processed ctx t w d)
      (fun _ s' => Holding ctx t event.eventId s') (performWork w event) s := by
  refine holds_processing (c := .work event) (fun s' choice p r s'' done => ?_)
    (fun s' => holding.later) ?_ ?_
  · cases perform_work done
    exact .refl t _
  · intro s₁ choice p v s₂ rely₁ done
    cases perform_work done
    refine holds_processing (c := .query (.markProcessed event.eventId))
      (fun _ _ _ _ _ => handlingKept_of_query) (fun s' => (holding.later rely₁).later) ?_ ?_
    · intro s₃ choice p n s₄ rely₃ done s₅ rely₅
      obtain ⟨_, impossible, _⟩ | ⟨now, _, T, _, executed, _, rfl⟩ := perform_query done
      · cases impossible
      obtain ⟨id, uuid, same⟩ := ProcessedEvents.effect_of_exec executed
      obtain ⟨id', uuid', claimed⟩ := (holding.later rely₁).later rely₃
      obtain rfl := Option.some.inj (uuid.symm.trans uuid')
      have handles₃ := (handles.later rely₁).later rely₃
      refine ⟨rely₅.handling.trans handles₃.handling, id, handles.eventOf.trans uuid,
        rely₅.events.processed id ?_⟩
      show T.Processed id
      rw [show T = _ from same]
      exact ProcessedEvents.processed_mark claimed
    · intro s₃ choice p e s₄ rely₃ done s₅ rely₅
      obtain ⟨_, _, rfl⟩ | ⟨_, _, _, _, _, impossible, _⟩ := perform_query done
      · exact ((holding.later rely₁).later rely₃).later rely₅
      · cases impossible
  · intro s₁ choice p e s₂ rely₁ done s₃ rely₃
    cases perform_work done
    exact (holding.later rely₁).later rely₃

/-- The `DELETE` after a failure. -/
private theorem holds_cleanup {α : Type} {Q : α → State → Prop} {e : String}
    (holding : Holding ctx t event.eventId s) :
    (sides ctx R t).leftContract.Holds Q (fun _ _ => True)
      ((query w (.delete event.eventId)).bind fun _ => .thrown e) s :=
  holds_processing (c := .query (.delete event.eventId)) (fun _ _ _ _ _ => handlingKept_of_query)
    (fun _ => holding.later) (fun _ _ _ _ _ _ _ _ _ => trivial)
    fun _ _ _ _ _ _ _ _ _ => trivial

/-- **The processing of an event.** -/
theorem holds_processEvent (handles : Handles ctx t w d event s)
    (inserts : s.history.inserts t = none) :
    (sides ctx R t).leftContract.Holds (Processed ctx t w d) (fun _ _ => True)
      (processEvent w event) s := by
  refine holds_processing (c := .query (.insert event.eventId event.eventType))
    (fun _ _ _ _ _ => handlingKept_of_query) ?_ ?_ fun _ _ _ _ _ _ _ _ _ => trivial
  · intro s' step
    exact ⟨step.inserts.trans inserts, d, event, (handles.later step).handling, handles.parsed, rfl⟩
  · intro s₁ choice p (n : ℕ) s₂ rely₁ done
    obtain ⟨_, impossible, _⟩ | ⟨now, m, T, _, executed, replied, rfl⟩ := perform_query done
    · cases impossible
    obtain rfl := Except.ok.inj replied
    obtain ⟨id, uuid, same⟩ := ProcessedEvents.effect_of_exec executed
    have handles₂ : Handles ctx t w d event { s₁ with
        events := T
        history := s₁.history.noteInsert t n (.insert event.eventId event.eventType) } :=
      ⟨(handles.later rely₁).handling, handles.parsed⟩
    by_cases conflict : n = 0
    · -- the row was there: a duplicate
      rw [if_pos conflict]
      intro s₃ rely₃
      refine ⟨(handles₂.later rely₃).handling, id, handles.eventOf.trans uuid, ?_⟩
      rw [rely₃.inserts]
      show Function.update _ t _ t = _
      rw [Function.update_self, conflict]
      rfl
    · rw [if_neg conflict]
      have inserted := ProcessedEvents.claimed_insert (T := s₁.events)
        (by rw [← show (n, T) = _ from same]; exact conflict) rfl
      rw [← show (n, T) = _ from same] at inserted
      refine Contract.Holds.attempt ?_ (.refl t _)
      refine (holds_performWork handles₂ ⟨id, uuid, inserted⟩).mono (fun _ _ done => done) ?_
      exact fun e s₃ holding _ => holds_cleanup holding

end Processing

/-! ### A handler -/

section Handler

variable {w : ℕ} {d : Delivery}

/-- A handler that has not come to its end. -/
structure Concluding (t : Tid) (w : ℕ) (d : Delivery) (s : State) : Prop where
  handling : s.history.handling t = some ⟨w, d⟩
  concluded : s.history.concluded t = false

theorem Concluding.later (h : Concluding t w d s) (step : HandlingKept t s s') :
    Concluding t w d s' :=
  ⟨step.handling.trans h.handling, step.concluded.trans h.concluded⟩

theorem Outcome.later {outcome : Except String ProcessingResult} (h : Outcome ctx t d outcome s)
    (step : ClaimKept t s s') : Outcome ctx t d outcome s' := by
  match outcome, h with
  | .ok .processed, ⟨id, event, processed⟩ => exact ⟨id, event, step.events.processed id processed⟩
  | .ok .duplicate, ⟨id, event, inserts⟩ => exact ⟨id, event, step.inserts.trans inserts⟩
  | .error _, _ => trivial

/-- The end of a handler. -/
private theorem holds_conclude {outcome : Except String ProcessingResult}
    (concluding : Concluding t w d s) (known : Outcome ctx t d outcome s) :
    ((discipline ctx).contract R t).Holds (fun _ _ => True) (fun _ _ => True)
      (call w (.conclude d outcome)) s := by
  rw [← Async.Program.bind_done_right (call w (.conclude d outcome))]
  refine holds_call ?_ (fun _ _ _ _ _ _ _ _ _ _ => trivial) fun _ _ _ _ _ _ _ _ _ => trivial
  intro s' step
  have later := concluding.later step.handling
  exact ⟨later.handling, later.concluded, known.later step.claim⟩

/-- The end of a handler while its event is still being processed. -/
private theorem holds_timeout {e : String} (concluding : Concluding t w d s) :
    (sides ctx R t).rightContract.Holds (fun _ _ => True) (fun _ _ => True)
      (call w (.conclude d (.error e))) s := by
  intro s₁ rely₁
  have later := concluding.later rely₁
  have before : Before ctx t ⟨w, .conclude d (.error e)⟩ s₁ :=
    ⟨later.handling, later.concluded, trivial⟩
  refine ⟨before, fun choice r s₂ _ hexec => ⟨⟨⟨trivial, fun u ne =>
    rely_of_exec before ne hexec⟩, ?_⟩, ?_⟩⟩
  · obtain ⟨p, _, _, done⟩ := perform_of_exec hexec
    obtain ⟨_, _, _, _, _, _, rfl⟩ := perform_conclude done
    exact ⟨rfl, rfl, .refl t _⟩
  · cases r with
    | ok v => exact fun _ _ => trivial
    | error e => exact fun _ _ => trivial

theorem holds_handleDelivery (concluding : Concluding t w d s)
    (inserts : s.history.inserts t = none) :
    ((discipline ctx).contract R t).Holds (fun _ _ => True) (fun _ _ => True)
      (handleDelivery w ctx d) s := by
  unfold handleDelivery
  cases parsed : parseEvent ctx d.copy.message with
  | error e => exact holds_conclude concluding trivial
  | ok event =>
      refine Contract.Holds.deadline (S := sides ctx R t) (P := Concluding t w d) ?_ (.refl t s)
        concluding (fun step known => known.later step) fun s' known => holds_timeout known
      refine (holds_processEvent ⟨concluding.handling, parsed⟩ inserts).mono ?_ ?_
      · exact fun a s' processed known => holds_conclude known processed.2
      · exact fun e s' _ known => holds_conclude known trivial

theorem holds_handleMessage (fresh : Fresh t s) :
    ((discipline ctx).contract R t).Holds (fun _ _ => True) (fun _ _ => True)
      (handleMessage w ctx) s := by
  refine holds_call ?_ ?_ fun _ _ _ _ _ _ _ _ _ => trivial
  · intro s' step
    have later := fresh.later step
    exact ⟨later.handling, later.concluded⟩
  · intro s₁ choice p received s₂ rely₁ _ done
    have later := fresh.later rely₁
    obtain ⟨_, _, d, server, _, _, _, ⟨_, reply, rfl⟩ | ⟨_, reply, rfl⟩⟩ := perform_receive done
    · obtain rfl : received = none := Except.ok.inj reply
      exact fun _ _ => trivial
    · obtain rfl : received = some d := Except.ok.inj reply
      exact holds_handleDelivery ⟨Function.update_self .., later.concluded⟩ later.inserts

end Handler

/-! ### A reconnect loop -/

section Loop

variable {w prefetch : ℕ}

theorem complete_of_declarations {T : Topology} (h : ∀ d ∈ declarations, T.has d = true) :
    T.Complete := by
  intro d
  refine h d ?_
  cases d with
  | exchange => decide
  | binding => decide
  | queue q => cases q <;> decide

/-- Declarations one after another. -/
private theorem holds_declareAll {connection : ℕ} (todo : List Declaration) :
    ∀ {s : State} (already : List Declaration),
      (∀ d ∈ already, s.server.topology.has d = true) →
      ((discipline ctx).contract R t).Holds
        (fun _ s' => ∀ d ∈ already ++ todo, s'.server.topology.has d = true) (fun _ _ => True)
        (declareAll w connection todo) s := by
  induction todo with
  | nil =>
      intro s already declared s' step d mem
      rw [List.append_nil] at mem
      exact step.2.declared d (declared d mem)
  | cons d rest ih =>
      intro s already declared
      refine holds_call (c := .declare connection d) (fun _ _ => trivial) ?_
        fun _ _ _ _ _ _ _ _ _ => trivial
      intro s₁ choice p v s₂ rely₁ _ done
      obtain ⟨_, impossible, _⟩ | ⟨topology, new, _, rfl⟩ := perform_declare done
      · cases impossible
      rw [List.append_cons]
      refine ih (already ++ [d]) fun e mem => ?_
      rcases List.mem_append.mp mem with old | last
      · exact (Topology.has_declare new e).mpr (.inl (rely₁.declared e (declared e old)))
      · exact (Topology.has_declare new e).mpr (.inr (List.mem_singleton.mp last))

/-- Whoever has set up the channel has declared everything. -/
private theorem holds_setupRabbit {channel : Option ℕ}
    (declared : channel.isSome → s.server.topology.Complete) :
    ((discipline ctx).contract R t).Holds (fun _ s' => s'.server.topology.Complete)
      (fun _ _ => True) (setupRabbit w prefetch channel) s := by
  cases channel with
  | some c => exact fun s' step d => step.2.declared d (declared rfl d)
  | none =>
      refine holds_call (c := .connect) (fun _ _ => trivial) ?_ fun _ _ _ _ _ _ _ _ _ => trivial
      intro s₁ choice p connection s₂ _ _ _
      refine holds_call (c := .createChannel connection) (fun _ _ => trivial) ?_
        fun _ _ _ _ _ _ _ _ _ => trivial
      intro s₃ choice p v s₄ _ _ _
      refine (holds_declareAll declarations [] fun _ mem => absurd mem List.not_mem_nil).chain ⟨trivial, .refl t _⟩ ?_
      intro _ s₅ all _
      refine holds_call (c := .prefetch connection prefetch) (fun _ _ => trivial) ?_
        fun _ _ _ _ _ _ _ _ _ => trivial
      intro s₆ choice p channel s₇ rely₆ _ done s₈ rely₈ d
      obtain ⟨rfl, _⟩ := perform_prefetch done
      exact rely₈.2.declared d (rely₆.declared d (complete_of_declarations all d))

private theorem holds_startConsumer {channel : Option ℕ}
    (declared : s.server.topology.Complete) :
    ((discipline ctx).contract R t).Holds (fun _ _ => True) (fun _ _ => True)
      (startConsumer w prefetch channel) s := by
  refine (holds_setupRabbit fun _ => declared).chain ⟨trivial, .refl t _⟩ ?_
  rintro ⟨active, _⟩ s₁ complete _
  show ((discipline ctx).contract R t).Holds _ _ (call w (.consume active)) s₁
  rw [← Async.Program.bind_done_right (call w (.consume active))]
  exact holds_call (fun s₂ rely₂ d => rely₂.declared d (complete d))
    (fun _ _ _ _ _ _ _ _ _ _ => trivial) fun _ _ _ _ _ _ _ _ _ => trivial

private theorem holds_reconnect :
    ((discipline ctx).contract R t).Holds (fun _ _ => True) (fun _ _ => True)
      (reconnect w prefetch none) s := by
  have unset : (none : Option ℕ).isSome → s.server.topology.Complete := fun some => by cases some
  have here : ((discipline ctx).contract R t).rely s s := ⟨trivial, .refl t _⟩
  refine Contract.Holds.attempt (Contract.Holds.chain ((holds_setupRabbit unset).mono
    (fun _ _ complete => complete) fun _ _ _ _ _ _ => trivial) here ?_) here
  intro pair s₁ complete _
  refine Contract.Holds.chain ((holds_startConsumer complete).mono (fun _ _ _ => trivial)
    fun _ _ _ _ _ _ => trivial) ⟨trivial, .refl t _⟩ ?_
  exact fun _ _ _ _ _ _ => trivial

private theorem holds_reconnectFrom (rounds : ℕ) :
    ∀ {s : State} (delayMs : ℕ) (now : Snapshot),
      ((discipline ctx).contract R t).Holds (fun _ _ => True) (fun _ _ => True)
        (reconnectFrom w prefetch rounds delayMs now) s := by
  induction rounds with
  | zero => exact fun _ _ => trivial
  | succ rounds ih =>
      intro s delayMs now
      unfold reconnectFrom
      split
      · exact fun _ _ => trivial
      · rename_i goes
        have channel : now.channel = none := by
          simp only [Bool.or_eq_true, not_or, Option.not_isSome_iff_eq_none] at goes
          exact goes.2
        rw [channel]
        refine holds_reconnect.chain ⟨trivial, .refl t _⟩ ?_
        intro returns s₁ _ _
        cases returns with
        | true => exact fun _ _ => trivial
        | false =>
            exact holds_call (c := .sleep delayMs) (fun _ _ => trivial)
              (fun _ _ _ now s₃ _ _ _ => ih (min (delayMs * 2) 30000) now)
              fun _ _ _ _ _ _ _ _ _ => trivial

theorem holds_reconnectLoop {rounds : ℕ} :
    ((discipline ctx).contract R t).Holds (fun _ _ => True) (fun _ _ => True)
      (reconnectLoop w prefetch rounds) s :=
  holds_call (c := .enter) (fun _ _ => trivial)
    (fun _ _ _ now _ _ _ _ => holds_reconnectFrom rounds 1000 now)
    fun _ _ _ _ _ _ _ _ _ => trivial

end Loop

/-! ### Runs -/

/-- **The calls keep the discipline**, in every regime. -/
theorem handles : (discipline ctx).Handles R (handler ctx) (fun _ _ _ _ => True)
    fun _ _ _ _ => True := by
  intro t request s _ fresh
  cases request with
  | message w => exact holds_handleMessage fresh
  | reconnect w rounds => exact holds_reconnectLoop

/-- The runs of a regime. -/
abbrev Run (R : Regime (machine ctx)) (p q : Service ctx) : Prop :=
  Async.Pool.Steps R (handler ctx) p q

theorem sound_of_run {p : Service ctx} (run : Run R (Async.Pool.idle .initial) p) :
    (discipline ctx).Sound R (fun _ _ _ _ => True) (fun _ _ _ _ => True) p :=
  Discipline.Sound.steps (Discipline.sound_idle trivial fun _ => ⟨rfl, rfl, rfl⟩) environment
    handles run

/-- **An invariant of all runs from the start.** -/
theorem invariant_of_run {I : State → Prop} {p : Service ctx}
    (run : Run R (Async.Pool.idle .initial) p) (initially : I .initial)
    (advance : ∀ t w c choice p r s s', Before ctx t ⟨w, c⟩ s → R.advance t choice ⟨w, c⟩ s →
      s.processes w = some p → perform ctx t w p choice c s = some (r, s') → I s → I s')
    (event : ∀ e s s', R.event e s → State.event ctx e s = some s' → I s → I s') : I p.shared :=
  Discipline.Sound.invariant (D := discipline ctx) (Q := fun _ _ _ _ => True)
    (E := fun _ _ _ _ => True)
    (Discipline.sound_idle trivial fun _ => ⟨rfl, rfl, rfl⟩) environment handles initially
    (fun t c o s r s' _ before allowed hexec here => by
      obtain ⟨p, process, _, done⟩ := perform_of_exec hexec
      exact advance t o.process o.call c p r s s' before allowed process done here)
    (fun e s s' _ allowed hevent here => event e s s' allowed hevent here)
    (fun _ _ _ _ here => here) run

/-- The regime of all runs. -/
def unrestricted (ctx : WorkerContext) : Regime (machine ctx) where
  advance := fun _ _ _ _ => True
  event := fun _ _ => True
  crash := fun _ _ => True

instance decidableUnrestrictedAdvance (t : Tid) (c : Choice) (o : Operation) (s : State) :
    Decidable ((unrestricted ctx).advance t c o s) := .isTrue trivial

instance decidableUnrestrictedEvent (e : Event) (s : State) :
    Decidable ((unrestricted ctx).event e s) := .isTrue trivial

instance decidableUnrestrictedCrash (t : Tid) (s : State) :
    Decidable ((unrestricted ctx).crash t s) := .isTrue trivial

/-! ### The worked examples -/

/-- The headers that RabbitMQ writes when the time of a message is over. -/
def exampleDeadLettering : DeadLettering where
  own := ["x-death", "x-first-death-exchange", "x-first-death-queue", "x-first-death-reason"]
  stamp := fun headers =>
    Function.update (Function.update (Function.update (Function.update headers
      "x-first-death-exchange" (some (.text "")))
      "x-first-death-queue" (some (.text "order.created.retry")))
      "x-first-death-reason" (some (.text "expired")))
      "x-death" (some (.other "[{count:1,reason:expired,queue:order.created.retry}]"))
  frame := by
    intro headers name other
    simp only [List.mem_cons, List.not_mem_nil, or_false, not_or] at other
    obtain ⟨death, exchange, queue, reason⟩ := other
    rw [Function.update_of_ne death, Function.update_of_ne reason, Function.update_of_ne queue,
      Function.update_of_ne exchange]
  retryCount := by decide
  lastError := by decide

def exampleEventId : String := "e0000000-0000-4000-8000-000000000001"

def exampleOrderId : String := "0d000000-0000-4000-8000-000000000001"

/-- The payload of an event as the API writes it. -/
def examplePayload : Json :=
  .object [("eventId", .str exampleEventId), ("eventType", .str "order.created"),
    ("orderId", .str exampleOrderId), ("occurredAt", .str "2026-01-01T00:00:00.000Z")]

/-- The bytes of a text in ASCII. -/
def asciiBytes (text : String) : List UInt8 := text.toList.map fun c => UInt8.ofNat c.toNat

def exampleContent : List UInt8 := asciiBytes examplePayload.stringify

/-- The context of the worked examples, given how often a message is tried again. -/
def workerContext (maxRetries : ℤ) : WorkerContext where
  config := ⟨30000, maxRetries, 20⟩
  parse := fun content =>
    if content = exampleContent then .ok examplePayload
    else .error "Unexpected end of JSON input"
  uuid := fun text => if text.length = 36 then some (.ofText text) else none
  number := fun _ => .ok .nan
  string := fun _ => .ok "[object Object]"
  deadLettering := exampleDeadLettering

def exampleProperties : Properties :=
  ⟨some "application/json", some 2, some exampleEventId, none, some "order.created", fun _ => none⟩

/-- A message about the event. -/
def exampleMessage : Message := ⟨exampleContent, exampleProperties⟩

/-- A message that is not JSON. -/
def emptyMessage : Message := ⟨[], exampleProperties⟩

/-- A move of the service in the examples. -/
abbrev WorkerMove (maxRetries : ℤ) := Async.Move (machine (workerContext maxRetries)) Request

/-- What `reconnectLoop` awaits when nothing fails. -/
def loopMoves (maxRetries : ℤ) (w : ℕ) (t : Tid) : List (WorkerMove maxRetries) :=
  .start t (.reconnect w 1) :: List.replicate 10 (.advance t .succeeds)

/-- A process is started, and its loop sets up a channel and a consumer. -/
def startMoves (maxRetries : ℤ) (w : ℕ) (t : Tid) : List (WorkerMove maxRetries) :=
  .event (.boot w) :: loopMoves maxRetries w t

/-- A connection is lost, and another one is made. -/
def lossMoves (maxRetries : ℤ) (w c : ℕ) (t : Tid) : List (WorkerMove maxRetries) :=
  [.event (.cut c), .event (.requeue c), .event (.closed c)] ++ loopMoves maxRetries w t

/-- A message is published, and delivered on a connection. -/
def deliverMoves (maxRetries : ℤ) (m : Message) (w c : ℕ) (t : Tid) : List (WorkerMove maxRetries) :=
  [.event (.publish m), .start t (.message w), .advance t (.delivers c 0)]

end Worker

end OrderPlatform
