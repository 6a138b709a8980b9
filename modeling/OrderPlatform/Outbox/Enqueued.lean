import OrderPlatform.Outbox.SinglePublication

/-!
# Published and enqueued

A row is marked when the broker has confirmed its message, and the broker confirms a message that it
has dropped because no queue is bound to the exchange.  The publisher declares the exchange only;
queue and binding are the worker's.  So what a marked row says depends on who starts first: as long
as the binding is there whenever a message is confirmed, every marked row has its message in the
queue of the worker (`marked_is_enqueued`); a publisher that starts before the worker loses the event
(`marked_and_dropped`).
-/

namespace OrderPlatform

namespace Outbox

open Async (Tid Regime)
open Rabbit (Server)

variable {ctx : PublisherContext} {t : Tid} {s s' : State}

/-- The broker confirms a message only when the queue of the worker is bound to the exchange.  The
publisher declares the exchange only, and a message that no queue is bound for is confirmed as
well. -/
def boundFirst (ctx : PublisherContext) : Regime (machine ctx) where
  advance := fun _ _ _ _ => True
  event := fun e s =>
    match e with
    | .confirm _ => s.server.topology.binding = true
    | _ => True
  crash := fun _ _ => True

/-! ### Queues -/

/-- What is in the queues stays there, and what is declared stays declared. -/
structure Retains (server server' : Server) : Prop where
  ready : server.ready .primary ⊆ server'.ready .primary
  queue : server.topology.queue .primary = true → server'.topology.queue .primary = true
  binding : server'.topology.binding = true →
    server.topology.binding = true ∨ server'.topology.queue .primary = true

namespace Retains

variable {server server' : Server}

theorem of_same (ready : server'.ready = server.ready) (topology : server'.topology = server.topology) :
    Retains server server' := by
  refine ⟨?_, ?_, ?_⟩
  · rw [ready]
    exact List.Subset.refl _
  · rw [topology]
    exact id
  · rw [topology]
    exact .inl

theorem declare {d : Rabbit.Declaration} {topology : Rabbit.Topology}
    (h : server.topology.declare d = some topology) : Retains server { server with topology } := by
  have kept := Rabbit.Topology.has_declare h
  refine ⟨List.Subset.refl _, fun there => (kept (.queue .primary)).mpr (.inl there), fun bound => ?_⟩
  rcases (kept .binding).mp bound with before | rfl
  · exact .inl before
  · -- a binding needs its queue
    refine .inr ((kept (.queue .primary)).mpr (.inl ?_))
    simp only [Rabbit.Topology.declare] at h
    split at h
    · rename_i both
      simp only [Bool.and_eq_true] at both
      exact both.2
    · cases h

theorem place (m : Rabbit.Message) (server : Server) : Retains server (place m server) := by
  show Retains server { server.route ⟨m, server.nextSerial, m, 0⟩ with nextSerial := _ }
  refine ⟨?_, ?_, ?_⟩
  · show server.ready .primary ⊆ (server.route _).ready .primary
    unfold Server.route Server.enqueue
    split
    · split
      · simp
      · exact List.Subset.refl _
    · exact List.Subset.refl _
  · exact fun there => (congrArg (·.queue .primary) (Rabbit.Server.route_topology server _)).trans there
  · exact fun bound => .inl ((congrArg (·.binding) (Rabbit.Server.route_topology server _)).symm.trans
      bound)

end Retains

/-- A message that is published while the queue is bound is in the queue. -/
theorem mem_place (m : Rabbit.Message) {server : Server} (bound : server.topology.binding = true)
    (there : server.topology.queue .primary = true) :
    ∃ copy ∈ (place m server).ready .primary, copy.message = m := by
  refine ⟨⟨m, server.nextSerial, m, 0⟩, ?_, rfl⟩
  show _ ∈ (server.route _).ready .primary
  rw [Server.route, if_pos bound, Server.enqueue, if_pos there]
  simp

/-- The publisher takes nothing out of the queues, and declares an exchange at most. -/
theorem retains_of_perform {w : ℕ} {p : Publisher} {choice : Choice} {c : Call}
    {r : Except String c.Result} (h : perform ctx t w p choice c s = some (r, s')) :
    Retains s.server s'.server := by
  cases c with
  | query st =>
      obtain ⟨_, _, _, rfl⟩ | ⟨_, _, _, _, ⟨_, _, _, rfl⟩ | ⟨_, _, _, _, rfl⟩⟩ := perform_query h <;>
        exact .of_same rfl rfl
  | publish connection row =>
      obtain ⟨_, _, rfl⟩ | ⟨_, _, rfl, _⟩ := perform_publish h <;> exact .of_same rfl rfl
  | enter =>
      obtain ⟨_, _, rfl⟩ := perform_enter h
      exact .of_same rfl rfl
  | settled =>
      obtain ⟨_, rfl⟩ := perform_settled h
      exact .of_same rfl rfl
  | acquire => rw [perform_plain (.inl rfl) h]; exact .of_same rfl rfl
  | release => rw [perform_plain (.inr (.inl rfl)) h]; exact .of_same rfl rfl
  | count => rw [perform_plain (.inr (.inr (.inl rfl))) h]; exact .of_same rfl rfl
  | ping => rw [perform_plain (.inr (.inr (.inr rfl))) h]; exact .of_same rfl rfl
  | channel => rw [(perform_channel h).2]; exact .of_same rfl rfl
  | connect => obtain ⟨_, _, rfl⟩ | ⟨_, rfl⟩ := perform_connect h <;> exact .of_same rfl rfl
  | createConfirmChannel connection =>
      obtain ⟨_, _, rfl⟩ | ⟨_, _, rfl⟩ := perform_createConfirmChannel h <;> exact .of_same rfl rfl
  | assertExchange connection =>
      obtain ⟨_, _, rfl⟩ | ⟨topology, declared, _, rfl⟩ := perform_assertExchange h
      · exact .of_same rfl rfl
      · exact .declare declared
  | waitForConfirms connection awaited =>
      rw [(perform_waitForConfirms h).1]
      exact .of_same rfl rfl

theorem retains_of_event {e : Event} (h : State.event e s = some s') : Retains s.server s'.server := by
  cases e with
  | insert id eventType payload occurredAt startedAt =>
      simp only [State.event] at h
      split at h
      · obtain ⟨_, _, rfl⟩ := Option.map_eq_some_iff.mp h
        exact .of_same rfl rfl
      · cases h
  | declare d =>
      obtain ⟨_, declared, rfl⟩ := Option.map_eq_some_iff.mp h
      exact .declare declared
  | confirm i =>
      obtain ⟨pub, _, rfl⟩ := Option.map_eq_some_iff.mp h
      exact .place pub.message s.server
  | reject i stored =>
      obtain ⟨pub, _, rfl⟩ := Option.map_eq_some_iff.mp h
      cases stored with
      | true => exact .place pub.message s.server
      | false => exact .of_same rfl rfl
  | closed c =>
      obtain ⟨x, _, h⟩ := Option.bind_eq_some_iff.mp h
      obtain ⟨p, _, h⟩ := Option.bind_eq_some_iff.mp h
      split at h
      · cases h
        exact .of_same rfl rfl
      · cases h
  | boot w =>
      simp only [State.event] at h
      split at h
      · cases h
        exact .of_same rfl rfl
      · cases h
  | tick n => cases h; exact .of_same rfl rfl
  | disconnect u => cases h; exact .of_same rfl rfl
  | cut c => cases h; exact .of_same rfl rfl
  | _ =>
      obtain ⟨_, _, rfl⟩ := Option.map_eq_some_iff.mp h
      exact .of_same rfl rfl

/-! ### What has been confirmed is in the queue -/

/-- The binding exists only together with its queue, and every confirmed publication is in the
primary queue. -/
structure Enqueued (s : State) : Prop where
  bound : s.server.topology.binding = true → s.server.topology.queue .primary = true
  kept : ∀ pub ∈ s.publications, pub.answer = some true →
    ∃ copy ∈ s.server.ready .primary, copy.message = pub.message

namespace Enqueued

theorem initial : Enqueued .initial :=
  ⟨fun bound => (by cases bound), fun _ mem => absurd mem List.not_mem_nil⟩

theorem bound_later (inv : Enqueued s) (step : Retains s.server s'.server) :
    s'.server.topology.binding = true → s'.server.topology.queue .primary = true := fun bound =>
  (step.binding bound).elim (fun before => step.queue (inv.bound before)) id

/-- No publication is confirmed. -/
theorem later (inv : Enqueued s) (step : Retains s.server s'.server)
    (old : ∀ pub ∈ s'.publications, pub.answer = some true → pub ∈ s.publications) : Enqueued s' := by
  refine ⟨inv.bound_later step, fun pub mem confirmed => ?_⟩
  obtain ⟨copy, here, same⟩ := inv.kept pub (old pub mem confirmed) confirmed
  exact ⟨copy, step.ready here, same⟩

/-- A publication is confirmed while the queue is bound. -/
theorem confirm {i : ℕ} {pub : Publication} (inv : Enqueued s) (pending : s.pending i = some pub)
    (bound : s.server.topology.binding = true) :
    Enqueued { s.setAnswer i true with server := place pub.message s.server } := by
  have step : Retains s.server (place pub.message s.server) := .place pub.message s.server
  refine ⟨inv.bound_later step, fun pub' mem confirmed => ?_⟩
  obtain ⟨j, found⟩ := List.mem_iff_getElem?.mp mem
  obtain ⟨old, known, rfl⟩ := publication_setAnswer (s := s) found
  split
  · rename_i same
    subst same
    obtain rfl := Option.some.inj ((pending_eq pending).1.symm.trans known)
    exact mem_place _ bound (inv.bound bound)
  · rename_i other
    rw [if_neg other] at confirmed
    obtain ⟨copy, here, same⟩ := inv.kept old (List.mem_of_getElem? known) confirmed
    exact ⟨copy, step.ready here, same⟩

theorem of_run {p : Service ctx} (run : Run (boundFirst ctx) (Async.Pool.idle .initial) p) :
    Enqueued p.shared := by
  refine invariant_of_run run .initial ?_ ?_ fun t s inv => ⟨inv.bound, inv.kept⟩
  · intro t w c choice p r s s' _ _ _ done inv
    refine inv.later (retains_of_perform done) fun pub mem confirmed => ?_
    rcases perform_cases done with ⟨st, rfl⟩ | ⟨connection, row, rfl⟩ | ⟨_, publications⟩
    · obtain ⟨_, _, _, rfl⟩ | ⟨_, _, _, _, ⟨_, _, _, rfl⟩ | ⟨_, _, _, _, rfl⟩⟩ :=
        perform_query done <;> exact mem
    · obtain ⟨_, _, rfl⟩ | ⟨_, _, rfl, _⟩ := perform_publish done
      · exact mem
      · rcases List.mem_append.mp mem with old | new
        · exact old
        · rw [List.mem_singleton.mp new] at confirmed
          cases confirmed
    · exact publications ▸ mem
  · intro e s s' allowed hevent inv
    obtain ⟨i, pub, b, server, pending, rfl, answer⟩ | publications := event_cases hevent
    · cases b with
      | true =>
          obtain ⟨rfl, rfl⟩ := answer rfl
          exact inv.confirm pending allowed
      | false =>
          refine inv.later (retains_of_event hevent) fun pub' mem confirmed => ?_
          obtain ⟨j, found⟩ := List.mem_iff_getElem?.mp mem
          obtain ⟨old, known, rfl⟩ := publication_setAnswer (s := s) found
          split at confirmed
          · cases confirmed
          · rename_i other
            rw [if_neg other]
            exact List.mem_of_getElem? known
    · exact inv.later (retains_of_event hevent) fun pub mem _ => publications ▸ mem

end Enqueued

/-- **A marked row has its message in the queue of the worker**, as long as the queue is bound to the
exchange whenever the broker confirms a message.

That a mark stands behind a confirmation holds in every run (`confirmed_of_run`).  The condition is
needed for the other half, since the broker also confirms what it cannot route. -/
theorem marked_is_enqueued {p : Service ctx}
    (run : Run (boundFirst ctx) (Async.Pool.idle .initial) p) :
    ∀ row ∈ p.shared.db.table.rows, row.publishedAt.isSome →
      ∃ copy ∈ p.shared.server.ready .primary,
        copy.message.content = ctx.buffer (Text.Json.obj row.payload).stringify ∧
        copy.message.properties.messageId = Text.Json.string? (row.payload.get? "eventId") := by
  intro row mem published
  obtain ⟨u, _, pub, sent, _, confirmed, content, messageId⟩ := confirmed_of_run run mem published
  obtain ⟨copy, here, same⟩ := (Enqueued.of_run run).kept pub sent confirmed
  refine ⟨copy, here, ?_, ?_⟩
  · rw [same]
    exact content
  · rw [same]
    exact messageId

/-! ### Who starts first -/

/-- One publisher polls once, and its one message is confirmed. -/
def onePoll : List (Async.Move (machine publisherContext) Request) :=
  [.event (.insert exampleEventId "order.created" examplePayload 0 0), .event (.boot 0),
    .start 0 (.poll 0), .advance 0 .succeeds, .advance 0 .succeeds, .advance 0 (.executes []),
    .advance 0 (.executes [exampleEventId]), .advance 0 .succeeds, .advance 0 .succeeds,
    .advance 0 .succeeds, .advance 0 .succeeds, .advance 0 (.writes 0), .event (.confirm 0),
    .advance 0 .succeeds, .advance 0 (.executes []), .advance 0 (.executes [])]

instance decidableBoundFirstAdvance (t : Tid) (choice : Choice) (o : Operation) (s : State) :
    Decidable ((boundFirst ctx).advance t choice o s) := .isTrue trivial

instance decidableBoundFirstEvent (e : Event) (s : State) :
    Decidable ((boundFirst ctx).event e s) := by
  unfold boundFirst
  dsimp only
  split
  all_goals infer_instance

instance decidableBoundFirstCrash (t : Tid) (s : State) : Decidable ((boundFirst ctx).crash t s) :=
  .isTrue trivial

/-- The worker has been there before. -/
theorem marked_is_enqueued_of_onePoll :
    ∃ p : Service publisherContext, Run (boundFirst _) (Async.Pool.idle .initial) p ∧
      ∃ row ∈ p.shared.db.table.rows, row.publishedAt = some 0 ∧
        ∃ copy ∈ p.shared.server.ready .primary,
          copy.message.properties.messageId = Text.Json.string? (row.payload.get? "eventId") := by
  obtain ⟨p, run, marked⟩ := Async.Pool.steps_of_check (boundFirst publisherContext)
    (handler publisherContext) (Async.Pool.idle .initial)
    ([.event (.declare .exchange), .event (.declare (.queue .primary)), .event (.declare .binding)] ++
      onePoll)
    (fun p => p.shared.db.table.rows.map (·.publishedAt) = [some 0]) (by decide)
  have some : some 0 ∈ p.shared.db.table.rows.map (·.publishedAt) := by
    rw [marked]
    exact List.mem_singleton_self _
  obtain ⟨row, mem, published⟩ := List.mem_map.mp some
  obtain ⟨copy, here, _, messageId⟩ := marked_is_enqueued run row mem (by rw [published]; rfl)
  exact ⟨p, run, row, mem, published, copy, here, messageId⟩

/-- **A publisher that starts before the worker.**  The row is marked, and no queue has the event. -/
theorem marked_and_dropped :
    ∃ p : Service publisherContext, Run (unrestricted _) (Async.Pool.idle .initial) p ∧
      p.shared.db.table.rows.map (·.publishedAt) = [some 0] ∧
      ∀ q, (p.shared.server.ready q).length = 0 := by
  obtain ⟨p, run, marked, primary, retry, deadLetter⟩ := Async.Pool.steps_of_check
    (unrestricted publisherContext) (handler publisherContext) (Async.Pool.idle .initial) onePoll
    (fun p => p.shared.db.table.rows.map (·.publishedAt) = [some 0] ∧
      (p.shared.server.ready .primary).length = 0 ∧ (p.shared.server.ready .retry).length = 0 ∧
      (p.shared.server.ready .deadLetter).length = 0) (by decide)
  refine ⟨p, run, marked, fun q => ?_⟩
  cases q with
  | primary => exact primary
  | retry => exact retry
  | deadLetter => exact deadLetter

end Outbox

end OrderPlatform
