import OrderPlatform.Worker.Conservation

/-!
# Messages that fail again and again

Runs of one process with one message whose processing fails every time it is tried: the message is
handed to a handler, fails, and comes back from the retry queue, as long as the number of its
failures asks for that (`waiting_after`).  Whatever the message is, there is such a run.

* `Serving` — a process that consumes.
* `deliver_once`, `fail_once`, `return_once` — what can be done next.
* `waiting_after` — any number of failures.
-/

namespace OrderPlatform

namespace Worker

open Async (Tid)
open Rabbit

variable {ctx : WorkerContext} {p : Service ctx}

/-- The run from the start. -/
abbrev LosslessRun (p : Service ctx) : Prop := Run (lossless ctx) (Async.Pool.idle .initial) p

/-- Process `0` consumes on connection `0`. -/
structure Serving (s : State) : Prop where
  process : ∃ P, s.processes 0 = some P ∧ P.alive = true ∧ P.channel = some 0
  connection : ∃ x, s.server.connections 0 = some x ∧ x.owner = 0 ∧ x.isOpen = true ∧
    x.live = true ∧ 0 < x.consumers

/-- Process `0` is started, and its loop sets up a channel and a consumer. -/
theorem serving_initially (ctx : WorkerContext) : ∃ p : Service ctx, LosslessRun p ∧ Serving p.shared ∧
    p.shared.server.nextSerial = 0 ∧ p.shared.server.topology.Complete ∧
    ∀ q, p.shared.server.ready q = [] := by
  obtain ⟨p, run, process, connection, next, declared, ready⟩ := Async.Pool.steps_of_check
    (lossless ctx) (handler ctx) (Async.Pool.idle .initial)
    (.event (.boot 0) :: .start 0 (.reconnect 0 1) :: List.replicate 10 (.advance 0 .succeeds))
    (fun p => p.shared.processes 0 = some ⟨true, some 0, false, 0, 0⟩ ∧
      p.shared.server.connections 0 = some ⟨0, true, true, true, 1, 1⟩ ∧
      p.shared.server.nextSerial = 0 ∧
      (∀ d ∈ declarations, p.shared.server.topology.has d = true) ∧
      ∀ q ∈ [Queue.primary, .retry, .deadLetter], p.shared.server.ready q = []) rfl
  refine ⟨p, run, ⟨⟨_, process, rfl, rfl⟩, ⟨_, connection, rfl, rfl, rfl, Nat.one_pos⟩⟩, next,
    complete_of_declarations declared, fun q => ready q ?_⟩
  cases q with
  | primary => decide
  | retry => decide
  | deadLetter => decide

/-- A message that is ready is handed to a new handler, on the delivery of this number. -/
structure Handed (p q : Service ctx) (t : Tid) (d : Delivery) : Prop where
  run : LosslessRun q
  serving : Serving q.shared
  handling : q.shared.history.handling t = some ⟨0, d⟩
  unconcluded : q.shared.history.concluded t = false
  waits : q.slot t = .busy (.message 0) (handleDelivery 0 ctx d)
  topology : q.shared.server.topology = p.shared.server.topology
  ready : q.shared.server.ready = Function.update p.shared.server.ready .primary []

/-- A message can be delivered to a consumer. -/
theorem deliver_eq_some {server : Server} {c i : ℕ} {x : Connection} {copy : Copy}
    (connection : server.connections c = some x) (found : (server.ready .primary)[i]? = some copy)
    (isOpen : x.isOpen = true) (live : x.live = true) (delivers : 0 < x.consumers) :
    server.deliver c i = some (⟨c, x.nextTag, copy⟩,
      { server.updateConnection c (fun x => { x with nextTag := x.nextTag + 1 }) with
        ready := Function.update server.ready .primary ((server.ready .primary).eraseIdx i)
        unacked := ⟨c, x.nextTag, copy⟩ :: server.unacked }) := by
  unfold Server.deliver
  rw [connection, found]
  simp only [Option.bind_eq_bind, Option.bind_some, isOpen, live, Bool.and_self, Bool.true_and]
  rw [if_pos (decide_eq_true delivers)]

/-- A delivery is handed to a handler. -/
theorem exec_receive {t : Tid} {s : State} {w c c' i : ℕ} {P : Process} {d : Delivery}
    {server : Server} (process : s.processes w = some P) (alive : P.alive = true)
    (channel : P.channel = some c') (own : s.owns w c = true)
    (delivered : s.server.deliver c i = some (d, server)) :
    exec ctx t (.delivers c i) ⟨w, .receive⟩ s = some (.ok (some d),
      { s.setProcess w { P with inFlight := P.inFlight + 1 } with
        server
        history :=
          { s.history with
            handling := Function.update s.history.handling t (some ⟨w, d⟩)
            handlers := t :: s.history.handlers } }) := by
  show (s.processes w).bind _ = _
  rw [process, Option.bind_some, if_pos alive]
  simp only [perform, own, if_true, delivered, Option.map_some, channel]

theorem deliver_once {copy : Copy} (run : LosslessRun p) (serving : Serving p.shared)
    (ready : p.shared.server.ready .primary = [copy]) :
    ∃ q t d, Handed p q t d ∧ d.copy = copy := by
  obtain ⟨P, process, alive, channel⟩ := serving.process
  obtain ⟨x, connection, owner, isOpen, live, delivers⟩ := serving.connection
  obtain ⟨t, free⟩ := Async.Pool.Steps.free run
  have unused : Fresh t p.shared := (sound_of_run run).free (free t (Nat.le_refl t))
  obtain ⟨p₁, run₁, shared₁, slot₁⟩ := run.start (free t (Nat.le_refl t)) (.message 0)
  have busy : p₁.slot t = .busy (.message 0) (handleMessage 0 ctx) := by
    rw [slot₁, Function.update_self]
    rfl
  have own : p.shared.owns 0 0 = true := owns_iff.mpr ⟨x, connection, owner⟩
  have found : (p.shared.server.ready .primary)[0]? = some copy := by
    rw [ready]
    rfl
  have delivered := deliver_eq_some connection found isOpen live delivers
  rw [← shared₁] at process own delivered
  obtain ⟨q, run₂, shared₂, slot₂⟩ := run₁.advance busy (.delivers 0 0) trivial
    (exec_receive process alive channel own delivered)
  rw [shared₁] at shared₂
  refine ⟨q, t, ⟨0, x.nextTag, copy⟩, ⟨run₂, ⟨⟨{ P with inFlight := P.inFlight + 1 }, ?_, alive,
    channel⟩, ⟨{ x with nextTag := x.nextTag + 1 }, ?_, owner, isOpen, live, delivers⟩⟩, ?_, ?_, ?_,
    ?_, ?_⟩, rfl⟩
  · rw [shared₂]
    exact Function.update_self (0 : ℕ) _ p.shared.processes
  · rw [shared₂]
    exact (Function.update_self (0 : ℕ) ((p.shared.server.connections 0).map fun x =>
      { x with nextTag := x.nextTag + 1 }) p.shared.server.connections).trans
        (by rw [connection])
  · rw [shared₂]
    exact Function.update_self t _ p.shared.history.handling
  · rw [shared₂]
    exact unused.concluded
  · rw [slot₂, Function.update_self]
    rfl
  · rw [shared₂]
    rfl
  · rw [shared₂]
    show Function.update p.shared.server.ready .primary _ = _
    rw [ready]
    rfl

theorem exec_conclude {t : Tid} {s : State} {w n : ℕ} {P : Process} {d : Delivery}
    {faults : Faults} {outcome : Except String ProcessingResult}
    (process : s.processes w = some P) (alive : P.alive = true) :
    exec ctx t (.concludes faults n) ⟨w, .conclude d outcome⟩ s = some
      ((conclude ctx P.channel (s.writable P.channel) faults d outcome).outcome,
        { s.setProcess w { P with inFlight := P.inFlight - 1 } with
          server := s.server.frames
            (conclude ctx P.channel (s.writable P.channel) faults d outcome).frames n
          history :=
            { s.history with
              concluded := Function.update s.history.concluded t true
              acks := acksOf t (conclude ctx P.channel (s.writable P.channel) faults d
                outcome).frames ++ s.history.acks } }) := by
  show (s.processes w).bind _ = _
  rw [process, Option.bind_some, if_pos alive]
  rfl

/-- A handler comes to its end with an error. -/
theorem conclude_once {q : Service ctx} {t : Tid} {d : Delivery} {e : String} {request : Request}
    (run : LosslessRun q) (serving : Serving q.shared)
    (busy : q.slot t = .busy request (call 0 (.conclude d (.error e))))
    (handling : q.shared.history.handling t = some ⟨0, d⟩)
    (unconcluded : q.shared.history.concluded t = false)
    (converts : convertible ctx d.copy.message.properties.headers = true) :
    ∃ q' : Service ctx, LosslessRun q' ∧ Serving q'.shared ∧
      q'.shared.server = tryAgain ctx d e q.shared.server := by
  obtain ⟨P, process, alive, channel⟩ := serving.process
  obtain ⟨x, connection, owner, isOpen, live, delivers⟩ := serving.connection
  have steady := steady_of_run run
  obtain ⟨mem, stored⟩ := steady.inHand.handled t ⟨0, d⟩ handling unconcluded
  have declared := steady.inHand.declared (.inl (List.ne_nil_of_mem mem))
  have own : d.channel = 0 := by
    unfold Stored at stored
    rw [process] at stored
    exact Option.some.inj (stored.symm.trans channel)
  have accepts : q.shared.server.accepts d.channel = true := by
    unfold Server.accepts
    rw [own, connection]
    exact isOpen
  have writable : q.shared.writable P.channel = true := by
    rw [channel]
    show (q.shared.server.connections 0).any (·.live) = true
    rw [connection]
    exact live
  have frames : q.shared.server.frames (conclude ctx P.channel (q.shared.writable P.channel)
      .none d (.error e)).frames 2 = tryAgain ctx d e q.shared.server := by
    rw [writable, channel, ← own]
    exact frames_requeue steady.numbered.distinct mem accepts declared rfl rfl (Nat.le_refl 2)
      converts
  obtain ⟨q', run', shared', _⟩ := run.advance busy (.concludes .none 2)
    ⟨rfl, rfl, Nat.le_refl 2, converts⟩ (exec_conclude process alive)
  have server : q'.shared.server = tryAgain ctx d e q.shared.server := by
    rw [shared', ← frames]
  refine ⟨q', run', ⟨⟨{ P with inFlight := P.inFlight - 1 }, ?_, alive, channel⟩,
    ⟨x, ?_, owner, isOpen, live, delivers⟩⟩, server⟩
  · rw [shared']
    exact Function.update_self (0 : ℕ) _ q.shared.processes
  · rw [server]
    exact connection

/-- **A message fails**: it cannot be read, or the database cannot be reached. -/
theorem fail_once {q : Service ctx} {t : Tid} {d : Delivery} (handed : Handed p q t d)
    (converts : convertible ctx d.copy.message.properties.headers = true) :
    ∃ (q' : Service ctx) (e : String), LosslessRun q' ∧ Serving q'.shared ∧
      q'.shared.server = tryAgain ctx d e q.shared.server := by
  have waits := handed.waits
  cases parsed : parseEvent ctx d.copy.message with
  | error e =>
      have task : handleDelivery 0 ctx d = call 0 (.conclude d (.error e)) := by
        unfold handleDelivery
        rw [parsed]
      rw [task] at waits
      obtain ⟨q', done⟩ := conclude_once handed.run handed.serving waits handed.handling
        handed.unconcluded converts
      exact ⟨q', e, done⟩
  | ok event =>
      have task : handleDelivery 0 ctx d = (processEvent 0 event).deadline
          (timeoutMessage ctx.config) fun outcome => call 0 (.conclude d outcome) := by
        unfold handleDelivery
        rw [parsed]
      obtain ⟨k, opens, thrown⟩ : ∃ k, processEvent 0 event =
          .await ⟨0, .query (.insert event.eventId event.eventType)⟩ k ∧
            k (.error "connection refused") = .thrown "connection refused" := ⟨_, rfl, rfl⟩
      rw [task, opens] at waits
      obtain ⟨P, process, alive, channel⟩ := handed.serving.process
      -- the handler is in time, and the `INSERT` fails
      obtain ⟨q₁, run₁, shared₁, slot₁⟩ := handed.run.pick waits true
      have busy₁ : q₁.slot t = .busy (.message 0) (.await
          ⟨0, .query (.insert event.eventId event.eventType)⟩ fun r =>
            (k r).deadline (timeoutMessage ctx.config) fun outcome =>
              call 0 (.conclude d outcome)) := by
        rw [slot₁, Function.update_self]
        rfl
      have failed : (machine ctx).exec t (.fails "connection refused")
          ⟨0, .query (.insert event.eventId event.eventType)⟩ q₁.shared =
          some (.error "connection refused", q₁.shared) := by
        rw [← shared₁] at process
        show (q₁.shared.processes 0).bind _ = _
        rw [process, Option.bind_some, if_pos alive]
        rfl
      obtain ⟨q₂, run₂, shared₂, slot₂⟩ := run₁.advance busy₁ (.fails "connection refused")
        trivial failed
      have same : q₂.shared = q.shared := shared₂.trans shared₁
      have busy₂ : q₂.slot t = .busy (.message 0)
          (call 0 (.conclude d (.error "connection refused"))) := by
        rw [slot₂, Function.update_self, thrown]
        rfl
      obtain ⟨q', run', serving', server⟩ := conclude_once run₂ (by rw [same]; exact handed.serving)
        busy₂ (by rw [same]; exact handed.handling) (by rw [same]; exact handed.unconcluded) converts
      exact ⟨q', _, run', serving', by rw [server, same]⟩

/-! ### Again and again -/

/-- A message that is tried again has headers that can be converted. -/
theorem convertible_of_retry {headers : Headers} (target : retryTarget ctx headers = .retry) :
    convertible ctx headers = true := by
  unfold convertible
  cases count : readRetryCount ctx headers with
  | ok n => simp [target, Except.isOk, Except.toBool]
  | error e =>
      unfold retryTarget retryCount at target
      rw [count] at target
      cases target

/-- Where numbers and texts can be made of everything, a header table can be converted. -/
theorem convertible_of_total {headers : Headers} (number : ∀ value, (ctx.number value).isOk = true)
    (label : (eventTypeLabel ctx headers).isOk = true) : convertible ctx headers = true := by
  have count : (readRetryCount ctx headers).isOk = true := by
    unfold readRetryCount
    split
    · rfl
    · rfl
    · rfl
    · exact number _
  rw [convertible, count, label, Bool.or_true, Bool.and_self]

/-- A process serves, one message is ready, and none is in the retry queue. -/
structure Waiting (p : Service ctx) (copy : Copy) : Prop where
  run : LosslessRun p
  serving : Serving p.shared
  ready : p.shared.server.ready .primary = [copy]
  retry : p.shared.server.ready .retry = []

/-- The copy among all that the broker has. -/
theorem Waiting.item {copy : Copy} (waiting : Waiting p copy) :
    item p.shared (.ready .primary, copy) ∈ items p.shared :=
  item_of_ready (by rw [waiting.ready]; exact List.mem_singleton_self copy)

theorem waiting_initially (ctx : WorkerContext) (m : Message) :
    ∃ p : Service ctx, Waiting p ⟨m, 0, m, 0⟩ := by
  obtain ⟨p, run, serving, next, declared, ready⟩ := serving_initially ctx
  have there : p.shared.server.topology.queue .primary = true := declared (.queue .primary)
  have published : p.shared.server.publish m = some
      { p.shared.server with
        ready := Function.update p.shared.server.ready .primary [⟨m, 0, m, 0⟩]
        nextSerial := 0 + 1 } := by
    unfold Server.publish Server.enqueue
    rw [if_pos there, if_pos there, ready, next]
    rfl
  have happens : State.event ctx (.publish m) p.shared = some _ := congrArg (Option.map _) published
  obtain ⟨q, run', shared, _⟩ := run.event (.publish m) trivial happens
  obtain ⟨process, x, connection, works⟩ := serving
  refine ⟨q, run', ⟨by rw [shared]; exact process, x, by rw [shared]; exact connection, works⟩, ?_,
    ?_⟩
  · rw [shared]
    exact Function.update_self Queue.primary _ p.shared.server.ready
  · rw [shared]
    exact (Function.update_of_ne (show Queue.retry ≠ .primary from nofun) [⟨m, 0, m, 0⟩]
      p.shared.server.ready).trans (ready .retry)

/-- The one message that there is fails, and comes into the queue that it is sent to. -/
theorem Waiting.fails {copy : Copy} (waiting : Waiting p copy)
    (converts : convertible ctx copy.message.properties.headers = true) :
    ∃ (q : Service ctx) (e : String), LosslessRun q ∧ Serving q.shared ∧
      q.shared.server.ready .primary = [] ∧
      q.shared.server.ready (retryTarget ctx copy.message.properties.headers) =
        p.shared.server.ready (retryTarget ctx copy.message.properties.headers) ++
          [failedCopy ctx copy e] := by
  obtain ⟨p₁, t, d, handed, rfl⟩ := deliver_once waiting.run waiting.serving waiting.ready
  obtain ⟨q, e, run, serving, server⟩ := fail_once handed converts
  have notPrimary : retryTarget ctx d.copy.message.properties.headers ≠ .primary := by
    unfold retryTarget
    split
    · nofun
    · nofun
  refine ⟨q, e, run, serving, ?_, ?_⟩
  · rw [server]
    show Function.update p₁.shared.server.ready _ _ _ = _
    rw [Function.update_of_ne notPrimary.symm, handed.ready, Function.update_self]
  · rw [server]
    show Function.update p₁.shared.server.ready _ _ _ = _
    rw [Function.update_self, handed.ready, Function.update_of_ne notPrimary]

/-- The copy that comes back from the retry queue. -/
def retried (ctx : WorkerContext) (copy : Copy) (e : String) : Copy :=
  { failedCopy ctx copy e with
    message := ctx.deadLettering.apply (failedMessage ctx copy.message e) }

/-- A message that is tried again. -/
theorem Waiting.returns {copy : Copy} (waiting : Waiting p copy)
    (target : retryTarget ctx copy.message.properties.headers = .retry) :
    ∃ (q : Service ctx) (e : String), Waiting q (retried ctx copy e) := by
  obtain ⟨p₁, e, run, serving, primary, retry⟩ := waiting.fails (convertible_of_retry target)
  rw [target, waiting.retry] at retry
  have declared := (steady_of_run run).inHand.declared (.inr (by rw [retry]; nofun))
  have bound : p₁.shared.server.topology.binding = true := declared .binding
  have there : p₁.shared.server.topology.queue .primary = true := declared (.queue .primary)
  have expired : p₁.shared.server.expire ctx.deadLettering 0 = some { p₁.shared.server with
      ready := Function.update (Function.update p₁.shared.server.ready .retry []) .primary
        [retried ctx copy e] } := by
    unfold Server.expire Server.route Server.enqueue
    rw [retry]
    simp only [bound, there, if_true, List.eraseIdx_zero,
      Function.update_of_ne (show Queue.primary ≠ .retry from nofun), primary]
    rfl
  have happens : State.event ctx (.expire 0) p₁.shared = some _ := congrArg (Option.map _) expired
  obtain ⟨q, run', shared, _⟩ := run.event (.expire 0) trivial happens
  obtain ⟨process, x, connection, works⟩ := serving
  refine ⟨q, e, run', ⟨by rw [shared]; exact process, x, by rw [shared]; exact connection, works⟩,
    ?_, ?_⟩
  · rw [shared]
    exact Function.update_self Queue.primary _
      (Function.update p₁.shared.server.ready .retry [])
  · rw [shared]
    exact (Function.update_of_ne (show Queue.retry ≠ .primary from nofun) [retried ctx copy e]
      (Function.update p₁.shared.server.ready .retry [])).trans
        (Function.update_self Queue.retry _ p₁.shared.server.ready)

/-- **A message may fail any number of times** as long as it is tried again. -/
theorem waiting_after (ctx : WorkerContext) (m : Message) (n : ℕ)
    (again : ∀ k < n, exhausted ctx m k = false) :
    ∃ (p : Service ctx) (copy : Copy), Waiting p copy ∧ copy.origin = m ∧ copy.failures = n := by
  induction n with
  | zero =>
      obtain ⟨p, waiting⟩ := waiting_initially ctx m
      exact ⟨p, _, waiting, rfl, rfl⟩
  | succ n ih =>
      obtain ⟨p, copy, waiting, rfl, rfl⟩ := ih fun k lt => again k (Nat.lt_succ_of_lt lt)
      have fits := (fits_of_run waiting.run).items _ waiting.item
      have target : retryTarget ctx copy.message.properties.headers = .retry := by
        have more : exhausted ctx copy.origin copy.failures = false := again _ (Nat.lt_succ_self _)
        exact fits.target.trans (if_neg (Bool.eq_false_iff.mp more))
      obtain ⟨q, e, returned⟩ := waiting.returns target
      exact ⟨q, retried ctx copy e, returned, rfl, rfl⟩

end Worker

end OrderPlatform
