import OrderPlatform.Worker.Deliveries

/-!
# Acks

A handler acknowledges its message on the channel that the module variable `channel` refers to when
the handler comes to its end.  When the connection has been lost and made again in the meantime,
that is another channel, on which the number of the delivery belongs to another message, or to none
(`foreign_ack`).

`acks_own_delivery` says that every ack names the delivery of its own handler as long as a new
channel is stored only when no handler of the process is in flight, and messages arrive only on the
channel that is stored.
-/

namespace OrderPlatform

namespace Worker

open Async (Tid Regime)
open Rabbit

variable {ctx : WorkerContext} {s s' : State} {t : Tid}

/-! ### What a handler writes at its end -/

theorem mem_write {live : Bool} {fault : Option String} {f g : Frame}
    (mem : f ∈ (Segment.write live fault g).frames) : f = g := by
  unfold Segment.write at mem
  split at mem
  · cases mem
  · cases mem
  · exact List.mem_singleton.mp mem

theorem mem_andThen {a b : Segment} {f : Frame} (mem : f ∈ (a.andThen b).frames) :
    f ∈ a.frames ∨ f ∈ b.frames := by
  unfold Segment.andThen at mem
  split at mem
  · exact List.mem_append.mp mem
  · exact .inl mem

theorem mem_rescue {a : Segment} {handler : String → Segment} {f : Frame}
    (mem : f ∈ (a.rescue handler).frames) :
    f ∈ a.frames ∨ ∃ e, a.error = some e ∧ f ∈ (handler e).frames := by
  unfold Segment.rescue at mem
  split at mem
  · exact .inl mem
  · rename_i e failed
    rcases List.mem_append.mp mem with first | second
    · exact .inl first
    · exact .inr ⟨e, failed, second⟩

theorem not_mem_evaluate {α : Type} (r : Except String α) {f : Frame} :
    f ∉ (Segment.evaluate r).frames := by
  cases r <;> exact List.not_mem_nil

@[simp] theorem nothing_andThen (a : Segment) : Segment.nothing.andThen a = a := rfl

@[simp] theorem andThen_nothing (a : Segment) : a.andThen .nothing = a := by
  obtain ⟨frames, error⟩ := a
  cases error with
  | none => exact congrArg (Segment.mk · none) (List.append_nil frames)
  | some e => rfl

theorem evaluate_of_isOk {α : Type} {r : Except String α} (ok : r.isOk = true) :
    Segment.evaluate r = .nothing := by
  cases r with
  | ok v => rfl
  | error e => cases ok

/-- The type of the event is not among the headers that the worker writes. -/
theorem eventTypeLabel_nextHeaders (headers : Headers) (e : String) :
    eventTypeLabel ctx (nextHeaders ctx headers e) = eventTypeLabel ctx headers := by
  have same : nextHeaders ctx headers e "x-event-type" = headers "x-event-type" :=
    (Function.update_of_ne (by decide) _ _).trans (Function.update_of_ne (by decide) _ _)
  unfold eventTypeLabel
  rw [same]

/-- What is sent again, and the ack behind it. -/
def resent (ctx : WorkerContext) (c : ℕ) (live : Bool) (faults : Faults) (d : Delivery)
    (e : String) : Segment :=
  (Segment.write live faults.send (.publish c (retryTarget ctx d.copy.message.properties.headers)
    (failedCopy ctx d.copy e))).andThen (.write live faults.settle (.ack c d.tag false))

/-- **`requeueOrDeadLetter`, where the headers can be converted**, writes two frames. -/
theorem requeueOrDeadLetter_of_convertible {c : ℕ} {live : Bool} {faults : Faults} {d : Delivery}
    {e : String} (converts : convertible ctx d.copy.message.properties.headers = true) :
    requeueOrDeadLetter ctx (some c) live faults d e = resent ctx c live faults d e := by
  obtain ⟨count, label⟩ := Bool.and_eq_true_iff.mp converts
  unfold requeueOrDeadLetter
  dsimp only
  rw [evaluate_of_isOk count, nothing_andThen]
  split
  · rename_i dead
    have label : (eventTypeLabel ctx d.copy.message.properties.headers).isOk = true := by
      simpa [dead] using label
    rw [dead, eventTypeLabel_nextHeaders, evaluate_of_isOk label, andThen_nothing, resent, dead]
  · rfl

/-- Where they cannot be converted, it throws, whatever it has written by then. -/
theorem requeueOrDeadLetter_of_not_convertible {c : ℕ} {live : Bool} {faults : Faults}
    {d : Delivery} {e : String}
    (fails : convertible ctx d.copy.message.properties.headers = false) :
    (requeueOrDeadLetter ctx (some c) live faults d e).error.isSome = true := by
  have throws : ∀ (a : Segment) (e : String), (a.andThen ⟨[], some e⟩).error.isSome = true := by
    rintro ⟨frames, error⟩ e
    cases error <;> rfl
  unfold requeueOrDeadLetter
  dsimp only
  cases count : readRetryCount ctx d.copy.message.properties.headers with
  | error e => rfl
  | ok n =>
      simp only [convertible, count, Except.isOk, Except.toBool, Bool.true_and, Bool.or_eq_false_iff,
        decide_eq_false_iff_not] at fails
      obtain ⟨target, label⟩ := fails
      have dead : retryTarget ctx d.copy.message.properties.headers = .deadLetter := by
        unfold retryTarget at target ⊢
        split
        · rfl
        · rename_i more
          exact absurd (if_neg more) target
      rw [if_pos dead, eventTypeLabel_nextHeaders]
      cases read : eventTypeLabel ctx d.copy.message.properties.headers with
      | error e => exact throws _ e
      | ok s =>
          rw [read] at label
          cases label

/-- The frames that a handler may write at its end. -/
inductive Concludes (ctx : WorkerContext) (c : ℕ) (d : Delivery) : Frame → Prop
  | ack (completes : Bool) : Concludes ctx c d (.ack c d.tag completes)
  | publish (e : String) :
      Concludes ctx c d (.publish c (retryTarget ctx d.copy.message.properties.headers)
        (failedCopy ctx d.copy e))

theorem Concludes.ack_inv {c c' tag : ℕ} {d : Delivery} {completes : Bool}
    (h : Concludes ctx c d (.ack c' tag completes)) : c' = c ∧ tag = d.tag := by
  cases h
  exact ⟨rfl, rfl⟩

theorem mem_requeueOrDeadLetter {channel : Option ℕ} {live : Bool} {faults : Faults}
    {d : Delivery} {e : String} {f : Frame}
    (mem : f ∈ (requeueOrDeadLetter ctx channel live faults d e).frames) :
    ∃ c, channel = some c ∧ Concludes ctx c d f := by
  unfold requeueOrDeadLetter at mem
  cases channel with
  | none => cases mem
  | some c =>
      refine ⟨c, rfl, ?_⟩
      have resent : ∀ {f}, f ∈ ((Segment.write live faults.send (.publish c
          (retryTarget ctx d.copy.message.properties.headers) (failedCopy ctx d.copy e))).andThen
            (.write live faults.settle (.ack c d.tag false))).frames → Concludes ctx c d f := by
        intro f mem
        rcases mem_andThen mem with first | second
        · rw [mem_write first]
          exact .publish e
        · rw [mem_write second]
          exact .ack false
      rcases mem_andThen mem with read | mem
      · exact absurd read (not_mem_evaluate _)
      · split at mem
        · rcases mem_andThen mem with mem | labelled
          · exact resent mem
          · exact absurd labelled (not_mem_evaluate _)
        · exact resent mem

/-- **What a handler writes** goes to the stored channel, and an ack carries the number of its own
delivery. -/
theorem mem_conclude {channel : Option ℕ} {live : Bool} {faults : Faults} {d : Delivery}
    {outcome : Except String ProcessingResult} {f : Frame}
    (mem : f ∈ (conclude ctx channel live faults d outcome).frames) :
    ∃ c, channel = some c ∧ Concludes ctx c d f := by
  unfold conclude at mem
  cases outcome with
  | error e => exact mem_requeueOrDeadLetter mem
  | ok result =>
      rcases mem_rescue mem with acked | ⟨e, _, failed⟩
      · unfold acknowledge at acked
        cases channel with
        | none => cases acked
        | some c =>
            rw [mem_write acked]
            exact ⟨c, rfl, .ack true⟩
      · exact mem_requeueOrDeadLetter failed

theorem mem_acksOf {fs : List Frame} {a : Acknowledgement} (mem : a ∈ acksOf t fs) :
    a.tid = t ∧ ∃ completes, Frame.ack a.channel a.tag completes ∈ fs := by
  obtain ⟨f, written, h⟩ := List.mem_filterMap.mp mem
  cases f with
  | publish c q copy => cases h
  | ack c tag completes =>
      cases h
      exact ⟨rfl, completes, written⟩

/-! ### The condition -/

/-- A new channel is stored only when no handler of the process is in flight, and messages arrive
only on the channel that is stored.  Connections may be lost while handlers are in flight: what is
excluded is that the variable `channel` refers to another channel before they have come to their
end. -/
def onOneChannel (ctx : WorkerContext) : Regime (machine ctx) where
  advance := fun _ choice o s =>
    match choice, o.call with
    | .succeeds, .createChannel _ =>
        ∀ u ∈ s.history.handlers, ∀ h ∈ s.history.handling u, h.process = o.process →
          s.history.concluded u = true
    | .delivers c _, .receive => ∀ c' ∈ (s.processes o.process).bind Process.channel, c' = c
    | _, _ => True
  event := fun _ _ => True
  crash := fun _ _ => True

/-- The variable `channel` of a process refers to this channel. -/
def Stored (s : State) (w c : ℕ) : Prop := (s.processes w).bind Process.channel = some c

theorem stored_setProcess {w w' c : ℕ} {p : Process} :
    Stored (s.setProcess w p) w' c ↔ (w' = w ∧ p.channel = some c) ∨ (w' ≠ w ∧ Stored s w' c) := by
  unfold Stored
  rw [show (s.setProcess w p).processes = Function.update s.processes w (some p) from rfl]
  by_cases equal : w' = w
  · subst equal
    rw [Function.update_self]
    exact ⟨fun stored => .inl ⟨rfl, stored⟩,
      Or.rec (fun stored => stored.2) fun stored => absurd rfl stored.1⟩
  · rw [Function.update_of_ne equal]
    exact ⟨fun stored => .inr ⟨equal, stored⟩,
      Or.rec (fun stored => absurd stored.1 equal) fun stored => stored.2⟩

theorem stored_of_setProcess {w w' c : ℕ} {p p' : Process} (process : s.processes w = some p)
    (stored : Stored (s.setProcess w p') w' c) (same : p'.channel = p.channel) :
    Stored s w' c := by
  rcases stored_setProcess.mp stored with ⟨rfl, channel⟩ | ⟨_, stored⟩
  · unfold Stored
    rw [process]
    exact same.symm.trans channel
  · exact stored

/-- Only the creation of a channel stores one. -/
theorem stored_of_perform {w w' c' : ℕ} {p : Process} {choice : Choice} {c : Call}
    {r : Except String c.Result} (process : s.processes w = some p)
    (h : perform ctx t w p choice c s = some (r, s')) (stored : Stored s' w' c') :
    Stored s w' c' ∨ (choice = .succeeds ∧ c = .createChannel c' ∧ w' = w) := by
  cases c with
  | receive =>
      obtain ⟨_, _, d, server, _, _, _, ⟨_, _, rfl⟩ | ⟨_, _, rfl⟩⟩ := perform_receive h
      · exact .inl stored
      · exact .inl (stored_of_setProcess process stored rfl)
  | query st =>
      obtain ⟨_, _, rfl⟩ | ⟨_, _, _, _, _, _, rfl⟩ := perform_query h
      · exact .inl stored
      · exact .inl stored
  | work event => cases perform_work h; exact .inl stored
  | conclude d outcome =>
      obtain ⟨faults, n, _, segment, _, _, rfl⟩ := perform_conclude h
      exact .inl (stored_of_setProcess process stored rfl)
  | enter =>
      obtain ⟨_, _, rfl⟩ := perform_enter h
      exact .inl (stored_of_setProcess process stored rfl)
  | connect =>
      obtain ⟨_, _, rfl⟩ | ⟨_, rfl⟩ := perform_connect h
      · exact .inl stored
      · exact .inl stored
  | createChannel c =>
      obtain ⟨_, _, rfl⟩ | ⟨chosen, _, _, rfl⟩ := perform_createChannel h
      · exact .inl stored
      · have stored : Stored (s.setProcess w { p with channel := some c }) w' c' := stored
        rcases stored_setProcess.mp stored with ⟨rfl, channel⟩ | ⟨_, stored⟩
        · cases channel
          exact .inr ⟨chosen, rfl, rfl⟩
        · exact .inl stored
  | declare c d =>
      obtain ⟨_, _, rfl⟩ | ⟨_, _, _, rfl⟩ := perform_declare h
      · exact .inl stored
      · exact .inl stored
  | prefetch c n => obtain ⟨rfl, _⟩ := perform_prefetch h; exact .inl stored
  | consume c =>
      obtain ⟨_, _, rfl⟩ | ⟨_, _, rfl⟩ := perform_consume h
      · exact .inl stored
      · exact .inl stored
  | sleep ms => obtain ⟨_, rfl⟩ := perform_sleep h; exact .inl stored

/-- Nothing that happens beside the calls stores a channel. -/
theorem stored_of_event {e : Event} {w c : ℕ} (h : State.event ctx e s = some s')
    (stored : Stored s' w c) : Stored s w c := by
  -- a process whose `channel` is `null` afterwards
  have cleared : ∀ {w' : ℕ} {p : Process} {s : State}, p.channel = none →
      Stored (s.setProcess w' p) w c → Stored s w c := by
    intro w' p s none stored
    rcases stored_setProcess.mp stored with ⟨_, channel⟩ | ⟨_, stored⟩
    · rw [none] at channel
      cases channel
    · exact stored
  cases e with
  | publish m => obtain ⟨_, _, rfl⟩ := Option.map_eq_some_iff.mp h; exact stored
  | expire i => obtain ⟨_, _, rfl⟩ := Option.map_eq_some_iff.mp h; exact stored
  | cut c => cases h; exact stored
  | requeue c => obtain ⟨_, _, rfl⟩ := Option.map_eq_some_iff.mp h; exact stored
  | closed c =>
      obtain ⟨x, _, h⟩ := Option.bind_eq_some_iff.mp h
      obtain ⟨p, _, h⟩ := Option.bind_eq_some_iff.mp h
      split at h
      · cases h
        exact cleared rfl stored
      · cases h
  | boot w' =>
      simp only [State.event] at h
      split at h
      · cases h
        exact cleared rfl stored
      · cases h
  | die w' =>
      obtain ⟨p, process, rfl⟩ := Option.map_eq_some_iff.mp h
      exact stored_of_setProcess process stored rfl
  | terminate w' =>
      obtain ⟨p, process, rfl⟩ := Option.map_eq_some_iff.mp h
      exact stored_of_setProcess process stored rfl

/-! ### The invariant -/

/-- A handler in flight has the channel of its delivery, or none, to acknowledge on. -/
structure OnOwnChannel (s : State) : Prop where
  handlers : ∀ t h, s.history.handling t = some h → t ∈ s.history.handlers
  channel : ∀ t h c, s.history.handling t = some h → s.history.concluded t = false →
    Stored s h.process c → c = h.delivery.channel
  acks : ∀ a ∈ s.history.acks, ∃ h, s.history.handling a.tid = some h ∧
    h.delivery.channel = a.channel ∧ h.delivery.tag = a.tag

namespace OnOwnChannel

theorem initial : OnOwnChannel .initial where
  handlers t h known := by
    change none = some h at known
    cases known
  channel t h c known := by
    change none = some h at known
    cases known
  acks _ mem := absurd mem List.not_mem_nil

/-- Nothing that concerns the handlers changes, and no channel is stored. -/
theorem same (inv : OnOwnChannel s)
    (history : s'.history.handling = s.history.handling ∧
      s'.history.handlers = s.history.handlers ∧
      s'.history.concluded = s.history.concluded ∧ s'.history.acks = s.history.acks)
    (stored : ∀ w c, Stored s' w c → Stored s w c) : OnOwnChannel s' := by
  obtain ⟨handling, handlers, concluded, acks⟩ := history
  refine ⟨?_, ?_, ?_⟩
  · rw [handling, handlers]
    exact inv.handlers
  · rw [handling, concluded]
    exact fun t h c known open' now => inv.channel t h c known open' (stored _ _ now)
  · rw [acks, handling]
    exact inv.acks

/-- A handler begins, on the channel that is stored. -/
theorem enter {w : ℕ} {d : Delivery} (inv : OnOwnChannel s)
    (unused : s.history.handling t = none)
    (stored : ∀ c, Stored s w c → c = d.channel)
    (handling : s'.history.handling = Function.update s.history.handling t (some ⟨w, d⟩))
    (handlers : s'.history.handlers = t :: s.history.handlers)
    (concluded : s'.history.concluded = s.history.concluded)
    (acks : s'.history.acks = s.history.acks)
    (kept : ∀ w c, Stored s' w c → Stored s w c) : OnOwnChannel s' := by
  refine ⟨?_, ?_, ?_⟩
  · intro u h known
    rw [handling] at known
    rw [handlers]
    by_cases self : u = t
    · subst self
      exact List.mem_cons_self
    · rw [Function.update_of_ne self] at known
      exact List.mem_cons_of_mem _ (inv.handlers u h known)
  · intro u h c known open' now
    rw [handling] at known
    rw [concluded] at open'
    by_cases self : u = t
    · subst self
      rw [Function.update_self] at known
      cases known
      exact stored c (kept w c now)
    · rw [Function.update_of_ne self] at known
      exact inv.channel u h c known open' (kept _ _ now)
  · intro a mem
    rw [acks] at mem
    obtain ⟨h, known, equal⟩ := inv.acks a mem
    have other : a.tid ≠ t := by
      rintro same
      rw [same, unused] at known
      cases known
    exact ⟨h, by rw [handling, Function.update_of_ne other]; exact known, equal⟩

/-- A handler comes to its end. -/
theorem conclude {w : ℕ} {p : Process} {d : Delivery} {outcome : Except String ProcessingResult}
    {choice : Choice} {r : Except String Unit} (inv : OnOwnChannel s)
    (before : Before ctx t ⟨w, .conclude d outcome⟩ s) (process : s.processes w = some p)
    (done : perform ctx t w p choice (.conclude d outcome) s = some (r, s')) :
    OnOwnChannel s' := by
  obtain ⟨handling, open', _⟩ := before
  have kept : ∀ w' c, Stored s' w' c → Stored s w' c := by
    intro w' c stored
    rcases stored_of_perform process done stored with before | ⟨_, impossible, _⟩
    · exact before
    · cases impossible
  obtain ⟨faults, n, _, segment, written, _, rfl⟩ := perform_conclude done
  refine ⟨inv.handlers, ?_, ?_⟩
  · intro u h c known still now
    by_cases self : u = t
    · have still : Function.update s.history.concluded t true u = false := still
      rw [self, Function.update_self] at still
      cases still
    · have still : Function.update s.history.concluded t true u = false := still
      rw [Function.update_of_ne self] at still
      exact inv.channel u h c known still (kept _ _ now)
  · intro a mem
    rcases List.mem_append.mp mem with new | old
    · obtain ⟨rfl, completes, frame⟩ := mem_acksOf new
      rw [written] at frame
      obtain ⟨c, channel, concludes⟩ := mem_conclude frame
      have stored : Stored s w c := by
        unfold Stored
        rw [process]
        exact channel
      refine ⟨⟨w, d⟩, handling, ?_⟩
      have own : c = d.channel := inv.channel a.tid ⟨w, d⟩ c handling open' stored
      obtain ⟨same, tag⟩ := concludes.ack_inv
      exact ⟨own.symm.trans same.symm, tag.symm⟩
    · exact inv.acks a old

end OnOwnChannel

/-- One call. -/
theorem OnOwnChannel.perform {w : ℕ} {p : Process} {choice : Choice} {c : Call}
    {r : Except String c.Result} (inv : OnOwnChannel s) (before : Before ctx t ⟨w, c⟩ s)
    (allowed : (onOneChannel ctx).advance t choice ⟨w, c⟩ s) (process : s.processes w = some p)
    (done : perform ctx t w p choice c s = some (r, s')) : OnOwnChannel s' := by
  by_cases creates : ∃ c', c = .createChannel c'
  · obtain ⟨c', rfl⟩ := creates
    obtain ⟨_, _, rfl⟩ | ⟨rfl, _, _, rfl⟩ := perform_createChannel done
    · exact inv
    · -- no handler of this process is in flight
      refine ⟨inv.handlers, ?_, inv.acks⟩
      intro u h c known open' stored
      rcases stored_of_perform process done stored with before | ⟨_, _, own⟩
      · exact inv.channel u h c known open' before
      · have none := allowed u (inv.handlers u h known) h known own
        rw [show s.history.concluded u = false from open'] at none
        cases none
  · have kept : ∀ w' c', Stored s' w' c' → Stored s w' c' := by
      intro w' c' stored
      rcases stored_of_perform process done stored with before | ⟨_, create, _⟩
      · exact before
      · exact absurd ⟨c', create⟩ creates
    by_cases aside : c.ofHandler = false
    · obtain ⟨_, history⟩ := perform_aside aside done
      exact inv.same (by rw [history]; exact ⟨rfl, rfl, rfl, rfl⟩) kept
    · cases c with
      | receive =>
          obtain ⟨c, i, d, server, rfl, _, delivered, ⟨_, _, rfl⟩ | ⟨_, _, rfl⟩⟩ :=
            perform_receive done
          · exact inv.same ⟨rfl, rfl, rfl, rfl⟩ kept
          · obtain ⟨_, _, _, _, _, rfl, _⟩ := Server.deliver_eq delivered
            exact inv.enter before.1 (fun c' stored => allowed c' stored) rfl rfl rfl rfl kept
      | query st =>
          obtain ⟨_, _, rfl⟩ | ⟨_, n, _, _, _, _, rfl⟩ := perform_query done
          · exact inv
          · exact inv.same (by rw [noteInsert_eq]; exact ⟨rfl, rfl, rfl, rfl⟩) kept
      | conclude d outcome => exact inv.conclude before process done
      | _ => exact absurd rfl aside

theorem OnOwnChannel.of_run {p : Service ctx}
    (run : Run (onOneChannel ctx) (Async.Pool.idle .initial) p) : OnOwnChannel p.shared := by
  refine invariant_of_run run .initial ?_ ?_
  · intro t w c choice p r s s' before allowed process done inv
    exact inv.perform before allowed process done
  · intro e s s' _ hevent inv
    obtain ⟨_, _, history⟩ := event_aside hevent
    exact inv.same (by rw [history]; exact ⟨rfl, rfl, rfl, rfl⟩) fun w c => stored_of_event hevent

/-- **An ack names the delivery of the handler that sends it**, and no other handler has a delivery
of that name, in every run in which a new channel is stored only when no handler of the process is
in flight and messages arrive only on the channel that is stored.

Two invariants meet.  In these runs an ack is sent on the channel of the delivery of its handler
(`OnOwnChannel`); and in every run the name of a delivery belongs to one handler (`Numbered`). -/
theorem acks_own_delivery {p : Service ctx}
    (run : Run (onOneChannel ctx) (Async.Pool.idle .initial) p) :
    ∀ a ∈ p.shared.history.acks, ∃ h, p.shared.history.handling a.tid = some h ∧
      h.delivery.channel = a.channel ∧ h.delivery.tag = a.tag ∧
      ∀ u h', p.shared.history.handling u = some h' →
        h'.delivery.channel = a.channel → h'.delivery.tag = a.tag → u = a.tid := by
  intro a mem
  obtain ⟨h, known, channel, tag⟩ := (OnOwnChannel.of_run run).acks a mem
  refine ⟨h, known, channel, tag, fun u h' known' channel' tag' => ?_⟩
  refine (Numbered.of_run run).single u a.tid h' h known' known ?_
  exact Prod.ext (channel'.trans channel.symm) (tag'.trans tag.symm)

instance decidableOnOneChannelAdvance (t : Tid) (choice : Choice) (o : Operation) (s : State) :
    Decidable ((onOneChannel ctx).advance t choice o s) := by
  unfold onOneChannel
  dsimp only
  split
  · infer_instance
  · infer_instance
  · infer_instance

instance decidableOnOneChannelEvent (e : Event) (s : State) :
    Decidable ((onOneChannel ctx).event e s) := .isTrue trivial

instance decidableOnOneChannelCrash (t : Tid) (s : State) :
    Decidable ((onOneChannel ctx).crash t s) := .isTrue trivial

/-- A message is processed and acknowledged, the connection is lost and made again, and the next
message is acknowledged on the new channel. -/
theorem acks_own_delivery_of_reconnect :
    ∃ p : Service (workerContext 3), Run (onOneChannel _) (Async.Pool.idle .initial) p ∧
      p.shared.history.acks = [⟨3, 1, 1⟩, ⟨1, 0, 1⟩] ∧
      ∃ h, p.shared.history.handling 3 = some h ∧ h.delivery.channel = 1 ∧ h.delivery.tag = 1 := by
  obtain ⟨p, run, acks⟩ := Async.Pool.steps_of_check
    (onOneChannel (workerContext 3)) (handler (workerContext 3)) (Async.Pool.idle .initial)
    (startMoves 3 0 0 ++ deliverMoves 3 emptyMessage 0 0 1 ++ [.advance 1 (.concludes .none 2)] ++
      lossMoves 3 0 0 2 ++ deliverMoves 3 emptyMessage 0 1 3 ++ [.advance 3 (.concludes .none 2)])
    (fun p => p.shared.history.acks = [⟨3, 1, 1⟩, ⟨1, 0, 1⟩]) (by decide +kernel)
  obtain ⟨h, known, channel, tag, _⟩ :=
    acks_own_delivery run ⟨3, 1, 1⟩ (by rw [acks]; exact List.mem_cons_self)
  exact ⟨p, run, acks, h, known, channel, tag⟩

/-- How the delivery of a handler is named. -/
def handled (p : Service ctx) (t : Tid) : Option (ℕ × ℕ) :=
  (p.shared.history.handling t).map fun h => name h.delivery

/-- **An ack names the delivery of another handler.**  A message is being processed when the
connection is lost; it is made again, and another message arrives.  The ack of the first message is
sent on the new channel, where its number is that of the other one: the other one is acknowledged
while it is still being handled. -/
theorem foreign_ack :
    ∃ p : Service (workerContext 3), Run (unrestricted _) (Async.Pool.idle .initial) p ∧
      ⟨1, 1, 1⟩ ∈ p.shared.history.acks ∧ handled p 1 = some (0, 1) ∧
      handled p 3 = some (1, 1) ∧ p.shared.history.concluded 3 = false ∧
      p.shared.server.unacked.any (Delivery.isNamed 1 1) = false := by
  obtain ⟨p, run, final⟩ := Async.Pool.steps_of_check
    (unrestricted (workerContext 3)) (handler (workerContext 3)) (Async.Pool.idle .initial)
    (startMoves 3 0 0 ++ deliverMoves 3 exampleMessage 0 0 1 ++
      [.pick 1 true, .advance 1 (.executes 0)] ++ lossMoves 3 0 0 2 ++
      deliverMoves 3 emptyMessage 0 1 3 ++
      [.pick 1 true, .advance 1 .succeeds, .pick 1 true, .advance 1 (.executes 1),
        .advance 1 (.concludes .none 1)])
    (fun p => ⟨1, 1, 1⟩ ∈ p.shared.history.acks ∧ handled p 1 = some (0, 1) ∧
      handled p 3 = some (1, 1) ∧ p.shared.history.concluded 3 = false ∧
      p.shared.server.unacked.any (Delivery.isNamed 1 1) = false) (by decide +kernel)
  exact ⟨p, run, final⟩

end Worker

end OrderPlatform
