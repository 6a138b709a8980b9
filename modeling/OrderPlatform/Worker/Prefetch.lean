import OrderPlatform.Worker.Acknowledgement

/-!
# Handlers and the prefetch

`inFlight` is the number of handlers of a process that have begun and not come to their end, in
every run (`inFlight_counts`).  The broker, on the other hand, counts the unacknowledged deliveries
of a channel.  The two are related as long as each handler that runs has its delivery unacknowledged
on the channel that the process uses; a handler that outlives its channel has not, and then a
process may work on more messages than the prefetch (`more_than_prefetch`).

The count of handlers needs no condition.  The bound does, twice: the broker has to keep the prefetch
(`limited`), which is its own promise, and no handler may outlive its channel (`onOneChannel`), which
the code does not see to.
-/

namespace OrderPlatform

namespace Worker

open Async (Tid Regime)
open Rabbit

variable {ctx : WorkerContext} {s s' : State} {t : Tid}

/-! ### The number of handlers -/

/-- Whether a call of `handleMessage` is a handler of this process, in flight. -/
def runs (s : State) (w : ℕ) (t : Tid) : Bool :=
  !s.history.concluded t && (s.history.handling t).any fun h => decide (h.process = w)

theorem runs_iff {w : ℕ} : runs s w t = true ↔
    s.history.concluded t = false ∧ ∃ h, s.history.handling t = some h ∧ h.process = w := by
  unfold runs
  rw [Bool.and_eq_true, Bool.not_eq_true', Option.any_eq_true]
  simp

/-- The number of handlers of a process in flight. -/
def running (s : State) (w : ℕ) : ℕ := s.history.handlers.countP (runs s w)

/-- `inFlight` is the number of handlers. -/
structure Counted (s : State) : Prop where
  listed : ∀ t, t ∈ s.history.handlers ↔ (s.history.handling t).isSome
  once : s.history.handlers.Nodup
  started : ∀ t h, s.history.handling t = some h → (s.processes h.process).isSome
  count : ∀ w p, s.processes w = some p → p.inFlight = running s w

/-- What concerns the handlers stays as it is. -/
theorem running_same (handling : s'.history.handling = s.history.handling)
    (handlers : s'.history.handlers = s.history.handlers)
    (concluded : s'.history.concluded = s.history.concluded) : running s' = running s := by
  unfold running runs
  rw [handling, handlers, concluded]

/-- A handler begins. -/
theorem running_begin {w : ℕ} {d : Delivery} (counted : Counted s)
    (unused : s.history.handling t = none) (unconcluded : s.history.concluded t = false)
    (handling : s'.history.handling = Function.update s.history.handling t (some ⟨w, d⟩))
    (handlers : s'.history.handlers = t :: s.history.handlers)
    (concluded : s'.history.concluded = s.history.concluded) (v : ℕ) :
    running s' v = running s v + if v = w then 1 else 0 := by
  have others : s.history.handlers.countP (runs s' v) = running s v := by
    refine List.countP_congr fun u mem => ?_
    have other : u ≠ t := by
      rintro rfl
      have some := (counted.listed u).mp mem
      rw [unused] at some
      cases some
    unfold runs
    rw [handling, concluded, Function.update_of_ne other]
  have new : runs s' v t = decide (v = w) := by
    unfold runs
    rw [handling, concluded, Function.update_self, unconcluded]
    simp [eq_comm]
  unfold running at others ⊢
  rw [handlers, List.countP_cons, others, new]
  simp

/-- A handler comes to its end. -/
theorem running_end {w : ℕ} {d : Delivery} (counted : Counted s)
    (known : s.history.handling t = some ⟨w, d⟩) (unconcluded : s.history.concluded t = false)
    (handling : s'.history.handling = s.history.handling)
    (handlers : s'.history.handlers = s.history.handlers)
    (concluded : s'.history.concluded = Function.update s.history.concluded t true) (v : ℕ) :
    running s v = running s' v + if v = w then 1 else 0 := by
  have mem : t ∈ s.history.handlers := (counted.listed t).mpr (by rw [known]; rfl)
  have parts := List.perm_cons_erase mem
  have others : (s.history.handlers.erase t).countP (runs s' v) =
      (s.history.handlers.erase t).countP (runs s v) := by
    refine List.countP_congr fun u mem => ?_
    have other : u ≠ t := fun same => counted.once.not_mem_erase (same ▸ mem)
    unfold runs
    rw [handling, concluded, Function.update_of_ne other]
  have before : runs s v t = decide (v = w) := by
    unfold runs
    rw [known, unconcluded]
    simp [eq_comm]
  have after : runs s' v t = false := by
    unfold runs
    rw [concluded, Function.update_self]
    rfl
  unfold running
  rw [handlers, parts.countP_eq, parts.countP_eq, List.countP_cons, List.countP_cons, others,
    before, after]
  simp

namespace Counted

theorem initial : Counted .initial where
  listed t := ⟨fun mem => absurd mem List.not_mem_nil, fun some => by cases some⟩
  once := List.nodup_nil
  started t h known := by cases known
  count w p known := by cases known

/-- Nothing changes that matters. -/
theorem keep (inv : Counted s) (handling : s'.history.handling = s.history.handling)
    (handlers : s'.history.handlers = s.history.handlers)
    (concluded : s'.history.concluded = s.history.concluded)
    (processes : ∀ w, (s'.processes w).map Process.inFlight =
      (s.processes w).map Process.inFlight) : Counted s' := by
  refine ⟨?_, ?_, fun t h known => ?_, fun w p known => ?_⟩
  · rw [handling, handlers]
    exact inv.listed
  · rw [handlers]
    exact inv.once
  · rw [handling] at known
    have same := congrArg Option.isSome (processes h.process)
    rw [Option.isSome_map, Option.isSome_map] at same
    exact same.trans (inv.started t h known)
  · have same := processes w
    rw [known] at same
    obtain ⟨q, known', equal⟩ := Option.map_eq_some_iff.mp same.symm
    rw [running_same handling handlers concluded, ← inv.count w q known', equal]

/-- A process changes, but for `inFlight`. -/
theorem setProcess {w : ℕ} {p p' : Process} (process : s.processes w = some p)
    (processes : s'.processes = Function.update s.processes w (some p'))
    (inFlight : p'.inFlight = p.inFlight) (v : ℕ) :
    (s'.processes v).map Process.inFlight = (s.processes v).map Process.inFlight := by
  rw [processes]
  by_cases same : v = w
  · subst same
    rw [Function.update_self, process]
    exact congrArg some inFlight
  · rw [Function.update_of_ne same]

/-- A handler begins. -/
theorem begun {w : ℕ} {p : Process} {d : Delivery} (inv : Counted s)
    (unused : s.history.handling t = none) (unconcluded : s.history.concluded t = false)
    (process : s.processes w = some p)
    (processes : s'.processes =
      Function.update s.processes w (some { p with inFlight := p.inFlight + 1 }))
    (handling : s'.history.handling = Function.update s.history.handling t (some ⟨w, d⟩))
    (handlers : s'.history.handlers = t :: s.history.handlers)
    (concluded : s'.history.concluded = s.history.concluded) : Counted s' := by
  have counts := running_begin inv unused unconcluded handling handlers concluded
  refine ⟨fun u => ?_, ?_, fun u h known => ?_, fun v q known => ?_⟩
  · rw [handlers, handling, List.mem_cons, inv.listed]
    by_cases self : u = t
    · subst self
      rw [Function.update_self]
      exact ⟨fun _ => rfl, fun _ => .inl rfl⟩
    · rw [Function.update_of_ne self]
      exact ⟨fun h => h.resolve_left self, .inr⟩
  · rw [handlers]
    refine List.nodup_cons.mpr ⟨fun mem => ?_, inv.once⟩
    have some := (inv.listed t).mp mem
    rw [unused] at some
    cases some
  · rw [handling] at known
    rw [processes]
    by_cases same : h.process = w
    · rw [same, Function.update_self]
      rfl
    · rw [Function.update_of_ne same]
      by_cases self : u = t
      · rw [self, Function.update_self] at known
        cases known
        exact absurd rfl same
      · rw [Function.update_of_ne self] at known
        exact inv.started u h known
  · rw [processes] at known
    rw [counts]
    by_cases same : v = w
    · subst same
      rw [Function.update_self] at known
      cases known
      rw [if_pos rfl]
      push_cast
      rw [← inv.count v p process]
    · rw [Function.update_of_ne same] at known
      rw [if_neg same]
      exact inv.count v q known

/-- A handler comes to its end. -/
theorem ended {w : ℕ} {p : Process} {d : Delivery} (inv : Counted s)
    (here : s.history.handling t = some ⟨w, d⟩) (unconcluded : s.history.concluded t = false)
    (process : s.processes w = some p)
    (processes : s'.processes =
      Function.update s.processes w (some { p with inFlight := p.inFlight - 1 }))
    (handling : s'.history.handling = s.history.handling)
    (handlers : s'.history.handlers = s.history.handlers)
    (concluded : s'.history.concluded = Function.update s.history.concluded t true) :
    Counted s' := by
  have counts := running_end inv here unconcluded handling handlers concluded
  refine ⟨?_, ?_, fun u h known => ?_, fun v q known => ?_⟩
  · rw [handlers, handling]
    exact inv.listed
  · rw [handlers]
    exact inv.once
  · rw [handling] at known
    rw [processes]
    by_cases same : h.process = w
    · rw [same, Function.update_self]
      rfl
    · rw [Function.update_of_ne same]
      exact inv.started u h known
  · rw [processes] at known
    have before := counts v
    by_cases same : v = w
    · subst same
      rw [Function.update_self] at known
      cases known
      have count := inv.count v p process
      rw [before, if_pos rfl] at count
      push_cast at count
      show p.inFlight - 1 = _
      omega
    · rw [Function.update_of_ne same] at known
      rw [if_neg same, Nat.add_zero] at before
      rw [← before]
      exact inv.count v q known

/-- **One call.** -/
theorem perform {w : ℕ} {p : Process} {choice : Choice} {c : Call} {r : Except String c.Result}
    (inv : Counted s) (before : Before ctx t ⟨w, c⟩ s) (process : s.processes w = some p)
    (done : Worker.perform ctx t w p choice c s = some (r, s')) : Counted s' := by
  cases c with
  | receive =>
      obtain ⟨_, _, _, _, _, _, _, ⟨_, _, rfl⟩ | ⟨_, _, rfl⟩⟩ := perform_receive done
      · exact inv.keep rfl rfl rfl fun _ => rfl
      · exact inv.begun before.1 before.2 process rfl rfl rfl rfl
  | query st =>
      obtain ⟨_, _, rfl⟩ | ⟨_, _, _, _, _, _, rfl⟩ := perform_query done
      · exact inv
      · rw [noteInsert_eq]
        exact inv.keep rfl rfl rfl fun _ => rfl
  | work event => cases perform_work done; exact inv
  | conclude d outcome =>
      obtain ⟨_, _, _, _, _, _, rfl⟩ := perform_conclude done
      exact inv.ended before.1 before.2.1 process rfl rfl rfl rfl
  | enter =>
      obtain ⟨_, _, rfl⟩ := perform_enter done
      exact inv.keep rfl rfl rfl (setProcess process rfl rfl)
  | connect =>
      obtain ⟨_, _, rfl⟩ | ⟨_, rfl⟩ := perform_connect done
      · exact inv
      · exact inv.keep rfl rfl rfl fun _ => rfl
  | createChannel c' =>
      obtain ⟨_, _, rfl⟩ | ⟨_, _, _, rfl⟩ := perform_createChannel done
      · exact inv
      · exact inv.keep rfl rfl rfl (setProcess process rfl rfl)
  | declare c' d =>
      obtain ⟨_, _, rfl⟩ | ⟨_, _, _, rfl⟩ := perform_declare done
      · exact inv
      · exact inv.keep rfl rfl rfl fun _ => rfl
  | prefetch c' n => obtain ⟨rfl, _⟩ := perform_prefetch done; exact inv
  | consume c' =>
      obtain ⟨_, _, rfl⟩ | ⟨_, _, rfl⟩ := perform_consume done
      · exact inv
      · exact inv.keep rfl rfl rfl fun _ => rfl
  | sleep ms => obtain ⟨_, rfl⟩ := perform_sleep done; exact inv

theorem event {e : Event} (inv : Counted s) (h : State.event ctx e s = some s') : Counted s' := by
  cases e with
  | publish m =>
      obtain ⟨_, _, rfl⟩ := Option.map_eq_some_iff.mp h
      exact inv.keep rfl rfl rfl fun _ => rfl
  | expire i =>
      obtain ⟨_, _, rfl⟩ := Option.map_eq_some_iff.mp h
      exact inv.keep rfl rfl rfl fun _ => rfl
  | cut c => cases h; exact inv.keep rfl rfl rfl fun _ => rfl
  | requeue c =>
      obtain ⟨_, _, rfl⟩ := Option.map_eq_some_iff.mp h
      exact inv.keep rfl rfl rfl fun _ => rfl
  | closed c =>
      obtain ⟨x, _, h⟩ := Option.bind_eq_some_iff.mp h
      obtain ⟨p, process, h⟩ := Option.bind_eq_some_iff.mp h
      split at h
      · cases h
        exact inv.keep rfl rfl rfl (setProcess process rfl rfl)
      · cases h
  | boot w =>
      simp only [State.event] at h
      split at h
      · rename_i absent
        cases h
        -- nothing has run in a process that had not been started
        have quiet : running s w = 0 := by
          refine List.countP_eq_zero.mpr fun u _ running => ?_
          obtain ⟨_, h, known, rfl⟩ := runs_iff.mp running
          have started := inv.started u h known
          rw [absent] at started
          cases started
        refine ⟨inv.listed, inv.once, fun u h known => ?_, fun v q known => ?_⟩
        · show (Function.update s.processes w _ h.process).isSome = true
          by_cases same : h.process = w
          · rw [same, Function.update_self]
            rfl
          · rw [Function.update_of_ne same]
            exact inv.started u h known
        · have known : Function.update s.processes w (some .started) v = some q := known
          by_cases same : v = w
          · subst same
            rw [Function.update_self] at known
            cases known
            show (0 : ℤ) = (running s v : ℤ)
            rw [quiet]
            rfl
          · rw [Function.update_of_ne same] at known
            exact inv.count v q known
      · cases h
  | die w =>
      obtain ⟨p, process, rfl⟩ := Option.map_eq_some_iff.mp h
      exact inv.keep rfl rfl rfl (setProcess process rfl rfl)
  | terminate w =>
      obtain ⟨p, process, rfl⟩ := Option.map_eq_some_iff.mp h
      exact inv.keep rfl rfl rfl (setProcess process rfl rfl)

theorem of_run {R : Regime (machine ctx)} {p : Service ctx}
    (run : Run R (Async.Pool.idle .initial) p) : Counted p.shared :=
  invariant_of_run run initial
    (fun _ _ _ _ _ _ _ _ before _ process done inv => inv.perform before process done)
    fun _ _ _ _ hevent inv => inv.event hevent

end Counted

/-! ### Deliveries that are not acknowledged -/

/-- The unacknowledged deliveries on a channel. -/
def outstanding (c : ℕ) (server : Server) : List Delivery :=
  server.unacked.filter fun d => decide (d.channel = c)

/-- The broker keeps the prefetch: it delivers on a channel only while fewer messages than that are
unacknowledged there. -/
def limited (ctx : WorkerContext) : Regime (machine ctx) where
  advance := fun _ choice _ s =>
    match choice with
    | .delivers c _ => (outstanding c s.server).length < ctx.config.prefetch
    | _ => True
  event := fun _ _ => True
  crash := fun _ _ => True

/-- The broker keeps the prefetch, a new channel is stored only when no handler of the process is in
flight, and messages arrive only on the channel that is stored. -/
def limitedOnOneChannel (ctx : WorkerContext) : Regime (machine ctx) where
  advance := fun t choice o s =>
    (limited ctx).advance t choice o s ∧ (onOneChannel ctx).advance t choice o s
  event := fun _ _ => True
  crash := fun _ _ => True

/-- No channel is opened, and on those that stay open nothing is acknowledged but what is named. -/
structure Leaves (named : Delivery → Prop) (s s' : Server) : Prop where
  accepts : ∀ c, s'.accepts c = true → s.accepts c = true
  unacked : ∀ d ∈ s.unacked, s'.accepts d.channel = true → named d ∨ d ∈ s'.unacked

namespace Leaves

variable {named : Delivery → Prop} {a b c : Server}

theorem refl (s : Server) : Leaves named s s := ⟨fun _ open' => open', fun _ mem _ => .inr mem⟩

theorem trans (h : Leaves named a b) (h' : Leaves named b c) : Leaves named a c := by
  refine ⟨fun n open' => h.accepts n (h'.accepts n open'), fun d mem open' => ?_⟩
  rcases h.unacked d mem (h'.accepts _ open') with same | mem
  · exact .inl same
  · exact h'.unacked d mem open'

theorem of_same (connections : b.connections = a.connections) (unacked : b.unacked = a.unacked) :
    Leaves named a b := by
  refine ⟨fun n open' => ?_, fun d mem _ => .inr (by rw [unacked]; exact mem)⟩
  unfold Server.accepts at open' ⊢
  rw [connections] at open'
  exact open'

/-- What is known of a connection changes, and it is not opened. -/
theorem updateConnection {n : ℕ} {f : Connection → Connection} (s : Server)
    (closes : ∀ x, (f x).isOpen = true → x.isOpen = true) :
    Leaves named s (s.updateConnection n f) := by
  refine ⟨fun m open' => ?_, fun d mem _ => .inr mem⟩
  have open' : (Function.update s.connections n ((s.connections n).map f) m).any (·.isOpen) =
    true := open'
  unfold Server.accepts
  by_cases same : m = n
  · subst same
    rw [Function.update_self] at open'
    cases known : s.connections m with
    | none =>
        rw [known] at open'
        cases open'
    | some x =>
        rw [known] at open'
        exact closes x open'
  · rw [Function.update_of_ne same] at open'
    exact open'

theorem cut (s : Server) (n : ℕ) : Leaves named s (s.cut n) := updateConnection s fun _ => nofun

theorem enqueue (s : Server) (q : Queue) (copy : Copy) : Leaves named s (s.enqueue q copy) := by
  unfold Server.enqueue
  split
  · exact of_same rfl rfl
  · exact refl s

theorem acknowledge {n tag : ℕ} {completes : Bool} (s : Server)
    (own : ∀ d : Delivery, d.isNamed n tag = true → named d) :
    Leaves named s (s.acknowledge n tag completes) := by
  unfold Server.acknowledge
  split
  · refine ⟨fun _ open' => open', fun d mem _ => ?_⟩
    by_cases same : d.isNamed n tag = true
    · exact .inl (own d same)
    · exact .inr (List.mem_filter.mpr ⟨mem, by simpa using same⟩)
  · exact cut s n

theorem deliver {n i : ℕ} {d : Delivery} {s s' : Server} (h : s.deliver n i = some (d, s')) :
    Leaves named s s' := by
  obtain ⟨x, copy, _, _, _, rfl, rfl⟩ := Server.deliver_eq h
  have counted : Leaves named s (s.updateConnection n fun x =>
    { x with nextTag := x.nextTag + 1 }) := updateConnection s fun _ open' => open'
  refine ⟨fun m open' => counted.accepts m open', fun d mem open' => ?_⟩
  exact (counted.unacked d mem open').imp id (List.mem_cons_of_mem _)

theorem route (s : Server) (copy : Copy) : Leaves named s (s.route copy) := by
  unfold Server.route
  split
  · exact enqueue s .primary copy
  · exact refl s

theorem requeue {n : ℕ} {s s' : Server} (h : s.requeue n = some s') : Leaves named s s' := by
  obtain ⟨gone, rfl⟩ := Server.requeue_eq h
  refine ⟨fun m open' => open', fun d mem open' => .inr (List.mem_filter.mpr ⟨mem, ?_⟩)⟩
  -- nothing is put back from a channel that is open
  have other : d.channel ≠ n := by
    rintro rfl
    have open' : s.accepts d.channel = true := open'
    rw [gone] at open'
    cases open'
  simpa using other

theorem frames {fs : List Frame} (s : Server) (n : ℕ)
    (own : ∀ c tag completes, Frame.ack c tag completes ∈ fs →
      ∀ d : Delivery, d.isNamed c tag = true → named d) : Leaves named s (s.frames fs n) := by
  refine Server.frames_induction n fs (refl s) (fun s' f mem here => here.trans ?_)
    fun s' c here => here.trans (cut s' c)
  unfold Server.frame
  split
  · cases f with
    | publish c q copy => exact enqueue s' q copy
    | ack c tag completes => exact acknowledge s' (own c tag completes mem)
  · exact refl s'

end Leaves

/-- A handler in flight whose channel is open has an unacknowledged delivery. -/
def Outstanding (s : State) : Prop :=
  ∀ t h, s.history.handling t = some h → s.history.concluded t = false →
    s.server.accepts h.delivery.channel = true → h.delivery ∈ s.server.unacked

namespace Outstanding

/-- Whatever leaves the deliveries alone. -/
theorem keep (inv : Outstanding s) (step : Leaves (fun _ => False) s.server s'.server)
    (handling : s'.history.handling = s.history.handling)
    (concluded : s'.history.concluded = s.history.concluded) : Outstanding s' := by
  intro t h known unconcluded open'
  rw [handling] at known
  rw [concluded] at unconcluded
  have mem := inv t h known unconcluded (step.accepts _ open')
  exact (step.unacked _ mem open').resolve_left id

/-- A handler begins. -/
theorem begun {w c i : ℕ} {d : Delivery} (inv : Outstanding s)
    (delivered : s.server.deliver c i = some (d, s'.server))
    (handling : s'.history.handling = Function.update s.history.handling t (some ⟨w, d⟩))
    (concluded : s'.history.concluded = s.history.concluded) : Outstanding s' := by
  have step : Leaves (fun _ => False) s.server s'.server := .deliver delivered
  intro u h known unconcluded open'
  rw [handling] at known
  rw [concluded] at unconcluded
  by_cases self : u = t
  · subst self
    rw [Function.update_self] at known
    cases known
    obtain ⟨_, _, _, _, _, _, same⟩ := Server.deliver_eq delivered
    rw [same]
    exact List.mem_cons_self
  · rw [Function.update_of_ne self] at known
    have mem := inv u h known unconcluded (step.accepts _ open')
    exact (step.unacked _ mem open').resolve_left id

/-- A handler comes to its end, and acknowledges no other's delivery. -/
theorem ended {fs : List Frame} {n w : ℕ} {d : Delivery} (inv : Outstanding s)
    (numbered : Numbered s) (here : s.history.handling t = some ⟨w, d⟩)
    (own : ∀ c tag completes, Frame.ack c tag completes ∈ fs → c = d.channel ∧ tag = d.tag)
    (server : s'.server = s.server.frames fs n)
    (handling : s'.history.handling = s.history.handling)
    (concluded : s'.history.concluded = Function.update s.history.concluded t true) :
    Outstanding s' := by
  have step : Leaves (fun e => name e = name d) s.server s'.server := by
    rw [server]
    refine Leaves.frames s.server n fun c tag completes mem e same => ?_
    obtain ⟨rfl, rfl⟩ := own c tag completes mem
    obtain ⟨channel, tag⟩ := of_decide_eq_true same
    exact Prod.ext channel tag
  intro u h known unconcluded open'
  rw [handling] at known
  rw [concluded] at unconcluded
  have other : u ≠ t := by
    rintro rfl
    rw [Function.update_self] at unconcluded
    cases unconcluded
  rw [Function.update_of_ne other] at unconcluded
  have mem := inv u h known unconcluded (step.accepts _ open')
  refine (step.unacked _ mem open').resolve_left fun same => other ?_
  exact numbered.single u t h ⟨w, d⟩ known here same

/-- **One call.** -/
theorem perform {w : ℕ} {p : Process} {choice : Choice} {c : Call} {r : Except String c.Result}
    (inv : Outstanding s) (numbered : Numbered s) (own : OnOwnChannel s)
    (before : Before ctx t ⟨w, c⟩ s) (process : s.processes w = some p)
    (done : Worker.perform ctx t w p choice c s = some (r, s')) : Outstanding s' := by
  cases c with
  | receive =>
      obtain ⟨_, _, _, _, _, _, delivered, ⟨_, _, rfl⟩ | ⟨_, _, rfl⟩⟩ := perform_receive done
      · exact inv.keep (.deliver delivered) rfl rfl
      · exact inv.begun delivered rfl rfl
  | query st =>
      obtain ⟨_, _, rfl⟩ | ⟨_, _, _, _, _, _, rfl⟩ := perform_query done
      · exact inv
      · rw [noteInsert_eq]
        exact inv.keep (.refl _) rfl rfl
  | work event => cases perform_work done; exact inv
  | conclude d outcome =>
      obtain ⟨_, n, _, segment, written, _, rfl⟩ := perform_conclude done
      refine inv.ended (n := n) numbered before.1 (fun c tag completes mem => ?_) rfl rfl rfl
      rw [written] at mem
      obtain ⟨c', channel, concludes⟩ := mem_conclude mem
      obtain ⟨rfl, rfl⟩ := concludes.ack_inv
      refine ⟨own.channel t _ c before.1 before.2.1 ?_, rfl⟩
      unfold Stored
      rw [process]
      exact channel
  | enter => obtain ⟨_, _, rfl⟩ := perform_enter done; exact inv.keep (.refl _) rfl rfl
  | connect =>
      obtain ⟨_, _, rfl⟩ | ⟨_, rfl⟩ := perform_connect done
      · exact inv
      -- nothing has been delivered on a connection that is new
      · intro u h known unconcluded open'
        obtain ⟨x, connection, _⟩ := numbered.handled u h known
        have old : h.delivery.channel ≠ s.server.nextConnection := by
          intro new
          rw [new, numbered.fresh _ (Nat.le_refl _)] at connection
          cases connection
        have open' : (Function.update s.server.connections s.server.nextConnection _
          h.delivery.channel).any (·.isOpen) = true := open'
        rw [Function.update_of_ne old] at open'
        exact inv u h known unconcluded open'
  | createChannel c' =>
      obtain ⟨_, _, rfl⟩ | ⟨_, _, _, rfl⟩ := perform_createChannel done
      · exact inv
      · exact inv.keep (.updateConnection s.server fun _ open' => open') rfl rfl
  | declare c' d =>
      obtain ⟨_, _, rfl⟩ | ⟨_, _, _, rfl⟩ := perform_declare done
      · exact inv
      · exact inv.keep (.of_same rfl rfl) rfl rfl
  | prefetch c' n => obtain ⟨rfl, _⟩ := perform_prefetch done; exact inv
  | consume c' =>
      obtain ⟨_, _, rfl⟩ | ⟨_, _, rfl⟩ := perform_consume done
      · exact inv
      · exact inv.keep (.updateConnection s.server fun _ open' => open') rfl rfl
  | sleep ms => obtain ⟨_, rfl⟩ := perform_sleep done; exact inv

theorem event {e : Event} (inv : Outstanding s) (h : State.event ctx e s = some s') :
    Outstanding s' := by
  cases e with
  | publish m =>
      obtain ⟨server, published, rfl⟩ := Option.map_eq_some_iff.mp h
      refine inv.keep ?_ rfl rfl
      unfold Server.publish at published
      split at published
      · cases published
        exact (Leaves.enqueue s.server .primary _).trans (.of_same rfl rfl)
      · cases published
  | expire i =>
      obtain ⟨server, expired, rfl⟩ := Option.map_eq_some_iff.mp h
      obtain ⟨copy, _, rfl⟩ := Server.expire_eq expired
      have taken : Leaves (fun _ => False) s.server { s.server with
          ready := Function.update s.server.ready .retry ((s.server.ready .retry).eraseIdx i) } :=
        .of_same rfl rfl
      exact inv.keep (taken.trans (.route _ _)) rfl rfl
  | cut c => cases h; exact inv.keep (.cut s.server c) rfl rfl
  | requeue c =>
      obtain ⟨server, back, rfl⟩ := Option.map_eq_some_iff.mp h
      exact inv.keep (.requeue back) rfl rfl
  | closed c =>
      obtain ⟨x, _, h⟩ := Option.bind_eq_some_iff.mp h
      obtain ⟨p, _, h⟩ := Option.bind_eq_some_iff.mp h
      split at h
      · cases h
        exact inv.keep (.updateConnection s.server nofun) rfl rfl
      · cases h
  | boot w =>
      simp only [State.event] at h
      split at h
      · cases h
        exact inv.keep (.refl _) rfl rfl
      · cases h
  | die w =>
      obtain ⟨p, _, rfl⟩ := Option.map_eq_some_iff.mp h
      -- the connections of the process are closed, and no other one is opened
      refine inv.keep ⟨fun c open' => ?_, fun d mem _ => .inr mem⟩ rfl rfl
      unfold Server.accepts at open' ⊢
      dsimp only at open'
      cases known : s.server.connections c with
      | none =>
          rw [known] at open'
          cases open'
      | some x =>
          rw [known] at open'
          have open' : (if x.owner = w then
            { x with isOpen := false, live := false, consumers := 0 } else x).isOpen = true := open'
          split at open'
          · cases open'
          · exact open'
  | terminate w =>
      obtain ⟨p, _, rfl⟩ := Option.map_eq_some_iff.mp h
      exact inv.keep (.refl _) rfl rfl

end Outstanding

/-! ### The prefetch -/

/-- The handlers of a process have different deliveries on the channel that it uses. -/
theorem running_le {w c : ℕ} (numbered : Numbered s) (counted : Counted s) (own : OnOwnChannel s)
    (outstanding' : Outstanding s) (stored : Stored s w c) (open' : s.server.accepts c = true) :
    running s w ≤ (outstanding c s.server).length := by
  have here : ∀ t h, s.history.handling t = some h → s.history.concluded t = false →
      h.process = w → h.delivery ∈ outstanding c s.server := by
    rintro t h known unconcluded rfl
    obtain rfl := own.channel t h c known unconcluded stored
    exact List.mem_filter.mpr ⟨outstanding' t h known unconcluded open', by simp⟩
  have names : ((s.history.handlers.filter (runs s w)).map fun t =>
      (s.history.handling t).map fun h => name h.delivery).Subperm
      (((outstanding c s.server).map name).map some) := by
    refine List.Nodup.subperm (List.Nodup.map_on ?_ (List.Nodup.filter _ ?_)) ?_
    · intro t mem u mem' same
      obtain ⟨_, h, known, _⟩ := runs_iff.mp (List.mem_filter.mp mem).2
      obtain ⟨_, h', known', _⟩ := runs_iff.mp (List.mem_filter.mp mem').2
      rw [known, known'] at same
      exact numbered.single t u h h' known known' (Option.some.inj same)
    · exact counted.once
    · intro x mem
      obtain ⟨t, listed, rfl⟩ := List.mem_map.mp mem
      obtain ⟨unconcluded, h, known, process⟩ := runs_iff.mp (List.mem_filter.mp listed).2
      rw [known]
      exact List.mem_map_of_mem (List.mem_map_of_mem (here t h known unconcluded process))
  have le := names.length_le
  rw [List.length_map, List.length_map, List.length_map, ← List.countP_eq_length_filter] at le
  exact le

/-- What holds in a run that keeps to one channel, with a broker that keeps the prefetch. -/
structure WithinPrefetch (ctx : WorkerContext) (s : State) : Prop where
  numbered : Numbered s
  counted : Counted s
  own : OnOwnChannel s
  outstanding : Outstanding s
  bound : ∀ w, running s w ≤ ctx.config.prefetch

namespace WithinPrefetch

theorem initial : WithinPrefetch ctx .initial :=
  ⟨.initial, .initial, .initial, fun t h known => (by cases known), fun w => Nat.zero_le _⟩

theorem perform {w : ℕ} {p : Process} {choice : Choice} {c : Call} {r : Except String c.Result}
    (inv : WithinPrefetch ctx s) (before : Before ctx t ⟨w, c⟩ s)
    (allowed : (limitedOnOneChannel ctx).advance t choice ⟨w, c⟩ s)
    (process : s.processes w = some p)
    (done : Worker.perform ctx t w p choice c s = some (r, s')) : WithinPrefetch ctx s' := by
  refine ⟨inv.numbered.perform before done, inv.counted.perform before process done,
    inv.own.perform before allowed.2 process done,
    inv.outstanding.perform inv.numbered inv.own before process done, fun v => ?_⟩
  have unchanged : running s' = running s → running s' v ≤ ctx.config.prefetch :=
    fun same => same ▸ inv.bound v
  by_cases aside : c.ofHandler = false
  · obtain ⟨_, history⟩ := perform_aside aside done
    exact unchanged (running_same (by rw [history]) (by rw [history]) (by rw [history]))
  cases c with
  | receive =>
      obtain ⟨c, i, d, server, rfl, _, delivered, ⟨_, _, rfl⟩ | ⟨channel, _, begun⟩⟩ :=
        perform_receive done
      · exact inv.bound v
      obtain ⟨limit, one⟩ := allowed
      obtain ⟨x, copy, connection, _, ⟨open', _, _⟩, rfl, _⟩ := Server.deliver_eq delivered
      rw [running_begin inv.counted before.1 before.2 (by rw [begun]) (by rw [begun])
        (by rw [begun]) v]
      by_cases same : v = w
      · subst same
        -- the channel that is stored is the one on which the message arrives
        have stored : Stored s v c := by
          obtain ⟨c', known⟩ := Option.isSome_iff_exists.mp channel
          obtain rfl : c' = c := one c' (by rw [process]; exact known)
          unfold Stored
          rw [process]
          exact known
        have accepts : s.server.accepts c = true := by
          unfold Server.accepts
          rw [connection]
          exact open'
        have le := running_le inv.numbered inv.counted inv.own inv.outstanding stored accepts
        rw [if_pos rfl]
        exact Nat.succ_le_of_lt (Nat.lt_of_le_of_lt le limit)
      · rw [if_neg same]
        exact inv.bound v
  | query st =>
      obtain ⟨_, _, rfl⟩ | ⟨_, _, _, _, _, _, rfl⟩ := perform_query done
      · exact inv.bound v
      · refine unchanged ?_
        rw [noteInsert_eq]
        exact running_same rfl rfl rfl
  | conclude d outcome =>
      obtain ⟨handling, handlers, concluded⟩ : s'.history.handling = s.history.handling ∧
          s'.history.handlers = s.history.handlers ∧
          s'.history.concluded = Function.update s.history.concluded t true := by
        obtain ⟨_, _, _, _, _, _, rfl⟩ := perform_conclude done
        exact ⟨rfl, rfl, rfl⟩
      have ended := running_end inv.counted before.1 before.2.1 handling handlers concluded v
      exact (Nat.le.intro ended.symm).trans (inv.bound v)
  | _ => exact absurd rfl aside

theorem event {e : Event} (inv : WithinPrefetch ctx s) (h : State.event ctx e s = some s') :
    WithinPrefetch ctx s' := by
  obtain ⟨_, _, history⟩ := event_aside h
  refine ⟨inv.numbered.event h, inv.counted.event h,
    inv.own.same (by rw [history]; exact ⟨rfl, rfl, rfl, rfl⟩) fun w c => stored_of_event h,
    inv.outstanding.event h, fun w => ?_⟩
  have same : running s' = running s :=
    running_same (by rw [history]) (by rw [history]) (by rw [history])
  rw [same]
  exact inv.bound w

end WithinPrefetch

/-- **What is in flight stays within the prefetch**, if no handler outlives the channel of its
delivery: in every run with a broker that keeps the prefetch in which a new channel is stored only
when no handler of the process is in flight and messages arrive only on the channel that is stored,
whatever connections are lost.

The number is that of the handlers that have not concluded (`Counted`).  In these runs each of them
has its delivery unacknowledged on the stored channel, and there the broker allows no more than
`prefetch` of them. -/
theorem inFlight_le_prefetch {p : Service ctx}
    (run : Run (limitedOnOneChannel ctx) (Async.Pool.idle .initial) p) (w : ℕ) (P : Process)
    (process : p.shared.processes w = some P) : P.inFlight ≤ ctx.config.prefetch := by
  have inv : WithinPrefetch ctx p.shared := invariant_of_run run .initial
    (fun _ _ _ _ _ _ _ _ before allowed process done inv =>
      inv.perform before allowed process done)
    fun _ _ _ _ hevent inv => inv.event hevent
  rw [inv.counted.count w P process]
  exact_mod_cast inv.bound w

instance decidableLimitedAdvance (t : Tid) :
    (choice : Choice) → (o : Operation) → (s : State) →
      Decidable ((limited ctx).advance t choice o s)
  | .delivers c _, _, s =>
      inferInstanceAs (Decidable ((outstanding c s.server).length < ctx.config.prefetch))
  | .executes _, _, _ => .isTrue trivial
  | .succeeds, _, _ => .isTrue trivial
  | .fails _, _, _ => .isTrue trivial
  | .concludes _ _, _, _ => .isTrue trivial

instance decidableLimitedEvent (e : Event) (s : State) : Decidable ((limited ctx).event e s) :=
  .isTrue trivial

instance decidableLimitedCrash (t : Tid) (s : State) : Decidable ((limited ctx).crash t s) :=
  .isTrue trivial

instance decidableLimitedOnOneChannelAdvance (t : Tid) (choice : Choice) (o : Operation)
    (s : State) : Decidable ((limitedOnOneChannel ctx).advance t choice o s) :=
  inferInstanceAs (Decidable
    ((limited ctx).advance t choice o s ∧ (onOneChannel ctx).advance t choice o s))

instance decidableLimitedOnOneChannelEvent (e : Event) (s : State) :
    Decidable ((limitedOnOneChannel ctx).event e s) := .isTrue trivial

instance decidableLimitedOnOneChannelCrash (t : Tid) (s : State) :
    Decidable ((limitedOnOneChannel ctx).crash t s) := .isTrue trivial

/-- A message is handled, the connection is lost and made again, and another one is handled. -/
theorem inFlight_le_prefetch_of_reconnect :
    ∃ p : Service (workerContext 3), Run (limitedOnOneChannel _) (Async.Pool.idle .initial) p ∧
      ∃ P, p.shared.processes 0 = some P ∧ P.channel = some 1 ∧ P.inFlight = 1 ∧
        P.inFlight ≤ (20 : ℕ) := by
  obtain ⟨p, run, known⟩ := Async.Pool.steps_of_check
    (limitedOnOneChannel (workerContext 3)) (handler (workerContext 3)) (Async.Pool.idle .initial)
    (startMoves 3 0 0 ++ deliverMoves 3 emptyMessage 0 0 1 ++ [.advance 1 (.concludes .none 2)] ++
      lossMoves 3 0 0 2 ++ deliverMoves 3 emptyMessage 0 1 3)
    (fun p => p.shared.processes 0 = some ⟨true, some 1, false, 1, 0⟩) (by decide +kernel)
  exact ⟨p, run, _, known, rfl, rfl, inFlight_le_prefetch run 0 _ known⟩

/-- So many messages are published and handed to the handlers `1`, `2`, … -/
def fillMoves (n : ℕ) : List (WorkerMove 3) :=
  (List.range n).flatMap fun i => deliverMoves 3 emptyMessage 0 0 (i + 1)

/-- As many handlers as the prefetch allows are in flight when the connection is lost.  It is made
again, and the broker delivers on the new channel, on which nothing is unacknowledged. -/
theorem more_than_prefetch :
    ∃ p : Service (workerContext 3), Run (limited _) (Async.Pool.idle .initial) p ∧
      (workerContext 3).config.prefetch = 20 ∧
      ∃ P, p.shared.processes 0 = some P ∧ P.inFlight = 21 := by
  obtain ⟨p, run, known⟩ := Async.Pool.steps_of_check
    (limited (workerContext 3)) (handler (workerContext 3)) (Async.Pool.idle .initial)
    (startMoves 3 0 0 ++ fillMoves 20 ++ lossMoves 3 0 0 21 ++
      [.start 22 (.message 0), .advance 22 (.delivers 1 0)])
    (fun p => p.shared.processes 0 = some ⟨true, some 1, false, 21, 0⟩) (by decide +kernel)
  exact ⟨p, run, rfl, _, known, rfl⟩

end Worker

end OrderPlatform
