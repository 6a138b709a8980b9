import Mathlib.Data.List.Basic
import OrderPlatform.Broker.Messages

/-!
# The broker

RabbitMQ as the services use it: one topic exchange, the queue of the worker bound to it, a retry
queue whose messages go back through the exchange when their time is over, and a dead-letter queue.
Exchange, queues and binding are there once somebody has declared them.

A connection carries one channel.  It is `open` as long as the broker takes frames from it, and
`live` as long as its client takes it to be open; the broker may be the first to see that it is
gone, or the client.  Messages that were delivered on a channel and not acknowledged go back to
their queue when the broker drops the connection (`requeue`).

What a queue holds are `Copy`s.  A message that is sent again is a new message to the broker; here
it is known which published message it stems from (`serial`, `origin`) and how often it has failed.
No operation looks at that.

* `Topology`, `Declaration` — what has been declared.
* `Copy`, `Delivery`, `Connection`, `Server` — the state of the broker.
* `Frame`, `Server.frame` — what a client sends and what it does.
* `Server.deliver`, `Server.requeue`, `Server.expire` — what the broker does on its own.
-/

namespace OrderPlatform

namespace Rabbit

/-- The queues of the worker: `config.queue`, `retryQueue()` and `deadLetterQueue()`. -/
inductive Queue
  | primary
  | retry
  | deadLetter
deriving DecidableEq

/-- The name of a queue, given that of the primary one. -/
def Queue.name (queue : String) : Queue → String
  | primary => queue
  | retry => queue ++ ".retry"
  | deadLetter => queue ++ ".dlq"

/-- What a client may declare. -/
inductive Declaration
  | exchange
  | queue (q : Queue)
  /-- The primary queue gets what is published to the exchange as `order.created`. -/
  | binding
deriving DecidableEq

/-- What has been declared. -/
structure Topology where
  exchange : Bool
  queue : Queue → Bool
  binding : Bool

namespace Topology

/-- A broker on which nothing has been declared. -/
def empty : Topology := ⟨false, fun _ => false, false⟩

/-- Whether something has been declared. -/
def has (T : Topology) : Declaration → Bool
  | .exchange => T.exchange
  | .queue q => T.queue q
  | .binding => T.binding

/-- Declare what may be there already.  A binding needs both its ends. -/
def declare (T : Topology) : Declaration → Option Topology
  | .exchange => some { T with exchange := true }
  | .queue q => some { T with queue := Function.update T.queue q true }
  | .binding => if T.exchange && T.queue .primary then some { T with binding := true } else none

/-- Everything the worker declares is there. -/
def Complete (T : Topology) : Prop := ∀ d, T.has d = true

/-- What has been declared stays. -/
theorem has_declare {T T' : Topology} {d : Declaration} (h : T.declare d = some T') (e : Declaration) :
    T'.has e = true ↔ T.has e = true ∨ e = d := by
  cases d with
  | exchange =>
      cases h
      cases e with
      | exchange => exact ⟨fun _ => .inr rfl, fun _ => rfl⟩
      | queue q => exact ⟨.inl, Or.rec id nofun⟩
      | binding => exact ⟨.inl, Or.rec id nofun⟩
  | queue q =>
      cases h
      cases e with
      | exchange => exact ⟨.inl, Or.rec id nofun⟩
      | queue q' =>
          by_cases same : q' = q
          · subst same
            exact ⟨fun _ => .inr rfl, fun _ => Function.update_self ..⟩
          · show Function.update T.queue q true q' = true ↔ _
            rw [Function.update_of_ne same]
            exact ⟨.inl, Or.rec id fun equal => absurd (Declaration.queue.inj equal) same⟩
      | binding => exact ⟨.inl, Or.rec id nofun⟩
  | binding =>
      simp only [declare] at h
      split at h
      · cases h
        cases e with
        | exchange => exact ⟨.inl, Or.rec id nofun⟩
        | queue q => exact ⟨.inl, Or.rec id nofun⟩
        | binding => exact ⟨fun _ => .inr rfl, fun _ => rfl⟩
      · cases h

end Topology

/-- A message in the broker. -/
structure Copy where
  message : Message
  serial : ℕ
  /-- The message as it was first published. -/
  origin : Message
  /-- How often it has been handled in vain. -/
  failures : ℕ

/-- A message that was delivered on a channel. -/
structure Delivery where
  channel : ℕ
  tag : ℕ
  copy : Copy

/-- The delivery that an `ack` names. -/
def Delivery.isNamed (channel tag : ℕ) (d : Delivery) : Bool :=
  decide (d.channel = channel ∧ d.tag = tag)

/-- A connection with its one channel.  `isOpen` is what the broker knows and `live` is what the
process knows: between the two lies the time in which a connection is lost and nobody has told the
process. -/
structure Connection where
  /-- The process that has made it. -/
  owner : ℕ
  isOpen : Bool
  live : Bool
  /-- Its channel has been created. -/
  channel : Bool
  consumers : ℕ
  nextTag : ℕ
deriving DecidableEq

/-- The broker: what is declared, the connections, the copies in the queues, and the deliveries that
have not been acknowledged. -/
structure Server where
  topology : Topology
  connections : ℕ → Option Connection
  nextConnection : ℕ
  ready : Queue → List Copy
  unacked : List Delivery
  nextSerial : ℕ
  /-- What was acknowledged because its handling had come to an end; no operation looks at it. -/
  completed : List Copy

/-- What a client writes to a channel without waiting for an answer.  An `ack` says why it is
sent. -/
inductive Frame
  | publish (channel : ℕ) (queue : Queue) (copy : Copy)
  | ack (channel tag : ℕ) (completes : Bool)

/-- The channel that a frame is sent on. -/
def Frame.channel : Frame → ℕ
  | publish c _ _ => c
  | ack c _ _ => c

namespace Server

/-- A broker in which nothing has been declared. -/
def empty : Server := ⟨.empty, fun _ => none, 0, fun _ => [], [], 0, []⟩

/-- The broker takes frames from this connection. -/
def accepts (s : Server) (c : ℕ) : Bool := (s.connections c).any (·.isOpen)

/-- Both ends take the connection to be open. -/
def usable (s : Server) (c : ℕ) : Bool := (s.connections c).any fun x => x.isOpen && x.live

/-- Change one connection and nothing else. -/
def updateConnection (c : ℕ) (f : Connection → Connection) (s : Server) : Server :=
  { s with connections := Function.update s.connections c ((s.connections c).map f) }

/-- The broker takes no more frames from the connection. -/
def cut (c : ℕ) (s : Server) : Server :=
  s.updateConnection c fun x => { x with isOpen := false, consumers := 0 }

/-- The client knows that the connection is gone. -/
def close (c : ℕ) (s : Server) : Server :=
  s.updateConnection c fun x => { x with isOpen := false, live := false, consumers := 0 }

/-- A message is put into a queue; there is nobody to tell when there is no such queue. -/
def enqueue (q : Queue) (copy : Copy) (s : Server) : Server :=
  if s.topology.queue q then
    { s with ready := Function.update s.ready q (s.ready q ++ [copy]) }
  else s

/-- A message is published to the exchange as `order.created`. -/
def route (copy : Copy) (s : Server) : Server :=
  if s.topology.binding then s.enqueue .primary copy else s

/-- The message whose delivery is named is done with.  A name that belongs to no delivery is a
violation of the protocol: the broker closes the channel. -/
def acknowledge (c tag : ℕ) (completes : Bool) (s : Server) : Server :=
  if s.unacked.any (Delivery.isNamed c tag) then
    let named := s.unacked.filter fun d => d.isNamed c tag
    { s with
      unacked := s.unacked.filter fun d => !d.isNamed c tag
      completed := bif completes then named.map Delivery.copy ++ s.completed else s.completed }
  else s.cut c

/-- What a frame does.  A frame on a connection that is gone is lost. -/
def frame (s : Server) (f : Frame) : Server :=
  if s.accepts f.channel then
    match f with
    | .publish _ q copy => s.enqueue q copy
    | .ack c tag completes => s.acknowledge c tag completes
  else s

/-- The first `n` of the frames arrive; when that is not all of them, the connection is cut. -/
def frames (fs : List Frame) (n : ℕ) (s : Server) : Server :=
  ((fs.drop n).map Frame.channel).foldl (fun s c => s.cut c) ((fs.take n).foldl frame s)

/-- A message is published to the primary queue. -/
def publish (m : Message) (s : Server) : Option Server :=
  if s.topology.queue .primary then
    some { s.enqueue .primary ⟨m, s.nextSerial, m, 0⟩ with nextSerial := s.nextSerial + 1 }
  else none

/-- A message of the primary queue is delivered on a channel that has a consumer. -/
def deliver (c i : ℕ) (s : Server) : Option (Delivery × Server) := do
  let x ← s.connections c
  let copy ← (s.ready .primary)[i]?
  if x.isOpen && x.live && 0 < x.consumers then
    let d : Delivery := ⟨c, x.nextTag, copy⟩
    some (d, { s.updateConnection c (fun x => { x with nextTag := x.nextTag + 1 }) with
      ready := Function.update s.ready .primary ((s.ready .primary).eraseIdx i)
      unacked := d :: s.unacked })
  else none

/-- The broker puts back what was delivered on a connection that is gone. -/
def requeue (c : ℕ) (s : Server) : Option Server :=
  if s.accepts c then none
  else
    let back := s.unacked.filter fun d => decide (d.channel = c)
    some { s with
      unacked := s.unacked.filter fun d => !decide (d.channel = c)
      ready := Function.update s.ready .primary (back.map Delivery.copy ++ s.ready .primary) }

/-- The time of a message in the retry queue is over. -/
def expire (D : DeadLettering) (i : ℕ) (s : Server) : Option Server :=
  (s.ready .retry)[i]?.map fun copy =>
    { s with ready := Function.update s.ready .retry ((s.ready .retry).eraseIdx i) }.route
      { copy with message := D.apply copy.message }

/-- A client connects. -/
def connect (owner : ℕ) (s : Server) : ℕ × Server :=
  (s.nextConnection,
    { s with
      connections := Function.update s.connections s.nextConnection
        (some ⟨owner, true, true, false, 0, 1⟩)
      nextConnection := s.nextConnection + 1 })

/-! ### What the operations leave alone -/

section Topology

variable (s : Server) (c n : ℕ)

@[simp] theorem updateConnection_topology (f : Connection → Connection) :
    (s.updateConnection c f).topology = s.topology := rfl

@[simp] theorem cut_topology : (s.cut c).topology = s.topology := rfl

@[simp] theorem close_topology : (s.close c).topology = s.topology := rfl

@[simp] theorem enqueue_topology (q : Queue) (copy : Copy) :
    (s.enqueue q copy).topology = s.topology := by
  unfold enqueue
  split <;> rfl

@[simp] theorem route_topology (copy : Copy) : (s.route copy).topology = s.topology := by
  unfold route
  split
  · exact enqueue_topology s .primary copy
  · rfl

@[simp] theorem acknowledge_topology (tag : ℕ) (completes : Bool) :
    (s.acknowledge c tag completes).topology = s.topology := by
  unfold acknowledge
  split <;> rfl

@[simp] theorem frame_topology (f : Frame) : (s.frame f).topology = s.topology := by
  unfold frame
  split
  · cases f with
    | publish c q copy => exact enqueue_topology s q copy
    | ack c tag completes => exact acknowledge_topology s c tag completes
  · rfl

/-- What every frame, and every cut of a channel it is written to, leaves alone is left alone by a
sequence of frames. -/
theorem frames_induction_on {P : Server → Prop} {s : Server} (fs : List Frame) (here : P s)
    (frame : ∀ s, ∀ f ∈ fs, P s → P (s.frame f))
    (cut : ∀ s, ∀ f ∈ fs, P s → P (s.cut f.channel)) : P (s.frames fs n) := by
  have arrived : ∀ (gs : List Frame) (s : Server), gs ⊆ fs → P s → P (gs.foldl Server.frame s) := by
    intro gs
    induction gs with
    | nil => exact fun _ _ here => here
    | cons g rest ih =>
        intro s part here
        exact ih (s.frame g) (fun f mem => part (List.mem_cons_of_mem g mem))
          (frame s g (part List.mem_cons_self) here)
  have severed : ∀ (gs : List Frame) (s : Server), gs ⊆ fs → P s →
      P ((gs.map Frame.channel).foldl (fun s c => s.cut c) s) := by
    intro gs
    induction gs with
    | nil => exact fun _ _ here => here
    | cons g rest ih =>
        intro s part here
        exact ih (s.cut g.channel) (fun f mem => part (List.mem_cons_of_mem g mem))
          (cut s g (part List.mem_cons_self) here)
  exact severed _ _ (List.drop_subset n fs) (arrived _ s (List.take_subset n fs) here)

/-- What every frame, and every cut, leaves alone is left alone by a sequence of frames. -/
theorem frames_induction {P : Server → Prop} {s : Server} (fs : List Frame) (here : P s)
    (frame : ∀ s, ∀ f ∈ fs, P s → P (s.frame f)) (cut : ∀ s c, P s → P (s.cut c)) :
    P (s.frames fs n) :=
  frames_induction_on n fs here frame fun s f _ => cut s f.channel

@[simp] theorem frames_topology (fs : List Frame) : (s.frames fs n).topology = s.topology :=
  frames_induction (P := fun s' => s'.topology = s.topology) n fs rfl
    (fun s f _ same => (frame_topology s f).trans same) fun _ _ same => same

variable {s c} {s' : Server}

theorem publish_topology {m : Message} (h : s.publish m = some s') : s'.topology = s.topology := by
  unfold publish at h
  split at h
  · cases h
    exact enqueue_topology s .primary _
  · cases h

/-! A copy that is enqueued, routed or published changes no connection. -/

theorem enqueue_connections (q : Queue) (copy : Copy) :
    (s.enqueue q copy).connections = s.connections := by
  unfold enqueue
  split <;> rfl

theorem route_connections (copy : Copy) : (s.route copy).connections = s.connections := by
  unfold route
  split
  · exact enqueue_connections .primary copy
  · rfl

theorem publish_connections {m : Message} (h : s.publish m = some s') :
    s'.connections = s.connections := by
  unfold publish at h
  split at h
  · cases h
    exact enqueue_connections .primary _
  · cases h

/-- What a delivery takes out of the primary queue, and where it is then. -/
theorem deliver_eq {i : ℕ} {d : Delivery} (h : s.deliver c i = some (d, s')) :
    ∃ x copy, s.connections c = some x ∧ (s.ready .primary)[i]? = some copy ∧
      (x.isOpen = true ∧ x.live = true ∧ 0 < x.consumers) ∧ d = ⟨c, x.nextTag, copy⟩ ∧
      s' = { s.updateConnection c (fun x => { x with nextTag := x.nextTag + 1 }) with
        ready := Function.update s.ready .primary ((s.ready .primary).eraseIdx i)
        unacked := d :: s.unacked } := by
  unfold deliver at h
  obtain ⟨x, connection, h⟩ := Option.bind_eq_some_iff.mp h
  obtain ⟨copy, found, h⟩ := Option.bind_eq_some_iff.mp h
  split at h
  · rename_i ready
    simp only [Bool.and_eq_true, decide_eq_true_eq] at ready
    cases h
    exact ⟨x, copy, connection, found, ⟨ready.1.1, ready.1.2, ready.2⟩, rfl, rfl⟩
  · cases h

theorem deliver_topology {i : ℕ} {d : Delivery} (h : s.deliver c i = some (d, s')) :
    s'.topology = s.topology := by
  obtain ⟨_, _, _, _, _, _, rfl⟩ := deliver_eq h
  rfl

theorem requeue_eq (h : s.requeue c = some s') :
    s.accepts c = false ∧ s' = { s with
      unacked := s.unacked.filter fun d => !decide (d.channel = c)
      ready := Function.update s.ready .primary
        ((s.unacked.filter fun d => decide (d.channel = c)).map Delivery.copy ++
          s.ready .primary) } := by
  unfold requeue at h
  split at h
  · cases h
  · rename_i gone
    cases h
    exact ⟨Bool.eq_false_iff.mpr gone, rfl⟩

theorem expire_eq {D : DeadLettering} {i : ℕ} (h : s.expire D i = some s') :
    ∃ copy, (s.ready .retry)[i]? = some copy ∧
      s' = { s with ready := Function.update s.ready .retry ((s.ready .retry).eraseIdx i) }.route
        { copy with message := D.apply copy.message } := by
  obtain ⟨copy, found, rfl⟩ := Option.map_eq_some_iff.mp h
  exact ⟨copy, found, rfl⟩

theorem expire_connections {D : DeadLettering} {i : ℕ} (h : s.expire D i = some s') :
    s'.connections = s.connections := by
  obtain ⟨copy, _, rfl⟩ := expire_eq h
  exact route_connections _

end Topology

/-! ### Everything but a delivery -/

/-- No connection is forgotten or given a new owner, no tag is used up, no number is used twice, and
nothing new is unacknowledged. -/
structure Settles (s s' : Server) : Prop where
  connections : ∀ c x, s.connections c = some x →
    ∃ x', s'.connections c = some x' ∧ x'.owner = x.owner ∧ x'.nextTag = x.nextTag
  fresh : ∀ c, s'.nextConnection ≤ c →
    s.nextConnection ≤ c ∧ (s.connections c = none → s'.connections c = none)
  unacked : s'.unacked.Sublist s.unacked

namespace Settles

variable {s s' s'' : Server} {c : ℕ}

theorem refl (s : Server) : Settles s s :=
  ⟨fun _ x h => ⟨x, h, rfl, rfl⟩, fun _ le => ⟨le, id⟩, List.Sublist.refl _⟩

theorem trans (h : Settles s s') (h' : Settles s' s'') : Settles s s'' where
  connections := by
    intro c x known
    obtain ⟨x', known', owner, tag⟩ := h.connections c x known
    obtain ⟨x'', known'', owner', tag'⟩ := h'.connections c x' known'
    exact ⟨x'', known'', owner'.trans owner, tag'.trans tag⟩
  fresh := by
    intro c le
    obtain ⟨le', none'⟩ := h'.fresh c le
    obtain ⟨le'', none''⟩ := h.fresh c le'
    exact ⟨le'', fun none => none' (none'' none)⟩
  unacked := h'.unacked.trans h.unacked

/-- The connections stay, up to what the ends know of them. -/
theorem of_map (f : ℕ → Connection → Connection)
    (keeps : ∀ c x, (f c x).owner = x.owner ∧ (f c x).nextTag = x.nextTag)
    (connections : ∀ c, s'.connections c = (s.connections c).map (f c))
    (next : s'.nextConnection = s.nextConnection) (unacked : s'.unacked.Sublist s.unacked) :
    Settles s s' where
  connections := by
    intro c x known
    refine ⟨f c x, ?_, keeps c x⟩
    rw [connections, known]
    rfl
  fresh := by
    intro c le
    rw [next] at le
    refine ⟨le, fun none => ?_⟩
    rw [connections, none]
    rfl
  unacked := unacked

theorem of_same (connections : s'.connections = s.connections)
    (next : s'.nextConnection = s.nextConnection) (unacked : s'.unacked.Sublist s.unacked) :
    Settles s s' :=
  of_map (fun _ x => x) (fun _ _ => ⟨rfl, rfl⟩)
    (fun c => by rw [connections, Option.map_id']) next unacked

theorem updateConnection {f : Connection → Connection}
    (keeps : ∀ x, (f x).owner = x.owner ∧ (f x).nextTag = x.nextTag) :
    Settles s (s.updateConnection c f) := by
  refine of_map (fun c' x => if c' = c then f x else x) ?_ ?_ rfl (List.Sublist.refl _)
  · intro c' x
    split
    · exact keeps x
    · exact ⟨rfl, rfl⟩
  · intro c'
    by_cases same : c' = c
    · subst same
      simp [Server.updateConnection]
    · simp [Server.updateConnection, same]

theorem cut (s : Server) (c : ℕ) : Settles s (s.cut c) := updateConnection fun _ => ⟨rfl, rfl⟩

theorem close (s : Server) (c : ℕ) : Settles s (s.close c) := updateConnection fun _ => ⟨rfl, rfl⟩

theorem enqueue (s : Server) (q : Queue) (copy : Copy) : Settles s (s.enqueue q copy) := by
  unfold Server.enqueue
  split
  · exact of_same rfl rfl (List.Sublist.refl _)
  · exact refl s

theorem route (s : Server) (copy : Copy) : Settles s (s.route copy) := by
  unfold Server.route
  split
  · exact enqueue s .primary copy
  · exact refl s

theorem acknowledge (s : Server) (c tag : ℕ) (completes : Bool) :
    Settles s (s.acknowledge c tag completes) := by
  unfold Server.acknowledge
  split
  · exact of_same rfl rfl List.filter_sublist
  · exact cut s c

theorem frame (s : Server) (f : Frame) : Settles s (s.frame f) := by
  unfold Server.frame
  split
  · cases f with
    | publish c q copy => exact enqueue s q copy
    | ack c tag completes => exact acknowledge s c tag completes
  · exact refl s

theorem frames (s : Server) (fs : List Frame) (n : ℕ) : Settles s (s.frames fs n) :=
  frames_induction (P := Settles s) n fs (refl s) (fun s' f _ step => step.trans (frame s' f))
    fun s' c step => step.trans (cut s' c)

theorem publish {m : Message} (h : s.publish m = some s') : Settles s s' := by
  unfold Server.publish at h
  split at h
  · cases h
    have step := enqueue s .primary ⟨m, s.nextSerial, m, 0⟩
    exact ⟨step.connections, step.fresh, step.unacked⟩
  · cases h

theorem requeue (h : s.requeue c = some s') : Settles s s' := by
  obtain ⟨_, rfl⟩ := requeue_eq h
  exact of_same rfl rfl List.filter_sublist

theorem expire {D : DeadLettering} {i : ℕ} (h : s.expire D i = some s') : Settles s s' := by
  obtain ⟨copy, _, rfl⟩ := expire_eq h
  have taken : Settles s { s with
      ready := Function.update s.ready .retry ((s.ready .retry).eraseIdx i) } :=
    of_same rfl rfl (List.Sublist.refl _)
  exact taken.trans (route _ { copy with message := D.apply copy.message })

theorem connect (s : Server) (fresh : s.connections s.nextConnection = none) (owner : ℕ) :
    Settles s (s.connect owner).2 where
  connections := by
    intro c x known
    have other : c ≠ s.nextConnection := by
      rintro rfl
      rw [fresh] at known
      cases known
    exact ⟨x, (Function.update_of_ne other _ _).trans known, rfl, rfl⟩
  fresh := by
    intro c le
    have lt : s.nextConnection < c := le
    exact ⟨Nat.le_of_lt lt, fun none => (Function.update_of_ne (Nat.ne_of_gt lt) _ _).trans none⟩
  unacked := List.Sublist.refl _

end Settles

end Server

end Rabbit

end OrderPlatform
