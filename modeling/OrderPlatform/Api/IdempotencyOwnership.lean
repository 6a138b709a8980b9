import OrderPlatform.Async.Contract
import OrderPlatform.Api.IdempotentCalls

/-!
# Who owns the record under an idempotency key

The record under a key goes through three phases: there is none, a call has claimed it, or a
response is stored.  In the last two it has an owner, the call that wrote it.  A call that owns
the record is the only one to change it and the only one whose work runs; a call that does not
own it changes nothing.  Those are the two sides of `Rely`, and `holds_withIdempotency` shows
that the text of `withIdempotency` keeps to them.

The runs considered here are those of `regime`: every Redis command is executed and answered,
and the record under the key does not disappear on its own.  The parameter `bounded` says
whether, in addition, every response fits in a record.  Where it does, a stored response is never given
up, so nothing resolves twice; where it does not, a call whose response is too large releases
the key, and all that is left is ownership.
-/

namespace OrderPlatform

namespace IdempotentCalls

open Async (Tid Regime Contract Discipline Pool)
open Text (Json)

/-- Commands succeed, the record under the key does not disappear, and, where `bounded`,
responses fit.

The handlers may interleave, die and throw in any way.  A record that expires while its call works
is excluded here, and is what `IdempotencyExpiry` is about. -/
def regime (bounded : Prop) (k : IdempotencyKey) : Regime machine where
  advance := fun _ c o _ =>
    match c, o with
    | .redis fault, _ => fault = .none
    | .resolves status body, .work (.finish requestHash) =>
        bounded → (StoredRecord.completed requestHash (.num status) body).serialized.utf8ByteSize ≤
          maxStoredBodyBytes
    | _, _ => True
  event := fun e _ =>
    match e with
    | .expire key => key ≠ k.redisKey
    | .evict key => key ≠ k.redisKey
    | .land _ => True
  crash := fun _ _ => True

section

variable {bounded : Prop} [Decidable bounded] {k : IdempotencyKey}

instance decidableAdvance (t : Tid) : (c : machine.Choice) → (o : machine.Op) →
    (s : machine.State) → Decidable ((regime bounded k).advance t c o s)
  | .redis fault, _, _ => inferInstanceAs (Decidable (fault = .none))
  | .resolves status body, .work (.finish requestHash), _ =>
      inferInstanceAs (Decidable (bounded →
        (StoredRecord.completed requestHash (.num status) body).serialized.utf8ByteSize ≤
          maxStoredBodyBytes))
  | .resolves _ _, .work (.start _), _ => .isTrue trivial
  | .resolves _ _, .redis _, _ => .isTrue trivial
  | .begins, _, _ => .isTrue trivial
  | .throws _, _, _ => .isTrue trivial

instance decidableEvent : (e : machine.Event) → (s : machine.State) →
    Decidable ((regime bounded k).event e s)
  | .expire key, _ => inferInstanceAs (Decidable (key ≠ k.redisKey))
  | .evict key, _ => inferInstanceAs (Decidable (key ≠ k.redisKey))
  | .land _, _ => .isTrue trivial

instance decidableCrash (t : Tid) (s : machine.State) : Decidable ((regime bounded k).crash t s) :=
  .isTrue trivial

end

/-- What the record under a key says about the work. -/
inductive Phase (bounded : Prop) (key : String) (s : State) : Prop
  | free (unowned : s.writer key = none) (absent : s.server.store key = none)
      (nothing : bounded → s.resolved = [])
  | claimed (t : Tid) (requestHash : String) (ttl : Option ℕ) (owner : s.writer key = some t)
      (stored : s.server.store key = some ⟨(StoredRecord.claim requestHash).serialized, ttl⟩)
      (only : bounded → s.resolved.length ≤ 1)
  | completed (x : Execution) (ttl : Option ℕ) (owner : s.writer key = some x.tid)
      (stored : s.server.store key = some ⟨x.record.serialized, ttl⟩) (mem : x ∈ s.resolved)
      (only : bounded → s.resolved.length ≤ 1)

namespace Phase

variable {bounded : Prop} {key : String} {s s' : State}

/-- The phase depends on the record and on what has resolved only. -/
theorem same (h : Phase bounded key s) (writer : s'.writer key = s.writer key)
    (stored : s'.server.store key = s.server.store key) (resolved : s'.resolved = s.resolved) :
    Phase bounded key s' := by
  cases h with
  | free unowned absent nothing =>
      exact .free (writer.trans unowned) (stored.trans absent) (resolved ▸ nothing)
  | claimed t requestHash ttl owner claim only =>
      exact .claimed t requestHash ttl (writer.trans owner) (stored.trans claim) (resolved ▸ only)
  | completed x ttl owner record mem only =>
      exact .completed x ttl (writer.trans owner) (stored.trans record) (resolved ▸ mem)
        (resolved ▸ only)

/-- Where there is no record, nobody owns one. -/
theorem of_absent (h : Phase bounded key s) (absent : s.server.store key = none) :
    s.writer key = none ∧ (bounded → s.resolved = []) := by
  cases h with
  | free unowned _ nothing => exact ⟨unowned, nothing⟩
  | claimed _ _ _ _ stored _ => simp [absent] at stored
  | completed _ _ _ stored _ _ => simp [absent] at stored

theorem resolved_length_le (h : Phase bounded key s) (fits : bounded) : s.resolved.length ≤ 1 := by
  cases h with
  | free _ _ nothing => simp [nothing fits]
  | claimed _ _ _ _ _ only => exact only fits
  | completed _ _ _ _ _ only => exact only fits

end Phase

/-- The invariant of the shared state. -/
structure Inv (bounded : Prop) (key : String) (s : State) : Prop where
  landed : s.server.inFlight = []
  phase : Phase bounded key s
  running : ∀ t, s.running t = true → s.writer key = some t ∧ (bounded → s.resolved = [])
  removed : ∀ d ∈ s.removed,
    d.key = key ∧ d.writer = some d.tid ∧ (bounded → (s.threw d.tid).isSome)

/-- What one call tolerates: nobody touches the record it owns or starts work meanwhile, and
its own part of the history stays as it is. -/
structure Rely (key : String) (t : Tid) (s s' : State) : Prop where
  owner : s.writer key = some t ↔ s'.writer key = some t
  stored : s.writer key = some t → s'.server.store key = s.server.store key
  resolvedOwn : s.writer key = some t → s'.resolved = s.resolved
  alone : s.writer key = some t → ∀ u, u ≠ t → s'.ran u = s.ran u
  running : s'.running t = s.running t
  ran : s'.ran t = s.ran t
  threw : s'.threw t = s.threw t
  lastRead : s'.lastRead t = s.lastRead t
  resolved : s.resolved <+: s'.resolved
  removed : s.removed <+: s'.removed
  removedOwn : ∀ d ∈ s'.removed, d.tid = t → d ∈ s.removed

theorem Rely.refl (key : String) (t : Tid) (s : State) : Rely key t s s where
  owner := Iff.rfl
  stored _ := rfl
  resolvedOwn _ := rfl
  alone _ _ _ := rfl
  running := rfl
  ran := rfl
  threw := rfl
  lastRead := rfl
  resolved := List.prefix_rfl
  removed := List.prefix_rfl
  removedOwn _ mem _ := mem

theorem Rely.trans {key : String} {t : Tid} {s s' s'' : State} (h : Rely key t s s')
    (h' : Rely key t s' s'') : Rely key t s s'' where
  owner := h.owner.trans h'.owner
  stored own := (h'.stored (h.owner.mp own)).trans (h.stored own)
  resolvedOwn own := (h'.resolvedOwn (h.owner.mp own)).trans (h.resolvedOwn own)
  alone own u other := (h'.alone (h.owner.mp own) u other).trans (h.alone own u other)
  running := h'.running.trans h.running
  ran := h'.ran.trans h.ran
  threw := h'.threw.trans h.threw
  lastRead := h'.lastRead.trans h.lastRead
  resolved := h.resolved.trans h'.resolved
  removed := h.removed.trans h'.removed
  removedOwn d mem own := h.removedOwn d (h'.removedOwn d mem own) own

/-- A call that has not done anything yet. -/
structure Fresh (key : String) (t : Tid) (s : State) : Prop where
  unowned : s.writer key ≠ some t
  ran : s.ran t = false
  threw : s.threw t = none
  kept : ∀ d ∈ s.removed, d.tid ≠ t

theorem Fresh.later {key : String} {t : Tid} {s s' : State} (h : Fresh key t s)
    (step : Rely key t s s') : Fresh key t s' where
  unowned own := h.unowned (step.owner.mpr own)
  ran := step.ran.trans h.ran
  threw := step.threw.trans h.threw
  kept d mem own := h.kept d (step.removedOwn d mem own) own

/-- The call owns a claim for its request, and has not removed anything yet. -/
structure Claimant (key : String) (t : Tid) (requestHash : String) (s : State) : Prop where
  owner : s.writer key = some t
  stored : ∃ ttl, s.server.store key = some ⟨(StoredRecord.claim requestHash).serialized, ttl⟩
  kept : ∀ d ∈ s.removed, d.tid ≠ t

/-- The discipline of the calls under one key.  A call writes or deletes the record only while
it owns the claim. -/
def discipline (bounded : Prop) (key : String) : Discipline machine where
  inv := Inv bounded key
  fresh := Fresh key
  before := fun t o s =>
    match o with
    | .redis (.set ..) => ∃ requestHash, Claimant key t requestHash s
    | .redis (.del _) => ∃ requestHash, Claimant key t requestHash s
    | _ => True
  rely := Rely key
  rely_refl := Rely.refl key
  rely_trans := Rely.trans
  fresh_rely := Fresh.later

/-! ### What the operations do -/

namespace State

/-- The state with another entry under a key. -/
def put (key : String) (entry : Option Redis.Entry) (writer : Option Tid) (s : State) : State :=
  { s with
    server := { s.server with store := Function.update s.server.store key entry }
    writer := Function.update s.writer key writer }

@[simp] theorem put_writer (key : String) (entry : Option Redis.Entry) (writer : Option Tid)
    (s : State) : (s.put key entry writer).writer key = writer := by simp [put]

@[simp] theorem put_store (key : String) (entry : Option Redis.Entry) (writer : Option Tid)
    (s : State) : (s.put key entry writer).server.store key = entry := by simp [put]

@[simp] theorem put_resolved (key : String) (entry : Option Redis.Entry) (writer : Option Tid)
    (s : State) : (s.put key entry writer).resolved = s.resolved := rfl

/-- The state after a `DEL`. -/
def remove (t : Tid) (key : String) (s : State) : State :=
  { s.put key none none with removed := s.removed ++ [⟨t, key, s.writer key⟩] }

@[simp] theorem remove_writer (t : Tid) (key : String) (s : State) :
    (s.remove t key).writer key = none := by simp [remove]

@[simp] theorem remove_store (t : Tid) (key : String) (s : State) :
    (s.remove t key).server.store key = none := by simp [remove]

@[simp] theorem remove_running (t : Tid) (key : String) (s : State) :
    (s.remove t key).running = s.running := rfl

@[simp] theorem remove_resolved (t : Tid) (key : String) (s : State) :
    (s.remove t key).resolved = s.resolved := rfl

end State

section Operations

variable {bounded : Prop} {key : String} {t : Tid} {s : State}

/-- A change that concerns neither the record nor the history that others look at. -/
private theorem rely_of_same (s s' : State) (writer : s'.writer = s.writer)
    (server : s'.server.store key = s.server.store key) (resolved : s'.resolved = s.resolved)
    (removed : s'.removed = s.removed) {u : Tid} (running : s'.running u = s.running u)
    (ran : s.writer key = some u → ∀ v, v ≠ u → s'.ran v = s.ran v) (ranOwn : s'.ran u = s.ran u)
    (threw : s'.threw u = s.threw u) (lastRead : s'.lastRead u = s.lastRead u) :
    Rely key u s s' where
  owner := by rw [writer]
  stored _ := server
  resolvedOwn _ := resolved
  alone := ran
  running := running
  ran := ranOwn
  threw := threw
  lastRead := lastRead
  resolved := resolved ▸ List.prefix_rfl
  removed := removed ▸ List.prefix_rfl
  removedOwn d mem _ := removed ▸ mem

/-- No work but the owner's is running. -/
theorem not_running_of_ne (h : Inv bounded key s) (own : s.writer key = some t) {u : Tid}
    (other : u ≠ t) : s.running u = false := by
  by_contra running
  have := (h.running u (by simpa using running)).1
  exact other (Option.some_inj.mp (this.symm.trans own))

/-- Claiming a free key. -/
theorem tolerable_claim (h : Inv bounded key s) (absent : s.server.store key = none)
    (requestHash : String) (seconds : ℕ) :
    (discipline bounded key).Tolerable t s
      (s.put key (some ⟨(StoredRecord.claim requestHash).serialized, some seconds⟩) (some t)) := by
  obtain ⟨unowned, nothing⟩ := h.phase.of_absent absent
  refine ⟨⟨h.landed, ?_, ?_, h.removed⟩, fun u other => ?_⟩
  · exact .claimed t requestHash (some seconds) (by simp) (by simp) fun fits => by
      simp [nothing fits]
  · intro u running
    have := (h.running u running).1
    simp [unowned] at this
  · refine ⟨?_, ?_, ?_, fun _ _ _ => rfl, rfl, rfl, rfl, rfl, List.prefix_rfl, List.prefix_rfl,
      fun _ mem _ => mem⟩
    · simpa [unowned] using other.symm
    · simp [unowned]
    · simp [unowned]

/-- Reading. -/
theorem tolerable_read (h : Inv bounded key s) (record : Option String) :
    (discipline bounded key).Tolerable t s (s.reads t record) :=
  ⟨⟨h.landed, h.phase.same rfl rfl rfl, h.running, h.removed⟩, fun _ other =>
    rely_of_same s (s.reads t record) rfl rfl rfl rfl rfl (fun _ _ _ => rfl) rfl rfl
      (Function.update_of_ne other _ _)⟩

/-- The owner starts its work. -/
theorem tolerable_start (h : Inv bounded key s) (own : s.writer key = some t)
    (nothing : bounded → s.resolved = []) :
    (discipline bounded key).Tolerable t s (s.starts t) := by
  refine ⟨⟨h.landed, h.phase.same rfl rfl rfl, ?_, h.removed⟩, fun u other => ?_⟩
  · intro u running
    by_cases same : u = t
    · exact ⟨same ▸ own, nothing⟩
    · exact h.running u (by simpa [State.starts, Function.update_of_ne same] using running)
  · refine rely_of_same s (s.starts t) rfl rfl rfl rfl (Function.update_of_ne other _ _) ?_
      (Function.update_of_ne other _ _) rfl rfl
    -- only the owner starts work, so `u` does not own the record
    exact fun owns => absurd (Option.some_inj.mp (owns.symm.trans own)) other

/-- The owner's work resolves. -/
theorem tolerable_resolve (h : Inv bounded key s) {requestHash : String}
    (claimant : Claimant key t requestHash s) (nothing : bounded → s.resolved = []) {x : Execution}
    (tid : x.tid = t) : (discipline bounded key).Tolerable t s (s.resolves x) := by
  subst tid
  obtain ⟨ttl, stored⟩ := claimant.stored
  refine ⟨⟨h.landed, ?_, ?_, h.removed⟩, fun u other => ?_⟩
  · exact .claimed x.tid requestHash ttl claimant.owner stored fun fits => by
      simp [State.resolves, nothing fits]
  · intro u running
    by_cases same : u = x.tid
    · simp [same, State.resolves] at running
    · simp [State.resolves, Function.update_of_ne same,
        not_running_of_ne h claimant.owner same] at running
  · refine ⟨Iff.rfl, fun _ => rfl, fun owns => ?_, fun _ _ _ => rfl, Function.update_of_ne other _ _,
      rfl, rfl, rfl, ⟨[x], rfl⟩, List.prefix_rfl, fun _ mem _ => mem⟩
    exact absurd (Option.some_inj.mp (owns.symm.trans claimant.owner)) other

/-- The owner's work throws. -/
theorem tolerable_throw (h : Inv bounded key s) (error : ApiError) :
    (discipline bounded key).Tolerable t s (s.throws t error) := by
  refine ⟨⟨h.landed, h.phase.same rfl rfl rfl, ?_, ?_⟩, fun u other => ?_⟩
  · intro u running
    by_cases same : u = t
    · simp [same, State.throws] at running
    · exact h.running u (by simpa [State.throws, Function.update_of_ne same] using running)
  · intro d mem
    obtain ⟨about, own, thrown⟩ := h.removed d mem
    refine ⟨about, own, fun fits => ?_⟩
    by_cases same : d.tid = t
    · simp [same, State.throws]
    · simpa [State.throws, Function.update_of_ne same] using thrown fits
  · exact rely_of_same s (s.throws t error) rfl rfl rfl rfl (Function.update_of_ne other _ _)
      (fun _ _ _ => rfl) rfl (Function.update_of_ne other _ _) rfl

/-- The owner stores the response of its work. -/
theorem tolerable_store (h : Inv bounded key s) {x : Execution} (own : s.writer key = some x.tid)
    (mem : x ∈ s.resolved) (stopped : s.running x.tid = false) (seconds : ℕ) :
    (discipline bounded key).Tolerable x.tid s
      (s.put key (some ⟨x.record.serialized, some seconds⟩) (some x.tid)) := by
  refine ⟨⟨h.landed, ?_, ?_, h.removed⟩, fun u other => ?_⟩
  · exact .completed x (some seconds) (by simp) (by simp) mem h.phase.resolved_length_le
  · intro u running
    by_cases same : u = x.tid
    · rw [same] at running
      exact absurd running (by simp [State.put, stopped])
    · exact absurd running (by simp [State.put, not_running_of_ne h own same])
  · have apart : x.tid ≠ u := fun same => other same.symm
    refine ⟨?_, ?_, ?_, fun _ _ _ => rfl, rfl, rfl, rfl, rfl, List.prefix_rfl, List.prefix_rfl,
      fun _ mem _ => mem⟩ <;> simp [own, apart]

/-- The owner releases the key. -/
theorem tolerable_release (h : Inv bounded key s) (own : s.writer key = some t)
    (stopped : s.running t = false) (thrown : bounded → s.resolved = [] ∧ (s.threw t).isSome) :
    (discipline bounded key).Tolerable t s (s.remove t key) := by
  refine ⟨⟨h.landed, ?_, ?_, ?_⟩, fun u other => ?_⟩
  · exact .free (by simp) (by simp) fun fits => (thrown fits).1
  · intro u running
    by_cases same : u = t
    · simp [same, stopped] at running
    · simp [not_running_of_ne h own same] at running
  · intro d mem
    rcases List.mem_append.mp mem with old | new
    · exact h.removed d old
    · rw [List.mem_singleton.mp new]
      exact ⟨rfl, own, fun fits => (thrown fits).2⟩
  · have apart : t ≠ u := fun same => other same.symm
    refine ⟨?_, ?_, ?_, fun _ _ _ => rfl, rfl, rfl, rfl, rfl, List.prefix_rfl,
      List.prefix_append _ _, ?_⟩
    · simp [own, apart]
    · simp [own, apart]
    · simp [own, apart]
    · intro d mem about
      rcases List.mem_append.mp mem with old | new
      · exact old
      · exact absurd (by rw [← about, List.mem_singleton.mp new]) apart

end Operations

/-! ### The calls keep the discipline -/

section Calls

variable {bounded : Prop} {k : IdempotencyKey} {t : Tid} {α : Type} {s s' : State}
variable {Q : α → State → Prop} {E : ApiError → State → Prop}

/-- The contract of one call. -/
abbrev contract (bounded : Prop) (k : IdempotencyKey) (t : Tid) : Contract machine :=
  (discipline bounded k.redisKey).contract (regime bounded k) t

/-- A Redis command of a call is executed and answered. -/
theorem holds_redis {c : Redis.Command} {f : c.Reply → machine.Task α}
    (step : ∀ s', (contract bounded k t).rely s s' → (contract bounded k t).before (.redis c) s' ∧
      ∀ reply store, c.apply s'.server.store = some (reply, store) →
        (contract bounded k t).guar s'
          (State.note t c (some reply) { s' with server := { s'.server with store } }) ∧
        (contract bounded k t).Holds Q E (f reply)
          (State.note t c (some reply) { s' with server := { s'.server with store } }))
    (answered : ∀ store, c.apply store ≠ none) :
    (contract bounded k t).Holds Q E ((redis c : machine.Task c.Reply).bind f) s := by
  intro s' rely
  refine ⟨(step s' rely).1, fun choice r s'' allowed hexec => ?_⟩
  cases choice with
  | redis fault =>
      have succeeds : fault = .none := allowed
      obtain ⟨x, apply⟩ := Option.ne_none_iff_exists'.mp (answered s'.server.store)
      simp only [exec, succeeds, Redis.Server.call, apply] at hexec
      cases hexec
      exact (step s' rely).2 x.1 x.2 apply
  | begins => cases hexec
  | resolves status body => cases hexec
  | throws error => cases hexec

/-- A call reads the record under the key. -/
theorem holds_get {f : Option String → machine.Task α}
    (step : ∀ s', (contract bounded k t).rely s s' →
      (contract bounded k t).Holds Q E (f ((s'.server.store k.redisKey).map (·.value)))
        (s'.reads t ((s'.server.store k.redisKey).map (·.value)))) :
    (contract bounded k t).Holds Q E ((redis (.get k.redisKey)).bind f) s := by
  refine holds_redis (fun s' rely => ⟨trivial, fun reply store apply => ?_⟩) (fun store => nofun)
  cases apply
  exact ⟨tolerable_read rely.1 _, step s' rely⟩

/-- The work of a call starts. -/
theorem holds_start {requestHash : String} {f : Unit → machine.Task α}
    (step : ∀ s', (contract bounded k t).rely s s' →
      (contract bounded k t).guar s' (s'.starts t) ∧
        (contract bounded k t).Holds Q E (f ()) (s'.starts t)) :
    (contract bounded k t).Holds Q E (.await (.work (.start requestHash)) f) s := by
  refine fun s' rely => ⟨trivial, fun choice r s'' _ hexec => ?_⟩
  cases choice with
  | begins => cases hexec; exact step s' rely
  | redis fault => cases hexec
  | resolves status body => cases hexec
  | throws error => cases hexec

/-- The work of a call ends, one way or the other. -/
theorem holds_finish {requestHash : String}
    {f : Except ApiError IdempotencyResult → machine.Task α}
    (resolve : ∀ s', (contract bounded k t).rely s s' → ∀ x : Execution, x.tid = t →
      x.requestHash = requestHash →
      (bounded → x.record.serialized.utf8ByteSize ≤ maxStoredBodyBytes) →
      (contract bounded k t).guar s' (s'.resolves x) ∧
        (contract bounded k t).Holds Q E (f (.ok x.result)) (s'.resolves x))
    (throw : ∀ s', (contract bounded k t).rely s s' → ∀ error,
      (contract bounded k t).guar s' (s'.throws t error) ∧
        (contract bounded k t).Holds Q E (f (.error error)) (s'.throws t error)) :
    (contract bounded k t).Holds Q E (.await (.work (.finish requestHash)) f) s := by
  refine fun s' rely => ⟨trivial, fun choice r s'' allowed hexec => ?_⟩
  cases choice with
  | resolves status body =>
      cases hexec
      exact resolve s' rely ⟨t, requestHash, status, body⟩ rfl rfl allowed
  | throws error => cases hexec; exact throw s' rely error
  | redis fault => cases hexec
  | begins => cases hexec

/-- The work of the claimant has resolved as `x`. -/
structure Resolved (bounded : Prop) (t : Tid) (x : Execution) (s : State) : Prop where
  tid : x.tid = t
  mem : x ∈ s.resolved
  fits : bounded → x.record.serialized.utf8ByteSize ≤ maxStoredBodyBytes
  stopped : s.running t = false
  ran : s.ran t = true
  threw : s.threw t = none

/-- The work of the claimant has thrown `error`. -/
structure Thrown (bounded : Prop) (t : Tid) (error : ApiError) (s : State) : Prop where
  nothing : bounded → s.resolved = []
  stopped : s.running t = false
  threw : s.threw t = some error

namespace Claimant

variable {requestHash key : String}

theorem later (h : Claimant key t requestHash s) (step : Rely key t s s') :
    Claimant key t requestHash s' where
  owner := step.owner.mp h.owner
  stored := (step.stored h.owner).symm ▸ h.stored
  kept d mem own := h.kept d (step.removedOwn d mem own) own

theorem starts (h : Claimant key t requestHash s) : Claimant key t requestHash (s.starts t) :=
  ⟨h.owner, h.stored, h.kept⟩

theorem resolves (h : Claimant key t requestHash s) (x : Execution) :
    Claimant key t requestHash (s.resolves x) := ⟨h.owner, h.stored, h.kept⟩

theorem throws (h : Claimant key t requestHash s) (error : ApiError) :
    Claimant key t requestHash (s.throws t error) := ⟨h.owner, h.stored, h.kept⟩

end Claimant

theorem Resolved.later {x : Execution} {key : String} (h : Resolved bounded t x s)
    (step : Rely key t s s') : Resolved bounded t x s' where
  tid := h.tid
  mem := step.resolved.subset h.mem
  fits := h.fits
  stopped := step.running.trans h.stopped
  ran := step.ran.trans h.ran
  threw := step.threw.trans h.threw

/-- The work of a claimant, from its start to its end. -/
theorem holds_process {requestHash : String} (claimant : Claimant k.redisKey t requestHash s)
    (nothing : bounded → s.resolved = []) (threw : s.threw t = none) :
    (contract bounded k t).Holds
      (fun result s => Claimant k.redisKey t requestHash s ∧ ∃ x, Resolved bounded t x s ∧
        x.requestHash = requestHash ∧ result = x.result)
      (fun error s => Claimant k.redisKey t requestHash s ∧ Thrown bounded t error s)
      (process requestHash) s := by
  refine holds_start fun s₁ rely₁ => ?_
  have claimant₁ := claimant.later rely₁.2
  have nothing₁ : bounded → s₁.resolved = [] := fun fits =>
    (rely₁.2.resolvedOwn claimant.owner).trans (nothing fits)
  refine ⟨tolerable_start rely₁.1 claimant₁.owner nothing₁, holds_finish ?_ ?_⟩
  · intro s₂ rely₂ x tid hash fits
    have claimant₂ := claimant₁.starts.later rely₂.2
    have nothing₂ : bounded → s₂.resolved = [] := fun fits =>
      (rely₂.2.resolvedOwn claimant₁.starts.owner).trans (nothing₁ fits)
    have resolved : Resolved bounded t x (s₂.resolves x) :=
      { tid
        mem := List.mem_append_right _ (List.mem_singleton_self x)
        fits
        stopped := by rw [← tid]; exact Function.update_self _ _ _
        ran := rely₂.2.ran.trans (Function.update_self _ _ _)
        threw := rely₂.2.threw.trans (rely₁.2.threw.trans threw) }
    refine ⟨tolerable_resolve rely₂.1 claimant₂ nothing₂ tid, fun s₃ rely₃ => ?_⟩
    exact ⟨(claimant₂.resolves x).later rely₃.2, x, resolved.later rely₃.2, hash, rfl⟩
  · intro s₂ rely₂ error
    have claimant₂ := claimant₁.starts.later rely₂.2
    have nothing₂ : bounded → s₂.resolved = [] := fun fits =>
      (rely₂.2.resolvedOwn claimant₁.starts.owner).trans (nothing₁ fits)
    refine ⟨tolerable_throw rely₂.1 error, fun s₃ rely₃ => ?_⟩
    exact ⟨(claimant₂.throws error).later rely₃.2, fun fits =>
      (rely₃.2.resolvedOwn (claimant₂.throws error).owner).trans (nothing₂ fits),
      rely₃.2.running.trans (Function.update_self _ _ _),
      rely₃.2.threw.trans (Function.update_self _ _ _)⟩

/-- How a call that has not run its work may be answered: from a resolved execution, provided
the request is the same, or with one of the two conflicts, according to the record it has
read. -/
inductive Replays (requestHash : String) (read : Option String) (resolved : List Execution) :
    IdempotencyResult → Prop
  | stored (x : Execution) (mem : x ∈ resolved) (same : x.requestHash = requestHash)
      (record : read = some x.record.serialized) : Replays requestHash read resolved x.result
  | conflict (r : StoredRecord) (record : read = some r.serialized)
      (different : r.requestHash ≠ requestHash) : Replays requestHash read resolved keyConflict
  | inProgress (record : read = some (StoredRecord.claim requestHash).serialized) :
      Replays requestHash read resolved requestInProgress

theorem Replays.later {requestHash : String} {read : Option String} {v : IdempotencyResult}
    {xs ys : List Execution} (h : Replays requestHash read xs v) (more : xs <+: ys) :
    Replays requestHash read ys v := by
  cases h with
  | stored x mem same record => exact .stored x (more.subset mem) same record
  | conflict r record different => exact .conflict r record different
  | inProgress record => exact .inProgress record

/-- What the records of the three phases answer. -/
theorem replay_of_phase {key : String} (requestHash : String) (phase : Phase bounded key s)
    {entry : Redis.Entry} (stored : s.server.store key = some entry) :
    ∃ r : StoredRecord, entry.value = r.serialized ∧
      ∃ v, replayOf requestHash (JavaScript.asRead r.toJson) = some v ∧
        Replays requestHash (some entry.value) s.resolved v := by
  cases phase with
  | free _ absent _ => simp [absent] at stored
  | claimed u h ttl _ claim _ =>
      obtain rfl := Option.some_inj.mp (claim.symm.trans stored)
      refine ⟨.claim h, rfl, _, replayOf_claim requestHash h, ?_⟩
      by_cases same : h = requestHash
      · rw [if_pos same]
        exact .inProgress (by rw [same])
      · rw [if_neg same]
        exact .conflict (.claim h) rfl same
  | completed x ttl _ record mem _ =>
      obtain rfl := Option.some_inj.mp (record.symm.trans stored)
      refine ⟨x.record, rfl, _, replayOf_completed requestHash x.requestHash x.status x.body, ?_⟩
      by_cases same : x.requestHash = requestHash
      · rw [if_pos same]
        exact .stored x mem same rfl
      · rw [if_neg same]
        exact .conflict x.record rfl same

/-- A call whose key was taken reads the record; by then it may have vanished. -/
theorem holds_readExistingRecord {requestHash : String} (fresh : Fresh k.redisKey t s) :
    (contract bounded k t).Holds
      (fun replay s => Fresh k.redisKey t s ∧
        ∀ v, replay = some v → Replays requestHash (s.lastRead t) s.resolved v)
      (fun _ _ => False) (readExistingRecord k.redisKey requestHash) s := by
  refine holds_get fun s₁ rely₁ => ?_
  have fresh₁ : ∀ record, Fresh k.redisKey t (s₁.reads t record) := fun record =>
    have earlier := fresh.later rely₁.2
    ⟨earlier.unowned, earlier.ran, earlier.threw, earlier.kept⟩
  cases stored : s₁.server.store k.redisKey with
  | none => exact fun s₂ rely₂ => ⟨(fresh₁ none).later rely₂.2, nofun⟩
  | some entry =>
      obtain ⟨r, text, v, answer, replays⟩ := replay_of_phase requestHash rely₁.1.phase stored
      simp only [Option.map_some, text, serialized_isEmpty, read_serialized, answer]
      intro s₂ rely₂
      refine ⟨(fresh₁ _).later rely₂.2, fun w result => ?_⟩
      obtain rfl := Option.some_inj.mp result
      have read : s₂.lastRead t = some entry.value :=
        text ▸ rely₂.2.lastRead.trans (Function.update_self _ _ _)
      rw [read]
      exact replays.later rely₂.2.resolved

/-- What is left of a call's part after it has released the key. -/
structure Released (key : String) (t : Tid) (s s' : State) : Prop where
  threw : s'.threw t = s.threw t
  ran : s'.ran t = s.ran t
  resolved : s.resolved <+: s'.resolved
  removed : ⟨t, key, some t⟩ ∈ s'.removed

/-- `DEL` by the owner, whose work has ended. -/
theorem holds_release {requestHash : String} (inv : Inv bounded k.redisKey s)
    (claimant : Claimant k.redisKey t requestHash s) (stopped : s.running t = false)
    (thrown : bounded → s.resolved = [] ∧ (s.threw t).isSome) :
    (contract bounded k t).Holds (fun _ s' => Released k.redisKey t s s') (fun _ _ => False)
      (redisIgnoring (.del k.redisKey)) s := by
  refine Contract.Holds.attempt (holds_redis (fun s₁ rely₁ => ?_) fun store => nofun)
    ⟨inv, Rely.refl _ _ _⟩
  have claimant₁ := claimant.later rely₁.2
  refine ⟨⟨requestHash, claimant₁⟩, fun reply store apply => ?_⟩
  cases apply
  have thrown₁ : bounded → s₁.resolved = [] ∧ (s₁.threw t).isSome := fun fits =>
    ⟨(rely₁.2.resolvedOwn claimant.owner).trans (thrown fits).1,
      rely₁.2.threw.symm ▸ (thrown fits).2⟩
  refine ⟨tolerable_release rely₁.1 claimant₁.owner (rely₁.2.running.trans stopped) thrown₁, ?_⟩
  intro s₂ rely₂
  have removed : (⟨t, k.redisKey, some t⟩ : Removal) ∈ (s₁.remove t k.redisKey).removed := by
    simp [State.remove, claimant₁.owner]
  exact ⟨rely₂.2.threw.trans rely₁.2.threw, rely₂.2.ran.trans rely₁.2.ran,
    rely₁.2.resolved.trans rely₂.2.resolved, rely₂.2.removed.subset removed⟩

/-- The owner's bookkeeping after its work has resolved: the response is stored, or, where it
is too large, the key is released. -/
theorem holds_storeResult {requestHash : String} {x : Execution} (inv : Inv bounded k.redisKey s)
    (claimant : Claimant k.redisKey t requestHash s) (resolved : Resolved bounded t x s)
    (hash : x.requestHash = requestHash) :
    (contract bounded k t).Holds
      (fun _ s => x ∈ s.resolved ∧ s.ran t = true ∧ s.threw t = none) (fun _ _ => False)
      (storeResult k.redisKey requestHash x.result) s := by
  obtain rfl := resolved.tid
  obtain rfl := hash
  by_cases large : maxStoredBodyBytes < x.record.serialized.utf8ByteSize
  · have release : storeResult k.redisKey x.requestHash x.result =
        (redisIgnoring (.del k.redisKey) : machine.Task Unit) := if_pos large
    rw [release]
    refine (holds_release inv claimant resolved.stopped fun fits => ?_).mono ?_ ?_
    · have := resolved.fits fits
      omega
    · exact fun _ s₁ released => ⟨released.resolved.subset resolved.mem,
        released.ran.trans resolved.ran, released.threw.trans resolved.threw⟩
    · exact fun _ _ impossible => impossible
  · have store : storeResult k.redisKey x.requestHash x.result =
        (redis (.set k.redisKey x.record.serialized completedTtlSeconds) :
          machine.Task Unit).bind .done := by
      rw [Async.Program.bind_done_right]
      exact if_neg large
    rw [store]
    refine holds_redis (fun s₁ rely₁ => ?_) (fun store => nofun)
    have claimant₁ := claimant.later rely₁.2
    have resolved₁ := resolved.later rely₁.2
    refine ⟨⟨x.requestHash, claimant₁⟩, fun reply store apply => ?_⟩
    cases apply
    refine ⟨tolerable_store rely₁.1 claimant₁.owner resolved₁.mem resolved₁.stopped _, ?_⟩
    exact fun s₂ rely₂ => ⟨rely₂.2.resolved.subset resolved₁.mem,
      rely₂.2.ran.trans resolved₁.ran, rely₂.2.threw.trans resolved₁.threw⟩

/-- How a call may be answered: with the result of its own work, or without running it. -/
inductive Answers (requestHash : String) (t : Tid) (s : State) : IdempotencyResult → Prop
  | own (x : Execution) (mem : x ∈ s.resolved) (tid : x.tid = t)
      (same : x.requestHash = requestHash) (ran : s.ran t = true) (threw : s.threw t = none) :
      Answers requestHash t s x.result
  | replayed (v : IdempotencyResult) (replays : Replays requestHash (s.lastRead t) s.resolved v)
      (ran : s.ran t = false) (threw : s.threw t = none) : Answers requestHash t s v

/-- How a call may fail: with the error of its own work, its claim removed. -/
def Fails (key : String) (t : Tid) (error : ApiError) (s : State) : Prop :=
  s.threw t = some error ∧ ⟨t, key, some t⟩ ∈ s.removed

/-- The owner of a claim runs its work and does the bookkeeping. -/
theorem holds_execute {requestHash : String} (inv : Inv bounded k.redisKey s)
    (claimant : Claimant k.redisKey t requestHash s) (nothing : bounded → s.resolved = [])
    (threw : s.threw t = none) :
    (contract bounded k t).Holds (fun v s => Answers requestHash t s v) (Fails k.redisKey t)
      (execute k.redisKey requestHash (process requestHash)) s := by
  have here : (contract bounded k t).rely s s := ⟨inv, Rely.refl _ _ _⟩
  unfold execute
  refine Contract.Holds.attempt (Contract.Holds.bind ?_ here) here
  refine (holds_process claimant nothing threw).mono ?_ ?_
  · rintro result s₁ ⟨claimant₁, x, resolved, hash, rfl⟩ here₁
    refine Contract.Holds.bind ?_ here₁
    refine (holds_storeResult here₁.1 claimant₁ resolved hash).closed.mono ?_ ?_
    · intro _ s₂ later _ s₃ rely₃
      obtain ⟨mem, ran, threw⟩ := later s₃ rely₃
      exact .own x mem resolved.tid hash ran threw
    · rintro _ _ ⟨⟩
  · rintro error s₁ ⟨claimant₁, thrown⟩ here₁
    refine Contract.Holds.bind ?_ here₁
    have thrown₁ : bounded → s₁.resolved = [] ∧ (s₁.threw t).isSome := fun fits =>
      ⟨thrown.nothing fits, by simp [thrown.threw]⟩
    refine (holds_release here₁.1 claimant₁ thrown.stopped thrown₁).closed.mono ?_ ?_
    · intro _ s₂ later _ s₃ rely₃
      have released := later s₃ rely₃
      exact ⟨released.threw.trans thrown.threw, released.removed⟩
    · rintro _ _ ⟨⟩

/-- **A call keeps the discipline**, however many claims it makes. -/
theorem holds_withIdempotency (ctx : ApiContext) (call : Call k) (attempts : ℕ) :
    ∀ {s : State}, Inv bounded k.redisKey s → Fresh k.redisKey t s →
      (contract bounded k t).Holds (fun v s => Answers (call.requestHash ctx) t s v)
        (Fails k.redisKey t)
        (withIdempotency ctx call.options (process (call.requestHash ctx)) attempts :
          machine.Task IdempotencyResult) s := by
  induction attempts with
  | zero => exact fun _ _ => trivial
  | succ attempts ih =>
      intro s inv fresh
      rw [withIdempotency_succ]
      refine holds_redis (fun s₁ rely₁ => ⟨trivial, fun reply store apply => ?_⟩) (fun store => ?_)
      · have fresh₁ := fresh.later rely₁.2
        cases present : s₁.server.store k.redisKey with
        | none =>
            simp only [Redis.Command.apply, present] at apply
            cases apply
            have tolerable : (discipline bounded k.redisKey).Tolerable t s₁ _ :=
              tolerable_claim rely₁.1 present (call.requestHash ctx) processingTtlSeconds
            exact ⟨tolerable, holds_execute tolerable.1
              ⟨State.put_writer _ _ _ _, ⟨_, State.put_store _ _ _ _⟩, fresh₁.kept⟩
              (rely₁.1.phase.of_absent present).2 fresh₁.threw⟩
        | some entry =>
            simp only [Redis.Command.apply, present] at apply
            cases apply
            have here₁ : (contract bounded k t).rely s₁ s₁ := ⟨rely₁.1, Rely.refl _ _ _⟩
            refine ⟨⟨rely₁.1, fun u _ => Rely.refl _ _ _⟩, Contract.Holds.bind ?_ here₁⟩
            refine (holds_readExistingRecord fresh₁).closed.mono ?_ ?_
            · intro replay s₂ later here₂
              cases replay with
              | none => exact ih here₂.1 (later s₂ here₂).1
              | some v =>
                  intro s₃ rely₃
                  obtain ⟨fresh₃, replays⟩ := later s₃ rely₃
                  exact .replayed v (replays v rfl) fresh₃.ran fresh₃.threw
            · rintro _ _ ⟨⟩
      · simp only [Redis.Command.apply]
        split <;> exact Option.some_ne_none _

/-- Nothing in the environment of the calls touches the record under the key. -/
theorem environment (bounded : Prop) (k : IdempotencyKey) :
    (discipline bounded k.redisKey).Environment (regime bounded k) where
  event := by
    intro e s s' inv allowed hevent
    obtain ⟨server, hserver, rfl⟩ := Option.map_eq_some_iff.mp hevent
    have kept : server.store k.redisKey = s.server.store k.redisKey ∧ server.inFlight = [] := by
      cases e with
      | expire key =>
          simp only [Redis.Server.event] at hserver
          split at hserver
          · cases hserver
            exact ⟨Function.update_of_ne (Ne.symm allowed) _ _, inv.landed⟩
          · cases hserver
      | evict key =>
          simp only [Redis.Server.event] at hserver
          split at hserver
          · cases hserver
            exact ⟨Function.update_of_ne (Ne.symm allowed) _ _, inv.landed⟩
          · cases hserver
      | land position => simp [Redis.Server.event, inv.landed] at hserver
    exact ⟨⟨kept.2, inv.phase.same rfl kept.1 rfl, inv.running, inv.removed⟩, fun u =>
      rely_of_same s { s with server } rfl kept.1 rfl rfl rfl (fun _ _ _ => rfl) rfl rfl rfl⟩
  crash := by
    intro t s inv _
    refine ⟨⟨inv.landed, inv.phase.same rfl rfl rfl, ?_, inv.removed⟩, fun u other => ?_⟩
    · intro u running
      by_cases same : u = t
      · simp [same] at running
      · exact inv.running u (by simpa [Function.update_of_ne same] using running)
    · exact rely_of_same s (machine.crash t s) rfl rfl rfl rfl (Function.update_of_ne other _ _)
        (fun _ _ _ => rfl) rfl rfl rfl

/-- Every call keeps the discipline. -/
theorem handles (ctx : ApiContext) (bounded : Prop) (k : IdempotencyKey) :
    (discipline bounded k.redisKey).Handles (regime bounded k) (handler ctx)
      (fun t call v s => Answers (Call.requestHash ctx call) t s v)
      (fun t (_ : Call k) e s => Fails k.redisKey t e s) :=
  fun _ call _ inv fresh => holds_withIdempotency ctx call call.attempts inv fresh

theorem inv_initial {store : Redis.Store} (absent : store k.redisKey = none) :
    Inv bounded k.redisKey (State.initial store) :=
  ⟨rfl, .free rfl absent fun _ => rfl, nofun, nofun⟩

theorem fresh_initial (key : String) (store : Redis.Store) (t : Tid) :
    Fresh key t (State.initial store) := ⟨nofun, rfl, rfl, nofun⟩

/-- Every pool that is reached before anything was stored under the key is sound. -/
theorem sound_of_steps {ctx : ApiContext} {store : Redis.Store} (absent : store k.redisKey = none)
    {p : Pool machine (Call k) IdempotencyResult}
    (run : Pool.Steps (regime bounded k) (handler ctx) (Pool.idle (State.initial store)) p) :
    Discipline.Sound (discipline bounded k.redisKey) (regime bounded k)
      (fun t call v s => Answers (Call.requestHash ctx call) t s v)
      (fun t (_ : Call k) e s => Fails k.redisKey t e s) p :=
  (Discipline.sound_idle (inv_initial absent) (fresh_initial _ _)).steps
    (environment bounded k) (handles ctx bounded k) run

end Calls

end IdempotentCalls

end OrderPlatform
