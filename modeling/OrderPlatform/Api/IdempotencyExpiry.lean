import OrderPlatform.Async.Schedule
import OrderPlatform.Api.IdempotencyRelease

/-!
# Claims that expire under their owner

A claim does not name its owner, and a call whose work has ended writes or deletes whatever is
stored under the key.  When the claim has expired meanwhile and another call has claimed the key
again, that is the other call's record (`foreign_record_removed`).

In the runs considered here commands are answered or refused and the record may disappear at any
moment.  A call *executes* from its successful claim to its last command on the key (`Executing`).
`OneAtATime` is the condition that a call acquires the key only while no other call executes.
Under it a call only touches its own record (`touches_own_record`).

A call goes through two stages, and what it may do in them is read off its text: it asks for the
key, and never writes (`Asks`); then it has the key, and never asks again (`Keeps`).
-/

namespace OrderPlatform

namespace IdempotentCalls

open Async (Tid Pool Move Slot Regime Program)
open Text (Json)

variable {ctx : ApiContext} {k : IdempotencyKey} {key : String}

/-! ### The condition -/

/-- Commands are answered or refused; the record may disappear at any moment.  A call then may go
on when its record is gone and somebody else has the key. -/
def expiring : Regime machine where
  advance := fun _ c _ _ => c ≠ .redis .late
  event := fun _ _ => True
  crash := fun _ _ => True

instance decidableExpiringAdvance (t : Tid) (c : machine.Choice) (o : machine.Op)
    (s : machine.State) : Decidable (expiring.advance t c o s) :=
  inferInstanceAs (Decidable (c ≠ Choice.redis .late))

instance decidableExpiringEvent (e : machine.Event) (s : machine.State) :
    Decidable (expiring.event e s) := .isTrue trivial

instance decidableExpiringCrash (t : Tid) (s : machine.State) : Decidable (expiring.crash t s) :=
  .isTrue trivial

/-- The call has acquired the key, and has a command on the key still to come. -/
def Executing : Slot machine (Call k) IdempotencyResult → Prop
  | .busy _ (.await (.work _) _) => True
  | .busy _ (.await (.redis (.set _ _ _)) _) => True
  | .busy _ (.await (.redis (.del _)) _) => True
  | _ => False

instance decidableExecuting : (slot : Slot machine (Call k) IdempotencyResult) →
    Decidable (Executing slot)
  | .busy _ (.await (.work _) _) => .isTrue trivial
  | .busy _ (.await (.redis (.set _ _ _)) _) => .isTrue trivial
  | .busy _ (.await (.redis (.del _)) _) => .isTrue trivial
  | .busy _ (.await (.redis (.get _)) _) => .isFalse id
  | .busy _ (.await (.redis (.setNx _ _ _)) _) => .isFalse id
  | .busy _ (.await (.redis (.incr _)) _) => .isFalse id
  | .busy _ (.done _) => .isFalse id
  | .busy _ (.thrown _) => .isFalse id
  | .busy _ (.either _ _) => .isFalse id
  | .busy _ .pending => .isFalse id
  | .free => .isFalse id
  | .dead _ => .isFalse id

/-- The Redis command that the call awaits. -/
def awaited : Slot machine (Call k) IdempotencyResult → Option Redis.Command
  | .busy _ (.await (.redis c) _) => some c
  | _ => none

/-- The commands that replace or remove a record. -/
def Overwrites : Redis.Command → Prop
  | .set _ _ _ => True
  | .del _ => True
  | _ => False

/-- A call that is about to write or delete finds nothing, or the record that it wrote. -/
def TouchesOwn (p : Pool machine (Call k) IdempotencyResult) : Prop :=
  ∀ t c, awaited (p.slot t) = some c → Overwrites c →
    c.key = k.redisKey ∧
      (p.shared.server.store c.key = none ∨ p.shared.writer c.key = some t)

/-- The move lets the call acquire the key. -/
def Acquires (p : Pool machine (Call k) IdempotencyResult) (t : Tid) : Prop :=
  match p.slot t with
  | .busy _ (.await (.redis (.setNx key _ _)) _) => p.shared.server.store key = none
  | _ => False

/-- A call acquires the key only while no other call executes. -/
def OneAtATime (p : Pool machine (Call k) IdempotencyResult) : Move machine (Call k) → Prop
  | .advance t (.redis .none) => Acquires p t → ∀ u, u ≠ t → ¬ Executing (p.slot u)
  | _ => True

/-! ### The two stages of a call -/

/-- Whoever has the key does its work and writes or deletes the record; it never asks again. -/
def Keeps (key : String) {α : Type} : machine.Task α → Prop
  | .await (.work _) next => ∀ r, Keeps key (next r)
  | .await (.redis (.set key' value _)) next =>
      key' = key ∧ (∃ r : StoredRecord, value = r.serialized) ∧ ∀ r, Keeps key (next r)
  | .await (.redis (.del key')) next => key' = key ∧ ∀ r, Keeps key (next r)
  | .await (.redis (.get _)) _ => False
  | .await (.redis (.setNx _ _ _)) _ => False
  | .await (.redis (.incr _)) _ => False
  | .either _ _ => False
  | _ => True

/-- Whoever asks for the key claims and reads, and writes nothing before it has the key. -/
def Asks (key : String) {α : Type} : machine.Task α → Prop
  | .await (.redis (.setNx key' value _)) next =>
      key' = key ∧ (∃ r : StoredRecord, value = r.serialized) ∧
        Keeps key (next (some true)) ∧ Asks key (next (some false)) ∧ Asks key (next none)
  | .await (.redis (.get key')) next =>
      key' = key ∧ ∀ found : Option (Option String),
        (∀ text, found = some (some text) → ∃ r : StoredRecord, text = r.serialized) →
          Asks key (next found)
  | .await (.redis (.set _ _ _)) _ => False
  | .await (.redis (.del _)) _ => False
  | .await (.redis (.incr _)) _ => False
  | .await (.work _) _ => False
  | .either _ _ => False
  | _ => True

section Stages

variable {α β : Type}

theorem Keeps.bind {p : machine.Task α} {f : α → machine.Task β} (h : Keeps key p)
    (next : ∀ a, Keeps key (f a)) : Keeps key (p.bind f) := by
  induction p with
  | done a => exact next a
  | thrown e => trivial
  | either p q _ _ => exact h.elim
  | pending => trivial
  | await o rest ih =>
      obtain c | w := o
      · cases c with
        | set key' value seconds => exact ⟨h.1, h.2.1, fun r => ih r (h.2.2 r)⟩
        | del key' => exact ⟨h.1, fun r => ih r (h.2 r)⟩
        | get key' => exact h.elim
        | setNx key' value seconds => exact h.elim
        | incr key' => exact h.elim
      · exact fun r => ih r (h r)

theorem Keeps.attempt {p : machine.Task α} {handler : ApiError → machine.Task α}
    (h : Keeps key p) (handle : ∀ e, Keeps key (handler e)) : Keeps key (p.attempt handler) := by
  induction p with
  | done a => trivial
  | thrown e => exact handle e
  | either p q _ _ => exact h.elim
  | pending => trivial
  | await o rest ih =>
      obtain c | w := o
      · cases c with
        | set key' value seconds => exact ⟨h.1, h.2.1, fun r => ih r (h.2.2 r)⟩
        | del key' => exact ⟨h.1, fun r => ih r (h.2 r)⟩
        | get key' => exact h.elim
        | setNx key' value seconds => exact h.elim
        | incr key' => exact h.elim
      · exact fun r => ih r (h r)

/-- A release. -/
theorem keeps_release : Keeps key (redisIgnoring (.del key) : machine.Task Unit) := by
  refine ⟨rfl, fun reply => ?_⟩
  cases reply <;> trivial

/-- **The owner of the claim keeps the key.** -/
theorem keeps_execute (requestHash : String) :
    Keeps key (execute key requestHash (process requestHash) : machine.Task IdempotencyResult) := by
  unfold execute
  refine Keeps.attempt (Keeps.bind ?_ fun result => Keeps.bind ?_ fun _ => trivial) fun e =>
    keeps_release.bind fun _ => trivial
  · -- the work starts and ends
    refine fun _ outcome => ?_
    cases outcome <;> trivial
  · by_cases large : TooLarge requestHash result
    · have release : storeResult key requestHash result =
          (redisIgnoring (.del key) : machine.Task Unit) := if_pos large
      rw [release]
      exact keeps_release
    · have store : storeResult key requestHash result =
          (redis (.set key
            (StoredRecord.completed requestHash result.status result.body).serialized
            completedTtlSeconds) : machine.Task Unit) := if_neg large
      rw [store]
      refine ⟨rfl, ⟨_, rfl⟩, fun reply => ?_⟩
      cases reply <;> trivial

/-- A reader of readable records finds an answer, or nothing, and then goes on. -/
private theorem asks_readExistingRecord {requestHash : String}
    {f : Option IdempotencyResult → machine.Task IdempotencyResult}
    (answer : ∀ v, Asks key (f (some v))) (again : Asks key (f none)) :
    Asks key ((readExistingRecord key requestHash).bind f) := by
  refine ⟨rfl, fun found readable => ?_⟩
  obtain _ | _ | text := found
  · trivial
  · exact again
  · obtain ⟨r, rfl⟩ := readable text rfl
    show Asks key (Program.bind (Program.bind (.done (some r.serialized)) _) f)
    simp only [Program.bind, serialized_isEmpty, read_serialized, Bool.false_eq_true, if_false]
    cases replayOf requestHash (JavaScript.asRead r.toJson) with
    | none => trivial
    | some v => exact answer v

/-- **A call asks for the key**, however many claims it makes. -/
theorem asks_handler (ctx : ApiContext) (call : Call k) (attempts : ℕ) :
    Asks k.redisKey (withIdempotency ctx call.options (process (call.requestHash ctx)) attempts :
      machine.Task IdempotencyResult) := by
  induction attempts with
  | zero => trivial
  | succ attempts ih =>
      rw [withIdempotency_succ]
      refine ⟨rfl, ⟨_, rfl⟩, keeps_execute _, ?_, trivial⟩
      exact asks_readExistingRecord (fun _ => trivial) ih

/-- Who only asks does not execute. -/
theorem Asks.not_executing {call : Call k} {task : machine.Task IdempotencyResult}
    (h : Asks key task) : ¬ Executing (.busy call task) := by
  intro executing
  cases task with
  | await o next =>
      obtain c | w := o
      · cases c with
        | set key' value seconds => exact h
        | del key' => exact h
        | get key' => exact executing
        | setNx key' value seconds => exact executing
        | incr key' => exact executing
      · exact h
  | done a => exact executing
  | thrown e => exact executing
  | either p q => exact executing
  | pending => exact executing

end Stages

/-- Who has the key and awaits something executes. -/
theorem Keeps.executing {call : Call k} {o : machine.Op}
    {next : machine.Reply o → machine.Task IdempotencyResult} (h : Keeps key (.await o next)) :
    Executing (.busy call (.await o next)) := by
  obtain c | w := o
  · cases c with
    | set key' value seconds => trivial
    | del key' => trivial
    | get key' => exact h
    | setNx key' value seconds => exact h
    | incr key' => exact h
  · trivial

/-- Who only asks writes and deletes nothing. -/
theorem Asks.not_overwrites {c : Redis.Command}
    {next : Option c.Reply → machine.Task IdempotencyResult}
    (h : Asks key (.await (.redis c) next : machine.Task IdempotencyResult)) : ¬ Overwrites c := by
  cases c with
  | set key' value seconds => exact h.elim
  | del key' => exact h.elim
  | get key' => exact id
  | setNx key' value seconds => exact id
  | incr key' => exact id

/-- Who has the key works on no other. -/
theorem Keeps.key_eq {c : Redis.Command} {next : Option c.Reply → machine.Task IdempotencyResult}
    (h : Keeps key (.await (.redis c) next : machine.Task IdempotencyResult)) : c.key = key := by
  cases c with
  | set key' value seconds => exact h.1
  | del key' => exact h.1
  | get key' => exact h.elim
  | setNx key' value seconds => exact h.elim
  | incr key' => exact h.elim

/-- The call that awaits a command. -/
theorem busy_of_awaited {slot : Slot machine (Call k) IdempotencyResult} {c : Redis.Command}
    (h : awaited slot = some c) : ∃ call next, slot = .busy call (.await (.redis c) next) := by
  unfold awaited at h
  split at h
  · rename_i call c' next
    obtain rfl := Option.some_inj.mp h
    exact ⟨call, next, rfl⟩
  · cases h

/-! ### What one operation does -/

/-- A command is refused, or executed and answered. -/
private theorem exec_expiring {t : Tid} {choice : Choice} {c : Redis.Command} {s s' : State}
    {r : Option c.Reply} (intime : choice ≠ .redis .late)
    (hexec : exec t choice (.redis c) s = some (r, s')) :
    (r = none ∧ s' = s) ∨
      ∃ reply store, choice = .redis .none ∧ c.apply s.server.store = some (reply, store) ∧
        r = some reply ∧ s' = State.note t c r { s with server := { s.server with store } } := by
  cases choice with
  | redis fault =>
      cases fault with
      | none =>
          cases applied : c.apply s.server.store with
          | none =>
              simp only [exec, Redis.Server.call, applied, State.note_none] at hexec
              cases hexec
              exact .inl ⟨rfl, rfl⟩
          | some x =>
              simp only [exec, Redis.Server.call, applied] at hexec
              cases hexec
              exact .inr ⟨x.1, x.2, rfl, rfl, rfl, rfl⟩
      | refused =>
          simp only [exec, Redis.Server.call, State.note_none] at hexec
          cases hexec
          exact .inl ⟨rfl, rfl⟩
      | late => exact absurd rfl intime
  | begins => cases hexec
  | resolves status body => cases hexec
  | throws error => cases hexec

/-- Work touches neither Redis nor the history of the records. -/
private theorem exec_work {t : Tid} {choice : Choice} {w : Work} {s s' : State} {r : w.Reply}
    (hexec : exec t choice (.work w) s = some (r, s')) :
    s'.server = s.server ∧ s'.writer = s.writer := by
  cases choice with
  | redis fault => cases w <;> cases hexec
  | begins =>
      cases w with
      | start requestHash => cases hexec; exact ⟨rfl, rfl⟩
      | finish requestHash => cases hexec
  | resolves status body =>
      cases w with
      | start requestHash => cases hexec
      | finish requestHash => cases hexec; exact ⟨rfl, rfl⟩
  | throws error =>
      cases w with
      | start requestHash => cases hexec
      | finish requestHash => cases hexec; exact ⟨rfl, rfl⟩

/-! ### The invariant -/

/-- What the store holds under the key can be read back. -/
def Readable (key : String) (store : Redis.Store) : Prop :=
  ∀ entry, store key = some entry → ∃ r : StoredRecord, entry.value = r.serialized

private theorem readable_write (store : Redis.Store) (record : StoredRecord) (seconds : ℕ) :
    Readable key (Function.update store key (some ⟨record.serialized, some seconds⟩)) := by
  intro entry found
  rw [Function.update_self] at found
  cases found
  exact ⟨record, rfl⟩

private theorem readable_clear (store : Redis.Store) :
    Readable key (Function.update store key none) := by
  intro entry found
  rw [Function.update_self] at found
  cases found

/-- One call executes at a time, and the record under the key is its own. -/
structure Exclusive (key : String) (p : Pool machine (Call k) IdempotencyResult) : Prop where
  landed : p.shared.server.inFlight = []
  readable : Readable key p.shared.server.store
  stage : ∀ t call task, p.slot t = .busy call task → Asks key task ∨ Keeps key task
  one : ∀ t u, Executing (p.slot t) → Executing (p.slot u) → t = u
  own : ∀ t, Executing (p.slot t) →
    p.shared.server.store key = none ∨ p.shared.writer key = some t

section Preservation

variable {p : Pool machine (Call k) IdempotencyResult} {t : Tid} {s : State}
variable {slot : Slot machine (Call k) IdempotencyResult}

/-- A slot changes. -/
private theorem Exclusive.update (inv : Exclusive key p) (landed : s.server.inFlight = [])
    (readable : Readable key s.server.store)
    (stage : ∀ call task, slot = .busy call task → Asks key task ∨ Keeps key task)
    (alone : Executing slot → ∀ u, u ≠ t → ¬ Executing (p.slot u))
    (own : Executing slot → s.server.store key = none ∨ s.writer key = some t)
    (others : ∀ u, u ≠ t → Executing (p.slot u) →
      s.server.store key = none ∨ s.writer key = some u) :
    Exclusive key ⟨s, Function.update p.slot t slot⟩ := by
  have self : (Pool.mk s (Function.update p.slot t slot)).slot t = slot := Function.update_self _ _ _
  have kept : ∀ u, u ≠ t → (Pool.mk s (Function.update p.slot t slot)).slot u = p.slot u :=
    fun u other => Function.update_of_ne other _ _
  refine ⟨landed, readable, fun u call task busy => ?_, fun u v hu hv => ?_, fun u hu => ?_⟩
  · by_cases same : u = t
    · subst same
      rw [self] at busy
      exact stage call task busy
    · rw [kept u same] at busy
      exact inv.stage u call task busy
  · by_cases hut : u = t <;> by_cases hvt : v = t
    · rw [hut, hvt]
    · subst hut
      rw [self] at hu
      rw [kept v hvt] at hv
      exact absurd hv (alone hu v hvt)
    · subst hvt
      rw [self] at hv
      rw [kept u hut] at hu
      exact absurd hu (alone hv u hut)
    · rw [kept u hut] at hu
      rw [kept v hvt] at hv
      exact inv.one u v hu hv
  · by_cases same : u = t
    · subst same
      rw [self] at hu
      exact own hu
    · rw [kept u same] at hu
      exact others u same hu

/-- A slot changes, and nothing that concerns the record does. -/
private theorem Exclusive.frame (inv : Exclusive key p) (server : s.server = p.shared.server)
    (writer : s.writer = p.shared.writer)
    (stage : ∀ call task, slot = .busy call task → Asks key task ∨ Keeps key task)
    (still : Executing slot → Executing (p.slot t)) :
    Exclusive key ⟨s, Function.update p.slot t slot⟩ := by
  refine inv.update (by rw [server]; exact inv.landed) (by rw [server]; exact inv.readable) stage
    (fun executing u other hu => other (inv.one u t hu (still executing))) ?_ ?_
  · rw [server, writer]
    exact fun executing => inv.own t (still executing)
  · rw [server, writer]
    exact fun u _ executing => inv.own u executing

/-- A command of a call that asks for the key. -/
private theorem Exclusive.ask {call : Call k} {choice : Choice} {c : Redis.Command}
    {next : Option c.Reply → machine.Task IdempotencyResult} {r : Option c.Reply}
    (inv : Exclusive key p) (busy : p.slot t = .busy call (.await (.redis c) next))
    (asks : Asks key (.await (.redis c) next : machine.Task IdempotencyResult))
    (intime : choice ≠ .redis .late) (free : OneAtATime p (.advance t choice))
    (hexec : exec t choice (.redis c) p.shared = some (r, s)) :
    Exclusive key ⟨s, Function.update p.slot t (.busy call (next r))⟩ := by
  -- a call that still asks afterwards does not execute
  have asking : Asks key (next r) → s.server = p.shared.server → s.writer = p.shared.writer →
      Exclusive key ⟨s, Function.update p.slot t (.busy call (next r))⟩ := by
    intro asks server writer
    refine inv.frame server writer ?_ fun executing => (asks.not_executing executing).elim
    rintro call task ⟨⟩
    exact .inl asks
  cases c with
  | get key' =>
      obtain ⟨rfl, asks⟩ := asks
      obtain ⟨rfl, rfl⟩ | ⟨reply, store, _, applied, rfl, rfl⟩ := exec_expiring intime hexec
      · exact asking (asks none nofun) rfl rfl
      · cases applied
        refine asking (asks _ fun text found => ?_) rfl rfl
        obtain ⟨entry, stored, rfl⟩ := Option.map_eq_some_iff.mp (Option.some_inj.mp found)
        exact inv.readable entry stored
  | setNx key' value seconds =>
      obtain ⟨rfl, ⟨record, written⟩, keeps, again, failed⟩ := asks
      obtain ⟨rfl, rfl⟩ | ⟨reply, store, rfl, applied, rfl, rfl⟩ := exec_expiring intime hexec
      · exact asking failed rfl rfl
      · cases stored : p.shared.server.store key' with
        | some entry =>
            simp only [Redis.Command.apply, stored] at applied
            cases applied
            exact asking again rfl rfl
        | none =>
            simp only [Redis.Command.apply, stored] at applied
            cases applied
            -- the call acquires the key
            have alone : ∀ u, u ≠ t → ¬ Executing (p.slot u) := by
              refine free ?_
              simp only [Acquires, busy]
              exact stored
            subst written
            refine inv.update inv.landed (readable_write p.shared.server.store record seconds) ?_
              (fun _ => alone) (fun _ => .inr (Function.update_self _ _ _))
              fun u other executing => absurd executing (alone u other)
            rintro call task ⟨⟩
            exact .inr keeps
  | set key' value seconds => exact asks.elim
  | del key' => exact asks.elim
  | incr key' => exact asks.elim

/-- A command of the call that has the key. -/
private theorem Exclusive.keep {call : Call k} {choice : Choice} {c : Redis.Command}
    {next : Option c.Reply → machine.Task IdempotencyResult} {r : Option c.Reply}
    (inv : Exclusive key p) (busy : p.slot t = .busy call (.await (.redis c) next))
    (keeps : Keeps key (.await (.redis c) next : machine.Task IdempotencyResult))
    (intime : choice ≠ .redis .late)
    (hexec : exec t choice (.redis c) p.shared = some (r, s)) :
    Exclusive key ⟨s, Function.update p.slot t (.busy call (next r))⟩ := by
  have executing : Executing (p.slot t) := by
    rw [busy]
    exact keeps.executing
  have alone : ∀ u, u ≠ t → ¬ Executing (p.slot u) := fun u other hu =>
    other (inv.one u t hu executing)
  have stage : Keeps key (next r) → ∀ call' task, Slot.busy call (next r) = .busy call' task →
      Asks key task ∨ Keeps key task := by
    rintro after call' task ⟨⟩
    exact .inr after
  cases c with
  | set key' value seconds =>
      obtain ⟨rfl, ⟨record, written⟩, after⟩ := keeps
      obtain ⟨rfl, rfl⟩ | ⟨reply, store, _, applied, rfl, rfl⟩ := exec_expiring intime hexec
      · exact inv.frame rfl rfl (stage (after none)) fun _ => executing
      · cases applied
        subst written
        exact inv.update inv.landed (readable_write p.shared.server.store record seconds)
          (stage (after _)) (fun _ => alone) (fun _ => .inr (Function.update_self _ _ _))
          fun u other hu => absurd hu (alone u other)
  | del key' =>
      obtain ⟨rfl, after⟩ := keeps
      obtain ⟨rfl, rfl⟩ | ⟨reply, store, _, applied, rfl, rfl⟩ := exec_expiring intime hexec
      · exact inv.frame rfl rfl (stage (after none)) fun _ => executing
      · cases applied
        exact inv.update inv.landed (readable_clear p.shared.server.store) (stage (after _))
          (fun _ => alone) (fun _ => .inl (Function.update_self _ _ _))
          fun u other hu => absurd hu (alone u other)
  | get key' => exact keeps.elim
  | setNx key' value seconds => exact keeps.elim
  | incr key' => exact keeps.elim

end Preservation

/-- Redis drops the record, or something else. -/
private theorem Exclusive.event {p : Pool machine (Call k) IdempotencyResult} {e : Redis.Event}
    {server : Redis.Server} (inv : Exclusive key p)
    (dropped : Redis.Server.event e p.shared.server = some server) :
    Exclusive key ⟨{ p.shared with server }, p.slot⟩ := by
  have effect : server.inFlight = [] ∧
      (server.store key = none ∨ server.store key = p.shared.server.store key) := by
    have drop : ∀ other, Function.update p.shared.server.store other none key = none ∨
        Function.update p.shared.server.store other none key = p.shared.server.store key := by
      intro other
      by_cases same : key = other
      · rw [same, Function.update_self]
        exact .inl rfl
      · exact .inr (Function.update_of_ne same _ _)
    cases e with
    | expire other =>
        simp only [Redis.Server.event] at dropped
        split at dropped
        · cases dropped
          exact ⟨inv.landed, drop other⟩
        · cases dropped
    | evict other =>
        simp only [Redis.Server.event] at dropped
        split at dropped
        · cases dropped
          exact ⟨inv.landed, drop other⟩
        · cases dropped
    | land position => simp [Redis.Server.event, inv.landed] at dropped
  refine ⟨effect.1, fun entry stored => ?_, inv.stage, inv.one, fun t executing => ?_⟩
  · change server.store key = some entry at stored
    rcases effect.2 with gone | kept
    · rw [gone] at stored
      cases stored
    · exact inv.readable entry (kept ▸ stored)
  · rcases effect.2 with gone | kept
    · exact .inl gone
    · change server.store key = none ∨ _
      rw [kept]
      exact inv.own t executing

/-- **Exclusion is kept** by every move that acquires the key only while nobody executes. -/
private theorem Exclusive.next {p q : Pool machine (Call k) IdempotencyResult}
    {m : Move machine (Call k)} (inv : Exclusive k.redisKey p) (free : OneAtATime p m)
    (allowed : p.Allows expiring m) (hnext : p.next (handler ctx) m = some q) :
    Exclusive k.redisKey q := by
  cases m with
  | start t call =>
      obtain ⟨_, rfl⟩ := Pool.next_start hnext
      have asks := asks_handler ctx call call.attempts
      refine inv.frame rfl rfl ?_ fun executing => (asks.not_executing executing).elim
      rintro call' task ⟨⟩
      exact .inl asks
  | advance t choice =>
      obtain ⟨call, o, next, r, s, busy, hexec, rfl⟩ := Pool.next_advance hnext
      simp only [Pool.Allows, busy] at allowed
      obtain c | w := o
      · rcases inv.stage t call _ busy with asks | keeps
        · exact inv.ask busy asks allowed free hexec
        · exact inv.keep busy keeps allowed hexec
      · -- only the call that has the key works
        have keeps : Keeps k.redisKey (.await (.work w) next : machine.Task IdempotencyResult) :=
          (inv.stage t call _ busy).resolve_left id
        obtain ⟨server, writer⟩ := exec_work hexec
        refine inv.frame server writer ?_ fun _ => by rw [busy]; trivial
        rintro call' task ⟨⟩
        exact .inr (keeps r)
  | pick t left =>
      obtain ⟨call, l, r, task, busy, _, _⟩ := Pool.next_pick hnext
      exact (inv.stage t call _ busy).elim False.elim False.elim
  | event e =>
      obtain ⟨s, happens, rfl⟩ := Pool.next_event hnext
      obtain ⟨server, dropped, rfl⟩ := Option.map_eq_some_iff.mp happens
      exact inv.event dropped
  | crash t =>
      obtain ⟨_, _, _, _, rfl⟩ := Pool.next_crash hnext
      exact inv.frame rfl rfl nofun False.elim

/-- **A call only touches its own record**, as long as the key is acquired only while no other
call executes.

`Exclusive` is kept by every move that meets the condition: one call executes at a time, and the
record under the key is its own, or there is none.  The record may still disappear at any moment. -/
theorem touches_own_record {store : Redis.Store} (readable : Readable k.redisKey store)
    {p : Pool machine (Call k) IdempotencyResult}
    (run : Pool.StepsWhere expiring OneAtATime (handler ctx) (Pool.idle (State.initial store)) p) :
    TouchesOwn p := by
  have inv : Exclusive k.redisKey p := run.invariant
    ⟨rfl, readable, nofun, fun t _ executing => executing.elim, fun t executing => executing.elim⟩
    fun _ _ _ inv free allowed hnext => inv.next free allowed hnext
  intro t c stands overwrites
  obtain ⟨call, next, busy⟩ := busy_of_awaited stands
  rcases inv.stage t call _ busy with asks | keeps
  · exact absurd overwrites asks.not_overwrites
  · have executing : Executing (p.slot t) := by
      rw [busy]
      exact keeps.executing
    rw [keeps.key_eq]
    exact ⟨rfl, inv.own t executing⟩

instance decidableOverwrites : (c : Redis.Command) → Decidable (Overwrites c)
  | .set _ _ _ => .isTrue trivial
  | .del _ => .isTrue trivial
  | .get _ => .isFalse id
  | .setNx _ _ _ => .isFalse id
  | .incr _ => .isFalse id

/-- `OneAtATime`, looking only at the calls below `n`. -/
def oneAtATimeBelow (n : ℕ) (p : Pool machine (Call k) IdempotencyResult) :
    Move machine (Call k) → Bool
  | .advance t (.redis .none) =>
      match p.slot t with
      | .busy _ (.await (.redis (.setNx key _ _)) _) =>
          (p.shared.server.store key).isSome ||
            (List.range n).all fun u => u == t || !decide (Executing (p.slot u))
      | _ => true
  | _ => true

/-- Calls that have not been made do not execute. -/
theorem oneAtATime_of_below {n : ℕ} {p : Pool machine (Call k) IdempotencyResult}
    {m : Move machine (Call k)} (free : Pool.FreeFrom n p) (below : oneAtATimeBelow n p m = true) :
    OneAtATime p m := by
  unfold oneAtATimeBelow at below
  split at below
  · intro acquires u other executing
    unfold Acquires at acquires
    split at acquires
    · rename_i busy
      simp only [busy, acquires, Option.isSome_none, Bool.false_or] at below
      by_cases small : u < n
      · have all := List.all_eq_true.mp below u (List.mem_range.mpr small)
        simp [other, executing] at all
      · rw [free u (Nat.not_lt.mp small)] at executing
        exact executing
    · exact acquires
  · unfold OneAtATime
    split
    · rename_i no
      exact absurd rfl (no _)
    · trivial

/-- A claim expires under a call whose work then throws; the next call acquires the key once that
one is gone, and is about to release its own claim. -/
theorem touches_own_record_of_two_calls :
    ∃ q : Pool machine (Call exampleKey) IdempotencyResult,
      Pool.StepsWhere expiring OneAtATime (handler (exampleContext exampleSha256))
        (Pool.idle (State.initial fun _ => none)) q ∧ TouchesOwn q ∧
      awaited (q.slot 1) = some (.del exampleKey.redisKey) ∧
      (q.shared.server.store exampleKey.redisKey).isSome ∧
      q.shared.writer exampleKey.redisKey = some 1 := by
  obtain ⟨q, steps, -, stands⟩ := Pool.stepsWhere_of_check expiring
    (fun p m => oneAtATimeBelow 2 p m = true) (handler (exampleContext exampleSha256)) 2
    (fun p m => oneAtATime_of_below) (State.initial fun _ => none)
    [.start 0 (exampleCall "x"), .advance 0 (.redis .none), .advance 0 .begins,
      .event (.expire exampleKey.redisKey), .advance 0 (.throws .typeError),
      .advance 0 (.redis .none), .start 1 (exampleCall "y"), .advance 1 (.redis .none),
      .advance 1 .begins, .advance 1 (.throws .typeError)]
    (fun q => awaited (q.slot 1) = some (.del exampleKey.redisKey) ∧
      (q.shared.server.store exampleKey.redisKey).isSome ∧
      q.shared.writer exampleKey.redisKey = some 1) (by decide)
  exact ⟨q, steps, touches_own_record (fun _ stored => by cases stored) steps, stands⟩

/-- A claim expires while its call is still at work, and a second call acquires the key.  The
first call's work throws: it is about to remove the second call's claim.  Once it has, a third
call acquires the key, and two works run at once. -/
theorem foreign_record_removed :
    ∃ p q : Pool machine (Call exampleKey) IdempotencyResult,
      Pool.Steps expiring (handler (exampleContext exampleSha256))
        (Pool.idle (State.initial fun _ => none)) p ∧ ¬ TouchesOwn p ∧
      Pool.Steps expiring (handler (exampleContext exampleSha256)) p q ∧
      ⟨0, exampleKey.redisKey, some 1⟩ ∈ q.shared.removed ∧
      q.shared.running 1 = true ∧ q.shared.running 2 = true := by
  obtain ⟨p, steps, stands, occupied, foreign, goes⟩ := Pool.steps_of_check expiring
    (handler (exampleContext exampleSha256)) (Pool.idle (State.initial fun _ => none))
    [.start 0 (exampleCall "x"), .advance 0 (.redis .none), .advance 0 .begins,
      .event (.expire exampleKey.redisKey), .start 1 (exampleCall "y"),
      .advance 1 (.redis .none), .advance 1 .begins, .advance 0 (.throws .typeError)]
    (fun p => awaited (p.slot 0) = some (.del exampleKey.redisKey) ∧
      (p.shared.server.store exampleKey.redisKey).isSome ∧
      p.shared.writer exampleKey.redisKey = some 1 ∧
      (Pool.run expiring (handler (exampleContext exampleSha256)) p
        [.advance 0 (.redis .none), .start 2 (exampleCall "x"), .advance 2 (.redis .none),
          .advance 2 .begins]).any fun q =>
        decide (⟨0, exampleKey.redisKey, some 1⟩ ∈ q.shared.removed ∧
          q.shared.running 1 = true ∧ q.shared.running 2 = true)) (by decide)
  obtain ⟨q, further, released⟩ := Pool.steps_of_check expiring _ p _ _ goes
  refine ⟨p, q, steps, fun own => ?_, further, released⟩
  obtain ⟨_, absent | mine⟩ := own 0 _ stands trivial
  · change p.shared.server.store exampleKey.redisKey = none at absent
    rw [absent] at occupied
    cases occupied
  · change p.shared.writer exampleKey.redisKey = some 0 at mine
    rw [foreign] at mine
    cases mine

end IdempotentCalls

end OrderPlatform
