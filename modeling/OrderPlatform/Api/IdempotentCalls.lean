import OrderPlatform.Async.Pool
import OrderPlatform.Api.Idempotency

/-!
# Concurrent calls of `withIdempotency`

Any number of calls, made by any number of API processes, compete for the records in one
Redis.  The work a call protects is opaque here: it starts, and later it resolves or throws,
and that is all the layer knows of it.  What it does in between is somebody else's concern.

Next to the Redis server the state keeps what a statement about the layer has to refer to:
which work is running, what has resolved, what a call last read, who wrote the record that is
stored, and what every `DEL` has removed.  None of these influences a step.

* `IdempotentCalls.machine` — the meaning of the operations.
* `IdempotentCalls.Call` — a call that carries a given, well-formed key.
* `IdempotentCalls.handler` — `withIdempotency` around the opaque work.
-/

namespace OrderPlatform

namespace IdempotentCalls

open Async (Tid Program Machine)
open Text (Json)

/-- The work of a call, identified by the hash of its request: it starts and it ends. -/
inductive Work
  | start (requestHash : String)
  | finish (requestHash : String)

/-- Work ends with a result or with an error. -/
def Work.Reply : Work → Type
  | start _ => Unit
  | finish _ => Except ApiError IdempotencyResult

/-- How an operation goes. -/
inductive Choice
  | redis (fault : Redis.Fault)
  | begins
  | resolves (status : ℤ) (body : Option Json)
  | throws (error : ApiError)
deriving DecidableEq

/-- Work that has resolved. -/
structure Execution where
  tid : Tid
  requestHash : String
  status : ℤ
  body : Option Json
deriving DecidableEq

namespace Execution

/-- What the work of an execution has resolved with. -/
def result (x : Execution) : IdempotencyResult := ⟨.num x.status, x.body⟩

/-- The record that the call stores. -/
def record (x : Execution) : StoredRecord := .completed x.requestHash (.num x.status) x.body

end Execution

/-- An executed `DEL`, and the call whose record it removed. -/
structure Removal where
  tid : Tid
  key : String
  writer : Option Tid
deriving DecidableEq

/-- The state that the calls share: Redis, and what the calls have done so far.  Only `server` is
read by an operation; the other fields are written for the theorems. -/
structure State where
  server : Redis.Server
  /-- The call that wrote the record under a key. -/
  writer : String → Option Tid
  running : Tid → Bool
  /-- Whether a call has started its work. -/
  ran : Tid → Bool
  resolved : List Execution
  threw : Tid → Option ApiError
  /-- The last reply of a `GET`. -/
  lastRead : Tid → Option String
  removed : List Removal

/-- No call has been made yet; nothing is said about what Redis holds. -/
def State.initial (store : Redis.Store) : State where
  server := ⟨store, []⟩
  writer := fun _ => none
  running := fun _ => false
  ran := fun _ => false
  resolved := []
  threw := fun _ => none
  lastRead := fun _ => none
  removed := []

/-- A call has read a record. -/
def State.reads (t : Tid) (record : Option String) (s : State) : State :=
  { s with lastRead := Function.update s.lastRead t record }

/-- What an answered command adds to the history. -/
def State.note (t : Tid) : (c : Redis.Command) → Option c.Reply → State → State
  | .get _, some reply, s => s.reads t reply
  | .set key _ _, some _, s => { s with writer := Function.update s.writer key (some t) }
  | .setNx key _ _, some acquired, s =>
      bif acquired then { s with writer := Function.update s.writer key (some t) } else s
  | .del key, some _, s =>
      { s with
        removed := s.removed ++ [⟨t, key, s.writer key⟩]
        writer := Function.update s.writer key none }
  | _, _, s => s

/-- A command that was not answered leaves no history. -/
theorem State.note_none (t : Tid) (c : Redis.Command) (s : State) : s.note t c none = s := by
  cases c <;> rfl

/-- The work of a call starts. -/
def State.starts (t : Tid) (s : State) : State :=
  { s with
    running := Function.update s.running t true
    ran := Function.update s.ran t true }

/-- The work of a call resolves. -/
def State.resolves (x : Execution) (s : State) : State :=
  { s with
    running := Function.update s.running x.tid false
    resolved := s.resolved ++ [x] }

/-- The work of a call throws. -/
def State.throws (t : Tid) (error : ApiError) (s : State) : State :=
  { s with
    running := Function.update s.running t false
    threw := Function.update s.threw t (some error) }

/-- One operation of a call, with the choice of the environment: whether a Redis command fails, and
how the work of the call ends. -/
def exec (t : Tid) : Choice → (o : Op Work) → State → Option (o.Reply Work.Reply × State)
  | .redis fault, .redis c, s =>
      let (reply, server) := s.server.call fault c
      some (reply, State.note t c reply { s with server })
  | .begins, .work (.start _), s => some ((), s.starts t)
  | .resolves status body, .work (.finish requestHash), s =>
      some (.ok ⟨.num status, body⟩, s.resolves ⟨t, requestHash, status, body⟩)
  | .throws error, .work (.finish _), s => some (.error error, s.throws t error)
  | _, _, _ => none

/-- The calls as a machine.  A call that dies takes its work with it. -/
@[reducible] def machine : Machine where
  Op := Op Work
  Reply := Op.Reply Work.Reply
  Error := ApiError
  State := State
  Choice := Choice
  Event := Redis.Event
  exec := exec
  event e s := (Redis.Server.event e s.server).map fun server => { s with server }
  crash t s := { s with running := Function.update s.running t false }

/-- The work of a call. -/
def process (requestHash : String) : Api Work Work.Reply IdempotencyResult :=
  .await (.work (.start requestHash)) fun _ =>
    .await (.work (.finish requestHash)) fun
      | .ok result => .done result
      | .error error => .thrown error

/-- A key as one user may use it for one endpoint. -/
structure IdempotencyKey where
  scope : String
  userId : String
  key : String
  valid : matchesIdempotencyKeyRegex key = true

/-- The Redis key of an idempotency key; scope and user are part of it. -/
def IdempotencyKey.redisKey (k : IdempotencyKey) : String :=
  buildRedisKey k.scope k.userId k.key

/-- A call under a given key: its request, with any body, carries that key. -/
structure Call (k : IdempotencyKey) where
  request : FastifyRequest
  requestBody : Json
  /-- How many claims the call may make. -/
  attempts : ℕ
  sent : readIdempotencyKey request = some k.key

variable {k : IdempotencyKey}

/-- The hash that the call stores and compares. -/
def Call.requestHash (ctx : ApiContext) (call : Call k) : String :=
  canonicalRequestHash ctx call.request call.requestBody

/-- The options that the call passes to `runIdempotent`. -/
def Call.options (call : Call k) : IdempotencyOptions :=
  ⟨k.scope, k.userId, call.request, call.requestBody⟩

/-- A call, from its start to its answer. -/
def handler (ctx : ApiContext) (call : Call k) : machine.Task IdempotencyResult :=
  withIdempotency ctx call.options (process (call.requestHash ctx)) call.attempts

/-- One round of a call that carries a well-formed key. -/
theorem withIdempotency_succ (ctx : ApiContext) (call : Call k)
    (work : Api Work Work.Reply IdempotencyResult) (attempts : ℕ) :
    withIdempotency ctx call.options work (attempts + 1) =
      (redis (.setNx k.redisKey (StoredRecord.claim (call.requestHash ctx)).serialized
          processingTtlSeconds)).bind fun (acquired : Bool) =>
        if acquired then execute k.redisKey (call.requestHash ctx) work
        else
          (readExistingRecord k.redisKey (call.requestHash ctx)).bind fun
            | some replay => .done replay
            | none => withIdempotency ctx call.options work attempts := by
  simp only [withIdempotency, Call.options, call.sent, k.valid, if_true]
  rfl

end IdempotentCalls

end OrderPlatform
