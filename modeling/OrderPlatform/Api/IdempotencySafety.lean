import OrderPlatform.Api.IdempotencyOwnership

/-!
# At most one execution under an idempotency key

What the ownership of the record means for whole runs, as long as every response fits in a
record: one work runs at a time, one work resolves in all, and every other call is answered
from the record it has read.

* `AtMostOnce` — what is promised of the calls under one key.
* `at_most_once` — every run keeps the promise.
-/

namespace OrderPlatform

namespace IdempotentCalls

open Async (Tid Pool)
open Text (Json)

variable {ctx : ApiContext} {k : IdempotencyKey}

/-- What is promised of the calls under one key. -/
structure AtMostOnce (ctx : ApiContext) (k : IdempotencyKey)
    (p : Pool machine (Call k) IdempotencyResult) : Prop where
  /-- At most one call's work is running. -/
  one_running : ∀ t u, p.shared.running t = true → p.shared.running u = true → t = u
  /-- At most one call's work has ever resolved. -/
  one_resolved : p.shared.resolved.length ≤ 1
  /-- A call that ran its work is answered with the result of that work. -/
  own : ∀ t call v, p.Answered t call v → p.shared.ran t = true →
    ∃ x ∈ p.shared.resolved, x.tid = t ∧ x.requestHash = call.requestHash ctx ∧ v = x.result
  /-- A call that did not is answered from the resolved work of an equal request, or with the
  conflict that the record it has read calls for. -/
  replayed : ∀ t call v, p.Answered t call v → p.shared.ran t = false →
    Replays (call.requestHash ctx) (p.shared.lastRead t) p.shared.resolved v
  /-- A call whose work throws fails with that error, having removed its own claim. -/
  rethrown : ∀ t call error, p.shared.threw t = some error →
    (∀ v, ¬ p.Answered t call v) ∧
      ∀ e, p.Failed t call e → e = error ∧ ⟨t, k.redisKey, some t⟩ ∈ p.shared.removed
  /-- No call fails for any other reason. -/
  failed : ∀ t call e, p.Failed t call e → p.shared.threw t = some e
  /-- A record is removed only by the call that wrote it, and only after its work has
  thrown. -/
  removed : ∀ d ∈ p.shared.removed,
    d.key = k.redisKey ∧ d.writer = some d.tid ∧ (p.shared.threw d.tid).isSome

/-- **At most one execution per key.**  However the calls under one key interleave, with any
bodies, one work runs at a time, one work resolves in all, and every other call is answered
from it or turned away.

What a run leaves behind is read off the soundness of all its calls (`sound_of_steps`): a call that
works owns the record under the key, so two of them are one.  The regime is used for two things
only, that no record expires and that every response fits in a record (`True`), so that a resolved
work is never forgotten. -/
theorem at_most_once {store : Redis.Store} (absent : store k.redisKey = none)
    {q : Pool machine (Call k) IdempotencyResult}
    (run : Pool.Steps (regime True k) (handler ctx) (Pool.idle (State.initial store)) q) :
    AtMostOnce ctx k q := by
  have sound := sound_of_steps absent run
  refine ⟨?_, sound.inv.phase.resolved_length_le trivial, ?_, ?_, ?_, ?_, ?_⟩
  · intro t u ht hu
    have owner_t := (sound.inv.running t ht).1
    have owner_u := (sound.inv.running u hu).1
    exact Option.some_inj.mp (owner_t.symm.trans owner_u)
  · intro t call v answer ran
    cases sound.answered answer with
    | own x mem tid same _ _ => exact ⟨x, mem, tid, same, rfl⟩
    | replayed v replays ranNot _ => simp [ran] at ranNot
  · intro t call v answer ran
    cases sound.answered answer with
    | own x mem tid same hasRun _ => simp [ran] at hasRun
    | replayed v replays _ _ => exact replays
  · intro t call error threw
    refine ⟨fun v answer => ?_, fun e failure => ?_⟩
    · cases sound.answered answer with
      | own x _ _ _ _ none => simp [threw] at none
      | replayed v _ _ none => simp [threw] at none
    · obtain ⟨thrown, gone⟩ := sound.failed failure
      exact ⟨Option.some_inj.mp (thrown.symm.trans threw), gone⟩
  · intro t call e failure
    exact (sound.failed failure).1
  · intro d mem
    obtain ⟨about, own, thrown⟩ := sound.inv.removed d mem
    exact ⟨about, own, thrown trivial⟩

/-- The hashes of two requests to create an order. -/
def exampleSha256 (text : String) : String :=
  if text = "\x7b\"method\":\"POST\",\"route\":\"/v1/orders\",\"body\":\x7b\"sku\":\"x\"\x7d\x7d" then
    "45faa74356f1dee8f5b0d95aa97abe116e50d586e619cc02dd90404ec95b7311"
  else if text = "\x7b\"method\":\"POST\",\"route\":\"/v1/orders\",\"body\":\x7b\"sku\":\"y\"\x7d\x7d" then
    "7927a80174abd9eea0716e0b0b8ddcfaf7f6c73ff0784e00516acf8ef0cdcae0"
  else ""

def exampleKey : IdempotencyKey := ⟨"orders:create", "u1", "test-key-12345", by decide⟩

def exampleCall (sku : String) : Call exampleKey where
  request := ⟨"r1", "POST", some "/v1/orders", "/v1/orders", .single "test-key-12345", none⟩
  requestBody := .object [("sku", .str sku)]
  attempts := 2
  sent := by decide

/-- Four calls: the first runs its work; the second meets the claim, the third has another
body, and the fourth comes after the response was stored. -/
theorem at_most_once_of_four_calls :
    ∃ q, Pool.Steps (regime True exampleKey) (handler (exampleContext exampleSha256))
        (Pool.idle (State.initial fun _ => none)) q ∧
      AtMostOnce (exampleContext exampleSha256) exampleKey q ∧
      q.answer 0 = some ⟨.num 201, some (.object [("id", .num 1)])⟩ ∧
      q.answer 1 = some requestInProgress ∧ q.answer 2 = some keyConflict ∧
      q.answer 3 = q.answer 0 := by
  obtain ⟨q, steps, answers⟩ := Pool.steps_of_check (regime True exampleKey)
    (handler (exampleContext exampleSha256)) (Pool.idle (State.initial fun _ => none))
    [.start 0 (exampleCall "x"), .start 1 (exampleCall "x"), .start 2 (exampleCall "y"),
      .advance 0 (.redis .none), .advance 1 (.redis .none), .advance 2 (.redis .none),
      .advance 0 .begins, .advance 1 (.redis .none), .start 3 (exampleCall "x"),
      .advance 0 (.resolves 201 (some (.object [("id", .num 1)]))), .advance 0 (.redis .none),
      .advance 2 (.redis .none), .advance 3 (.redis .none), .advance 3 (.redis .none)]
    (fun q => q.answer 0 = some ⟨.num 201, some (.object [("id", .num 1)])⟩ ∧
      q.answer 1 = some requestInProgress ∧ q.answer 2 = some keyConflict ∧
      q.answer 3 = q.answer 0) (by decide +kernel)
  exact ⟨q, steps, at_most_once rfl steps, answers⟩

end IdempotentCalls

end OrderPlatform
