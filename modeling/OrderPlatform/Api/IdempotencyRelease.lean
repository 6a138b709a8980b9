import OrderPlatform.Api.IdempotencySafety

/-!
# What a failing Redis command does to a completed write

`withIdempotency` has one `try` around the work and around the bookkeeping that follows it.
An error of the bookkeeping therefore takes the path that is meant for work that has failed:
it releases the key, although the work is done.  `afterWork` is what is left of a call whose
work has resolved, and `protected_iff` says exactly what a single failing command does there:
the key stays protected only where there was nothing to store in the first place, because the
response is too large, and the `DEL` that takes its place is refused.  In every other case
another call can run the work again, which is what `executed_twice` shows on a run.
-/

namespace OrderPlatform

namespace IdempotentCalls

open Async (Tid Pool Discipline Program)
open Text (Json)

variable {ctx : ApiContext} {k : IdempotencyKey}

/-- What is left of `execute` once the work has resolved. -/
def afterWork (redisKey requestHash : String) (result : IdempotencyResult) :
    machine.Task IdempotencyResult :=
  ((storeResult redisKey requestHash result).bind fun _ => .done result).attempt fun error =>
    (redisIgnoring (.del redisKey)).bind fun _ => .thrown error

/-- What is left of `execute` once the work has ended. -/
def afterFinish (redisKey requestHash : String) :
    Except ApiError IdempotencyResult → machine.Task IdempotencyResult
  | .ok result => afterWork redisKey requestHash result
  | .error error => (redisIgnoring (.del redisKey)).bind fun _ => .thrown error

/-- `execute`, cut at the start and at the end of the work. -/
theorem execute_process (redisKey requestHash : String) :
    (execute redisKey requestHash (process requestHash) : machine.Task IdempotencyResult) =
      .await (.work (.start requestHash)) fun _ =>
        .await (.work (.finish requestHash)) (afterFinish redisKey requestHash) := by
  refine congrArg (Program.await _) (funext fun _ => ?_)
  refine congrArg (Program.await _) (funext fun outcome => ?_)
  cases outcome <;> rfl

/-- Whether the response does not fit in a record. -/
def TooLarge (requestHash : String) (result : IdempotencyResult) : Prop :=
  maxStoredBodyBytes <
    (StoredRecord.completed requestHash result.status result.body).serialized.utf8ByteSize

instance (requestHash : String) (result : IdempotencyResult) :
    Decidable (TooLarge requestHash result) := inferInstanceAs (Decidable (_ < _))

/-- A response that is too large: the key is cleared, whatever comes of it. -/
theorem afterWork_of_tooLarge {redisKey requestHash : String} {result : IdempotencyResult}
    (large : TooLarge requestHash result) :
    afterWork redisKey requestHash result =
      .await (.redis (.del redisKey)) fun _ => .done result := by
  have release : storeResult redisKey requestHash result =
      (redisIgnoring (.del redisKey) : machine.Task Unit) := if_pos large
  rw [afterWork, release]
  refine congrArg (Program.await _) (funext fun reply => ?_)
  cases reply <;> rfl

/-- What follows the attempt to store a response. -/
def settle (redisKey : String) (result : IdempotencyResult) :
    Option Unit → machine.Task IdempotencyResult
  | some _ => .done result
  | none => .await (.redis (.del redisKey)) fun _ => .thrown .redis

/-- A response that fits: it is stored, and a failure to store it releases the key. -/
theorem afterWork_of_fits {redisKey requestHash : String} {result : IdempotencyResult}
    (fits : ¬ TooLarge requestHash result) :
    afterWork redisKey requestHash result =
      .await (.redis (.set redisKey
        (StoredRecord.completed requestHash result.status result.body).serialized
        completedTtlSeconds)) (settle redisKey result) := by
  have store : storeResult redisKey requestHash result =
      (redis (.set redisKey
        (StoredRecord.completed requestHash result.status result.body).serialized
        completedTtlSeconds) : machine.Task Unit) := if_neg fits
  rw [afterWork, store]
  refine congrArg (Program.await _) (funext fun reply => ?_)
  cases reply with
  | some _ => rfl
  | none =>
      refine congrArg (Program.await _) (funext fun reply => ?_)
      cases reply <;> rfl

/-- From `q` on, as long as commands succeed and the record does not expire, call `t` does not
release the key, and no other call with the same body starts its work.

The scope, the user and the key are those of `k`, under which all calls of the pool are made.  The
rest of the request is left open: a retry is another request, with an id of its own. -/
def Protected (ctx : ApiContext) (t : Tid) (call : Call k)
    (q : Pool machine (Call k) IdempotencyResult) : Prop :=
  ∀ r, Pool.Steps (regime False k) (handler ctx) q r →
    (∀ d ∈ r.shared.removed, d.tid ≠ t) ∧
      ∀ u again task, u ≠ t → r.slot u = .busy again task →
        again.requestBody = call.requestBody → r.shared.ran u = q.shared.ran u

/-- A Redis command that is executed and answered. -/
theorem exec_answered {t : Tid} {c : Redis.Command} {s : State} {reply : c.Reply}
    {store : Redis.Store} (apply : c.apply s.server.store = some (reply, store)) :
    exec t (.redis .none) (.redis c) s = some (some reply,
      State.note t c (some reply) { s with server := { s.server with store } }) := by
  simp only [exec, Redis.Server.call, apply]
  rfl

/-- A call that has not started yet and makes at most one claim. -/
def Call.once (call : Call k) : Call k := { call with attempts := 1 }

/-- Where the key is free, a call that has not started yet can claim it and start its work. -/
theorem restart (ctx : ApiContext) {q : Pool machine (Call k) IdempotencyResult} (call : Call k)
    {u : Tid} (free : q.slot u = .free) (absent : q.shared.server.store k.redisKey = none) :
    ∃ r, Pool.Steps (regime False k) (handler ctx) q r ∧ r.shared.ran u = true ∧
      r.slot u = .busy call.once (.await (.work (.finish (call.once.requestHash ctx)))
        (afterFinish k.redisKey (call.once.requestHash ctx))) := by
  let requestHash := call.once.requestHash ctx
  obtain ⟨q₁, run₁, shared₁, slot₁⟩ :=
    Pool.Steps.start (.refl : Pool.Steps (regime False k) (handler ctx) q q) free call.once
  have absent₁ : q₁.shared.server.store k.redisKey = none := by rw [shared₁, absent]
  have claims : q₁.slot u = .busy call.once _ :=
    (congrFun slot₁ u).trans <| (Function.update_self _ _ _).trans <|
      congrArg _ (withIdempotency_succ ctx call.once (process requestHash) 0)
  obtain ⟨q₂, run₂, shared₂, slot₂⟩ := run₁.advance claims (.redis .none) rfl
    (exec_answered (Redis.Command.apply_setNx absent₁ _ _))
  have starts : q₂.slot u = .busy call.once _ :=
    (congrFun slot₂ u).trans <| (Function.update_self _ _ _).trans <|
      congrArg _ (execute_process k.redisKey requestHash)
  obtain ⟨q₃, run₃, shared₃, slot₃⟩ := run₂.advance starts .begins trivial rfl
  refine ⟨q₃, run₃, ?_, (congrFun slot₃ u).trans (Function.update_self _ _ _)⟩
  rw [shared₃]
  exact Function.update_self _ _ _

/-- A command that fails is answered by an error, and changes at most what is in flight. -/
theorem next_of_fault {p q : Pool machine (Call k) IdempotencyResult} {t : Tid} {call : Call k}
    {c : Redis.Command} {f : Option c.Reply → machine.Task IdempotencyResult} {fault : Redis.Fault}
    (busy : p.slot t = .busy call (.await (.redis c) f)) (fails : fault ≠ .none)
    (step : p.next (handler ctx) (.advance t (.redis fault)) = some q) :
    q.slot = Function.update p.slot t (.busy call (f none)) ∧
      (q.shared = p.shared ∧ fault = .refused ∨ fault = .late ∧ q.shared =
        { p.shared with server := ⟨p.shared.server.store, c :: p.shared.server.inFlight⟩ }) := by
  simp only [Pool.next, busy] at step
  cases fault with
  | none => exact absurd rfl fails
  | refused => cases step; exact ⟨rfl, .inl ⟨State.note_none t c _, rfl⟩⟩
  | late => cases step; exact ⟨rfl, .inr ⟨rfl, State.note_none t c _⟩⟩

/-- A free key and one call too many: nothing is protected. -/
theorem not_protected {q r : Pool machine (Call k) IdempotencyResult} {t u : Tid} {call : Call k}
    (run : Pool.Steps (regime False k) (handler ctx) q r)
    (absent : r.shared.server.store k.redisKey = none) (free : r.slot u = .free) (other : u ≠ t)
    (idle : q.shared.ran u = false) : ¬ Protected ctx t call q := by
  intro safe
  obtain ⟨r', run', ran, busy⟩ := restart ctx call free absent
  have same := (safe r' (run.trans run')).2 u call.once _ other busy rfl
  simp [ran, idle] at same

/-- **When the protection survives.**  Call `t` stands behind its resolved work, and its next
Redis command fails: the key stays protected exactly where the response is too large to be
stored and the `DEL` that clears the key instead of storing it is never executed.

The run up to `p` is one of the regime in which no record expires, so the claim of `t` is still
under the key (`sound_of_steps`); the two directions differ in who may remove it.  Where nothing is
executed any more, only the owner could, and it has answered; otherwise the key becomes free, and a
call that has not started yet claims it (`restart`). -/
theorem protected_iff {store : Redis.Store} (absent : store k.redisKey = none)
    {p q : Pool machine (Call k) IdempotencyResult}
    (run : Pool.Steps (regime False k) (handler ctx) (Pool.idle (State.initial store)) p)
    {t : Tid} {call : Call k} {result : IdempotencyResult}
    (resolved : p.slot t =
      .busy call (afterWork k.redisKey (call.requestHash ctx) result))
    {fault : Redis.Fault} (fails : fault ≠ .none)
    (step : p.next (handler ctx) (.advance t (.redis fault)) = some q) :
    Protected ctx t call q ↔ TooLarge (call.requestHash ctx) result ∧ fault = .refused := by
  have sound := sound_of_steps absent run
  obtain ⟨n, unused⟩ := Pool.Steps.free run
  -- a call that has not started yet
  obtain ⟨u, other, free, idle⟩ : ∃ u, u ≠ t ∧ p.slot u = .free ∧ p.shared.ran u = false := by
    have free := unused (max n (t + 1)) (by omega)
    have above : t < max n (t + 1) := Nat.lt_of_lt_of_le (Nat.lt_succ_self t) (Nat.le_max_right _ _)
    exact ⟨max n (t + 1), Nat.ne_of_gt above, free, (sound.free free).ran⟩
  have stays : ∀ {slot}, Function.update p.slot t slot u = .free := fun {slot} =>
    (Function.update_of_ne other slot p.slot).trans free
  by_cases large : TooLarge (call.requestHash ctx) result
  · rw [afterWork_of_tooLarge large] at resolved
    obtain ⟨slot, ⟨shared, rfl⟩ | ⟨rfl, shared⟩⟩ := next_of_fault resolved fails step
    · -- refused: the claim stays, and nobody but its owner `t` could remove it
      refine ⟨fun _ => ⟨large, rfl⟩, fun _ r later => ?_⟩
      obtain ⟨requestHash, claimant⟩ := sound.standing resolved
      have stands : Discipline.Sound (discipline False k.redisKey) (regime False k)
          (fun _ (_ : Call k) _ _ => True) (fun _ _ _ _ => True) q := by
        have after : q = ⟨p.shared, Function.update p.slot t (.busy call (.done result))⟩ := by
          rw [← shared, ← slot]
        rw [after]
        refine sound.any.update ⟨sound.inv, fun v _ => Rely.refl _ v _⟩ nofun fun busy => ?_
        cases busy
        exact fun _ _ => trivial
      have answered : q.Answered t call result :=
        (congrFun slot t).trans (Function.update_self _ _ _)
      have kept := stands.still (environment False k) (handles ctx False k).any answered later
      rw [shared] at kept
      refine ⟨fun d mem own => claimant.kept d (kept.removedOwn d mem own) own, ?_⟩
      intro v again task apart _ _
      rw [kept.alone claimant.owner v apart, shared]
    · -- on its way: when the `DEL` is executed after all, the key is free
      refine ⟨fun safe => ?_, fun h => by simp at h⟩
      have flying : q.shared.server.inFlight[0]? = some (.del k.redisKey) := by rw [shared]; rfl
      obtain ⟨r, run', shared', slot'⟩ :=
        Pool.Steps.event (.refl : Pool.Steps (regime False k) (handler ctx) q q) (.land 0) trivial
          (s := _) (by simp only [Redis.Server.event, flying, Option.map_some]; rfl)
      refine absurd safe (not_protected run' ?_ ?_ other ?_)
      · rw [shared']
        exact Function.update_self _ _ _
      · rw [slot', slot, stays]
      · rw [shared]
        exact idle
  · -- the response could have been stored: the error path executes a `DEL`
    rw [afterWork_of_fits large] at resolved
    refine ⟨fun safe => ?_, fun h => absurd h.1 large⟩
    obtain ⟨slot, shared⟩ := next_of_fault resolved fails step
    have deletes : q.slot t = .busy call (.await (.redis (.del k.redisKey)) _) :=
      (congrFun slot t).trans (Function.update_self _ _ _)
    obtain ⟨r, run', shared', slot'⟩ :=
      Pool.Steps.advance (.refl : Pool.Steps (regime False k) (handler ctx) q q) deletes
        (.redis .none) rfl rfl
    refine absurd safe (not_protected run' ?_ ?_ other ?_)
    · rw [shared']
      exact Function.update_self _ _ _
    · rw [slot', Function.update_of_ne other, slot, stays]
    · rcases shared with ⟨shared, _⟩ | ⟨_, shared⟩ <;> rw [shared] <;> exact idle

/-- A small response whose `SET` is refused: nothing is protected. -/
theorem protected_iff_small_response :
    ∃ p q : Pool machine (Call exampleKey) IdempotencyResult,
      Pool.Steps (regime False exampleKey) (handler (exampleContext exampleSha256))
        (Pool.idle (State.initial fun _ => none)) p ∧
      p.next (handler (exampleContext exampleSha256)) (.advance 0 (.redis .refused)) = some q ∧
      ¬ Protected (exampleContext exampleSha256) 0 (exampleCall "x").once q := by
  obtain ⟨p₁, run₁, -, works⟩ := restart (exampleContext exampleSha256)
    (q := Pool.idle (State.initial fun _ => none)) (exampleCall "x") (u := 0) rfl rfl
  obtain ⟨p, run, -, slot⟩ := run₁.advance works
    (.resolves 201 (some (.object [("id", .num 1)]))) nofun rfl
  have resolved := (congrFun slot 0).trans (Function.update_self _ _ _)
  have small : ¬ TooLarge ((exampleCall "x").once.requestHash (exampleContext exampleSha256))
      ⟨.num 201, some (.object [("id", .num 1)])⟩ := by decide +kernel
  obtain ⟨q, step⟩ : ∃ q, p.next (handler (exampleContext exampleSha256))
      (.advance 0 (.redis .refused)) = some q := by
    have waits := resolved.trans (congrArg _ (afterWork_of_fits small))
    exact ⟨_, by simp only [Pool.next, waits]; rfl⟩
  have exact' := protected_iff rfl run resolved (by decide) step
  exact ⟨p, q, run, step, fun safe => small (exact'.mp safe).1⟩

/-- **The same request executed twice.**  The work of call 0 has resolved; the `SET` of its
response is refused, everything else succeeds and nothing expires; call 0 releases the key and
call 1, with the same request, runs the work again. -/
theorem executed_twice :
    ∃ p q r : Pool machine (Call exampleKey) IdempotencyResult,
      Pool.Steps (regime False exampleKey) (handler (exampleContext exampleSha256))
        (Pool.idle (State.initial fun _ => none)) p ∧
      p.next (handler (exampleContext exampleSha256)) (.advance 0 (.redis .refused)) = some q ∧
      Pool.Steps (regime False exampleKey) (handler (exampleContext exampleSha256)) q r ∧
      p.shared.resolved.map (·.tid) = [0] ∧
      r.failure 0 = some .redis ∧ r.shared.threw 0 = none ∧
      r.shared.removed = [⟨0, exampleKey.redisKey, some 0⟩] ∧
      r.shared.resolved.map (·.tid) = [0, 1] ∧
      r.answer 1 = some ⟨.num 201, some (.object [("id", .num 2)])⟩ := by
  obtain ⟨p, run, check⟩ := Pool.steps_of_check (regime False exampleKey)
    (handler (exampleContext exampleSha256)) (Pool.idle (State.initial fun _ => none))
    [.start 0 (exampleCall "x"), .advance 0 (.redis .none), .advance 0 .begins,
      .advance 0 (.resolves 201 (some (.object [("id", .num 1)])))]
    (fun p => p.shared.resolved.map (·.tid) = [0] ∧
      ((p.next (handler (exampleContext exampleSha256)) (.advance 0 (.redis .refused))).any
        fun q => (Pool.run (regime False exampleKey) (handler (exampleContext exampleSha256)) q
          [.advance 0 (.redis .none), .start 1 (exampleCall "x"), .advance 1 (.redis .none),
            .advance 1 .begins, .advance 1 (.resolves 201 (some (.object [("id", .num 2)]))),
            .advance 1 (.redis .none)]).any
        fun r => r.failure 0 = some .redis ∧ r.shared.threw 0 = none ∧
          r.shared.removed = [⟨0, exampleKey.redisKey, some 0⟩] ∧
          r.shared.resolved.map (·.tid) = [0, 1] ∧
          r.answer 1 = some ⟨.num 201, some (.object [("id", .num 2)])⟩) = true)
    (by decide +kernel)
  obtain ⟨q, step, later⟩ := (Option.any_eq_true _ _).mp check.2
  obtain ⟨r, run', holds⟩ := (Option.any_eq_true _ _).mp later
  exact ⟨p, q, r, run, step, Pool.steps_of_run _ _ _ run', check.1, of_decide_eq_true holds⟩

end IdempotentCalls

end OrderPlatform
