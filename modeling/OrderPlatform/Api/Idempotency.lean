import OrderPlatform.Api.Redis
import OrderPlatform.Text.JavaScript

/-!
# The `Idempotency-Key` layer

`withIdempotency` wraps the work of an unsafe request.  A request without a key runs its work
directly; a request with a key first claims the key with `SET … NX`, and where the key is
taken it answers from the record it finds.  The record is a JSON text in Redis:
`StoredRecord.claim` while the work runs, `StoredRecord.completed` afterwards.

The source calls itself again when the record has vanished between `SET … NX` and `GET`.
That recursion has no bound of its own, so the model takes one: `withIdempotency … attempts`
makes at most `attempts` claims and settles nothing after that.  Every finite run is a run
with enough attempts.

What is read back from Redis is not checked by the source.  Whatever text is under the key,
`readExistingRecord` takes for a record what `JSON.parse` accepts, and reads it property by
property, as the source does; an `IdempotencyResult` carries the status as it was found.

* `StoredRecord`, `StoredRecord.toJson` — the two kinds of records and their JSON.
* `readExistingRecord` — the answer to a request whose key is taken.
* `execute` — claim taken: run the work, store the response or release the key.
* `withIdempotency` — the whole.
-/

namespace OrderPlatform

open Async (Program)
open Text (Json)
open Utf16 (lit units)

/-- Maximum length of a stored record. -/
def maxStoredBodyBytes : ℕ := 64 * 1024

/-- Time to live of a completed record. -/
def completedTtlSeconds : ℕ := 86400

/-- Time to live of the claim while a request is being processed. -/
def processingTtlSeconds : ℕ := 60

/-- `[A-Za-z0-9_-]` -/
def isIdempotencyKeyChar (c : Char) : Bool := c.isAlphanum || c = '_' || c = '-'

/-- `/^[A-Za-z0-9_-]{8,128}$/` -/
def matchesIdempotencyKeyRegex (key : String) : Bool :=
  8 ≤ key.length && key.length ≤ 128 && key.toList.all isIdempotencyKeyChar

/-- What is stored under a key: the claim of a running request, or the response of a finished
one. -/
inductive StoredRecord
  | claim (requestHash : String)
  | completed (requestHash : String) (status : Json) (body : Option Json)
deriving DecidableEq

namespace StoredRecord

/-- Both kinds of records carry the hash of the request that wrote them. -/
def requestHash : StoredRecord → String
  | claim requestHash => requestHash
  | completed requestHash _ _ => requestHash

/-- The record as JSON; an undefined body leaves no property behind. -/
def toJson : StoredRecord → Json
  | claim requestHash =>
      .object [("state", .str "in-progress"), ("requestHash", .str requestHash)]
  | completed requestHash status body =>
      .object ([("state", .str "completed"), ("requestHash", .str requestHash),
        ("status", status)] ++ (body.map fun b => ("body", b)).toList)

/-- The stored text.  Nothing but its JSON is known of it. -/
@[irreducible] def serialized (r : StoredRecord) : String := r.toJson.stringify

end StoredRecord

/-- The options of `runIdempotent`. -/
structure IdempotencyOptions where
  scope : String
  userId : String
  request : FastifyRequest
  requestBody : Json

/-- A status and a body, as the work returned them or as a record holds them. -/
structure IdempotencyResult where
  status : Json
  body : Option Json
deriving DecidableEq

/-- `readIdempotencyKey`: an empty header counts as absent, and of several headers the first is
taken. -/
def readIdempotencyKey (request : FastifyRequest) : Option String :=
  match request.idempotencyKey with
  | .single raw => if raw.isEmpty then none else some raw
  | .multiple (raw :: _) => some raw
  | _ => none

/-- The route pattern where the request has one, otherwise the path of its URL. -/
def requestRoute (request : FastifyRequest) : String :=
  request.routeUrl.getD (String.ofList (request.url.toList.takeWhile (· ≠ '?')))

/-- `canonicalRequestHash`: method, route and body, serialised in this order.  The key, the user and
the scope are not part of it; they are part of the Redis key. -/
def canonicalRequestHash (ctx : ApiContext) (request : FastifyRequest) (body : Json) : String :=
  ctx.sha256 (Json.object
    [("method", .str request.method), ("route", .str (requestRoute request)), ("body", body)]
  ).stringify

/-- `buildRedisKey`. -/
def buildRedisKey (scope userId key : String) : String :=
  "idempotency:" ++ scope ++ ":" ++ userId ++ ":" ++ key

/-- The answer to a key that does not match the pattern; nothing has been stored. -/
def invalidKey : IdempotencyResult :=
  ⟨.num 400, some (errorBody "INVALID_IDEMPOTENCY_KEY"
    "Idempotency-Key must be 8-128 characters of [A-Za-z0-9_-]")⟩

/-- The answer to a key that another body has been sent with. -/
def keyConflict : IdempotencyResult :=
  ⟨.num 409, some (errorBody "IDEMPOTENCY_KEY_CONFLICT"
    "Idempotency-Key was reused with a different request body")⟩

/-- The answer while the first request with the key is still being processed. -/
def requestInProgress : IdempotencyResult :=
  ⟨.num 409, some (errorBody "IDEMPOTENT_REQUEST_IN_PROGRESS"
    "An identical request with this Idempotency-Key is currently being processed")⟩

/-- `parsed.status ?? 200`. -/
def statusOf : Option JavaScript.Read → Json
  | none | some .null => .num 200
  | some status => JavaScript.toJson status

/-- The answer that a parsed record gives to a request with this hash; `none` where the record
is `null`, which has no properties to read. -/
def replayOf (requestHash : String) : JavaScript.Read → Option IdempotencyResult
  | .null => none
  | parsed =>
      if parsed.get? (lit "requestHash") ≠ some (.str (lit requestHash)) then some keyConflict
      else if parsed.get? (lit "state") = some (.str (lit "in-progress")) then
        some requestInProgress
      else
        some ⟨statusOf (parsed.get? (lit "status")),
          (parsed.get? (lit "body")).map JavaScript.toJson⟩

section

variable {W : Type} {V : W → Type}

/-- The answer from the record under the key, or `none` where there is none to be had. -/
def readExistingRecord (redisKey requestHash : String) : Api W V (Option IdempotencyResult) :=
  (redis (.get redisKey)).bind fun
    | none => .done none
    | some existing =>
        if existing.isEmpty then .done none
        else
          match JavaScript.read (units existing.toList) with
          -- a corrupt entry is cleared so that a retry can proceed
          | none => (redisIgnoring (.del redisKey)).bind fun _ => .done none
          | some parsed =>
              match replayOf requestHash parsed with
              | none => .thrown .typeError
              | some replay => .done (some replay)

/-- The bookkeeping after the work: store the response, or clear the claim where the response
is too large to store. -/
def storeResult (redisKey requestHash : String) (result : IdempotencyResult) : Api W V Unit :=
  let serialized := (StoredRecord.completed requestHash result.status result.body).serialized
  if maxStoredBodyBytes < serialized.utf8ByteSize then redisIgnoring (.del redisKey)
  else redis (.set redisKey serialized completedTtlSeconds)

/-- What the owner of the claim does: run the work, do the bookkeeping, and on any error of
either release the key and throw again. -/
def execute (redisKey requestHash : String) (process : Api W V IdempotencyResult) :
    Api W V IdempotencyResult :=
  (process.bind fun result =>
    (storeResult redisKey requestHash result).bind fun _ => .done result).attempt fun error =>
      (redisIgnoring (.del redisKey)).bind fun _ => .thrown error

/-- Idempotency-Key handling for unsafe endpoints. -/
def withIdempotency (ctx : ApiContext) (options : IdempotencyOptions)
    (process : Api W V IdempotencyResult) : ℕ → Api W V IdempotencyResult
  | 0 => .pending
  | attempts + 1 =>
      match readIdempotencyKey options.request with
      | none => process
      | some key =>
          if matchesIdempotencyKeyRegex key then
            let requestHash := canonicalRequestHash ctx options.request options.requestBody
            let redisKey := buildRedisKey options.scope options.userId key
            let claim := (StoredRecord.claim requestHash).serialized
            (redis (.setNx redisKey claim processingTtlSeconds)).bind fun (acquired : Bool) =>
              if acquired then execute redisKey requestHash process
              else
                (readExistingRecord redisKey requestHash).bind fun
                  | some replay => .done replay
                  | none => withIdempotency ctx options process attempts
          else .done invalidKey

end

/-! ### What a record answers -/

/-- A record is read as what it was written for. -/
theorem read_serialized (r : StoredRecord) :
    JavaScript.read (units r.serialized.toList) = some (JavaScript.asRead r.toJson) := by
  rw [StoredRecord.serialized, JavaScript.read_text]

theorem serialized_isEmpty (r : StoredRecord) : r.serialized.isEmpty = false := by
  obtain ⟨fields, object⟩ : ∃ fields, r.toJson = .obj fields := by cases r <;> exact ⟨_, rfl⟩
  have nonempty : r.serialized ≠ "" := by
    intro empty
    have chars := congrArg String.toList empty
    cases fields <;> simp [StoredRecord.serialized, Json.stringify, object, Json.chars] at chars
  simpa using nonempty

/-- A property that is this text. -/
private theorem map_asRead_eq_str (found : Option Json) (s : String) :
    found.map JavaScript.asRead = some (.str (lit s)) ↔ found = some (.str s) :=
  (Option.map_injective JavaScript.asRead_injective).eq_iff (b := some (.str s))

/-- What a record with properties answers, property by property. -/
private theorem replayOf_object (h : String) (properties : List (String × Json)) :
    replayOf h (JavaScript.asRead (.object properties)) =
      let record := Json.object properties
      if record.get? "requestHash" ≠ some (.str h) then some keyConflict
      else if record.get? "state" = some (.str "in-progress") then some requestInProgress
      else some ⟨statusOf ((record.get? "status").map JavaScript.asRead), record.get? "body"⟩ := by
  have shown : ∀ body : Option Json, (body.map JavaScript.asRead).map JavaScript.toJson = body := by
    intro body
    rw [Option.map_map, show JavaScript.toJson ∘ JavaScript.asRead = id from
      funext JavaScript.toJson_asRead, Option.map_id]
    rfl
  have read : replayOf h (JavaScript.asRead (.object properties)) =
      let record := JavaScript.asRead (.object properties)
      if record.get? (lit "requestHash") ≠ some (.str (lit h)) then some keyConflict
      else if record.get? (lit "state") = some (.str (lit "in-progress")) then
        some requestInProgress
      else
        some ⟨statusOf (record.get? (lit "status")),
          (record.get? (lit "body")).map JavaScript.toJson⟩ := rfl
  rw [read]
  simp only [ne_eq, JavaScript.get?_asRead, map_asRead_eq_str, shown]

/-- The answer of a claim: in progress for the same request, a conflict for any other. -/
theorem replayOf_claim (h h' : String) :
    replayOf h (JavaScript.asRead (StoredRecord.claim h').toJson) =
      some (if h' = h then requestInProgress else keyConflict) := by
  rw [StoredRecord.toJson, replayOf_object]
  by_cases same : h' = h <;>
    simp [Json.object, Text.Fields.ofList, Json.get?, Text.Fields.get?, same]

/-- The answer of a completed record: the stored response for the same request, a conflict for
any other. -/
theorem replayOf_completed (h h' : String) (n : ℤ) (body : Option Json) :
    replayOf h (JavaScript.asRead (StoredRecord.completed h' (.num n) body).toJson) =
      some (if h' = h then ⟨.num n, body⟩ else keyConflict) := by
  rw [StoredRecord.toJson, replayOf_object]
  by_cases same : h' = h <;> cases body <;>
    simp [Json.object, Text.Fields.ofList, Json.get?, Text.Fields.get?, same]
  all_goals rfl

end OrderPlatform
