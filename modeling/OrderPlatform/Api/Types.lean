import Mathlib.Data.Nat.Notation
import OrderPlatform.Async.Program
import OrderPlatform.Text.Json

/-!
# What every request handler sees

The parts of the API service that its handlers share: the configuration they read, the
errors they throw, and the request object as far as they look at it.  What the service takes
from outside the repository and never looks into is a field of `ApiContext`: the hash of
`node:crypto`, the two case conversions, and the time stamps Postgres reads.

* `ApiConfig`, `ApiContext` — the settings and the outside functions.
* `ApiError` — what an awaited operation may throw.
* `FastifyRequest` — the request as the idempotency layer reads it.
* `HttpResponse` — what a handler answers.
-/

namespace OrderPlatform

open Text (Json)

/-- What a handler may throw.  Every such error ends as a 500 response. -/
inductive ApiError
  /-- A Redis command was refused, failed, or ran into its time limit. -/
  | redis
  /-- A statement was rejected by Postgres, or no connection was to be had. -/
  | database
  /-- A property was read off a value that has none. -/
  | typeError
  /-- Any other error. -/
  | error (message : String)
deriving DecidableEq

/-- The settings that the modelled code reads. -/
structure ApiConfig where
  cacheEnabled : Bool
  cacheTtlSeconds : ℕ
  cacheListCountTtlSeconds : ℕ

/-- The context of the handlers. -/
structure ApiContext where
  config : ApiConfig
  /-- `createHash("sha256").update(text).digest("hex")`. -/
  sha256 : String → String
  /-- `lower(text)` as Postgres computes it. -/
  lower : String → String
  /-- `text.toLowerCase()`. -/
  toLowerCase : String → String
  /-- The sign of an email address has no case. -/
  toLowerCase_at : ∀ s, '@' ∈ s.toList → '@' ∈ (toLowerCase s).toList
  /-- A text read as `timestamptz` by Postgres, in microseconds since the epoch.  Not every text
  that the service takes for a date is one: an offset of 99 hours is none, nor is the year 0. -/
  timestamptz : String → Option ℤ

/-- ASCII letters in lower case.  On ASCII text this is what both conversions do. -/
def asciiLower (s : String) : String := String.ofList (s.toList.map Char.toLower)

theorem at_mem_asciiLower {s : String} (mem : '@' ∈ s.toList) : '@' ∈ (asciiLower s).toList := by
  simp only [asciiLower, String.toList_ofList, List.mem_map]
  exact ⟨'@', mem, by decide⟩

private theorem toLower_toLower (c : Char) : c.toLower.toLower = c.toLower := by
  by_cases upper : c.val ≥ 'A'.val ∧ c.val ≤ 'Z'.val
  · have moved : c.toLower.val = c.val + ('a'.val - 'A'.val) :=
      congrArg Char.val (dif_pos upper)
    have above : ¬ c.toLower.val ≤ 'Z'.val := by
      rw [moved]
      obtain ⟨lo, hi⟩ := upper
      simp only [UInt32.le_iff_toNat_le, ge_iff_le, UInt32.toNat_add] at *
      have : 'A'.val.toNat = 65 := rfl
      have : 'Z'.val.toNat = 90 := rfl
      have : ('a'.val - 'A'.val).toNat = 32 := rfl
      omega
    exact dif_neg fun h => above h.2
  · have same : c.toLower = c := dif_neg upper
    rw [same]
    exact same

@[simp] theorem asciiLower_asciiLower (s : String) : asciiLower (asciiLower s) = asciiLower s := by
  have idempotent : Char.toLower ∘ Char.toLower = Char.toLower :=
    funext toLower_toLower
  simp [asciiLower, idempotent]

/-- The context of the worked examples, given the hashes of the texts that occur in them. -/
def exampleContext (sha256 : String → String) : ApiContext where
  config := ⟨true, 30, 300⟩
  sha256 := sha256
  lower := asciiLower
  toLowerCase := asciiLower
  toLowerCase_at := fun _ => at_mem_asciiLower
  timestamptz := fun _ => some 0

/-- A request header: it may be missing, and a repeated one arrives as a list. -/
inductive HeaderValue
  | missing
  | single (value : String)
  | multiple (values : List String)
deriving DecidableEq

/-- The request as far as the handlers look at it. -/
structure FastifyRequest where
  id : String
  method : String
  /-- `request.routeOptions?.url`. -/
  routeUrl : Option String
  url : String
  /-- The header `idempotency-key`. -/
  idempotencyKey : HeaderValue
  correlationId : Option String
deriving DecidableEq

/-- What a handler answers: the status code and the body, if there is one. -/
structure HttpResponse where
  status : ℕ
  body : Option Json
deriving DecidableEq

/-- Whether the status says that the request succeeded. -/
def HttpResponse.isSuccess (r : HttpResponse) : Bool := 200 ≤ r.status && r.status < 300

/-- An error body as every route writes it. -/
def errorBody (code message : String) : Json :=
  .object [("error", .object [("code", .str code), ("message", .str message)])]

end OrderPlatform
