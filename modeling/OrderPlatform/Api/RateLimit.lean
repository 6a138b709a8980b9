import OrderPlatform.Api.AuthService

/-!
# The rate limiter

`middleware/rate-limit.ts`, and the Redis that all API replicas share.  A request is counted under a
key of its client and of the window bucket in which it has read the clock; the request whose `INCR`
has created the counter gives it a time to live.

The machine is the one of the auth service, with a `log` of the commands that Redis has executed,
which no step looks at.  Beside the requests that are followed here the rest of the API uses the
same Redis: it may write any key that a run allows it to.

* `RateLimitContext`, `enforceRateLimit` — the hook.
* `Execution`, `State`, `machine` — the commands that are executed.
* `increments`, `Execution.count` — how often a key has been counted.
-/

namespace OrderPlatform

namespace RateLimit

open Async (Tid Machine)
open AuthRoutes (AuthContext AuthError ClientRequest Route getClientIdentifier redis now)
open Counters (Command Counter live)

/-! ### The hook -/

/-- The configuration of the rate limit, beside that of the routes behind it. -/
structure RateLimitContext where
  auth : AuthContext
  rateLimitRequests : ℤ
  rateLimitWindowSeconds : ℤ

/-- A request as far as the hook looks at it. -/
structure LimitedRequest where
  url : String
  client : ClientRequest

/-- `url.startsWith(front)`. -/
def startsWith (url front : String) : Bool := front.toList.isPrefixOf url.toList

/-- The urls that the rate limit lets through without counting. -/
def isExempt (request : LimitedRequest) : Bool :=
  startsWith request.url "/health" || decide (request.url = "/metrics") ||
    decide (request.url = "/docs") || startsWith request.url "/docs/"

/-- `Math.floor(ms / 1000 / windowSeconds)`. -/
def windowBucket (windowSeconds ms : ℤ) : ℤ := ms / (1000 * windowSeconds)

/-- The key of the counter of a client in a window. -/
def rateKey (clientId : String) (windowBucket : ℤ) : String :=
  "rate:" ++ clientId ++ ":" ++ toString windowBucket

/-- What the hook does to the reply. -/
structure Limit where
  headers : List (String × String)
  /-- The answer that is sent instead of the handler's. -/
  refusal : Option HttpResponse

/-- The request is let through without a word. -/
def unlimited : Limit := ⟨[], none⟩

/-- The answer to a client that has used up its window. -/
def rateLimitExceeded : HttpResponse :=
  ⟨429, some (errorBody "RATE_LIMIT_EXCEEDED" "Too many requests")⟩

/-- `X-RateLimit-Remaining`. -/
def remaining (ctx : RateLimitContext) (count : ℤ) : ℤ := max (ctx.rateLimitRequests - count) 0

/-- What becomes of a request that was counted. -/
def limitOf (ctx : RateLimitContext) (count ttl : ℤ) : Limit :=
  let headers :=
    [("X-RateLimit-Limit", toString ctx.rateLimitRequests),
      ("X-RateLimit-Remaining", toString (remaining ctx count)),
      ("X-RateLimit-Reset", toString (max ttl 1))]
  if ctx.rateLimitRequests < count then
    ⟨headers ++ [("Retry-After", toString (max ttl 1))], some rateLimitExceeded⟩
  else ⟨headers, none⟩

/-- The body of the `try`. -/
def limitByKey (ctx : RateLimitContext) (key : String) : Route Limit :=
  (redis (.incr key)).bind fun (count : ℤ) =>
    (if count = 1 then
      (redis (.expire key ctx.rateLimitWindowSeconds)).bind fun _ => .done ()
    else .done ()).bind fun _ =>
      (redis (.ttl key)).bind fun (ttl : ℤ) => .done (limitOf ctx count ttl)

/-- `enforceRateLimit`: an error of Redis is logged, and the request is let through. -/
def enforceRateLimit (ctx : RateLimitContext) (request : LimitedRequest) : Route Limit :=
  if isExempt request then .done unlimited
  else
    let clientId := getClientIdentifier request.client ctx.auth.config
    now.bind fun ms =>
      let key := rateKey clientId (windowBucket ctx.rateLimitWindowSeconds ms)
      (limitByKey ctx key).attempt fun _ => .done unlimited

/-! ### The machine -/

/-- A command that Redis has executed. -/
structure Execution where
  /-- The request that has sent it; `none` when its caller had got an error before. -/
  caller : Option Tid
  command : Command
  moment : ℤ
  /-- The counter that it has found. -/
  met : Option Counter
deriving DecidableEq

/-- The value of the counter behind an `INCR`. -/
def Execution.count (e : Execution) : ℤ := (e.met.getD ⟨0, none⟩).value + 1

/-- The state of the routes behind the limit, with a log of the executed commands; no operation
looks at the log. -/
structure State where
  base : AuthRoutes.State
  /-- Latest first. -/
  log : List Execution

/-- The key of a command. -/
def keyOf : Command → String
  | .get key => key
  | .incr key => key
  | .expire key _ => key
  | .ttl key => key

/-- The counter that a command finds. -/
def State.met (s : State) (c : Command) : Option Counter :=
  live s.base.clock s.base.server.store (keyOf c)

/-- A command is executed now. -/
def State.executed (s : State) (caller : Option Tid) (c : Command) : Execution :=
  ⟨caller, c, s.base.clock, s.met c⟩

/-- The command that an operation has Redis execute. -/
def sent (choice : AuthRoutes.Choice) : AuthRoutes.Operation → Option Command
  | .redis c => if choice = .redis .none then some c else none
  | _ => none

/-- One operation, which also goes into the log when it is a command that Redis executes. -/
def exec (ctx : RateLimitContext) (t : Tid) (choice : AuthRoutes.Choice)
    (o : AuthRoutes.Operation) (s : State) : Option (o.Reply × State) :=
  (AuthRoutes.exec ctx.auth t choice o s.base).map fun x =>
    (x.1, ⟨x.2, ((sent choice o).map (s.executed (some t))).toList ++ s.log⟩)

/-- What happens without any request doing it. -/
inductive Event
  /-- A millisecond passes. -/
  | tick
  /-- A command whose caller has got an error is executed. -/
  | land (position : ℕ)
  /-- Another request writes a key. -/
  | write (key : String) (counter : Option Counter)
deriving DecidableEq

/-- An event in a state; a command that lands late is logged like any other. -/
def State.event : Event → State → Option State
  | .tick, s => (s.base.event .tick).map fun base => { s with base }
  | .land position, s =>
      (s.base.event (.land position)).map fun base =>
        ⟨base, (s.base.server.inFlight[position]?.map (s.executed none)).toList ++ s.log⟩
  | .write key counter, s =>
      some { s with base := { s.base with
        server := { s.base.server with store := Function.update s.base.server.store key counter } } }

/-- The API as far as its counters are concerned. -/
@[reducible] def machine (ctx : RateLimitContext) : Machine where
  Op := AuthRoutes.Operation
  Reply := AuthRoutes.Operation.Reply
  Error := AuthError
  State := State
  Choice := AuthRoutes.Choice
  Event := Event
  exec := exec ctx
  event := State.event
  crash _ s := s

/-- How often a key was counted, latest first. -/
def increments (key : String) (s : State) : List Execution :=
  s.log.filter fun e => e.command = .incr key

/-- What Redis has executed for a request, latest first. -/
def own (t : Tid) (s : State) : List Execution := s.log.filter fun e => e.caller = some t

end RateLimit

end OrderPlatform
