import Mathlib.Data.List.Nodup
import OrderPlatform.Api.Types
import OrderPlatform.Async.Contract

/-!
# The life of a request

Two hooks surround every request of the API service: `onRequest` counts it, unless the service is
shutting down, and `onResponse` takes it off the count when a response has been sent.  `shutdown`
waits until the count is zero, or its deadline has passed.

The hooks run without an `await`, and so does `shutdown` up to the end of the first test of its
loop; each of these stretches is one operation.  A response that the hook itself sends runs
`onResponse` as well.

Beside the state of the service there is a `History` that no step looks at: which requests were
accepted and refused, which were responded to, and how the waiting has ended.

* `ApiState`, `History`, `Service` — the shared state.
* `onRequest`, `onResponse`, `Call`, `machine` — the hooks.
* `request`, `shutdown`, `handler` — what runs.
-/

namespace OrderPlatform

namespace Lifecycle

open Async (Tid Machine Program)

/-- A request, as far as the hooks look at it. -/
structure IncomingRequest where
  id : String
  /-- The header `x-correlation-id`. -/
  correlationId : HeaderValue
  method : String
  /-- `request.routeOptions.url ?? request.url.split("?")[0] ?? "unknown"`. -/
  route : String
deriving DecidableEq

/-- The labels of the metrics of a request. -/
structure Labels where
  method : String
  route : String
  statusCode : String
deriving DecidableEq

/-- The metrics of the requests. -/
structure Metrics where
  inFlight : ℤ
  /-- What `httpRequests` has counted and `httpDuration` has observed, in nanoseconds. -/
  observed : List (Labels × ℤ)

/-- `ctx.state`. -/
structure ApiState where
  shuttingDown : Bool
  activeRequests : ℤ
  /-- `requestStart`, by the thread of the request. -/
  requestStart : Tid → Option ℤ

/-- The end of the loop of `shutdown`. -/
structure Leaving where
  deadline : ℤ
  moment : ℤ
  /-- How many accepted requests were not responded to. -/
  unanswered : ℕ
deriving DecidableEq

/-- Which requests have been let in, turned away and answered, and who has left, and how. -/
structure History where
  accepted : List Tid
  refused : List Tid
  responded : List Tid
  left : List Leaving

/-- The accepted requests that have not been responded to. -/
def History.unanswered (h : History) : List Tid := h.accepted.filter fun t => t ∉ h.responded

/-- The state of the API process with its metrics. -/
structure State where
  api : ApiState
  metrics : Metrics
  history : History

/-- A process that serves requests and has not seen one. -/
def State.initial : State := ⟨⟨false, 0, fun _ => none⟩, ⟨0, []⟩, ⟨[], [], [], []⟩⟩

/-- The correlation id of a request: the one it brings, unless that is too long. -/
def correlationId (request : IncomingRequest) : String :=
  match request.correlationId with
  | .single value => if value.length ≤ 128 then value else request.id
  | _ => request.id

/-- The response of `onRequest` while the process is draining. -/
def shuttingDownResponse : HttpResponse :=
  ⟨503, some (errorBody "SERVICE_UNAVAILABLE" "Server is shutting down")⟩

/-- The headers that `onRequest` sets. -/
def responseHeaders (request : IncomingRequest) : List (String × String) :=
  [("X-Request-Id", request.id), ("X-Correlation-Id", correlationId request)]

/-- The hook `onRequest` at a moment: a response, or the headers of the response to come. -/
def onRequest (t : Tid) (now : ℤ) (request : IncomingRequest) (s : State) :
    Except HttpResponse (List (String × String)) × State :=
  if s.api.shuttingDown then
    (.error shuttingDownResponse,
      { s with history := { s.history with refused := t :: s.history.refused } })
  else
    (.ok (responseHeaders request),
      { api :=
          { s.api with
            activeRequests := s.api.activeRequests + 1
            requestStart := Function.update s.api.requestStart t (some now) }
        metrics := { s.metrics with inFlight := s.metrics.inFlight + 1 }
        history := { s.history with accepted := t :: s.history.accepted } })

/-- What the hook `onResponse` observes of a request whose start it knows. -/
def observation (now : ℤ) (request : IncomingRequest) (status : ℕ) (start : Option ℤ) :
    List (Labels × ℤ) :=
  start.toList.map fun start => (⟨request.method, request.route, toString status⟩, now - start)

/-- The hook `onResponse` at a moment. -/
def onResponse (t : Tid) (now : ℤ) (request : IncomingRequest) (status : ℕ) (s : State) : State where
  api := { s.api with activeRequests := s.api.activeRequests - 1 }
  metrics :=
    { inFlight := s.metrics.inFlight - 1
      observed := observation now request status (s.api.requestStart t) ++ s.metrics.observed }
  history := { s.history with responded := t :: s.history.responded }

/-- The test of the loop of `shutdown` at a moment: whether it goes on. -/
def test (deadline now : ℤ) (s : State) : Bool × State :=
  if 0 < s.api.activeRequests ∧ now < deadline then (true, s)
  else
    (false, { s with history :=
      { s.history with
        left := ⟨deadline, now, s.history.unanswered.length⟩ :: s.history.left } })

/-- The hooks of a request, and the parts of `shutdown` between two of its awaits. -/
inductive Call
  | onRequest (request : IncomingRequest)
  /-- The rest of the application; its reply is the status of the response. -/
  | handle
  | onResponse (request : IncomingRequest) (status : ℕ)
  /-- `shutdown` up to the end of the first test of its loop. -/
  | shutdown
  /-- 250 milliseconds, and the next test. -/
  | drain (deadline : ℤ)

/-- `shutdown` is answered by nothing if another one is under way, otherwise by its deadline and
by whether its loop goes on. -/
abbrev Call.Reply : Call → Type
  | onRequest _ => Except HttpResponse (List (String × String))
  | handle => ℕ
  | onResponse _ _ => Unit
  | shutdown => Option (ℤ × Bool)
  | drain _ => Bool

/-- What the environment decides: the readings of the clock and the status of a response. -/
inductive Choice
  | moment (now : ℤ)
  /-- `Date.now()` is called twice. -/
  | moments (first second : ℤ)
  | answers (status : ℕ)
deriving DecidableEq

/-- `shutdownDrainMs` is the only setting that matters. -/
def exec (drainMs : ℤ) (t : Tid) : Choice → (c : Call) → State → Option (c.Reply × State)
  | .moment now, .onRequest request, s => some (onRequest t now request s)
  | .answers status, .handle, s => some (status, s)
  | .moment now, .onResponse request status, s => some ((), onResponse t now request status s)
  | .moments first second, .shutdown, s =>
      if s.api.shuttingDown then some (none, s)
      else
        let deadline := first + drainMs
        let (stays, s) := test deadline second { s with api := { s.api with shuttingDown := true } }
        some (some (deadline, stays), s)
  | .moment now, .drain deadline, s => some (test deadline now s)
  | _, _, _ => none

/-- The API service, seen from its hooks, as a machine. -/
@[reducible] def machine (drainMs : ℤ) : Machine where
  Op := Call
  Reply := Call.Reply
  Error := Empty
  State := State
  Choice := Choice
  Event := Empty
  exec := exec drainMs
  event e := e.elim
  crash _ s := s

/-- A hook or `shutdown`; neither throws. -/
abbrev Task (α : Type) := Program Call Call.Reply Empty α

/-- The life of a request. -/
def respond (request : IncomingRequest) : Task Unit :=
  .await (.onRequest request) fun
    | .error response => .await (.onResponse request response.status) .done
    | .ok _ => .await .handle fun status => .await (.onResponse request status) .done

/-- The loop of `shutdown`, of which so many rounds are followed. -/
def drainFrom (deadline : ℤ) : ℕ → Bool → Task Unit
  | _, false => .done ()
  | 0, true => .pending
  | rounds + 1, true => .await (.drain deadline) (drainFrom deadline rounds)

/-- `shutdown` up to the end of its loop. -/
def shutdown (rounds : ℕ) : Task Unit :=
  .await .shutdown fun
    | none => .done ()
    | some (deadline, stays) => drainFrom deadline rounds stays

/-- A request to the server, or the signal to shut down, with the number of tests its loop may
make. -/
inductive Request
  | http (request : IncomingRequest)
  | shutdown (rounds : ℕ)

/-- What is run for a request and for the signal. -/
def handler (drainMs : ℤ) : Request → (machine drainMs).Task Unit
  | .http request => respond request
  | .shutdown rounds => shutdown rounds

/-- The pools of the API service, seen from its hooks. -/
abbrev Service (drainMs : ℤ) := Async.Pool (machine drainMs) Request Unit

end Lifecycle

end OrderPlatform
