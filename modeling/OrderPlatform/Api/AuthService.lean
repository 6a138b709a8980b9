import OrderPlatform.Async.Pool
import OrderPlatform.Api.Auth

/-!
# The auth service

Any number of requests to the auth routes, handled by any number of API processes, share the two
tables, the counters in Redis, and one clock.  `AuthRoutes.machine` gives the operations of the
handlers their meaning.

Beside that the state keeps a `History` that no step looks at: what a request has read, which
failures were recorded, who has exchanged which token, whose reuse led to a revocation, and from
which token each token descends.

* `State`, `History` — the shared state.
* `machine` — the meaning of the operations.
* `Request`, `handler` — the four routes.
-/

namespace OrderPlatform

namespace AuthRoutes

open Async (Tid Machine)

/-- How an operation goes. -/
inductive Choice
  | redis (fault : Counters.Fault)
  | succeeds
  /-- The statement fails and has no effect. -/
  | fails
  /-- The identifier that is generated. -/
  | fresh (id : Uuid)
  /-- The text that is drawn at random: a refresh token, or a salt. -/
  | draws (text : String)
deriving DecidableEq

/-- What a `SELECT` on `users` has found, and when. -/
structure Lookup where
  /-- The email as Postgres compares it. -/
  email : String
  found : Option UserRow
  moment : ℤ
deriving DecidableEq

/-- A failed login that was recorded. -/
structure Failure where
  tid : Tid
  userId : Uuid
  lockedUntil : Option ℤ
deriving DecidableEq

/-- What the requests have done so far, as the theorems need it.  No operation looks at it, and each
entry is written by the statement that it is about. -/
structure History where
  /-- What a request has last read in `users`. -/
  lookups : Tid → Option Lookup
  /-- What a request has last read in `refresh_tokens`. -/
  tokens : Tid → Option TokenRow
  /-- Newest first. -/
  failures : List Failure
  /-- Who has revoked which token in order to exchange it. -/
  rotated : List (Tid × Uuid)
  /-- The token that a request is exchanging. -/
  rotating : Tid → Option Uuid
  /-- Who has revoked the tokens of a user because of which token. -/
  reused : List (Tid × Uuid)
  /-- A token, the token it was exchanged for, and so on. -/
  family : Uuid → List Uuid

namespace History

/-- No request has done anything, and every token is the only one of its family. -/
def initial : History where
  lookups := fun _ => none
  tokens := fun _ => none
  failures := []
  rotated := []
  rotating := fun _ => none
  reused := []
  family := fun id => [id]

/-- What an executed statement adds. -/
def note (lower : String → String) (t : Tid) (now : ℤ) :
    (st : AuthStatement) → st.Result → History → History
  | .selectUser email, found, h =>
      { h with lookups := Function.update h.lookups t (some ⟨lower email, found, now⟩) }
  | .selectToken _, found, h =>
      { h with tokens := Function.update h.tokens t (Option.map Prod.fst found) }
  | .recordFailure id _ lockedUntil, _, h =>
      { h with failures := ⟨t, id, lockedUntil⟩ :: h.failures }
  | .revokeToken id, _, h =>
      { h with
        rotated := (t, id) :: h.rotated
        rotating := Function.update h.rotating t (some id) }
  | .revokeUserTokens _, _, h =>
      { h with reused := ((h.tokens t).map fun row => (t, row.id)).toList ++ h.reused }
  | .insertToken id _ _ _, _, h =>
      { h with family := Function.update h.family id (id :: (h.rotating t).elim [] h.family) }
  | .insertUser .., _, h => h
  | .clearFailures _, _, h => h
  | .revokeTokenHash _, _, h => h

end History

/-- The state that the requests share: Redis, the clock of the servers, the two tables, and the
history. -/
structure State where
  server : Counters.Server
  /-- Milliseconds since the epoch. -/
  clock : ℤ
  tables : AuthTables
  history : History

/-- Before the first request; nothing is said about what Redis and Postgres hold. -/
def State.initial (server : Counters.Server) (clock : ℤ) (tables : AuthTables) : State :=
  ⟨server, clock, tables, .initial⟩

/-- A statement of `t` has been executed. -/
def State.after (ctx : AuthContext) (t : Tid) (st : AuthStatement) (r : st.Result)
    (tables : AuthTables) (s : State) : State :=
  { s with tables, history := s.history.note ctx.lower t s.clock st r }

/-- One operation of a request, with the choice of the environment: whether a command or a statement
fails, and which random value is drawn. -/
def exec (ctx : AuthContext) (t : Tid) : Choice → (o : Operation) → State → Option (o.Reply × State)
  | .redis fault, .redis c, s =>
      let (reply, server) := s.server.call s.clock fault c
      some (reply, { s with server })
  | .succeeds, .query st, s =>
      match s.tables.exec ctx.lower s.clock st with
      | .ok (r, tables) => some (.ok r, s.after ctx t st r tables)
      | .error e => some (.error e, s)
  | .fails, .query _, s => some (.error .other, s)
  | .succeeds, .now, s => some (s.clock, s)
  | .fresh id, .randomUUID, s => some (id, s)
  | .draws token, .newRefreshToken, s => some (token, s)
  | .draws salt, .argon2Hash password, s => some (ctx.argon2Hash salt password, s)
  | .succeeds, .argon2Verify hash password, s => some (ctx.argon2Verify hash password, s)
  | _, _, _ => none

/-- What happens without any request doing it. -/
inductive Event
  /-- A millisecond passes. -/
  | tick
  /-- A Redis command whose caller has got an error is executed. -/
  | land (position : ℕ)
deriving DecidableEq

/-- An event in a state; a command can only land while it is in flight. -/
def State.event : Event → State → Option State
  | .tick, s => some { s with clock := s.clock + 1 }
  | .land position, s => (s.server.land s.clock position).map fun server => { s with server }

/-- The auth service as a machine. -/
@[reducible] def machine (ctx : AuthContext) : Machine where
  Op := Operation
  Reply := Operation.Reply
  Error := AuthError
  State := State
  Choice := Choice
  Event := Event
  exec := exec ctx
  event := State.event
  crash _ s := s

/-- A request, with the outcome of its schema. -/
inductive Request
  | register (body : Except String Credentials)
  | login (client : ClientRequest) (body : Except String Credentials)
  | refresh (body : Except String String)
  | logout (body : Except String String)

/-- The handler of each route of `auth.routes.ts`. -/
def handler (ctx : AuthContext) : Request → (machine ctx).Task HttpResponse
  | .register body => register ctx body
  | .login client body => login ctx client body
  | .refresh body => refresh ctx body
  | .logout body => logout ctx body

/-- The pools of the auth service. -/
abbrev Service (ctx : AuthContext) := Async.Pool (machine ctx) Request HttpResponse

end AuthRoutes

end OrderPlatform
