import OrderPlatform.Api.AuthTables
import OrderPlatform.Api.Counters
import OrderPlatform.Text.Component

/-!
# The auth routes

The handlers of `/v1/auth/register`, `/login`, `/refresh` and `/logout`.  None of them opens a
transaction: every statement stands alone, and at every `await` other requests may run.

A request comes with the outcome of its schema, which is either the message of the rejection or
the parsed body.  What the routes take from `argon2`, `jsonwebtoken` and `node:crypto` is in
`AuthContext`; what these draw at random is the reply of an operation.

* `getClientIdentifier` — whom a failed login is counted for.
* `createTokens` — a new pair of tokens, the refresh token stored under its hash.
* `register`, `login`, `refresh`, `logout` — the handlers.
-/

namespace OrderPlatform

namespace AuthRoutes

open Async (Program)
open Text (Json)

/-! ### The context -/

/-- The settings that the auth routes read. -/
structure AuthConfig where
  accessTokenTtlSeconds : ℤ
  refreshTokenTtlSeconds : ℤ
  failedLoginIpLimit : ℤ
  failedLoginIpWindowSeconds : ℤ
  failedLoginAccountLimit : ℤ
  accountLockSeconds : ℤ
  allowLoadTestClientIdentity : Bool
  loadTestClientIdHeader : String

/-- The configuration of the routes and the third-party functions they call: hashing, signing and
the case folding of Postgres.  They are parameters; what a result relies on is stated where it is
used. -/
structure AuthContext where
  config : AuthConfig
  /-- `createHash("sha256").update(text).digest("hex")`. -/
  sha256 : String → String
  /-- `lower(text)` as Postgres computes it. -/
  lower : String → String
  /-- `argon2.hash`, given the salt that it draws. -/
  argon2Hash : String → String → String
  /-- `argon2.verify(hash, password)`. -/
  argon2Verify : String → String → Bool
  /-- `jwt.sign({ sub, email }, …)` at a moment, with the time to live in seconds. -/
  sign : Uuid → String → ℤ → ℤ → String

/-- `hashToken(token)`. -/
def AuthContext.hashToken (ctx : AuthContext) (token : String) : String := ctx.sha256 token

/-! ### The client -/

/-- White space, as `String.prototype.trim` removes it. -/
def isTrimmed (c : Char) : Bool :=
  (9 ≤ c.toNat && c.toNat ≤ 13) || c.toNat = 0x20 || c.toNat = 0xa0 || c.toNat = 0x1680 ||
    (0x2000 ≤ c.toNat && c.toNat ≤ 0x200a) || c.toNat = 0x2028 || c.toNat = 0x2029 ||
    c.toNat = 0x202f || c.toNat = 0x205f || c.toNat = 0x3000 || c.toNat = 0xfeff

/-- `text.trim()`. -/
def trim (text : String) : String :=
  String.ofList (((text.toList.dropWhile isTrimmed).reverse.dropWhile isTrimmed).reverse)

/-- The request as far as `getClientIdentifier` looks at it. -/
structure ClientRequest where
  headers : String → HeaderValue
  ip : String

/-- The client that the load test header names.  The value of a header has no character beyond
Latin-1, so its first 128 code units are its first 128 characters. -/
def loadTestClient (request : ClientRequest) (config : AuthConfig) : Option String :=
  if config.allowLoadTestClientIdentity then
    match request.headers config.loadTestClientIdHeader with
    | .single value =>
        if trim value = "" then none
        else some ("load-test:" ++ String.ofList ((trim value).toList.take 128))
    | _ => none
  else none

/-- The first address of `X-Forwarded-For`, otherwise the address of the connection. -/
def forwardedClient (request : ClientRequest) : String :=
  match request.headers "x-forwarded-for" with
  | .single value =>
      let first := trim (String.ofList (value.toList.takeWhile (· ≠ ',')))
      if trim value = "" ∨ first = "" then request.ip else first
  | _ => request.ip

/-- `getClientIdentifier`: the client that a load test names, where the configuration trusts it, and
otherwise the forwarded address or the address of the socket. -/
def getClientIdentifier (request : ClientRequest) (config : AuthConfig) : String :=
  (loadTestClient request config).getD (forwardedClient request)

/-! ### Operations -/

/-- Everything that a route asks of its surroundings: Redis, Postgres, the clock, the sources of
randomness and `argon2`. -/
inductive Operation
  | redis (command : Counters.Command)
  | query (statement : AuthStatement)
  /-- `Date.now()`. -/
  | now
  | randomUUID
  | newRefreshToken
  /-- `argon2.hash(password, …)`. -/
  | argon2Hash (password : String)
  /-- `argon2.verify(hash, password)`. -/
  | argon2Verify (hash password : String)
deriving DecidableEq

/-- A Redis command is answered by `none` for an error. -/
def Operation.Reply : Operation → Type
  | redis command => Option command.Reply
  | query statement => Except SqlError statement.Result
  | now => ℤ
  | randomUUID => Uuid
  | newRefreshToken => String
  | argon2Hash _ => String
  | argon2Verify _ _ => Bool

/-- What an auth route may throw. -/
inductive AuthError
  | redis
  | sql (error : SqlError)
deriving DecidableEq

/-- The programs of the auth routes. -/
abbrev Route (α : Type) := Program Operation Operation.Reply AuthError α

/-- `await ctx.redis.…`. -/
def redis (command : Counters.Command) : Route command.Reply :=
  .await (.redis command) fun
    | some reply => .done reply
    | none => .thrown .redis

/-- `await ctx.pool.query(…)`. -/
def query (statement : AuthStatement) : Route statement.Result :=
  .await (.query statement) fun
    | .ok result => .done result
    | .error error => .thrown (.sql error)

/-- `Date.now()`. -/
def now : Route ℤ := .await .now fun ms => .done ms

/-- `randomUUID()`; the environment chooses the identifier. -/
def randomUUID : Route Uuid := .await .randomUUID fun id => .done id

/-- The text of a new refresh token, drawn by the environment. -/
def newRefreshToken : Route String := .await .newRefreshToken fun token => .done token

/-- `argon2.hash(password, …)`; the salt is drawn by the environment. -/
def argon2Hash (password : String) : Route String :=
  .await (.argon2Hash password) fun hash => .done hash

/-- `argon2.verify(hash, password)`. -/
def argon2Verify (hash password : String) : Route Bool :=
  .await (.argon2Verify hash password) fun matched => .done matched

/-- `secondsFromNow(seconds)`, in milliseconds since the epoch. -/
def secondsFromNow (seconds : ℤ) : Route ℤ := now.bind fun ms => .done (ms + seconds * 1000)

/-! ### Responses -/

/-- The response to a body that the schema refuses, with the normalised error. -/
def validationError (message : String) : HttpResponse :=
  ⟨400, some (errorBody "VALIDATION_ERROR" message)⟩

/-- `register` answers so when the `INSERT` hits the unique index of the email addresses. -/
def emailAlreadyExists : HttpResponse :=
  ⟨409, some (errorBody "EMAIL_ALREADY_EXISTS" "Email already exists")⟩

/-- `login` answers so once the client address has failed too often in the window. -/
def authRateLimited : HttpResponse :=
  ⟨429, some (errorBody "AUTH_RATE_LIMITED" "Too many failed login attempts")⟩

/-- `login` answers so while `locked_until` lies in the future; there is no `Retry-After` header. -/
def accountLocked : HttpResponse :=
  ⟨423, some (errorBody "ACCOUNT_LOCKED" "Account is temporarily locked")⟩

/-- `login` answers so for an unknown email address and for a wrong password alike. -/
def invalidCredentials : HttpResponse :=
  ⟨401, some (errorBody "INVALID_CREDENTIALS" "Invalid credentials")⟩

/-- `refresh` answers so for a token that is unknown or has expired. -/
def invalidRefreshToken : HttpResponse :=
  ⟨401, some (errorBody "INVALID_REFRESH_TOKEN" "Invalid refresh token")⟩

/-- `refresh` answers so for a revoked token; the message does not tell this case from the
others. -/
def refreshTokenReused : HttpResponse :=
  ⟨401, some (errorBody "REFRESH_TOKEN_REUSED" "Invalid refresh token")⟩

/-- A pair of tokens. -/
structure Tokens where
  accessToken : String
  refreshToken : String
deriving DecidableEq

/-- The properties of the body that hands out a pair of tokens. -/
def Tokens.properties (tokens : Tokens) : List (String × Json) :=
  [("accessToken", .str tokens.accessToken), ("refreshToken", .str tokens.refreshToken)]

/-- The answer of a refresh. -/
def refreshed (tokens : Tokens) : HttpResponse := ⟨200, some (.object tokens.properties)⟩

/-- The answer of a registration or of a login. -/
def authenticated (status : ℕ) (id : Uuid) (email : String) (tokens : Tokens) : HttpResponse :=
  ⟨status, some (.object (("user", .object [("id", .str id.text), ("email", .str email)]) ::
    tokens.properties))⟩

/-! ### Handlers -/

/-- The body of a registration or of a login. -/
structure Credentials where
  email : String
  password : String
deriving DecidableEq

/-- `createTokens`. -/
def createTokens (ctx : AuthContext) (userId : Uuid) (email : String) : Route Tokens :=
  now.bind fun issuedAt =>
    let accessToken := ctx.sign userId email issuedAt ctx.config.accessTokenTtlSeconds
    newRefreshToken.bind fun refreshToken =>
      randomUUID.bind fun id =>
        (secondsFromNow ctx.config.refreshTokenTtlSeconds).bind fun expiresAt =>
          (query (.insertToken id userId (ctx.hashToken refreshToken) expiresAt)).bind fun _ =>
            .done ⟨accessToken, refreshToken⟩

/-- `POST /v1/auth/register`. -/
def register (ctx : AuthContext) : Except String Credentials → Route HttpResponse
  | .error message => .done (validationError message)
  | .ok body =>
      (argon2Hash body.password).bind fun passwordHash =>
        (randomUUID.bind fun id =>
          (query (.insertUser id body.email passwordHash)).bind fun (user : Uuid × String) =>
            (createTokens ctx user.1 user.2).bind fun tokens =>
              .done (authenticated 201 user.1 user.2 tokens)).attempt fun error =>
          if error = .sql .uniqueViolation then .done emailAlreadyExists else .thrown error

/-- The key that counts the failed logins of a client. -/
def failedIpKey (client : String) : String := "auth:failed-ip:" ++ client

/-- `ipFailures > ctx.config.failedLoginIpLimit`; a text that is no number is `NaN`. -/
def tooManyFailures (ctx : AuthContext) (cached : Option String) : Bool :=
  (Text.parseInt (cached.getD "0")).any fun ipFailures =>
    decide (ctx.config.failedLoginIpLimit < ipFailures)

/-- Whether the account is locked now. -/
def isLocked (user : Option UserRow) : Route Bool :=
  match user.bind UserRow.lockedUntil with
  | some lockedUntil => now.bind fun ms => .done (decide (ms < lockedUntil))
  | none => .done false

/-- `user ? await argon2.verify(user.password_hash, password) : false`. -/
def passwordMatches (user : Option UserRow) (password : String) : Route Bool :=
  match user with
  | some user => argon2Verify user.passwordHash password
  | none => .done false

/-- The failed login is counted for the client. -/
def countClientFailure (ctx : AuthContext) (ipKey : String) : Route Unit :=
  (redis (.incr ipKey)).bind fun (failedCount : ℤ) =>
    if failedCount = 1 then
      (redis (.expire ipKey ctx.config.failedLoginIpWindowSeconds)).bind fun _ => .done ()
    else .done ()

/-- Until when an account is locked after this many failures. -/
def lockAfter (ctx : AuthContext) (nextCount : ℕ) : Route (Option ℤ) :=
  if ctx.config.failedLoginAccountLimit ≤ nextCount then
    (secondsFromNow ctx.config.accountLockSeconds).bind fun lockedUntil => .done (some lockedUntil)
  else .done none

/-- The failed login is counted for the account. -/
def countAccountFailure (ctx : AuthContext) (user : UserRow) : Route Unit :=
  let nextCount := user.failedLoginCount + 1
  (lockAfter ctx nextCount).bind fun lockedUntil =>
    query (.recordFailure user.id nextCount lockedUntil)

/-- What follows a wrong password or an unknown email. -/
def rejectLogin (ctx : AuthContext) (ipKey : String) (user : Option UserRow) :
    Route HttpResponse :=
  (countClientFailure ctx ipKey).bind fun _ =>
    match user with
    | some user => (countAccountFailure ctx user).bind fun _ => .done invalidCredentials
    | none => .done invalidCredentials

/-- What follows a right password. -/
def acceptLogin (ctx : AuthContext) (user : UserRow) : Route HttpResponse :=
  (query (.clearFailures user.id)).bind fun _ =>
    (createTokens ctx user.id user.email).bind fun tokens =>
      .done (authenticated 200 user.id user.email tokens)

/-- `POST /v1/auth/login`. -/
def login (ctx : AuthContext) (request : ClientRequest) :
    Except String Credentials → Route HttpResponse
  | .error message => .done (validationError message)
  | .ok body =>
      let ipKey := failedIpKey (getClientIdentifier request ctx.config)
      (redis (.get ipKey)).bind fun cached =>
        if tooManyFailures ctx cached then .done authRateLimited
        else
          (query (.selectUser body.email)).bind fun (user : Option UserRow) =>
            (isLocked user).bind fun locked =>
              if locked then .done accountLocked
              else
                (passwordMatches user body.password).bind fun matched =>
                  match user, matched with
                  | some user, true => acceptLogin ctx user
                  | user, _ => rejectLogin ctx ipKey user

/-- What follows the lookup of a refresh token. -/
def exchange (ctx : AuthContext) (token : TokenRow) (email : String) : Route HttpResponse :=
  if token.revokedAt.isSome then
    (query (.revokeUserTokens token.userId)).bind fun _ => .done refreshTokenReused
  else
    (query (.revokeToken token.id)).bind fun _ =>
      (createTokens ctx token.userId email).bind fun tokens => .done (refreshed tokens)

/-- `POST /v1/auth/refresh`. -/
def refresh (ctx : AuthContext) : Except String String → Route HttpResponse
  | .error message => .done (validationError message)
  | .ok refreshToken =>
      (query (.selectToken (ctx.hashToken refreshToken))).bind fun
          (found : Option (TokenRow × String)) =>
        match found with
        | none => .done invalidRefreshToken
        | some (token, email) =>
            now.bind fun ms =>
              if token.expiresAt ≤ ms then .done invalidRefreshToken
              else exchange ctx token email

/-- `POST /v1/auth/logout`, behind authentication. -/
def logout (ctx : AuthContext) : Except String String → Route HttpResponse
  | .error message => .done (validationError message)
  | .ok refreshToken =>
      (query (.revokeTokenHash (ctx.hashToken refreshToken))).bind fun _ => .done ⟨204, none⟩

end AuthRoutes

end OrderPlatform
