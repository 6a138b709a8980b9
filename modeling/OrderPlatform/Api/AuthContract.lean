import Mathlib.Data.Int.Order.Basic
import OrderPlatform.Async.Contract
import OrderPlatform.Api.AuthService

/-!
# What the auth routes do

The handlers are followed once, from their start to their answer, without any assumption on what
other requests do meanwhile.  What comes of it is where a request stands when it sends a statement
(`Before`), and what its answer says about the history (`Answer`).

Since every statement is a transaction of its own and none of them removes a row, a request
tolerates whatever the others do (`rely_of_exec`): its own part of the history stays as it is and
everything else only grows (`Rely`).
-/

namespace OrderPlatform

namespace AuthRoutes

open Async (Tid Contract Discipline Regime)

variable {ctx : AuthContext} {t : Tid} {s s' : State}

/-! ### What one operation does -/

/-- A statement fails and changes nothing, or it is executed. -/
theorem exec_query {choice : Choice} {st : AuthStatement} {r : Except SqlError st.Result}
    (hexec : exec ctx t choice (.query st) s = some (r, s')) :
    (∃ e, r = .error e ∧ s' = s) ∨ ∃ v tables, choice = .succeeds ∧ r = .ok v ∧
      s.tables.exec ctx.lower s.clock st = .ok (v, tables) ∧ s' = s.after ctx t st v tables := by
  cases choice with
  | succeeds =>
      simp only [exec] at hexec
      cases executed : s.tables.exec ctx.lower s.clock st with
      | error e =>
          rw [executed] at hexec
          cases hexec
          exact .inl ⟨e, rfl, rfl⟩
      | ok x =>
          rw [executed] at hexec
          cases hexec
          exact .inr ⟨x.1, x.2, rfl, rfl, rfl, rfl⟩
  | fails => cases hexec; exact .inl ⟨.other, rfl, rfl⟩
  | redis fault => cases hexec
  | fresh id => cases hexec
  | draws text => cases hexec

/-- Everything but a statement leaves tables, history and clock alone. -/
theorem exec_other {choice : Choice} {o : Operation} {r : o.Reply} (other : ∀ st, o ≠ .query st)
    (hexec : exec ctx t choice o s = some (r, s')) :
    s'.clock = s.clock ∧ s'.tables = s.tables ∧ s'.history = s.history := by
  cases o with
  | query st => exact absurd rfl (other st)
  | redis c => cases choice <;> cases hexec; exact ⟨rfl, rfl, rfl⟩
  | now => cases choice <;> cases hexec; exact ⟨rfl, rfl, rfl⟩
  | randomUUID => cases choice <;> cases hexec; exact ⟨rfl, rfl, rfl⟩
  | newRefreshToken => cases choice <;> cases hexec; exact ⟨rfl, rfl, rfl⟩
  | argon2Hash password => cases choice <;> cases hexec; exact ⟨rfl, rfl, rfl⟩
  | argon2Verify hash password => cases choice <;> cases hexec; exact ⟨rfl, rfl, rfl⟩

theorem exec_now {choice : Choice} {r : ℤ} (hexec : exec ctx t choice .now s = some (r, s')) :
    r = s.clock := by
  cases choice <;> cases hexec
  rfl

/-! ### What a request tolerates -/

/-- What a request has read stays what it has read, and everything else only grows. -/
structure Rely (t : Tid) (s s' : State) : Prop where
  clock : s.clock ≤ s'.clock
  tables : s.tables.Persists s'.tables
  lookups : s'.history.lookups t = s.history.lookups t
  tokens : s'.history.tokens t = s.history.tokens t
  rotating : s'.history.rotating t = s.history.rotating t
  failures : s.history.failures ⊆ s'.history.failures
  rotated : s.history.rotated ⊆ s'.history.rotated
  reused : s.history.reused ⊆ s'.history.reused
  family : ∀ row ∈ s.tables.tokens, s'.history.family row.id = s.history.family row.id

theorem Rely.refl (t : Tid) (s : State) : Rely t s s :=
  ⟨le_rfl, .refl _, rfl, rfl, rfl, fun _ h => h, fun _ h => h, fun _ h => h, fun _ _ => rfl⟩

theorem Rely.trans {s'' : State} (h : Rely t s s') (h' : Rely t s' s'') : Rely t s s'' where
  clock := le_trans h.clock h'.clock
  tables := h.tables.trans h'.tables
  lookups := h'.lookups.trans h.lookups
  tokens := h'.tokens.trans h.tokens
  rotating := h'.rotating.trans h.rotating
  failures := fun _ mem => h'.failures (h.failures mem)
  rotated := fun _ mem => h'.rotated (h.rotated mem)
  reused := fun _ mem => h'.reused (h.reused mem)
  family := by
    intro row mem
    obtain ⟨row', mem', same⟩ := h.tables.tokens row mem
    rw [← h.family row mem, ← same.id]
    exact h'.family row' mem'

/-- A state that differs in what no request knows about. -/
theorem Rely.of_same (clock : s.clock ≤ s'.clock) (tables : s'.tables = s.tables)
    (history : s'.history = s.history) : Rely t s s' := by
  refine ⟨clock, by rw [tables]; exact .refl _, ?_, ?_, ?_, ?_, ?_, ?_, ?_⟩
  all_goals rw [history]
  · exact fun _ mem => mem
  · exact fun _ mem => mem
  · exact fun _ mem => mem
  · exact fun _ _ => rfl

/-- The statements that change what the history keeps for the request that sends them. -/
def Personal : AuthStatement → Prop
  | .selectUser _ => True
  | .selectToken _ => True
  | .revokeToken _ => True
  | _ => False

/-- **A statement** is tolerated by every request for which it does not change what it has read. -/
theorem rely_after {u : Tid} {st : AuthStatement} (own : Personal st → u ≠ t) {v : st.Result}
    {T : AuthTables} (h : s.tables.exec ctx.lower s.clock st = .ok (v, T)) :
    Rely u s (s.after ctx t st v T) := by
  have persists := AuthTables.persists_exec h
  cases st with
  | insertUser id email passwordHash =>
      exact ⟨le_rfl, persists, rfl, rfl, rfl, fun _ m => m, fun _ m => m, fun _ m => m,
        fun _ _ => rfl⟩
  | selectUser email =>
      exact ⟨le_rfl, persists, Function.update_of_ne (own trivial) _ _, rfl, rfl, fun _ m => m,
        fun _ m => m, fun _ m => m, fun _ _ => rfl⟩
  | recordFailure id count lockedUntil =>
      exact ⟨le_rfl, persists, rfl, rfl, rfl, List.subset_cons_self _ _, fun _ m => m,
        fun _ m => m, fun _ _ => rfl⟩
  | clearFailures id =>
      exact ⟨le_rfl, persists, rfl, rfl, rfl, fun _ m => m, fun _ m => m, fun _ m => m,
        fun _ _ => rfl⟩
  | insertToken id userId tokenHash expiresAt =>
      exact ⟨le_rfl, persists, rfl, rfl, rfl, fun _ m => m, fun _ m => m, fun _ m => m,
        fun row mem => Function.update_of_ne ((AuthTables.inserted_token h).2.1 row mem) _ _⟩
  | selectToken tokenHash =>
      exact ⟨le_rfl, persists, rfl, Function.update_of_ne (own trivial) _ _, rfl, fun _ m => m,
        fun _ m => m, fun _ m => m, fun _ _ => rfl⟩
  | revokeToken id =>
      exact ⟨le_rfl, persists, rfl, rfl, Function.update_of_ne (own trivial) _ _, fun _ m => m,
        List.subset_cons_self _ _, fun _ m => m, fun _ _ => rfl⟩
  | revokeUserTokens userId =>
      exact ⟨le_rfl, persists, rfl, rfl, rfl, fun _ m => m, fun _ m => m,
        List.subset_append_right _ _, fun _ _ => rfl⟩
  | revokeTokenHash tokenHash =>
      exact ⟨le_rfl, persists, rfl, rfl, rfl, fun _ m => m, fun _ m => m, fun _ m => m,
        fun _ _ => rfl⟩

/-- A statement that changes nothing of what the history keeps for its sender. -/
theorem rely_own {st : AuthStatement} {v : st.Result} {T : AuthTables}
    (h : s.tables.exec ctx.lower s.clock st = .ok (v, T)) (impersonal : ¬ Personal st) :
    Rely t s (s.after ctx t st v T) :=
  rely_after (fun personal => absurd personal impersonal) h

/-- **Whatever another request does** is tolerated. -/
theorem rely_of_exec {u : Tid} (other : u ≠ t) {choice : Choice} {o : Operation} {r : o.Reply}
    (hexec : exec ctx t choice o s = some (r, s')) : Rely u s s' := by
  by_cases statement : ∃ st, o = .query st
  · obtain ⟨st, rfl⟩ := statement
    obtain ⟨_, _, rfl⟩ | ⟨v, T, _, _, executed, rfl⟩ := exec_query hexec
    · exact .refl u _
    · exact rely_after (fun _ => other) executed
  · obtain ⟨clock, tables, history⟩ := exec_other (fun st same => statement ⟨st, same⟩) hexec
    exact .of_same (le_of_eq clock.symm) tables history

/-! ### Where a request stands -/

/-- Until when an account is locked is computed from the clock. -/
def LockFrom (ctx : AuthContext) (count : ℕ) (earliest latest : ℤ) (lockedUntil : Option ℤ) : Prop :=
  if ctx.config.failedLoginAccountLimit ≤ count then
    ∃ ms, earliest ≤ ms ∧ ms ≤ latest ∧
      lockedUntil = some (ms + ctx.config.accountLockSeconds * 1000)
  else lockedUntil = none

theorem LockFrom.mono {count : ℕ} {earliest earliest' latest latest' : ℤ} {lockedUntil : Option ℤ}
    (h : LockFrom ctx count earliest latest lockedUntil) (before : earliest' ≤ earliest)
    (after : latest ≤ latest') : LockFrom ctx count earliest' latest' lockedUntil := by
  unfold LockFrom at h ⊢
  split at h
  · rename_i reached
    rw [if_pos reached]
    obtain ⟨ms, lo, hi, same⟩ := h
    exact ⟨ms, le_trans before lo, le_trans hi after, same⟩
  · rename_i below
    rw [if_neg below]
    exact h

/-- What is true when a request sends a statement. -/
def Before (ctx : AuthContext) (t : Tid) : Operation → State → Prop
  | .query (.recordFailure id count lockedUntil), s =>
      ∃ lookup row, s.history.lookups t = some lookup ∧ lookup.found = some row ∧ row.id = id ∧
        count = row.failedLoginCount + 1 ∧
        LockFrom ctx count lookup.moment s.clock lockedUntil
  | .query (.revokeToken id), s =>
      ∃ row, s.history.tokens t = some row ∧ row.id = id ∧ ∃ row' ∈ s.tables.tokens, row'.id = id
  | .query (.revokeUserTokens userId), s =>
      ∃ row, s.history.tokens t = some row ∧ row.userId = userId ∧
        ∃ row' ∈ s.tables.tokens, row'.id = row.id ∧ row'.userId = userId
  | .query (.insertToken _ userId _ _), s =>
      ∀ id, s.history.rotating t = some id → ∃ row ∈ s.tables.tokens, row.id = id ∧
        row.userId = userId
  | _, _ => True

/-- What all requests agree on: nothing but what they tolerate. -/
def discipline (ctx : AuthContext) : Discipline (machine ctx) where
  inv := fun _ => True
  fresh := fun t s => s.history.rotating t = none
  before := Before ctx
  rely := Rely
  rely_refl := Rely.refl
  rely_trans := Rely.trans
  fresh_rely := fun fresh step => step.rotating.trans fresh

variable {R : Regime (machine ctx)}

theorem environment : (discipline ctx).Environment R where
  event := by
    intro e s s' _ _ hevent
    refine ⟨trivial, fun u => ?_⟩
    cases e with
    | tick =>
        cases hevent
        exact .of_same (Int.le_add_one le_rfl) rfl rfl
    | land position =>
        obtain ⟨server, _, rfl⟩ := Option.map_eq_some_iff.mp hevent
        exact .of_same le_rfl rfl rfl
  crash := fun _ _ => ⟨trivial, fun u _ => .refl u _⟩

section Rules

variable {α : Type} {Q : α → State → Prop} {E : AuthError → State → Prop}

/-- Everything but a statement, awaited for a reply about which nothing is said. -/
theorem holds_other {o : Operation} {k : o.Reply → (machine ctx).Task α}
    (other : ∀ st, o ≠ .query st)
    (h : ∀ s' r, Rely t s s' → ((discipline ctx).contract R t).Holds Q E (k r) s') :
    ((discipline ctx).contract R t).Holds Q E (.await o k) s := by
  intro s₁ rely₁
  refine ⟨?_, fun c r s₂ _ hexec => ⟨⟨trivial, fun u ne => rely_of_exec ne hexec⟩, ?_⟩⟩
  · cases o with
    | query st => exact absurd rfl (other st)
    | _ => trivial
  · obtain ⟨clock, tables, history⟩ := exec_other other hexec
    exact h s₂ r (rely₁.2.trans (.of_same (le_of_eq clock.symm) tables history))

/-- The clock. -/
theorem holds_now {f : ℤ → (machine ctx).Task α}
    (h : ∀ s', Rely t s s' → ((discipline ctx).contract R t).Holds Q E (f s'.clock) s') :
    ((discipline ctx).contract R t).Holds Q E (now.bind f) s := by
  intro s₁ rely₁
  refine ⟨trivial, fun c r s₂ _ hexec => ⟨⟨trivial, fun u ne => rely_of_exec ne hexec⟩, ?_⟩⟩
  obtain rfl := exec_now hexec
  obtain ⟨clock, tables, history⟩ := exec_other (fun _ other => by cases other) hexec
  have next := h s₂ (rely₁.2.trans (.of_same (le_of_eq clock.symm) tables history))
  rw [clock] at next
  exact next

/-- A statement. -/
theorem holds_statement {st : AuthStatement}
    {k : Except SqlError st.Result → (machine ctx).Task α}
    (before : ∀ s', Rely t s s' → Before ctx t (.query st) s')
    (executed : ∀ s' v T, Rely t s s' → s'.tables.exec ctx.lower s'.clock st = .ok (v, T) →
      ((discipline ctx).contract R t).Holds Q E (k (.ok v)) (s'.after ctx t st v T))
    (failed : ∀ s' e, Rely t s s' → ((discipline ctx).contract R t).Holds Q E (k (.error e)) s') :
    ((discipline ctx).contract R t).Holds Q E (.await (.query st) k) s := by
  intro s₁ rely₁
  refine ⟨before s₁ rely₁.2, fun c r s₂ _ hexec =>
    ⟨⟨trivial, fun u ne => rely_of_exec ne hexec⟩, ?_⟩⟩
  obtain ⟨e, rfl, rfl⟩ | ⟨v, T, _, rfl, done, rfl⟩ := exec_query hexec
  · exact failed _ e rely₁.2
  · exact executed s₁ v T rely₁.2 done

/-- A statement whose failure ends the request. -/
theorem holds_query {st : AuthStatement} {f : st.Result → (machine ctx).Task α}
    (before : ∀ s', Rely t s s' → Before ctx t (.query st) s')
    (executed : ∀ s' v T, Rely t s s' → s'.tables.exec ctx.lower s'.clock st = .ok (v, T) →
      ((discipline ctx).contract R t).Holds Q E (f v) (s'.after ctx t st v T))
    (failed : ∀ s' e, E (.sql e) s') :
    ((discipline ctx).contract R t).Holds Q E ((query st).bind f) s :=
  holds_statement before executed fun _ e _ s' _ => failed s' e

end Rules

/-! ### A new pair of tokens -/

/-- The token that the request is exchanging, if any, belongs to this user. -/
def Descends (t : Tid) (userId : Uuid) (s : State) : Prop :=
  ∀ id, s.history.rotating t = some id → ∃ row ∈ s.tables.tokens, row.id = id ∧ row.userId = userId

theorem Descends.later {userId : Uuid} (h : Descends t userId s) (step : Rely t s s') :
    Descends t userId s' := by
  intro id rotating
  rw [step.rotating] at rotating
  obtain ⟨row, mem, rfl, rfl⟩ := h id rotating
  obtain ⟨row', mem', same⟩ := step.tables.tokens row mem
  exact ⟨row', mem', same.id, same.userId⟩

/-- A refresh token has been issued; it descends from the one that the request is exchanging. -/
structure Issued (ctx : AuthContext) (t : Tid) (refreshToken : String) (s : State) : Prop where
  row : ∃ row ∈ s.tables.tokens, row.tokenHash = ctx.hashToken refreshToken ∧
    ∀ id, s.history.rotating t = some id →
      (∃ old ∈ s.tables.tokens, old.id = id) ∧
        s.history.family row.id = row.id :: s.history.family id

theorem Issued.later {refreshToken : String} (h : Issued ctx t refreshToken s)
    (step : Rely t s s') : Issued ctx t refreshToken s' := by
  obtain ⟨row, mem, hash, descends⟩ := h.row
  obtain ⟨row', mem', same⟩ := step.tables.tokens row mem
  refine ⟨row', mem', same.tokenHash.trans hash, fun id rotating => ?_⟩
  rw [step.rotating] at rotating
  obtain ⟨⟨old, memOld, rfl⟩, family⟩ := descends id rotating
  obtain ⟨old', memOld', sameOld⟩ := step.tables.tokens old memOld
  refine ⟨⟨old', memOld', sameOld.id⟩, ?_⟩
  rw [same.id, step.family row mem, family, step.family old memOld]

/-- The `INSERT` of a new token. -/
theorem issued_after {userId id : Uuid} {refreshToken : String} {expiresAt : ℤ} {r : Unit}
    {T : AuthTables} (descends : Descends t userId s)
    (h : s.tables.exec ctx.lower s.clock
      (.insertToken id userId (ctx.hashToken refreshToken) expiresAt) = .ok (r, T)) :
    Issued ctx t refreshToken (s.after ctx t
      (.insertToken id userId (ctx.hashToken refreshToken) expiresAt) r T) := by
  obtain ⟨mem, fresh, tokens, _⟩ := AuthTables.inserted_token h
  refine ⟨_, mem, rfl, fun old rotating => ?_⟩
  change s.history.rotating t = some old at rotating
  obtain ⟨row, memRow, rfl, _⟩ := descends old rotating
  constructor
  · refine ⟨row, ?_, rfl⟩
    change row ∈ T.tokens
    rw [tokens]
    exact List.mem_cons_of_mem _ memRow
  · change Function.update s.history.family id _ id =
      id :: Function.update s.history.family id _ row.id
    rw [Function.update_self, Function.update_of_ne (fresh row memRow), rotating]
    rfl

section Handlers

variable {α : Type} {Q : α → State → Prop} {E : AuthError → State → Prop}

/-- `createTokens`, and what is done with the tokens. -/
theorem holds_createTokens {userId : Uuid} {email : String} {f : Tokens → (machine ctx).Task α}
    (descends : Descends t userId s)
    (next : ∀ s' tokens, Rely t s s' → Issued ctx t tokens.refreshToken s' →
      ((discipline ctx).contract R t).Holds Q E (f tokens) s')
    (failed : ∀ s' e, E (.sql e) s') :
    ((discipline ctx).contract R t).Holds Q E ((createTokens ctx userId email).bind f) s := by
  refine holds_now fun s₁ rely₁ => ?_
  refine holds_other (fun _ other => by cases other) fun s₂ refreshToken rely₂ => ?_
  refine holds_other (fun _ other => by cases other) fun s₃ tokenId rely₃ => ?_
  refine holds_now fun s₄ rely₄ => ?_
  have rely : Rely t s s₄ := ((rely₁.trans rely₂).trans rely₃).trans rely₄
  refine holds_statement (fun s₅ rely₅ => ?_) (fun s₅ r T rely₅ executed => ?_)
    fun _ e _ s₅ _ => failed s₅ e
  · exact descends.later (rely.trans rely₅)
  · exact next _ _ ((rely.trans rely₅).trans (rely_own executed id))
      (issued_after (descends.later (rely.trans rely₅)) executed)

end Handlers

/-! ### The answers -/

/-- What the answer to a refresh says. -/
inductive RefreshAnswer (ctx : AuthContext) (t : Tid) (refreshToken : String) (s : State) :
    HttpResponse → Prop
  | invalid : RefreshAnswer ctx t refreshToken s invalidRefreshToken
  | reused (row : TokenRow) (mem : row ∈ s.tables.tokens)
      (hash : row.tokenHash = ctx.hashToken refreshToken)
      (noted : (t, row.id) ∈ s.history.reused) :
      RefreshAnswer ctx t refreshToken s refreshTokenReused
  | exchanged (tokens : Tokens) (old new : TokenRow) (memOld : old ∈ s.tables.tokens)
      (hashOld : old.tokenHash = ctx.hashToken refreshToken)
      (rotated : (t, old.id) ∈ s.history.rotated) (memNew : new ∈ s.tables.tokens)
      (hashNew : new.tokenHash = ctx.hashToken tokens.refreshToken)
      (family : s.history.family new.id = new.id :: s.history.family old.id) :
      RefreshAnswer ctx t refreshToken s (refreshed tokens)

/-- The token that a request has read is still there. -/
structure Reading (t : Tid) (token : TokenRow) (s : State) : Prop where
  read : s.history.tokens t = some token
  row : ∃ row ∈ s.tables.tokens, row.id = token.id ∧ row.userId = token.userId ∧
    row.tokenHash = token.tokenHash

theorem Reading.later {token : TokenRow} (h : Reading t token s) (step : Rely t s s') :
    Reading t token s' := by
  obtain ⟨row, mem, id, userId, hash⟩ := h.row
  obtain ⟨row', mem', same⟩ := step.tables.tokens row mem
  exact ⟨step.tokens.trans h.read, row', mem', same.id.trans id, same.userId.trans userId,
    same.tokenHash.trans hash⟩

/-- A token that was found and has not expired. -/
theorem holds_exchange {token : TokenRow} {email refreshToken : String}
    (reading : Reading t token s) (hash : token.tokenHash = ctx.hashToken refreshToken) :
    ((discipline ctx).contract R t).Holds (fun response s => RefreshAnswer ctx t refreshToken s response)
      (fun e _ => ∃ error, e = .sql error) (exchange ctx token email) s := by
  unfold exchange
  split
  · -- the token has been revoked before
    refine holds_query (fun s₁ rely₁ => ?_) (fun s₁ r T rely₁ executed => ?_)
      fun _ e => ⟨e, rfl⟩
    · have reading₁ := reading.later rely₁
      obtain ⟨row, mem, id, userId, _⟩ := reading₁.row
      exact ⟨token, reading₁.read, rfl, row, mem, id, userId⟩
    · have reading₁ := reading.later rely₁
      have noted : (t, token.id) ∈
          (s₁.after ctx t (.revokeUserTokens token.userId) r T).history.reused := by
        change (t, token.id) ∈
          ((s₁.history.tokens t).map fun row => (t, row.id)).toList ++ s₁.history.reused
        rw [reading₁.read]
        exact List.mem_cons_self
      have reading₂ := reading₁.later (rely_own executed id)
      intro s₃ rely₃
      obtain ⟨row, mem, id, _, hash'⟩ := (reading₂.later rely₃.2).row
      exact .reused row mem (hash'.trans hash) (id ▸ rely₃.2.reused noted)
  -- the token is live: it is revoked, and the new pair descends from it
  · refine holds_query (fun s₁ rely₁ => ?_) (fun s₁ r T rely₁ executed => ?_)
      fun _ e => ⟨e, rfl⟩
    · have reading₁ := reading.later rely₁
      obtain ⟨row, mem, id, _, _⟩ := reading₁.row
      exact ⟨token, reading₁.read, rfl, row, mem, id⟩
    · obtain ⟨row, mem, id, userId, hash'⟩ := (reading.later rely₁).row
      obtain ⟨row₂, mem₂, same₂⟩ := (AuthTables.persists_exec executed).tokens row mem
      have rotating : (s₁.after ctx t (.revokeToken token.id) r T).history.rotating t =
          some token.id := Function.update_self _ _ _
      have descends : Descends t token.userId
          (s₁.after ctx t (.revokeToken token.id) r T) := by
        intro id' rotates
        rw [rotating] at rotates
        obtain rfl := Option.some_inj.mp rotates
        exact ⟨row₂, mem₂, same₂.id.trans id, same₂.userId.trans userId⟩
      refine holds_createTokens descends (fun s₃ tokens rely₃ issued => ?_) fun _ e => ⟨e, rfl⟩
      intro s₄ rely₄
      have rely := rely₃.trans rely₄.2
      obtain ⟨new, memNew, hashNew, family⟩ := (issued.later rely₄.2).row
      obtain ⟨old, memOld, sameOld⟩ := rely.tables.tokens row₂ mem₂
      have oldId : old.id = token.id := sameOld.id.trans (same₂.id.trans id)
      refine .exchanged tokens old new memOld ?_ ?_ memNew hashNew ?_
      · rw [sameOld.tokenHash, same₂.tokenHash, hash', hash]
      · rw [oldId]
        exact rely.rotated List.mem_cons_self
      · rw [oldId]
        exact (family _ (rely.rotating.trans rotating)).2

/-- **A refresh.** -/
theorem holds_refresh (body : Except String String) :
    ((discipline ctx).contract R t).Holds
      (fun response s => ∀ refreshToken, body = .ok refreshToken →
        RefreshAnswer ctx t refreshToken s response)
      (fun e _ => ∃ error, e = .sql error) (refresh ctx body) s := by
  cases body with
  | error message => exact fun _ _ _ impossible => by cases impossible
  | ok refreshToken =>
      refine Contract.Holds.mono (Q := fun response s => RefreshAnswer ctx t refreshToken s response)
        ?_ (fun response s answer token same => by cases same; exact answer) fun _ _ h => h
      refine holds_query (fun _ _ => trivial) (fun s₁ found T rely₁ executed => ?_)
        fun _ e => ⟨e, rfl⟩
      obtain ⟨rfl, read⟩ := AuthTables.selected_token executed
      cases found with
      | none => exact fun _ _ => .invalid
      | some x =>
          obtain ⟨token, email⟩ := x
          obtain ⟨mem, hash⟩ := read token email rfl
          have reading : Reading t token (s₁.after ctx t (.selectToken (ctx.hashToken refreshToken))
              (some (token, email)) s₁.tables) :=
            ⟨Function.update_self _ _ _, token, mem, rfl, rfl, rfl⟩
          refine holds_now fun s₂ rely₂ => ?_
          split
          · exact fun _ _ => .invalid
          · exact holds_exchange (reading.later rely₂) hash

/-- What the answer `INVALID_CREDENTIALS` says: the account was not there, or the failure has been
recorded. -/
def LoginFailed (ctx : AuthContext) (t : Tid) (body : Credentials) (s : State) : Prop :=
  ∃ lookup, s.history.lookups t = some lookup ∧ lookup.email = ctx.lower body.email ∧
    ∀ row, lookup.found = some row → ∃ failure ∈ s.history.failures,
      failure.tid = t ∧ failure.userId = row.id

theorem LoginFailed.later {body : Credentials} (h : LoginFailed ctx t body s)
    (step : Rely t s s') : LoginFailed ctx t body s' := by
  obtain ⟨lookup, looked, email, recorded⟩ := h
  refine ⟨lookup, step.lookups.trans looked, email, fun row found => ?_⟩
  obtain ⟨failure, mem, about⟩ := recorded row found
  exact ⟨failure, step.failures mem, about⟩

section Login

/-- A Redis command. -/
theorem holds_redis {α : Type} {Q : α → State → Prop} {c : Counters.Command}
    {f : c.Reply → (machine ctx).Task α}
    (h : ∀ s' reply, Rely t s s' →
      ((discipline ctx).contract R t).Holds Q (fun _ _ => True) (f reply) s') :
    ((discipline ctx).contract R t).Holds Q (fun _ _ => True) ((redis c).bind f) s := by
  refine holds_other (fun _ other => by cases other) fun s' reply rely => ?_
  cases reply with
  | some reply => exact h s' reply rely
  | none => exact fun _ _ => trivial

theorem holds_isLocked (user : Option UserRow) :
    ((discipline ctx).contract R t).Holds (fun _ s' => Rely t s s') (fun _ _ => True)
      (isLocked user) s := by
  unfold isLocked
  split
  · exact holds_now fun s₁ rely₁ s₂ rely₂ => rely₁.trans rely₂.2
  · exact fun s₁ rely₁ => rely₁.2

theorem holds_passwordMatches (user : Option UserRow) (password : String) :
    ((discipline ctx).contract R t).Holds (fun _ s' => Rely t s s') (fun _ _ => True)
      (passwordMatches user password) s := by
  cases user with
  | some user =>
      exact holds_other (fun _ other => by cases other) fun s₁ _ rely₁ s₂ rely₂ =>
        rely₁.trans rely₂.2
  | none => exact fun s₁ rely₁ => rely₁.2

theorem holds_countClientFailure (ipKey : String) :
    ((discipline ctx).contract R t).Holds (fun _ s' => Rely t s s') (fun _ _ => True)
      (countClientFailure ctx ipKey) s := by
  refine holds_redis fun s₁ count rely₁ => ?_
  split
  · exact holds_redis fun s₂ _ rely₂ s₃ rely₃ => (rely₁.trans rely₂).trans rely₃.2
  · exact fun s₂ rely₂ => rely₁.trans rely₂.2

theorem holds_lockAfter (count : ℕ) :
    ((discipline ctx).contract R t).Holds
      (fun lockedUntil s' => Rely t s s' ∧ LockFrom ctx count s.clock s'.clock lockedUntil)
      (fun _ _ => True) (lockAfter ctx count) s := by
  unfold lockAfter
  split
  · rename_i reached
    refine holds_now fun s₁ rely₁ s₂ rely₂ => ⟨rely₁.trans rely₂.2, ?_⟩
    unfold LockFrom
    rw [if_pos reached]
    exact ⟨s₁.clock, rely₁.clock, rely₂.2.clock, rfl⟩
  · rename_i below
    refine fun s₁ rely₁ => ⟨rely₁.2, ?_⟩
    unfold LockFrom
    rw [if_neg below]

/-- What the request has read in `users`. -/
def Looked (t : Tid) (lookup : Lookup) (s : State) : Prop :=
  s.history.lookups t = some lookup ∧ lookup.moment ≤ s.clock

theorem Looked.later {lookup : Lookup} (h : Looked t lookup s) (step : Rely t s s') :
    Looked t lookup s' :=
  ⟨step.lookups.trans h.1, le_trans h.2 step.clock⟩

/-- The failure is recorded. -/
theorem holds_countAccountFailure {lookup : Lookup} {user : UserRow} (looked : Looked t lookup s)
    (found : lookup.found = some user) :
    ((discipline ctx).contract R t).Holds
      (fun _ s' => Looked t lookup s' ∧
        ∃ failure ∈ s'.history.failures, failure.tid = t ∧ failure.userId = user.id)
      (fun _ _ => True) (countAccountFailure ctx user) s := by
  refine (holds_lockAfter (user.failedLoginCount + 1)).chain ⟨trivial, .refl t s⟩ ?_
  intro lockedUntil s₁ known _
  have looked₁ := looked.later known.1
  refine holds_statement (fun s₂ rely₂ => ?_) (fun s₂ r T rely₂ executed => ?_)
    fun _ _ _ _ _ => trivial
  · exact ⟨lookup, user, (looked₁.later rely₂).1, found, rfl, rfl,
      known.2.mono looked.2 rely₂.clock⟩
  · have looked₃ := (looked₁.later rely₂).later (rely_own executed id)
    refine fun s₄ rely₄ => ⟨looked₃.later rely₄.2, ⟨t, user.id, lockedUntil⟩, ?_, rfl, rfl⟩
    exact rely₄.2.failures List.mem_cons_self

/-- A wrong password, or an unknown email. -/
theorem holds_rejectLogin {lookup : Lookup} {ipKey : String} {body : Credentials}
    (looked : Looked t lookup s) (email : lookup.email = ctx.lower body.email) :
    ((discipline ctx).contract R t).Holds (fun _ s' => LoginFailed ctx t body s') (fun _ _ => True)
      (rejectLogin ctx ipKey lookup.found) s := by
  refine (holds_countClientFailure ipKey).chain ⟨trivial, .refl t s⟩ fun _ s₁ rely₁ _ => ?_
  have looked₁ := looked.later rely₁
  cases found : lookup.found with
  | none =>
      refine fun s₂ rely₂ => ⟨lookup, (looked₁.later rely₂.2).1, email, fun row same => ?_⟩
      rw [found] at same
      cases same
  | some user =>
      refine (holds_countAccountFailure looked₁ found).chain ⟨trivial, .refl t s₁⟩ ?_
      intro _ s₂ known _ s₃ rely₃
      refine LoginFailed.later ⟨lookup, known.1.1, email, fun row same => ?_⟩ rely₃.2
      rw [found] at same
      cases same
      exact known.2

/-- **A login.** -/
theorem holds_login (client : ClientRequest) (body : Except String Credentials)
    (fresh : s.history.rotating t = none) :
    ((discipline ctx).contract R t).Holds
      (fun response s => ∀ credentials, body = .ok credentials → response = invalidCredentials →
        LoginFailed ctx t credentials s)
      (fun _ _ => True) (login ctx client body) s := by
  -- only `INVALID_CREDENTIALS` says anything
  have other : ∀ {response : HttpResponse} {s : State}, response.status ≠ 401 →
      ∀ credentials, body = .ok credentials → response = invalidCredentials →
        LoginFailed ctx t credentials s := by
    intro response s status credentials _ same
    exact absurd (congrArg HttpResponse.status same) status
  cases body with
  | error message => exact fun _ _ => other (show 400 ≠ 401 by decide)
  | ok credentials =>
      refine holds_redis fun s₁ cached rely₁ => ?_
      split
      · exact fun _ _ => other (by decide)
      · refine holds_query (fun _ _ => trivial) (fun s₂ found T rely₂ executed => ?_)
          fun _ _ => trivial
        obtain rfl : T = s₂.tables := by cases executed; rfl
        let lookup : Lookup := ⟨ctx.lower credentials.email, found, s₂.clock⟩
        have looked : Looked t lookup
            (s₂.after ctx t (.selectUser credentials.email) found s₂.tables) :=
          ⟨Function.update_self _ _ _, le_rfl⟩
        refine (holds_isLocked found).chain ⟨trivial, .refl t _⟩ fun locked s₃ rely₃ _ => ?_
        split
        · exact fun _ _ => other (by decide)
        · refine (holds_passwordMatches found credentials.password).chain ⟨trivial, .refl t _⟩
            fun matched s₄ rely₄ _ => ?_
          have rejects : ((discipline ctx).contract R t).Holds
              (fun response s => ∀ credentials', (.ok credentials : Except String _) = .ok credentials' →
                response = invalidCredentials → LoginFailed ctx t credentials' s)
              (fun _ _ => True) (rejectLogin ctx
                (failedIpKey (getClientIdentifier client ctx.config)) found) s₄ := by
            have looked₄ : Looked t lookup s₄ := (looked.later rely₃).later rely₄
            refine (holds_rejectLogin looked₄ rfl).mono ?_ fun _ _ h => h
            rintro _ s failed _ ⟨⟩ _
            exact failed
          cases found with
          | none => exact rejects
          | some user =>
              cases matched with
              | false => exact rejects
              | true =>
                  -- a right password
                  have fresh₄ : s₄.history.rotating t = none :=
                    (rely₄.rotating.trans (rely₃.rotating.trans
                      (rely₂.rotating.trans rely₁.rotating))).trans fresh
                  refine holds_query (fun _ _ => trivial) (fun s₅ r T rely₅ executed => ?_)
                    fun _ _ => trivial
                  have fresh₆ := (rely₅.trans (rely_own executed id)).rotating.trans fresh₄
                  refine holds_createTokens (fun id rotates => ?_)
                    (fun s₆ tokens _ _ _ _ => other (show 200 ≠ 401 by decide)) fun _ _ => trivial
                  rw [fresh₆] at rotates
                  cases rotates

end Login

/-! ### All requests -/

/-- **A registration.** -/
theorem holds_register (body : Except String Credentials) (fresh : s.history.rotating t = none) :
    ((discipline ctx).contract R t).Holds (fun _ _ => True) (fun _ _ => True)
      (register ctx body) s := by
  cases body with
  | error message => exact fun _ _ => trivial
  | ok credentials =>
      refine holds_other (fun _ other => by cases other) fun s₁ passwordHash rely₁ => ?_
      refine Contract.Holds.attempt ?_ ⟨trivial, .refl t s₁⟩
      have handled : ∀ e s', ((discipline ctx).contract R t).rely s' s' →
          ((discipline ctx).contract R t).Holds (fun _ _ => True) (fun _ _ => True)
            ((fun error : AuthError => if error = .sql .uniqueViolation then
              .done emailAlreadyExists else .thrown error : AuthError → Route HttpResponse) e)
            s' := by
        intro e s' _
        dsimp only
        split
        · exact fun _ _ => trivial
        · exact fun _ _ => trivial
      refine holds_other (fun _ other => by cases other) fun s₂ id rely₂ => ?_
      refine holds_statement (fun _ _ => trivial) (fun s₃ user T rely₃ executed => ?_)
        fun _ e _ s₄ rely₄ => handled _ _
      have fresh₃ : s₃.history.rotating t = none :=
        (rely₃.rotating.trans (rely₂.rotating.trans rely₁.rotating)).trans fresh
      refine holds_createTokens (fun id rotates => ?_) (fun _ _ _ _ _ _ => trivial)
        fun s₄ e => handled _ _
      change s₃.history.rotating t = some id at rotates
      rw [fresh₃] at rotates
      cases rotates

/-- **A logout.** -/
theorem holds_logout (body : Except String String) :
    ((discipline ctx).contract R t).Holds (fun _ _ => True) (fun _ _ => True)
      (logout ctx body) s := by
  cases body with
  | error message => exact fun _ _ => trivial
  | ok refreshToken =>
      exact holds_query (fun _ _ => trivial) (fun _ _ _ _ _ _ _ => trivial) fun _ _ => trivial

/-- What an answer says. -/
def Answer (ctx : AuthContext) (t : Tid) : Request → HttpResponse → State → Prop
  | .refresh body, response, s =>
      ∀ refreshToken, body = .ok refreshToken → RefreshAnswer ctx t refreshToken s response
  | .login _ body, response, s =>
      ∀ credentials, body = .ok credentials → response = invalidCredentials →
        LoginFailed ctx t credentials s
  | _, _, _ => True

/-- Why a request fails. -/
def Failing : Tid → Request → AuthError → State → Prop
  | _, .refresh _, e, _ => ∃ error, e = .sql error
  | _, _, _, _ => True

/-- **All requests** answer as they should, whatever the others do. -/
theorem handles : (discipline ctx).Handles R (handler ctx) (Answer ctx) Failing := by
  intro t request s _ fresh
  cases request with
  | register body => exact holds_register body fresh
  | login client body => exact holds_login client body fresh
  | refresh body => exact holds_refresh body
  | logout body => exact holds_logout body

/-- The runs of the service. -/
abbrev Run (ctx : AuthContext) (R : Regime (machine ctx)) (s : State) (p : Service ctx) : Prop :=
  Async.Pool.Steps R (handler ctx) (Async.Pool.idle s) p

theorem sound_initial (R : Regime (machine ctx)) (server : Counters.Server) (clock : ℤ)
    (tables : AuthTables) :
    Discipline.Sound (discipline ctx) R (Answer ctx) Failing
      (Async.Pool.idle (State.initial server clock tables)) :=
  Discipline.sound_idle trivial fun _ => rfl

theorem sound_of_run {server : Counters.Server} {clock : ℤ} {tables : AuthTables}
    {p : Service ctx} (run : Run ctx R (.initial server clock tables) p) :
    Discipline.Sound (discipline ctx) R (Answer ctx) Failing p :=
  (sound_initial R server clock tables).steps environment handles run

/-- **An invariant of the statements.**  What every statement keeps that a request may send where
it stands, and what the passing of time keeps, is kept by a run. -/
theorem invariant_of_sound {p q : Service ctx} {I : State → Prop}
    (sound : Discipline.Sound (discipline ctx) R (Answer ctx) Failing p) (here : I p.shared)
    (statement : ∀ t st s v T, Before ctx t (.query st) s →
      R.advance t .succeeds (.query st) s → s.tables.exec ctx.lower s.clock st = .ok (v, T) →
      I s → I (s.after ctx t st v T))
    (same : ∀ s s', s.clock ≤ s'.clock → s'.tables = s.tables → s'.history = s.history →
      I s → I s')
    (run : Async.Pool.Steps R (handler ctx) p q) : I q.shared := by
  refine sound.invariant environment handles here ?_ ?_ (fun _ _ _ _ h => h) run
  · intro t choice o s r s' _ before allowed hexec inv
    by_cases query : ∃ st, o = .query st
    · obtain ⟨st, rfl⟩ := query
      obtain ⟨_, _, rfl⟩ | ⟨v, T, rfl, _, executed, rfl⟩ := exec_query hexec
      · exact inv
      · exact statement t st s v T before allowed executed inv
    · obtain ⟨clock, tables, history⟩ := exec_other (fun st same => query ⟨st, same⟩) hexec
      exact same s s' (le_of_eq clock.symm) tables history inv
  · intro e s s' _ _ hevent inv
    cases e with
    | tick =>
        cases hevent
        exact same s _ (Int.le_add_one le_rfl) rfl rfl inv
    | land position =>
        obtain ⟨server, _, rfl⟩ := Option.map_eq_some_iff.mp hevent
        exact same s _ le_rfl rfl rfl inv

/-- An invariant of the runs of the service. -/
theorem Run.invariant {server : Counters.Server} {clock : ℤ} {tables : AuthTables}
    {p : Service ctx} {I : State → Prop} (run : Run ctx R (.initial server clock tables) p)
    (initially : I (.initial server clock tables))
    (statement : ∀ t st s v T, Before ctx t (.query st) s →
      R.advance t .succeeds (.query st) s → s.tables.exec ctx.lower s.clock st = .ok (v, T) →
      I s → I (s.after ctx t st v T))
    (same : ∀ s s', s.clock ≤ s'.clock → s'.tables = s.tables → s'.history = s.history →
      I s → I s') : I p.shared :=
  invariant_of_sound (sound_initial R server clock tables) initially statement same run

/-! ### Requests of the worked examples -/

/-- A refresh token as it is drawn: the text of 48 equal bytes. -/
def exampleToken (quartet : String) : String :=
  String.join (List.replicate 16 quartet)

/-- The hashes of three refresh tokens. -/
def tokenSha256 (text : String) : String :=
  if text = exampleToken "AQEB" then
    "80f53f448c0002d52ba004b78ca657c278e735c147aca9b7566857ce8f399d11"
  else if text = exampleToken "AgIC" then
    "67d4e14abcc885582ee7acad87ad102e60aed6f3cbaf75eb449dcd580b08ab53"
  else if text = exampleToken "AwMD" then
    "dfc1eaefca8a1237dae87fa8e05d47819a5b5557b1497c1deef0b671a86c0ce4"
  else ""

/-- The context of the worked examples: an account is locked for 15 minutes after two failures,
and the only password hash that is ever looked at is that of one password. -/
def authContext : AuthContext where
  config := ⟨900, 604800, 10, 60, 2, 900, false, "x-load-test-client-id"⟩
  sha256 := tokenSha256
  lower := asciiLower
  argon2Hash := fun salt _ => "$argon2id$v=19$m=19456,t=2,p=1$" ++ salt
  argon2Verify := fun _ password => decide (password = "correct horse battery")
  sign := fun _ _ _ _ => "eyJhbGciOiJIUzI1NiIsInR5cCI6IkpXVCJ9"

def aliceId : Uuid := .ofText "a11ce000-0000-4000-8000-000000000001"

/-- An account without a failed login. -/
def aliceRow : UserRow :=
  ⟨aliceId, "alice@example.com", "$argon2id$v=19$m=19456,t=2,p=1$c2FsdA", 0, none, 0⟩

def firstTokenId : Uuid := .ofText "70000000-0000-4000-8000-000000000001"

/-- The token that the account holds. -/
def firstTokenRow : TokenRow :=
  ⟨firstTokenId, aliceId, tokenSha256 (exampleToken "AQEB"), 604800000, none⟩

/-- One account with one refresh token. -/
def oneAccount : AuthTables where
  users := [aliceRow]
  tokens := [firstTokenRow]
  userIds := List.nodup_singleton _
  emails := List.nodup_singleton _
  tokenIds := List.nodup_singleton _
  tokenHashes := List.nodup_singleton _
  references := by
    intro token mem
    rw [List.mem_singleton.mp mem]
    exact List.mem_cons_self

/-- The service before the first request, an account and its token being there. -/
def oneAccountState : State := .initial ⟨fun _ => none, []⟩ 0 oneAccount

/-- The runs in which everything may happen. -/
def unrestricted (ctx : AuthContext) : Regime (machine ctx) :=
  ⟨fun _ _ _ _ => True, fun _ _ => True, fun _ _ => True⟩

instance decidableUnrestrictedAdvance (t : Tid) (c : Choice) (o : Operation) (s : State) :
    Decidable ((unrestricted ctx).advance t c o s) := .isTrue trivial

instance decidableUnrestrictedEvent (e : Event) (s : State) :
    Decidable ((unrestricted ctx).event e s) := .isTrue trivial

instance decidableUnrestrictedCrash (t : Tid) (s : State) :
    Decidable ((unrestricted ctx).crash t s) := .isTrue trivial

/-- A refresh up to the check of the token. -/
def readMoves (t : Tid) (refreshToken : String) : List (Async.Move (machine authContext) Request) :=
  [.start t (.refresh (.ok refreshToken)), .advance t .succeeds, .advance t .succeeds]

/-- The `INSERT` of a token, and what comes before it. -/
def issueMoves (t : Tid) (refreshToken : String) (id : Uuid) :
    List (Async.Move (machine authContext) Request) :=
  [.advance t .succeeds, .advance t (.draws refreshToken), .advance t (.fresh id),
    .advance t .succeeds, .advance t .succeeds]

end AuthRoutes

end OrderPlatform
