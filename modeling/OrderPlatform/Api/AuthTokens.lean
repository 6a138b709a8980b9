import OrderPlatform.Async.Schedule
import OrderPlatform.Api.AuthContract

/-!
# Refresh tokens

A refresh token is meant to be exchanged once, and a second use is meant to revoke everything the
account holds.  The handler of a refresh reads the token, revokes it and inserts the new one in
three statements of their own, and what it has read may no longer be true when it goes on.

* `single_use` — a token is exchanged at most once, as long as no token is revoked for an exchange
  that has been revoked for one before; `exchanged_twice` is a run in which it is.
* `reuse_revokes_family` — once the reuse of a token is detected, everything that was ever obtained
  from it is revoked, as long as no token is inserted whose family has been found to be reused;
  `token_survives_reuse` is a run in which one is.
-/

namespace OrderPlatform

namespace AuthRoutes

open Async (Tid Regime)

variable {ctx : AuthContext} {server : Counters.Server} {clock : ℤ} {tables : AuthTables}
variable {p : Service ctx} {R : Regime (machine ctx)}

/-- Request `t` has exchanged the refresh token for these. -/
def Exchanged (p : Service ctx) (t : Tid) (refreshToken : String) (tokens : Tokens) : Prop :=
  p.Answered t (.refresh (.ok refreshToken)) (refreshed tokens)

/-! ### The answers, told apart -/

theorem refreshed_injective {tokens tokens' : Tokens} (h : refreshed tokens = refreshed tokens') :
    tokens = tokens' := by
  obtain ⟨accessToken, refreshToken⟩ := tokens
  obtain ⟨accessToken', refreshToken'⟩ := tokens'
  simp only [refreshed, Tokens.properties, Text.Json.object, Text.Fields.ofList] at h
  injection h with _ body
  injection body with object
  injection object with fields
  injection fields with _ access rest
  injection rest with _ refresh _
  injection access with access
  injection refresh with refresh
  rw [access, refresh]

theorem RefreshAnswer.exchanged_inv {t : Tid} {refreshToken : String} {s : State} {tokens : Tokens}
    (h : RefreshAnswer ctx t refreshToken s (refreshed tokens)) :
    ∃ old ∈ s.tables.tokens, old.tokenHash = ctx.hashToken refreshToken ∧
      (t, old.id) ∈ s.history.rotated ∧ ∃ new ∈ s.tables.tokens,
        new.tokenHash = ctx.hashToken tokens.refreshToken ∧
        s.history.family new.id = new.id :: s.history.family old.id := by
  generalize same : refreshed tokens = response at h
  cases h with
  | invalid => exact absurd (congrArg HttpResponse.status same) (show 200 ≠ 401 by decide)
  | reused => exact absurd (congrArg HttpResponse.status same) (show 200 ≠ 401 by decide)
  | exchanged tokens' old new memOld hashOld rotated memNew hashNew family =>
      obtain rfl := refreshed_injective same
      exact ⟨old, memOld, hashOld, rotated, new, memNew, hashNew, family⟩

theorem RefreshAnswer.reused_inv {t : Tid} {refreshToken : String} {s : State}
    (h : RefreshAnswer ctx t refreshToken s refreshTokenReused) :
    ∃ row ∈ s.tables.tokens, row.tokenHash = ctx.hashToken refreshToken ∧
      (t, row.id) ∈ s.history.reused := by
  generalize same : refreshTokenReused = response at h
  cases h with
  | invalid => exact absurd same (by decide)
  | reused row mem hash noted => exact ⟨row, mem, hash, noted⟩
  | exchanged => exact absurd (congrArg HttpResponse.status same) (show 401 ≠ 200 by decide)

/-- What the answer to a refresh says, in any run. -/
theorem Run.refreshAnswer {t : Tid} {refreshToken : String} {response : HttpResponse}
    (run : Run ctx R (.initial server clock tables) p)
    (answered : p.Answered t (.refresh (.ok refreshToken)) response) :
    RefreshAnswer ctx t refreshToken p.shared response :=
  (sound_of_run run).answered answered refreshToken rfl

/-! ### Single use -/

/-- A token is revoked in order to be exchanged only if nobody has done that before.  The `UPDATE`
of the code names the token by its id alone and does not look whether it is revoked by then; the
condition stands in the place of that test. -/
def rotatingOnce (ctx : AuthContext) : Regime (machine ctx) where
  advance := fun _ c o s =>
    match c, o with
    | .succeeds, .query (.revokeToken id) => id ∉ s.history.rotated.map Prod.snd
    | _, _ => True
  event := fun _ _ => True
  crash := fun _ _ => True

/-- **A refresh token is exchanged at most once**, as long as no token is revoked for an exchange
that has been revoked for one before.  Every other request that presents it is refused, unless one
of its statements fails.

That every answer stands behind an entry in the list of exchanged tokens holds in every run
(`refreshAnswer`); the condition keeps this list free of duplicates. -/
theorem single_use (run : Run ctx (rotatingOnce ctx) (.initial server clock tables) p)
    (refreshToken : String) :
    (∀ t u tokens tokens', Exchanged p t refreshToken tokens →
      Exchanged p u refreshToken tokens' → t = u) ∧
    (∀ t response, p.Answered t (.refresh (.ok refreshToken)) response →
      (∃ tokens, response = refreshed tokens) ∨ response.status = 401) ∧
    ∀ t e, p.Failed t (.refresh (.ok refreshToken)) e → ∃ error, e = .sql error := by
  have once : (p.shared.history.rotated.map Prod.snd).Nodup := by
    refine run.invariant (I := fun s => (s.history.rotated.map Prod.snd).Nodup) List.nodup_nil
      (fun t st s v T _ allowed _ inv => ?_) fun s s' _ _ history inv => by rw [history]; exact inv
    cases st with
    | revokeToken id => exact List.nodup_cons.mpr ⟨allowed, inv⟩
    | _ => exact inv
  refine ⟨fun t u tokens tokens' ht hu => ?_, fun t response answered => ?_, fun t e failed => ?_⟩
  · obtain ⟨row, mem, hash, rotated, _⟩ := (run.refreshAnswer ht).exchanged_inv
    obtain ⟨row', mem', hash', rotated', _⟩ := (run.refreshAnswer hu).exchanged_inv
    obtain rfl := AuthTables.token_eq_of_hash mem mem' (hash.trans hash'.symm)
    exact congrArg Prod.fst (List.inj_on_of_nodup_map once rotated rotated' rfl)
  · cases run.refreshAnswer answered with
    | invalid => exact .inr rfl
    | reused => exact .inr rfl
    | exchanged tokens => exact .inl ⟨tokens, rfl⟩
  · exact (sound_of_run run).failed failed

instance decidableRotatingOnceAdvance (t : Tid) (c : Choice) (o : Operation) (s : State) :
    Decidable ((rotatingOnce ctx).advance t c o s) := by
  unfold rotatingOnce
  dsimp only
  split
  · infer_instance
  · infer_instance

instance decidableRotatingOnceEvent (e : Event) (s : State) :
    Decidable ((rotatingOnce ctx).event e s) := .isTrue trivial

instance decidableRotatingOnceCrash (t : Tid) (s : State) :
    Decidable ((rotatingOnce ctx).crash t s) := .isTrue trivial

/-- The refresh token that a request has presented, and its answer. -/
def presented (p : Service ctx) (t : Tid) : Option (String × HttpResponse) :=
  match p.slot t with
  | .busy (.refresh (.ok refreshToken)) (.done response) => some (refreshToken, response)
  | _ => none

theorem answered_of_presented {t : Tid} {refreshToken : String} {response : HttpResponse}
    (h : presented p t = some (refreshToken, response)) :
    p.Answered t (.refresh (.ok refreshToken)) response := by
  unfold presented at h
  split at h
  · rename_i busy
    cases h
    exact busy
  · cases h

/-- The pair that holds the second refresh token. -/
def secondTokens : Tokens := ⟨"eyJhbGciOiJIUzI1NiIsInR5cCI6IkpXVCJ9", exampleToken "AgIC"⟩

/-- The pair that holds the third refresh token. -/
def thirdTokens : Tokens := ⟨"eyJhbGciOiJIUzI1NiIsInR5cCI6IkpXVCJ9", exampleToken "AwMD"⟩

def secondTokenId : Uuid := .ofText "70000000-0000-4000-8000-000000000002"

def thirdTokenId : Uuid := .ofText "70000000-0000-4000-8000-000000000003"

/-- The token is exchanged, and then presented again. -/
theorem single_use_of_two_requests :
    ∃ p : Service authContext, Run authContext (rotatingOnce authContext) oneAccountState p ∧
      Exchanged p 0 (exampleToken "AQEB") secondTokens ∧
      p.Answered 1 (.refresh (.ok (exampleToken "AQEB"))) refreshTokenReused ∧
      ∀ t u tokens tokens', Exchanged p t (exampleToken "AQEB") tokens →
        Exchanged p u (exampleToken "AQEB") tokens' → t = u := by
  obtain ⟨p, run, first, second⟩ := Async.Pool.steps_of_check (rotatingOnce authContext)
    (handler authContext) (Async.Pool.idle oneAccountState)
    (readMoves 0 (exampleToken "AQEB") ++ .advance 0 .succeeds ::
      issueMoves 0 (exampleToken "AgIC") secondTokenId ++
      readMoves 1 (exampleToken "AQEB") ++ [.advance 1 .succeeds])
    (fun p => presented p 0 = some (exampleToken "AQEB", refreshed secondTokens) ∧
      presented p 1 = some (exampleToken "AQEB", refreshTokenReused)) (by decide +kernel)
  exact ⟨p, run, answered_of_presented first, answered_of_presented second,
    (single_use run (exampleToken "AQEB")).1⟩

/-- **A refresh token is exchanged twice.**  Both requests read the token before either revokes
it. -/
theorem exchanged_twice :
    ∃ p : Service authContext, Run authContext (unrestricted authContext) oneAccountState p ∧
      Exchanged p 0 (exampleToken "AQEB") secondTokens ∧
      Exchanged p 1 (exampleToken "AQEB") thirdTokens := by
  obtain ⟨p, run, first, second⟩ := Async.Pool.steps_of_check (unrestricted authContext)
    (handler authContext) (Async.Pool.idle oneAccountState)
    (readMoves 0 (exampleToken "AQEB") ++ readMoves 1 (exampleToken "AQEB") ++
      .advance 0 .succeeds :: .advance 1 .succeeds ::
      issueMoves 0 (exampleToken "AgIC") secondTokenId ++
      issueMoves 1 (exampleToken "AwMD") thirdTokenId)
    (fun p => presented p 0 = some (exampleToken "AQEB", refreshed secondTokens) ∧
      presented p 1 = some (exampleToken "AQEB", refreshed thirdTokens)) (by decide +kernel)
  exact ⟨p, run, answered_of_presented first, answered_of_presented second⟩

/-! ### Reuse -/

/-- A token from which this one descends, or the token itself, has been found to be reused. -/
def FamilyReused (s : State) (id : Uuid) : Prop :=
  ∃ x ∈ s.history.reused, x.2 ∈ s.history.family id

/-- No token is inserted for one whose family has been found to be reused.  Reuse revokes the rows
that are there, in one statement, so a token that is inserted behind it is the only one that it can
miss. -/
def insertingInTime (ctx : AuthContext) : Regime (machine ctx) where
  advance := fun t c o s =>
    match c, o with
    | .succeeds, .query (.insertToken _ _ _ _) =>
        ∀ id ∈ s.history.rotating t, ¬ FamilyReused s id
    | _, _ => True
  event := fun _ _ => True
  crash := fun _ _ => True

/-- **Families.**  A token and those it descends from belong to one user, and wherever the reuse of
one of them was detected it is revoked. -/
structure Families (s : State) : Prop where
  self : ∀ row ∈ s.tables.tokens, row.id ∈ s.history.family row.id
  members : ∀ row ∈ s.tables.tokens, ∀ id ∈ s.history.family row.id,
    ∃ row' ∈ s.tables.tokens, row'.id = id ∧ row'.userId = row.userId
  reused : ∀ x ∈ s.history.reused, ∃ row ∈ s.tables.tokens, row.id = x.2
  revoked : ∀ row ∈ s.tables.tokens, FamilyReused s row.id → row.revokedAt ≠ none

namespace Families

variable {s s' : State}

/-- Families do not depend on what else there is. -/
theorem same (inv : Families s) (tables : s'.tables.tokens = s.tables.tokens)
    (reused : s'.history.reused = s.history.reused)
    (family : s'.history.family = s.history.family) : Families s' := by
  constructor
  · rw [tables, family]
    exact inv.self
  · rw [tables, family]
    exact inv.members
  · rw [tables, reused]
    exact inv.reused
  · unfold FamilyReused
    rw [tables, reused, family]
    exact inv.revoked

/-- Tokens are revoked. -/
theorem revoke {now : ℤ} {P : TokenRow → Bool} {T : AuthTables} (inv : Families s)
    (tables : s'.tables = T.revoke now P) (before : T = s.tables)
    (family : s'.history.family = s.history.family)
    (reused : ∀ x ∈ s'.history.reused, x ∈ s.history.reused ∨
      ∃ row ∈ s.tables.tokens, row.id = x.2 ∧
        ∀ other ∈ s.tables.tokens, other.userId = row.userId →
          other.revokedAt = none → P other = true) : Families s' := by
  subst before
  have from_old : ∀ row ∈ s'.tables.tokens, ∃ old ∈ s.tables.tokens, row.id = old.id ∧
      row.userId = old.userId ∧ (old.revokedAt ≠ none ∨ P old = true → row.revokedAt ≠ none) := by
    intro row mem
    rw [tables] at mem
    obtain ⟨old, memOld, rfl⟩ := AuthTables.mem_revoke.mp mem
    refine ⟨old, memOld, by split <;> rfl, by split <;> rfl, fun why => ?_⟩
    split
    · exact Option.some_ne_none now
    · rename_i no
      exact why.resolve_right no
  have to_new : ∀ old ∈ s.tables.tokens, ∃ row ∈ s'.tables.tokens, row.id = old.id ∧
      row.userId = old.userId := by
    intro old mem
    obtain ⟨row, memRow, same⟩ := (AuthTables.persists_revoke P).tokens old mem
    rw [tables]
    exact ⟨row, memRow, same.id, same.userId⟩
  constructor
  · intro row mem
    obtain ⟨old, memOld, id, _, _⟩ := from_old row mem
    rw [id, family]
    exact inv.self old memOld
  · intro row mem id member
    obtain ⟨old, memOld, rowId, userId, _⟩ := from_old row mem
    rw [rowId, family] at member
    obtain ⟨old', memOld', rfl, same⟩ := inv.members old memOld id member
    obtain ⟨row', memRow', id', userId'⟩ := to_new old' memOld'
    exact ⟨row', memRow', id', userId'.trans (same.trans userId.symm)⟩
  · intro x mem
    have known : ∃ old ∈ s.tables.tokens, old.id = x.2 := by
      rcases reused x mem with was | ⟨old, memOld, id, _⟩
      · exact inv.reused x was
      · exact ⟨old, memOld, id⟩
    obtain ⟨old, memOld, id⟩ := known
    obtain ⟨row, memRow, same, _⟩ := to_new old memOld
    exact ⟨row, memRow, same.trans id⟩
  · rintro row mem ⟨x, memX, member⟩
    obtain ⟨old, memOld, id, _, revoked⟩ := from_old row mem
    rw [id, family] at member
    refine revoked ?_
    rcases reused x memX with was | ⟨source, memSource, sourceId, all⟩
    · exact .inl (inv.revoked old memOld ⟨x, was, member⟩)
    · -- the detection revokes everything the user holds
      obtain ⟨ancestor, memAncestor, ancestorId, userId⟩ := inv.members old memOld x.2 member
      obtain rfl := AuthTables.token_eq memAncestor memSource (ancestorId.trans sourceId.symm)
      by_cases unrevoked : old.revokedAt = none
      · exact .inr (all old memOld userId.symm unrevoked)
      · exact .inl unrevoked

/-- A token is inserted whose family has not been found to be reused. -/
theorem insert {t : Tid} {id userId : Uuid} {tokenHash : String} {expiresAt : ℤ} {r : Unit}
    {T : AuthTables} (inv : Families s)
    (before : Before ctx t (.query (.insertToken id userId tokenHash expiresAt)) s)
    (inTime : ∀ old ∈ s.history.rotating t, ¬ FamilyReused s old)
    (executed : s.tables.exec ctx.lower s.clock (.insertToken id userId tokenHash expiresAt) =
      .ok (r, T)) :
    Families (s.after ctx t (.insertToken id userId tokenHash expiresAt) r T) := by
  obtain ⟨_, fresh, tokens, _⟩ := AuthTables.inserted_token executed
  set s' := s.after ctx t (.insertToken id userId tokenHash expiresAt) r T with after
  have family_new : s'.history.family id =
      id :: (s.history.rotating t).elim [] s.history.family := Function.update_self _ _ _
  have family_old : ∀ row ∈ s.tables.tokens, s'.history.family row.id = s.history.family row.id :=
    fun row mem => Function.update_of_ne (fresh row mem) _ _
  have tokens' : s'.tables.tokens = ⟨id, userId, tokenHash, expiresAt, none⟩ :: s.tables.tokens :=
    tokens
  have still : ∀ row ∈ s.tables.tokens, row ∈ s'.tables.tokens := fun row mem => by
    rw [tokens']
    exact List.mem_cons_of_mem _ mem
  constructor
  · intro row mem
    rw [tokens'] at mem
    rcases List.mem_cons.mp mem with rfl | old
    · rw [family_new]
      exact List.mem_cons_self
    · rw [family_old row old]
      exact inv.self row old
  -- the ancestors of the new token are itself and those of the token that was exchanged
  · intro row mem k member
    rw [tokens'] at mem
    rcases List.mem_cons.mp mem with rfl | old
    · rw [family_new] at member
      rcases List.mem_cons.mp member with rfl | inherited
      · exact ⟨_, tokens' ▸ mem, rfl, rfl⟩
      · cases rotating : s.history.rotating t with
        | none =>
            rw [rotating] at inherited
            cases inherited
        | some x =>
            rw [rotating] at inherited
            obtain ⟨parent, memParent, rfl, user⟩ := before x rotating
            obtain ⟨row', mem', id', userId'⟩ := inv.members parent memParent k inherited
            exact ⟨row', still row' mem', id', userId'.trans user⟩
    · rw [family_old row old] at member
      obtain ⟨row', mem', id', userId'⟩ := inv.members row old k member
      exact ⟨row', still row' mem', id', userId'⟩
  · intro x mem
    obtain ⟨row, memRow, same⟩ := inv.reused x mem
    exact ⟨row, still row memRow, same⟩
  · rintro row mem ⟨x, memX, member⟩
    rw [tokens'] at mem
    rcases List.mem_cons.mp mem with rfl | old
    · -- the new token is no ancestor yet, and its ancestors have not been reused
      rw [family_new] at member
      rcases List.mem_cons.mp member with isNew | inherited
      · obtain ⟨row, memRow, same⟩ := inv.reused x memX
        exact absurd (same.trans isNew) (fresh row memRow)
      · cases rotating : s.history.rotating t with
        | none =>
            rw [rotating] at inherited
            cases inherited
        | some old =>
            rw [rotating] at inherited
            exact absurd ⟨x, memX, inherited⟩ (inTime old rotating)
    · rw [family_old row old] at member
      exact inv.revoked row old ⟨x, memX, member⟩

/-- **Every statement keeps the families**, if no token is inserted too late. -/
theorem statement {t : Tid} {st : AuthStatement} {v : st.Result} {T : AuthTables}
    (inv : Families s) (before : Before ctx t (.query st) s)
    (allowed : (insertingInTime ctx).advance t .succeeds (.query st) s)
    (executed : s.tables.exec ctx.lower s.clock st = .ok (v, T)) :
    Families (s.after ctx t st v T) := by
  cases st with
  | insertUser id email passwordHash =>
      exact inv.same (AuthTables.inserted_user executed).2 rfl rfl
  | selectUser email => cases executed; exact inv.same rfl rfl rfl
  | selectToken tokenHash => cases executed; exact inv.same rfl rfl rfl
  | recordFailure id count lockedUntil => cases executed; exact inv.same rfl rfl rfl
  | clearFailures id => cases executed; exact inv.same rfl rfl rfl
  | insertToken id userId tokenHash expiresAt => exact inv.insert before allowed executed
  | revokeToken id =>
      cases executed
      exact inv.revoke rfl rfl rfl fun x mem => .inl mem
  | revokeTokenHash tokenHash =>
      cases executed
      exact inv.revoke rfl rfl rfl fun x mem => .inl mem
  | revokeUserTokens userId =>
      obtain ⟨read, looked, user, row, mem, id, userId'⟩ := before
      cases executed
      refine inv.revoke rfl rfl rfl fun x reused => ?_
      change x ∈ ((s.history.tokens t).map fun row => (t, row.id)).toList ++ s.history.reused
        at reused
      rw [looked] at reused
      rcases List.mem_cons.mp reused with rfl | was
      · refine .inr ⟨row, mem, id, fun other _ same unrevoked => ?_⟩
        rw [same, unrevoked, userId']
        simp
      · exact .inl was

end Families

/-- The second token was obtained by presenting the first one. -/
def Obtained (p : Service ctx) (refreshToken refreshToken' : String) : Prop :=
  ∃ t tokens, Exchanged p t refreshToken tokens ∧ tokens.refreshToken = refreshToken'

/-- **Reuse detection kills the whole family**, as long as no token is inserted for one whose
family has been found to be reused.  It does so at once: it is not even necessary to wait for the
requests that are still under way.

`Families` is the invariant: a family with a reused member is revoked as a whole.  By induction on
the exchanges, the reused token is in the family of everything that was obtained from it. -/
theorem reuse_revokes_family
    (run : Run ctx (insertingInTime ctx) (.initial server clock tables) p) {t : Tid}
    {refreshToken : String}
    (detected : p.Answered t (.refresh (.ok refreshToken)) refreshTokenReused)
    {descendant : String}
    (descends : Relation.TransGen (Obtained p) refreshToken descendant) :
    ∃ row ∈ p.shared.tables.tokens, row.tokenHash = ctx.hashToken descendant ∧
      row.revokedAt ≠ none := by
  have inv : Families p.shared := by
    refine run.invariant ⟨fun row _ => List.mem_cons_self, fun row mem id member => ?_, nofun, ?_⟩
      (fun t st s v T before allowed executed inv => inv.statement before allowed executed)
      fun s s' _ tables history inv => inv.same (by rw [tables]) (by rw [history]) (by rw [history])
    · obtain rfl := List.mem_singleton.mp member
      exact ⟨row, mem, rfl, rfl⟩
    · rintro row _ ⟨x, none, _⟩
      cases none
  obtain ⟨source, memSource, hashSource, noted⟩ := (run.refreshAnswer detected).reused_inv
  -- the token whose reuse was detected is an ancestor of every token obtained from it
  have ancestor : ∃ row ∈ p.shared.tables.tokens, row.tokenHash = ctx.hashToken descendant ∧
      source.id ∈ p.shared.history.family row.id := by
    induction descends with
    | single step =>
        obtain ⟨u, tokens, exchanged, rfl⟩ := step
        obtain ⟨old, memOld, hashOld, _, new, memNew, hashNew, family⟩ :=
          (run.refreshAnswer exchanged).exchanged_inv
        obtain rfl := AuthTables.token_eq_of_hash memSource memOld (hashSource.trans hashOld.symm)
        refine ⟨new, memNew, hashNew, ?_⟩
        rw [family]
        exact List.mem_cons_of_mem _ (inv.self source memSource)
    | tail _ step ih =>
        obtain ⟨u, tokens, exchanged, rfl⟩ := step
        obtain ⟨row, memRow, hashRow, member⟩ := ih
        obtain ⟨old, memOld, hashOld, _, new, memNew, hashNew, family⟩ :=
          (run.refreshAnswer exchanged).exchanged_inv
        obtain rfl := AuthTables.token_eq_of_hash memRow memOld (hashRow.trans hashOld.symm)
        refine ⟨new, memNew, hashNew, ?_⟩
        rw [family]
        exact List.mem_cons_of_mem _ member
  obtain ⟨row, mem, hash, member⟩ := ancestor
  exact ⟨row, mem, hash, inv.revoked row mem ⟨(t, source.id), noted, member⟩⟩

instance decidableFamilyReused (s : State) (id : Uuid) : Decidable (FamilyReused s id) :=
  inferInstanceAs (Decidable (∃ x ∈ s.history.reused, x.2 ∈ s.history.family id))

instance decidableInsertingInTimeAdvance (t : Tid) (c : Choice) (o : Operation) (s : State) :
    Decidable ((insertingInTime ctx).advance t c o s) := by
  unfold insertingInTime
  dsimp only
  split
  · infer_instance
  · infer_instance

instance decidableInsertingInTimeEvent (e : Event) (s : State) :
    Decidable ((insertingInTime ctx).event e s) := .isTrue trivial

instance decidableInsertingInTimeCrash (t : Tid) (s : State) :
    Decidable ((insertingInTime ctx).crash t s) := .isTrue trivial

/-- The first token is exchanged, so is the second one, and then the first one is presented
again. -/
theorem reuse_revokes_family_of_two_refreshes :
    ∃ p : Service authContext, Run authContext (insertingInTime authContext) oneAccountState p ∧
      p.Answered 2 (.refresh (.ok (exampleToken "AQEB"))) refreshTokenReused ∧
      ∃ row ∈ p.shared.tables.tokens, row.tokenHash = tokenSha256 (exampleToken "AwMD") ∧
        row.revokedAt ≠ none := by
  obtain ⟨p, run, first, second, third⟩ := Async.Pool.steps_of_check
    (insertingInTime authContext) (handler authContext) (Async.Pool.idle oneAccountState)
    (readMoves 0 (exampleToken "AQEB") ++ .advance 0 .succeeds ::
      issueMoves 0 (exampleToken "AgIC") secondTokenId ++
      readMoves 1 (exampleToken "AgIC") ++ .advance 1 .succeeds ::
      issueMoves 1 (exampleToken "AwMD") thirdTokenId ++
      readMoves 2 (exampleToken "AQEB") ++ [.advance 2 .succeeds])
    (fun p => presented p 0 = some (exampleToken "AQEB", refreshed secondTokens) ∧
      presented p 1 = some (exampleToken "AgIC", refreshed thirdTokens) ∧
      presented p 2 = some (exampleToken "AQEB", refreshTokenReused)) (by decide +kernel)
  have detected := answered_of_presented third
  exact ⟨p, run, detected, reuse_revokes_family run detected
    (.tail (.single ⟨0, secondTokens, answered_of_presented first, rfl⟩)
      ⟨1, thirdTokens, answered_of_presented second, rfl⟩)⟩

/-- **A token survives the detection of a reuse.**  The exchange has revoked the first token and
not yet inserted the second one when the first one is presented again.  In the end both requests
are answered, there is no other one, and the second token is there, not revoked. -/
theorem token_survives_reuse :
    ∃ p : Service authContext, Run authContext (unrestricted authContext) oneAccountState p ∧
      Exchanged p 0 (exampleToken "AQEB") secondTokens ∧
      p.Answered 1 (.refresh (.ok (exampleToken "AQEB"))) refreshTokenReused ∧
      Async.Pool.FreeFrom 2 p ∧
      ∃ row ∈ p.shared.tables.tokens,
        row.tokenHash = authContext.hashToken secondTokens.refreshToken ∧
        row.revokedAt = none := by
  obtain ⟨p, run, others, first, second, row⟩ := Async.Pool.stepsWhere_of_check
    (unrestricted authContext) (C := fun _ _ => True) (fun _ _ => True) (handler authContext) 2
    (fun _ _ _ _ => trivial) oneAccountState
    (readMoves 0 (exampleToken "AQEB") ++ .advance 0 .succeeds ::
      readMoves 1 (exampleToken "AQEB") ++ .advance 1 .succeeds ::
      issueMoves 0 (exampleToken "AgIC") secondTokenId)
    (fun p => presented p 0 = some (exampleToken "AQEB", refreshed secondTokens) ∧
      presented p 1 = some (exampleToken "AQEB", refreshTokenReused) ∧
      ∃ row ∈ p.shared.tables.tokens,
        row.tokenHash = authContext.hashToken secondTokens.refreshToken ∧
        row.revokedAt = none) (by decide +kernel)
  exact ⟨p, run.steps, answered_of_presented first, answered_of_presented second, others, row⟩

end AuthRoutes

end OrderPlatform
