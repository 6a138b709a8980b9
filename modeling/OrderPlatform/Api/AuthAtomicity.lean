import OrderPlatform.Async.Evaluation
import OrderPlatform.Api.AuthTokens

/-!
# What a failed auth operation leaves behind

Register, login and refresh send several statements, each a transaction of its own, and all three
end with `createTokens`, whose `INSERT` is the last of them.

A request is evaluated with nobody in between.  If it is not answered with a success, it has failed
before its first write, or at the `INSERT` of the tokens, or it has presented a revoked token and
set off the reuse alarm.  So the tables are what they were, the `INSERT` and the alarm apart
(`failed_operation_leaves_tables`).
-/

namespace OrderPlatform

namespace AuthRoutes

open Async (Tid Evaluates Performed Program)

variable {ctx : AuthContext} {t : Tid} {s s₁ s' : State} {log : List (Performed (machine ctx))}

/-- The clock and the tables are what they were. -/
structure Unchanged (s s' : State) : Prop where
  clock : s'.clock = s.clock
  tables : s'.tables = s.tables

theorem Unchanged.refl (s : State) : Unchanged s s := ⟨rfl, rfl⟩

theorem Unchanged.trans (h : Unchanged s s₁) (h' : Unchanged s₁ s') : Unchanged s s' :=
  ⟨h'.clock.trans h.clock, h'.tables.trans h.tables⟩

/-! ### Operations that write nothing -/

/-- The operation is no statement. -/
def NoStatement (o : Operation) : Prop := ∀ st, o ≠ .query st

theorem unchanged_of_noStatement {α : Type} {task : Route α} {result : Except AuthError α}
    (h : Evaluates (M := machine ctx) t task s log result s') (only : task.Only NoStatement) :
    Unchanged s s' := by
  refine (h.keeps (I := fun s' : State => Unchanged s s') only (.refl s) ?_).1
  intro c o s₁ r s₂ other done same
  obtain ⟨clock, tables, _⟩ := exec_other other done
  exact same.trans ⟨clock, tables⟩

/-- What awaits no statement and cannot throw, and what follows it. -/
theorem quiet_bind {α β : Type} {p : Route α} {f : α → Route β} {result : Except AuthError β}
    (h : Evaluates (M := machine ctx) t (p.bind f) s log result s') (only : p.Only NoStatement) :
    (∃ e, result = .error e ∧ Unchanged s s') ∨
      ∃ a s₁ before after, log = before ++ after ∧ Unchanged s s₁ ∧
        Evaluates (M := machine ctx) t p s before (.ok a) s₁ ∧
        Evaluates (M := machine ctx) t (f a) s₁ after result s' := by
  obtain ⟨a, s₁, before, after, split, first, rest⟩ | ⟨e, failed, first⟩ := h.bind_cases
  · exact .inr ⟨a, s₁, before, after, split, unchanged_of_noStatement first only, first, rest⟩
  · exact .inl ⟨e, failed, unchanged_of_noStatement first only⟩

theorem noStatement_now : now.Only NoStatement := ⟨nofun, fun _ => trivial⟩

theorem noStatement_redis (c : Counters.Command) : (redis c).Only NoStatement := by
  refine ⟨nofun, fun reply => ?_⟩
  cases reply <;> trivial

theorem noStatement_isLocked (user : Option UserRow) : (isLocked user).Only NoStatement := by
  unfold isLocked
  split
  · exact noStatement_now.bind fun _ => trivial
  · trivial

theorem noStatement_passwordMatches (user : Option UserRow) (password : String) :
    (passwordMatches user password).Only NoStatement := by
  unfold passwordMatches
  split
  · exact ⟨nofun, fun _ => trivial⟩
  · trivial

/-! ### The statements -/

/-- A statement that succeeds and yields an error has been rejected. -/
private theorem error_of_exec {st : AuthStatement} {e : SqlError}
    (done : exec ctx t .succeeds (.query st) s = some (.error e, s')) :
    s.tables.exec ctx.lower s.clock st = .error e := by
  simp only [exec] at done
  split at done
  · cases done
  · cases done
    assumption

/-- A statement is executed, or it fails and changes nothing. -/
theorem query_cases {st : AuthStatement} {result : Except AuthError st.Result}
    (h : Evaluates (M := machine ctx) t (query st) s log result s') :
    (∃ e c, result = .error (.sql e) ∧ s' = s ∧ log = [⟨c, .query st, s⟩] ∧
        (c = .fails ∨ s.tables.exec ctx.lower s.clock st = .error e)) ∨
      ∃ v T, result = .ok v ∧ s.tables.exec ctx.lower s.clock st = .ok (v, T) ∧
        s' = s.after ctx t st v T := by
  obtain ⟨c, r, s₁, rest, rfl, done, later⟩ := h.await_inv
  cases r with
  | ok v =>
      obtain ⟨rfl, rfl, rfl⟩ := Evaluates.done_inv later
      obtain ⟨_, failed, _⟩ | ⟨v', T, rfl, same, executed, rfl⟩ := exec_query done
      · cases failed
      · cases same
        exact .inr ⟨v, T, rfl, executed, rfl⟩
  | error e =>
      obtain ⟨rfl, rfl, rfl⟩ := Evaluates.thrown_inv later
      refine .inl ⟨e, c, rfl, ?_, rfl, ?_⟩
      · obtain ⟨_, _, same⟩ | ⟨_, _, _, failed, _⟩ := exec_query done
        · exact same
        · cases failed
      · cases c with
        | fails => exact .inl rfl
        | succeeds =>
            exact .inr (error_of_exec done)
        | redis fault => cases done
        | fresh id => cases done
        | draws text => cases done

theorem query_failed {st : AuthStatement} {e : AuthError}
    (h : Evaluates (M := machine ctx) t (query st) s log (.error e) s') : Unchanged s s' := by
  obtain ⟨_, _, _, rfl, _⟩ | ⟨_, _, failed, _⟩ := query_cases h
  · exact .refl _
  · cases failed

theorem query_executed {st : AuthStatement} {v : st.Result}
    (h : Evaluates (M := machine ctx) t (query st) s log (.ok v) s') :
    ∃ T, s.tables.exec ctx.lower s.clock st = .ok (v, T) ∧ s' = s.after ctx t st v T := by
  obtain ⟨_, _, failed, _⟩ | ⟨_, T, same, executed, rfl⟩ := query_cases h
  · cases failed
  · cases same
    exact ⟨T, executed, rfl⟩

/-- The `INSERT` of a token that fails, by itself or because a constraint forbids it. -/
def InsertFails (ctx : AuthContext) (p : Performed (machine ctx)) : Prop :=
  ∃ id userId tokenHash expiresAt,
    p.op = .query (.insertToken id userId tokenHash expiresAt) ∧
      (p.choice = .fails ∨ ∃ e, p.state.tables.exec ctx.lower p.state.clock
        (.insertToken id userId tokenHash expiresAt) = .error e)

/-- **The tokens are issued, or their `INSERT` has failed.** -/
theorem createTokens_issued {userId : Uuid} {email : String} {result : Except AuthError Tokens}
    (h : Evaluates (M := machine ctx) t (createTokens ctx userId email) s log result s')
    (inserted : ∀ p ∈ log, ¬ InsertFails ctx p) : ∃ tokens, result = .ok tokens := by
  unfold createTokens at h
  obtain ⟨_, (ms : ℤ), s₁, _, rfl, _, h⟩ := h.await_inv
  obtain ⟨_, (token : String), s₂, _, rfl, _, h⟩ := h.await_inv
  obtain ⟨_, (id : Uuid), s₃, _, rfl, _, h⟩ := h.await_inv
  obtain ⟨_, (ms' : ℤ), s₄, rest, rfl, _, h⟩ := h.await_inv
  have insert : Evaluates (M := machine ctx) t
      ((query (.insertToken id userId (ctx.hashToken token)
        (ms' + ctx.config.refreshTokenTtlSeconds * 1000))).bind fun _ => .done
          ⟨ctx.sign userId email ms ctx.config.accessTokenTtlSeconds, token⟩) s₄ rest result s' := h
  obtain ⟨_, _, _, _, rfl, _, issued⟩ | ⟨e, _, failed⟩ := insert.bind_cases
  · obtain ⟨_, rfl, _⟩ := Evaluates.done_inv issued
    exact ⟨_, rfl⟩
  · obtain ⟨e', c, _, _, rfl, fails⟩ | ⟨_, _, ok, _⟩ := query_cases failed
    · have blamed : InsertFails ctx ⟨c, .query (.insertToken id userId (ctx.hashToken token)
          (ms' + ctx.config.refreshTokenTtlSeconds * 1000)), s₄⟩ :=
        ⟨_, _, _, _, rfl, fails.imp_right fun executed => ⟨e', executed⟩⟩
      refine absurd blamed (inserted _ ?_)
      iterate 4 apply List.mem_cons_of_mem
      exact List.mem_cons_self
    · cases ok

/-! ### The handlers -/

/-- The request is not answered with a success; an error that the handler throws is answered with a
500. -/
def failed : Except AuthError HttpResponse → Bool
  | .ok response => !(200 ≤ response.status && response.status < 300)
  | .error _ => true

/-- The row of the user with this email has this password. -/
def CorrectCredentials (ctx : AuthContext) (s : State) (body : Credentials) : Prop :=
  ∃ row ∈ s.tables.users, row.email = ctx.lower body.email ∧
    ctx.argon2Verify row.passwordHash body.password = true

/-- A login comes with correct credentials; nothing is asked of the other requests. -/
def Eligible (ctx : AuthContext) (s : State) : Request → Prop
  | .login _ (.ok body) => CorrectCredentials ctx s body
  | _ => True

/-- A revoked token that has not expired is presented, and the tokens of its user are revoked. -/
def ReuseAlarm (ctx : AuthContext) (s : State) (request : Request) (s' : State) : Prop :=
  ∃ refreshToken, request = .refresh (.ok refreshToken) ∧
    ∃ token ∈ s.tables.tokens, token.tokenHash = ctx.hashToken refreshToken ∧
      token.revokedAt ≠ none ∧ s.clock < token.expiresAt ∧
      s'.tables = s.tables.revoke s.clock fun row =>
        row.userId = token.userId && row.revokedAt.isNone

theorem register_failed {body : Except String Credentials} {result : Except AuthError HttpResponse}
    (h : Evaluates (M := machine ctx) t (register ctx body) s log result s')
    (inserted : ∀ p ∈ log, ¬ InsertFails ctx p) (fails : failed result = true) :
    Unchanged s s' := by
  cases body with
  | error message =>
      obtain ⟨_, _, rfl⟩ := Evaluates.done_inv h
      exact .refl _
  | ok body =>
      obtain ⟨_, _, same⟩ | ⟨hash, s₁, _, _, rfl, same, _, h⟩ :=
        quiet_bind h ⟨nofun, fun _ => trivial⟩
      · exact same
      replace inserted := fun p mem => inserted p (List.mem_append_right _ mem)
      obtain ⟨response, rfl, answers⟩ | ⟨e, s₂, _, _, rfl, h, caught⟩ := h.attempt_cases
      -- no error is caught: then the answer is 201, which is no failure
      · obtain ⟨id, _, _, _, rfl, _, h⟩ | ⟨_, failed, _⟩ := answers.bind_cases
        · obtain ⟨user, _, _, _, rfl, _, h⟩ | ⟨_, failed, _⟩ := h.bind_cases
          · obtain ⟨tokens, _, _, _, rfl, _, h⟩ | ⟨_, failed, _⟩ := h.bind_cases
            · obtain ⟨_, answer, _⟩ := Evaluates.done_inv h
              cases answer
              cases fails
            · cases failed
          · cases failed
        · cases failed
      · -- the error that is caught has come from the `INSERT` of the user, which has failed
        have left : Unchanged s₂ s' := by
          split at caught
          · obtain ⟨_, _, rfl⟩ := Evaluates.done_inv caught
            exact .refl _
          · obtain ⟨_, _, rfl⟩ := Evaluates.thrown_inv caught
            exact .refl _
        refine (same.trans ?_).trans left
        replace inserted := fun p mem => inserted p (List.mem_append_left _ mem)
        obtain ⟨_, _, same'⟩ | ⟨id, s₃, _, _, rfl, same', _, h⟩ :=
          quiet_bind h ⟨nofun, fun _ => trivial⟩
        · exact same'
        replace inserted := fun p mem => inserted p (List.mem_append_right _ mem)
        obtain ⟨user, _, _, _, rfl, _, h⟩ | ⟨_, _, insert⟩ := h.bind_cases
        · obtain ⟨tokens, _, _, _, rfl, _, h⟩ | ⟨_, _, issue⟩ := h.bind_cases
          · obtain ⟨_, answer, _⟩ := Evaluates.done_inv h
            cases answer
          · obtain ⟨tokens, issued⟩ := createTokens_issued issue fun p mem =>
              inserted p (List.mem_append_right _ mem)
            cases issued
        · exact same'.trans (query_failed insert)

theorem acceptLogin_failed {user : UserRow} {result : Except AuthError HttpResponse}
    (h : Evaluates (M := machine ctx) t (acceptLogin ctx user) s log result s')
    (inserted : ∀ p ∈ log, ¬ InsertFails ctx p) (fails : failed result = true) :
    Unchanged s s' := by
  obtain ⟨_, _, _, _, rfl, _, h⟩ | ⟨_, _, clear⟩ := h.bind_cases
  · obtain ⟨tokens, _, _, _, rfl, _, h⟩ | ⟨_, _, issue⟩ := h.bind_cases
    · obtain ⟨_, rfl, _⟩ := Evaluates.done_inv h
      cases fails
    · obtain ⟨tokens, issued⟩ := createTokens_issued issue fun p mem =>
        inserted p (List.mem_append_right _ mem)
      cases issued
  · exact query_failed clear

/-- The lookup of a user finds the row with the email. -/
theorem found_user {body : Credentials} {found : Option UserRow}
    (credentials : CorrectCredentials ctx s body) (same : Unchanged s s₁)
    (h : Evaluates (M := machine ctx) t (query (.selectUser body.email)) s₁ log (.ok found) s') :
    Unchanged s s' ∧
      ∃ user, found = some user ∧ ctx.argon2Verify user.passwordHash body.password = true := by
  obtain ⟨row, mem, email, matched⟩ := credentials
  obtain ⟨T, executed, rfl⟩ := query_executed h
  cases executed
  refine ⟨same.trans ⟨rfl, rfl⟩, row, ?_, matched⟩
  rw [same.tables]
  obtain ⟨row', found⟩ : ∃ row', (s.tables.users.find? fun row => row.email = ctx.lower body.email) =
      some row' := Option.isSome_iff_exists.mp (List.find?_isSome.mpr ⟨row, mem, by simpa using email⟩)
  have email' : row'.email = ctx.lower body.email := by simpa using List.find?_some found
  rw [found, AuthTables.user_eq_of_email (List.mem_of_find?_eq_some found) mem
    (email'.trans email.symm)]

theorem login_failed {client : ClientRequest} {body : Except String Credentials}
    {result : Except AuthError HttpResponse} (eligible : Eligible ctx s (.login client body))
    (h : Evaluates (M := machine ctx) t (login ctx client body) s log result s')
    (inserted : ∀ p ∈ log, ¬ InsertFails ctx p) (fails : failed result = true) :
    Unchanged s s' := by
  cases body with
  | error message =>
      obtain ⟨_, _, rfl⟩ := Evaluates.done_inv h
      exact .refl _
  | ok body =>
      obtain ⟨_, _, same⟩ | ⟨cached, s₁, _, _, rfl, same, _, h⟩ :=
        quiet_bind h (noStatement_redis _)
      · exact same
      replace inserted := fun p mem => inserted p (List.mem_append_right _ mem)
      split at h
      · obtain ⟨_, _, rfl⟩ := Evaluates.done_inv h
        exact same
      obtain ⟨found, s₂, _, _, rfl, select, h⟩ | ⟨_, _, select⟩ := h.bind_cases
      swap
      · exact same.trans (query_failed select)
      replace inserted := fun p mem => inserted p (List.mem_append_right _ mem)
      obtain ⟨same, user, rfl, correct⟩ := found_user eligible same select
      obtain ⟨_, _, same'⟩ | ⟨locked, s₃, _, _, rfl, same', _, h⟩ :=
        quiet_bind h (noStatement_isLocked _)
      · exact same.trans same'
      replace inserted := fun p mem => inserted p (List.mem_append_right _ mem)
      split at h
      · obtain ⟨_, _, rfl⟩ := Evaluates.done_inv h
        exact same.trans same'
      obtain ⟨_, _, same''⟩ | ⟨matched, s₄, _, _, rfl, same'', verify, h⟩ :=
        quiet_bind h (noStatement_passwordMatches _ _)
      · exact (same.trans same').trans same''
      refine ((same.trans same').trans same'').trans ?_
      obtain ⟨c, _, _, _, rfl, verified, returned⟩ := verify.await_inv
      obtain ⟨_, answer, _⟩ := Evaluates.done_inv returned
      cases c <;> cases verified
      obtain rfl : matched = true := (Except.ok.inj answer).trans correct
      exact acceptLogin_failed h (fun p mem => inserted p (List.mem_append_right _ mem)) fails

theorem refresh_failed {body : Except String String} {result : Except AuthError HttpResponse}
    (h : Evaluates (M := machine ctx) t (refresh ctx body) s log result s')
    (inserted : ∀ p ∈ log, ¬ InsertFails ctx p) (fails : failed result = true) :
    Unchanged s s' ∨ ReuseAlarm ctx s (.refresh body) s' := by
  cases body with
  | error message =>
      obtain ⟨_, _, rfl⟩ := Evaluates.done_inv h
      exact .inl (.refl _)
  | ok refreshToken =>
      obtain ⟨found, s₁, _, _, rfl, select, h⟩ | ⟨_, _, select⟩ := h.bind_cases
      swap
      · exact .inl (query_failed select)
      replace inserted := fun p mem => inserted p (List.mem_append_right _ mem)
      obtain ⟨T, executed, rfl⟩ := query_executed select
      obtain ⟨rfl, row⟩ := AuthTables.selected_token executed
      cases found with
      | none =>
          obtain ⟨_, _, rfl⟩ := Evaluates.done_inv h
          exact .inl ⟨rfl, rfl⟩
      | some found =>
          obtain ⟨token, email⟩ := found
          obtain ⟨mem, hash⟩ := row token email rfl
          obtain ⟨c, (ms : ℤ), s₂, rest, rfl, read, h⟩ := h.await_inv
          have moment : ms = s.clock := by
            have read := exec_now read
            exact read
          have same : Unchanged s s₂ := by
            obtain ⟨clock, tables, _⟩ := exec_other (fun _ other => by cases other) read
            exact ⟨clock, tables⟩
          change Evaluates (M := machine ctx) t
            (if token.expiresAt ≤ ms then .done invalidRefreshToken else exchange ctx token email)
            s₂ rest result s' at h
          split at h
          · obtain ⟨_, _, rfl⟩ := Evaluates.done_inv h
            exact .inl same
          rename_i live
          unfold exchange at h
          split at h
          -- a revoked token: the alarm is the one change that a failure may leave
          · rename_i revoked
            obtain ⟨_, s₃, _, _, rfl, revoke, h⟩ | ⟨_, _, revoke⟩ := h.bind_cases
            · obtain ⟨_, _, rfl⟩ := Evaluates.done_inv h
              obtain ⟨T, executed, rfl⟩ := query_executed revoke
              cases executed
              refine .inr ⟨refreshToken, rfl, token, mem, hash, ?_, ?_, ?_⟩
              · exact Option.isSome_iff_ne_none.mp revoked
              · rw [← moment]
                exact lt_of_not_ge live
              · show s₂.tables.revoke s₂.clock _ = _
                rw [same.tables, same.clock]
            · exact .inl (same.trans (query_failed revoke))
          · obtain ⟨_, s₃, _, _, rfl, _, h⟩ | ⟨_, _, revoke⟩ := h.bind_cases
            -- once the token is revoked only the `INSERT` can fail, and that is excluded
            · obtain ⟨tokens, _, _, _, rfl, _, h⟩ | ⟨_, _, issue⟩ := h.bind_cases
              · obtain ⟨_, rfl, _⟩ := Evaluates.done_inv h
                cases fails
              · obtain ⟨tokens, issued⟩ := createTokens_issued issue fun p mem =>
                  inserted p (List.mem_cons_of_mem _ (List.mem_append_right _ mem))
                cases issued
            · exact .inl (same.trans (query_failed revoke))

theorem logout_failed {body : Except String String} {result : Except AuthError HttpResponse}
    (h : Evaluates (M := machine ctx) t (logout ctx body) s log result s')
    (fails : failed result = true) : Unchanged s s' := by
  cases body with
  | error message =>
      obtain ⟨_, _, rfl⟩ := Evaluates.done_inv h
      exact .refl _
  | ok refreshToken =>
      obtain ⟨_, _, _, _, rfl, _, h⟩ | ⟨_, _, revoke⟩ := h.bind_cases
      · obtain ⟨_, rfl, _⟩ := Evaluates.done_inv h
        cases fails
      · exact query_failed revoke

/-- **A failed operation leaves the tables as they were.**  A request to an auth route, a login with
correct credentials, is evaluated in any state, and any of its operations may fail except for the
`INSERT` of the tokens.  If it is not answered with a success, then the tables are what they were,
or the request has set off the reuse alarm, which revokes the tokens of one user and nothing else. -/
theorem failed_operation_leaves_tables {request : Request}
    {result : Except AuthError HttpResponse} (eligible : Eligible ctx s request)
    (h : Evaluates (M := machine ctx) t (handler ctx request) s log result s')
    (inserted : ∀ p ∈ log, ¬ InsertFails ctx p) (fails : failed result = true) :
    s'.tables = s.tables ∨ ReuseAlarm ctx s request s' := by
  cases request with
  | register body => exact .inl (register_failed h inserted fails).tables
  | login client body => exact .inl (login_failed eligible h inserted fails).tables
  | refresh body => exact (refresh_failed h inserted fails).imp_left Unchanged.tables
  | logout body => exact .inl (logout_failed h fails).tables

/-! ### Two runs -/

/-- A refresh whose `UPDATE` fails. -/
theorem failed_refresh_leaves_tables :
    ∃ log result s', Evaluates (M := machine authContext) 0
        (handler authContext (.refresh (.ok (exampleToken "AQEB")))) oneAccountState log result s' ∧
      failed result = true ∧
      (s'.tables = oneAccountState.tables ∨
        ReuseAlarm authContext oneAccountState (.refresh (.ok (exampleToken "AQEB"))) s') := by
  obtain ⟨log, result, s', evaluates, fails, performed⟩ := Async.evaluates_of_check
    (M := machine authContext) 0 [.succeeds, .succeeds, .fails]
    (handler authContext (.refresh (.ok (exampleToken "AQEB")))) oneAccountState
    (fun log result _ => failed result = true ∧ log.map Performed.op =
      [.query (.selectToken (tokenSha256 (exampleToken "AQEB"))), .now,
        .query (.revokeToken firstTokenId)]) (by decide)
  refine ⟨log, result, s', evaluates, fails,
    failed_operation_leaves_tables trivial evaluates (fun p mem => ?_) fails⟩
  rintro ⟨id, userId, tokenHash, expiresAt, insert, _⟩
  have listed : p.op ∈ log.map Performed.op := List.mem_map_of_mem mem
  rw [performed, insert] at listed
  simp at listed

/-- The account that is registered. -/
def bobCredentials : Credentials := ⟨"bob@example.com", "correct horse battery"⟩

def bobId : Uuid := .ofText "b0b00000-0000-4000-8000-000000000001"

/-- A refresh token is presented once more after it was exchanged, and the other token of its user
is revoked.  A registration whose tokens are not inserted leaves its user behind, and is told on the
retry that the email already exists. -/
theorem failed_operation_leaves_traces :
    (∃ s log result s', Evaluates (M := machine authContext) 1
        (handler authContext (.refresh (.ok (exampleToken "AQEB")))) s log result s' ∧
      failed result = true ∧ s'.tables ≠ s.tables) ∧
    ∃ log result s' log' s'', Evaluates (M := machine authContext) 0
        (handler authContext (.register (.ok bobCredentials))) oneAccountState log result s' ∧
      failed result = true ∧ s'.tables ≠ oneAccountState.tables ∧
      Evaluates (M := machine authContext) 1
        (handler authContext (.register (.ok bobCredentials))) s' log' (.ok emailAlreadyExists)
        s'' := by
  constructor
  · obtain ⟨_, _, s, _, again⟩ := Async.evaluates_of_check (M := machine authContext) 0
      [.succeeds, .succeeds, .succeeds, .succeeds, .draws (exampleToken "AgIC"),
        .fresh secondTokenId, .succeeds, .succeeds]
      (handler authContext (.refresh (.ok (exampleToken "AQEB")))) oneAccountState
      (fun _ _ s => (Async.evaluate (M := machine authContext) 1
        (handler authContext (.refresh (.ok (exampleToken "AQEB")))) [.succeeds, .succeeds, .succeeds]
        s).any (fun x => decide (failed x.2.1 = true ∧ x.2.2.tables.tokens ≠ s.tables.tokens)) =
          true) (by decide)
    obtain ⟨log, result, s', evaluates, fails, changed⟩ := Async.evaluates_of_check 1 _ _ s
      (fun _ result s' => failed result = true ∧ s'.tables.tokens ≠ s.tables.tokens) again
    exact ⟨s, log, result, s', evaluates, fails, fun same => changed (congrArg _ same)⟩
  · obtain ⟨log, result, s', evaluates, ⟨fails, changed⟩, again⟩ := Async.evaluates_of_check
      (M := machine authContext) 0
      [.draws "c2FsdA", .fresh bobId, .succeeds, .succeeds, .draws (exampleToken "AgIC"),
        .fresh secondTokenId, .succeeds, .fails]
      (handler authContext (.register (.ok bobCredentials))) oneAccountState
      (fun _ result s => (failed result = true ∧ s.tables.users ≠ oneAccountState.tables.users) ∧
        (Async.evaluate (M := machine authContext) 1
          (handler authContext (.register (.ok bobCredentials)))
          [.draws "c2FsdA", .fresh secondTokenId, .succeeds] s).any (fun x =>
            decide (x.2.1 = .ok emailAlreadyExists)) = true)
      (by decide)
    obtain ⟨log', result', s'', evaluates', rfl⟩ := Async.evaluates_of_check 1 _ _ s'
      (fun _ result _ => result = .ok emailAlreadyExists) again
    exact ⟨log, result, s', log', s'', evaluates, fails, fun same => changed (congrArg _ same),
      evaluates'⟩

end AuthRoutes

end OrderPlatform
