import OrderPlatform.Api.AuthTokens
import OrderPlatform.Async.Beginning
import OrderPlatform.Async.Schedule

/-!
# Revoked refresh tokens

A token that has been revoked stays so, and no refresh that begins afterwards exchanges it
(`revoked_refused`).  A logout that has been answered has revoked its token, so the two together say
that a session ends with its logout (`logged_out`).

A refresh that has read the token before is another matter: it goes on.
-/

namespace OrderPlatform

namespace AuthRoutes

open Async (Tid Regime Growth)

variable {ctx : AuthContext} {R : Regime (machine ctx)} {p q r : Service ctx}
variable {s s' : State} {t u : Tid} {hash : String}

/-- No row is removed, and no token restored. -/
def persistence (ctx : AuthContext) : Growth (machine ctx) where
  le s s' := s.tables.Persists s'.tables
  refl s := .refl s.tables
  trans h h' := h.trans h'
  exec := fun {t _ _ _ _ _} hexec => (rely_of_exec (Nat.succ_ne_self t) hexec).tables
  event := fun hevent =>
    ((environment (R := unrestricted ctx)).event trivial trivial hevent |>.2 0).tables
  crash _ s := .refl s.tables

/-- There is a token with this hash. -/
def HasToken (hash : String) (s : State) : Prop :=
  ∃ row ∈ s.tables.tokens, row.tokenHash = hash

/-- The token with this hash has been revoked. -/
def Revoked (hash : String) (s : State) : Prop :=
  ∃ row ∈ s.tables.tokens, row.tokenHash = hash ∧ row.revokedAt ≠ none

theorem lasting_hasToken (ctx : AuthContext) (hash : String) :
    (persistence ctx).Lasting (HasToken hash) := by
  rintro s s' persists ⟨row, mem, same⟩
  obtain ⟨row', mem', kept⟩ := persists.tokens row mem
  exact ⟨row', mem', kept.tokenHash.trans same⟩

theorem lasting_revoked (ctx : AuthContext) (hash : String) :
    (persistence ctx).Lasting (Revoked hash) := by
  rintro s s' persists ⟨row, mem, same, revoked⟩
  obtain ⟨row', mem', kept⟩ := persists.tokens row mem
  exact ⟨row', mem', kept.tokenHash.trans same, kept.revoked revoked⟩

/-- A request that begins where `P` holds. -/
def requestFrom {P : State → Prop} (lasting : (persistence ctx).Lasting P)
    (R : Regime (machine ctx)) (t : Tid) : Async.Contract (machine ctx) :=
  ((persistence ctx).beginning lasting (fun _ => True) t).contract R t

/-- A refresh that finds its token revoked is refused. -/
theorem refresh_of_revoked {refreshToken : String}
    (revoked : Revoked (ctx.hashToken refreshToken) s) :
    (requestFrom (lasting_revoked ctx (ctx.hashToken refreshToken)) R t).Holds
      (fun response _ => response.status = 401) (fun _ _ => True)
      (refresh ctx (.ok refreshToken)) s := by
  refine Growth.holds_await (fun _ => trivial) fun s₁ choice reply s₂ step₁ hexec => ?_
  obtain ⟨e, rfl, rfl⟩ | ⟨found, T, rfl, rfl, executed, rfl⟩ := exec_query hexec
  · exact fun _ _ => trivial
  obtain ⟨_, selected⟩ := AuthTables.selected_token executed
  match found with
  | none => exact fun _ _ => rfl
  | some (token, email) =>
      obtain ⟨mem, same⟩ := selected token email rfl
      -- the row that was read is the revoked one
      have isRevoked : token.revokedAt.isSome = true := by
        obtain ⟨row, mem', same', revoked⟩ := lasting_revoked ctx _ _ _ step₁ revoked
        obtain rfl := AuthTables.token_eq_of_hash mem mem' (same.trans same'.symm)
        exact Option.isSome_iff_ne_none.mpr revoked
      refine Growth.holds_await (fun _ => trivial) fun _ _ (ms : ℤ) s₄ _ _ => ?_
      show (requestFrom (lasting_revoked ctx (ctx.hashToken refreshToken)) R t).Holds _ _
        (if token.expiresAt ≤ ms then .done invalidRefreshToken else exchange ctx token email) s₄
      split
      · exact fun _ _ => rfl
      · unfold exchange
        rw [if_pos isRevoked]
        refine Growth.holds_await (fun _ => trivial) fun _ _ reply _ _ _ => ?_
        cases reply with
        | error e => exact fun _ _ => trivial
        | ok v => exact fun _ _ => rfl

/-- A logout that is answered has revoked its token. -/
theorem logout_of_token {refreshToken : String}
    (issued : HasToken (ctx.hashToken refreshToken) s) :
    (requestFrom (lasting_hasToken ctx (ctx.hashToken refreshToken)) R t).Holds
      (fun _ s' => Revoked (ctx.hashToken refreshToken) s') (fun _ _ => True)
      (logout ctx (.ok refreshToken)) s := by
  refine Growth.holds_await (fun _ => trivial) fun s₁ choice reply s₂ step₁ hexec => ?_
  obtain ⟨e, rfl, rfl⟩ | ⟨_, T, rfl, rfl, executed, rfl⟩ := exec_query hexec
  · exact fun _ _ => trivial
  intro s₃ step₃
  refine lasting_revoked ctx _ _ _ step₃.2 ?_
  obtain ⟨row, mem, same⟩ := lasting_hasToken ctx _ _ _ step₁ issued
  cases executed
  exact ⟨_, AuthTables.mem_revoke.mpr ⟨row, mem, rfl⟩, by simp [same], by simp [same]⟩

/-- **A request that begins where `P` holds** ends as its handler does from there. -/
theorem answer_of_beginning {P : State → Prop} (lasting : (persistence ctx).Lasting P)
    {request : Request} {response : HttpResponse} {Q : HttpResponse → State → Prop}
    (ends : ∀ s, P s →
      (requestFrom lasting R t).Holds Q (fun _ _ => True) (handler ctx request) s)
    (here : P p.shared) (free : p.slot t = .free) (run : Async.Pool.Steps R (handler ctx) p q)
    (answered : q.Answered t request response) : Q response q.shared := by
  refine (Growth.sound_of_beginning lasting (B := fun _ => True)
    (Q := fun request' response s => request' = request → Q response s) ?_ here free run).answered
      answered rfl rfl
  intro request' s here
  by_cases mine : request' = request
  · subst mine
    exact (ends s here).mono (fun _ _ done _ => done) fun _ _ _ => trivial
  · exact (Growth.holds_any fun _ _ => trivial).mono (fun _ _ _ same => absurd same mine)
      fun _ _ _ => trivial

/-- **A revoked token is refused.**  A refresh that begins when the token has been revoked, and is
answered, is answered with 401. -/
theorem revoked_refused {refreshToken : String}
    (revoked : Revoked (ctx.hashToken refreshToken) p.shared) (free : p.slot t = .free)
    (run : Async.Pool.Steps R (handler ctx) p q) {response : HttpResponse}
    (answered : q.Answered t (.refresh (.ok refreshToken)) response) : response.status = 401 :=
  answer_of_beginning (Q := fun response _ => response.status = 401) (lasting_revoked ctx _)
    (fun _ => refresh_of_revoked) revoked free run answered

/-- **A session ends with its logout.**  A logout begins when its token has been issued, and is
answered; a refresh that begins after that with the token is refused. -/
theorem logged_out {refreshToken : String}
    (issued : HasToken (ctx.hashToken refreshToken) p.shared) (free : p.slot u = .free)
    (run : Async.Pool.Steps R (handler ctx) p q) {response : HttpResponse}
    (answered : q.Answered u (.logout (.ok refreshToken)) response) (free' : q.slot t = .free)
    (later : Async.Pool.Steps R (handler ctx) q r) {response' : HttpResponse}
    (answered' : r.Answered t (.refresh (.ok refreshToken)) response') : response'.status = 401 := by
  have revoked : Revoked (ctx.hashToken refreshToken) q.shared :=
    answer_of_beginning (Q := fun _ s => Revoked (ctx.hashToken refreshToken) s)
      (lasting_hasToken ctx _) (fun _ => logout_of_token) issued free run answered
  exact revoked_refused revoked free' later answered'

/-- The refresh token of a logout that has been answered. -/
def loggedOut (p : Service ctx) (t : Tid) : Option String :=
  match p.slot t with
  | .busy (.logout (.ok refreshToken)) (.done _) => some refreshToken
  | _ => none

theorem answered_of_loggedOut {refreshToken : String} (h : loggedOut p t = some refreshToken) :
    ∃ response, p.Answered t (.logout (.ok refreshToken)) response := by
  unfold loggedOut at h
  split at h
  · rename_i response busy
    cases h
    exact ⟨response, busy⟩
  · cases h

/-- A logout, and a refresh with its token. -/
theorem logged_out_of_session :
    ∃ (q r : Service authContext) (response response' : HttpResponse),
      Run authContext (unrestricted _) oneAccountState q ∧
      q.Answered 0 (.logout (.ok (exampleToken "AQEB"))) response ∧
      r.Answered 1 (.refresh (.ok (exampleToken "AQEB"))) response' ∧ response'.status = 401 := by
  let moves := readMoves 1 (exampleToken "AQEB") ++ [.advance 1 .succeeds]
  obtain ⟨q, run, others, ended, next⟩ := Async.Pool.stepsWhere_of_check
    (unrestricted authContext) (C := fun _ _ => True) (fun _ _ => True) (handler authContext) 1
    (fun _ _ _ _ => trivial) oneAccountState
    [.start 0 (.logout (.ok (exampleToken "AQEB"))), .advance 0 .succeeds]
    (fun q => loggedOut q 0 = some (exampleToken "AQEB") ∧
      (Async.Pool.run (unrestricted authContext) (handler authContext) q moves).any (fun r =>
        decide ((presented r 1).map Prod.fst = some (exampleToken "AQEB"))) = true)
    (by decide)
  obtain ⟨response, answered⟩ := answered_of_loggedOut ended
  obtain ⟨r, later, asked⟩ := Async.Pool.steps_of_check (unrestricted authContext)
    (handler authContext) q moves _ next
  obtain ⟨⟨refreshToken, response'⟩, asked, same⟩ := Option.map_eq_some_iff.mp asked
  obtain rfl : refreshToken = exampleToken "AQEB" := same
  have answered' := answered_of_presented asked
  have issued : HasToken (authContext.hashToken (exampleToken "AQEB")) oneAccountState :=
    ⟨firstTokenRow, List.mem_cons_self, rfl⟩
  exact ⟨q, r, response, response', run.steps, answered, answered',
    logged_out issued rfl run.steps answered (others 1 (Nat.le_refl 1)) later answered'⟩

end AuthRoutes

end OrderPlatform
