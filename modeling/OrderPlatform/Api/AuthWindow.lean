import OrderPlatform.Async.Path
import OrderPlatform.Api.AuthLockout

/-!
# Which failures lock an account

`AUTH_FAILED_LOGIN_ACCOUNT_WINDOW_SECONDS` is loaded, and nothing reads it: an account has one
count, which a successful login sets back and nothing else does.  So a login that fails locks the
account when that many have failed since the last success, however long ago (`locked_again`).

Here the logins of one account follow each other (`Attempts`), each of which may be given up at any
point; beside them the service does anything that leaves the row of the account alone, and time
passes.  What they have done is a list of `Outcome`s, and `Tallied` says that the count is what has
failed since the last success.
-/

namespace OrderPlatform

namespace AuthRoutes

open Async (Tid Contract Path Performed)

variable {ctx : AuthContext} {t : Tid} {s s' : State} {account row : UserRow}

/-! ### Attempts -/

/-- What an attempt has done to its account. -/
inductive Outcome
  /-- The failure was recorded at this moment, with this lock. -/
  | failure (moment : ℤ) (lockedUntil : Option ℤ)
  | success
deriving DecidableEq

/-- What an operation does to the account. -/
def outcome? (account : Uuid) (now : ℤ) : Choice → Operation → Option Outcome
  | .succeeds, .query (.recordFailure id _ lockedUntil) =>
      if id = account then some (.failure now lockedUntil) else none
  | .succeeds, .query (.clearFailures id) => if id = account then some .success else none
  | _, _ => none

/-- The outcomes, latest first. -/
def noteOutcome (account : Uuid) (timeline : List Outcome) (p : Performed (machine ctx)) :
    List Outcome := (outcome? account p.state.clock p.choice p.op).toList ++ timeline

/-- What happens beside the attempts: time passes, and the row of the account stays as it is. -/
structure Aside (account : Uuid) (s s' : State) : Prop where
  clock : s.clock ≤ s'.clock
  row : ∀ row, row.id = account → (row ∈ s'.tables.users ↔ row ∈ s.tables.users)

theorem Aside.refl (account : Uuid) (s : State) : Aside account s s := ⟨le_rfl, fun _ _ => .rfl⟩

theorem Aside.trans {id : Uuid} {s'' : State} (h : Aside id s s') (h' : Aside id s' s'') :
    Aside id s s'' :=
  ⟨le_trans h.clock h'.clock, fun row same => (h'.row row same).trans (h.row row same)⟩

/-- Logins of an account that follow each other. -/
inductive Attempts (ctx : AuthContext) (account : UserRow) :
    State → List Outcome → State → Prop
  | none (s : State) : Attempts ctx account s [] s
  | aside {s₀ s s' : State} {timeline : List Outcome} (earlier : Attempts ctx account s₀ timeline s)
      (step : Aside account.id s s') : Attempts ctx account s₀ timeline s'
  | login {s₀ s s' : State} {timeline : List Outcome} {t : Tid} {client : ClientRequest}
      {body : Credentials} {task : Route HttpResponse} {log : List (Performed (machine ctx))}
      (earlier : Attempts ctx account s₀ timeline s) (email : ctx.lower body.email = account.email)
      (path : Path (M := machine ctx) (Aside account.id) t (login ctx client (.ok body)) s log
        task s') : Attempts ctx account s₀ (log.foldl (noteOutcome account.id) timeline) s'

/-- The moments of the failures since the last success, latest first. -/
def sinceSuccess : List Outcome → List ℤ
  | .failure moment _ :: rest => moment :: sinceSuccess rest
  | .success :: _ => []
  | [] => []

/-- Those that are not older than the window. -/
def recent (windowSeconds now : ℤ) (moments : List ℤ) : List ℤ :=
  moments.filter fun moment => now - windowSeconds * 1000 ≤ moment

/-! ### One attempt -/

/-- The row of the account. -/
structure Stored (account row : UserRow) (s : State) : Prop where
  mem : row ∈ s.tables.users
  id : row.id = account.id
  email : row.email = account.email

theorem Stored.aside (h : Stored account row s) (step : Aside account.id s s') :
    Stored account row s' := ⟨(step.row row h.id).mpr h.mem, h.id, h.email⟩

theorem Stored.same (h : Stored account row s) (tables : s'.tables = s.tables) :
    Stored account row s' := ⟨by rw [tables]; exact h.mem, h.id, h.email⟩

/-- A failure of the account counts one more than is stored, and locks from the limit on. -/
def Counting (ctx : AuthContext) (account : UserRow) : Operation → State → Prop
  | .query (.recordFailure id count lockedUntil), s =>
      id = account.id → ∃ row, Stored account row s ∧ count = row.failedLoginCount + 1 ∧
        (lockedUntil.isSome = true ↔ ctx.config.failedLoginAccountLimit ≤ count)
  | _, _ => True

/-- The contract of an attempt. -/
def attempting (ctx : AuthContext) (account : UserRow) (t : Tid) : Contract (machine ctx) where
  tid := t
  allowed _ _ _ := True
  before := Counting ctx account
  rely := Aside account.id
  guar _ _ := True
  rely_trans := Aside.trans
  rely_self _ := .refl _ _

section Attempt

variable {α : Type} {Q : α → State → Prop}

/-- An operation before which nothing has to be true. -/
private theorem attempting_any {o : Operation} {k : o.Reply → (machine ctx).Task α}
    (free : ∀ s, Counting ctx account o s)
    (next : ∀ r s', (attempting ctx account t).Holds Q (fun _ _ => True) (k r) s') :
    (attempting ctx account t).Holds Q (fun _ _ => True) (.await o k) s := by
  intro s₁ _
  exact ⟨free s₁, fun _ r s₂ _ _ => ⟨trivial, next r s₂⟩⟩

/-- Everything but a statement. -/
private theorem attempting_other {o : Operation} {k : o.Reply → (machine ctx).Task α}
    (other : ∀ st, o ≠ .query st) (here : Stored account row s)
    (next : ∀ r s', Stored account row s' →
      (attempting ctx account t).Holds Q (fun _ _ => True) (k r) s') :
    (attempting ctx account t).Holds Q (fun _ _ => True) (.await o k) s := by
  intro s₁ step
  refine ⟨?_, fun c r s₂ _ done => ⟨trivial, ?_⟩⟩
  · cases o with
    | query st => exact absurd rfl (other st)
    | _ => trivial
  · obtain ⟨_, tables, _⟩ := exec_other other done
    exact next r s₂ ((here.aside step).same tables)

private theorem attempting_redis {c : Counters.Command} {f : c.Reply → (machine ctx).Task α}
    (here : Stored account row s)
    (next : ∀ r s', Stored account row s' →
      (attempting ctx account t).Holds Q (fun _ _ => True) (f r) s') :
    (attempting ctx account t).Holds Q (fun _ _ => True) ((redis c).bind f) s := by
  refine attempting_other (fun _ other => by cases other) here fun r s' stored => ?_
  cases r with
  | some reply => exact next reply s' stored
  | none => exact fun _ _ => trivial

/-- A statement. -/
private theorem attempting_query {st : AuthStatement} {f : st.Result → (machine ctx).Task α}
    (here : Stored account row s)
    (before : ∀ s', Stored account row s' → Counting ctx account (.query st) s')
    (next : ∀ v T s', Stored account row s' →
      s'.tables.exec ctx.lower s'.clock st = .ok (v, T) →
      (attempting ctx account t).Holds Q (fun _ _ => True) (f v) (s'.after ctx t st v T)) :
    (attempting ctx account t).Holds Q (fun _ _ => True) ((query st).bind f) s := by
  intro s₁ step
  have stored := here.aside step
  refine ⟨before s₁ stored, fun c r s₂ _ done => ⟨trivial, ?_⟩⟩
  obtain ⟨e, rfl, _⟩ | ⟨v, T, _, rfl, executed, rfl⟩ := exec_query done
  · exact fun _ _ => trivial
  · exact next v T s₁ stored executed

private theorem attempting_isLocked (user : Option UserRow) (here : Stored account row s) :
    (attempting ctx account t).Holds (fun _ => Stored account row) (fun _ _ => True)
      (isLocked user) s := by
  unfold isLocked
  split
  · exact attempting_other (fun _ other => by cases other) here fun _ _ stored _ step =>
      stored.aside step
  · exact fun _ step => here.aside step

private theorem attempting_passwordMatches (user : Option UserRow) (password : String)
    (here : Stored account row s) :
    (attempting ctx account t).Holds (fun _ => Stored account row) (fun _ _ => True)
      (passwordMatches user password) s := by
  cases user with
  | some user =>
      exact attempting_other (fun _ other => by cases other) here fun _ _ stored _ step =>
        stored.aside step
  | none => exact fun _ step => here.aside step

private theorem attempting_countClientFailure (ipKey : String) (here : Stored account row s) :
    (attempting ctx account t).Holds (fun _ => Stored account row) (fun _ _ => True)
      (countClientFailure ctx ipKey) s := by
  refine attempting_redis here fun count s₁ stored => ?_
  split
  · exact attempting_redis stored fun _ _ stored _ step => stored.aside step
  · exact fun _ step => stored.aside step

/-- Whether the account is locked depends on the count alone. -/
private theorem attempting_lockAfter (count : ℕ) (here : Stored account row s) :
    (attempting ctx account t).Holds
      (fun lockedUntil s' => Stored account row s' ∧
        (lockedUntil.isSome = true ↔ ctx.config.failedLoginAccountLimit ≤ count))
      (fun _ _ => True) (lockAfter ctx count) s := by
  unfold lockAfter
  split
  · rename_i reached
    exact attempting_other (fun _ other => by cases other) here fun _ _ stored _ step =>
      ⟨stored.aside step, fun _ => reached, fun _ => rfl⟩
  · rename_i below
    refine fun _ step => ⟨here.aside step, ?_, fun reached => absurd reached below⟩
    intro locked
    cases locked

private theorem attempting_createTokens {userId : Uuid} {email : String}
    {f : Tokens → (machine ctx).Task α}
    (next : ∀ tokens s', (attempting ctx account t).Holds Q (fun _ _ => True) (f tokens) s') :
    (attempting ctx account t).Holds Q (fun _ _ => True) ((createTokens ctx userId email).bind f) s := by
  refine attempting_any (fun _ => trivial) fun _ _ => ?_
  refine attempting_any (fun _ => trivial) fun _ _ => ?_
  refine attempting_any (fun _ => trivial) fun _ _ => ?_
  refine attempting_any (fun _ => trivial) fun _ _ => ?_
  refine attempting_any (fun _ => trivial) fun r _ => ?_
  cases r with
  | ok v => exact next _ _
  | error e => exact fun _ _ => trivial

/-- The failure of a login of the account. -/
private theorem attempting_rejectLogin (ipKey : String) (here : Stored account row s) :
    (attempting ctx account t).Holds (fun _ _ => True) (fun _ _ => True)
      (rejectLogin ctx ipKey (some row)) s := by
  refine (attempting_countClientFailure ipKey here).chain (.refl _ _) fun _ s₁ stored _ => ?_
  refine Contract.Holds.chain (Q := fun _ _ => True) ?_ (.refl _ _) fun _ _ _ _ _ _ => trivial
  refine (attempting_lockAfter (row.failedLoginCount + 1) stored).chain (.refl _ _) ?_
  intro lockedUntil s₂ known _
  rw [← Async.Program.bind_done_right (query _)]
  refine attempting_query known.1 (fun s₃ stored₃ _ => ?_) fun _ _ _ _ _ _ _ => trivial
  exact ⟨row, stored₃, rfl, known.2⟩

/-- **An attempt** counts its failure on top of what is stored. -/
private theorem attempting_login (client : ClientRequest) {body : Credentials}
    (email : ctx.lower body.email = account.email) (here : Stored account row s) :
    (attempting ctx account t).Holds (fun _ _ => True) (fun _ _ => True)
      (login ctx client (.ok body)) s := by
  refine attempting_redis here fun cached s₁ stored₁ => ?_
  split
  · exact fun _ _ => trivial
  · refine attempting_query stored₁ (fun _ _ => trivial) fun found T s₂ stored₂ executed => ?_
    -- the address is that of the account, so its row is what is found
    obtain ⟨found', rfl⟩ : found = some row ∧ T = s₂.tables := by
      cases executed
      refine ⟨?_, rfl⟩
      cases selected : s₂.tables.users.find? fun row => row.email = ctx.lower body.email with
      | none =>
          have absent := List.find?_eq_none.mp selected row stored₂.mem
          rw [stored₂.email, email] at absent
          exact absurd (decide_eq_true rfl) absent
      | some read =>
          have same : read.email = ctx.lower body.email := by simpa using List.find?_some selected
          rw [AuthTables.user_eq_of_email (List.mem_of_find?_eq_some selected) stored₂.mem
            (same.trans (email.trans stored₂.email.symm))]
    rw [found']
    have stored₃ : Stored account row
        (s₂.after ctx t (.selectUser body.email) (some row) s₂.tables) := stored₂.same rfl
    refine (attempting_isLocked (some row) stored₃).chain (.refl _ _) fun locked s₄ stored₄ _ => ?_
    split
    · exact fun _ _ => trivial
    · refine (attempting_passwordMatches (some row) body.password stored₄).chain (.refl _ _)
        fun matched s₅ stored₅ _ => ?_
      cases matched with
      | false => exact attempting_rejectLogin _ stored₅
      | true =>
          refine attempting_query stored₅ (fun _ _ => trivial) fun _ _ _ _ _ => ?_
          exact attempting_createTokens fun _ _ _ _ => trivial

end Attempt

/-! ### The count -/

/-- Every failure locked the account exactly when enough had failed since the last success. -/
def Exact (ctx : AuthContext) (timeline : List Outcome) : Prop :=
  ∀ moment lockedUntil before, .failure moment lockedUntil :: before <:+ timeline →
    (lockedUntil.isSome = true ↔
      ctx.config.failedLoginAccountLimit ≤ (sinceSuccess before).length + 1)

/-- The count is what has failed since the last success. -/
structure Tallied (ctx : AuthContext) (account : UserRow) (timeline : List Outcome) (s : State) :
    Prop where
  stored : ∃ row, Stored account row s ∧ row.failedLoginCount = (sinceSuccess timeline).length
  exact : Exact ctx timeline

namespace Tallied

variable {timeline : List Outcome}

theorem aside (h : Tallied ctx account timeline s) (step : Aside account.id s s') :
    Tallied ctx account timeline s' := by
  obtain ⟨row, stored, count⟩ := h.stored
  exact ⟨⟨row, stored.aside step, count⟩, h.exact⟩

theorem same (h : Tallied ctx account timeline s) (tables : s'.tables = s.tables) :
    Tallied ctx account timeline s' := by
  obtain ⟨row, stored, count⟩ := h.stored
  exact ⟨⟨row, stored.same tables, count⟩, h.exact⟩

/-- A statement that leaves the row alone. -/
theorem kept (h : Tallied ctx account timeline s)
    (rows : ∀ row ∈ s.tables.users, row.id = account.id → row ∈ s'.tables.users) :
    Tallied ctx account timeline s' := by
  obtain ⟨row, stored, count⟩ := h.stored
  exact ⟨⟨row, ⟨rows row stored.mem stored.id, stored.id, stored.email⟩, count⟩, h.exact⟩

/-- The count of the account is set. -/
theorem set (h : Tallied ctx account timeline s) {now : ℤ} {count : ℕ} {lockedUntil : Option ℤ}
    {o : Outcome} (tables : s'.tables = s.tables.setFailures now account.id count lockedUntil)
    (counted : count = (sinceSuccess (o :: timeline)).length)
    (exact : Exact ctx (o :: timeline)) : Tallied ctx account (o :: timeline) s' := by
  obtain ⟨row, stored, _⟩ := h.stored
  refine ⟨⟨{ row with failedLoginCount := count, lockedUntil := lockedUntil, updatedAt := now },
    ⟨?_, stored.id, stored.email⟩, counted⟩, exact⟩
  rw [tables]
  refine AuthTables.mem_setFailures.mpr ⟨row, stored.mem, ?_⟩
  rw [if_pos stored.id]

/-- **What a statement does to the count.** -/
theorem statement {st : AuthStatement} {v : st.Result} {T : AuthTables}
    (h : Tallied ctx account timeline s) (standing : Counting ctx account (.query st) s)
    (executed : s.tables.exec ctx.lower s.clock st = .ok (v, T)) :
    Tallied ctx account
      ((outcome? account.id s.clock .succeeds (.query st)).toList ++ timeline)
      (s.after ctx t st v T) := by
  cases st with
  | recordFailure id count lockedUntil =>
      cases executed
      unfold outcome?
      dsimp only
      split_ifs with about
      · subst about
        obtain ⟨row, stored, rfl, locks⟩ := standing rfl
        obtain ⟨row', stored', counted⟩ := h.stored
        obtain rfl : row = row' :=
          AuthTables.user_eq stored.mem stored'.mem (stored.id.trans stored'.id.symm)
        refine h.set rfl (congrArg (· + 1) counted) fun moment lockedUntil' before suffix => ?_
        rcases List.suffix_cons_iff.mp suffix with same | old
        · cases same
          rw [← counted]
          exact_mod_cast locks
        · exact h.exact moment lockedUntil' before old
      · refine h.kept fun row mem own => AuthTables.mem_setFailures.mpr ⟨row, mem, ?_⟩
        rw [if_neg fun same => about (same.symm.trans own)]
  | clearFailures id =>
      cases executed
      unfold outcome?
      dsimp only
      split_ifs with about
      · subst about
        refine h.set rfl rfl fun moment lockedUntil before suffix => ?_
        rcases List.suffix_cons_iff.mp suffix with same | old
        · cases same
        · exact h.exact moment lockedUntil before old
      · refine h.kept fun row mem own => AuthTables.mem_setFailures.mpr ⟨row, mem, ?_⟩
        rw [if_neg fun same => about (same.symm.trans own)]
  -- no other statement touches the count of the account
  | insertUser id email passwordHash =>
      refine h.kept fun row mem _ => ?_
      change row ∈ T.users
      rw [(AuthTables.inserted_user executed).1]
      exact List.mem_cons_of_mem _ mem
  | insertToken id userId tokenHash expiresAt =>
      refine h.kept fun row mem _ => ?_
      change row ∈ T.users
      rw [(AuthTables.inserted_token executed).2.2.2]
      exact mem
  | selectUser email => cases executed; exact h.same rfl
  | selectToken tokenHash => cases executed; exact h.same rfl
  | revokeToken id => cases executed; exact h.kept fun _ mem _ => mem
  | revokeUserTokens userId => cases executed; exact h.kept fun _ mem _ => mem
  | revokeTokenHash tokenHash => cases executed; exact h.kept fun _ mem _ => mem

end Tallied

/-- A statement that fails does nothing to the account. -/
theorem outcome_of_failed {c : Choice} {st : AuthStatement} {e : SqlError} {id : Uuid} {now : ℤ}
    (done : exec ctx t c (.query st) s = some (.error e, s')) :
    outcome? id now c (.query st) = none := by
  cases c with
  | succeeds => cases st <;> first | rfl | cases done
  | redis fault => rfl
  | fails => rfl
  | fresh id => rfl
  | draws text => rfl

/-- **What an operation does to the count.** -/
theorem Tallied.operation {timeline : List Outcome} (h : Tallied ctx account timeline s) {c : Choice}
    {o : Operation} {r : o.Reply} (standing : Counting ctx account o s)
    (done : exec ctx t c o s = some (r, s')) :
    Tallied ctx account ((outcome? account.id s.clock c o).toList ++ timeline) s' := by
  by_cases query : ∃ st, o = .query st
  · obtain ⟨st, rfl⟩ := query
    obtain ⟨e, rfl, rfl⟩ | ⟨v, T, rfl, _, executed, rfl⟩ := exec_query done
    · rw [outcome_of_failed done]
      exact h
    · exact h.statement standing executed
  · have nothing : outcome? account.id s.clock c o = none := by
      cases o with
      | query st => exact absurd ⟨st, rfl⟩ query
      | _ => cases c <;> rfl
    rw [nothing]
    exact h.same (exec_other (fun st same => query ⟨st, same⟩) done).2.1

/-- **What a whole sequence of attempts does to the count.** -/
theorem tallied_of_attempts {s₀ : State} {timeline : List Outcome} (known : account ∈ s₀.tables.users)
    (zero : account.failedLoginCount = 0) (attempts : Attempts ctx account s₀ timeline s) :
    Tallied ctx account timeline s := by
  induction attempts with
  | none =>
      refine ⟨⟨account, ⟨known, rfl, rfl⟩, zero⟩, fun moment lockedUntil before suffix => ?_⟩
      cases List.eq_nil_of_suffix_nil suffix
  | aside earlier step ih => exact ih.aside step
  | login earlier email path ih =>
      obtain ⟨row, stored, _⟩ := ih.stored
      exact path.account (C := attempting ctx account _) (attempting_login _ email stored) rfl
        (fun step => step) trivial ih (fun step here => here.aside step)
        fun timeline c o s r s' standing _ done here => here.operation standing done

/-- **Which failures lock an account.**  A failure sets a lock only for enough failures within the
window, whatever the window, exactly when not that many have failed since the last success, or
that many of them within the window.

The count in the table is the number of failures since the last success (`tallied_of_attempts`), and
no moment is ever compared with the window; the rest is arithmetic. -/
theorem locked_for_recent_failures {s₀ : State} {timeline before : List Outcome} {moment : ℤ}
    {lockedUntil : Option ℤ} (windowSeconds : ℤ) (known : account ∈ s₀.tables.users)
    (zero : account.failedLoginCount = 0) (attempts : Attempts ctx account s₀ timeline s)
    (failed : .failure moment lockedUntil :: before <:+ timeline) :
    (lockedUntil.isSome = true → ctx.config.failedLoginAccountLimit ≤
        (recent windowSeconds moment (moment :: sinceSuccess before)).length) ↔
      ((moment :: sinceSuccess before).length < ctx.config.failedLoginAccountLimit ∨
        ctx.config.failedLoginAccountLimit ≤
          (recent windowSeconds moment (moment :: sinceSuccess before)).length) := by
  have locks : lockedUntil.isSome = true ↔
      ctx.config.failedLoginAccountLimit ≤ (moment :: sinceSuccess before).length := by
    have counted := (tallied_of_attempts known zero attempts).exact moment lockedUntil before failed
    exact_mod_cast counted
  rw [locks, ← not_le, imp_iff_not_or]

/-! ### Worked example -/

/-- Some seconds later. -/
def State.later (seconds : ℕ) (s : State) : State := { s with clock := s.clock + seconds * 1000 }

/-- Guesses at the account of the example, each after some seconds. -/
def guesses : List (ℕ × List Choice) → List Outcome → State → Option (List Outcome × State)
  | [], timeline, s => some (timeline, s)
  | (seconds, choices) :: rest, timeline, s =>
      (Async.follow (M := machine authContext) 0 choices
        (login authContext exampleClient (.ok wrongCredentials)) (s.later seconds)).bind fun x =>
          guesses rest (x.1.foldl (noteOutcome aliceId) timeline) x.2.2

theorem attempts_of_guesses {s₀ : State} (tries : List (ℕ × List Choice)) :
    ∀ {timeline : List Outcome} {s : State} {x : List Outcome × State},
      Attempts authContext aliceRow s₀ timeline s → guesses tries timeline s = some x →
        Attempts authContext aliceRow s₀ x.1 x.2 := by
  induction tries with
  | nil =>
      intro timeline s x earlier done
      cases done
      exact earlier
  | cons first rest ih =>
      obtain ⟨seconds, choices⟩ := first
      intro timeline s x earlier done
      obtain ⟨⟨log, task, s'⟩, followed, done⟩ := Option.bind_eq_some_iff.mp done
      have passes : Aside aliceRow.id s (s.later seconds) := by
        refine ⟨?_, fun _ _ => .rfl⟩
        unfold State.later
        dsimp only
        omega
      have path := Async.path_of_follow (M := machine authContext) (J := Aside aliceRow.id)
        (Aside.refl _) choices followed
      exact ih ((earlier.aside passes).login (by decide) path) done

/-- Guesses that are checked to have these outcomes. -/
theorem attempts_of_check (tries : List (ℕ × List Choice)) (timeline : List Outcome)
    (check : (guesses tries [] oneAccountState).any (fun x => decide (x.1 = timeline)) = true) :
    ∃ s, Attempts authContext aliceRow oneAccountState timeline s := by
  obtain ⟨x, done, same⟩ := (Option.any_eq_true _ _).mp check
  have attempts := attempts_of_guesses tries (.none oneAccountState) done
  rw [of_decide_eq_true same] at attempts
  exact ⟨x.2, attempts⟩

/-- A guess: what happens up to the check of the password, and then what is counted. -/
def guessChoices (reading counting : ℕ) : List Choice :=
  .redis .none :: List.replicate reading .succeeds ++ .redis .none ::
    List.replicate counting .succeeds

/-- The first guess for some time, with which the count of the client begins. -/
def firstGuessChoices (reading counting : ℕ) : List Choice :=
  .redis .none :: List.replicate reading .succeeds ++ .redis .none :: .redis .none ::
    List.replicate counting .succeeds

/-- Two guesses within a minute lock the account. -/
theorem locked_for_recent_failures_of_two :
    ∃ s, Attempts authContext aliceRow oneAccountState
        [.failure 30000 (some 930000), .failure 0 none] s ∧
      authContext.config.failedLoginAccountLimit ≤
        (recent 900 30000 (30000 :: sinceSuccess [.failure 0 none])).length := by
  obtain ⟨s, attempts⟩ := attempts_of_check [(0, firstGuessChoices 2 1), (30, guessChoices 2 2)]
    [.failure 30000 (some 930000), .failure 0 none] (by decide)
  have within := locked_for_recent_failures 900 List.mem_cons_self rfl attempts List.suffix_rfl
  exact ⟨s, attempts, within.mpr (.inr (by decide)) rfl⟩

/-- **An account is locked again** by one wrong password, hours after its lock has ended. -/
theorem locked_again :
    ∃ s, Attempts authContext aliceRow oneAccountState
        [.failure 7200000 (some 8100000), .failure 0 (some 900000), .failure 0 none] s ∧
      ¬ authContext.config.failedLoginAccountLimit ≤ (recent 900 7200000 (sinceSuccess
        [.failure 7200000 (some 8100000), .failure 0 (some 900000), .failure 0 none])).length := by
  obtain ⟨s, attempts⟩ := attempts_of_check
    [(0, firstGuessChoices 2 1), (0, guessChoices 2 2), (7200, firstGuessChoices 3 2)]
    [.failure 7200000 (some 8100000), .failure 0 (some 900000), .failure 0 none] (by decide)
  exact ⟨s, attempts, by decide⟩

end AuthRoutes

end OrderPlatform
