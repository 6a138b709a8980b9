import OrderPlatform.Async.Schedule
import OrderPlatform.Api.AuthContract

/-!
# Failed logins of an account

A failed login is counted by writing back one more than the count that was read before the
password was checked, together with the end of a lock.  When another failed login of the account
has been counted in between, it is counted no more, and the lock it has set is lost
(`failures_lost`).

`failed_logins_counted` says that nothing is lost as long as a failure is recorded only where the
account still has the count that was read.  `Counted` is the invariant, and `Later` is what one
statement may do to the account.
-/

namespace OrderPlatform

namespace AuthRoutes

open Async (Tid Regime)

variable {ctx : AuthContext} {server : Counters.Server} {clock : ℤ} {tables : AuthTables}
variable {p : Service ctx} {s s' : State} {t : Tid} {account : Uuid} {address : String}

/-! ### The condition -/

/-- The account has the count that the request has read. -/
def Unraced (account : Uuid) (t : Tid) (s : State) : Prop :=
  ∀ lookup ∈ s.history.lookups t, ∀ row ∈ lookup.found, ∀ current ∈ s.tables.users,
    current.id = account → current.failedLoginCount = row.failedLoginCount

/-- There is no successful login of the account, and a failure of it is recorded only where it has
the count that was read.  The `UPDATE` writes a count that the handler has computed from its
`SELECT`, so this is what makes every failure add one. -/
def countingOneByOne (ctx : AuthContext) (account : Uuid) : Regime (machine ctx) where
  advance := fun t c o s =>
    match c, o with
    | .succeeds, .query (.recordFailure id _ _) => id = account → Unraced account t s
    | .succeeds, .query (.clearFailures id) => id ≠ account
    | _, _ => True
  event := fun _ _ => True
  crash := fun _ _ => True

/-! ### The invariant -/

/-- This many failures lock an account. -/
def Locks (ctx : AuthContext) (count : ℕ) : Prop :=
  1 ≤ count ∧ ctx.config.failedLoginAccountLimit ≤ count

/-- The failures that were recorded for the account. -/
def failuresOf (account : Uuid) (s : State) : List Failure :=
  s.history.failures.filter fun failure => failure.userId = account

/-- The end of a lock that was set not later than at this moment. -/
def SetBy (ctx : AuthContext) (moment lockedUntil : ℤ) : Prop :=
  lockedUntil ≤ moment + ctx.config.accountLockSeconds * 1000

/-- `row` is what `users` holds of the account, and every recorded failure is in its count. -/
structure Counted (ctx : AuthContext) (account : Uuid) (address : String) (row : UserRow)
    (s : State) : Prop where
  mem : row ∈ s.tables.users
  id : row.id = account
  email : row.email = address
  count : row.failedLoginCount = (failuresOf account s).length
  /-- Once the count is high enough, the lock is that of a recorded failure. -/
  locked : Locks ctx row.failedLoginCount → ∃ lockedUntil, row.lockedUntil = some lockedUntil ∧
    SetBy ctx s.clock lockedUntil ∧ ∃ failure ∈ failuresOf account s,
      failure.lockedUntil = some lockedUntil
  /-- Whoever has looked for the account has found it. -/
  found : ∀ t, ∀ lookup ∈ s.history.lookups t, lookup.email = address →
    ∃ read, lookup.found = some read ∧ read.id = account
  /-- What was read of the account is not newer than what is there, and it is what is there if the
  count is the same. -/
  read : ∀ t, ∀ lookup ∈ s.history.lookups t, ∀ read ∈ lookup.found, read.id = account →
    read.failedLoginCount ≤ row.failedLoginCount ∧
      (read.failedLoginCount = row.failedLoginCount → read.lockedUntil = row.lockedUntil)
  /-- A lock that was read had been set before. -/
  before : ∀ t, ∀ lookup ∈ s.history.lookups t, ∀ read ∈ lookup.found, read.id = account →
    Locks ctx read.failedLoginCount → ∀ lockedUntil ∈ read.lockedUntil,
      SetBy ctx lookup.moment lockedUntil

/-- What may become of the account: the count grows, and a lock does not end earlier. -/
structure Later (ctx : AuthContext) (row row' : UserRow) : Prop where
  count : row.failedLoginCount ≤ row'.failedLoginCount
  locked : Locks ctx row.failedLoginCount → ∀ lockedUntil ∈ row.lockedUntil,
    ∃ later ∈ row'.lockedUntil, lockedUntil ≤ later

theorem Later.refl (row : UserRow) : Later ctx row row :=
  ⟨Nat.le_refl _, fun _ lockedUntil locked => ⟨lockedUntil, locked, le_rfl⟩⟩

theorem Locks.mono {count count' : ℕ} (h : Locks ctx count) (le : count ≤ count') :
    Locks ctx count' :=
  ⟨Nat.le_trans h.1 le, le_trans h.2 (Int.ofNat_le.mpr le)⟩

theorem Later.trans {row row' row'' : UserRow} (h : Later ctx row row')
    (h' : Later ctx row' row'') : Later ctx row row'' := by
  refine ⟨Nat.le_trans h.count h'.count, fun locks lockedUntil locked => ?_⟩
  obtain ⟨later, locked', le⟩ := h.locked locks lockedUntil locked
  obtain ⟨latest, locked'', le'⟩ := h'.locked (locks.mono h.count) later locked'
  exact ⟨latest, locked'', le_trans le le'⟩

namespace Counted

variable {row : UserRow}

/-- Nothing that concerns the account changes. -/
theorem same (inv : Counted ctx account address row s) (mem : row ∈ s'.tables.users)
    (clock : s.clock ≤ s'.clock) (failures : failuresOf account s' = failuresOf account s)
    (lookups : s'.history.lookups = s.history.lookups) : Counted ctx account address row s' := by
  refine ⟨mem, inv.id, inv.email, by rw [failures]; exact inv.count, fun locks => ?_, ?_, ?_, ?_⟩
  · obtain ⟨lockedUntil, locked, set, failure⟩ := inv.locked locks
    rw [failures]
    exact ⟨lockedUntil, locked, le_trans set (Int.add_le_add_right clock _), failure⟩
  · rw [lookups]
    exact inv.found
  · rw [lookups]
    exact inv.read
  · rw [lookups]
    exact inv.before

/-- Another account is changed. -/
theorem other {now : ℤ} {id : Uuid} {count : ℕ} {lockedUntil : Option ℤ}
    (inv : Counted ctx account address row s) (other : id ≠ account) :
    row ∈ (s.tables.setFailures now id count lockedUntil).users := by
  refine AuthTables.mem_setFailures.mpr ⟨row, inv.mem, ?_⟩
  rw [if_neg]
  rw [inv.id]
  exact Ne.symm other

/-- The account is looked up. -/
theorem select {email : String} {T : AuthTables} {found : Option UserRow}
    (inv : Counted ctx account address row s)
    (executed : s.tables.exec ctx.lower s.clock (.selectUser email) = .ok (found, T)) :
    Counted ctx account address row (s.after ctx t (.selectUser email) found T) := by
  cases executed
  set s' := s.after ctx t (.selectUser email)
    (s.tables.users.find? fun row => row.email = ctx.lower email) s.tables with after
  -- the lookup that is new, and the ones that were there
  have lookups : ∀ u, ∀ lookup ∈ s'.history.lookups u, lookup ∈ s.history.lookups u ∨
      lookup = ⟨ctx.lower email, s.tables.users.find? fun row => row.email = ctx.lower email,
        s.clock⟩ := by
    intro u lookup looked
    by_cases same : u = t
    · have here : s'.history.lookups u = some ⟨ctx.lower email,
          s.tables.users.find? fun row => row.email = ctx.lower email, s.clock⟩ := by
        rw [same]
        exact Function.update_self _ _ _
      rw [here] at looked
      exact .inr (Option.some_inj.mp looked).symm
    · have kept : s'.history.lookups u = s.history.lookups u := Function.update_of_ne same _ _
      rw [kept] at looked
      exact .inl looked
  have only : ∀ read ∈ s.tables.users.find? fun row => row.email = ctx.lower email,
      read.id = account → read = row := fun read selected id =>
    AuthTables.user_eq (List.mem_of_find?_eq_some selected) inv.mem (id.trans inv.id.symm)
  refine ⟨inv.mem, inv.id, inv.email, inv.count, inv.locked, ?_, ?_, ?_⟩
  · intro u lookup looked asked
    rcases lookups u lookup looked with was | rfl
    · exact inv.found u lookup was asked
    · change ctx.lower email = address at asked
      cases selected : s.tables.users.find? fun row => row.email = ctx.lower email with
      | none =>
          have absent := List.find?_eq_none.mp selected row inv.mem
          rw [inv.email, asked] at absent
          exact absurd (decide_eq_true rfl) absent
      | some read =>
          refine ⟨read, rfl, ?_⟩
          have email : read.email = ctx.lower email := by simpa using List.find?_some selected
          have mem := List.mem_of_find?_eq_some selected
          rw [AuthTables.user_eq_of_email mem inv.mem
            (email.trans (asked.trans inv.email.symm))]
          exact inv.id
  · intro u lookup looked read found id
    rcases lookups u lookup looked with was | rfl
    · exact inv.read u lookup was read found id
    · obtain rfl := only read found id
      exact ⟨Nat.le_refl _, fun _ => rfl⟩
  · intro u lookup looked read found id locks lockedUntil locked
    rcases lookups u lookup looked with was | rfl
    · exact inv.before u lookup was read found id locks lockedUntil locked
    · obtain rfl := only read found id
      obtain ⟨until', locked', set, _⟩ := inv.locked locks
      obtain rfl := Option.some_inj.mp (locked'.symm.trans locked)
      exact set

/-- A failure of the account is recorded. -/
theorem record {count : ℕ} {lockedUntil : Option ℤ} (inv : Counted ctx account address row s)
    (before : Before ctx t (.query (.recordFailure account count lockedUntil)) s)
    (unraced : Unraced account t s) :
    ∃ row', Counted ctx account address row' (s.after ctx t
      (.recordFailure account count lockedUntil) ()
      (s.tables.setFailures s.clock account count lockedUntil)) ∧ Later ctx row row' := by
  obtain ⟨lookup, read, looked, found, id, rfl, lock⟩ := before
  have same : row.failedLoginCount = read.failedLoginCount :=
    unraced lookup looked read found row inv.mem inv.id
  obtain ⟨_, sameLock⟩ := inv.read t lookup looked read found id
  let row' : UserRow :=
    { row with
      failedLoginCount := read.failedLoginCount + 1
      lockedUntil := lockedUntil
      updatedAt := s.clock }
  set s' := s.after ctx t (.recordFailure account (read.failedLoginCount + 1) lockedUntil) ()
    (s.tables.setFailures s.clock account (read.failedLoginCount + 1) lockedUntil) with after
  have failures : failuresOf account s' = ⟨t, account, lockedUntil⟩ :: failuresOf account s :=
    List.filter_cons_of_pos (by simp)
  have more : row.failedLoginCount < row'.failedLoginCount := by
    rw [same]
    exact Nat.lt_succ_self _
  have setNow : Locks ctx (read.failedLoginCount + 1) → ∃ ms, lookup.moment ≤ ms ∧ ms ≤ s.clock ∧
      lockedUntil = some (ms + ctx.config.accountLockSeconds * 1000) := by
    intro locks
    unfold LockFrom at lock
    rw [if_pos locks.2] at lock
    exact lock
  refine ⟨row', ⟨?_, inv.id, inv.email, ?_, fun locks => ?_, inv.found, ?_, inv.before⟩, ?_⟩
  · refine AuthTables.mem_setFailures.mpr ⟨row, inv.mem, ?_⟩
    rw [if_pos inv.id]
  · rw [failures, List.length_cons, ← inv.count, same]
  · obtain ⟨ms, _, now, rfl⟩ := setNow locks
    refine ⟨_, rfl, Int.add_le_add_right now _, ⟨t, account, _⟩, ?_, rfl⟩
    rw [failures]
    exact List.mem_cons_self
  · intro u lookup' looked' read' found' id'
    have le := (inv.read u lookup' looked' read' found' id').1
    have lt : read'.failedLoginCount < row'.failedLoginCount := Nat.lt_of_le_of_lt le more
    exact ⟨Nat.le_of_lt lt, fun equal => absurd equal (Nat.ne_of_lt lt)⟩
  · refine ⟨Nat.le_of_lt more, fun locks lockedBefore locked => ?_⟩
    -- what is replaced is what was read, and that was set before
    have set := inv.before t lookup looked read found id (by rw [← same]; exact locks)
      lockedBefore (by rw [sameLock same.symm]; exact locked)
    obtain ⟨ms, later, _, rfl⟩ := setNow (locks.mono (by rw [same]; exact Nat.le_succ _))
    exact ⟨_, rfl, le_trans set (Int.add_le_add_right later _)⟩

/-- **Every statement keeps the count**, and the lock. -/
theorem statement {st : AuthStatement} {v : st.Result} {T : AuthTables}
    (inv : Counted ctx account address row s) (before : Before ctx t (.query st) s)
    (allowed : (countingOneByOne ctx account).advance t .succeeds (.query st) s)
    (executed : s.tables.exec ctx.lower s.clock st = .ok (v, T)) :
    ∃ row', Counted ctx account address row' (s.after ctx t st v T) ∧ Later ctx row row' := by
  cases st with
  | insertUser id email passwordHash =>
      refine ⟨row, inv.same ?_ le_rfl rfl rfl, .refl row⟩
      change row ∈ T.users
      rw [(AuthTables.inserted_user executed).1]
      exact List.mem_cons_of_mem _ inv.mem
  | selectUser email => exact ⟨row, inv.select executed, .refl row⟩
  | recordFailure id count lockedUntil =>
      cases executed
      by_cases about : id = account
      · subst about
        exact inv.record before (allowed rfl)
      · have failures : failuresOf account (s.after ctx t (.recordFailure id count lockedUntil) ()
            (s.tables.setFailures s.clock id count lockedUntil)) = failuresOf account s :=
          List.filter_cons_of_neg (by simpa using about)
        exact ⟨row, inv.same (inv.other about) le_rfl failures rfl, .refl row⟩
  | clearFailures id =>
      cases executed
      exact ⟨row, inv.same (inv.other allowed) le_rfl rfl rfl, .refl row⟩
  | insertToken id userId tokenHash expiresAt =>
      obtain ⟨_, _, _, users⟩ := AuthTables.inserted_token executed
      refine ⟨row, inv.same ?_ le_rfl rfl rfl, .refl row⟩
      change row ∈ T.users
      rw [users]
      exact inv.mem
  | selectToken tokenHash => cases executed; exact ⟨row, inv.same inv.mem le_rfl rfl rfl, .refl row⟩
  | revokeToken id => cases executed; exact ⟨row, inv.same inv.mem le_rfl rfl rfl, .refl row⟩
  | revokeUserTokens userId =>
      cases executed
      exact ⟨row, inv.same inv.mem le_rfl rfl rfl, .refl row⟩
  | revokeTokenHash tokenHash =>
      cases executed
      exact ⟨row, inv.same inv.mem le_rfl rfl rfl, .refl row⟩

end Counted

/-! ### Whole runs -/

/-- Request `t` is a login of this account that was refused for its credentials. -/
def Refused (p : Service ctx) (address : String) (t : Tid) : Prop :=
  ∃ client body, ctx.lower body.email = address ∧
    p.Answered t (.login client (.ok body)) invalidCredentials

/-- What `users` holds of an account that starts without a failure. -/
private theorem counted_of_run {account : UserRow} (known : account ∈ tables.users)
    (zero : account.failedLoginCount = 0)
    (run : Run ctx (countingOneByOne ctx account.id) (.initial server clock tables) p) :
    ∃ row, Counted ctx account.id account.email row p.shared := by
  refine run.invariant (I := fun s => ∃ row, Counted ctx account.id account.email row s)
    ⟨account, known, rfl, rfl, zero, fun locks => ?_, nofun, nofun, nofun⟩ ?_ ?_
  · rw [zero] at locks
    exact absurd locks.1 (Nat.not_succ_le_zero 0)
  · rintro t st s v T before allowed executed ⟨row, inv⟩
    obtain ⟨row', inv', _⟩ := inv.statement before allowed executed
    exact ⟨row', inv'⟩
  · rintro s s' le tables history ⟨row, inv⟩
    refine ⟨row, inv.same (by rw [tables]; exact inv.mem) le ?_ (by rw [history])⟩
    unfold failuresOf
    rw [history]

/-- What `users` holds of the account later. -/
private theorem later_of_run {account : UserRow} {q : Service ctx} {row : UserRow}
    (sound : Async.Discipline.Sound (discipline ctx) (countingOneByOne ctx account.id) (Answer ctx)
      Failing p)
    (inv : Counted ctx account.id account.email row p.shared)
    (run : Async.Pool.Steps (countingOneByOne ctx account.id) (handler ctx) p q) :
    ∃ row', Counted ctx account.id account.email row' q.shared ∧ Later ctx row row' := by
  refine invariant_of_sound
    (I := fun s => ∃ row', Counted ctx account.id account.email row' s ∧ Later ctx row row')
    sound ⟨row, inv, .refl row⟩ ?_ ?_ run
  · rintro t st s v T before allowed executed ⟨row', inv', later⟩
    obtain ⟨row'', inv'', later'⟩ := inv'.statement before allowed executed
    exact ⟨row'', inv'', later.trans later'⟩
  · rintro s s' le tables history ⟨row', inv', later⟩
    refine ⟨row', inv'.same (by rw [tables]; exact inv'.mem) le ?_ (by rw [history]), later⟩
    unfold failuresOf
    rw [history]

/-- Every refused login is a recorded failure. -/
private theorem refused_le {account : Uuid} {row : UserRow}
    (sound : Async.Discipline.Sound (discipline ctx) (countingOneByOne ctx account) (Answer ctx)
      Failing p)
    (inv : Counted ctx account address row p.shared) {refused : List Tid}
    (distinct : refused.Nodup) (all : ∀ t ∈ refused, Refused p address t) :
    refused.length ≤ row.failedLoginCount := by
  have recorded : refused ⊆ (failuresOf account p.shared).map Failure.tid := by
    intro t mem
    obtain ⟨client, body, email, answered⟩ := all t mem
    obtain ⟨lookup, looked, asked, recorded⟩ := sound.answered answered body rfl rfl
    obtain ⟨read, found, id⟩ := inv.found t lookup looked (asked.trans email)
    obtain ⟨failure, memFailure, tid, userId⟩ := recorded read found
    refine List.mem_map.mpr ⟨failure, List.mem_filter.mpr ⟨memFailure, ?_⟩, tid⟩
    exact decide_eq_true (userId.trans id)
  calc
    refused.length ≤ ((failuresOf account p.shared).map Failure.tid).length :=
      distinct.length_le_of_subset recorded
    _ = row.failedLoginCount := by rw [List.length_map, inv.count]

/-- **No failed login goes uncounted**, as long as there is no successful login of the account and
every failure is recorded where the account still has the count that was read.  However many logins
of the account have been refused, the count is at least that; once it reaches the limit the account
has a lock that one of the failures has set, and no later state has none, or one that ends
earlier.

The condition makes every refused login raise the count by one (`counted_of_run`).  A lock that has
been set is moved by later failures only, and to a later end. -/
theorem failed_logins_counted {account : UserRow} (known : account ∈ tables.users)
    (zero : account.failedLoginCount = 0)
    (run : Run ctx (countingOneByOne ctx account.id) (.initial server clock tables) p)
    {refused : List Tid} (distinct : refused.Nodup)
    (all : ∀ t ∈ refused, Refused p account.email t) :
    ∃ row ∈ p.shared.tables.users, row.id = account.id ∧
      refused.length ≤ row.failedLoginCount ∧
      (Locks ctx refused.length → ∃ lockedUntil, row.lockedUntil = some lockedUntil ∧
        (∃ failure ∈ p.shared.history.failures, failure.userId = account.id ∧
          failure.lockedUntil = some lockedUntil) ∧
        ∀ q, Async.Pool.Steps (countingOneByOne ctx account.id) (handler ctx) p q →
          ∃ row' ∈ q.shared.tables.users, row'.id = account.id ∧
            ∃ later, row'.lockedUntil = some later ∧ lockedUntil ≤ later) := by
  have sound := sound_of_run run
  obtain ⟨row, inv⟩ := counted_of_run known zero run
  have counted := refused_le sound inv distinct all
  refine ⟨row, inv.mem, inv.id, counted, fun locks => ?_⟩
  obtain ⟨lockedUntil, locked, _, failure, mem, set⟩ := inv.locked (locks.mono counted)
  obtain ⟨recorded, about⟩ := List.mem_filter.mp mem
  refine ⟨lockedUntil, locked, ⟨failure, recorded, of_decide_eq_true about, set⟩, fun q rest => ?_⟩
  obtain ⟨row', inv', later⟩ := later_of_run sound inv rest
  obtain ⟨end', locked', le⟩ := later.locked (locks.mono counted) lockedUntil locked
  exact ⟨row', inv'.mem, inv'.id, end', locked', le⟩

instance decidableUnraced (account : Uuid) (t : Tid) (s : State) :
    Decidable (Unraced account t s) :=
  inferInstanceAs (Decidable (∀ lookup ∈ s.history.lookups t, ∀ row ∈ lookup.found,
    ∀ current ∈ s.tables.users, current.id = account →
      current.failedLoginCount = row.failedLoginCount))

instance decidableCountingOneByOneAdvance (account : Uuid) (t : Tid) (c : Choice) (o : Operation)
    (s : State) : Decidable ((countingOneByOne ctx account).advance t c o s) := by
  unfold countingOneByOne
  dsimp only
  split
  · infer_instance
  · infer_instance
  · infer_instance

instance decidableCountingOneByOneEvent (account : Uuid) (e : Event) (s : State) :
    Decidable ((countingOneByOne ctx account).event e s) := .isTrue trivial

instance decidableCountingOneByOneCrash (account : Uuid) (t : Tid) (s : State) :
    Decidable ((countingOneByOne ctx account).crash t s) := .isTrue trivial

/-- The credentials of a login, and its answer. -/
def attempted (p : Service ctx) (t : Tid) : Option (Credentials × HttpResponse) :=
  match p.slot t with
  | .busy (.login _ (.ok body)) (.done response) => some (body, response)
  | _ => none

theorem refused_of_attempted {body : Credentials}
    (h : attempted p t = some (body, invalidCredentials)) : Refused p (ctx.lower body.email) t := by
  unfold attempted at h
  split at h
  · rename_i client body' response busy
    cases h
    exact ⟨client, body, rfl, busy⟩
  · cases h

/-- A guess. -/
def wrongCredentials : Credentials := ⟨"Alice@Example.com", "password1234"⟩

def exampleClient : ClientRequest := ⟨fun _ => .missing, "203.0.113.7"⟩

/-- A login with a wrong password, up to the check of the password. -/
def guessMoves (t : Tid) : List (Async.Move (machine authContext) Request) :=
  [.start t (.login exampleClient (.ok wrongCredentials)), .advance t (.redis .none),
    .advance t .succeeds, .advance t .succeeds]

/-- Two guesses, one after the other: the account is locked. -/
theorem failed_logins_counted_of_two :
    ∃ p : Service authContext,
      Run authContext (countingOneByOne authContext aliceId) oneAccountState p ∧
      ∃ row ∈ p.shared.tables.users, row.id = aliceId ∧ 2 ≤ row.failedLoginCount ∧
        ∃ lockedUntil, row.lockedUntil = some lockedUntil := by
  obtain ⟨p, run, first, second⟩ := Async.Pool.steps_of_check
    (countingOneByOne authContext aliceId) (handler authContext) (Async.Pool.idle oneAccountState)
    (guessMoves 0 ++ [.advance 0 (.redis .none), .advance 0 (.redis .none), .advance 0 .succeeds] ++
      guessMoves 1 ++ [.advance 1 (.redis .none), .event .tick, .advance 1 .succeeds,
        .advance 1 .succeeds])
    (fun p => attempted p 0 = some (wrongCredentials, invalidCredentials) ∧
      attempted p 1 = some (wrongCredentials, invalidCredentials)) (by decide)
  have address : authContext.lower wrongCredentials.email = aliceRow.email := by decide
  have known : aliceRow ∈ oneAccount.users := List.mem_cons_self
  have distinct : ([0, 1] : List Tid).Nodup := by decide
  have refused : ∀ t ∈ [0, 1], Refused p aliceRow.email t := by
    intro t mem
    rw [← address]
    rcases List.mem_cons.mp mem with rfl | mem
    · exact refused_of_attempted first
    · rw [List.mem_singleton.mp mem]
      exact refused_of_attempted second
  obtain ⟨row, mem, id, counted, locked⟩ := failed_logins_counted known rfl run distinct refused
  obtain ⟨lockedUntil, set, _⟩ := locked ⟨by decide, by decide⟩
  exact ⟨p, run, row, mem, id, counted, lockedUntil, set⟩

/-- The failure is recorded. -/
def recordMoves (t : Tid) : List (Async.Move (machine authContext) Request) :=
  [.advance t (.redis .none), .advance t .succeeds]

/-- **Failures are lost.**  The first guess has read the account before two others are counted and
lock it; when it is recorded, three guesses have been refused, the count is 1 and there is no
lock. -/
theorem failures_lost :
    ∃ p q : Service authContext, Run authContext (unrestricted authContext) oneAccountState p ∧
      (∃ row ∈ p.shared.tables.users, row.id = aliceId ∧ row.failedLoginCount = 2 ∧
        row.lockedUntil = some 900000) ∧
      Async.Pool.Steps (unrestricted authContext) (handler authContext) p q ∧
      (∀ t ∈ [0, 1, 2], Refused q aliceRow.email t) ∧
      ∃ row ∈ q.shared.tables.users, row.id = aliceId ∧ row.failedLoginCount = 1 ∧
        row.lockedUntil = none := by
  obtain ⟨p, run, locked, goes⟩ := Async.Pool.steps_of_check (unrestricted authContext)
    (handler authContext) (Async.Pool.idle oneAccountState)
    (guessMoves 0 ++ guessMoves 1 ++ .advance 1 (.redis .none) :: recordMoves 1 ++
      guessMoves 2 ++ .advance 2 (.redis .none) :: .advance 2 .succeeds :: [.advance 2 .succeeds])
    (fun p => (∃ row ∈ p.shared.tables.users, row.id = aliceId ∧ row.failedLoginCount = 2 ∧
        row.lockedUntil = some 900000) ∧
      (Async.Pool.run (unrestricted authContext) (handler authContext) p (recordMoves 0)).any
        fun q => decide ((attempted q 0 = some (wrongCredentials, invalidCredentials) ∧
          attempted q 1 = some (wrongCredentials, invalidCredentials) ∧
          attempted q 2 = some (wrongCredentials, invalidCredentials)) ∧
          ∃ row ∈ q.shared.tables.users, row.id = aliceId ∧ row.failedLoginCount = 1 ∧
            row.lockedUntil = none)) (by decide)
  obtain ⟨q, rest, ⟨first, second, third⟩, lost⟩ :=
    Async.Pool.steps_of_check (unrestricted authContext) _ p _ _ goes
  have address : authContext.lower wrongCredentials.email = aliceRow.email := by decide
  refine ⟨p, q, run, locked, rest, fun t mem => ?_, lost⟩
  rw [← address]
  simp only [List.mem_cons, List.not_mem_nil, or_false] at mem
  rcases mem with rfl | rfl | rfl
  · exact refused_of_attempted first
  · exact refused_of_attempted second
  · exact refused_of_attempted third

end AuthRoutes

end OrderPlatform
