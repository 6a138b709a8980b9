import Mathlib.Data.List.Nodup
import OrderPlatform.Api.Database

/-!
# The tables of the auth routes

`users` and `refresh_tokens`, and the statements that the auth routes send.  Every one of them is
a transaction of its own: it is executed at once, or it fails and changes nothing.

The primary keys, the unique columns and the foreign key of the schema are fields of `AuthTables`,
so a table that breaks them cannot be built; an `INSERT` that would break one fails.

* `UserRow`, `TokenRow`, `AuthTables` — the data.
* `AuthStatement`, `AuthTables.exec` — the statements and what they do.
* `AuthTables.Persists` — what no statement undoes: rows stay, and a revoked token stays revoked.
-/

namespace OrderPlatform

/-- A row of `users`.  Times are milliseconds since the epoch. -/
structure UserRow where
  id : Uuid
  email : String
  passwordHash : String
  failedLoginCount : ℕ
  lockedUntil : Option ℤ
  updatedAt : ℤ
deriving DecidableEq

/-- A row of `refresh_tokens`. -/
structure TokenRow where
  id : Uuid
  userId : Uuid
  tokenHash : String
  expiresAt : ℤ
  revokedAt : Option ℤ
deriving DecidableEq

/-- The tables `users` and `refresh_tokens`, with their primary keys, unique indexes and the foreign
key as fields: a table that breaks one of them cannot be built. -/
structure AuthTables where
  users : List UserRow
  tokens : List TokenRow
  userIds : (users.map UserRow.id).Nodup
  emails : (users.map UserRow.email).Nodup
  tokenIds : (tokens.map TokenRow.id).Nodup
  tokenHashes : (tokens.map TokenRow.tokenHash).Nodup
  references : ∀ token ∈ tokens, token.userId ∈ users.map UserRow.id

/-- The SQL statements of `auth.routes.ts`, each with the values of its parameters. -/
inductive AuthStatement
  /-- `INSERT INTO users … VALUES ($1, lower($2), $3) RETURNING id, email` -/
  | insertUser (id : Uuid) (email passwordHash : String)
  /-- `SELECT … FROM users WHERE email = lower($1)` -/
  | selectUser (email : String)
  /-- `UPDATE users SET failed_login_count = $2, locked_until = $3 … WHERE id = $1` -/
  | recordFailure (id : Uuid) (count : ℕ) (lockedUntil : Option ℤ)
  /-- `UPDATE users SET failed_login_count = 0, locked_until = NULL … WHERE id = $1` -/
  | clearFailures (id : Uuid)
  /-- `INSERT INTO refresh_tokens …` -/
  | insertToken (id userId : Uuid) (tokenHash : String) (expiresAt : ℤ)
  /-- `SELECT … FROM refresh_tokens rt JOIN users u … WHERE rt.token_hash = $1` -/
  | selectToken (tokenHash : String)
  /-- `UPDATE refresh_tokens SET revoked_at = now() WHERE id = $1` -/
  | revokeToken (id : Uuid)
  /-- `UPDATE refresh_tokens SET revoked_at = now() WHERE user_id = $1 AND revoked_at IS NULL` -/
  | revokeUserTokens (userId : Uuid)
  /-- `UPDATE refresh_tokens SET revoked_at = now() WHERE token_hash = $1` -/
  | revokeTokenHash (tokenHash : String)
deriving DecidableEq

/-- What a statement returns.  A token comes with the email of its user. -/
def AuthStatement.Result : AuthStatement → Type
  | insertUser .. => Uuid × String
  | selectUser _ => Option UserRow
  | selectToken _ => Option (TokenRow × String)
  | _ => Unit

/-- Why a statement fails. -/
inductive SqlError
  /-- SQLSTATE 23505. -/
  | uniqueViolation
  | other
deriving DecidableEq

namespace AuthTables

/-- The count and the lock of a user are set. -/
def setFailures (now : ℤ) (id : Uuid) (count : ℕ) (lockedUntil : Option ℤ) (T : AuthTables) :
    AuthTables :=
  let set (row : UserRow) : UserRow :=
    if row.id = id then
      { row with failedLoginCount := count, lockedUntil := lockedUntil, updatedAt := now }
    else row
  have same : ∀ {β : Type} (g : UserRow → β), (∀ row, g (set row) = g row) →
      (T.users.map set).map g = T.users.map g := by
    intro β g keeps
    rw [List.map_map]
    exact List.map_congr_left fun row _ => keeps row
  have ids : (T.users.map set).map UserRow.id = T.users.map UserRow.id :=
    same _ fun row => by simp only [set]; split <;> rfl
  have emails : (T.users.map set).map UserRow.email = T.users.map UserRow.email :=
    same _ fun row => by simp only [set]; split <;> rfl
  { T with
    users := T.users.map set
    userIds := by rw [ids]; exact T.userIds
    emails := by rw [emails]; exact T.emails
    references := fun token mem => by rw [ids]; exact T.references token mem }

/-- The tokens for which `P` holds are revoked. -/
def revoke (now : ℤ) (P : TokenRow → Bool) (T : AuthTables) : AuthTables :=
  let set (row : TokenRow) : TokenRow := if P row then { row with revokedAt := some now } else row
  have same : ∀ {β : Type} (g : TokenRow → β), (∀ row, g (set row) = g row) →
      (T.tokens.map set).map g = T.tokens.map g := by
    intro β g keeps
    rw [List.map_map]
    exact List.map_congr_left fun row _ => keeps row
  { T with
    tokens := T.tokens.map set
    tokenIds := by
      rw [same TokenRow.id fun row => by simp only [set]; split <;> rfl]
      exact T.tokenIds
    tokenHashes := by
      rw [same TokenRow.tokenHash fun row => by simp only [set]; split <;> rfl]
      exact T.tokenHashes
    references := by
      intro token mem
      obtain ⟨row, stored, rfl⟩ := List.mem_map.mp mem
      have user : (set row).userId = row.userId := by simp only [set]; split <;> rfl
      rw [user]
      exact T.references row stored }

/-- A user is inserted, unless a unique column forbids it. -/
def insertUser (row : UserRow) (T : AuthTables) : Except SqlError AuthTables :=
  if fresh : row.id ∉ T.users.map UserRow.id ∧ row.email ∉ T.users.map UserRow.email then
    .ok
      { T with
        users := row :: T.users
        userIds := List.nodup_cons.mpr ⟨fresh.1, T.userIds⟩
        emails := List.nodup_cons.mpr ⟨fresh.2, T.emails⟩
        references := fun token mem => List.mem_cons_of_mem _ (T.references token mem) }
  else .error .uniqueViolation

/-- A token is inserted, unless a unique column or the foreign key forbids it. -/
def insertToken (row : TokenRow) (T : AuthTables) : Except SqlError AuthTables :=
  if fresh : row.id ∉ T.tokens.map TokenRow.id ∧
      row.tokenHash ∉ T.tokens.map TokenRow.tokenHash then
    if known : row.userId ∈ T.users.map UserRow.id then
      .ok
        { T with
          tokens := row :: T.tokens
          tokenIds := List.nodup_cons.mpr ⟨fresh.1, T.tokenIds⟩
          tokenHashes := List.nodup_cons.mpr ⟨fresh.2, T.tokenHashes⟩
          references := by
            intro token mem
            rcases List.mem_cons.mp mem with rfl | old
            · exact known
            · exact T.references token old }
    else .error .other
  else .error .uniqueViolation

/-- The email of a token's user. -/
def emailOf (T : AuthTables) (token : TokenRow) : Option String :=
  (T.users.find? fun row => row.id = token.userId).map UserRow.email

/-- Execute a statement at this moment. -/
def exec (lower : String → String) (now : ℤ) (T : AuthTables) :
    (st : AuthStatement) → Except SqlError (st.Result × AuthTables)
  | .insertUser id email passwordHash =>
      (T.insertUser ⟨id, lower email, passwordHash, 0, none, now⟩).map fun T' =>
        ((id, lower email), T')
  | .selectUser email => .ok (T.users.find? fun row => row.email = lower email, T)
  | .recordFailure id count lockedUntil => .ok ((), T.setFailures now id count lockedUntil)
  | .clearFailures id => .ok ((), T.setFailures now id 0 none)
  | .insertToken id userId tokenHash expiresAt =>
      (T.insertToken ⟨id, userId, tokenHash, expiresAt, none⟩).map fun T' => ((), T')
  | .selectToken tokenHash =>
      .ok ((T.tokens.find? fun row => row.tokenHash = tokenHash).bind fun row =>
        (T.emailOf row).map fun email => (row, email), T)
  | .revokeToken id => .ok ((), T.revoke now fun row => row.id = id)
  | .revokeUserTokens userId =>
      .ok ((), T.revoke now fun row => row.userId = userId && row.revokedAt.isNone)
  | .revokeTokenHash tokenHash => .ok ((), T.revoke now fun row => row.tokenHash = tokenHash)

/-! ### Rows and their keys -/

variable {T T' : AuthTables}

theorem user_eq {row row' : UserRow} (mem : row ∈ T.users) (mem' : row' ∈ T.users)
    (same : row.id = row'.id) : row = row' :=
  List.inj_on_of_nodup_map T.userIds mem mem' same

theorem user_eq_of_email {row row' : UserRow} (mem : row ∈ T.users) (mem' : row' ∈ T.users)
    (same : row.email = row'.email) : row = row' :=
  List.inj_on_of_nodup_map T.emails mem mem' same

theorem token_eq {row row' : TokenRow} (mem : row ∈ T.tokens) (mem' : row' ∈ T.tokens)
    (same : row.id = row'.id) : row = row' :=
  List.inj_on_of_nodup_map T.tokenIds mem mem' same

theorem token_eq_of_hash {row row' : TokenRow} (mem : row ∈ T.tokens) (mem' : row' ∈ T.tokens)
    (same : row.tokenHash = row'.tokenHash) : row = row' :=
  List.inj_on_of_nodup_map T.tokenHashes mem mem' same

/-! ### What no statement undoes -/

/-- The row of the same user. -/
structure SameUser (row row' : UserRow) : Prop where
  id : row'.id = row.id
  email : row'.email = row.email

/-- The row of the same token, which is not less revoked. -/
structure SameToken (row row' : TokenRow) : Prop where
  id : row'.id = row.id
  userId : row'.userId = row.userId
  tokenHash : row'.tokenHash = row.tokenHash
  revoked : row.revokedAt ≠ none → row'.revokedAt ≠ none

/-- Every row is still there. -/
structure Persists (T T' : AuthTables) : Prop where
  users : ∀ row ∈ T.users, ∃ row' ∈ T'.users, SameUser row row'
  tokens : ∀ row ∈ T.tokens, ∃ row' ∈ T'.tokens, SameToken row row'

theorem Persists.refl (T : AuthTables) : Persists T T :=
  ⟨fun row mem => ⟨row, mem, rfl, rfl⟩, fun row mem => ⟨row, mem, rfl, rfl, rfl, id⟩⟩

theorem Persists.trans {T'' : AuthTables} (h : Persists T T') (h' : Persists T' T'') :
    Persists T T'' := by
  constructor
  · intro row mem
    obtain ⟨row', mem', same⟩ := h.users row mem
    obtain ⟨row'', mem'', same'⟩ := h'.users row' mem'
    exact ⟨row'', mem'', same'.id.trans same.id, same'.email.trans same.email⟩
  · intro row mem
    obtain ⟨row', mem', same⟩ := h.tokens row mem
    obtain ⟨row'', mem'', same'⟩ := h'.tokens row' mem'
    exact ⟨row'', mem'', same'.id.trans same.id, same'.userId.trans same.userId,
      same'.tokenHash.trans same.tokenHash, fun revoked => same'.revoked (same.revoked revoked)⟩

/-! ### What each statement does -/

variable {now : ℤ} {lower : String → String}

/-- A user of the updated table, and the row it comes from. -/
theorem mem_setFailures {id : Uuid} {count : ℕ} {lockedUntil : Option ℤ} {row : UserRow} :
    row ∈ (T.setFailures now id count lockedUntil).users ↔
      ∃ old ∈ T.users, row = if old.id = id then
        { old with failedLoginCount := count, lockedUntil := lockedUntil, updatedAt := now }
      else old := by
  refine List.mem_map.trans ?_
  simp only [eq_comm]

/-- A token of the updated table, and the row it comes from. -/
theorem mem_revoke {P : TokenRow → Bool} {row : TokenRow} :
    row ∈ (T.revoke now P).tokens ↔
      ∃ old ∈ T.tokens, row = if P old then { old with revokedAt := some now } else old := by
  refine List.mem_map.trans ?_
  simp only [eq_comm]

theorem persists_setFailures (id : Uuid) (count : ℕ) (lockedUntil : Option ℤ) :
    Persists T (T.setFailures now id count lockedUntil) := by
  refine ⟨fun row mem => ⟨_, mem_setFailures.mpr ⟨row, mem, rfl⟩, ?_, ?_⟩, (Persists.refl T).tokens⟩
  · split <;> rfl
  · split <;> rfl

theorem persists_revoke (P : TokenRow → Bool) : Persists T (T.revoke now P) := by
  refine ⟨(Persists.refl T).users,
    fun row mem => ⟨_, mem_revoke.mpr ⟨row, mem, rfl⟩, ?_, ?_, ?_, fun revoked => ?_⟩⟩
  · split <;> rfl
  · split <;> rfl
  · split <;> rfl
  · split
    · exact Option.some_ne_none now
    · exact revoked

theorem insertUser_ok {row : UserRow} (h : T.insertUser row = .ok T') :
    row.id ∉ T.users.map UserRow.id ∧ row.email ∉ T.users.map UserRow.email ∧
      T'.users = row :: T.users ∧ T'.tokens = T.tokens := by
  unfold insertUser at h
  split at h
  · rename_i fresh
    cases h
    exact ⟨fresh.1, fresh.2, rfl, rfl⟩
  · cases h

theorem insertToken_ok {row : TokenRow} (h : T.insertToken row = .ok T') :
    row.id ∉ T.tokens.map TokenRow.id ∧ row.tokenHash ∉ T.tokens.map TokenRow.tokenHash ∧
      T'.users = T.users ∧ T'.tokens = row :: T.tokens := by
  unfold insertToken at h
  split at h
  · rename_i fresh
    split at h
    · cases h
      exact ⟨fresh.1, fresh.2, rfl, rfl⟩
    · cases h
  · cases h

/-- The `INSERT` of a user. -/
theorem inserted_user {id : Uuid} {email passwordHash : String} {r : Uuid × String}
    (h : T.exec lower now (.insertUser id email passwordHash) = .ok (r, T')) :
    T'.users = ⟨id, lower email, passwordHash, 0, none, now⟩ :: T.users ∧ T'.tokens = T.tokens := by
  simp only [exec] at h
  cases inserted : T.insertUser ⟨id, lower email, passwordHash, 0, none, now⟩ with
  | error e => rw [inserted] at h; cases h
  | ok T₁ =>
      rw [inserted] at h
      cases h
      exact (insertUser_ok inserted).2.2

/-- The `INSERT` of a token that is not in the table yet. -/
theorem inserted_token {id userId : Uuid} {tokenHash : String} {expiresAt : ℤ} {r : Unit}
    (h : T.exec lower now (.insertToken id userId tokenHash expiresAt) = .ok (r, T')) :
    ⟨id, userId, tokenHash, expiresAt, none⟩ ∈ T'.tokens ∧ (∀ row ∈ T.tokens, row.id ≠ id) ∧
      T'.tokens = ⟨id, userId, tokenHash, expiresAt, none⟩ :: T.tokens ∧ T'.users = T.users := by
  simp only [exec] at h
  cases inserted : T.insertToken ⟨id, userId, tokenHash, expiresAt, none⟩ with
  | error e => rw [inserted] at h; cases h
  | ok T₁ =>
      rw [inserted] at h
      cases h
      obtain ⟨fresh, _, users, tokens⟩ := insertToken_ok inserted
      refine ⟨by rw [tokens]; exact List.mem_cons_self, fun row mem same => ?_, tokens, users⟩
      exact fresh (List.mem_map.mpr ⟨row, mem, same⟩)

/-- The lookup of a refresh token. -/
theorem selected_token {tokenHash : String} {found : Option (TokenRow × String)}
    (h : T.exec lower now (.selectToken tokenHash) = .ok (found, T')) :
    T' = T ∧ ∀ token email, found = some (token, email) →
      token ∈ T.tokens ∧ token.tokenHash = tokenHash := by
  cases h
  refine ⟨rfl, fun token email selected => ?_⟩
  obtain ⟨row, found, joined⟩ := Option.bind_eq_some_iff.mp selected
  obtain ⟨_, _, same⟩ := Option.map_eq_some_iff.mp joined
  cases same
  exact ⟨List.mem_of_find?_eq_some found, by simpa using List.find?_some found⟩

/-- **No statement removes a row or restores a token.** -/
theorem persists_exec {st : AuthStatement} {r : st.Result}
    (h : T.exec lower now st = .ok (r, T')) : Persists T T' := by
  cases st with
  | insertUser id email passwordHash =>
      obtain ⟨users, tokens⟩ := inserted_user h
      constructor
      · intro row mem
        rw [users]
        exact ⟨row, List.mem_cons_of_mem _ mem, rfl, rfl⟩
      · rw [tokens]
        exact (Persists.refl T).tokens
  | insertToken id userId tokenHash expiresAt =>
      obtain ⟨_, _, tokens, users⟩ := inserted_token h
      constructor
      · rw [users]
        exact (Persists.refl T).users
      · intro row mem
        rw [tokens]
        exact ⟨row, List.mem_cons_of_mem _ mem, rfl, rfl, rfl, fun revoked => revoked⟩
  | selectUser email => cases h; exact .refl T
  | selectToken tokenHash => cases h; exact .refl T
  | recordFailure id count lockedUntil => cases h; exact persists_setFailures id count lockedUntil
  | clearFailures id => cases h; exact persists_setFailures id 0 none
  | revokeToken id => cases h; exact persists_revoke _
  | revokeUserTokens userId => cases h; exact persists_revoke _
  | revokeTokenHash tokenHash => cases h; exact persists_revoke _

end AuthTables

end OrderPlatform
