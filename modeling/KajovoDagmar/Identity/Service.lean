import KajovoDagmar.Library.PythonText
import KajovoDagmar.Library.ReadCommitted
import KajovoDagmar.Library.Table
import KajovoDagmar.Types
import Mathlib.Algebra.Group.Int.Defs

/-! # Identity

The transactions of `IdentityService` on the administrator's account that check or set its
password: a login (`authenticate`, then `create_session`), `change_password` behind the
session of its caller, `complete_reset` and `synchronize_deployment_password`.  Each is a
program of statements under READ COMMITTED; a statement with `FOR UPDATE`, a bulk `UPDATE` and
the flush that the audit event forces take row locks, and the audit chain has an advisory lock
of its own.  The rows that the object-relational mapper has changed are written with the
absolute values of the changed columns. -/

namespace KajovoDagmar

open ReadCommitted

/-! ### Passwords -/

/-- `argon2.PasswordHasher`, with the salt of a new hash as an argument, and `str.casefold`. -/
structure PasswordHasher where
  hash : String → ℕ → String
  /-- `verify`, with `False` for its exceptions. -/
  verify : (storedHash password : String) → Bool
  checkNeedsRehash : String → Bool
  casefold : String → String

namespace PasswordHasher

variable (ph : PasswordHasher)

def commonCompromised : List String :=
  ["password", "password123", "12345678901234", "qwertyuiopasdf", "letmeinletmein",
    "karmar78karmar78"]

/-- `password_policy_errors`. -/
def passwordPolicyErrors (password : String) (username : String := "Karmar78") : List String :=
  let normalized := PythonText.strip (ph.casefold password)
  (if password.length < 8 then ["Heslo musí mít alespoň 8 znaků."] else []) ++
  (if 128 < password.length then ["Heslo může mít nejvýše 128 znaků."] else []) ++
  (if normalized = ph.casefold username then ["Heslo nesmí být shodné s uživatelským jménem."] else []) ++
  (if normalized ∈ commonCompromised then
    ["Toto heslo je v lokálním seznamu známých kompromitovaných hesel."] else [])

/-- `verify_password`: whether the password is right, and whether its hash is to be replaced. -/
def verifyPassword (storedHash password : String) : Bool × Bool :=
  if ph.verify storedHash password then (true, ph.checkNeedsRehash storedHash) else (false, false)

/-- A hash verifies the password it was made from and no other. -/
def Sound : Prop := ∀ p salt q, ph.verify (ph.hash p salt) q = true ↔ q = p

end PasswordHasher

/-! ### Rows -/

/-- An instant, in microseconds. -/
abbrev Instant := ℤ

structure AdministratorAccount where
  username : String
  state : String := "active"
  failedLoginCount : ℕ := 0
  restrictedUntil : Option Instant := none
  lastLoginAt : Option Instant := none

structure AccountCredential where
  passwordHash : String
  changedAt : Instant

/-- How many passwords have been set: by the deployment, and by a change or a reset. -/
structure Epoch where
  synchronized : ℕ := 0
  set : ℕ := 0
deriving DecidableEq

/-- A row of `auth_session`.  The epoch is not a column: it is that of the credential on which
the login behind the session relied. -/
structure AuthSession where
  id : Uuid
  secretDigest : String
  csrfDigest : String
  createdAt : Instant
  lastActivityAt : Instant
  expiresAt : Instant
  absoluteExpiresAt : Instant
  revokedAt : Option Instant := none
  revokeReason : Option String := none
  epoch : Epoch

structure SecurityToken where
  id : Uuid
  purpose : String
  tokenDigest : String
  expiresAt : Instant
  usedAt : Option Instant := none
  invalidatedAt : Option Instant := none

/-- The committed rows of the account.  The last three fields are not stored: the epoch of the
credential, the password that was set last, and the session that was spared then. -/
structure Store where
  account : AdministratorAccount
  credential : Option AccountCredential
  sessions : Table AuthSession.id
  tokens : Table SecurityToken.id
  epoch : Epoch := {}
  lastSet : Option String := none
  spared : Option Uuid := none

/-- What a statement can lock. -/
inductive RowLock where
  | account
  | credential
  | session (id : Uuid)
  | token (id : Uuid)
  /-- `pg_advisory_xact_lock` of the audit chain. -/
  | auditChain
deriving DecidableEq

/-! ### Requests -/

/-- A login request, with the readings of the clock and the random values that it uses. -/
structure Login where
  username : String
  password : String
  now : Instant
  failedAt : Instant
  createdAt : Instant
  salt : ℕ
  sessionId : Uuid
  secretDigest : String
  csrfDigest : String
  idleMinutes : ℤ := 30

structure ChangePassword where
  cookieDigest : String
  csrfDigest : String
  idleMinutes : ℤ := 30
  currentPassword : String
  newPassword : String
  resolvedAt : Instant
  now : Instant
  salt : ℕ

structure CompleteReset where
  tokenDigest : String
  newPassword : String
  now : Instant
  salt : ℕ

structure SynchronizePassword where
  password : String
  now : Instant
  salt : ℕ

/-- The activity of a session that `resolve_session` records. -/
structure Activity where
  sessionId : Uuid
  lastActivityAt : Instant
  expiresAt : Instant
deriving DecidableEq

/-- Which operation sets a password. -/
inductive Origin where
  /-- `change_password`, by a session whose activity is recorded. -/
  | change (activity : Activity)
  | reset (tokenId : Uuid)
  | synchronize
deriving DecidableEq

/-- A password that is about to be set. -/
structure Setting where
  origin : Origin
  password : String
  now : Instant
  salt : ℕ

/-- What `authenticate` has come to. -/
inductive LoginOutcome where
  /-- Refused; a failed attempt changes the account. -/
  | denied (account : Option AdministratorAccount)
  /-- Accepted on a credential of the given epoch. -/
  | accepted (account : AdministratorAccount) (rehash : Bool) (epoch : Epoch)

/-- Where a transaction stands: its next statement, with what it has read and written. -/
inductive Point where
  | login (a : Login)
  | loginLock (a : Login)
  | loginCredential (a : Login) (account : AdministratorAccount)
  | loginAudit (a : Login) (outcome : LoginOutcome)
  | loginRehash (a : Login) (outcome : LoginOutcome)
  | loginCommit (a : Login) (outcome : LoginOutcome)
  | change (a : ChangePassword)
  | changeLock (a : ChangePassword) (sessionId : Uuid)
  | changeCredential (a : ChangePassword) (activity : Activity)
  | reset (a : CompleteReset)
  | resetLock (a : CompleteReset) (tokenId : Uuid)
  | resetCredential (a : CompleteReset) (tokenId : Uuid)
  | synchronize (a : SynchronizePassword)
  | synchronizeLock (a : SynchronizePassword)
  | synchronizeCredential (a : SynchronizePassword)
  | scan (w : Setting)
  | revoke (w : Setting) (seen : ℕ) (todo marked : List Uuid)
  | publish (w : Setting) (seen : ℕ) (marked : List Uuid)
  /-- Refused with a durable exception, after the session of the request has been touched. -/
  | touch (activity : Activity)
  | refused

namespace IdentityService

variable (ph : PasswordHasher)

/-! ### Login -/

def microsPerSecond : ℤ := 1000000

/-- `restriction_until`. -/
def restrictionUntil (now : Instant) (failedCount : ℕ) : Option Instant :=
  if failedCount < 5 then none
  else some (now + min 3600 (30 * 2 ^ min (failedCount - 5) 7) * microsPerSecond)

/-- `authenticate` with the account and its credential at hand. -/
def verifyLogin (a : Login) (account : AdministratorAccount) (credential : AccountCredential)
    (epoch : Epoch) : LoginOutcome :=
  let (valid, rehash) := ph.verifyPassword credential.passwordHash a.password
  if valid then
    .accepted { account with
      failedLoginCount := 0, restrictedUntil := none, lastLoginAt := some a.now } rehash epoch
  else
    .denied (some { account with
      failedLoginCount := account.failedLoginCount + 1
      restrictedUntil := restrictionUntil a.failedAt (account.failedLoginCount + 1) })

/-- The new row of `create_session`. -/
def newSession (a : Login) (epoch : Epoch) : AuthSession :=
  { id := a.sessionId
    secretDigest := a.secretDigest
    csrfDigest := a.csrfDigest
    createdAt := a.createdAt
    lastActivityAt := a.createdAt
    expiresAt := a.createdAt + a.idleMinutes * 60 * microsPerSecond
    absoluteExpiresAt := a.createdAt + 12 * 3600 * microsPerSecond
    epoch := epoch }

/-- The insertion of `create_session`, or `none` for an idle time that it rejects or a
violated constraint. -/
def createSession (a : Login) (epoch : Epoch) (sessions : Table AuthSession.id) :
    Option (Table AuthSession.id) :=
  if 10 ≤ a.idleMinutes ∧ a.idleMinutes ≤ 120 ∧
      sessions.rows.all (fun r => r.secretDigest ≠ a.secretDigest) then
    sessions.insert? (newSession a epoch)
  else none

/-- What a login commits: a denied one the failed attempt, as its exception is durable, an
accepted one the account, the upgraded hash and the session. -/
def publishLogin (a : Login) (outcome : LoginOutcome) (store : Store) : Option Store :=
  match outcome with
  | .denied none => some store
  | .denied (some account) => some { store with account := account }
  | .accepted account rehash epoch =>
    (createSession a epoch store.sessions).map fun sessions =>
      { store with
        account := account
        credential := if rehash then some ⟨ph.hash a.password a.salt, a.now⟩ else store.credential
        sessions := sessions }

/-! ### Setting a password -/

/-- `resolve_session` and the guard of the request, on the locked row. -/
def resolveSession (a : ChangePassword) (store : Store) (sessionId : Uuid) : Option Activity :=
  (store.sessions.find? sessionId).bind fun record =>
    if record.revokedAt.isNone ∧ a.resolvedAt < record.expiresAt ∧
        a.resolvedAt < record.absoluteExpiresAt ∧ store.account.state = "active" ∧
        record.csrfDigest = a.csrfDigest then
      some ⟨record.id, a.resolvedAt,
        min (a.resolvedAt + a.idleMinutes * 60 * microsPerSecond) record.absoluteExpiresAt⟩
    else none

/-- `change_password` on the locked credential. -/
def verifyChange (a : ChangePassword) (activity : Activity) (store : Store) : Point :=
  match store.credential with
  | none => .refused
  | some credential =>
    if (ph.verifyPassword credential.passwordHash a.currentPassword).1 = false then .touch activity
    else if (ph.verifyPassword credential.passwordHash a.newPassword).1 = true then .refused
    else .scan ⟨.change activity, a.newPassword, a.now, a.salt⟩

/-- `complete_reset` on the locked token. -/
def usableToken (a : CompleteReset) (store : Store) (tokenId : Uuid) : Bool :=
  (store.tokens.find? tokenId).any fun record =>
    record.usedAt.isNone ∧ record.invalidatedAt.isNone ∧ a.now < record.expiresAt

/-- The session that a setting spares. -/
def sparedSession : Origin → Option Uuid
  | .change activity => some activity.sessionId
  | _ => none

/-- `revoke_reason`. -/
def revokeReason : Origin → String
  | .change _ => "password_changed"
  | .reset _ => "password_reset"
  | .synchronize => "deployment_password_sync"

/-- The `where` clause of the revocation. -/
def revocable (w : Setting) (r : AuthSession) : Bool :=
  r.revokedAt.isNone ∧ sparedSession w.origin ≠ some r.id

/-- The row of a session with its activity. -/
def touchSession (activity : Activity) (r : AuthSession) : AuthSession :=
  if r.id = activity.sessionId then
    { r with lastActivityAt := activity.lastActivityAt, expiresAt := activity.expiresAt }
  else r

/-- The row of a session after the commit of a setting that has marked the given rows. -/
def settleSession (w : Setting) (marked : List Uuid) (r : AuthSession) : AuthSession :=
  if r.id ∈ marked then { r with revokedAt := some w.now, revokeReason := some (revokeReason w.origin) }
  else match w.origin with
    | .change activity => touchSession activity r
    | _ => r

/-- The row of a token after the commit of a setting. -/
def settleToken (w : Setting) (t : SecurityToken) : SecurityToken :=
  if w.origin = .reset t.id then { t with usedAt := some w.now } else t

/-- The account after the commit of a setting. -/
def settleAccount (w : Setting) (account : AdministratorAccount) : AdministratorAccount :=
  if w.origin = .synchronize then { account with failedLoginCount := 0, restrictedUntil := none }
  else account

/-- The epoch that a setting opens. -/
def nextEpoch (e : Epoch) : Origin → Epoch
  | .synchronize => { e with synchronized := e.synchronized + 1 }
  | _ => { e with set := e.set + 1 }

theorem touchSession_id (activity : Activity) (r : AuthSession) :
    (touchSession activity r).id = r.id := by
  unfold touchSession
  split <;> rfl

theorem settleSession_id (w : Setting) (marked : List Uuid) (r : AuthSession) :
    (settleSession w marked r).id = r.id := by
  unfold settleSession
  split
  · rfl
  split
  · exact touchSession_id _ _
  · rfl

theorem settleToken_id (w : Setting) (t : SecurityToken) : (settleToken w t).id = t.id := by
  unfold settleToken
  split <;> rfl

/-- What a setting commits. -/
def publishSetting (w : Setting) (marked : List Uuid) (store : Store) : Store :=
  { account := settleAccount w store.account
    credential := some ⟨ph.hash w.password w.salt, w.now⟩
    sessions := store.sessions.mapRows (settleSession w marked) (settleSession_id w marked)
    tokens := store.tokens.mapRows (settleToken w) (settleToken_id w)
    epoch := nextEpoch store.epoch w.origin
    lastSet := some w.password
    spared := sparedSession w.origin }

/-- The commit of a request whose session has been touched. -/
def publishTouch (activity : Activity) (store : Store) : Store :=
  { store with sessions := store.sessions.mapRows (touchSession activity) (touchSession_id activity) }

/-! ### The programs -/

/-- The next statement of a transaction. -/
def stmt : Point → Stmt RowLock Store Point
  | .login a => .read fun store =>
    if store.account.username = a.username then .loginLock a else .loginAudit a (.denied none)
  | .loginLock a => .lock .account fun store =>
    if store.account.restrictedUntil.any (fun u => a.now < u) then .loginAudit a (.denied none)
    else .loginCredential a store.account
  | .loginCredential a account => .read fun store =>
    match store.credential with
    | none => .refused
    | some credential => .loginAudit a (verifyLogin ph a account credential store.epoch)
  | .loginAudit a outcome => .lock .auditChain fun _ =>
    match outcome with
    | .accepted _ true _ => .loginRehash a outcome
    | _ => .loginCommit a outcome
  | .loginRehash a outcome => .lock .credential fun _ => .loginCommit a outcome
  | .loginCommit a outcome => .commit (publishLogin ph a outcome)
  | .change a => .read fun store =>
    match (store.sessions.select fun r => r.secretDigest = a.cookieDigest).head? with
    | none => .refused
    | some record => .changeLock a record.id
  | .changeLock a sessionId => .lock (.session sessionId) fun store =>
    match resolveSession a store sessionId with
    | none => .refused
    | some activity =>
      if ph.passwordPolicyErrors a.newPassword = [] then .changeCredential a activity else .refused
  | .changeCredential a activity => .lock .credential (verifyChange ph a activity)
  | .reset a => .read fun store =>
    match (store.tokens.select fun t =>
        t.tokenDigest = a.tokenDigest ∧ t.purpose = "password_reset").head? with
    | some record =>
      if ph.passwordPolicyErrors a.newPassword = [] then .resetLock a record.id else .refused
    | none => .refused
  | .resetLock a tokenId => .lock (.token tokenId) fun store =>
    if usableToken a store tokenId then .resetCredential a tokenId else .refused
  | .resetCredential a tokenId => .lock .credential fun store =>
    if store.credential.isSome then .scan ⟨.reset tokenId, a.newPassword, a.now, a.salt⟩ else .refused
  | .synchronize a => .read fun store =>
    if ph.passwordPolicyErrors a.password = [] ∧ store.account.username = "Karmar78" then
      .synchronizeLock a
    else .refused
  | .synchronizeLock a => .lock .account fun _ => .synchronizeCredential a
  | .synchronizeCredential a => .lock .credential fun store =>
    if store.credential.isSome then .scan ⟨.synchronize, a.password, a.now, a.salt⟩ else .refused
  | .scan w => .read fun store =>
    .revoke w store.sessions.rows.length ((store.sessions.select (revocable w)).map AuthSession.id) []
  | .revoke w seen [] marked => .lock .auditChain fun _ => .publish w seen marked
  | .revoke w seen (sessionId :: todo) marked => .lock (.session sessionId) fun store =>
    -- the row is updated if it still satisfies the condition in its last committed version
    if (store.sessions.find? sessionId).any (revocable w) then
      .revoke w seen todo (sessionId :: marked)
    else .revoke w seen todo marked
  | .publish w _ marked => .commit fun store => some (publishSetting ph w marked store)
  | .touch activity => .commit fun store => some (publishTouch activity store)
  | .refused => .commit some

/-- A transaction begins with a request. -/
def initial : Point → Bool
  | .login _ | .change _ | .reset _ | .synchronize _ => true
  | _ => false

/-- The transactions of the account, interleaved. -/
abbrev step := ReadCommitted.step (stmt ph) initial

/-- The rows that a transaction owns. -/
inductive Holds : Point → RowLock → Prop where
  | loginCredential (a : Login) (account : AdministratorAccount) :
      Holds (.loginCredential a account) .account
  | loginAudit (a : Login) (account : AdministratorAccount) (rehash : Bool) (epoch : Epoch) :
      Holds (.loginAudit a (.accepted account rehash epoch)) .account
  | loginRehash (a : Login) (account : AdministratorAccount) (rehash : Bool) (epoch : Epoch) :
      Holds (.loginRehash a (.accepted account rehash epoch)) .account
  | loginCommit (a : Login) (account : AdministratorAccount) (rehash : Bool) (epoch : Epoch) :
      Holds (.loginCommit a (.accepted account rehash epoch)) .account
  | synchronizeCredential (a : SynchronizePassword) : Holds (.synchronizeCredential a) .account
  | scan (w : Setting) : Holds (.scan w) .credential
  | scanAccount (w : Setting) (h : w.origin = .synchronize) : Holds (.scan w) .account
  | revoke (w : Setting) (seen : ℕ) (todo marked : List Uuid) :
      Holds (.revoke w seen todo marked) .credential
  | revokeAccount (w : Setting) (seen : ℕ) (todo marked : List Uuid) (h : w.origin = .synchronize) :
      Holds (.revoke w seen todo marked) .account
  | publish (w : Setting) (seen : ℕ) (marked : List Uuid) : Holds (.publish w seen marked) .credential
  | publishAccount (w : Setting) (seen : ℕ) (marked : List Uuid) (h : w.origin = .synchronize) :
      Holds (.publish w seen marked) .account

/-! ### A concrete account -/

/-- Current hashes are readable; one outdated hash of one password is left. -/
def sampleHasher : PasswordHasher where
  hash p _ := "argon2id:" ++ p
  verify storedHash password :=
    storedHash = "argon2id:" ++ password ∨ (storedHash = "outdated" ∧ password = "stare heslo")
  checkNeedsRehash storedHash := storedHash = "outdated"
  casefold s := s

theorem sampleHasher_sound : sampleHasher.Sound := by
  intro p salt q
  have hne : ("argon2id:" ++ p) ≠ "outdated" := by
    intro h
    have := congrArg (fun s : String => s.toList.head?) h
    simp at this
  simp only [sampleHasher, hne, false_and, or_false, decide_eq_true_eq]
  constructor
  · intro h
    exact (String.append_right_inj _).mp h.symm
  · rintro rfl
    rfl

/-- An account with the outdated hash, one open session and one reset token. -/
def sampleStore : Store where
  account := { username := "Karmar78" }
  credential := some ⟨"outdated", 0⟩
  sessions := .singleton
    { id := 100, secretDigest := "cookie", csrfDigest := "csrf", createdAt := 0, lastActivityAt := 0
      expiresAt := 1000000000, absoluteExpiresAt := 1000000000, epoch := {} }
  tokens := .singleton
    { id := 7, purpose := "password_reset", tokenDigest := "token", expiresAt := 1000000000 }

/-- No transaction is in flight. -/
def sampleState : State RowLock Store Point := ⟨sampleStore, fun _ => none, fun _ => none⟩

/-- A login with the old password. -/
def sampleLogin : Login :=
  { username := "Karmar78", password := "stare heslo", now := 1000, failedAt := 1001
    createdAt := 1002, salt := 1, sessionId := 101, secretDigest := "cookie of 101"
    csrfDigest := "csrf of 101" }

def sampleReset : CompleteReset := ⟨"token", "nove heslo", 2000, 2⟩

/-- The login up to the point where it has read the credential. -/
def loginReads (i : ℕ) : List (Event Point) :=
  [.start i (.login sampleLogin), .exec i, .exec i, .exec i]

/-- A transaction that starts and executes the given number of statements. -/
def runWhole (i : ℕ) (t : Point) (statements : ℕ) : List (Event Point) :=
  .start i t :: List.replicate statements (.exec i)

end IdentityService

end KajovoDagmar
