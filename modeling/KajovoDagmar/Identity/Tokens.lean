import KajovoDagmar.Identity.Service
import KajovoDagmar.Library.Sha256

/-! # The tokens of the account

The transactions that create the account and that issue and consume its tokens: `initialize`, the job behind
`process_password_reset`, `begin_email_change` and `issue_ticket`, and `complete_reset`,
`complete_email_verification` and `consume_ticket`.  Each is a program of statements under READ COMMITTED: `FOR
UPDATE` and the bulk `UPDATE` that invalidates the earlier tokens wait for the rows and see them as last committed,
and the audit chain has an advisory lock of its own.  The three issuers share the bulk `UPDATE` and the insertion,
and the three consumers the check of the locked token, so each of these is one part of the program with the purpose
as a parameter.  Of `complete_reset` these are the statements on the token and the credential; its revocation of
the sessions is in `IdentityService`. -/

namespace KajovoDagmar.Tokens

open ReadCommitted

/-! ### Rows -/

inductive Purpose where
  | passwordReset
  | emailVerify
  | realtimeTicket
deriving DecidableEq

def Purpose.text : Purpose → String
  | .passwordReset => "password_reset"
  | .emailVerify => "email_verify"
  | .realtimeTicket => "realtime_ticket"

inductive EmailState where
  | notSet
  | pending
  | verified
deriving DecidableEq

structure SystemInstance where
  state : String := "uninitialized"
  initializationSecretDigest : String
  initializedAt : Option Instant := none
  initializationSecretConsumedAt : Option Instant := none

structure AdministratorAccount where
  id : Uuid
  username : String
  state : String := "active"

structure AccountCredential where
  accountId : Uuid
  passwordHash : String
  changedAt : Instant

structure AdministratorProfile where
  accountId : Uuid
  displayName : String
  email : Option String := none
  pendingEmail : Option String := none
  emailState : EmailState := .notSet
  emailVerifiedAt : Option Instant := none
  version : ℤ := 1
deriving DecidableEq

structure SecurityToken where
  id : Uuid
  accountId : Uuid
  purpose : Purpose
  tokenDigest : String
  targetDigest : Option String := none
  expiresAt : Instant
  usedAt : Option Instant := none
  invalidatedAt : Option Instant := none
deriving DecidableEq

/-- The committed rows. -/
structure Store where
  systemInstance : Option SystemInstance
  accounts : Table AdministratorAccount.id
  credentials : Table AccountCredential.accountId
  profiles : Table AdministratorProfile.accountId
  tokens : Table SecurityToken.id

/-- What a statement can lock. -/
inductive RowLock where
  | systemInstance
  | account (id : Uuid)
  | credential (accountId : Uuid)
  | profile (accountId : Uuid)
  | token (id : Uuid)
  | session (id : Uuid)
  /-- `pg_advisory_xact_lock` of the audit chain. -/
  | auditChain
deriving DecidableEq

/-! ### Requests -/

/-- The password hasher, and the digests of `hashlib.sha256`. -/
structure Hashes where
  hasher : PasswordHasher
  sha256 : String → String

namespace Hashes

variable (hs : Hashes)

/-- `token_digest`. -/
def tokenDigest (token purpose : String) : String := hs.sha256 ("kajovodagmar:" ++ purpose ++ ":" ++ token)

/-- `email.strip().casefold()`. -/
def normalize (email : String) : String := hs.hasher.casefold (PythonText.strip email)

end Hashes

/-- A request to initialise the instance, with the values that it generates and the clock readings. -/
structure Initialize where
  username : String
  initializationSecret : String
  password : String
  passwordConfirmation : String
  displayName : String
  email : Option String := none
  accountId : Uuid
  salt : ℕ
  changedAt : Instant
  initializedAt : Instant
  consumedAt : Instant

/-- A token that is about to be issued. -/
structure Issue where
  purpose : Purpose
  accountId : Uuid
  /-- The normalised address of a change of the address. -/
  target : Option String := none
  tokenId : Uuid
  token : String
  invalidatedAt : Instant
  issuedAt : Instant

/-- A job `password_reset_notification`; its mail is sent, or the job is aborted. -/
structure ResetJob where
  accountId : Uuid
  tokenId : Uuid
  token : String
  invalidatedAt : Instant
  issuedAt : Instant
  mailerAvailable : Bool := true

/-- A change of the address by the session of its caller. -/
structure EmailChange where
  sessionId : Uuid
  accountId : Uuid
  email : String
  currentPassword : String
  tokenId : Uuid
  token : String
  invalidatedAt : Instant
  issuedAt : Instant

/-- A request for a ticket, by a session or by the voice service. -/
structure TicketRequest where
  sessionId : Option Uuid
  accountId : Uuid
  tokenId : Uuid
  token : String
  invalidatedAt : Instant
  issuedAt : Instant

/-- The presentation of a token, with the new password of a reset. -/
structure Presentation where
  purpose : Purpose
  token : String
  now : Instant
  newPassword : String := ""
  salt : ℕ := 0

/-- What the consumption of a token changes besides the token. -/
inductive Effect where
  | ticket
  | password (accountId : Uuid)
  | email (accountId : Uuid) (email : String)
deriving DecidableEq

/-- Where a transaction stands: its next statement, with what it has read and written. -/
inductive Point where
  | initialization (a : Initialize)
  | initializeLock (a : Initialize)
  | initializeExisting (a : Initialize)
  | initializeAudit (a : Initialize)
  | initializeCommit (a : Initialize)
  | resetJob (a : ResetJob)
  | resetProfile (a : ResetJob)
  | emailChange (a : EmailChange)
  | emailCredential (a : EmailChange)
  | emailProfile (a : EmailChange)
  | ticket (a : TicketRequest)
  | scan (w : Issue)
  | invalidate (w : Issue) (seen : ℕ) (todo marked : List Uuid)
  | issueAudit (w : Issue) (seen : ℕ) (marked : List Uuid)
  | issueCommit (w : Issue) (seen : ℕ) (marked : List Uuid)
  | present (a : Presentation)
  | presentLock (a : Presentation) (tokenId : Uuid)
  | presentCredential (a : Presentation) (tokenId accountId : Uuid)
  | presentProfile (a : Presentation) (tokenId accountId : Uuid)
  | presentAudit (a : Presentation) (tokenId : Uuid) (effect : Effect)
  | presentCommit (a : Presentation) (tokenId : Uuid) (effect : Effect)
  /-- A refusal that is written to the audit chain and committed. -/
  | denied
  | refused

variable (hs : Hashes)

/-! ### Initialisation -/

/-- `validate_passwords`. -/
def validPasswords (a : Initialize) : Bool :=
  a.password = a.passwordConfirmation ∧ hs.hasher.passwordPolicyErrors a.password a.username = []

/-- `initialize` on the locked instance. -/
def checkInstance (a : Initialize) (store : Store) : Point :=
  match store.systemInstance with
  | none => .refused
  | some row =>
    if row.state ≠ "uninitialized" ∨ row.initializationSecretConsumedAt.isSome then .refused
    else if hs.tokenDigest a.initializationSecret "initialization" ≠ row.initializationSecretDigest then .denied
    else .initializeExisting a

def newAccount (a : Initialize) : AdministratorAccount := { id := a.accountId, username := a.username }

def newCredential (a : Initialize) : AccountCredential :=
  { accountId := a.accountId, passwordHash := hs.hasher.hash a.password a.salt, changedAt := a.changedAt }

def newProfile (a : Initialize) : AdministratorProfile :=
  { accountId := a.accountId
    displayName := a.displayName
    email := a.email
    emailState := if a.email.isSome then .pending else .notSet }

/-- The instance after its initialisation. -/
def activated (a : Initialize) (row : SystemInstance) : SystemInstance :=
  { row with
    state := "active"
    initializedAt := some a.initializedAt
    initializationSecretConsumedAt := some a.consumedAt }

/-- What `initialize` commits, or `none` for a violated constraint. -/
def publishInitialize (a : Initialize) (store : Store) : Option Store :=
  if store.accounts.rows.any fun x => x.username = a.username then none
  else do
    let accounts ← store.accounts.insert? (newAccount a)
    let credentials ← store.credentials.insert? (newCredential hs a)
    let profiles ← store.profiles.insert? (newProfile a)
    some { store with
      systemInstance := store.systemInstance.map (activated a)
      accounts := accounts
      credentials := credentials
      profiles := profiles }

/-! ### Issuing a token -/

/-- How long a token is valid, in seconds. -/
def lifetime : Purpose → ℤ
  | .passwordReset => 30 * 60
  | .emailVerify => 30 * 60
  | .realtimeTicket => 60

def newToken (w : Issue) : SecurityToken :=
  { id := w.tokenId
    accountId := w.accountId
    purpose := w.purpose
    tokenDigest := hs.tokenDigest w.token w.purpose.text
    targetDigest := w.target.map hs.sha256
    expiresAt := w.issuedAt + lifetime w.purpose * IdentityService.microsPerSecond }

/-- A token that is neither used nor invalidated. -/
def SecurityToken.isOpen (t : SecurityToken) : Bool := t.usedAt.isNone ∧ t.invalidatedAt.isNone

/-- The `where` clause of the bulk invalidation. -/
def replaceable (w : Issue) (t : SecurityToken) : Bool :=
  t.accountId = w.accountId ∧ t.purpose = w.purpose ∧ t.isOpen

/-- The row of a token after the bulk invalidation of the given rows. -/
def invalidateToken (w : Issue) (marked : List Uuid) (t : SecurityToken) : SecurityToken :=
  if t.id ∈ marked then { t with invalidatedAt := some w.invalidatedAt } else t

theorem invalidateToken_id (w : Issue) (marked : List Uuid) (t : SecurityToken) :
    (invalidateToken w marked t).id = t.id := by
  unfold invalidateToken
  split <;> rfl

/-- The profile of the account, with the address that is to be verified. -/
def requestEmail (w : Issue) (profile : AdministratorProfile) : AdministratorProfile :=
  match w.target with
  | none => profile
  | some email =>
    if profile.accountId = w.accountId then
      { profile with pendingEmail := some email, emailState := .pending, version := profile.version + 1 }
    else profile

theorem requestEmail_accountId (w : Issue) (profile : AdministratorProfile) :
    (requestEmail w profile).accountId = profile.accountId := by
  unfold requestEmail
  split
  · rfl
  · split <;> rfl

/-- What an issuer commits, or `none` for a violated constraint. -/
def publishIssue (w : Issue) (marked : List Uuid) (store : Store) : Option Store :=
  if store.tokens.rows.any fun t => t.tokenDigest = hs.tokenDigest w.token w.purpose.text then none
  else
    ((store.tokens.mapRows (invalidateToken w marked) (invalidateToken_id w marked)).insert? (newToken hs w)).map
      fun tokens => { store with
        tokens := tokens
        profiles := store.profiles.mapRows (requestEmail w) (requestEmail_accountId w) }

/-- The issue of a reset token by a job. -/
def ResetJob.issue (a : ResetJob) : Issue :=
  { purpose := .passwordReset, accountId := a.accountId, tokenId := a.tokenId, token := a.token
    invalidatedAt := a.invalidatedAt, issuedAt := a.issuedAt }

/-- The issue of a token for the new address. -/
def EmailChange.issue (a : EmailChange) : Issue :=
  { purpose := .emailVerify, accountId := a.accountId, target := some (hs.normalize a.email), tokenId := a.tokenId
    token := a.token, invalidatedAt := a.invalidatedAt, issuedAt := a.issuedAt }

def TicketRequest.issue (a : TicketRequest) : Issue :=
  { purpose := .realtimeTicket, accountId := a.accountId, tokenId := a.tokenId, token := a.token
    invalidatedAt := a.invalidatedAt, issuedAt := a.issuedAt }

/-- `process_password_reset` with the profile at hand. -/
def checkRecovery (a : ResetJob) (store : Store) : Point :=
  match store.profiles.find? a.accountId with
  | none => .refused
  | some profile =>
    if profile.emailState = .verified ∧ (profile.email.filter (· ≠ "")).isSome ∧ a.mailerAvailable then .scan a.issue
    else .refused

/-- `begin_email_change` on the locked profile. -/
def checkEmail (a : EmailChange) (store : Store) : Point :=
  match store.profiles.find? a.accountId with
  | none => .refused
  | some profile =>
    if (profile.email.filter (· ≠ "")).any (fun e => hs.normalize a.email = hs.hasher.casefold e) ∧
        profile.emailState = .verified then .refused
    else .scan (a.issue hs)

/-! ### Consuming a token -/

/-- The locked token can be consumed. -/
def usable (a : Presentation) (t : SecurityToken) : Bool := t.isOpen ∧ a.now < t.expiresAt

/-- What follows the check of the locked token. -/
def checkToken (a : Presentation) (store : Store) (tokenId : Uuid) : Point :=
  match (store.tokens.find? tokenId).filter (usable a) with
  | none => .refused
  | some t =>
    match a.purpose with
    | .realtimeTicket => .presentCommit a tokenId .ticket
    | .passwordReset => .presentCredential a tokenId t.accountId
    | .emailVerify => .presentProfile a tokenId t.accountId

/-- `complete_email_verification` on the locked profile. -/
def checkTarget (a : Presentation) (store : Store) (tokenId accountId : Uuid) : Point :=
  match (store.profiles.find? accountId).bind fun p => p.pendingEmail.filter (· ≠ "") with
  | none => .refused
  | some pending =>
    if ((store.tokens.find? tokenId).bind SecurityToken.targetDigest).filter (· ≠ "") =
        some (hs.sha256 (hs.hasher.casefold pending)) then
      .presentAudit a tokenId (.email accountId pending)
    else .refused

/-- The row of a token after its consumption. -/
def useToken (a : Presentation) (tokenId : Uuid) (t : SecurityToken) : SecurityToken :=
  if t.id = tokenId then { t with usedAt := some a.now } else t

theorem useToken_id (a : Presentation) (tokenId : Uuid) (t : SecurityToken) : (useToken a tokenId t).id = t.id := by
  unfold useToken
  split <;> rfl

/-- The credential of the account with the new password. -/
def replacePassword (a : Presentation) (accountId : Uuid) (c : AccountCredential) : AccountCredential :=
  if c.accountId = accountId then
    { c with passwordHash := hs.hasher.hash a.newPassword a.salt, changedAt := a.now }
  else c

theorem replacePassword_accountId (a : Presentation) (accountId : Uuid) (c : AccountCredential) :
    (replacePassword hs a accountId c).accountId = c.accountId := by
  unfold replacePassword
  split <;> rfl

/-- The profile of the account with the verified address. -/
def verifyEmail (a : Presentation) (accountId : Uuid) (email : String) (p : AdministratorProfile) :
    AdministratorProfile :=
  if p.accountId = accountId then
    { p with
      email := some email
      pendingEmail := none
      emailState := .verified
      emailVerifiedAt := some a.now
      version := p.version + 1 }
  else p

theorem verifyEmail_accountId (a : Presentation) (accountId : Uuid) (email : String) (p : AdministratorProfile) :
    (verifyEmail a accountId email p).accountId = p.accountId := by
  unfold verifyEmail
  split <;> rfl

/-- What a consumer commits. -/
def publishUse (a : Presentation) (tokenId : Uuid) (effect : Effect) (store : Store) : Store :=
  let used := { store with tokens := store.tokens.mapRows (useToken a tokenId) (useToken_id a tokenId) }
  match effect with
  | .ticket => used
  | .password accountId => { used with
      credentials := store.credentials.mapRows (replacePassword hs a accountId)
        (replacePassword_accountId hs a accountId) }
  | .email accountId email => { used with
      profiles := store.profiles.mapRows (verifyEmail a accountId email) (verifyEmail_accountId a accountId email) }

/-! ### The programs -/

/-- The next statement of a transaction. -/
def stmt : Point → Stmt RowLock Store Point
  | .initialization a => .read fun _ => if validPasswords hs a then .initializeLock a else .refused
  | .initializeLock a => .lock .systemInstance (checkInstance hs a)
  | .initializeExisting a => .read fun store =>
    if store.accounts.rows = [] ∧ hs.hasher.passwordPolicyErrors a.password = [] then .initializeAudit a
    else .refused
  | .initializeAudit a => .lock .auditChain fun _ => .initializeCommit a
  | .initializeCommit a => .commit (publishInitialize hs a)
  | .resetJob a => .lock (.account a.accountId) fun store =>
    if (store.accounts.find? a.accountId).isSome then .resetProfile a else .refused
  | .resetProfile a => .read (checkRecovery a)
  | .emailChange a => .lock (.session a.sessionId) fun _ => .emailCredential a
  | .emailCredential a => .read fun store =>
    match store.credentials.find? a.accountId with
    | none => .refused
    | some credential =>
      if (hs.hasher.verifyPassword credential.passwordHash a.currentPassword).1 then .emailProfile a else .refused
  | .emailProfile a => .lock (.profile a.accountId) (checkEmail hs a)
  | .ticket a => .lock (a.sessionId.elim .auditChain .session) fun _ => .scan a.issue
  | .scan w => .read fun store =>
    .invalidate w store.tokens.rows.length ((store.tokens.select (replaceable w)).map SecurityToken.id) []
  | .invalidate w seen [] marked => .read fun _ =>
    if w.purpose = .emailVerify then .issueAudit w seen marked else .issueCommit w seen marked
  | .invalidate w seen (tokenId :: todo) marked => .lock (.token tokenId) fun store =>
    -- the row is updated if it still satisfies the condition in its last committed version
    if (store.tokens.find? tokenId).any (replaceable w) then .invalidate w seen todo (tokenId :: marked)
    else .invalidate w seen todo marked
  | .issueAudit w seen marked => .lock .auditChain fun _ => .issueCommit w seen marked
  | .issueCommit w _ marked => .commit (publishIssue hs w marked)
  | .present a => .read fun store =>
    if a.purpose = .passwordReset ∧ hs.hasher.passwordPolicyErrors a.newPassword ≠ [] then .refused
    else match (store.tokens.select fun t =>
        t.tokenDigest = hs.tokenDigest a.token a.purpose.text ∧ t.purpose = a.purpose).head? with
      | none => .refused
      | some t => .presentLock a t.id
  | .presentLock a tokenId => .lock (.token tokenId) fun store => checkToken a store tokenId
  | .presentCredential a tokenId accountId => .lock (.credential accountId) fun store =>
    if (store.credentials.find? accountId).isSome then .presentAudit a tokenId (.password accountId) else .refused
  | .presentProfile a tokenId accountId => .lock (.profile accountId) fun store =>
    checkTarget hs a store tokenId accountId
  | .presentAudit a tokenId effect => .lock .auditChain fun _ => .presentCommit a tokenId effect
  | .presentCommit a tokenId effect => .commit fun store => some (publishUse hs a tokenId effect store)
  | .denied => .lock .auditChain fun _ => .refused
  | .refused => .commit some

/-- A transaction begins with a request. -/
def initial : Point → Bool
  | .initialization _ | .resetJob _ | .emailChange _ | .ticket _ | .present _ => true
  | _ => false

/-- The transactions, interleaved. -/
abbrev step := ReadCommitted.step (stmt hs) initial

/-! ### A concrete account -/

def sampleHashes : Hashes := ⟨IdentityService.sampleHasher, Sha256.sha256Hex⟩

def sampleProfile : AdministratorProfile :=
  { accountId := 1, displayName := "Karel", email := some "karel@example.cz", emailState := .verified
    emailVerifiedAt := some 0 }

/-- An active account with a verified address and no tokens. -/
def sampleStore : Store where
  systemInstance := some
    { state := "active", initializationSecretDigest := sampleHashes.tokenDigest "tajemstvi" "initialization"
      initializedAt := some 0, initializationSecretConsumedAt := some 0 }
  accounts := .singleton { id := 1, username := "Karmar78" }
  credentials := .singleton { accountId := 1, passwordHash := "argon2id:heslo", changedAt := 0 }
  profiles := .singleton sampleProfile
  tokens := .empty

/-- No transaction is in flight. -/
def sampleState : State RowLock Store Point := ⟨sampleStore, fun _ => none, fun _ => none⟩

/-- A ticket for a browser session. -/
def sampleTicket (sessionId tokenId : Uuid) (token : String) (now : Instant) : TicketRequest :=
  { sessionId := some sessionId, accountId := 1, tokenId := tokenId, token := token, invalidatedAt := now
    issuedAt := now }

def sampleUse (token : String) (now : Instant) : Presentation :=
  { purpose := .realtimeTicket, token := token, now := now }

end KajovoDagmar.Tokens
