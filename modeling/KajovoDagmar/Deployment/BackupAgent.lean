import KajovoDagmar.Audit.Transactions
import KajovoDagmar.Jobs.Service
import KajovoDagmar.Library.Connection
import KajovoDagmar.Library.PythonText
import KajovoDagmar.Library.Runs

/-! # The backup agent

The agent claims a job in a transaction of its own, works on it, and writes its outcome in a later one.
Its functions are programs over one connection; the commands that they run beside it, and the time of
each statement, are what happens to a step of the agent. -/

namespace KajovoDagmar.BackupAgent

open Connection (Conn Outcome)

/-- A backup as `pgbackrest info` lists it. -/
structure BackrestBackup where
  label : String
  start : DateTime
  size : ℤ

/-- What a command answers: its output, or the backups of the stanza. -/
structure Answer where
  output : String := ""
  backups : List BackrestBackup := []

abbrev Program (α : Type) := Connection.Program Db DateTime Answer α

variable (rt : Runtime)

def command : Program Answer := Connection.Program.check

/-- A command whose failure is kept for a `finally`. -/
def attempt : Program (Except String Answer) := .command fun r => .done r

def commit : Program PUnit := .commit (.done ⟨⟩)

/-- `backrest_info`, and its list of backups. -/
def backrestInfo : Program (List BackrestBackup) := do
  let answer ← command
  pure answer.backups

def backupByLabel (backups : List BackrestBackup) (label : Option String) : Program BackrestBackup :=
  let matching : List BackrestBackup := match label.filter (· ≠ "") with
    | some label => backups.filter fun b => b.label = label
    | none => backups
  match matching.getLast? with
  | some backup => pure backup
  | none => .raise "RuntimeError"

/-! ### Claiming -/

def backupKinds : List String := ["backup_create", "backup_verify", "backup_restore_test"]

/-- The job that `claim` selects. -/
def candidate (now : DateTime) (db : Db) : Option BackgroundJob :=
  ((db.backgroundJobs.select (JobService.claimable now backupKinds)).insertionSort fun a b =>
    JobService.claimOrder a b = true).head?

/-- A row of `background_job`, written back. -/
def putJob (job : BackgroundJob) (db : Db) : Db := { db with backgroundJobs := db.backgroundJobs.put job }

/-- The `UPDATE … RETURNING` of `claim`. -/
def takeCandidate (now : DateTime) (seen : Db) : Db → Db :=
  match candidate now seen with
  | none => id
  | some job => putJob (JobService.claimed "backup-agent" now job)

def claim : Program (Option BackgroundJob) :=
  .execute takeCandidate fun now seen =>
    .commit (.done ((candidate now seen).map (JobService.claimed "backup-agent" now)))

/-! ### Work -/

/-- `UPDATE backup_record … WHERE id = %s`. -/
def setRecord (recordId : Uuid) (f : BackupRecord → BackupRecord) (db : Db) : Db :=
  match db.backupRecords.find? recordId with
  | none => db
  | some row => { db with backupRecords := db.backupRecords.put (f row) }

/-- `SELECT … FROM backup_record WHERE id = %s FOR UPDATE`. -/
def selectRecord (recordId : Uuid) : Program (Option BackupRecord) := do
  let (_, db) ← .query
  pure (db.backupRecords.find? recordId)

/-- The backup that is made when there is none since the request. -/
def makeBackup : Program BackrestBackup := do
  let _ ← command
  let _ ← command
  let info ← backrestInfo
  backupByLabel info none

/-- The last backup that was begun after the request, or a new one. -/
def backupSince (startedAt : DateTime) : Program BackrestBackup := do
  let info ← backrestInfo
  let candidates := info.filter fun b => (startedAt.addMicros (-5000000)).le b.start
  match candidates.getLast? with
  | some backup => pure backup
  | none => makeBackup

def createBackup (recordId : Uuid) : Program (List (String × Json)) := do
  let row ← selectRecord recordId
  match row with
  | none => .raise "RuntimeError"
  | some row => do
    .update fun _ => setRecord recordId fun r => { r with state := "running", errorCode := none }
    commit
    let backup ← backupSince row.startedAt
    let _ ← command
    let manifest ← command
    .update fun now => setRecord recordId fun r => { r with
      state := "completed"
      completedAt := some now
      verifiedAt := some now
      backupLabel := some backup.label
      manifestDigest := some (rt.sha256 manifest.output)
      sizeBytes := some backup.size
      errorCode := none
      version := r.version + 1 }
    pure [("label", .str backup.label), ("size_bytes", .int backup.size)]

/-- The label of a record, if it is neither missing nor empty. -/
def labelOf (row : Option BackupRecord) : Option String :=
  (row.bind BackupRecord.backupLabel).filter (· ≠ "")

def verifyBackup (recordId : Uuid) : Program (List (String × Json)) := do
  let row ← selectRecord recordId
  match labelOf row with
  | none => .raise "RuntimeError"
  | some label => do
    let _ ← command
    let info ← backrestInfo
    let _ ← backupByLabel info (some label)
    .update fun now => setRecord recordId fun r => { r with
      state := "completed"
      verifiedAt := some now
      errorCode := none
      version := r.version + 1 }
    pure [("label", .str label)]

/-- From the start of the restored server on: waiting until it is ready, and asking it for its identity. -/
def identify : Program (Except String String) := do
  let ready ← attempt
  match ready with
  | .error code => pure (.error code)
  | .ok _ => do
    let answer ← attempt
    match answer with
    | .error code => pure (.error code)
    | .ok answer =>
      let result := PythonText.strip answer.output
      if "v0021:".toList.isPrefixOf result.toList then pure (.ok result) else pure (.error "RuntimeError")

/-- The restored server is started, identified and, whatever has happened, stopped. -/
def restoredIdentity : Program String := do
  let _ ← command
  let identity ← identify
  let stopped ← attempt
  match stopped, identity with
  | .error code, _ => .raise code
  | .ok _, .error code => .raise code
  | .ok _, .ok result => pure result

/-- `restore_test`; clearing the directory, restoring into it and making that of the socket are a
command each. -/
def restoreTest (recordId : Uuid) : Program (List (String × Json)) := do
  let row ← selectRecord recordId
  match labelOf row with
  | none => .raise "RuntimeError"
  | some label => do
    let info ← backrestInfo
    let _ ← backupByLabel info (some label)
    let _ ← command
    let _ ← command
    let _ ← command
    let result ← restoredIdentity
    .update fun now => setRecord recordId fun r => { r with
      state := "completed"
      restoreTestedAt := some now
      errorCode := none
      version := r.version + 1 }
    pure [("label", .str label), ("instance", .str result)]

/-! ### Outcomes -/

/-- `UPDATE background_job … WHERE id = %s`. -/
def setJob (jobId : Uuid) (f : BackgroundJob → BackgroundJob) (db : Db) : Db :=
  match db.backgroundJobs.find? jobId with
  | none => db
  | some row => putJob (f row) db

/-- The `INSERT` of `append_audit`. -/
def insertEvent (event : ℕ → AuditEvent) (db : Db) : Db :=
  let id := (AuditService.latest db.auditEvents.rows).elim 1 fun e => e.id + 1
  match db.auditEvents.insert? (event id) with
  | none => db
  | some events => { db with auditEvents := events }

def appendAudit (eventType result : String) (targetId : Uuid) (correlationId : Option String)
    (details : List (String × Json)) : Program PUnit := do
  let _ ← .query
  let (occurredAt, db) ← .query
  let previousHash := (AuditService.latest db.auditEvents.rows).map AuditEvent.eventHash
  .update fun _ => insertEvent fun id =>
    auditRow rt id occurredAt eventType result targetId correlationId details previousHash

def complete (job : BackgroundJob) (recordId : Uuid) (details : List (String × Json)) : Program PUnit := do
  .update fun now => setJob job.id (JobService.completed · now)
  appendAudit rt (job.kind ++ ".completed") "success" recordId job.correlationId details
  commit

/-- The attempts are used up. -/
def terminal (job : BackgroundJob) : Bool := job.attempts ≥ job.maxAttempts

def failedState (job : BackgroundJob) : String := if terminal job then "failed" else "queued"

def fail (job : BackgroundJob) (recordId : Uuid) (code : String) : Program PUnit := do
  .update fun now => setJob job.id fun r => { r with
    state := failedState job
    availableAt := now.addMicros (min 3600 (2 ^ job.attempts * 10) * 1000000)
    lockedAt := none
    lockedBy := none
    lastErrorCode := some code }
  .update fun _ => setRecord recordId fun r => { r with
    state := if job.kind = "backup_create" then failedState job else r.state
    errorCode := some code
    version := r.version + 1 }
  appendAudit rt (job.kind ++ ".failed") "failure" recordId job.correlationId
    [("error_code", .str code), ("terminal", .bool (terminal job))]
  commit

/-- The work on a job, by its kind. -/
def work (job : BackgroundJob) (recordId : Uuid) : Program (List (String × Json)) :=
  if job.kind = "backup_create" then createBackup rt recordId
  else if job.kind = "backup_verify" then verifyBackup recordId
  else restoreTest recordId

/-- The body of the `try` of `main`. -/
def perform (job : BackgroundJob) (recordId : Uuid) : Program PUnit := do
  let details ← work rt job recordId
  complete rt job recordId details

/-! ### The agent -/

/-- Where the agent is in `main`. -/
inductive Phase where
  /-- At the start of the process, or of another turn of its outer loop. -/
  | connecting
  | claiming (p : Program (Option BackgroundJob))
  | trying (job : BackgroundJob) (recordId : Uuid) (p : Program PUnit)
  /-- In the handler of an exception, at the report of it, with a connection that may be lost. -/
  | handling (job : BackgroundJob) (recordId : Uuid) (code : String) (lost : Bool)
  | failing (p : Program PUnit)

/-- A backup job. -/
def IsBackup (job : BackgroundJob) : Prop := job.kind ∈ backupKinds

/-- What other sessions commit meanwhile: they leave the backup jobs that are there, and those that they
add are queued. -/
structure Others where
  change : Db → Db
  kept : ∀ db, ∀ job ∈ db.backgroundJobs, IsBackup job → job ∈ (change db).backgroundJobs
  added : ∀ db, ∀ job ∈ (change db).backgroundJobs, IsBackup job →
    job ∈ db.backgroundJobs ∨ job.state = "queued" ∧ job.attempts = 0 ∧ 0 < job.maxAttempts

inductive Event where
  /-- What happens to the next step of the agent. -/
  | step (o : Outcome DateTime Answer)
  /-- The process stops, after its commit has been applied if it is at one and `applied`. -/
  | crash (applied : Bool)
  | others (o : Others)

/-- The agent and its database, with the number of claims of each job that have been committed. -/
structure Agent where
  conn : Conn Db
  phase : Phase := .connecting
  claims : Uuid → ℕ := fun _ => 0

/-- The agent is about to claim a job, or to connect for that. -/
def Agent.AboutToClaim (s : Agent) : Prop := s.phase = .connecting ∨ s.phase = .claiming claim

/-- The job whose claim the agent is about to commit. -/
def Phase.claimed? : Phase → Option BackgroundJob
  | .claiming (.commit (.done job)) => job
  | _ => none

/-- What a step applies to the database. -/
def applied : Outcome DateTime Answer → Bool
  | .ok _ _ => true
  | .refused _ => false
  | .lost applied _ => applied

/-- The claims after a commit that was applied or not. -/
def Agent.counted (s : Agent) (applied : Bool) : Uuid → ℕ :=
  match s.phase.claimed? with
  | some job => if applied then Function.update s.claims job.id (s.claims job.id + 1) else s.claims
  | none => s.claims

/-- The database after the connection is lost at the next statement. -/
def lose {α : Type} (p : Program α) (applied : Bool) (c : Conn Db) : Conn Db :=
  match p.advance (.lost applied "") c with
  | some (_, c') => c'.rollback
  | none => c.rollback

/-- The database after the process has stopped. -/
def Agent.stopped (s : Agent) (applied : Bool) : Conn Db :=
  match s.phase with
  | .connecting => s.conn.rollback
  | .claiming p => lose p applied s.conn
  | .trying _ _ p => lose p applied s.conn
  | .handling _ _ _ _ => s.conn.rollback
  | .failing p => lose p applied s.conn

/-- After the commit of a claim. -/
def claimedPhase : Option BackgroundJob → Phase
  | none => .claiming claim
  | some job => match JobService.payloadUuid rt "backup_record_id" job.payload with
    | .ok recordId => .trying job recordId (perform rt job recordId)
    -- the exception ends the process
    | .error _ => .connecting

/-- The next step of `main`. -/
def Agent.advance (s : Agent) (o : Outcome DateTime Answer) : Option Agent :=
  match s.phase with
  | .connecting =>
    match o with
    | .ok _ _ => some { s with conn := s.conn.rollback, phase := .claiming claim }
    | _ => some s
  | .claiming p =>
    (p.advance o s.conn).map fun (r, c) =>
      match r with
      | .next (.done job) => { conn := c, phase := claimedPhase rt job, claims := s.counted (applied o) }
      | .next p => { s with conn := c, phase := .claiming p }
      | .raised _ _ => { conn := c.rollback, claims := s.counted (applied o) }
  | .trying job recordId p =>
    (p.advance o s.conn).map fun (r, c) =>
      match r with
      | .next (.done _) => { s with conn := c, phase := .claiming claim }
      | .next p => { s with conn := c, phase := .trying job recordId p }
      | .raised code lost => { s with conn := c, phase := .handling job recordId code lost }
  | .handling job recordId code lost =>
    match o, lost with
    | .ok _ (.ok _), false =>
      some { s with conn := s.conn.rollback, phase := .failing (fail rt job recordId code) }
    -- the report or `rollback` raises
    | _, _ => some { s with conn := s.conn.rollback, phase := .connecting }
  | .failing p =>
    (p.advance o s.conn).map fun (r, c) =>
      match r with
      | .next (.done _) => { s with conn := c, phase := .claiming claim }
      | .next p => { s with conn := c, phase := .failing p }
      | .raised _ _ => { s with conn := c.rollback, phase := .connecting }

def step (s : Agent) : Event → Option Agent
  | .step o => s.advance rt o
  | .crash applied => some { conn := s.stopped applied, claims := s.counted applied }
  | .others o => some { s with conn := { s.conn with committed := o.change s.conn.committed } }

end KajovoDagmar.BackupAgent
