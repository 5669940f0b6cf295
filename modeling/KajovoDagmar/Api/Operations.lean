import KajovoDagmar.Audit.Service
import KajovoDagmar.Db.Sample
import KajovoDagmar.Jobs.Service
import KajovoDagmar.Library.Runs

/-! # Backup requests

`create_backup` and `enqueue_backup_action`.  The job of a request has an identifier made of its kind and
idempotency key.  A request that finds this job answers with a backup and enqueues nothing: a creation with
the backup that the job names, an action with the backup that the request names, whichever the job is about.
So a request keeps its word exactly if the job that it finds is about its backup (`served_iff`), and so does
a run of requests (`faithful_iff`).  A second job of one kind and key never comes to be. -/

namespace KajovoDagmar.Operations

variable (rt : Runtime) (uuid5 : String → Uuid)

/-! ### The requests -/

/-- `uuid5(NAMESPACE_URL, f"kajovodagmar:…")`. -/
def jobId (kind key : String) : Uuid := uuid5 ("kajovodagmar:" ++ kind ++ ":" ++ key)

def existingBackupJob (kind key : String) : Work (Option BackgroundJob) := Db.backgroundJob.find (jobId uuid5 kind key)

/-- `UUID(str(payload["backup_record_id"]))`. -/
def recordId (payload : Json) : Except Exc Uuid :=
  match payload.get? "backup_record_id" with
  | none => .error (.other "KeyError")
  | some value =>
    match rt.parseUuid (match value with
      | .str s => s
      | value => rt.pyRepr value) with
    | some id => .ok id
    | none => .error (.other "ValueError")

/-- `create_backup` when no job answers for it. -/
def newBackup (purpose key : String) (context : AuditContext) : Work BackupRecord := do
  let id ← newUuid rt
  let now ← utcNow rt
  let row : BackupRecord :=
    { id := id, backupType := "full", state := "queued", startedAt := now
      backupLabel := some ("pending:" ++ purpose) }
  Db.backupRecord.add rt row
  let _ ← JobService.enqueue rt "backup_create"
    (.obj [("backup_record_id", .str (rt.strUuid row.id)), ("purpose", .str purpose)]) 10 0 context.correlationId
    (some (jobId uuid5 "backup_create" key))
  let _ ← AuditService.append rt context "backup.requested" "success" (some "backup_record") (some row.id)
    [("purpose", .str purpose)]
  pure row

def createBackup (purpose key : String) (context : AuditContext) : Work BackupRecord := do
  let previous ← existingBackupJob uuid5 "backup_create" key
  match previous with
  | none => newBackup rt uuid5 purpose key context
  | some job => do
    let backupId ← Tx.ofExcept (recordId rt job.payload)
    let row ← Db.backupRecord.find backupId
    match row with
    | none => newBackup rt uuid5 purpose key context
    | some row => pure row

/-- `enqueue_backup_action` when no job answers for it. -/
def newAction (kind operation : String) (backupId : Uuid) (expectedVersion : ℤ) (key : String)
    (context : AuditContext) : Work BackupRecord := do
  let found ← Db.backupRecord.find backupId
  let row ← Tx.orRaise found (.domain (.notFound "Záloha nebyla nalezena."))
  Tx.raiseIf (row.version ≠ expectedVersion)
    (.domain (.conflict "Záloha se od načtení změnila; načtěte aktuální stav."))
  Tx.raiseIf (row.state ≠ "completed")
    (.domain (.conflict "Operaci lze provést pouze nad dokončenou zálohou."))
  let _ ← JobService.enqueue rt kind (.obj [("backup_record_id", .str (rt.strUuid row.id))]) 10 0
    context.correlationId (some (jobId uuid5 kind key))
  let _ ← AuditService.append rt context ("backup." ++ operation ++ "_requested") "success" (some "backup_record")
    (some row.id)
  pure row

def enqueueBackupAction (kind operation : String) (backupId : Uuid) (expectedVersion : ℤ) (key : String)
    (context : AuditContext) : Work BackupRecord := do
  let previous ← existingBackupJob uuid5 kind key
  match previous with
  | none => newAction rt uuid5 kind operation backupId expectedVersion key context
  | some _ => do
    let existing ← Db.backupRecord.find backupId
    match existing with
    | none => newAction rt uuid5 kind operation backupId expectedVersion key context
    | some row => pure row

/-! ### Calls -/

inductive Action where
  | create (purpose : { s : String // 3 ≤ s.length ∧ s.length ≤ 160 })
  | verify (backupId : Uuid) (expectedVersion : { n : ℤ // 1 ≤ n })
  | restoreTest (backupId : Uuid) (expectedVersion : { n : ℤ // 1 ≤ n })

/-- A request, in a session of its own. -/
structure Call where
  action : Action
  key : { s : String // 16 ≤ s.length ∧ s.length ≤ 128 }
  context : AuditContext
  began : DateTime

namespace Call

variable (call : Call)

def kind : String :=
  match call.action with
  | .create _ => "backup_create"
  | .verify _ _ => "backup_verify"
  | .restoreTest _ _ => "backup_restore_test"

/-- The backup that an action is about. -/
def backupId? : Option Uuid :=
  match call.action with
  | .create _ => none
  | .verify backupId _ => some backupId
  | .restoreTest backupId _ => some backupId

def work : Work BackupRecord :=
  match call.action with
  | .create purpose => createBackup rt uuid5 purpose.val call.key.val call.context
  | .verify backupId version =>
    enqueueBackupAction rt uuid5 "backup_verify" "verify" backupId version.val call.key.val call.context
  | .restoreTest backupId version =>
    enqueueBackupAction rt uuid5 "backup_restore_test" "restore_test" backupId version.val call.key.val call.context

def perform (s : Session) : Except Exc BackupRecord × Session :=
  Database.session (call.work rt uuid5) { s with began := call.began }

/-- The job under the kind and the key of the request. -/
def previous (db : Db) : Option BackgroundJob := db.backgroundJobs.find? (jobId uuid5 call.kind call.key.val)

end Call

def step (s : Session) (call : Call) : Option Session := some (call.perform rt uuid5 s).2

/-! ### What is promised -/

/-- The payload of the job names the backup. -/
def Names (job : BackgroundJob) (id : Uuid) : Prop :=
  job.payload.get? "backup_record_id" = some (.str (rt.strUuid id))

/-- There is a job of the kind for the backup. -/
def Enqueued (db : Db) (kind : String) (id : Uuid) : Prop :=
  ∃ job ∈ db.backgroundJobs, job.kind = kind ∧ Names rt job id

/-- A request that succeeds answers with the backup that it is about and there is a job for it; one whose
key belongs to another backup is refused. -/
structure Served (s : Session) (call : Call) : Prop where
  enqueued : ∀ record s', call.perform rt uuid5 s = (.ok record, s') → Enqueued rt s'.db call.kind record.id
  named : ∀ record s', call.perform rt uuid5 s = (.ok record, s') → ∀ id ∈ call.backupId?, record.id = id
  refused : ∀ job ∈ call.previous uuid5 s.db, ∀ id ∈ call.backupId?, ¬Names rt job id →
    ∀ record, (call.perform rt uuid5 s).1 ≠ .ok record

/-- The backup with which a request answers that finds the job. -/
def answer? (db : Db) (call : Call) (job : BackgroundJob) : Option BackupRecord :=
  match call.backupId? with
  | some id => db.backupRecords.find? id
  | none => (recordId rt job.payload).toOption.bind db.backupRecords.find?

/-- The request finds a job and answers with a backup, but the job is not for this backup. -/
def Dropped (db : Db) (call : Call) : Prop :=
  ∃ job ∈ call.previous uuid5 db, ∃ record ∈ answer? rt db call job,
    call.backupId?.isSome = true ∧ ¬Names rt job record.id ∨ ¬Enqueued rt db call.kind record.id

/-- Every request is served, and a request that is repeated after it succeeded enqueues no second job. -/
structure Faithful (s : Session) (calls : List Call) : Prop where
  served : Runs.Along (step rt uuid5) (Served rt uuid5) s calls
  once : ∀ before call between again after, calls = before ++ call :: between ++ again :: after →
    again.kind = call.kind → again.key = call.key → ∀ s₁ record s₂ s₃,
    Runs.run (step rt uuid5) s before = some s₁ → call.perform rt uuid5 s₁ = (.ok record, s₂) →
    Runs.run (step rt uuid5) s₂ between = some s₃ →
    (again.perform rt uuid5 s₃).2.db.backgroundJobs = s₃.db.backgroundJobs

variable {rt uuid5}

/-! ### What a request does -/

theorem enqueue_id {kind : String} {payload : Json} {priority delaySeconds : ℤ} {correlationId : Option String}
    {id : Uuid} {s s' : Session} {job : BackgroundJob}
    (h : JobService.enqueue rt kind payload priority delaySeconds correlationId (some id) s = (.ok job, s')) :
    job.id = id := by
  obtain ⟨id', s₁, hpure, h⟩ := Tx.bind_eq_ok h
  obtain ⟨hid, rfl⟩ := Prod.mk.inj hpure
  obtain ⟨now, s₂, -, h⟩ := Tx.bind_eq_ok h
  obtain ⟨-, s₃, -, h⟩ := Tx.bind_eq_ok h
  obtain ⟨hjob, -⟩ := Prod.mk.inj h
  rw [← Except.ok.inj hjob]
  exact (Except.ok.inj hid).symm

variable (rt uuid5) in
/-- A new job for the backup has been enqueued under the kind and the key. -/
structure Adds (kind key : String) (id : Uuid) (s s' : Session) (job : BackgroundJob) : Prop where
  inserted : s.db.backgroundJobs.insert? job = some s'.db.backgroundJobs
  jobId : job.id = jobId uuid5 kind key
  kind : job.kind = kind
  names : Names rt job id

/-- The end of both requests: the job and the entry of the audit. -/
theorem enqueue_adds {kind key eventType : String} {id : Uuid} {rest details : List (String × Json)}
    {context : AuditContext} {row record : BackupRecord} {s s' : Session}
    (h : (do
      let _ ← JobService.enqueue rt kind (.obj (("backup_record_id", .str (rt.strUuid id)) :: rest)) 10 0
        context.correlationId (some (jobId uuid5 kind key))
      let _ ← AuditService.append rt context eventType "success" (some "backup_record") (some id) details
      pure row : Work BackupRecord) s = (.ok record, s')) :
    record = row ∧ ∃ job, Adds rt uuid5 kind key id s s' job := by
  obtain ⟨job, s₁, hjob, h⟩ := Tx.bind_eq_ok h
  obtain ⟨event, s₂, haudit, h⟩ := Tx.bind_eq_ok h
  obtain ⟨hrow, rfl⟩ := Prod.mk.inj h
  obtain ⟨hkind, hpayload, -, hinsert, -⟩ := JobService.enqueue_ok hjob
  have hsame : s₂.db.backgroundJobs = s₁.db.backgroundJobs := by
    have hkeeps : (AuditService.append rt context eventType "success" (some "backup_record") (some id) details
        s₁).2.db.backgroundJobs = s₁.db.backgroundJobs := AuditService.append_keeps (fun _ _ => rfl) s₁
    rwa [haudit] at hkeeps
  refine ⟨(Except.ok.inj hrow).symm, job, ?_, enqueue_id hjob, hkind, ?_⟩
  · rw [hsame]
    exact hinsert
  · rw [Names, hpayload]
    rfl

theorem newBackup_ok {purpose key : String} {context : AuditContext} {record : BackupRecord} {s s' : Session}
    (h : newBackup rt uuid5 purpose key context s = (.ok record, s')) :
    ∃ job, Adds rt uuid5 "backup_create" key record.id s s' job := by
  obtain ⟨id, s₁, hid, h⟩ := Tx.bind_eq_ok h
  obtain ⟨-, rfl⟩ := Prod.mk.inj hid
  obtain ⟨now, s₂, hnow, h⟩ := Tx.bind_eq_ok h
  obtain ⟨-, rfl⟩ := Prod.mk.inj hnow
  obtain ⟨u, s₃, hadd, h⟩ := Tx.bind_eq_ok h
  obtain ⟨t, -, rfl⟩ := Relation.add_eq_ok hadd
  obtain ⟨rfl, job, hjob⟩ := enqueue_adds h
  exact ⟨job, hjob.inserted, hjob.jobId, hjob.kind, hjob.names⟩

theorem newAction_ok {kind operation key : String} {backupId : Uuid} {expectedVersion : ℤ} {context : AuditContext}
    {record : BackupRecord} {s s' : Session}
    (h : newAction rt uuid5 kind operation backupId expectedVersion key context s = (.ok record, s')) :
    record.id = backupId ∧ ∃ job, Adds rt uuid5 kind key record.id s s' job := by
  obtain ⟨found, s₁, hread, h⟩ := Tx.bind_eq_ok h
  obtain ⟨hfound, rfl⟩ := Prod.mk.inj hread
  obtain ⟨row, s₂, hpresent, h₁⟩ := Tx.bind_eq_ok h
  obtain ⟨hrow, rfl⟩ := Tx.orRaise_eq_ok hpresent
  obtain ⟨-, h₂⟩ := Tx.raiseIf_bind_eq_ok h₁
  obtain ⟨-, h₃⟩ := Tx.raiseIf_bind_eq_ok h₂
  obtain ⟨rfl, job, hjob⟩ := enqueue_adds h₃
  have hfind : s₂.db.backupRecords.find? backupId = some record := (Except.ok.inj hfound).trans hrow
  exact ⟨Table.key_of_find? hfind, job, hjob⟩

/-- A job that a request finds is not enqueued again. -/
theorem Adds.not_previous {kind key : String} {id : Uuid} {s s' : Session} {job job' : BackgroundJob}
    (h : Adds rt uuid5 kind key id s s' job)
    (hprevious : s.db.backgroundJobs.find? (Operations.jobId uuid5 kind key) = some job') : False := by
  have hkey := Table.key_of_find? hprevious
  rw [← h.jobId] at hkey
  exact (Table.insert?_eq_some h.inserted).2 (List.mem_map.mpr ⟨job', Table.mem_of_find? hprevious, hkey⟩)

section cases

variable {purpose kind operation key : String} {backupId : Uuid} {expectedVersion : ℤ} {context : AuditContext}
  {record : BackupRecord} {job : BackgroundJob} {s s' : Session}

theorem createBackup_of_none (h : s.db.backgroundJobs.find? (jobId uuid5 "backup_create" key) = none) :
    createBackup rt uuid5 purpose key context s = newBackup rt uuid5 purpose key context s := by
  unfold createBackup existingBackupJob Relation.find
  rw [Tx.gets_bind_apply]
  simp only [Db.backgroundJob, h]

theorem createBackup_of_some (h : s.db.backgroundJobs.find? (jobId uuid5 "backup_create" key) = some job)
    (hid : recordId rt job.payload = .ok backupId) : createBackup rt uuid5 purpose key context s =
      (s.db.backupRecords.find? backupId).elim (newBackup rt uuid5 purpose key context s) fun row => (.ok row, s) := by
  unfold createBackup existingBackupJob Relation.find
  rw [Tx.gets_bind_apply]
  simp only [Db.backgroundJob, h, hid]
  rw [Tx.bind_of_ok (Tx.ofExcept_apply _ s), Tx.gets_bind_apply]
  simp only [Db.backupRecord]
  cases s.db.backupRecords.find? backupId <;> rfl

theorem createBackup_of_unread {e : Exc}
    (h : s.db.backgroundJobs.find? (jobId uuid5 "backup_create" key) = some job)
    (hid : recordId rt job.payload = .error e) : createBackup rt uuid5 purpose key context s = (.error e, s) := by
  unfold createBackup existingBackupJob Relation.find
  rw [Tx.gets_bind_apply]
  simp only [Db.backgroundJob, h, hid]
  exact Tx.bind_of_error (Tx.ofExcept_apply _ s)

theorem enqueueBackupAction_of_none (h : s.db.backgroundJobs.find? (jobId uuid5 kind key) = none) :
    enqueueBackupAction rt uuid5 kind operation backupId expectedVersion key context s =
      newAction rt uuid5 kind operation backupId expectedVersion key context s := by
  unfold enqueueBackupAction existingBackupJob Relation.find
  rw [Tx.gets_bind_apply]
  simp only [Db.backgroundJob, h]

theorem enqueueBackupAction_of_some (h : s.db.backgroundJobs.find? (jobId uuid5 kind key) = some job) :
    enqueueBackupAction rt uuid5 kind operation backupId expectedVersion key context s =
      (s.db.backupRecords.find? backupId).elim
        (newAction rt uuid5 kind operation backupId expectedVersion key context s) fun row => (.ok row, s) := by
  unfold enqueueBackupAction existingBackupJob Relation.find
  rw [Tx.gets_bind_apply]
  simp only [Db.backgroundJob, h]
  rw [Tx.gets_bind_apply]
  simp only [Db.backupRecord]
  cases s.db.backupRecords.find? backupId <;> rfl

theorem enqueueBackupAction_of_answer (h : s.db.backgroundJobs.find? (jobId uuid5 kind key) = some job)
    (hrecord : s.db.backupRecords.find? backupId = some record) :
    enqueueBackupAction rt uuid5 kind operation backupId expectedVersion key context s = (.ok record, s) := by
  rw [enqueueBackupAction_of_some h, hrecord]
  rfl

theorem createBackup_ok (h : createBackup rt uuid5 purpose key context s = (.ok record, s')) :
    (∃ job, s.db.backgroundJobs.find? (jobId uuid5 "backup_create" key) = some job ∧
      (recordId rt job.payload).toOption.bind s.db.backupRecords.find? = some record ∧ s' = s) ∨
    s.db.backgroundJobs.find? (jobId uuid5 "backup_create" key) = none ∧
      ∃ job, Adds rt uuid5 "backup_create" key record.id s s' job := by
  cases hfind : s.db.backgroundJobs.find? (jobId uuid5 "backup_create" key) with
  | none =>
      rw [createBackup_of_none hfind] at h
      exact .inr ⟨rfl, newBackup_ok h⟩
  | some job =>
      cases hread : recordId rt job.payload with
      | error e =>
          rw [createBackup_of_unread hfind hread] at h
          simp at h
      | ok id =>
          rw [createBackup_of_some hfind hread] at h
          cases hrecord : s.db.backupRecords.find? id with
          | none =>
              rw [hrecord] at h
              obtain ⟨job', hadds⟩ := newBackup_ok h
              exact (hadds.not_previous hfind).elim
          | some row =>
              rw [hrecord] at h
              obtain ⟨hrow, rfl⟩ := Prod.mk.inj h
              refine .inl ⟨job, rfl, ?_, rfl⟩
              rw [hread]
              exact hrecord.trans (congrArg some (Except.ok.inj hrow))

theorem enqueueBackupAction_ok
    (h : enqueueBackupAction rt uuid5 kind operation backupId expectedVersion key context s = (.ok record, s')) :
    (∃ job, s.db.backgroundJobs.find? (jobId uuid5 kind key) = some job ∧
      s.db.backupRecords.find? backupId = some record ∧ s' = s) ∨
    s.db.backgroundJobs.find? (jobId uuid5 kind key) = none ∧ record.id = backupId ∧
      ∃ job, Adds rt uuid5 kind key record.id s s' job := by
  cases hfind : s.db.backgroundJobs.find? (jobId uuid5 kind key) with
  | none =>
      rw [enqueueBackupAction_of_none hfind] at h
      exact .inr ⟨rfl, newAction_ok h⟩
  | some job =>
      rw [enqueueBackupAction_of_some hfind] at h
      cases hrecord : s.db.backupRecords.find? backupId with
      | none =>
          rw [hrecord] at h
          obtain ⟨-, job', hadds⟩ := newAction_ok h
          exact (hadds.not_previous hfind).elim
      | some row =>
          rw [hrecord] at h
          obtain ⟨hrow, rfl⟩ := Prod.mk.inj h
          exact .inl ⟨job, rfl, congrArg some (Except.ok.inj hrow), rfl⟩

end cases

/-! ### What a request answers -/

variable {call : Call} {record : BackupRecord} {s s' : Session}

/-- A request that finds its job and the backup answers with this and does nothing. -/
theorem work_of_answer {job : BackgroundJob} (h : call.previous uuid5 s.db = some job)
    (hrecord : answer? rt s.db call job = some record) : call.work rt uuid5 s = (.ok record, s) := by
  obtain ⟨action, key, context, began⟩ := call
  cases action with
  | create purpose =>
      obtain ⟨id, hid, hfind⟩ := Option.bind_eq_some_iff.mp hrecord
      obtain hread : recordId rt job.payload = .ok id := by
        cases hr : recordId rt job.payload with
        | error e => simp [hr, Except.toOption] at hid
        | ok id' =>
            simp only [hr, Except.toOption, Option.some.injEq] at hid
            rw [hid]
      exact (createBackup_of_some h hread).trans (by rw [hfind]; rfl)
  | verify backupId version => exact enqueueBackupAction_of_answer h hrecord
  | restoreTest backupId version => exact enqueueBackupAction_of_answer h hrecord

/-- A request that succeeds has found its job and the backup, or it has enqueued a job for the backup. -/
theorem work_ok (h : call.work rt uuid5 s = (.ok record, s')) :
    (∃ job, call.previous uuid5 s.db = some job ∧ answer? rt s.db call job = some record ∧ s' = s) ∨
    call.previous uuid5 s.db = none ∧ (∀ id ∈ call.backupId?, record.id = id) ∧
      ∃ job, Adds rt uuid5 call.kind call.key.val record.id s s' job := by
  obtain ⟨action, key, context, began⟩ := call
  cases action with
  | create purpose =>
      rcases createBackup_ok h with hfound | ⟨hnone, hadds⟩
      · exact .inl hfound
      · exact .inr ⟨hnone, fun id hmem => absurd hmem (by simp [Call.backupId?]), hadds⟩
  | verify backupId version =>
      rcases enqueueBackupAction_ok h with hfound | ⟨hnone, hid, hadds⟩
      · exact .inl hfound
      · exact .inr ⟨hnone, fun id hmem => hid.trans (Option.some.inj hmem), hadds⟩
  | restoreTest backupId version =>
      rcases enqueueBackupAction_ok h with hfound | ⟨hnone, hid, hadds⟩
      · exact .inl hfound
      · exact .inr ⟨hnone, fun id hmem => hid.trans (Option.some.inj hmem), hadds⟩

/-! ### No refusal commits -/

theorem newBackup_notDurable (purpose key : String) (context : AuditContext) :
    NotDurable (newBackup rt uuid5 purpose key context) := by
  apply NoDomain.notDurable
  refine (newUuid_noDomain rt).bind fun id => (utcNow_noDomain rt).bind fun now => ?_
  refine (Relation.add_noDomain _).bind fun _ => (JobService.enqueue_noDomain _ _ _ _ _ _).bind fun job => ?_
  exact AuditService.append_noDomain.bind fun _ => Tx.RaisesOnly.pure _

theorem newAction_notDurable (kind operation key : String) (backupId : Uuid) (expectedVersion : ℤ)
    (context : AuditContext) :
    NotDurable (newAction rt uuid5 kind operation backupId expectedVersion key context) := by
  refine (Tx.RaisesOnly.gets _).bind fun found => ?_
  refine Tx.RaisesOnly.bind (Tx.RaisesOnly.orRaise Bool.false_ne_true) fun row => ?_
  refine Tx.RaisesOnly.bind (Tx.RaisesOnly.raiseIf fun _ => Bool.false_ne_true) fun _ => ?_
  refine Tx.RaisesOnly.bind (Tx.RaisesOnly.raiseIf fun _ => Bool.false_ne_true) fun _ => ?_
  apply NoDomain.notDurable
  refine (JobService.enqueue_noDomain _ _ _ _ _ _).bind fun job => ?_
  exact AuditService.append_noDomain.bind fun _ => Tx.RaisesOnly.pure _

theorem recordId_notDurable {payload : Json} {e : Exc} (h : recordId rt payload = .error e) : ¬e.Durable := by
  unfold recordId at h
  split at h
  · rw [← Except.error.inj h]
    exact id
  · split at h
    · simp at h
    · rw [← Except.error.inj h]
      exact id

theorem createBackup_notDurable (purpose key : String) (context : AuditContext) :
    NotDurable (createBackup rt uuid5 purpose key context) := by
  refine (Tx.RaisesOnly.gets _).bind fun previous => ?_
  cases previous with
  | none => exact newBackup_notDurable _ _ _
  | some job =>
      refine Tx.RaisesOnly.bind (Tx.RaisesOnly.ofExcept fun e he => recordId_notDurable he) fun id => ?_
      refine (Tx.RaisesOnly.gets _).bind fun row => ?_
      cases row with
      | none => exact newBackup_notDurable _ _ _
      | some row => exact Tx.RaisesOnly.pure _

theorem enqueueBackupAction_notDurable (kind operation key : String) (backupId : Uuid) (expectedVersion : ℤ)
    (context : AuditContext) :
    NotDurable (enqueueBackupAction rt uuid5 kind operation backupId expectedVersion key context) := by
  refine (Tx.RaisesOnly.gets _).bind fun previous => ?_
  cases previous with
  | none => exact newAction_notDurable _ _ _ _ _ _
  | some job =>
      refine (Tx.RaisesOnly.gets _).bind fun row => ?_
      cases row with
      | none => exact newAction_notDurable _ _ _ _ _ _
      | some row => exact Tx.RaisesOnly.pure _

theorem work_notDurable (call : Call) : NotDurable (call.work rt uuid5) := by
  obtain ⟨action, key, context, began⟩ := call
  cases action with
  | create purpose => exact createBackup_notDurable _ _ _
  | verify backupId version => exact enqueueBackupAction_notDurable _ _ _ _ _ _
  | restoreTest backupId version => exact enqueueBackupAction_notDurable _ _ _ _ _ _

/-! ### One request -/

theorem perform_of_answer {job : BackgroundJob} (h : call.previous uuid5 s.db = some job)
    (hrecord : answer? rt s.db call job = some record) :
    call.perform rt uuid5 s = (.ok record, { s with began := call.began }) :=
  Database.session_of_ok (work_of_answer (s := { s with began := call.began }) h hrecord)

theorem perform_ok (h : call.perform rt uuid5 s = (.ok record, s')) :
    (∃ job, call.previous uuid5 s.db = some job ∧ answer? rt s.db call job = some record ∧ s'.db = s.db) ∨
    call.previous uuid5 s.db = none ∧ (∀ id ∈ call.backupId?, record.id = id) ∧
      ∃ job, Adds rt uuid5 call.kind call.key.val record.id s s' job := by
  rcases work_ok (Database.session_eq_ok h) with ⟨job, hprevious, hanswer, rfl⟩ | ⟨hnone, hid, job, hadds⟩
  · exact .inl ⟨job, hprevious, hanswer, rfl⟩
  · exact .inr ⟨hnone, hid, job, hadds.inserted, hadds.jobId, hadds.kind, hadds.names⟩

/-- A request that finds its job leaves the jobs as they are. -/
theorem perform_of_previous {job : BackgroundJob} (h : call.previous uuid5 s.db = some job) :
    (call.perform rt uuid5 s).2.db.backgroundJobs = s.db.backgroundJobs := by
  have hrun : Database.session (call.work rt uuid5) { s with began := call.began } =
    ((call.perform rt uuid5 s).1, (call.perform rt uuid5 s).2) := rfl
  rcases Database.session_cases (work_notDurable call) hrun with ⟨record, -, hrun⟩ | hsame
  · rcases work_ok hrun with ⟨-, -, -, hsame⟩ | ⟨hnone, -⟩
    · rw [hsame]
    · exact absurd (h.symm.trans hnone) (by simp)
  · rw [hsame]

/-- No request takes a job away. -/
theorem perform_extends {id : Uuid} {job : BackgroundJob} (h : s.db.backgroundJobs.find? id = some job) :
    (call.perform rt uuid5 s).2.db.backgroundJobs.find? id = some job := by
  have hrun : Database.session (call.work rt uuid5) { s with began := call.began } =
    ((call.perform rt uuid5 s).1, (call.perform rt uuid5 s).2) := rfl
  rcases Database.session_cases (work_notDurable call) hrun with ⟨record, -, hrun⟩ | hsame
  · rcases work_ok hrun with ⟨-, -, -, hsame⟩ | ⟨-, -, job', hadds⟩
    · rw [hsame]
      exact h
    · exact Table.find?_insert? hadds.inserted h
  · rw [hsame]
    exact h

/-- After a request that succeeded its job can be found. -/
theorem previous_of_ok (h : call.perform rt uuid5 s = (.ok record, s')) :
    ∃ job, s'.db.backgroundJobs.find? (jobId uuid5 call.kind call.key.val) = some job := by
  rcases perform_ok h with ⟨job, hprevious, -, hsame⟩ | ⟨-, -, job, hadds⟩
  · exact ⟨job, by rw [hsame]; exact hprevious⟩
  · exact ⟨job, by rw [← hadds.jobId]; exact Table.find?_insert?_self hadds.inserted⟩

/-- **One request** is served unless it is dropped. -/
theorem served_iff : Served rt uuid5 s call ↔ ¬Dropped rt uuid5 s.db call := by
  constructor
  · rintro h ⟨job, hprevious, record, hanswer, hbad⟩
    have hrun := perform_of_answer hprevious hanswer
    rcases hbad with ⟨hsome, hnames⟩ | hnot
    · obtain ⟨id, hid⟩ := Option.isSome_iff_exists.mp hsome
      rw [h.named record _ hrun id hid] at hnames
      exact h.refused job hprevious id hid hnames record (by rw [hrun])
    · have henqueued := h.enqueued record _ hrun
      exact hnot henqueued
  · intro h
    have hnamed : ∀ record s', call.perform rt uuid5 s = (.ok record, s') → ∀ id ∈ call.backupId?, record.id = id := by
      intro record s' hrun id hid
      rcases perform_ok hrun with ⟨job, -, hanswer, -⟩ | ⟨-, hnamed, -⟩
      · rw [answer?, Option.mem_def.mp hid] at hanswer
        exact Table.key_of_find? hanswer
      · exact hnamed id hid
    refine ⟨?_, hnamed, ?_⟩
    · intro record s' hrun
      rcases perform_ok hrun with ⟨job, hprevious, hanswer, hsame⟩ | ⟨-, -, job, hadds⟩
      · rw [hsame]
        by_contra hnot
        exact h ⟨job, hprevious, record, hanswer, .inr hnot⟩
      · exact ⟨job, (Table.mem_insert? hadds.inserted).mpr (.inr rfl), hadds.kind, hadds.names⟩
    · intro job hprevious id hid hnames record hok
      have hrun : call.perform rt uuid5 s = (.ok record, (call.perform rt uuid5 s).2) := Prod.ext hok rfl
      have hrecord := hnamed record _ hrun id hid
      rcases perform_ok hrun with ⟨job', hprevious', hanswer, -⟩ | ⟨hnone, -⟩
      · obtain rfl := Option.some.inj (Eq.trans (Eq.symm hprevious) hprevious')
        exact h ⟨job, hprevious, record, hanswer, .inl ⟨by rw [Option.mem_def.mp hid]; rfl, by rwa [hrecord]⟩⟩
      · exact absurd (Eq.trans (Eq.symm hprevious) hnone) (by simp)

/-! ### Runs of requests -/

/-- A job stays where it is. -/
theorem run_extends {calls : List Call} {t : Session} {id : Uuid} {job : BackgroundJob}
    (hrun : Runs.run (step rt uuid5) s calls = some t) (h : s.db.backgroundJobs.find? id = some job) :
    t.db.backgroundJobs.find? id = some job := by
  refine Runs.inv_of_run (I := fun s => s.db.backgroundJobs.find? id = some job) ?_ h hrun
  intro s call s' hjob hstep
  obtain rfl := Option.some.inj hstep
  exact perform_extends hjob

/-- **Accepted backup requests are enqueued** in every run of requests exactly if none of them is dropped. -/
theorem faithful_iff (s : Session) (calls : List Call) : Faithful rt uuid5 s calls ↔
    Runs.Along (step rt uuid5) (fun s call => ¬Dropped rt uuid5 s.db call) s calls := by
  constructor
  · exact fun h => h.served.mono fun _ _ => served_iff.mp
  · intro h
    refine ⟨h.mono fun _ _ => served_iff.mpr, ?_⟩
    intro before call between again after _ hkind hkey s₁ record s₂ s₃ _ hok hbetween
    obtain ⟨job, hjob⟩ := previous_of_ok hok
    have hprevious : again.previous uuid5 s₃.db = some job := by
      rw [Call.previous, hkind, hkey]
      exact run_extends hbetween hjob
    exact perform_of_previous hprevious

/-! ### A key that is used again -/

def completedBackup (id : Uuid) : BackupRecord :=
  { id := id, backupType := "full", state := "completed", startedAt := .utc 1767225600000000 }

/-- Two completed backups and no job. -/
def twoBackups : Session where
  began := .utc 1767268800000000
  db := { backupRecords := ⟨[completedBackup 1, completedBackup 2], by decide⟩ }

/-- The identifier of a name is the number that its characters are the digits of. -/
def digitsId (name : String) : Uuid := name.toList.foldl (fun n c => 2 ^ 21 * n + c.toNat) 0

theorem firstVersion_valid : (1 : ℤ) ≤ 1 := Int.le_refl 1

def verifying (backupId : Uuid) : Call where
  action := .verify backupId ⟨1, firstVersion_valid⟩
  key := ⟨"0123456789abcdef", by decide⟩
  context := { actorType := "user", actorId := some 1 }
  began := .utc 1767268800000000

/-- The second backup is not verified, although its request succeeds. -/
theorem second_backup_dropped :
    ¬∀ (rt : Runtime) (uuid5 : String → Uuid) (s : Session) (calls : List Call), Faithful rt uuid5 s calls := by
  intro h
  let rt : Runtime := .sample 1767268800000000 []
  obtain ⟨-, hrest⟩ := (h rt digitsId twoBackups [verifying 1, verifying 2]).served
  obtain ⟨hserved, -⟩ := hrest _ rfl
  -- the first request enqueues a job for the first backup
  obtain ⟨s₁, hfirst⟩ : ∃ s₁, (verifying 1).perform rt digitsId twoBackups = (.ok (completedBackup 1), s₁) :=
    ⟨_, rfl⟩
  rw [hfirst] at hserved
  rcases perform_ok hfirst with ⟨job, hprevious, -⟩ | ⟨-, -, job, hadds⟩
  · exact absurd hprevious (Option.some_ne_none job).symm
  -- which the second request finds
  have hfind : (verifying 2).previous digitsId s₁.db = some job := by
    have hid : jobId digitsId (verifying 2).kind (verifying 2).key.val = job.id := hadds.jobId.symm
    rw [Call.previous, hid]
    exact Table.find?_insert?_self hadds.inserted
  have hrecords : s₁.db.backupRecords = twoBackups.db.backupRecords := by
    rw [← congrArg (fun r => r.2.db.backupRecords) hfirst]
    rfl
  have hanswer : answer? rt s₁.db (verifying 2) job = some (completedBackup 2) := by
    show s₁.db.backupRecords.find? 2 = _
    rw [hrecords]
    rfl
  obtain ⟨other, hmem, -, hnames⟩ := hserved.enqueued _ _ (perform_of_answer hfind hanswer)
  rcases (Table.mem_insert? hadds.inserted).mp hmem with hold | rfl
  · exact absurd hold List.not_mem_nil
  · have hsame : Runtime.uuidText 1 = Runtime.uuidText 2 :=
      Json.str.inj (Option.some.inj (hadds.names.symm.trans hnames))
    exact absurd hsame (by decide)

end KajovoDagmar.Operations
