import KajovoDagmar.Db.Sample
import KajovoDagmar.Deployment.BackupAgent

/-! # The backup jobs

While the agent works on a job, that job is running and no other is.  It records the outcome before it
claims the next one, unless it is kept from that: by a crash, by a lost connection, by an exception
outside of the `try`, or by an error while it records a failure.  Nothing takes up a running job again, so
from then on it is stuck. -/

namespace KajovoDagmar.BackupAgent

open Connection (Conn Outcome Keeps Settles Spares Settled Records Recording Advances)

variable {rt : Runtime}

/-! ### Programs -/

theorem setRecord_keeps (recordId : Uuid) (f : BackupRecord → BackupRecord) :
    Keeps Db.backgroundJobs (setRecord recordId f) := by
  intro db
  unfold setRecord
  split <;> rfl

theorem insertEvent_keeps (event : ℕ → AuditEvent) : Keeps Db.backgroundJobs (insertEvent event) := by
  intro db
  unfold insertEvent
  dsimp only
  split <;> rfl

theorem selectRecord_spares (recordId : Uuid) : Spares Db.backgroundJobs (selectRecord recordId) :=
  Spares.query.bind fun _ => .done _

theorem attempt_spares : Spares Db.backgroundJobs attempt := .command fun r => .done r

theorem backrestInfo_spares : Spares Db.backgroundJobs backrestInfo := Spares.check.bind fun _ => .done _

theorem backupByLabel_spares (backups : List BackrestBackup) (label : Option String) :
    Spares Db.backgroundJobs (backupByLabel backups label) := by
  unfold backupByLabel
  dsimp only
  split
  · exact .done _
  · exact .raise _

theorem makeBackup_spares : Spares Db.backgroundJobs makeBackup :=
  Spares.check.bind fun _ => Spares.check.bind fun _ => backrestInfo_spares.bind fun _ =>
    backupByLabel_spares _ _

theorem backupSince_spares (startedAt : DateTime) : Spares Db.backgroundJobs (backupSince startedAt) := by
  refine backrestInfo_spares.bind fun info => ?_
  dsimp only
  split
  · exact .done _
  · exact makeBackup_spares

theorem createBackup_spares (recordId : Uuid) : Spares Db.backgroundJobs (createBackup rt recordId) := by
  refine (selectRecord_spares recordId).bind fun row => ?_
  cases row with
  | none => exact .raise _
  | some row =>
      refine (Spares.update fun _ => setRecord_keeps _ _).bind fun _ => (Spares.commit (.done _)).bind fun _ => ?_
      refine (backupSince_spares _).bind fun backup => ?_
      refine Spares.check.bind fun _ => Spares.check.bind fun manifest => ?_
      exact (Spares.update fun _ => setRecord_keeps _ _).bind fun _ => .done _

theorem verifyBackup_spares (recordId : Uuid) : Spares Db.backgroundJobs (verifyBackup recordId) := by
  refine (selectRecord_spares recordId).bind fun row => ?_
  split
  · exact .raise _
  · refine Spares.check.bind fun _ => backrestInfo_spares.bind fun info => ?_
    refine (backupByLabel_spares _ _).bind fun _ => ?_
    exact (Spares.update fun _ => setRecord_keeps _ _).bind fun _ => .done _

theorem identify_spares : Spares Db.backgroundJobs identify := by
  refine attempt_spares.bind fun ready => ?_
  cases ready with
  | error code => exact .done _
  | ok _ =>
      refine attempt_spares.bind fun answer => ?_
      cases answer with
      | error code => exact .done _
      | ok answer =>
          dsimp only
          split
          · exact .done _
          · exact .done _

theorem restoredIdentity_spares : Spares Db.backgroundJobs restoredIdentity := by
  refine Spares.check.bind fun _ => identify_spares.bind fun identity => attempt_spares.bind fun stopped => ?_
  split
  · exact .raise _
  · exact .raise _
  · exact .done _

theorem restoreTest_spares (recordId : Uuid) : Spares Db.backgroundJobs (restoreTest recordId) := by
  refine (selectRecord_spares recordId).bind fun row => ?_
  split
  · exact .raise _
  · refine backrestInfo_spares.bind fun info => (backupByLabel_spares _ _).bind fun _ => ?_
    refine Spares.check.bind fun _ => Spares.check.bind fun _ => Spares.check.bind fun _ => ?_
    refine restoredIdentity_spares.bind fun result => ?_
    exact (Spares.update fun _ => setRecord_keeps _ _).bind fun _ => .done _

theorem work_spares {job : BackgroundJob} (recordId : Uuid) : Spares Db.backgroundJobs (work rt job recordId) := by
  unfold work
  split
  · exact createBackup_spares recordId
  · split
    · exact verifyBackup_spares recordId
    · exact restoreTest_spares recordId

/-! ### The rows of the jobs -/

/-- A backup job that nobody works on: it is queued with attempts left, or it is done. -/
structure Standing (claims : Uuid → ℕ) (row : BackgroundJob) : Prop where
  state : row.state ∈ ["queued", "completed", "failed"]
  attempts : row.attempts ≤ row.maxAttempts
  left : row.state = "queued" → row.attempts < row.maxAttempts
  claimed : claims row.id = row.attempts

/-- What is no backup job has not been claimed. -/
def Unclaimed (claims : Uuid → ℕ) (jobs : Table BackgroundJob.id) : Prop :=
  ∀ id, (∀ row ∈ jobs, IsBackup row → row.id ≠ id) → claims id = 0

/-- Nobody works on any backup job. -/
structure Clear (claims : Uuid → ℕ) (jobs : Table BackgroundJob.id) : Prop where
  standing : ∀ row ∈ jobs, IsBackup row → Standing claims row
  unclaimed : Unclaimed claims jobs

/-- The claimed job is there, with the attempts that it was claimed with, and nobody works on another. -/
structure Held (job : BackgroundJob) (claims : Uuid → ℕ) (jobs : Table BackgroundJob.id) : Prop where
  found : ∃ row ∈ jobs, row.id = job.id ∧ IsBackup row ∧ row.attempts = job.attempts ∧
    row.maxAttempts = job.maxAttempts
  attempts : job.attempts ≤ job.maxAttempts
  claimed : claims job.id = job.attempts
  standing : ∀ row ∈ jobs, IsBackup row → row.id ≠ job.id → Standing claims row
  unclaimed : Unclaimed claims jobs

/-- An update of the row of the claimed job that ends the work on it. -/
theorem setJob_settles {job : BackgroundJob} {claims : Uuid → ℕ} {f : BackgroundJob → BackgroundJob}
    (hid : ∀ row, (f row).id = row.id) (hkind : ∀ row, (f row).kind = row.kind)
    (hattempts : ∀ row, (f row).attempts = row.attempts ∧ (f row).maxAttempts = row.maxAttempts)
    (hstate : ∀ row, (f row).state ∈ ["queued", "completed", "failed"])
    (hleft : ∀ row, (f row).state = "queued" → job.attempts < job.maxAttempts) :
    Settles Db.backgroundJobs (Held job claims) (Clear claims) (setJob job.id f) := by
  intro db hheld
  obtain ⟨row, hrow, hrowid, hbackup, hrowattempts, hrowmax⟩ := hheld.found
  have hfind : db.backgroundJobs.find? job.id = some row := by
    rw [← hrowid]
    exact Table.find?_of_mem hrow
  have hset : (setJob job.id f db).backgroundJobs = db.backgroundJobs.put (f row) := by
    rw [setJob, hfind]
    rfl
  have hfid : (f row).id = job.id := (hid row).trans hrowid
  have hfbackup : IsBackup (f row) := by
    unfold IsBackup
    rw [hkind]
    exact hbackup
  rw [hset]
  constructor
  · intro x hx hxbackup
    rcases Table.mem_put_iff.mp hx with ⟨hmem, hne⟩ | ⟨rfl, -⟩
    · exact hheld.standing x hmem hxbackup (by rwa [hfid] at hne)
    · obtain ⟨hfattempts, hfmax⟩ := hattempts row
      have hle := hheld.attempts
      refine ⟨hstate row, by omega, fun hqueued => ?_, ?_⟩
      · have hlt := hleft row hqueued
        omega
      · rw [hfid, hheld.claimed]
        omega
  · intro id hnone
    refine hheld.unclaimed id fun x hx hxbackup => ?_
    by_cases hsame : x.id = job.id
    · rw [hsame, ← hfid]
      exact hnone (f row) (Table.mem_put_iff.mpr (.inr ⟨rfl, row, hrow, (hid row).symm⟩)) hfbackup
    · exact hnone x (Table.mem_put_iff.mpr (.inl ⟨hx, by rwa [hfid]⟩)) hxbackup

theorem appendAudit_settled {eventType result : String} {targetId : Uuid} {correlationId : Option String}
    {details : List (String × Json)} :
    Settled Db.backgroundJobs (appendAudit rt eventType result targetId correlationId details >>= fun _ =>
      commit) := by
  change Settled Db.backgroundJobs (Connection.Program.query >>= fun _ => Connection.Program.query >>=
    fun read : DateTime × Db => Connection.Program.update (fun _ => insertEvent fun id =>
      auditRow rt id read.1 eventType result targetId correlationId details
        ((AuditService.latest read.2.auditEvents.rows).map AuditEvent.eventHash)) >>= fun _ => commit)
  refine Settled.bind_query fun _ => Settled.bind_query fun read => ?_
  exact Settled.bind_update (fun _ => insertEvent_keeps _) (.commit _)

theorem complete_records {job : BackgroundJob} {claims : Uuid → ℕ} (recordId : Uuid)
    (details : List (String × Json)) :
    Records Db.backgroundJobs (Held job claims) (Clear claims) (complete rt job recordId details) := by
  refine Records.update (fun now => setJob_settles ?_ ?_ ?_ ?_ ?_) appendAudit_settled
  · exact fun _ => rfl
  · exact fun _ => rfl
  · exact fun _ => ⟨rfl, rfl⟩
  · exact fun _ => List.mem_cons_of_mem _ List.mem_cons_self
  · intro row hqueued
    have hcompleted : "completed" = "queued" := hqueued
    exact absurd hcompleted (by decide)

theorem failedState_mem (job : BackgroundJob) : failedState job ∈ ["queued", "completed", "failed"] := by
  unfold failedState
  split <;> simp

theorem left_of_failedState {job : BackgroundJob} (h : failedState job = "queued") :
    job.attempts < job.maxAttempts := by
  unfold failedState at h
  split at h
  · exact absurd h (by decide)
  · next hleft => simpa [terminal] using hleft

theorem fail_records {job : BackgroundJob} {claims : Uuid → ℕ} (recordId : Uuid) (code : String) :
    Records Db.backgroundJobs (Held job claims) (Clear claims) (fail rt job recordId code) := by
  refine Records.update (fun now => setJob_settles ?_ ?_ ?_ ?_ ?_) ?_
  · exact fun _ => rfl
  · exact fun _ => rfl
  · exact fun _ => ⟨rfl, rfl⟩
  · exact fun _ => failedState_mem job
  · exact fun _ hqueued => left_of_failedState hqueued
  · exact Settled.bind_update (fun _ => setRecord_keeps _ _) appendAudit_settled

theorem fail_sure {job : BackgroundJob} (recordId : Uuid) (code : String) :
    Connection.Sure (fail rt job recordId code) := by
  have hupdate (write : DateTime → Db → Db) :
      Connection.Sure (Connection.Program.update write : Program PUnit) :=
    .execute fun _ _ => .done _
  have hquery : Connection.Sure (Connection.Program.query : Program (DateTime × Db)) :=
    .execute fun _ _ => .done _
  refine (hupdate _).bind fun _ => (hupdate _).bind fun _ => ?_
  refine Connection.Sure.bind ?_ fun _ => .commit (.done _)
  exact hquery.bind fun _ => hquery.bind fun _ => hupdate _

theorem perform_records {job : BackgroundJob} {claims : Uuid → ℕ} (recordId : Uuid) :
    Records Db.backgroundJobs (Held job claims) (Clear claims) (perform rt job recordId) :=
  (work_spares recordId).records fun details => complete_records recordId details

/-! ### The claim -/

/-- The claimed job is to be put in place of the queued row that it was. -/
structure Claiming (job : BackgroundJob) (jobs : Table BackgroundJob.id) (pending : Db → Db) : Prop where
  row : ∃ row ∈ jobs, row.id = job.id ∧ IsBackup row ∧ row.state = "queued" ∧
    job.attempts = row.attempts + 1 ∧ job.maxAttempts = row.maxAttempts
  backup : IsBackup job
  pending : ∀ db, (pending db).backgroundJobs = db.backgroundJobs.put job

theorem takeCandidate_of_none {now : DateTime} {db : Db} (h : candidate now db = none) :
    takeCandidate now db = id := by
  simp only [takeCandidate, h]

theorem takeCandidate_of_some {now : DateTime} {db : Db} {row : BackgroundJob}
    (h : candidate now db = some row) :
    takeCandidate now db = putJob (JobService.claimed "backup-agent" now row) := by
  simp only [takeCandidate, h]

theorem mem_of_candidate {now : DateTime} {db : Db} {job : BackgroundJob} (h : candidate now db = some job) :
    job ∈ db.backgroundJobs ∧ job.state = "queued" ∧ IsBackup job := by
  have hmem := List.mem_of_head? h
  rw [List.mem_insertionSort] at hmem
  obtain ⟨hjob, hclaimable⟩ := List.mem_filter.mp hmem
  obtain ⟨hqueued, -, hkind⟩ := of_decide_eq_true hclaimable
  exact ⟨hjob, hqueued, hkind⟩

/-- **The commit of a claim** makes the claimed job the one that is worked on. -/
theorem Claiming.held {job : BackgroundJob} {claims : Uuid → ℕ} {jobs : Table BackgroundJob.id}
    {pending : Db → Db} (h : Claiming job jobs pending) (hclear : Clear claims jobs) :
    Held job (Function.update claims job.id (claims job.id + 1)) (jobs.put job) := by
  obtain ⟨row, hrow, hid, hbackup, hqueued, hattempts, hmax⟩ := h.row
  have hstanding := hclear.standing row hrow hbackup
  have hleft := hstanding.left hqueued
  have hmem : job ∈ jobs.put job := Table.mem_put_iff.mpr (.inr ⟨rfl, row, hrow, hid⟩)
  constructor
  · exact ⟨job, hmem, rfl, h.backup, rfl, rfl⟩
  · omega
  · have hclaimed := hstanding.claimed
    rw [hid] at hclaimed
    rw [Function.update_self, hclaimed, hattempts]
  · intro x hx hxbackup hne
    rcases Table.mem_put_iff.mp hx with ⟨hmem', -⟩ | ⟨rfl, -⟩
    · have hx' := hclear.standing x hmem' hxbackup
      refine ⟨hx'.state, hx'.attempts, hx'.left, ?_⟩
      rw [Function.update_of_ne hne]
      exact hx'.claimed
    · exact absurd rfl hne
  · intro id hnone
    have hne : id ≠ job.id := fun heq => hnone job hmem h.backup heq.symm
    rw [Function.update_of_ne hne]
    refine hclear.unclaimed id fun x hx hxbackup hxid => ?_
    have hxne : x.id ≠ job.id := by rwa [hxid]
    exact hnone x (Table.mem_put_iff.mpr (.inl ⟨hx, hxne⟩)) hxbackup hxid

/-! ### Other sessions -/

theorem Unclaimed.others {claims : Uuid → ℕ} {db : Db} (h : Unclaimed claims db.backgroundJobs)
    (o : Others) : Unclaimed claims (o.change db).backgroundJobs :=
  fun id hnone => h id fun row hrow hbackup => hnone row (o.kept db row hrow hbackup) hbackup

/-- A backup job that is there now was there before, or has been added. -/
theorem standing_others {claims : Uuid → ℕ} {db : Db} (hunclaimed : Unclaimed claims db.backgroundJobs)
    (o : Others) {row : BackgroundJob} (hrow : row ∈ (o.change db).backgroundJobs) (hbackup : IsBackup row) :
    row ∈ db.backgroundJobs ∨ Standing claims row := by
  by_cases hold : row ∈ db.backgroundJobs
  · exact .inl hold
  · obtain ⟨hqueued, hattempts, hmax⟩ := (o.added db row hrow hbackup).resolve_left hold
    refine .inr ⟨by simp [hqueued], by omega, fun _ => by omega, ?_⟩
    rw [hattempts]
    refine hunclaimed row.id fun x hx hxbackup hid => hold ?_
    have hsame : x = row := Table.eq_of_key (o.kept db x hx hxbackup) hrow hid
    rwa [← hsame]

theorem Clear.others {claims : Uuid → ℕ} {db : Db} (h : Clear claims db.backgroundJobs) (o : Others) :
    Clear claims (o.change db).backgroundJobs where
  standing row hrow hbackup :=
    (standing_others h.unclaimed o hrow hbackup).elim (fun hold => h.standing row hold hbackup) id
  unclaimed := h.unclaimed.others o

theorem Held.others {job : BackgroundJob} {claims : Uuid → ℕ} {db : Db}
    (h : Held job claims db.backgroundJobs) (o : Others) : Held job claims (o.change db).backgroundJobs where
  found := by
    obtain ⟨row, hrow, hid, hbackup, hrest⟩ := h.found
    exact ⟨row, o.kept db row hrow hbackup, hid, hbackup, hrest⟩
  attempts := h.attempts
  claimed := h.claimed
  standing row hrow hbackup hne :=
    (standing_others h.unclaimed o hrow hbackup).elim (fun hold => h.standing row hold hbackup hne) id
  unclaimed := h.unclaimed.others o

theorem Claiming.others {job : BackgroundJob} {db : Db} {pending : Db → Db}
    (h : Claiming job db.backgroundJobs pending) (o : Others) :
    Claiming job (o.change db).backgroundJobs pending where
  row := by
    obtain ⟨row, hrow, hid, hbackup, hrest⟩ := h.row
    exact ⟨row, o.kept db row hrow hbackup, hid, hbackup, hrest⟩
  backup := h.backup
  pending := h.pending

/-! ### Runs of the agent -/

/-- The job that the agent works on gets lost: its claim is committed without the agent going on to work
on it, or the agent stops working on it before its outcome is committed. -/
def Abandons (rt : Runtime) (s : Agent) : Event → Prop
  | .others _ => False
  | .crash applied =>
    match s.phase with
    | .connecting => False
    | .claiming _ => s.phase.claimed? ≠ none ∧ applied = true
    | .trying _ _ p => ¬(p.Last ∧ applied = true)
    | .handling _ _ _ lost => lost = false
    | .failing p => ¬(p.Last ∧ applied = true)
  | .step o =>
    match s.phase with
    | .connecting => False
    | .claiming _ => ∃ job ∈ s.phase.claimed?, (∃ code, o = .lost true code) ∨
        (∃ now answer, o = .ok now answer) ∧
          (JobService.payloadUuid rt "backup_record_id" job.payload).toOption = none
    | .trying _ _ p => ∃ applied code, o = .lost applied code ∧ ¬(p.Last ∧ applied = true)
    | .handling _ _ _ lost => lost = false ∧ ∀ now answer, o ≠ .ok now (.ok answer)
    | .failing p => (∃ code, o = .refused code) ∨
        ∃ applied code, o = .lost applied code ∧ ¬(p.Last ∧ applied = true)

/-- The invariant: which job is held where the agent is. -/
def Inv (s : Agent) : Prop :=
  match s.phase with
  | .connecting => Clear s.claims s.conn.committed.backgroundJobs
  | .claiming p => Clear s.claims s.conn.committed.backgroundJobs ∧
      (p = claim ∧ s.conn.pending = id ∨
        (p = .commit (.done none) ∧ Keeps Db.backgroundJobs s.conn.pending) ∨
        ∃ job, p = .commit (.done (some job)) ∧
          Claiming job s.conn.committed.backgroundJobs s.conn.pending)
  | .trying job _ p =>
      Recording Db.backgroundJobs (Held job s.claims) (Clear s.claims) s.conn p
  | .handling job _ _ lost =>
      if lost then Clear s.claims s.conn.committed.backgroundJobs
      else Held job s.claims s.conn.committed.backgroundJobs
  | .failing p => (∃ job, Recording Db.backgroundJobs (Held job s.claims) (Clear s.claims) s.conn p) ∧
      Connection.Sure p

theorem inv_of_others {s : Agent} (h : Inv s) (o : Others) :
    Inv { s with conn := { s.conn with committed := o.change s.conn.committed } } := by
  obtain ⟨conn, phase, claims⟩ := s
  cases phase with
  | connecting => exact Clear.others h o
  | claiming p =>
      obtain ⟨hclear, hp⟩ := h
      refine ⟨hclear.others o, ?_⟩
      rcases hp with hstart | hnone | ⟨job, hp, hclaiming⟩
      · exact .inl hstart
      · exact .inr (.inl hnone)
      · exact .inr (.inr ⟨job, hp, hclaiming.others o⟩)
  | trying job recordId p => exact ⟨Held.others h.1 o, h.2⟩
  | handling job recordId code lost =>
      cases lost with
      | true => exact Clear.others h o
      | false => exact Held.others h o
  | failing p =>
      obtain ⟨⟨job, hrecording⟩, hsure⟩ := h
      exact ⟨⟨job, hrecording.1.others o, hrecording.2⟩, hsure⟩

/-- When the process stops at the commit of an outcome that is applied, the outcome is there. -/
theorem clear_of_lose {job : BackgroundJob} {claims : Uuid → ℕ} {c : Conn Db} {p : Program PUnit}
    {applied : Bool} (h : Recording Db.backgroundJobs (Held job claims) (Clear claims) c p)
    (hlast : p.Last ∧ applied = true) : Clear claims (lose p applied c).committed.backgroundJobs := by
  obtain ⟨hlast, rfl⟩ := hlast
  obtain ⟨hadvance, hclosed⟩ := h.closed_of_last hlast ""
  unfold lose
  rw [hadvance]
  exact hclosed

/-- The process stops without losing a job. -/
theorem inv_of_crash {s : Agent} (h : Inv s) {applied : Bool} (hkept : ¬Abandons rt s (.crash applied)) :
    Inv { conn := s.stopped applied, claims := s.counted applied } := by
  obtain ⟨conn, phase, claims⟩ := s
  cases phase with
  | connecting => exact h
  | claiming p =>
      obtain ⟨hclear, ⟨rfl, -⟩ | ⟨rfl, hpending⟩ | ⟨job, rfl, -⟩⟩ := h
      · exact hclear
      · show Clear claims (lose (.commit (.done none) : Program (Option BackgroundJob)) applied
          conn).committed.backgroundJobs
        cases applied with
        | false => exact hclear
        | true =>
            show Clear claims (conn.pending conn.committed).backgroundJobs
            rw [hpending]
            exact hclear
      · cases applied with
        | false => exact hclear
        | true => exact absurd ⟨Option.some_ne_none job, rfl⟩ hkept
  | trying job recordId p => exact clear_of_lose h (not_not.mp hkept)
  | handling job recordId code lost =>
      cases lost with
      | true => exact h
      | false => exact absurd rfl hkept
  | failing p =>
      obtain ⟨⟨job, hrecording⟩, -⟩ := h
      exact clear_of_lose hrecording (not_not.mp hkept)

/-- The agent goes on without losing a job: connecting, and claiming one. -/
theorem inv_of_claiming {conn : Conn Db} {claims : Uuid → ℕ} {p : Program (Option BackgroundJob)}
    {o : Outcome DateTime Answer} {s' : Agent}
    (h : Inv { conn := conn, phase := .claiming p, claims := claims })
    (hkept : ¬Abandons rt { conn := conn, phase := .claiming p, claims := claims } (.step o))
    (hs : step rt { conn := conn, phase := .claiming p, claims := claims } (.step o) = some s') : Inv s' := by
  obtain ⟨hclear, ⟨rfl, hid⟩ | ⟨rfl, hpending⟩ | ⟨job, rfl, hclaiming⟩⟩ := h
  · cases o with
    | ok now answer =>
        obtain rfl := Option.some.inj hs
        refine ⟨hclear, .inr ?_⟩
        have hview : conn.view = conn.committed := congrFun hid conn.committed
        rcases hcandidate : candidate now conn.view with _ | row
        · refine .inl ⟨by simp [hcandidate], fun db => ?_⟩
          show (takeCandidate now conn.view (conn.pending db)).backgroundJobs = db.backgroundJobs
          rw [takeCandidate_of_none hcandidate, congrFun hid db]
          rfl
        · refine .inr ⟨JobService.claimed "backup-agent" now row, by simp [hcandidate], ?_⟩
          obtain ⟨hrow, hqueued, hbackup⟩ := mem_of_candidate hcandidate
          rw [hview] at hrow
          refine ⟨⟨row, hrow, rfl, hbackup, hqueued, rfl, rfl⟩, hbackup, fun db => ?_⟩
          show (takeCandidate now conn.view (conn.pending db)).backgroundJobs = _
          rw [takeCandidate_of_some hcandidate, congrFun hid db]
          rfl
    | refused code =>
        obtain rfl := Option.some.inj hs
        exact hclear
    | lost applied code =>
        obtain rfl := Option.some.inj hs
        exact hclear
  · have hpublish : Clear claims conn.publish.committed.backgroundJobs := by
      show Clear claims (conn.pending conn.committed).backgroundJobs
      rw [hpending]
      exact hclear
    cases o with
    | ok now answer =>
        obtain rfl := Option.some.inj hs
        exact ⟨hpublish, .inl ⟨rfl, rfl⟩⟩
    | refused code =>
        obtain rfl := Option.some.inj hs
        exact hclear
    | lost applied code =>
        obtain rfl := Option.some.inj hs
        cases applied with
        | true => exact hpublish
        | false => exact hclear
  · cases o with
    | ok now answer =>
        obtain rfl := Option.some.inj hs
        have hheld : Held job (Function.update claims job.id (claims job.id + 1))
            conn.publish.committed.backgroundJobs := by
          show Held job _ (conn.pending conn.committed).backgroundJobs
          rw [hclaiming.pending]
          exact hclaiming.held hclear
        have hparsed : ∃ recordId, JobService.payloadUuid rt "backup_record_id" job.payload = .ok recordId := by
          rcases hpayload : JobService.payloadUuid rt "backup_record_id" job.payload with code | recordId
          · refine absurd ⟨job, rfl, .inr ⟨⟨now, answer, rfl⟩, ?_⟩⟩ hkept
            rw [hpayload]
            rfl
          · exact ⟨recordId, rfl⟩
        obtain ⟨recordId, hpayload⟩ := hparsed
        have hphase : claimedPhase rt (some job) = .trying job recordId (perform rt job recordId) := by
          simp only [claimedPhase, hpayload]
        show Inv { conn := conn.publish, phase := claimedPhase rt (some job),
                   claims := Function.update claims job.id (claims job.id + 1) }
        rw [hphase]
        exact ⟨hheld, .inl ⟨fun _ => rfl, perform_records recordId⟩⟩
    | refused code =>
        obtain rfl := Option.some.inj hs
        exact hclear
    | lost applied code =>
        obtain rfl := Option.some.inj hs
        cases applied with
        | true => exact absurd ⟨job, rfl, .inl ⟨code, rfl⟩⟩ hkept
        | false => exact hclear

/-- A statement of the work on a job that does not lose it. -/
theorem inv_of_trying {conn : Conn Db} {claims : Uuid → ℕ} {job : BackgroundJob} {recordId : Uuid}
    {p : Program PUnit} {o : Outcome DateTime Answer} {s' : Agent}
    (h : Inv { conn := conn, phase := .trying job recordId p, claims := claims })
    (hkept : ¬Abandons rt { conn := conn, phase := .trying job recordId p, claims := claims } (.step o))
    (hs : step rt { conn := conn, phase := .trying job recordId p, claims := claims } (.step o) = some s') :
    Inv s' := by
  obtain ⟨⟨r, c⟩, hr, hs'⟩ := Option.map_eq_some_iff.mp hs
  have hadvances := Recording.advances h hr
  cases hadvances with
  | @on c' p' hrecording =>
      cases p' with
      | done a => exact absurd hrecording Recording.not_done
      | raise code | execute write next | commit next | command next =>
          obtain rfl := hs'
          exact hrecording
  | recorded hclosed =>
      obtain rfl := hs'
      exact ⟨hclosed, .inl ⟨rfl, rfl⟩⟩
  | raised hopen =>
      obtain rfl := hs'
      exact hopen
  | lost hopen hnot =>
      obtain ⟨applied, rfl⟩ := Connection.outcome_of_raised_lost hr
      refine absurd ⟨applied, _, rfl, ?_⟩ hkept
      rintro ⟨hlast, rfl⟩
      exact hnot ⟨hlast, _, rfl⟩
  | unheard hclosed =>
      obtain rfl := hs'
      exact hclosed

/-- A statement of the record of a failure that does not lose the job. -/
theorem inv_of_failing {conn : Conn Db} {claims : Uuid → ℕ} {p : Program PUnit}
    {o : Outcome DateTime Answer} {s' : Agent}
    (h : Inv { conn := conn, phase := .failing p, claims := claims })
    (hkept : ¬Abandons rt { conn := conn, phase := .failing p, claims := claims } (.step o))
    (hs : step rt { conn := conn, phase := .failing p, claims := claims } (.step o) = some s') : Inv s' := by
  obtain ⟨⟨r, c⟩, hr, hs'⟩ := Option.map_eq_some_iff.mp hs
  obtain ⟨⟨job, hrecording⟩, hsure⟩ := h
  have hadvances := Recording.advances hrecording hr
  cases hadvances with
  | @on c' p' hon =>
      cases p' with
      | done a => exact absurd hon Recording.not_done
      | raise code | execute write next | commit next | command next =>
          obtain rfl := hs'
          exact ⟨⟨job, hon⟩, hsure.next hr⟩
  | recorded hclosed =>
      obtain rfl := hs'
      exact ⟨hclosed, .inl ⟨rfl, rfl⟩⟩
  | raised hopen => exact absurd (.inl ⟨_, hsure.outcome hr⟩) hkept
  | lost hopen hnot =>
      obtain ⟨applied, rfl⟩ := Connection.outcome_of_raised_lost hr
      refine absurd (.inr ⟨applied, _, rfl, ?_⟩) hkept
      rintro ⟨hlast, rfl⟩
      exact hnot ⟨hlast, _, rfl⟩
  | unheard hclosed =>
      obtain rfl := hs'
      exact hclosed

theorem inv_of_handling {conn : Conn Db} {claims : Uuid → ℕ} {job : BackgroundJob} {recordId : Uuid}
    {code : String} {lost : Bool} {o : Outcome DateTime Answer} {s' : Agent}
    (h : Inv { conn := conn, phase := .handling job recordId code lost, claims := claims })
    (hkept : ¬Abandons rt { conn := conn, phase := .handling job recordId code lost, claims := claims }
      (.step o))
    (hs : step rt { conn := conn, phase := .handling job recordId code lost, claims := claims } (.step o) =
      some s') : Inv s' := by
  cases lost with
  | true =>
      have hclear : Clear claims conn.committed.backgroundJobs := h
      rcases o with ⟨now, _ | _⟩ | code | ⟨applied, code⟩ <;> obtain rfl := Option.some.inj hs <;>
        exact hclear
  | false =>
      have hheld : Held job claims conn.committed.backgroundJobs := h
      by_cases hreported : ∃ now answer, o = .ok now (.ok answer)
      · obtain ⟨now, answer, rfl⟩ := hreported
        obtain rfl := Option.some.inj hs
        exact ⟨⟨job, hheld, .inl ⟨fun _ => rfl, fail_records recordId code⟩⟩, fail_sure recordId code⟩
      · exact absurd ⟨rfl, fun now answer heq => hreported ⟨now, answer, heq⟩⟩ hkept

/-- **Step lemma**: a step that does not lose the job keeps the invariant. -/
theorem inv_of_step {s s' : Agent} {e : Event} (h : Inv s) (hkept : ¬Abandons rt s e)
    (hs : step rt s e = some s') : Inv s' := by
  cases e with
  | others o =>
      obtain rfl := Option.some.inj hs
      exact inv_of_others h o
  | crash applied =>
      obtain rfl := Option.some.inj hs
      exact inv_of_crash h hkept
  | step o =>
      obtain ⟨conn, phase, claims⟩ := s
      cases phase with
      | connecting =>
          have hclear : Clear claims conn.committed.backgroundJobs := h
          cases o with
          | ok now answer =>
              obtain rfl := Option.some.inj hs
              exact ⟨hclear, .inl ⟨rfl, rfl⟩⟩
          | refused code =>
              obtain rfl := Option.some.inj hs
              exact hclear
          | lost applied code =>
              obtain rfl := Option.some.inj hs
              exact hclear
      | claiming p => exact inv_of_claiming h hkept hs
      | trying job recordId p => exact inv_of_trying h hkept hs
      | handling job recordId code lost => exact inv_of_handling h hkept hs
      | failing p => exact inv_of_failing h hkept hs

theorem Inv.clear {s : Agent} (h : Inv s) (hclaim : s.AboutToClaim) :
    Clear s.claims s.conn.committed.backgroundJobs := by
  obtain ⟨conn, phase, claims⟩ := s
  obtain rfl | rfl : phase = .connecting ∨ phase = .claiming claim := hclaim
  · exact h
  · exact h.1

/-- An agent that starts on a database without backup jobs. -/
structure Agent.Starts (s : Agent) : Prop where
  connecting : s.phase = .connecting
  clear : ∀ row ∈ s.conn.committed.backgroundJobs, ¬IsBackup row
  claims : ∀ id, s.claims id = 0

theorem Agent.Starts.inv {s : Agent} (h : s.Starts) : Inv s := by
  obtain ⟨conn, phase, claims⟩ := s
  obtain ⟨rfl, hclear, hclaims⟩ := h
  exact ⟨fun row hrow hbackup => absurd hbackup (hclear row hrow), fun id _ => hclaims id⟩

/-- In a run of the agent in which no step loses a job, whenever the agent is about to claim one, no
backup job is running, and each has been claimed at most as often as it may be. -/
theorem never_stuck {s t : Agent} {events : List Event} (hstart : s.Starts)
    (hkept : Runs.Along (step rt) (fun s e => ¬Abandons rt s e) s events)
    (hrun : Runs.run (step rt) s events = some t) (hclaim : t.AboutToClaim) :
    ∀ row ∈ t.conn.committed.backgroundJobs, IsBackup row →
      row.state ∈ ["queued", "completed", "failed"] ∧ t.claims row.id ≤ row.maxAttempts := by
  intro row hrow hbackup
  have hinv : Inv t := Runs.inv_of_along (fun s e s' => inv_of_step) hstart.inv hkept hrun
  have hstanding := (hinv.clear hclaim).standing row hrow hbackup
  refine ⟨hstanding.state, ?_⟩
  rw [hstanding.claimed]
  exact hstanding.attempts

/-! ### Concrete runs -/

/-- A session that queues a job. -/
def enqueue (job : BackgroundJob)
    (hqueued : job.state = "queued" ∧ job.attempts = 0 ∧ 0 < job.maxAttempts) : Others where
  change db := { db with backgroundJobs := (db.backgroundJobs.insert? job).getD db.backgroundJobs }
  kept db x hx _ := by
    rcases hinsert : db.backgroundJobs.insert? job with _ | jobs
    · exact hx
    · exact (Table.mem_insert? hinsert).mpr (.inl hx)
  added db x hx _ := by
    rcases hinsert : db.backgroundJobs.insert? job with _ | jobs
    · rw [hinsert] at hx
      exact .inl hx
    · rw [hinsert] at hx
      rcases (Table.mem_insert? hinsert).mp hx with hold | rfl
      · exact .inl hold
      · exact .inr hqueued

/-- A backup that is requested, although its record is gone. -/
def requestedBackup : BackgroundJob :=
  { id := 7, kind := "backup_create", maxAttempts := 3, availableAt := .utc 1767268800000000
    payload := .obj [("backup_record_id", .str "00000000-0000-0000-0000-000000000008")] }

/-- A statement that succeeds. -/
def succeeds : Event := .step (.ok (.utc 1767268800000000) (.ok {}))

/-- A backup is requested, and the agent claims it. -/
def claimsBackup : List Event :=
  [.others (enqueue requestedBackup ⟨rfl, rfl, by decide⟩), succeeds, succeeds, succeeds]

def startedAgent : Agent where
  conn := { committed := {} }

def backupRuntime : Runtime := Runtime.sample 1767268800000000 []

/-- Whether the agent is at the start of its outer loop. -/
def Phase.isConnecting : Phase → Bool
  | .connecting => true
  | _ => false

theorem eq_connecting {phase : Phase} (h : phase.isConnecting = true) : phase = .connecting := by
  cases phase with
  | connecting => rfl
  | claiming p | trying job recordId p | handling job recordId code lost | failing p =>
      exact absurd h Bool.false_ne_true

/-- Whether the agent is about to claim a job. -/
def Phase.isClaiming : Phase → Bool
  | .claiming (.execute _ _) => true
  | _ => false

theorem startedAgent_starts : startedAgent.Starts where
  connecting := rfl
  clear _ h := absurd h List.not_mem_nil
  claims _ := rfl

/-- The process stops while the agent works on a job: that job is still running when it connects again. -/
theorem stuck_after_crash : ¬∀ (rt : Runtime) (s t : Agent) (events : List Event), s.Starts →
    Runs.run (step rt) s events = some t → t.AboutToClaim →
    ∀ row ∈ t.conn.committed.backgroundJobs, IsBackup row →
      row.state ∈ ["queued", "completed", "failed"] ∧ t.claims row.id ≤ row.maxAttempts := by
  intro h
  have hrun : (match Runs.run (step backupRuntime) startedAgent (claimsBackup ++ [.crash false]) with
      | some t => t.phase.isConnecting && decide (t.conn.committed.backgroundJobs.rows.map
          (fun job => (job.state, job.kind)) = [("running", "backup_create")])
      | none => false) = true := by
    decide +kernel
  rcases ht : Runs.run (step backupRuntime) startedAgent (claimsBackup ++ [.crash false]) with _ | t <;>
    simp only [ht] at hrun
  · simp at hrun
  · obtain ⟨hphase, hjobs⟩ := Bool.and_eq_true_iff.mp hrun
    have hconnecting := eq_connecting hphase
    rcases hrows : t.conn.committed.backgroundJobs.rows with _ | ⟨row, _ | _⟩ <;> simp [hrows] at hjobs
    obtain ⟨hrunning, hkind⟩ := hjobs
    have hrow : row ∈ t.conn.committed.backgroundJobs := by
      rw [Table.mem_def, hrows]
      exact List.mem_singleton_self row
    have hbackup : IsBackup row := by
      unfold IsBackup
      rw [hkind]
      decide
    have hstate := (h backupRuntime startedAgent t _ startedAgent_starts ht (.inl hconnecting) row hrow
      hbackup).1
    rw [hrunning] at hstate
    exact absurd hstate (by decide)

/-- Steps that surely lose no job. -/
def harmless (rt : Runtime) (s : Agent) : Event → Bool
  | .others _ => true
  | .crash _ => s.phase.isClaiming
  | .step (.ok _ (.ok _)) => s.phase.claimed?.all fun job =>
    (JobService.payloadUuid rt "backup_record_id" job.payload).toOption.isSome
  | .step _ => false

theorem not_abandons_of_harmless {s : Agent} {e : Event} (h : harmless rt s e = true) : ¬Abandons rt s e := by
  obtain ⟨conn, phase, claims⟩ := s
  intro habandons
  rcases e with (⟨now, code | answer⟩ | code | ⟨applied, code⟩) | applied | ⟨change, kept, added⟩
  · simp [harmless] at h
  · rcases phase with _ | p | ⟨job, recordId, p⟩ | ⟨job, recordId, code, lost⟩ | p <;>
      simp only [Abandons] at habandons
    · obtain ⟨job, hjob, ⟨code, hlost⟩ | ⟨-, hnone⟩⟩ := habandons
      · simp at hlost
      · simp [harmless, Option.mem_def.mp hjob, hnone] at h
    · obtain ⟨applied, code, hlost, -⟩ := habandons
      simp at hlost
    · exact habandons.2 now answer rfl
    · obtain ⟨code, hrefused⟩ | ⟨applied, code, hlost, -⟩ := habandons
      · simp at hrefused
      · simp at hlost
  · simp [harmless] at h
  · simp [harmless] at h
  · rcases phase with _ | p | ⟨job, recordId, p⟩ | ⟨job, recordId, code, lost⟩ | p <;>
      simp [harmless, Phase.isClaiming] at h
    · rcases p with _ | _ | _ | _ | _ <;> simp at h
      exact habandons.1 rfl
  · exact habandons

/-- The agent claims the job, finds no record and records the failure; it stops before the next claim. -/
def failsBackup : List Event := claimsBackup ++ List.replicate 9 succeeds ++ [.crash false]

theorem never_stuck_failsBackup : ∃ t, Runs.run (step backupRuntime) startedAgent failsBackup = some t ∧
    (t.conn.committed.backgroundJobs.rows.map BackgroundJob.id = [7]) ∧
    ∀ row ∈ t.conn.committed.backgroundJobs, IsBackup row →
      row.state ∈ ["queued", "completed", "failed"] ∧ t.claims row.id ≤ row.maxAttempts := by
  have hkept : Runs.Along (step backupRuntime) (fun s e => ¬Abandons backupRuntime s e) startedAgent
      failsBackup :=
    Runs.Along.of_alongB (fun _ _ => not_abandons_of_harmless)
      (show Runs.alongB (step backupRuntime) (harmless backupRuntime) startedAgent failsBackup = true by
        decide +kernel)
  have hrun : (match Runs.run (step backupRuntime) startedAgent failsBackup with
      | some t => t.phase.isConnecting &&
          decide (t.conn.committed.backgroundJobs.rows.map BackgroundJob.id = [7])
      | none => false) = true := by
    decide +kernel
  rcases ht : Runs.run (step backupRuntime) startedAgent failsBackup with _ | t <;> simp only [ht] at hrun
  · simp at hrun
  · obtain ⟨hphase, hjobs⟩ := Bool.and_eq_true_iff.mp hrun
    have hconnecting := eq_connecting hphase
    exact ⟨t, rfl, of_decide_eq_true hjobs,
      never_stuck startedAgent_starts hkept ht (.inl hconnecting)⟩

end KajovoDagmar.BackupAgent
