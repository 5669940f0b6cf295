import KajovoDagmar.Conversations.Closing
import KajovoDagmar.Worker
import KajovoDagmar.Worker.Retention

/-! # Exports and their jobs

The worker runs the jobs `export_generate` and `purge_expired` in batches.  A batch is one
transaction: it claims jobs, runs each in a savepoint and records its outcome.  The other jobs of a
batch touch neither the export records nor their jobs and are left out; what a claim passes over,
because it is locked or beyond the limit, is a parameter.

A record is completed together with its job.  When the last attempt of a job fails, its savepoint
is rolled back and the job becomes `failed`, while nothing marks the record. -/

namespace KajovoDagmar

namespace Worker

variable (rt : Runtime)

/-- `UUID(job.payload["export_id"])`. -/
def exportIdOf (job : BackgroundJob) : Except Exc Uuid := JobService.payloadUuid rt "export_id" job.payload

section handlers

variable (storage : Storage) (render : Db → DateTime → ExportRecord → Except Exc String)

/-- The handler `export_generate`. -/
def exportGenerate (job : BackgroundJob) : Work PUnit := do
  let exportId ← Tx.ofExcept (exportIdOf rt job)
  ExportService.generate rt storage render exportId

/-- The kinds of the jobs that concern the exports. -/
def exportKinds : List String := ["export_generate", "purge_expired"]

def handler (job : BackgroundJob) : Work PUnit :=
  if job.kind = "export_generate" then exportGenerate rt storage render job
  else purgeExpired rt storage

/-- One job of a batch. -/
def exportJob (job : BackgroundJob) : Work PUnit := runJob rt (handler rt storage render job) job

/-- The jobs of a batch, after the hourly maintenance if it is due. -/
def prepare (maintenance : Bool) (locked : BackgroundJob → Bool) (workerId : String) :
    Work (List BackgroundJob) := do
  if maintenance then do
    let _ ← JobService.enqueue rt "purge_expired" (.obj [])
    JobService.claim rt locked workerId 10 exportKinds
  else JobService.claim rt locked workerId 10 exportKinds

/-- One turn of the loop of `run`. -/
def batch (maintenance : Bool) (locked : BackgroundJob → Bool) (workerId : String) : Work PUnit := do
  let jobs ← prepare rt maintenance locked workerId
  let _ ← Tx.forEach (exportJob rt storage render) jobs
  pure ⟨⟩

end handlers

/-! ### Records and jobs -/

variable {rt : Runtime} {storage : Storage}
  {render : Db → DateTime → ExportRecord → Except Exc String}

/-- The job generates the export with the given identifier. -/
def Generates (rt : Runtime) (job : BackgroundJob) (exportId : Uuid) : Prop :=
  job.kind = "export_generate" ∧ exportIdOf rt job = .ok exportId

/-- Every record tells the fate of its job: the record of a failed job is failed or expired, and a
completed record has its file and the digest of what was written to it. -/
structure Telling (rt : Runtime) (s : Session) : Prop where
  fates : ∀ job ∈ s.db.backgroundJobs, job.state = "failed" → ∀ exportId, Generates rt job exportId →
    ∀ record, s.db.exportRecords.find? exportId = some record →
      record.state = "failed" ∨ record.state = "expired"
  digests : ∀ record ∈ s.db.exportRecords, record.state = "completed" →
    ExportService.Written rt s.files record

/-- The invariant: besides, every job that generates an export has a record, and for itself. -/
structure Sound (rt : Runtime) (s : Session) : Prop extends Telling rt s where
  found : ∀ job ∈ s.db.backgroundJobs, ∀ exportId, Generates rt job exportId →
    s.db.exportRecords.find? exportId ≠ none
  unique : ∀ job ∈ s.db.backgroundJobs, ∀ job' ∈ s.db.backgroundJobs, ∀ exportId,
    Generates rt job exportId → Generates rt job' exportId → job.id = job'.id

/-- A session of the same rows, in which more may have been done to files. -/
theorem Sound.of_same {s s' : Session} (h : Sound rt s)
    (hrows : Same (fun db => (db.exportRecords, db.backgroundJobs)) s s') (hfiles : s.files <+: s'.files) :
    Sound rt s' := by
  obtain ⟨hrecords, hjobs⟩ := Prod.mk.inj hrows
  constructor
  · constructor
    · rw [hrecords, hjobs]
      exact h.fates
    · rw [hrecords]
      exact fun record hrecord hstate => (h.digests record hrecord hstate).mono hfiles
  · rw [hrecords, hjobs]
    exact h.found
  · rw [hjobs]
    exact h.unique

/-- Expired records tell every fate. -/
theorem Sound.expiring {s s' : Session} (h : Sound rt s) (hs : ExportService.Expiring s s') : Sound rt s' := by
  constructor
  · constructor
    · rw [hs.jobs]
      intro job hjob hfailed exportId hgenerates record hfind
      rcases hs.records exportId record hfind with hexpired | hold
      · exact .inr hexpired
      · exact h.fates job hjob hfailed exportId hgenerates record hold
    · intro record hrecord hstate
      rcases hs.records record.id record (Table.find?_of_mem hrecord) with hexpired | hold
      · rw [hstate] at hexpired
        exact absurd hexpired (by decide)
      · exact (h.digests record (Table.mem_of_find? hold) hstate).mono hs.files
  · rw [hs.jobs]
    exact fun job hjob exportId hgenerates => hs.found exportId (h.found job hjob exportId hgenerates)
  · rw [hs.jobs]
    exact h.unique

/-- The generation of an export by a job that runs. -/
theorem Sound.regenerates {s s' : Session} {job : BackgroundJob} {exportId : Uuid}
    {record record' : ExportRecord} (h : Sound rt s) (hjob : job ∈ s.db.backgroundJobs)
    (hrunning : job.state ≠ "failed") (hgenerates : Generates rt job exportId)
    (hfind : s.db.exportRecords.find? exportId = some record)
    (hs : ExportService.Regenerates rt record record' s s') : Sound rt s' := by
  have hid : record'.id = exportId := hs.id.trans (Table.key_of_find? hfind)
  have hjobs : s'.db.backgroundJobs = s.db.backgroundJobs := by rw [hs.db]
  have hrecords : s'.db.exportRecords = s.db.exportRecords.put record' := by rw [hs.db]
  have hold : s.db.exportRecords.find? record'.id = some record := by
    rw [hid]
    exact hfind
  constructor
  · constructor
    · rw [hjobs, hrecords]
      intro job' hjob' hfailed exportId' hgenerates' other hother
      by_cases hsame : exportId' = exportId
      · -- the only job of this export is running
        subst hsame
        have hsameId := h.unique job hjob job' hjob' _ hgenerates hgenerates'
        obtain rfl := Table.eq_of_key hjob hjob' hsameId
        exact absurd hfailed hrunning
      · rw [Table.find?_put_of_ne (by rwa [hid])] at hother
        exact h.fates job' hjob' hfailed exportId' hgenerates' other hother
    · rw [hrecords]
      intro other hother hstate
      rcases Table.mem_put_iff.mp hother with ⟨hmem, -⟩ | ⟨rfl, -⟩
      · exact (h.digests other hmem hstate).mono hs.files
      · rcases hs.state with hexpired | ⟨-, hwritten⟩
        · rw [hstate] at hexpired
          exact absurd hexpired (by decide)
        · exact hwritten
  · rw [hjobs, hrecords]
    intro job' hjob' exportId' hgenerates'
    have hfound := h.found job' hjob' exportId' hgenerates'
    by_cases hsame : exportId' = record'.id
    · rw [hsame, Table.find?_put_self hold]
      exact Option.some_ne_none _
    · rw [Table.find?_put_of_ne hsame]
      exact hfound
  · rw [hjobs]
    exact h.unique

/-- A job whose row changes keeps what it generates. -/
theorem Sound.putJob {s s' : Session} {job : BackgroundJob} (job' : BackgroundJob) (h : Sound rt s)
    (hjob : job ∈ s.db.backgroundJobs) (hid : job'.id = job.id) (hkind : job'.kind = job.kind)
    (hpayload : job'.payload = job.payload)
    (hs : s'.db = { s.db with backgroundJobs := s.db.backgroundJobs.put job' }) (hfiles : s'.files = s.files)
    (hfate : job'.state = "failed" → ∀ exportId, Generates rt job exportId →
      ∀ record, s.db.exportRecords.find? exportId = some record →
        record.state = "failed" ∨ record.state = "expired") : Sound rt s' := by
  have hjobs : s'.db.backgroundJobs = s.db.backgroundJobs.put job' := by rw [hs]
  have hrecords : s'.db.exportRecords = s.db.exportRecords := by rw [hs]
  have hgenerates : ∀ exportId, Generates rt job' exportId → Generates rt job exportId := by
    intro exportId hg
    unfold Generates exportIdOf at hg ⊢
    rw [← hkind, ← hpayload]
    exact hg
  -- a row of the new table stands for a row of the old one that generates the same
  have hrow : ∀ x ∈ s.db.backgroundJobs.put job', ∃ y ∈ s.db.backgroundJobs, y.id = x.id ∧
      (∀ exportId, Generates rt x exportId → Generates rt y exportId) ∧ (x = job' ∧ y = job ∨ x = y) := by
    intro x hx
    rcases Table.mem_put_iff.mp hx with ⟨hmem, -⟩ | ⟨rfl, -⟩
    · exact ⟨x, hmem, rfl, fun _ hg => hg, .inr rfl⟩
    · exact ⟨job, hjob, hid.symm, hgenerates, .inl ⟨rfl, rfl⟩⟩
  constructor
  · constructor
    · rw [hjobs, hrecords]
      intro x hx hfailed exportId hg record hfind
      obtain ⟨y, hy, -, hgy, ⟨rfl, rfl⟩ | rfl⟩ := hrow x hx
      · exact hfate hfailed exportId (hgy exportId hg) record hfind
      · exact h.fates x hy hfailed exportId hg record hfind
    · rw [hrecords, hfiles]
      exact h.digests
  · rw [hjobs, hrecords]
    intro x hx exportId hg
    obtain ⟨y, hy, -, hgy, -⟩ := hrow x hx
    exact h.found y hy exportId (hgy exportId hg)
  · rw [hjobs]
    intro x hx x' hx' exportId hg hg'
    obtain ⟨y, hy, hyid, hgy, -⟩ := hrow x hx
    obtain ⟨y', hy', hyid', hgy', -⟩ := hrow x' hx'
    rw [← hyid, ← hyid']
    exact h.unique y hy y' hy' exportId (hgy exportId hg) (hgy' exportId hg')

/-! ### One job -/

theorem purgeDocuments_expiring : Tx.Keeps ExportService.Expiring (purgeDocuments rt) := by
  have hnow : Tx.Keeps ExportService.Expiring (utcNow rt) := fun _ => .of_same rfl (List.prefix_refl _)
  refine hnow.bind fun now => (Tx.Keeps.gets _).bind fun memories => ?_
  refine hnow.bind fun now => (Tx.Keeps.gets _).bind fun conversations => ?_
  dsimp only
  split
  · exact Tx.Keeps.pure _
  · exact Tx.Keeps.modify fun s => .of_same rfl (List.prefix_refl _)

theorem purgeExpired_expiring : Tx.Keeps ExportService.Expiring (purgeExpired rt storage) := by
  have hnow : Tx.Keeps ExportService.Expiring (utcNow rt) := fun _ => .of_same rfl (List.prefix_refl _)
  refine purgeDocuments_expiring.bind fun _ => hnow.bind fun now => ?_
  refine (Tx.Keeps.modify fun s => .of_same rfl (List.prefix_refl _)).bind fun _ => hnow.bind fun now => ?_
  refine (Tx.Keeps.modify fun s => .of_same rfl (List.prefix_refl _)).bind fun _ => ?_
  exact ExportService.purgeExpired_expiring

/-- The job fails for good although its record is open: something keeps its last attempt from expiring
or completing the record. -/
def FailsForGood (rt : Runtime) (storage : Storage)
    (render : Db → DateTime → ExportRecord → Except Exc String) (s : Session) (job : BackgroundJob) : Prop :=
  job.kind = "export_generate" ∧ job.attempts ≥ job.maxAttempts ∧
    ∃ exportId ∈ (exportIdOf rt job).toOption, ∃ record ∈ s.db.exportRecords.find? exportId,
      record.state ∉ ["completed", "failed", "expired"] ∧
      ExportService.Obstructed rt storage render record s

/-- **The handler of a job**: what it has done when it returns, and why it has raised. -/
theorem handler_cases {s s₁ : Session} {r : Except Exc PUnit} {job : BackgroundJob} (hsound : Sound rt s)
    (hjob : job ∈ s.db.backgroundJobs) (hrunning : job.state ≠ "failed")
    (h : handler rt storage render job s = (r, s₁)) :
    (r = .ok ⟨⟩ ∧ Sound rt s₁ ∧ s₁.db.backgroundJobs = s.db.backgroundJobs) ∨
    ((∃ e, r = .error e) ∧ s.files <+: s₁.files ∧ ∀ exportId, Generates rt job exportId →
      ∀ record, s.db.exportRecords.find? exportId = some record →
        record.state ≠ "completed" ∧ ExportService.Obstructed rt storage render record s) := by
  unfold handler at h
  split at h
  · next hkind =>
    unfold exportGenerate at h
    rcases hid : exportIdOf rt job with e | exportId
    · rw [hid] at h
      obtain ⟨rfl, rfl⟩ := Prod.mk.inj h
      refine .inr ⟨⟨e, rfl⟩, List.prefix_refl _, fun exportId hg => ?_⟩
      rw [Generates, hid] at hg
      exact absurd hg.2 (by simp)
    · rw [hid] at h
      change ExportService.generate rt storage render exportId s = _ at h
      rcases hfind : s.db.exportRecords.find? exportId with _ | record
      · rw [ExportService.generate_of_absent hfind] at h
        obtain ⟨rfl, rfl⟩ := Prod.mk.inj h
        exact .inl ⟨rfl, hsound, rfl⟩
      · rw [ExportService.generate_of_found hfind] at h
        split at h
        · obtain ⟨rfl, rfl⟩ := Prod.mk.inj h
          exact .inl ⟨rfl, hsound, rfl⟩
        · next hopen =>
          rcases ExportService.generateRow_cases rt storage render record s with
            ⟨-, record', s', hok, hs⟩ | ⟨hobstructed, e, s', herror, hfiles⟩
          · rw [hok] at h
            obtain ⟨rfl, rfl⟩ := Prod.mk.inj h
            refine .inl ⟨rfl, hsound.regenerates hjob hrunning ⟨hkind, hid⟩ hfind hs, ?_⟩
            rw [hs.db]
          · rw [herror] at h
            obtain ⟨rfl, rfl⟩ := Prod.mk.inj h
            refine .inr ⟨⟨e, rfl⟩, hfiles, fun exportId' hg other hother => ?_⟩
            rw [Generates, hid] at hg
            obtain rfl := Except.ok.inj hg.2
            obtain rfl := Option.some.inj (hfind.symm.trans hother)
            exact ⟨hopen, hobstructed⟩
  · next hkind =>
    have hs : ExportService.Expiring s s₁ := purgeExpired_expiring.of_apply h
    rcases r with e | u
    · exact .inr ⟨⟨e, rfl⟩, hs.files, fun exportId hg => absurd hg.1 hkind⟩
    · exact .inl ⟨rfl, hsound.expiring hs, hs.jobs⟩

/-- **An attempt** leaves sound rows behind; one that fails leaves them as they were. -/
theorem attempt_cases {s s₁ : Session} {job : BackgroundJob} {r : Except Exc (Option Exc)}
    (hsound : Sound rt s) (hjob : job ∈ s.db.backgroundJobs) (hrunning : job.state ≠ "failed")
    (h : attempt (handler rt storage render job) s = (r, s₁)) :
    Sound rt s₁ ∧ s₁.db.backgroundJobs = s.db.backgroundJobs ∧
      (r = .ok none ∨ ∃ e, r = .ok (some e) ∧ s₁.db = s.db ∧ ∀ exportId, Generates rt job exportId →
        ∀ record, s.db.exportRecords.find? exportId = some record →
          record.state ≠ "completed" ∧ ExportService.Obstructed rt storage render record s) := by
  unfold attempt at h
  rcases hr : handler rt storage render job s with ⟨e | u, s₂⟩
  · rcases handler_cases hsound hjob hrunning hr with ⟨habsurd, -⟩ | ⟨-, hfiles, hwhy⟩
    · exact absurd habsurd (by simp)
    have hnested : nested (handler rt storage render job) s = (.error e, s.rollback s₂) :=
      Tx.session_of_rollback hr id
    rw [Tx.handle_of_error (Tx.bind_of_error hnested)] at h
    obtain ⟨rfl, rfl⟩ := Prod.mk.inj h
    exact ⟨hsound.of_same rfl hfiles, rfl, .inr ⟨e, rfl, rfl, hwhy⟩⟩
  · rcases handler_cases hsound hjob hrunning hr with ⟨-, hsound', hjobs⟩ | ⟨⟨e, habsurd⟩, -⟩
    · have hnested : nested (handler rt storage render job) s = (.ok u, s₂) := Tx.session_of_ok hr
      have hok : (do
          nested (handler rt storage render job)
          pure none : Work (Option Exc)) s = (.ok none, s₂) := by
        rw [Tx.bind_of_ok hnested]
        rfl
      rw [Tx.handle_of_ok hok] at h
      obtain ⟨rfl, rfl⟩ := Prod.mk.inj h
      exact ⟨hsound', hjobs, .inl rfl⟩
    · exact absurd habsurd (by simp)

theorem failed_state {job : BackgroundJob} {code : String} {now : DateTime}
    (h : (JobService.failed job code now).state = "failed") : job.attempts ≥ job.maxAttempts := by
  unfold JobService.failed at h
  dsimp only at h
  split at h
  · assumption
  · have hqueued : "queued" = "failed" := h
    exact absurd hqueued (by decide)

theorem failed_id (job : BackgroundJob) (code : String) (now : DateTime) :
    (JobService.failed job code now).id = job.id ∧ (JobService.failed job code now).kind = job.kind ∧
      (JobService.failed job code now).payload = job.payload := by
  unfold JobService.failed
  dsimp only
  split
  · exact ⟨rfl, rfl, rfl⟩
  · exact ⟨rfl, rfl, rfl⟩

/-- **Step lemma**: a job that does not fail for good leaves sound rows behind, and changes no other
job. -/
theorem exportJob_ok {s s' : Session} {job : BackgroundJob} {u : PUnit} (hsound : Sound rt s)
    (hfind : s.db.backgroundJobs.find? job.id = some job) (hrunning : job.state ≠ "failed")
    (hcond : ¬FailsForGood rt storage render s job) (h : exportJob rt storage render job s = (.ok u, s')) :
    Sound rt s' ∧ ∃ job', job'.id = job.id ∧
      s'.db.backgroundJobs = s.db.backgroundJobs.put job' := by
  have hjob := Table.mem_of_find? hfind
  obtain ⟨outcome, s₁, hattempt, hconclude⟩ := Tx.bind_eq_ok h
  obtain ⟨hsound', hjobs, hwhy⟩ := attempt_cases hsound hjob hrunning hattempt
  have hjob' : job ∈ s₁.db.backgroundJobs := by
    rw [hjobs]
    exact hjob
  rw [← hjobs]
  rcases hwhy with hnone | ⟨e, hsome, hdb, hwhy⟩
  · obtain rfl := Except.ok.inj hnone
    obtain ⟨now, s₂, hnow, hsave⟩ := Tx.bind_eq_ok hconclude
    obtain ⟨-, rfl⟩ := Prod.mk.inj hnow
    obtain rfl := Relation.save_eq_ok hsave
    have hput : Sound rt { s₁ with
        db := { s₁.db with backgroundJobs := s₁.db.backgroundJobs.put (JobService.completed job now) }
        tick := s₁.tick + 1 } := by
      refine hsound'.putJob (JobService.completed job now) hjob' rfl rfl rfl rfl rfl fun hfailed => ?_
      have hcompleted : "completed" = "failed" := hfailed
      exact absurd hcompleted (by decide)
    exact ⟨hput, JobService.completed job now, rfl, rfl⟩
  · obtain rfl := Except.ok.inj hsome
    obtain ⟨row, s₂, hrow, hfail⟩ := Tx.bind_eq_ok hconclude
    obtain ⟨hvalue, rfl⟩ := Prod.mk.inj hrow
    obtain rfl := Except.ok.inj hvalue
    obtain ⟨row, hrow', hfail⟩ := Tx.orRaise_bind_eq_ok hfail
    change s₁.db.backgroundJobs.find? job.id = some row at hrow'
    rw [hjobs, hfind] at hrow'
    obtain rfl := Option.some.inj hrow'
    obtain ⟨now, s₃, hnow, hsave⟩ := Tx.bind_eq_ok hfail
    obtain ⟨-, rfl⟩ := Prod.mk.inj hnow
    obtain rfl := Relation.save_eq_ok hsave
    obtain ⟨hid, hkind, hpayload⟩ := failed_id job (className e) now
    refine ⟨hsound'.putJob _ hjob' hid hkind hpayload rfl rfl fun hfailed exportId hg record hrecord => ?_,
      _, hid, rfl⟩
    -- the last attempt failed, so its record has been closed before
    rw [hdb] at hrecord
    obtain ⟨hopen, hobstructed⟩ := hwhy exportId hg record hrecord
    by_contra hstate
    rw [not_or] at hstate
    refine hcond ⟨hg.1, failed_state hfailed, exportId, ?_, record, hrecord, ?_, hobstructed⟩
    · rw [hg.2]
      rfl
    · simp [hopen, hstate.1, hstate.2]

/-! ### A batch -/

/-- One job of the loop over the jobs that a batch has claimed. -/
def jobStep (rt : Runtime) (storage : Storage) (render : Db → DateTime → ExportRecord → Except Exc String)
    (s : Session) (job : BackgroundJob) : Option Session :=
  match exportJob rt storage render job s with
  | (.ok _, s') => some s'
  | (.error _, _) => none

theorem jobStep_of_ok {s s' : Session} {job : BackgroundJob} {u : PUnit}
    (h : exportJob rt storage render job s = (.ok u, s')) : jobStep rt storage render s job = some s' := by
  rw [jobStep, h]

/-- The jobs are there as they were claimed. -/
def Claimed (s : Session) (jobs : List BackgroundJob) : Prop :=
  (jobs.map BackgroundJob.id).Nodup ∧
    ∀ job ∈ jobs, s.db.backgroundJobs.find? job.id = some job ∧ job.state = "running"

/-- **Run lemma**: the loop over the claimed jobs leaves sound rows behind when none of them fails for
good. -/
theorem forEach_exportJob_ok {jobs : List BackgroundJob} {s s' : Session} {us : List PUnit}
    (hsound : Sound rt s) (hclaimed : Claimed s jobs)
    (hcond : Runs.Along (jobStep rt storage render) (fun s job => ¬FailsForGood rt storage render s job)
      s jobs)
    (h : Tx.forEach (exportJob rt storage render) jobs s = (.ok us, s')) : Sound rt s' := by
  induction jobs generalizing s us with
  | nil =>
      obtain ⟨-, rfl⟩ := Prod.mk.inj h
      exact hsound
  | cons job jobs ih =>
      obtain ⟨u, s₁, hrun, hrest⟩ := Tx.bind_eq_ok h
      obtain ⟨us', s₂, hrest', hpure⟩ := Tx.bind_eq_ok hrest
      obtain ⟨-, rfl⟩ := Prod.mk.inj hpure
      obtain ⟨hnodup, hrows⟩ := hclaimed
      obtain ⟨hnot, hnodup⟩ := List.nodup_cons.mp hnodup
      obtain ⟨hfind, hrunning⟩ := hrows job List.mem_cons_self
      have hne : job.state ≠ "failed" := by
        rw [hrunning]
        decide
      obtain ⟨hsound', job', hid, hjobs⟩ := exportJob_ok hsound hfind hne hcond.1 hrun
      refine ih hsound' ⟨hnodup, fun other hother => ?_⟩ (hcond.2 _ (jobStep_of_ok hrun)) hrest'
      obtain ⟨hfind', hrunning'⟩ := hrows other (List.mem_cons_of_mem _ hother)
      refine ⟨?_, hrunning'⟩
      rw [hjobs, Table.find?_put_of_ne]
      · exact hfind'
      · rintro heq
        rw [hid] at heq
        exact hnot (List.mem_map.mpr ⟨other, hother, heq⟩)

/-- A new job that has a record for itself, if it generates an export. -/
theorem Sound.addJob {s s' : Session} {job : BackgroundJob} (h : Sound rt s)
    (hinsert : s.db.backgroundJobs.insert? job = some s'.db.backgroundJobs)
    (hs : s'.db = { s.db with backgroundJobs := s'.db.backgroundJobs }) (hfiles : s'.files = s.files)
    (hqueued : job.state = "queued")
    (hnew : ∀ exportId, Generates rt job exportId → s.db.exportRecords.find? exportId ≠ none ∧
      ∀ other ∈ s.db.backgroundJobs, ¬Generates rt other exportId) : Sound rt s' := by
  have hrecords : s'.db.exportRecords = s.db.exportRecords := by rw [hs]
  have hmem : ∀ x, x ∈ s'.db.backgroundJobs ↔ x ∈ s.db.backgroundJobs ∨ x = job :=
    fun x => Table.mem_insert? hinsert
  constructor
  · constructor
    · rw [hrecords]
      intro x hx hfailed exportId hg record hfind
      rcases (hmem x).mp hx with hold | rfl
      · exact h.fates x hold hfailed exportId hg record hfind
      · rw [hqueued] at hfailed
        exact absurd hfailed (by decide)
    · rw [hrecords, hfiles]
      exact h.digests
  · rw [hrecords]
    intro x hx exportId hg
    rcases (hmem x).mp hx with hold | rfl
    · exact h.found x hold exportId hg
    · exact (hnew exportId hg).1
  · intro x hx y hy exportId hgx hgy
    rcases (hmem x).mp hx with hx | rfl
    · rcases (hmem y).mp hy with hy | rfl
      · exact h.unique x hx y hy exportId hgx hgy
      · exact absurd hgx ((hnew exportId hgy).2 x hx)
    · rcases (hmem y).mp hy with hy | rfl
      · exact absurd hgy ((hnew exportId hgx).2 y hy)
      · rfl

/-- The claim of rows that are queued. -/
theorem forEach_claimRow_ok {workerId : String} {rows jobs : List BackgroundJob} {s s' : Session}
    (hsound : Sound rt s) (hnodup : (rows.map BackgroundJob.id).Nodup)
    (hrows : ∀ row ∈ rows, s.db.backgroundJobs.find? row.id = some row)
    (h : Tx.forEach (JobService.claimRow rt workerId) rows s = (.ok jobs, s')) :
    Sound rt s' ∧ Claimed s' jobs ∧ jobs.map BackgroundJob.id = rows.map BackgroundJob.id ∧
      ∀ id ∉ rows.map BackgroundJob.id, s'.db.backgroundJobs.find? id = s.db.backgroundJobs.find? id := by
  induction rows generalizing s jobs with
  | nil =>
      obtain ⟨hjobs, rfl⟩ := Prod.mk.inj h
      obtain rfl := Except.ok.inj hjobs
      exact ⟨hsound, ⟨List.nodup_nil, fun _ hjob => absurd hjob List.not_mem_nil⟩, rfl, fun _ _ => rfl⟩
  | cons row rows ih =>
      obtain ⟨job, s₁, hclaim, h₁⟩ := Tx.bind_eq_ok h
      obtain ⟨jobs', s₂, hrest, h₂⟩ := Tx.bind_eq_ok h₁
      obtain ⟨hjobs, rfl⟩ := Prod.mk.inj h₂
      obtain rfl := Except.ok.inj hjobs
      obtain ⟨now, s₃, hnow, h₃⟩ := Tx.bind_eq_ok hclaim
      obtain ⟨-, rfl⟩ := Prod.mk.inj hnow
      obtain ⟨u, s₄, hsave, h₄⟩ := Tx.bind_eq_ok h₃
      obtain ⟨hjob, rfl⟩ := Prod.mk.inj h₄
      obtain rfl := Except.ok.inj hjob
      obtain rfl := Relation.save_eq_ok hsave
      obtain ⟨hnot, hnodup⟩ := List.nodup_cons.mp hnodup
      have hfind := hrows row List.mem_cons_self
      have hsound' : Sound rt { s with
          db := { s.db with
            backgroundJobs := s.db.backgroundJobs.put (JobService.claimed workerId now row) }
          tick := s.tick + 1 } := by
        refine hsound.putJob (JobService.claimed workerId now row) (Table.mem_of_find? hfind) rfl rfl rfl rfl rfl
          fun hfailed => ?_
        have hrunning : "running" = "failed" := hfailed
        exact absurd hrunning (by decide)
      obtain ⟨hsound'', ⟨hnodup', hclaimed⟩, hids, hothers⟩ := ih hsound' hnodup (fun other hother => by
        change (s.db.backgroundJobs.put (JobService.claimed workerId now row)).find? other.id = some other
        rw [Table.find?_put_of_ne]
        · exact hrows other (List.mem_cons_of_mem _ hother)
        · rintro heq
          exact hnot (List.mem_map.mpr ⟨other, hother, heq⟩)) hrest
      refine ⟨hsound'', ⟨?_, ?_⟩, ?_, ?_⟩
      · rw [List.map_cons, hids]
        exact List.nodup_cons.mpr ⟨hnot, hnodup⟩
      · intro job hjob
        rcases List.mem_cons.mp hjob with rfl | hjob
        · refine ⟨?_, rfl⟩
          exact (hothers row.id hnot).trans
            (Table.find?_put_self (r := JobService.claimed workerId now row) hfind)
        · exact hclaimed job hjob
      · rw [List.map_cons, List.map_cons, hids]
        rfl
      · intro id hid
        rw [List.map_cons, List.mem_cons, not_or] at hid
        rw [hothers id hid.2]
        exact Table.find?_put_of_ne (r := JobService.claimed workerId now row) hid.1

/-- Some rows of a table, in another order, have different keys and are found under them. -/
theorem rows_of_subperm {t : Table BackgroundJob.id} {rows : List BackgroundJob}
    (hrows : rows.Subperm t.rows) :
    (rows.map BackgroundJob.id).Nodup ∧ ∀ row ∈ rows, t.find? row.id = some row := by
  constructor
  · obtain ⟨sorted, hperm, hsub⟩ := hrows
    have hnodup : (sorted.map BackgroundJob.id).Nodup := t.nodup.sublist (hsub.map _)
    exact (hperm.map _).nodup_iff.mp hnodup
  · intro row hrow
    exact Table.find?_of_mem (hrows.subset hrow)

/-- **A claim** takes each of its rows once. -/
theorem claim_ok {locked : BackgroundJob → Bool} {workerId : String} {limit : ℕ} {kinds : List String}
    {jobs : List BackgroundJob} {s s' : Session} (hsound : Sound rt s)
    (h : JobService.claim rt locked workerId limit kinds s = (.ok jobs, s')) :
    Sound rt s' ∧ Claimed s' jobs := by
  obtain ⟨now, s₁, hnow, h₁⟩ := Tx.bind_eq_ok h
  obtain ⟨-, rfl⟩ := Prod.mk.inj hnow
  obtain ⟨rows, s₂, hselect, h₂⟩ := Tx.bind_eq_ok h₁
  obtain ⟨hvalue, rfl⟩ := Prod.mk.inj hselect
  obtain rfl := Except.ok.inj hvalue
  have hnow' : Sound rt { s with tick := s.tick + 1 } := hsound.of_same rfl (List.prefix_refl _)
  have hselected : (s.db.backgroundJobs.select fun job =>
      JobService.claimable now kinds job ∧ locked job = false).Sublist s.db.backgroundJobs.rows :=
    List.filter_sublist
  have htaken := List.take_sublist limit ((s.db.backgroundJobs.select fun job =>
    JobService.claimable now kinds job ∧ locked job = false).insertionSort fun a b =>
      JobService.claimOrder a b = true)
  have hsubperm := htaken.subperm.trans ((List.perm_insertionSort _ _).subperm.trans hselected.subperm)
  obtain ⟨hnodup, hrows⟩ := rows_of_subperm hsubperm
  obtain ⟨hsound', hclaimed, -, -⟩ := forEach_claimRow_ok hnow' hnodup hrows h₂
  exact ⟨hsound', hclaimed⟩

/-- What a batch prepares: at most one more job, which generates no export, and the jobs it claims. -/
theorem prepare_ok {maintenance : Bool} {locked : BackgroundJob → Bool} {workerId : String}
    {jobs : List BackgroundJob} {s s' : Session} (hsound : Sound rt s)
    (h : prepare rt maintenance locked workerId s = (.ok jobs, s')) :
    Sound rt s' ∧ Claimed s' jobs := by
  unfold prepare at h
  split at h
  · obtain ⟨job, s₁, henqueue, hclaim⟩ := Tx.bind_eq_ok h
    obtain ⟨hkind, -, hqueued, hinsert, hdb, hfiles⟩ := JobService.enqueue_ok henqueue
    refine claim_ok (hsound.addJob hinsert hdb hfiles hqueued fun exportId hg => ?_) hclaim
    exact absurd (hkind.symm.trans hg.1) (by decide)
  · exact claim_ok hsound h

/-! ### What a batch does to files -/

/-- More may have been done to files. -/
def Grows (s s' : Session) : Prop := s.files <+: s'.files

instance : Std.Refl Grows := ⟨fun _ => List.prefix_refl _⟩

instance : IsTrans Session Grows where
  trans _ _ _ h h' := h.trans h'

theorem utcNow_grows : Tx.Keeps Grows (utcNow rt) := fun _ => List.prefix_refl _

theorem add_grows {R : Type} {key : R → ℕ} {rel : Relation key} (r : R) : Tx.Keeps Grows (rel.add rt r) := by
  intro s
  rcases hs : rel.add rt r s with ⟨e | u, s'⟩
  · rw [(Relation.add_error hs).1]
    exact List.prefix_refl _
  · obtain ⟨t, -, rfl⟩ := Relation.add_eq_ok hs
    exact List.prefix_refl _

theorem save_grows {R : Type} {key : R → ℕ} {rel : Relation key} (r : R) : Tx.Keeps Grows (rel.save rt r) := by
  intro s
  unfold Relation.save
  split
  · exact List.prefix_refl _
  · exact List.prefix_refl _

theorem expiring_grows {α : Type} {m : Work α} (h : Tx.Keeps ExportService.Expiring m) : Tx.Keeps Grows m :=
  fun s => (h s).files

theorem generate_grows (exportId : Uuid) : Tx.Keeps Grows (ExportService.generate rt storage render exportId) := by
  intro s
  rcases hfind : s.db.exportRecords.find? exportId with _ | record
  · rw [ExportService.generate_of_absent hfind]
    exact List.prefix_refl _
  · rw [ExportService.generate_of_found hfind]
    split
    · exact List.prefix_refl _
    · rcases ExportService.generateRow_cases rt storage render record s with
        ⟨-, record', s', hok, hs⟩ | ⟨-, e, s', herror, hfiles⟩
      · rw [hok]
        exact hs.files
      · rw [herror]
        exact hfiles

theorem handler_grows (job : BackgroundJob) : Tx.Keeps Grows (handler rt storage render job) := by
  unfold handler
  split
  · exact (Tx.Keeps.ofExcept _).bind fun exportId => generate_grows exportId
  · exact expiring_grows purgeExpired_expiring

theorem nested_grows {α : Type} {m : Work α} (h : Tx.Keeps Grows m) : Tx.Keeps Grows (nested m) := by
  intro s
  rcases hs : m s with ⟨e | a, s'⟩
  · have hnested : nested m s = (.error e, s.rollback s') := Tx.session_of_rollback hs id
    have hgrows := h.of_apply hs
    rw [hnested]
    exact hgrows
  · have hnested : nested m s = (.ok a, s') := Tx.session_of_ok hs
    have hgrows := h.of_apply hs
    rw [hnested]
    exact hgrows

theorem attempt_grows (job : BackgroundJob) : Tx.Keeps Grows (attempt (handler rt storage render job)) :=
  Tx.Keeps.handle ((nested_grows (handler_grows job)).bind fun _ => Tx.Keeps.pure _) fun _ => Tx.Keeps.pure _

theorem conclude_grows (job : BackgroundJob) (outcome : Option Exc) :
    Tx.Keeps Grows (conclude rt job outcome) := by
  cases outcome with
  | none => exact utcNow_grows.bind fun _ => save_grows _
  | some e =>
      refine (Tx.Keeps.gets _).bind fun row => (Tx.Keeps.orRaise _ _).bind fun row => ?_
      exact utcNow_grows.bind fun _ => save_grows _

theorem enqueue_grows (kind : String) (payload : Json) (priority delaySeconds : ℤ)
    (correlationId : Option String) :
    Tx.Keeps Grows (JobService.enqueue rt kind payload priority delaySeconds correlationId) := by
  have hid : Tx.Keeps Grows (newUuid rt) := fun _ => List.prefix_refl _
  exact hid.bind fun id => utcNow_grows.bind fun now => (add_grows _).bind fun _ => Tx.Keeps.pure _

theorem claim_grows (locked : BackgroundJob → Bool) (workerId : String) (limit : ℕ) (kinds : List String) :
    Tx.Keeps Grows (JobService.claim rt locked workerId limit kinds) := by
  refine utcNow_grows.bind fun now => (Tx.Keeps.gets _).bind fun rows => Tx.Keeps.forEach fun row => ?_
  exact utcNow_grows.bind fun _ => (save_grows _).bind fun _ => Tx.Keeps.pure _

theorem prepare_grows (maintenance : Bool) (locked : BackgroundJob → Bool) (workerId : String) :
    Tx.Keeps Grows (prepare rt maintenance locked workerId) := by
  unfold prepare
  split
  · exact (enqueue_grows _ _ _ _ _).bind fun _ => claim_grows _ _ _ _
  · exact claim_grows _ _ _ _

theorem batch_grows (maintenance : Bool) (locked : BackgroundJob → Bool) (workerId : String) :
    Tx.Keeps Grows (batch rt storage render maintenance locked workerId) := by
  refine (prepare_grows _ _ _).bind fun jobs => Tx.Keeps.bind (Tx.Keeps.forEach fun job => ?_) fun _ =>
    Tx.Keeps.pure _
  exact (attempt_grows job).bind fun outcome => conclude_grows job outcome

/-! ### What a batch raises -/

theorem claim_noDomain (locked : BackgroundJob → Bool) (workerId : String) (limit : ℕ) (kinds : List String) :
    NoDomain (JobService.claim rt locked workerId limit kinds) := by
  refine (utcNow_noDomain rt).bind fun now => (Tx.RaisesOnly.gets _).bind fun rows => ?_
  refine Tx.RaisesOnly.forEach fun row => (utcNow_noDomain rt).bind fun _ => ?_
  exact (Relation.save_noDomain _).bind fun _ => Tx.RaisesOnly.pure _

theorem prepare_noDomain (maintenance : Bool) (locked : BackgroundJob → Bool) (workerId : String) :
    NoDomain (prepare rt maintenance locked workerId) := by
  unfold prepare
  split
  · exact (JobService.enqueue_noDomain _ _ _ _ _ _).bind fun _ => claim_noDomain _ _ _ _
  · exact claim_noDomain _ _ _ _

theorem batch_noDomain (maintenance : Bool) (locked : BackgroundJob → Bool) (workerId : String) :
    NoDomain (batch rt storage render maintenance locked workerId) := by
  refine (prepare_noDomain _ _ _).bind fun jobs => Tx.RaisesOnly.bind ?_ fun _ => Tx.RaisesOnly.pure _
  exact Tx.RaisesOnly.forEach fun job => (attempt_noDomain _).bind fun outcome => conclude_noDomain job outcome

/-- **A batch** in which no job fails for good leaves sound rows behind. -/
theorem batch_ok {maintenance : Bool} {locked : BackgroundJob → Bool} {workerId : String} {s s' : Session}
    {u : PUnit} (hsound : Sound rt s)
    (hcond : ∀ jobs s₁, prepare rt maintenance locked workerId s = (.ok jobs, s₁) →
      Runs.Along (jobStep rt storage render) (fun s job => ¬FailsForGood rt storage render s job) s₁ jobs)
    (h : batch rt storage render maintenance locked workerId s = (.ok u, s')) : Sound rt s' := by
  obtain ⟨jobs, s₁, hprepare, h₁⟩ := Tx.bind_eq_ok h
  obtain ⟨us, s₂, hjobs, h₂⟩ := Tx.bind_eq_ok h₁
  obtain ⟨-, rfl⟩ := Prod.mk.inj h₂
  obtain ⟨hsound', hclaimed⟩ := prepare_ok hsound hprepare
  exact forEach_exportJob_ok hsound' hclaimed (hcond jobs s₁ hprepare) hjobs

/-! ### Requests -/

theorem request_grows (accountId : Uuid) (kind format : String) (scope : Json) (context : AuditContext) :
    Tx.Keeps Grows (ExportService.request rt accountId kind format scope context) := by
  have hid : Tx.Keeps Grows (newUuid rt) := fun _ => List.prefix_refl _
  refine (Tx.Keeps.raiseIf _ _).bind fun _ => (Tx.Keeps.raiseIf _ _).bind fun _ => ?_
  refine utcNow_grows.bind fun now => hid.bind fun id => (add_grows _).bind fun _ => ?_
  refine (enqueue_grows _ _ _ _ _).bind fun _ => Tx.Keeps.bind ?_ fun _ => Tx.Keeps.pure _
  refine (Tx.Keeps.gets _).bind fun previous => utcNow_grows.bind fun occurredAt => ?_
  exact (add_grows _).bind fun _ => Tx.Keeps.pure _

/-- The identifiers that the program makes are read back from their texts. -/
def ReadsBack (rt : Runtime) : Prop := ∀ n, rt.parseUuid (rt.strUuid (rt.uuid4 n)) = some (rt.uuid4 n)

/-- A new record without a job. -/
theorem Sound.addRecord {s : Session} {record : ExportRecord} {t : Table ExportRecord.id} (h : Sound rt s)
    (hinsert : s.db.exportRecords.insert? record = some t) (hstate : record.state = "queued") :
    Sound rt { s with db := { s.db with exportRecords := t } } := by
  have hfresh := Table.insert?_eq_some hinsert
  have hne : ∀ job ∈ s.db.backgroundJobs, ∀ exportId, Generates rt job exportId → exportId ≠ record.id := by
    rintro job hjob exportId hg rfl
    exact h.found job hjob _ hg (Table.find?_eq_none.mpr fun r hr heq =>
      hfresh.2 (heq ▸ List.mem_map_of_mem hr))
  constructor
  · constructor
    · intro job hjob hfailed exportId hg other hfind
      rw [Table.find?_insert?_of_ne hinsert (hne job hjob exportId hg)] at hfind
      exact h.fates job hjob hfailed exportId hg other hfind
    · intro other hother hcompleted
      rcases (Table.mem_insert? hinsert).mp hother with hold | rfl
      · exact h.digests other hold hcompleted
      · rw [hstate] at hcompleted
        exact absurd hcompleted (by decide)
  · intro job hjob exportId hg
    change t.find? exportId ≠ none
    rw [Table.find?_insert?_of_ne hinsert (hne job hjob exportId hg)]
    exact h.found job hjob exportId hg
  · exact h.unique

/-- **A request** adds a record and its job. -/
theorem request_ok {accountId : Uuid} {kind format : String} {scope : Json} {context : AuditContext}
    {s s' : Session} {record : ExportRecord} (hreads : ReadsBack rt) (hsound : Sound rt s)
    (h : ExportService.request rt accountId kind format scope context s = (.ok record, s')) :
    Sound rt s' := by
  obtain ⟨-, h₁⟩ := Tx.raiseIf_bind_eq_ok h
  obtain ⟨-, h₂⟩ := Tx.raiseIf_bind_eq_ok h₁
  obtain ⟨now, s₁, hnow, h₃⟩ := Tx.bind_eq_ok h₂
  obtain ⟨-, rfl⟩ := Prod.mk.inj hnow
  obtain ⟨id, s₂, hnew, h₄⟩ := Tx.bind_eq_ok h₃
  obtain ⟨hid, rfl⟩ := Prod.mk.inj hnew
  have hback : rt.parseUuid (rt.strUuid id) = some id := by
    obtain rfl := Except.ok.inj hid
    exact hreads _
  obtain ⟨u, s₃, hadd, h₅⟩ := Tx.bind_eq_ok h₄
  obtain ⟨t, ht, rfl⟩ := Relation.add_eq_ok hadd
  have hinsert : s.db.exportRecords.insert? _ = some t := (Relation.insertRow_eq_ok ht).1
  have hrecord : Sound rt { s with db := { s.db with exportRecords := t } } := hsound.addRecord hinsert rfl
  obtain ⟨job, s₄, henqueue, h₆⟩ := Tx.bind_eq_ok h₅
  obtain ⟨-, hpayload, hqueued, hjobs, hdb, hfiles⟩ := JobService.enqueue_ok henqueue
  have hjob : Sound rt s₄ := by
    refine (hrecord.of_same rfl (List.prefix_refl _)).addJob hjobs hdb hfiles hqueued fun exportId hg => ?_
    -- the identifier in the payload is the new one
    have hsame : exportId = id := by
      have hg' := hg.2
      have hread : JobService.payloadUuid rt "export_id" (.obj [("export_id", .str (rt.strUuid id))]) =
          .ok id := by
        simp [JobService.payloadUuid, Json.get?, Json.entries, hback]
      rw [exportIdOf, hpayload, hread] at hg'
      exact (Except.ok.inj hg').symm
    subst hsame
    refine ⟨?_, fun other hother hg' => ?_⟩
    · have hself := Table.find?_insert?_self hinsert
      change t.find? exportId ≠ none
      rw [hself]
      exact Option.some_ne_none _
    · obtain ⟨old, hold⟩ := Option.ne_none_iff_exists'.mp (hsound.found other hother exportId hg')
      have hmem : exportId ∈ s.db.exportRecords.rows.map ExportRecord.id :=
        List.mem_map.mpr ⟨old, Table.mem_of_find? hold, Table.key_of_find? hold⟩
      exact (Table.insert?_eq_some hinsert).2 hmem
  obtain ⟨event, s₅, hevent, h₇⟩ := Tx.bind_eq_ok h₆
  obtain ⟨-, rfl⟩ := Prod.mk.inj h₇
  obtain ⟨previous, s₆, hprevious, h₈⟩ := Tx.bind_eq_ok hevent
  obtain ⟨-, rfl⟩ := Prod.mk.inj hprevious
  obtain ⟨occurredAt, s₇, hocc, h₉⟩ := Tx.bind_eq_ok h₈
  obtain ⟨-, rfl⟩ := Prod.mk.inj hocc
  obtain ⟨u, s₈, hadd', hpure⟩ := Tx.bind_eq_ok h₉
  obtain ⟨-, rfl⟩ := Prod.mk.inj hpure
  obtain ⟨t', -, rfl⟩ := Relation.add_eq_ok hadd'
  exact hjob.of_same rfl (List.prefix_refl _)

theorem request_notDurable (accountId : Uuid) (kind format : String) (scope : Json) (context : AuditContext) :
    NotDurable (ExportService.request rt accountId kind format scope context) := by
  unfold ExportService.request
  refine (Tx.RaisesOnly.raiseIf fun _ => by decide).bind fun _ => ?_
  refine (Tx.RaisesOnly.raiseIf fun _ => by decide).bind fun _ => ?_
  refine (utcNow_noDomain rt).notDurable.bind fun now => (newUuid_noDomain rt).notDurable.bind fun id => ?_
  refine (Relation.add_noDomain _).notDurable.bind fun _ => ?_
  refine (JobService.enqueue_noDomain _ _ _ _ _ _).notDurable.bind fun _ => ?_
  exact AuditService.append_noDomain.notDurable.bind fun _ => Tx.RaisesOnly.pure _

/-! ### Runs -/

/-- A transaction that concerns the exports. -/
inductive ExportAction where
  | request (accountId : Uuid) (kind format : String) (scope : Json) (context : AuditContext)
      (began : DateTime)
  | batch (maintenance : Bool) (locked : BackgroundJob → Bool) (workerId : String) (began : DateTime)
  /-- A batch whose worker stops, after some operations on files, before the transaction ends. -/
  | crash (maintenance : Bool) (locked : BackgroundJob → Bool) (workerId : String) (began : DateTime)
      (operations : ℕ)

namespace ExportAction

/-- The session after an action. -/
def step (rt : Runtime) (storage : Storage) (render : Db → DateTime → ExportRecord → Except Exc String)
    (s : Session) : ExportAction → Option Session
  | request accountId kind format scope context began =>
    some (Database.session (ExportService.request rt accountId kind format scope context)
      { s with began := began }).2
  | batch maintenance locked workerId began =>
    some (Database.session (Worker.batch rt storage render maintenance locked workerId)
      { s with began := began }).2
  | crash maintenance locked workerId began operations =>
    let stopped := (Worker.batch rt storage render maintenance locked workerId { s with began := began }).2
    some { s.rollback stopped with files := stopped.files.take (s.files.length + operations) }

/-- No job of the action fails for good while its record is open. -/
def Unfailing (rt : Runtime) (storage : Storage) (render : Db → DateTime → ExportRecord → Except Exc String)
    (s : Session) : ExportAction → Prop
  | batch maintenance locked workerId began =>
    ∀ jobs s₁, prepare rt maintenance locked workerId { s with began := began } = (.ok jobs, s₁) →
      Runs.Along (jobStep rt storage render) (fun s job => ¬FailsForGood rt storage render s job) s₁ jobs
  | _ => True

end ExportAction

/-- No export has been requested yet. -/
def NoExports (s : Session) : Prop :=
  s.db.exportRecords.rows = [] ∧ ∀ job ∈ s.db.backgroundJobs, job.kind ≠ "export_generate"

theorem NoExports.sound {s : Session} (h : NoExports s) : Sound rt s := by
  constructor
  · constructor
    · exact fun job hjob _ exportId hg => absurd hg.1 (h.2 job hjob)
    · intro record hrecord
      rw [Table.mem_def, h.1] at hrecord
      exact absurd hrecord List.not_mem_nil
  · exact fun job hjob exportId hg => absurd hg.1 (h.2 job hjob)
  · exact fun job hjob _ _ exportId hg => absurd hg.1 (h.2 job hjob)

/-- A session around work that leaves sound rows behind when it returns. -/
theorem session_sound {α : Type} {m : Work α} {s : Session} (hsound : Sound rt s) (hdurable : NotDurable m)
    (hgrows : Tx.Keeps Grows m) (hok : ∀ a s', m s = (.ok a, s') → Sound rt s') :
    Sound rt (Database.session m s).2 := by
  rcases hm : m s with ⟨e | a, s'⟩
  · rw [Database.session_of_rollback hm (hdurable s e (congrArg Prod.fst hm))]
    have hfiles : s.files <+: s'.files := hgrows.of_apply hm
    exact hsound.of_same rfl hfiles
  · rw [Database.session_of_ok hm]
    exact hok a s' hm

/-- **Step lemma**: an action in which no job fails for good leaves sound rows behind. -/
theorem step_sound {s s' : Session} {a : ExportAction} (hreads : ReadsBack rt) (hsound : Sound rt s)
    (hcond : a.Unfailing rt storage render s) (h : a.step rt storage render s = some s') :
    Sound rt s' := by
  have hbegan : ∀ began, Sound rt { s with began := began } :=
    fun began => hsound.of_same rfl (List.prefix_refl _)
  cases a with
  | request accountId kind format scope context began =>
      obtain rfl := Option.some.inj h
      exact session_sound (hbegan began) (request_notDurable _ _ _ _ _) (request_grows _ _ _ _ _)
        fun _ _ hm => request_ok hreads (hbegan began) hm
  | batch maintenance locked workerId began =>
      obtain rfl := Option.some.inj h
      exact session_sound (hbegan began) (batch_noDomain _ _ _).notDurable (batch_grows _ _ _)
        fun _ _ hm => batch_ok (hbegan began) hcond hm
  | crash maintenance locked workerId began operations =>
      obtain rfl := Option.some.inj h
      have hgrows : Tx.Keeps Grows (Worker.batch rt storage render maintenance locked workerId) :=
        batch_grows maintenance locked workerId
      refine hsound.of_same rfl ?_
      exact List.prefix_take_iff.mpr ⟨hgrows { s with began := began }, Nat.le_add_right _ _⟩

/-- **Every record tells the fate of its job** in a run in which no job fails for good while its record
is open. -/
theorem fate_told {s t : Session} {actions : List ExportAction} (hreads : ReadsBack rt) (h₀ : NoExports s)
    (hcond : Runs.Along (ExportAction.step rt storage render) (ExportAction.Unfailing rt storage render) s
      actions)
    (hrun : Runs.run (ExportAction.step rt storage render) s actions = some t) : Telling rt t := by
  have hsound : Sound rt t := Runs.inv_of_along (I := fun s => Sound rt s)
    (fun _ _ _ hsound hunfailing hstep => step_sound hreads hsound hunfailing hstep) h₀.sound hcond hrun
  exact hsound.toTelling

/-! ### A job that fails for good -/

def slowId (reading : ℕ) : Uuid := 2 ^ 64 + reading % 2 ^ 64

theorem slowId_lt (reading : ℕ) : slowId reading < 16 ^ 32 := by
  have hlt : 2 ^ 64 + reading % 2 ^ 64 < 16 ^ 32 := by omega
  exact hlt

/-- The sample runtime with a clock that advances by five minutes at each reading. -/
def slowRuntime : Runtime :=
  { Runtime.sample 1767268800000000 [] with
    clock := fun reading => 1767268800000000 + 300000000 * reading
    uuid4 := slowId }

theorem slowRuntime_ids : slowRuntime.parseUuid = Runtime.parseUuidText ∧
    slowRuntime.strUuid = Runtime.uuidText ∧ slowRuntime.uuid4 = slowId := ⟨rfl, rfl, rfl⟩

theorem slowRuntime_readsBack : ReadsBack slowRuntime := by
  intro n
  obtain ⟨hparse, hstr, hnew⟩ := slowRuntime_ids
  rw [hparse, hstr, hnew]
  exact Runtime.parseUuidText_of_lt (slowId_lt n)

/-- Exports below `/exports`, on a file system that is out of order or not. -/
def sampleStorage (faulty : Bool) : Storage :=
  ⟨["exports"], id, fun _ => if faulty then some ⟨"OSError", none⟩ else none⟩

def sampleRender (_ : Db) (_ : DateTime) (_ : ExportRecord) : Except Exc String := .ok "{}"

def requested : ExportAction :=
  .request 1 "history" "json" (.obj []) { actorType := "user", actorId := some 1 } (.utc 1767268800000000)

def worked : ExportAction := .batch false (fun _ => false) "worker" (.utc 1767268800000000)

/-- An export is requested, and its job tried five times. -/
def triedFiveTimes : List ExportAction := requested :: List.replicate 5 worked

theorem emptySession_noExports : NoExports Closing.emptySession :=
  ⟨rfl, fun _ h => absurd h List.not_mem_nil⟩

/-- The job of an export fails on a file system that is out of order, and its record stays queued. -/
theorem fate_untold : ¬∀ (rt : Runtime) (storage : Storage)
    (render : Db → DateTime → ExportRecord → Except Exc String) (s t : Session) (actions : List ExportAction),
    ReadsBack rt → NoExports s → Runs.run (ExportAction.step rt storage render) s actions = some t →
    Telling rt t := by
  intro h
  have hrun : ((Runs.run (ExportAction.step slowRuntime (sampleStorage true) sampleRender)
      Closing.emptySession triedFiveTimes).any fun t =>
        t.db.backgroundJobs.rows.any fun job => t.db.exportRecords.rows.any fun record =>
          decide (job.state = "failed" ∧ job.kind = "export_generate" ∧
            (exportIdOf slowRuntime job).toOption = some record.id ∧ record.state = "queued")) = true := by
    decide +kernel
  obtain ⟨t, ht, hjobs⟩ := (Option.any_eq_true _ _).mp hrun
  obtain ⟨job, hjob, hrecords⟩ := List.any_eq_true.mp hjobs
  obtain ⟨record, hrecord, hfate⟩ := List.any_eq_true.mp hrecords
  obtain ⟨hfailed, hkind, hid, hqueued⟩ := of_decide_eq_true hfate
  have hid' : exportIdOf slowRuntime job = .ok record.id := by
    rcases hr : exportIdOf slowRuntime job with e | id
    · rw [hr] at hid
      exact absurd hid (by simp [Except.toOption])
    · rw [hr] at hid
      rw [Option.some.inj hid]
  have htelling := h _ _ _ _ t _ slowRuntime_readsBack emptySession_noExports ht
  rcases htelling.fates job hjob hfailed record.id ⟨hkind, hid'⟩ record (Table.find?_of_mem hrecord)
    with hstate | hstate
  · rw [hqueued] at hstate
    exact absurd hstate (by decide)
  · rw [hqueued] at hstate
    exact absurd hstate (by decide)

/-- An export is requested, and a worker generates it. -/
theorem fate_told_generated : ∃ t,
    Runs.run (ExportAction.step slowRuntime (sampleStorage false) sampleRender)
      Closing.emptySession [requested, worked] = some t ∧ Telling slowRuntime t := by
  obtain ⟨t, ht⟩ : ∃ t, Runs.run (ExportAction.step slowRuntime (sampleStorage false) sampleRender)
      Closing.emptySession [requested, worked] = some t := ⟨_, rfl⟩
  refine ⟨t, ht, fate_told slowRuntime_readsBack emptySession_noExports ?_ ht⟩
  refine ⟨trivial, fun s hs => ⟨fun jobs s₁ hprepare => ?_, fun _ _ => trivial⟩⟩
  obtain rfl := Option.some.inj hs
  -- the only job is tried for the first time
  have hfirst : (match (prepare slowRuntime false (fun _ => false) "worker"
        { (Database.session (ExportService.request slowRuntime 1 "history" "json" (.obj [])
            { actorType := "user", actorId := some 1 })
            { Closing.emptySession with began := .utc 1767268800000000 }).2 with
          began := .utc 1767268800000000 }).1 with
      | .ok jobs => jobs.all fun job => decide (job.attempts < job.maxAttempts)
      | .error _ => true) = true := by
    decide +kernel
  rw [congrArg Prod.fst hprepare] at hfirst
  refine (Runs.Along.of_mem fun job hjob => of_decide_eq_true (List.all_eq_true.mp hfirst job hjob)).mono ?_
  intro s job hlt hfails
  have hge := hfails.2.1
  omega

end Worker

end KajovoDagmar
