import KajovoDagmar.Library.LockedRows
import KajovoDagmar.Worker

/-! # The life of a job

Any number of workers run batches of jobs concurrently.  A batch is one transaction: it enqueues what the
maintenance and the dispatch of the outbox ask for, claims up to ten jobs that are free, and runs the
handler of each in a savepoint.  Other sessions enqueue jobs meanwhile, and the backup agent works on the
jobs of its own kinds.  Of what a handler or another session does, only its effect on the jobs matters:
it may add jobs, and it changes none that the worker handles.

The claim of a batch passes over the jobs that another batch has locked.  What the batch writes is published
by its commit, from the jobs as they were when it locked them; a job that it has enqueued itself is free.

`HandlerRun` is a record of the runs of the handlers in the batches that have been committed.  The program
keeps none. -/

namespace KajovoDagmar.JobCycle

open Worker (attempt_noDomain attempt_ok conclude conclude_noDomain dispatchEvent runJob)

variable (out : Outside)

/-- `set(self.handlers)`. -/
def handledKinds : List String :=
  ["memory_index", "conversation_finalize", "conversation_index", "corrected_turn_reprocess",
    "password_reset_notification", "purge_expired", "export_generate", "search_reindex_all"]

/-- A run of the handler of a job: its job and the number of the attempt. -/
structure HandlerRun where
  jobId : Uuid
  attempt : ℕ
deriving DecidableEq

/-- A job that no batch has claimed yet. -/
def Untried (job : BackgroundJob) : Prop := job.state = "queued" ∧ job.attempts = 0 ∧ 0 < job.maxAttempts

/-- No job that the worker handles is changed, and those that are new have not been tried. -/
structure AddsJobs (s s' : Session) : Prop where
  kept : ∀ job ∈ s.db.backgroundJobs, job.kind ∈ handledKinds → job ∈ s'.db.backgroundJobs
  ids : ∀ job ∈ s.db.backgroundJobs, ∃ job' ∈ s'.db.backgroundJobs, job'.id = job.id
  fresh : ∀ job ∈ s'.db.backgroundJobs, job.kind ∈ handledKinds → job ∈ s.db.backgroundJobs ∨
    ((∀ job' ∈ s.db.backgroundJobs, job'.id ≠ job.id) ∧ Untried job)

instance : Std.Refl AddsJobs := ⟨fun _ =>
  { kept := fun _ h _ => h
    ids := fun job h => ⟨job, h, rfl⟩
    fresh := fun _ h _ => .inl h }⟩

instance : IsTrans Session AddsJobs where
  trans _ _ _ h h' :=
    { kept := fun job hjob hkind => h'.kept job (h.kept job hjob hkind) hkind
      ids := fun job hjob => by
        obtain ⟨job₁, hjob₁, hid₁⟩ := h.ids job hjob
        obtain ⟨job₂, hjob₂, hid₂⟩ := h'.ids job₁ hjob₁
        exact ⟨job₂, hjob₂, hid₂.trans hid₁⟩
      fresh := fun job hjob hkind => by
        rcases h'.fresh job hjob hkind with hold | ⟨hnew, huntried⟩
        · exact h.fresh job hold hkind
        · refine .inr ⟨fun job' hjob' hid => ?_, huntried⟩
          obtain ⟨job₁, hjob₁, hid₁⟩ := h.ids job' hjob'
          exact hnew job₁ hjob₁ (hid₁.trans hid) }

/-- Work that adds jobs: a handler, or another session. -/
structure JobWork where
  work : Work PUnit
  adds : Tx.Keeps AddsJobs work

/-- A turn of the loop of `run`: whether the hourly maintenance is due, the events that its dispatch has
locked, how many of the ten jobs its own new ones leave to others, the time of its claim, and the handler
of each job. -/
structure Batch where
  workerId : String
  maintenance : Bool
  events : List OutboxEvent
  room : ℕ
  claimedAt : DateTime
  handlers : BackgroundJob → JobWork
  began : DateTime
  tick : ℕ

namespace Batch

/-- The hourly maintenance. -/
def maintain (batch : Batch) : Work PUnit :=
  if batch.maintenance then do
    let _ ← JobService.enqueue out.toRuntime "purge_expired" (.obj [])
    pure ⟨⟩
  else pure ⟨⟩

/-- What a batch does before its claim. -/
def before (batch : Batch) : Work PUnit := do
  batch.maintain out
  let _ ← Tx.forEach (dispatchEvent out) batch.events
  pure ⟨⟩

/-- `claim` of the jobs that the batch has locked and of those that it has enqueued itself. -/
def claim (batch : Batch) (taken : List BackgroundJob) (committed : Db) : Work (List BackgroundJob) := do
  let now ← utcNow out.toRuntime
  let own ← Db.backgroundJob.select fun job =>
    JobService.claimable now handledKinds job ∧ (committed.backgroundJobs.find? job.id).isNone
  Tx.forEach (JobService.claimRow out.toRuntime batch.workerId)
    (((taken ++ own).insertionSort fun a b => JobService.claimOrder a b = true).take 10)

/-- A claimed job, with the run of its handler. -/
def handle (batch : Batch) (job : BackgroundJob) : Work (List HandlerRun) :=
  if job.kind ∈ handledKinds then do
    runJob out.toRuntime (batch.handlers job).work job
    pure [⟨job.id, job.attempts⟩]
  else do
    JobService.fail out.toRuntime job "unsupported_job_kind"
    pure []

/-- A batch, with the runs of the handlers. -/
def work (batch : Batch) (taken : List BackgroundJob) (committed : Db) : Work (List HandlerRun) := do
  batch.before out
  let jobs ← batch.claim out taken committed
  let runs ← Tx.forEach (batch.handle out) jobs
  pure runs.flatten

end Batch

/-- The committed rows, and the runs of the handlers in each batch that has been committed. -/
structure Ledger where
  db : Db
  batches : List (List HandlerRun)

namespace Ledger

/-- The runs of the handlers, in the order of the commits. -/
def runs (ledger : Ledger) : List HandlerRun := ledger.batches.flatten

/-- The runs of the handler of a job. -/
def runsOf (ledger : Ledger) (jobId : Uuid) : List HandlerRun :=
  ledger.runs.filter fun run => run.jobId = jobId

end Ledger

/-- A transaction: a batch of a worker, or another session. -/
inductive Txn where
  | batch (batch : Batch)
  | session (session : JobWork) (began : DateTime) (tick : ℕ)

/-- What the transaction publishes when it ends. -/
def publish : Txn → List BackgroundJob → Ledger → Option Ledger
  | .batch batch, taken, ledger =>
    match Database.session (batch.work out taken ledger.db)
      { db := ledger.db, began := batch.began, tick := batch.tick } with
    | (.ok runs, s) => some ⟨s.db, ledger.batches ++ [runs]⟩
    | (.error _, s) => some ⟨s.db, ledger.batches⟩
  | .session session began tick, _, ledger =>
    some { ledger with
      db := (Database.session session.work { db := ledger.db, began := began, tick := tick }).2.db }

/-- The jobs that a claim selects, in its order. -/
def candidates : Txn → Ledger → List BackgroundJob
  | .batch batch, ledger =>
    (ledger.db.backgroundJobs.select (JobService.claimable batch.claimedAt handledKinds)).insertionSort
      fun a b => JobService.claimOrder a b = true
  | .session _ _ _, _ => []

/-- The transaction selects the job, as last committed. -/
def selects : Txn → BackgroundJob → Bool
  | .batch batch, job => JobService.claimable batch.claimedAt handledKinds job
  | .session _ _ _, _ => false

def room : Txn → ℕ
  | .batch batch => batch.room
  | .session _ _ _ => 0

theorem candidates_nodup (txn : Txn) (ledger : Ledger) :
    ((candidates txn ledger).map BackgroundJob.id).Nodup := by
  cases txn with
  | batch batch =>
      have hsub : (ledger.db.backgroundJobs.select
          (JobService.claimable batch.claimedAt handledKinds)).Sublist ledger.db.backgroundJobs.rows :=
        List.filter_sublist
      have hperm := List.perm_insertionSort (fun a b : BackgroundJob => JobService.claimOrder a b = true)
        (ledger.db.backgroundJobs.select (JobService.claimable batch.claimedAt handledKinds))
      exact (hperm.map _).nodup_iff.mpr (ledger.db.backgroundJobs.nodup.sublist (hsub.map _))
  | session session began tick => exact List.nodup_nil

/-- The transactions, and the jobs that they lock. -/
def selection : SkipLocked.Selection Uuid Ledger BackgroundJob Txn where
  key := BackgroundJob.id
  find ledger jobId := ledger.db.backgroundJobs.find? jobId
  candidates := candidates
  qualifies := selects
  room := room
  publish := publish out
  key_of_find := Table.key_of_find?
  nodup := candidates_nodup

abbrev JobState := ReadCommitted.State Uuid Ledger (SkipLocked.Stage BackgroundJob Txn)

abbrev JobEvent := ReadCommitted.Event (SkipLocked.Stage BackgroundJob Txn)

def jobStep (s : JobState) (e : JobEvent) : Option JobState := (selection out).step s e

variable {out}

/-! ### Work that adds jobs -/

theorem AddsJobs.of_same {s s' : Session} (h : Same Db.backgroundJobs s s') : AddsJobs s s' := by
  have hjobs : s'.db.backgroundJobs = s.db.backgroundJobs := h
  constructor
  · rw [hjobs]
    exact fun _ hjob _ => hjob
  · rw [hjobs]
    exact fun job hjob => ⟨job, hjob, rfl⟩
  · rw [hjobs]
    exact fun _ hjob _ => .inl hjob

theorem adds_of_same {α : Type} {m : Work α} (h : Tx.Keeps (Same Db.backgroundJobs) m) :
    Tx.Keeps AddsJobs m := fun s => .of_same (h s)

theorem enqueue_adds {rt : Runtime} (kind : String) (payload : Json) (priority delaySeconds : ℤ)
    (correlationId : Option String) (jobId : Option Uuid) :
    Tx.Keeps AddsJobs (JobService.enqueue rt kind payload priority delaySeconds correlationId jobId) := by
  unfold JobService.enqueue
  refine Tx.Keeps.bind ?_ fun id => ?_
  · cases jobId with
    | none => exact adds_of_same (Same.newUuid rt)
    | some id => exact Tx.Keeps.pure _
  · refine (adds_of_same (Same.utcNow rt)).bind fun now => Tx.Keeps.bind ?_ fun _ => Tx.Keeps.pure _
    intro s
    rcases hs : Db.backgroundJob.add rt _ s with ⟨e | u, s'⟩
    · obtain rfl := (Relation.add_error hs).1
      exact Std.Refl.refl _
    · obtain ⟨t, ht, rfl⟩ := Relation.add_eq_ok hs
      have hinsert := (Relation.insertRow_eq_ok ht).1
      have hmem := fun x => Table.mem_insert? (x := x) hinsert
      refine ⟨fun job hjob _ => (hmem job).mpr (.inl hjob),
        fun job hjob => ⟨job, (hmem job).mpr (.inl hjob), rfl⟩, fun job hjob _ => ?_⟩
      rcases (hmem job).mp hjob with hold | rfl
      · exact .inl hold
      · refine .inr ⟨fun job' hjob' hid => ?_, rfl, rfl, Nat.zero_lt_succ 4⟩
        have hnone := Table.insert?_eq_none_iff.mpr ⟨job', hjob', hid⟩
        exact Option.some_ne_none _ (hinsert.symm.trans hnone)

/-- A session that is rolled back adds nothing. -/
theorem session_adds {m : Work PUnit} (h : Tx.Keeps AddsJobs m) : Tx.Keeps AddsJobs (Database.session m) := by
  intro s
  rcases hs : m s with ⟨e | u, s'⟩
  · by_cases hdurable : e.Durable
    · rw [Database.session_of_durable hs hdurable]
      exact h.of_apply hs
    · rw [Database.session_of_rollback hs hdurable]
      exact .of_same rfl
  · rw [Database.session_of_ok hs]
    exact h.of_apply hs

theorem dispatchEvent_adds (event : OutboxEvent) : Tx.Keeps AddsJobs (dispatchEvent out event) := by
  refine Tx.Keeps.bind (Tx.Keeps.forEach fun kind => enqueue_adds _ _ _ _ _ _) fun _ => ?_
  refine (adds_of_same (Same.utcNow _)).bind fun now => adds_of_same ?_
  exact Relation.save_keeps fun _ => rfl

theorem Batch.before_adds (batch : Batch) : Tx.Keeps AddsJobs (batch.before out) := by
  refine Tx.Keeps.bind ?_ fun _ => (Tx.Keeps.forEach dispatchEvent_adds).bind fun _ => Tx.Keeps.pure _
  unfold Batch.maintain
  split
  · exact (enqueue_adds _ _ _ _ _ _).bind fun _ => Tx.Keeps.pure _
  · exact Tx.Keeps.pure _

/-! ### Work that only the jobs can stop -/

theorem fail_noDomain {rt : Runtime} (job : BackgroundJob) (code : String) :
    NoDomain (JobService.fail rt job code) :=
  (utcNow_noDomain rt).bind fun _ => Relation.save_noDomain _

theorem dispatchEvent_noDomain (event : OutboxEvent) : NoDomain (dispatchEvent out event) :=
  (Tx.RaisesOnly.forEach fun _ => JobService.enqueue_noDomain _ _ _ _ _ _).bind fun _ =>
    (utcNow_noDomain _).bind fun _ => Relation.save_noDomain _

theorem Batch.before_noDomain (batch : Batch) : NoDomain (batch.before out) := by
  refine Tx.RaisesOnly.bind ?_ fun _ =>
    (Tx.RaisesOnly.forEach dispatchEvent_noDomain).bind fun _ => Tx.RaisesOnly.pure _
  unfold Batch.maintain
  split
  · exact (JobService.enqueue_noDomain _ _ _ _ _ _).bind fun _ => Tx.RaisesOnly.pure _
  · exact Tx.RaisesOnly.pure _

theorem Batch.claim_noDomain (batch : Batch) (taken : List BackgroundJob) (committed : Db) :
    NoDomain (batch.claim out taken committed) :=
  (utcNow_noDomain _).bind fun _ => (Tx.RaisesOnly.gets _).bind fun _ => Tx.RaisesOnly.forEach fun _ =>
    (utcNow_noDomain _).bind fun _ => (Relation.save_noDomain _).bind fun _ => Tx.RaisesOnly.pure _

theorem Batch.handle_noDomain (batch : Batch) (job : BackgroundJob) : NoDomain (batch.handle out job) := by
  unfold Batch.handle
  split
  · refine Tx.RaisesOnly.bind ?_ fun _ => Tx.RaisesOnly.pure _
    exact (attempt_noDomain _).bind fun outcome => conclude_noDomain job outcome
  · exact (fail_noDomain _ _).bind fun _ => Tx.RaisesOnly.pure _

/-- What a batch raises makes its session roll back. -/
theorem Batch.work_notDurable (batch : Batch) (taken : List BackgroundJob) (committed : Db) :
    NotDurable (batch.work out taken committed) := by
  refine NoDomain.notDurable ?_
  exact (batch.before_noDomain).bind fun _ => (batch.claim_noDomain taken committed).bind fun _ =>
    (Tx.RaisesOnly.forEach batch.handle_noDomain).bind fun _ => Tx.RaisesOnly.pure _

/-! ### The jobs and the runs of their handlers -/

/-- What a job is between two batches. -/
def Settled (job : BackgroundJob) : Prop :=
  (job.state = "queued" ∧ job.attempts < job.maxAttempts) ∨ job.state = "completed" ∨
    (job.state = "failed" ∧ job.attempts = job.maxAttempts)

/-- The attempts that the runs of a job's handler were. -/
def attemptsOf (runs : List HandlerRun) (jobId : Uuid) : List ℕ :=
  (runs.filter fun run => run.jobId = jobId).map HandlerRun.attempt

theorem attemptsOf_append (runs runs' : List HandlerRun) (jobId : Uuid) :
    attemptsOf (runs ++ runs') jobId = attemptsOf runs jobId ++ attemptsOf runs' jobId := by
  rw [attemptsOf, List.filter_append, List.map_append]
  rfl

theorem attemptsOf_self (jobId : Uuid) (attempt : ℕ) : attemptsOf [⟨jobId, attempt⟩] jobId = [attempt] := by
  simp [attemptsOf]

theorem attemptsOf_of_ne {jobId jobId' : Uuid} (h : jobId ≠ jobId') (attempt : ℕ) :
    attemptsOf [⟨jobId, attempt⟩] jobId' = [] := by
  simp [attemptsOf, h]

theorem attemptsOf_eq_nil {runs : List HandlerRun} {jobId : Uuid} (h : ∀ run ∈ runs, run.jobId ≠ jobId) :
    attemptsOf runs jobId = [] := by
  rw [attemptsOf, List.filter_eq_nil_iff.mpr fun run hrun => by simpa using h run hrun]
  rfl

/-- The jobs while a batch works on those that are `running`: each of the others is settled, and the runs of
its handler have been its attempts, from the first to the last. -/
structure Sound (db : Db) (runs : List HandlerRun) (running : List BackgroundJob) : Prop where
  settled : ∀ job ∈ db.backgroundJobs, job.kind ∈ handledKinds → job ∈ running ∨
    (Settled job ∧ attemptsOf runs job.id = List.range' 1 job.attempts)
  claimed : ∀ job ∈ running, job ∈ db.backgroundJobs ∧ job.kind ∈ handledKinds ∧
    job.attempts ≤ job.maxAttempts ∧ attemptsOf runs job.id ++ [job.attempts] = List.range' 1 job.attempts
  distinct : (running.map BackgroundJob.id).Nodup
  known : ∀ run ∈ runs, ∃ job ∈ db.backgroundJobs, job.id = run.jobId ∧ job.kind ∈ handledKinds

/-- The jobs of `base` that are none of the given ones are still there. -/
def Spared (base : Db) (taken : List BackgroundJob) (db : Db) : Prop :=
  ∀ job ∈ base.backgroundJobs, job.kind ∈ handledKinds → job.id ∉ taken.map BackgroundJob.id →
    job ∈ db.backgroundJobs

/-- A batch may change the job: it has locked it, or enqueued it itself. -/
def Mine (base : Db) (taken : List BackgroundJob) (jobId : Uuid) : Prop :=
  jobId ∈ taken.map BackgroundJob.id ∨ ∀ job ∈ base.backgroundJobs, job.id ≠ jobId

theorem Sound.adds {s s' : Session} {runs : List HandlerRun} {running : List BackgroundJob}
    (h : Sound s.db runs running) (hs : AddsJobs s s') : Sound s'.db runs running := by
  refine ⟨fun job hjob hkind => ?_, fun job hjob => ?_, h.distinct, fun run hrun => ?_⟩
  · rcases hs.fresh job hjob hkind with hold | ⟨hnew, hqueued, hzero, hpos⟩
    · exact h.settled job hold hkind
    · refine .inr ⟨.inl ⟨hqueued, by rwa [hzero]⟩, ?_⟩
      rw [hzero]
      refine attemptsOf_eq_nil fun run hrun hid => ?_
      obtain ⟨job', hjob', hid', -⟩ := h.known run hrun
      exact hnew job' hjob' (hid'.trans hid)
  · obtain ⟨hmem, hkind, hrest⟩ := h.claimed job hjob
    exact ⟨hs.kept job hmem hkind, hkind, hrest⟩
  · obtain ⟨job, hjob, hid, hkind⟩ := h.known run hrun
    exact ⟨job, hs.kept job hjob hkind, hid, hkind⟩

theorem Spared.adds {base : Db} {taken : List BackgroundJob} {s s' : Session} (h : Spared base taken s.db)
    (hs : AddsJobs s s') : Spared base taken s'.db :=
  fun job hjob hkind hnot => hs.kept job (h job hjob hkind hnot) hkind

/-- A job that the batch may change is replaced. -/
theorem Spared.put {base db : Db} {taken : List BackgroundJob} {row : BackgroundJob}
    (h : Spared base taken db) (hrow : Mine base taken row.id) :
    Spared base taken { db with backgroundJobs := db.backgroundJobs.put row } := by
  intro job hjob hkind hnot
  refine Table.mem_put_iff.mpr (.inl ⟨h job hjob hkind hnot, fun hid => ?_⟩)
  rcases hrow with hmem | hnew
  · exact hnot (by rwa [hid])
  · exact hnew job hjob hid

/-- A replaced job still has its identity and its kind. -/
theorem known_put {db : Db} {runs : List HandlerRun} {row : BackgroundJob} (hrow : row.kind ∈ handledKinds)
    (h : ∀ run ∈ runs, ∃ job ∈ db.backgroundJobs, job.id = run.jobId ∧ job.kind ∈ handledKinds) :
    ∀ run ∈ runs, ∃ job ∈ db.backgroundJobs.put row, job.id = run.jobId ∧ job.kind ∈ handledKinds := by
  intro run hrun
  obtain ⟨job, hjob, hid, hkind⟩ := h run hrun
  by_cases hsame : job.id = row.id
  · exact ⟨row, Table.mem_put_iff.mpr (.inr ⟨rfl, job, hjob, hsame⟩), hsame.symm.trans hid, hrow⟩
  · exact ⟨job, Table.mem_put_iff.mpr (.inl ⟨hjob, hsame⟩), hid, hkind⟩

/-- A claimed job runs. -/
theorem Sound.claim {db : Db} {runs : List HandlerRun} {running : List BackgroundJob} {job : BackgroundJob}
    (h : Sound db runs running) (hjob : job ∈ db.backgroundJobs) (hkind : job.kind ∈ handledKinds)
    (hqueued : job.state = "queued") (hnot : job.id ∉ running.map BackgroundJob.id) (workerId : String)
    (now : DateTime) :
    Sound { db with backgroundJobs := db.backgroundJobs.put (JobService.claimed workerId now job) } runs
      (running ++ [JobService.claimed workerId now job]) := by
  obtain ⟨hsettled, hattempts⟩ := (h.settled job hjob hkind).resolve_left fun hmem =>
    hnot (List.mem_map_of_mem hmem)
  have hlt : job.attempts < job.maxAttempts := by
    rcases hsettled with ⟨-, hlt⟩ | hstate | ⟨hstate, -⟩
    · exact hlt
    · exact absurd (hqueued.symm.trans hstate) (by decide)
    · exact absurd (hqueued.symm.trans hstate) (by decide)
  refine ⟨fun x hx hxkind => ?_, fun x hx => ?_, ?_, known_put hkind h.known⟩
  · rcases Table.mem_put_iff.mp hx with ⟨hold, -⟩ | ⟨rfl, -⟩
    · exact (h.settled x hold hxkind).imp_left fun hmem => List.mem_append_left _ hmem
    · exact .inl (List.mem_append_right _ List.mem_cons_self)
  · rcases List.mem_append.mp hx with hx | hx
    · obtain ⟨hmem, hrest⟩ := h.claimed x hx
      refine ⟨Table.mem_put_iff.mpr (.inl ⟨hmem, fun hid => ?_⟩), hrest⟩
      exact hnot (List.mem_map.mpr ⟨x, hx, hid⟩)
    · obtain rfl := List.mem_singleton.mp hx
      refine ⟨Table.mem_put_iff.mpr (.inr ⟨rfl, job, hjob, rfl⟩), hkind, hlt, ?_⟩
      change attemptsOf runs job.id ++ [job.attempts + 1] = List.range' 1 (job.attempts + 1)
      rw [hattempts, List.range'_1_concat, Nat.add_comm]
  · rw [List.map_append, List.nodup_append]
    refine ⟨h.distinct, List.nodup_singleton _, fun x hx y hy hxy => ?_⟩
    obtain rfl := List.mem_singleton.mp hy
    have hsame : x = job.id := hxy
    exact hnot (hsame ▸ hx)

/-- A job that has run is settled again. -/
theorem Sound.conclude {db : Db} {runs : List HandlerRun} {running : List BackgroundJob}
    {job row : BackgroundJob} (h : Sound db runs (job :: running)) (hid : row.id = job.id)
    (hrow : row.kind = job.kind) (hattempts : row.attempts = job.attempts) (hsettled : Settled row) :
    Sound { db with backgroundJobs := db.backgroundJobs.put row } (runs ++ [⟨job.id, job.attempts⟩])
      running := by
  obtain ⟨hjob, hkind, -, hrange⟩ := h.claimed job List.mem_cons_self
  rw [← hrow] at hkind
  obtain ⟨hnot, hdistinct⟩ := List.nodup_cons.mp h.distinct
  have hother : ∀ x : BackgroundJob, x.id ≠ job.id →
      attemptsOf (runs ++ [⟨job.id, job.attempts⟩]) x.id = attemptsOf runs x.id := by
    intro x hx
    rw [attemptsOf_append, attemptsOf_of_ne (Ne.symm hx), List.append_nil]
  refine ⟨fun x hx hxkind => ?_, fun x hx => ?_, hdistinct, ?_⟩
  · rcases Table.mem_put_iff.mp hx with ⟨hold, hne⟩ | ⟨rfl, -⟩
    · rw [hid] at hne
      rw [hother x hne]
      refine (h.settled x hold hxkind).imp_left fun hmem => ?_
      rcases List.mem_cons.mp hmem with rfl | hmem
      · exact absurd rfl hne
      · exact hmem
    · refine .inr ⟨hsettled, ?_⟩
      rw [hid, hattempts, attemptsOf_append, attemptsOf_self]
      exact hrange
  · obtain ⟨hmem, hrest⟩ := h.claimed x (List.mem_cons_of_mem _ hx)
    have hne : x.id ≠ job.id := fun hsame => hnot (List.mem_map.mpr ⟨x, hx, hsame⟩)
    rw [hother x hne]
    exact ⟨Table.mem_put_iff.mpr (.inl ⟨hmem, by rwa [hid]⟩), hrest⟩
  · intro run hrun
    rcases List.mem_append.mp hrun with hrun | hrun
    · exact known_put hkind h.known run hrun
    · obtain rfl := List.mem_singleton.mp hrun
      exact ⟨row, Table.mem_put_iff.mpr (.inr ⟨rfl, job, hjob, hid.symm⟩), hid, hkind⟩

/-! ### What a batch does -/

theorem settled_completed (job : BackgroundJob) (now : DateTime) : Settled (JobService.completed job now) :=
  .inr (.inl rfl)

/-- A failed job is queued again while it has attempts left. -/
theorem settled_failed {job : BackgroundJob} (h : job.attempts ≤ job.maxAttempts) (code : String)
    (now : DateTime) : Settled (JobService.failed job code now) := by
  unfold JobService.failed
  dsimp only
  split
  · next hge => exact .inr (.inr ⟨rfl, Nat.le_antisymm h hge⟩)
  · next hlt => exact .inl ⟨rfl, Nat.lt_of_not_le hlt⟩

theorem failed_same (job : BackgroundJob) (code : String) (now : DateTime) :
    (JobService.failed job code now).id = job.id ∧ (JobService.failed job code now).kind = job.kind ∧
      (JobService.failed job code now).attempts = job.attempts := by
  unfold JobService.failed
  dsimp only
  split <;> exact ⟨rfl, rfl, rfl⟩

variable {base : Db} {taken : List BackgroundJob} {batch : Batch}

/-- The claim of jobs that are free. -/
theorem forEach_claimRow_ok (running : List BackgroundJob) {workerId : String} {rows jobs : List BackgroundJob}
    {s s' : Session} {runs : List HandlerRun}
    (h : Tx.forEach (JobService.claimRow out.toRuntime workerId) rows s = (.ok jobs, s'))
    (hrows : ∀ job ∈ rows, job ∈ s.db.backgroundJobs ∧ job.kind ∈ handledKinds ∧ job.state = "queued" ∧
      Mine base taken job.id)
    (hdistinct : (rows.map BackgroundJob.id).Nodup)
    (hfree : ∀ job ∈ rows, job.id ∉ running.map BackgroundJob.id) (hsound : Sound s.db runs running)
    (hspared : Spared base taken s.db) :
    jobs.map BackgroundJob.id = rows.map BackgroundJob.id ∧ Sound s'.db runs (running ++ jobs) ∧
      Spared base taken s'.db := by
  induction rows generalizing s jobs running with
  | nil =>
      obtain ⟨hjobs, rfl⟩ := Prod.mk.inj h
      obtain rfl := Except.ok.inj hjobs
      rw [List.append_nil]
      exact ⟨rfl, hsound, hspared⟩
  | cons row rows ih =>
      obtain ⟨job, s₁, hclaim, h₁⟩ := Tx.bind_eq_ok h
      obtain ⟨jobs', s₂, hrest, h₂⟩ := Tx.bind_eq_ok h₁
      obtain ⟨hjobs, rfl⟩ := Prod.mk.inj h₂
      obtain rfl := Except.ok.inj hjobs
      obtain ⟨now, s₃, hnow, h₃⟩ := Tx.bind_eq_ok hclaim
      obtain ⟨-, rfl⟩ := Prod.mk.inj hnow
      obtain ⟨u, s₄, hsave, h₄⟩ := Tx.bind_eq_ok h₃
      obtain ⟨hjob, rfl⟩ := Prod.mk.inj h₄
      obtain rfl := Except.ok.inj hjob
      obtain rfl := Relation.save_eq_ok hsave
      obtain ⟨hrow, hkind, hqueued, hmine⟩ := hrows row List.mem_cons_self
      obtain ⟨hnot, hdistinct⟩ := List.nodup_cons.mp hdistinct
      have hne : ∀ x ∈ rows, x.id ≠ row.id := fun x hx hid => hnot (List.mem_map.mpr ⟨x, hx, hid⟩)
      have hrows' : ∀ x ∈ rows, x ∈ s.db.backgroundJobs.put (JobService.claimed workerId now row) ∧
          x.kind ∈ handledKinds ∧ x.state = "queued" ∧ Mine base taken x.id := by
        intro x hx
        obtain ⟨hx', hrest⟩ := hrows x (List.mem_cons_of_mem _ hx)
        exact ⟨Table.mem_put_iff.mpr (.inl ⟨hx', hne x hx⟩), hrest⟩
      have hfree' : ∀ x ∈ rows,
          x.id ∉ (running ++ [JobService.claimed workerId now row]).map BackgroundJob.id := by
        intro x hx
        rw [List.map_append, List.mem_append, not_or]
        refine ⟨hfree x (List.mem_cons_of_mem _ hx), fun hmem => ?_⟩
        exact hne x hx (List.mem_singleton.mp hmem)
      obtain ⟨hids, hsound', hspared'⟩ := ih (running ++ [JobService.claimed workerId now row]) hrest hrows'
        hdistinct hfree' (hsound.claim hrow hkind hqueued (hfree row List.mem_cons_self) workerId now)
        (hspared.put hmine)
      refine ⟨?_, ?_, hspared'⟩
      · rw [List.map_cons, List.map_cons, hids]
        rfl
      · rw [List.append_assoc] at hsound'
        exact hsound'

/-- The jobs that a batch claims are free. -/
theorem claim_ok {s s' : Session} {jobs : List BackgroundJob} {runs : List HandlerRun}
    (h : batch.claim out taken base s = (.ok jobs, s')) (hsound : Sound s.db runs [])
    (hspared : Spared base taken s.db) (hdistinct : (taken.map BackgroundJob.id).Nodup)
    (htaken : ∀ job ∈ taken, job ∈ base.backgroundJobs ∧ job ∈ s.db.backgroundJobs ∧
      job.kind ∈ handledKinds ∧ job.state = "queued") :
    Sound s'.db runs jobs ∧ Spared base taken s'.db ∧ ∀ job ∈ jobs, Mine base taken job.id := by
  obtain ⟨now, s₁, hnow, h₁⟩ := Tx.bind_eq_ok h
  obtain ⟨-, rfl⟩ := Prod.mk.inj hnow
  obtain ⟨own, s₂, hselect, h₂⟩ := Tx.bind_eq_ok h₁
  obtain ⟨hselected, rfl⟩ := Prod.mk.inj hselect
  have hown : ∀ job ∈ own, job ∈ s.db.backgroundJobs ∧ job.kind ∈ handledKinds ∧ job.state = "queued" ∧
      ∀ x ∈ base.backgroundJobs, x.id ≠ job.id := by
    intro job hjob
    rw [← Except.ok.inj hselected] at hjob
    obtain ⟨hmem, hselects⟩ := List.mem_filter.mp hjob
    obtain ⟨hclaimable, hnew⟩ := of_decide_eq_true hselects
    obtain ⟨hqueued, -, hkind⟩ := of_decide_eq_true hclaimable
    exact ⟨hmem, hkind, hqueued, Table.find?_eq_none.mp (Option.isNone_iff_eq_none.mp hnew)⟩
  have hnodup : ((taken ++ own).map BackgroundJob.id).Nodup := by
    rw [List.map_append, List.nodup_append]
    refine ⟨hdistinct, ?_, ?_⟩
    · rw [← Except.ok.inj hselected]
      exact s.db.backgroundJobs.nodup.sublist (List.filter_sublist.map _)
    · intro x hx y hy hxy
      obtain ⟨job, hjob, rfl⟩ := List.mem_map.mp hx
      obtain ⟨job', hjob', rfl⟩ := List.mem_map.mp hy
      exact (hown job' hjob').2.2.2 job (htaken job hjob).1 hxy
  have hperm := List.perm_insertionSort (fun a b : BackgroundJob => JobService.claimOrder a b = true)
    (taken ++ own)
  have hfree : ∀ job ∈ ((taken ++ own).insertionSort fun a b => JobService.claimOrder a b = true).take 10,
      job ∈ s.db.backgroundJobs ∧ job.kind ∈ handledKinds ∧ job.state = "queued" ∧
        Mine base taken job.id := by
    intro job hjob
    rcases List.mem_append.mp (hperm.subset (List.mem_of_mem_take hjob)) with hmem | hmem
    · obtain ⟨-, hmem', hkind, hqueued⟩ := htaken job hmem
      exact ⟨hmem', hkind, hqueued, .inl (List.mem_map_of_mem hmem)⟩
    · obtain ⟨hmem', hkind, hqueued, hnew⟩ := hown job hmem
      exact ⟨hmem', hkind, hqueued, .inr hnew⟩
  obtain ⟨hids, hsound', hspared'⟩ := forEach_claimRow_ok [] h₂ hfree
    (((hperm.map _).nodup_iff.mpr hnodup).sublist ((List.take_sublist _ _).map _))
    (fun job _ => List.not_mem_nil) hsound hspared
  refine ⟨hsound', hspared', fun job hjob => ?_⟩
  have hid : job.id ∈ jobs.map BackgroundJob.id := List.mem_map_of_mem hjob
  rw [hids] at hid
  obtain ⟨row, hrow, hrowid⟩ := List.mem_map.mp hid
  rw [← hrowid]
  exact (hfree row hrow).2.2.2

/-- What is recorded of a job that has run. -/
theorem conclude_ok {rt : Runtime} {job : BackgroundJob} {outcome : Option Exc} {s s' : Session} {u : PUnit}
    (h : conclude rt job outcome s = (.ok u, s')) (hjob : job ∈ s.db.backgroundJobs)
    (hle : job.attempts ≤ job.maxAttempts) :
    ∃ row, row.id = job.id ∧ row.kind = job.kind ∧ row.attempts = job.attempts ∧ Settled row ∧
      s'.db = { s.db with backgroundJobs := s.db.backgroundJobs.put row } := by
  cases outcome with
  | none =>
      obtain ⟨now, s₁, hnow, hsave⟩ := Tx.bind_eq_ok h
      obtain ⟨-, rfl⟩ := Prod.mk.inj hnow
      obtain rfl := Relation.save_eq_ok hsave
      exact ⟨JobService.completed job now, rfl, rfl, rfl, settled_completed job now, rfl⟩
  | some e =>
      obtain ⟨row?, s₁, hfind, h₁⟩ := Tx.bind_eq_ok h
      obtain ⟨hrow, rfl⟩ := Prod.mk.inj hfind
      obtain rfl := Except.ok.inj hrow
      obtain ⟨row, hrow, h₂⟩ := Tx.orRaise_bind_eq_ok h₁
      -- the job is read again as it was claimed
      obtain rfl : job = row := Option.some.inj ((Table.find?_of_mem hjob).symm.trans hrow)
      obtain ⟨now, s₂, hnow, hsave⟩ := Tx.bind_eq_ok h₂
      obtain ⟨-, rfl⟩ := Prod.mk.inj hnow
      obtain rfl := Relation.save_eq_ok hsave
      obtain ⟨hid, hkind, hattempts⟩ := failed_same job (Worker.className e) now
      exact ⟨_, hid, hkind, hattempts, settled_failed hle _ now, rfl⟩

/-- **Step lemma**: a claimed job is settled by its run. -/
theorem handle_ok {job : BackgroundJob} {running : List BackgroundJob} {s s' : Session}
    {runs runs' : List HandlerRun} (h : batch.handle out job s = (.ok runs', s'))
    (hsound : Sound s.db runs (job :: running)) (hspared : Spared base taken s.db)
    (hmine : Mine base taken job.id) :
    Sound s'.db (runs ++ runs') running ∧ Spared base taken s'.db := by
  obtain ⟨hjob, hkind, hle, -⟩ := hsound.claimed job List.mem_cons_self
  rw [Batch.handle, if_pos hkind] at h
  obtain ⟨u, s₁, hrun, hpure⟩ := Tx.bind_eq_ok h
  obtain ⟨hruns, rfl⟩ := Prod.mk.inj hpure
  obtain rfl := Except.ok.inj hruns
  obtain ⟨outcome, s₂, hattempt, hconclude⟩ := Tx.bind_eq_ok hrun
  -- a handler that fails has done nothing
  have hadds : AddsJobs s s₂ := by
    obtain ⟨-, -, ⟨u', hok⟩ | hsame⟩ := attempt_ok hattempt
    · exact (batch.handlers job).adds.of_apply hok
    · exact .of_same (congrArg Db.backgroundJobs hsame)
  obtain ⟨row, hid, hrow, hattempts, hsettled, hdb⟩ := conclude_ok hconclude (hadds.kept job hjob hkind) hle
  rw [hdb]
  refine ⟨(hsound.adds hadds).conclude hid hrow hattempts hsettled, (hspared.adds hadds).put ?_⟩
  rwa [hid]

/-- **Run lemma**: after its handlers a batch has settled every job that it has claimed. -/
theorem forEach_handle_ok {jobs : List BackgroundJob} {s s' : Session} {runs : List HandlerRun}
    {runs' : List (List HandlerRun)} (h : Tx.forEach (batch.handle out) jobs s = (.ok runs', s'))
    (hsound : Sound s.db runs jobs) (hspared : Spared base taken s.db)
    (hmine : ∀ job ∈ jobs, Mine base taken job.id) :
    Sound s'.db (runs ++ runs'.flatten) [] ∧ Spared base taken s'.db := by
  induction jobs generalizing s runs runs' with
  | nil =>
      obtain ⟨hruns, rfl⟩ := Prod.mk.inj h
      obtain rfl := Except.ok.inj hruns
      rw [List.flatten_nil, List.append_nil]
      exact ⟨hsound, hspared⟩
  | cons job jobs ih =>
      obtain ⟨first, s₁, hhandle, h₁⟩ := Tx.bind_eq_ok h
      obtain ⟨rest, s₂, hrest, h₂⟩ := Tx.bind_eq_ok h₁
      obtain ⟨hruns, rfl⟩ := Prod.mk.inj h₂
      obtain rfl := Except.ok.inj hruns
      obtain ⟨hsound₁, hspared₁⟩ := handle_ok hhandle hsound hspared (hmine job List.mem_cons_self)
      rw [List.flatten_cons, ← List.append_assoc]
      exact ih hrest hsound₁ hspared₁ fun x hx => hmine x (List.mem_cons_of_mem _ hx)

/-- A batch keeps the jobs sound, and leaves those that are not its own. -/
theorem work_ok {s s' : Session} {runs runs' : List HandlerRun}
    (h : batch.work out taken base s = (.ok runs', s')) (hbase : s.db = base) (hsound : Sound base runs [])
    (hdistinct : (taken.map BackgroundJob.id).Nodup)
    (htaken : ∀ job ∈ taken, job ∈ base.backgroundJobs ∧ job.kind ∈ handledKinds ∧ job.state = "queued") :
    Sound s'.db (runs ++ runs') [] ∧ Spared base taken s'.db := by
  subst hbase
  obtain ⟨u, s₁, hbefore, h₁⟩ := Tx.bind_eq_ok h
  obtain ⟨jobs, s₂, hclaim, h₂⟩ := Tx.bind_eq_ok h₁
  obtain ⟨runss, s₃, hhandle, h₃⟩ := Tx.bind_eq_ok h₂
  obtain ⟨hruns, rfl⟩ := Prod.mk.inj h₃
  obtain rfl := Except.ok.inj hruns
  have hadds : AddsJobs s s₁ := batch.before_adds.of_apply hbefore
  have hspared : Spared s.db taken s.db := fun _ hjob _ _ => hjob
  obtain ⟨hsound₂, hspared₂, hmine⟩ := claim_ok hclaim (hsound.adds hadds) (hspared.adds hadds) hdistinct
    fun job hjob => by
      obtain ⟨hmem, hkind, hqueued⟩ := htaken job hjob
      exact ⟨hmem, hadds.kept job hmem hkind, hkind, hqueued⟩
  exact forEach_handle_ok hhandle hsound₂ hspared₂ hmine

/-! ### Runs -/

/-- The jobs in the committed store. -/
structure LifeCycle (ledger : Ledger) : Prop where
  /-- A job is queued with attempts left, completed, or failed after its last attempt; it is never running. -/
  settled : ∀ job ∈ ledger.db.backgroundJobs, job.kind ∈ handledKinds → job.state ≠ "running" ∧
    ((job.state = "queued" ∧ job.attempts < job.maxAttempts) ∨ job.state = "completed" ∨
      (job.state = "failed" ∧ job.attempts = job.maxAttempts))
  attempts : ∀ job ∈ ledger.db.backgroundJobs, job.kind ∈ handledKinds →
    job.attempts = (ledger.runsOf job.id).length
  /-- No two batches have run the same attempt, nor has one batch run it twice. -/
  once : ledger.batches.Pairwise (fun runs runs' => ∀ run ∈ runs, run ∉ runs') ∧
    ∀ runs ∈ ledger.batches, runs.Nodup

/-- The jobs that are completed or have failed stay as they are. -/
def Final (ledger ledger' : Ledger) : Prop :=
  ∀ job ∈ ledger.db.backgroundJobs, job.kind ∈ handledKinds → job.state = "completed" ∨ job.state = "failed" →
    job ∈ ledger'.db.backgroundJobs

/-- Every run was another attempt. -/
theorem nodup_of_attemptsOf {runs : List HandlerRun} (h : ∀ jobId, (attemptsOf runs jobId).Nodup) :
    runs.Nodup := by
  induction runs with
  | nil => exact List.nodup_nil
  | cons run runs ih =>
      have hcons : ∀ jobId, attemptsOf (run :: runs) jobId =
          attemptsOf [run] jobId ++ attemptsOf runs jobId := attemptsOf_append [run] runs
      refine List.nodup_cons.mpr ⟨fun hmem => ?_, ih fun jobId => ?_⟩
      · have hnodup := h run.jobId
        rw [hcons, attemptsOf_self, List.singleton_append, List.nodup_cons] at hnodup
        exact hnodup.1 (List.mem_map.mpr ⟨run, List.mem_filter.mpr ⟨hmem, decide_eq_true rfl⟩, rfl⟩)
      · have hnodup := h jobId
        rw [hcons, List.nodup_append] at hnodup
        exact hnodup.2.1

theorem Sound.nodup {db : Db} {runs : List HandlerRun} (h : Sound db runs []) : runs.Nodup := by
  refine nodup_of_attemptsOf fun jobId => ?_
  by_cases hknown : ∃ run ∈ runs, run.jobId = jobId
  · obtain ⟨run, hrun, rfl⟩ := hknown
    obtain ⟨job, hjob, hid, hkind⟩ := h.known run hrun
    obtain ⟨-, hattempts⟩ := (h.settled job hjob hkind).resolve_left List.not_mem_nil
    rw [← hid, hattempts]
    exact List.nodup_range'
  · rw [attemptsOf_eq_nil fun run hrun hid => hknown ⟨run, hrun, hid⟩]
    exact List.nodup_nil

/-- What the runs of the handlers have made of the jobs. -/
theorem Sound.lifeCycle {ledger : Ledger} (h : Sound ledger.db ledger.runs []) : LifeCycle ledger := by
  refine ⟨fun job hjob hkind => ?_, fun job hjob hkind => ?_, ?_⟩
  · obtain ⟨hsettled, -⟩ := (h.settled job hjob hkind).resolve_left List.not_mem_nil
    refine ⟨fun hrunning => ?_, hsettled⟩
    rcases hsettled with ⟨hstate, -⟩ | hstate | ⟨hstate, -⟩
    · exact absurd (hrunning.symm.trans hstate) (by decide)
    · exact absurd (hrunning.symm.trans hstate) (by decide)
    · exact absurd (hrunning.symm.trans hstate) (by decide)
  · obtain ⟨-, hattempts⟩ := (h.settled job hjob hkind).resolve_left List.not_mem_nil
    have hlength := congrArg List.length hattempts
    rw [List.length_range', attemptsOf, List.length_map] at hlength
    exact hlength.symm
  · obtain ⟨hnodup, hdisjoint⟩ := List.nodup_flatten.mp h.nodup
    exact ⟨hdisjoint.imp fun hab run hrun hrun' => hab hrun hrun', hnodup⟩

/-! ### What a transaction publishes -/

theorem selects_eq_true {txn : Txn} {job : BackgroundJob} (h : selects txn job = true) :
    job.state = "queued" ∧ job.kind ∈ handledKinds := by
  cases txn with
  | batch batch =>
      obtain ⟨hqueued, -, hkind⟩ := of_decide_eq_true h
      exact ⟨hqueued, hkind⟩
  | session session began tick => exact absurd h Bool.false_ne_true

/-- A commit keeps the jobs sound, and leaves those that its transaction has not locked. -/
theorem publish_sound {txn : Txn} {taken : List BackgroundJob} {ledger ledger' : Ledger}
    (hcurrent : (selection out).Current txn taken ledger) (hsound : Sound ledger.db ledger.runs [])
    (h : publish out txn taken ledger = some ledger') :
    Sound ledger'.db ledger'.runs [] ∧ Spared ledger.db taken ledger'.db := by
  cases txn with
  | batch batch =>
      rcases hs : Database.session (batch.work out taken ledger.db)
        { db := ledger.db, began := batch.began, tick := batch.tick } with ⟨e | runs, s⟩
      · simp only [publish, hs] at h
        obtain rfl := Option.some.inj h
        have hsame : s.db = ledger.db := by
          rcases Database.session_cases (batch.work_notDurable taken ledger.db) hs with ⟨runs, hok, -⟩ | hsame
          · exact absurd hok (by simp)
          · exact hsame
        rw [hsame]
        exact ⟨hsound, fun _ hjob _ _ => hjob⟩
      · simp only [publish, hs] at h
        obtain rfl := Option.some.inj h
        have hruns : Ledger.runs ⟨s.db, ledger.batches ++ [runs]⟩ = ledger.runs ++ runs := by
          simp [Ledger.runs]
        have htaken : ∀ job ∈ taken, job ∈ ledger.db.backgroundJobs ∧ job.kind ∈ handledKinds ∧
            job.state = "queued" := by
          intro job hjob
          obtain ⟨hfind, hselects⟩ := hcurrent.2 job hjob
          have hqualifies : selects (.batch batch) job = true := hselects
          obtain ⟨hqueued, hkind⟩ := selects_eq_true hqualifies
          exact ⟨Table.mem_of_find? hfind, hkind, hqueued⟩
        have hdistinct : (taken.map BackgroundJob.id).Nodup := hcurrent.1
        rw [hruns]
        exact work_ok (Database.session_eq_ok hs) rfl hsound hdistinct htaken
  | session session began tick =>
      obtain rfl := Option.some.inj h
      have hadds : AddsJobs { db := ledger.db, began := began, tick := tick }
          (Database.session session.work { db := ledger.db, began := began, tick := tick }).2 :=
        session_adds session.adds _
      exact ⟨hsound.adds hadds, Spared.adds (fun _ hjob _ _ => hjob) hadds⟩

/-- A job that another transaction may have selected stays as it is. -/
theorem publish_leaves {txn txn' : Txn} {taken : List BackgroundJob} {ledger ledger' : Ledger} {jobId : Uuid}
    {job : BackgroundJob} (hcurrent : (selection out).Current txn taken ledger)
    (hsound : Sound ledger.db ledger.runs []) (h : publish out txn taken ledger = some ledger')
    (hnot : jobId ∉ taken.map BackgroundJob.id) (hfind : ledger.db.backgroundJobs.find? jobId = some job)
    (hselects : selects txn' job = true) : ledger'.db.backgroundJobs.find? jobId = some job := by
  obtain rfl := Table.key_of_find? hfind
  obtain ⟨-, hkind⟩ := selects_eq_true hselects
  have hspared := (publish_sound hcurrent hsound h).2
  exact Table.find?_of_mem (hspared job (Table.mem_of_find? hfind) hkind hnot)

/-- No transaction has locked a job that is completed or has failed. -/
theorem publish_final {txn : Txn} {taken : List BackgroundJob} {ledger ledger' : Ledger}
    (hcurrent : (selection out).Current txn taken ledger) (hsound : Sound ledger.db ledger.runs [])
    (h : publish out txn taken ledger = some ledger') : Final ledger ledger' := by
  intro job hjob hkind hended
  refine (publish_sound hcurrent hsound h).2 job hjob hkind fun hmem => ?_
  obtain ⟨row, hrow, hid⟩ := List.mem_map.mp hmem
  obtain ⟨hfind, hselects⟩ := hcurrent.2 row hrow
  obtain rfl : row = job := Table.eq_of_key (Table.mem_of_find? hfind) hjob hid
  have hselects' : selects txn row = true := hselects
  obtain ⟨hqueued, -⟩ := selects_eq_true hselects'
  rcases hended with hstate | hstate
  · exact absurd (hqueued.symm.trans hstate) (by decide)
  · exact absurd (hqueued.symm.trans hstate) (by decide)

theorem Final.trans {ledger ledger' ledger'' : Ledger} (h : Final ledger ledger') (h' : Final ledger' ledger'') :
    Final ledger ledger'' :=
  fun job hjob hkind hended => h' job (h job hjob hkind hended) hkind hended

/-- No transaction is in flight, and no job that the worker handles has been tried. -/
structure Unworked (s : JobState) : Prop where
  quiet : s.Quiet
  batches : s.store.batches = []
  untried : ∀ job ∈ s.store.db.backgroundJobs, job.kind ∈ handledKinds → Untried job

theorem Unworked.sound {s : JobState} (h : Unworked s) : Sound s.store.db s.store.runs [] := by
  have hruns : s.store.runs = [] := by rw [Ledger.runs, h.batches, List.flatten_nil]
  rw [hruns]
  refine ⟨fun job hjob hkind => .inr ?_, fun _ hjob => absurd hjob List.not_mem_nil, List.nodup_nil,
    fun _ hrun => absurd hrun List.not_mem_nil⟩
  obtain ⟨hqueued, hzero, hpos⟩ := h.untried job hjob hkind
  rw [hzero]
  exact ⟨.inl ⟨hqueued, by rwa [hzero]⟩, rfl⟩

/-- **Every job lives its life**, however the batches of the workers and the other sessions interleave, and
whichever of them are rolled back: in every state the committed jobs are in order, and from then on those
that are completed or have failed stay as they are. -/
theorem life_cycle {s t : JobState} {es : List JobEvent} (h₀ : Unworked s)
    (hrun : Runs.run (jobStep out) s es = some t) :
    LifeCycle t.store ∧ ∀ es' u, Runs.run (jobStep out) t es' = some u → Final t.store u.store := by
  have hinv : SkipLocked.Inv (selection out).holds (selection out).knows
      (fun ledger : Ledger => Sound ledger.db ledger.runs []) t :=
    SkipLocked.Selection.inv_of_run
      (fun _ _ _ _ _ hcurrent hsound h hnot _ _ hfind hselects =>
        publish_leaves hcurrent hsound h hnot hfind hselects)
      (fun _ _ _ _ hcurrent hsound h => (publish_sound hcurrent hsound h).1)
      (SkipLocked.Selection.inv_of_quiet h₀.quiet h₀.sound) hrun
  refine ⟨hinv.store.lifeCycle, fun es' u hrun' => ?_⟩
  have hfinal : SkipLocked.Inv (selection out).holds (selection out).knows
      (fun ledger : Ledger => Sound ledger.db ledger.runs [] ∧ Final t.store ledger) u :=
    SkipLocked.Selection.inv_of_run
      (fun _ _ _ _ _ hcurrent hI h hnot _ _ hfind hselects =>
        publish_leaves hcurrent hI.1 h hnot hfind hselects)
      (fun _ _ _ _ hcurrent hI h =>
        ⟨(publish_sound hcurrent hI.1 h).1, hI.2.trans (publish_final hcurrent hI.1 h)⟩)
      ⟨hinv.held, hinv.knows, hinv.store, fun _ hjob _ _ => hjob⟩ hrun'
  exact hfinal.store.2

/-! ### A job that is tried twice -/

def cycleOutside : Outside :=
  .sample (.sample 1767268800000000 []) (fun _ _ => .error (.other "")) fun _ => .error .null

/-- A session that enqueues a job. -/
def enqueuing (rt : Runtime) (kind : String) (payload : Json) : JobWork where
  work := do
    let _ ← JobService.enqueue rt kind payload
    pure ⟨⟩
  adds := (enqueue_adds _ _ _ _ _ _).bind fun _ => Tx.Keeps.pure _

/-- A handler that raises, and one that has nothing to do. -/
def raising : JobWork := ⟨Tx.raise (.other "ValueError"), Tx.Keeps.raise _⟩

def returning : JobWork := ⟨pure ⟨⟩, Tx.Keeps.pure _⟩

def cycleBatch (workerId : String) (handler : JobWork) (reading : ℕ) : Txn :=
  .batch
    { workerId := workerId
      maintenance := false
      events := []
      room := 10
      claimedAt := .utc (cycleOutside.clock reading)
      handlers := fun _ => handler
      began := .utc (cycleOutside.clock reading)
      tick := reading }

/-- A job is enqueued and claimed by two workers at once; the handler of the first one raises, and a minute
later it returns. -/
def triedTwice : List JobEvent :=
  [.start 0 (.opened (.session (enqueuing cycleOutside.toRuntime "memory_index" (.obj []))
      (.utc 1767268800000000) 0)), .exec 0, .exec 0,
    .start 1 (.opened (cycleBatch "first" raising 10)), .start 2 (.opened (cycleBatch "second" returning 10)),
    .exec 1, .exec 2, .exec 1, .exec 2, .exec 1, .exec 2,
    .start 3 (.opened (cycleBatch "second" returning 70)), .exec 3, .exec 3, .exec 3]

def emptyJobState : JobState where
  store := ⟨{}, []⟩
  owner _ := none
  txn _ := none

theorem life_cycle_triedTwice : ∃ t, Runs.run (jobStep cycleOutside) emptyJobState triedTwice = some t ∧
    t.store.db.backgroundJobs.rows.map (fun job => (job.state, job.attempts)) = [("completed", 2)] ∧
    t.store.batches.map (fun runs => runs.map HandlerRun.attempt) = [[1], [], [2]] ∧
    LifeCycle t.store := by
  have hrun : ((Runs.run (jobStep cycleOutside) emptyJobState triedTwice).any fun t =>
      decide (t.store.db.backgroundJobs.rows.map (fun job => (job.state, job.attempts)) = [("completed", 2)] ∧
        t.store.batches.map (fun runs => runs.map HandlerRun.attempt) = [[1], [], [2]])) = true := by
    decide +kernel
  obtain ⟨t, ht, hjobs⟩ := (Option.any_eq_true _ _).mp hrun
  obtain ⟨hrows, hbatches⟩ := of_decide_eq_true hjobs
  refine ⟨t, ht, hrows, hbatches, (life_cycle ?_ ht).1⟩
  exact ⟨fun _ => rfl, rfl, fun _ hjob => absurd hjob List.not_mem_nil⟩

end KajovoDagmar.JobCycle
