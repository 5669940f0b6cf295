import KajovoDagmar.Db.Session
import Mathlib.Algebra.Group.Int.Defs

/-! # Background jobs

`JobService`: enqueueing, claiming, completing and failing jobs. -/

namespace KajovoDagmar.JobService

variable (rt : Runtime)

/-- `UUID(payload[key])`. -/
def payloadUuid (key : String) (payload : Json) : Except Exc Uuid :=
  match payload.get? key with
  | none => .error (.other "KeyError")
  | some (.str s) => match rt.parseUuid s with
    | some id => .ok id
    | none => .error (.other "ValueError")
  | some .null => .error (.other "TypeError")
  | some _ => .error (.other "AttributeError")

def enqueue (kind : String) (payload : Json) (priority : ℤ := 100) (delaySeconds : ℤ := 0)
    (correlationId : Option String := none) (jobId : Option Uuid := none) : Work BackgroundJob := do
  let id ← jobId.elim (newUuid rt) pure
  let now ← utcNow rt
  let job : BackgroundJob :=
    { id := id
      kind := kind
      state := "queued"
      payload := payload
      priority := priority
      availableAt := now.addMicros (delaySeconds * 1000000)
      correlationId := correlationId }
  Db.backgroundJob.add rt job
  pure job

/-- The jobs that a claim may take: `state == "queued"`, `available_at <= utc_now()` and
`kind.in_(allowed_kinds)`. -/
def claimable (now : DateTime) (allowedKinds : List String) (job : BackgroundJob) : Bool :=
  job.state = "queued" ∧ job.availableAt.le now ∧ job.kind ∈ allowedKinds

/-- `order_by(priority, available_at)`. -/
def claimOrder (a b : BackgroundJob) : Bool :=
  a.priority < b.priority ∨ (a.priority = b.priority ∧ a.availableAt.le b.availableAt)

/-- A claimed job. -/
def claimed (workerId : String) (now : DateTime) (job : BackgroundJob) : BackgroundJob :=
  { job with
    state := "running", lockedAt := some now, lockedBy := some workerId, attempts := job.attempts + 1 }

/-- One job of `claim`. -/
def claimRow (workerId : String) (job : BackgroundJob) : Work BackgroundJob := do
  let now ← utcNow rt
  Db.backgroundJob.save rt (claimed workerId now job)
  pure (claimed workerId now job)

/-- `claim`, where `locked` are the rows that other transactions have locked and
`with_for_update(skip_locked=True)` passes over. -/
def claim (locked : BackgroundJob → Bool) (workerId : String) (limit : ℕ) (allowedKinds : List String) :
    Work (List BackgroundJob) := do
  let now ← utcNow rt
  let rows ← Db.backgroundJob.select fun job => claimable now allowedKinds job ∧ locked job = false
  Tx.forEach (claimRow rt workerId) ((rows.insertionSort fun a b => claimOrder a b = true).take limit)

/-- The job after its completion. -/
def completed (job : BackgroundJob) (now : DateTime) : BackgroundJob :=
  { job with state := "completed", completedAt := some now, lockedAt := none, lockedBy := none }

def complete (job : BackgroundJob) : Work PUnit := do
  let now ← utcNow rt
  Db.backgroundJob.save rt (completed job now)

/-- The job after a failure. -/
def failed (job : BackgroundJob) (code : String) (now : DateTime) : BackgroundJob :=
  let unlocked := { job with lastErrorCode := some code, lockedAt := none, lockedBy := none }
  if job.attempts ≥ job.maxAttempts then { unlocked with state := "failed" }
  else { unlocked with
    state := "queued", availableAt := now.addMicros (min 3600 (2 ^ job.attempts * 10) * 1000000) }

def fail (job : BackgroundJob) (code : String) : Work PUnit := do
  let now ← utcNow rt
  Db.backgroundJob.save rt (failed job code now)

variable {rt}

/-- A job is only seen in the table of jobs. -/
theorem enqueue_keeps {γ : Type} {view : Db → γ} (hv : ∀ t db, view (Db.backgroundJob.set t db) = view db)
    (kind : String) (payload : Json) (priority delaySeconds : ℤ) (correlationId : Option String)
    (jobId : Option Uuid) :
    Tx.Keeps (Same view) (enqueue rt kind payload priority delaySeconds correlationId jobId) := by
  unfold enqueue
  refine Tx.Keeps.bind ?_ fun id => (Same.utcNow rt).bind fun now => ?_
  · cases jobId with
    | none => exact Same.newUuid rt
    | some id => exact Tx.Keeps.pure _
  · exact (Relation.add_keeps hv _).bind fun _ => Tx.Keeps.pure _

/-- The job that is enqueued. -/
theorem enqueue_ok {kind : String} {payload : Json} {priority delaySeconds : ℤ}
    {correlationId : Option String} {jobId : Option Uuid} {s s' : Session} {job : BackgroundJob}
    (h : enqueue rt kind payload priority delaySeconds correlationId jobId s = (.ok job, s')) :
    job.kind = kind ∧ job.payload = payload ∧ job.state = "queued" ∧
      s.db.backgroundJobs.insert? job = some s'.db.backgroundJobs ∧
      s'.db = { s.db with backgroundJobs := s'.db.backgroundJobs } ∧ s'.files = s.files := by
  obtain ⟨id, s₁, hid, h₁⟩ := Tx.bind_eq_ok h
  have hsame : s₁.db = s.db ∧ s₁.files = s.files := by
    cases jobId with
    | none =>
        obtain ⟨-, rfl⟩ := Prod.mk.inj hid
        exact ⟨rfl, rfl⟩
    | some jobId =>
        obtain ⟨-, rfl⟩ := Prod.mk.inj hid
        exact ⟨rfl, rfl⟩
  obtain ⟨now, s₂, hnow, h₂⟩ := Tx.bind_eq_ok h₁
  obtain ⟨-, rfl⟩ := Prod.mk.inj hnow
  obtain ⟨u, s₃, hadd, h₃⟩ := Tx.bind_eq_ok h₂
  obtain ⟨hjob, rfl⟩ := Prod.mk.inj h₃
  obtain rfl := Except.ok.inj hjob
  obtain ⟨t, ht, rfl⟩ := Relation.add_eq_ok hadd
  have hinsert : s₁.db.backgroundJobs.insert? _ = some t := (Relation.insertRow_eq_ok ht).1
  refine ⟨rfl, rfl, rfl, ?_, ?_, hsame.2⟩
  · rw [← hsame.1]
    exact hinsert
  · rw [← hsame.1]
    rfl

theorem enqueue_noDomain (kind : String) (payload : Json) (priority delaySeconds : ℤ)
    (correlationId : Option String) (jobId : Option Uuid) :
    NoDomain (enqueue rt kind payload priority delaySeconds correlationId jobId) := by
  unfold enqueue
  refine Tx.RaisesOnly.bind ?_ fun id => (utcNow_noDomain rt).bind fun now => ?_
  · cases jobId with
    | none => exact newUuid_noDomain rt
    | some id => exact Tx.RaisesOnly.pure _
  · exact (Relation.add_noDomain _).bind fun _ => Tx.RaisesOnly.pure _

end KajovoDagmar.JobService
