import KajovoDagmar.Jobs.Service
import KajovoDagmar.Orchestration.Service

/-! # The worker

`dispatch_outbox` turns outbox events into jobs, and `corrected_turn_reprocess` answers a
corrected turn again.  A handler runs in a savepoint: whatever it raises, durable or not, takes
back what it has written. -/

namespace KajovoDagmar.Worker

variable (out : Outside)

/-- `async with session.begin_nested()`. -/
def nested {α : Type} (m : Work α) : Work α := Tx.session (fun _ => False) Session.rollback m

section jobs

variable (rt : Runtime)

/-- `exc.__class__.__name__`. -/
def className : Exc → String
  | .domain e =>
    if e.code = "conflict" then "ConflictError"
    else if e.code = "not_found" then "NotFoundError"
    else if e.code = "unauthorized" then "UnauthorizedError"
    else if e.code = "capability_unavailable" then "CapabilityUnavailableError"
    else "DomainError"
  | .integrity _ => "IntegrityError"
  | .other name => name

/-- A handler in its savepoint, and the exception that it ends with. -/
def attempt (handler : Work PUnit) : Work (Option Exc) :=
  Tx.handle
    (do
      nested handler
      pure none)
    fun e => pure (some e)

/-- What a turn records of a job. -/
def conclude (job : BackgroundJob) : Option Exc → Work PUnit
  | none => JobService.complete rt job
  | some e => do
    let row ← Db.backgroundJob.find job.id
    let row ← Tx.orRaise row (.other "InvalidRequestError")
    JobService.fail rt row (className e)

/-- One job of a turn, with its handler. -/
def runJob (handler : Work PUnit) (job : BackgroundJob) : Work PUnit := do
  let outcome ← attempt handler
  conclude rt job outcome

/-- A handler that fails has done nothing. -/
theorem attempt_ok {handler : Work PUnit} {s s' : Session} {r : Except Exc (Option Exc)}
    (h : attempt handler s = (r, s')) :
    ∃ outcome, r = .ok outcome ∧ ((∃ u, handler s = (.ok u, s')) ∨ s'.db = s.db) := by
  unfold attempt at h
  rcases hs : handler s with ⟨e | u, s₁⟩
  · have hnested : nested handler s = (.error e, s.rollback s₁) := Tx.session_of_rollback hs id
    have hbody : (do
        nested handler
        pure none : Work (Option Exc)) s = (.error e, s.rollback s₁) := Tx.bind_of_error hnested
    rw [Tx.handle_of_error hbody] at h
    obtain ⟨rfl, rfl⟩ := Prod.mk.inj h
    exact ⟨some e, rfl, .inr rfl⟩
  · have hnested : nested handler s = (.ok u, s₁) := Tx.session_of_ok hs
    have hbody : (do
        nested handler
        pure none : Work (Option Exc)) s = (.ok none, s₁) := Tx.bind_of_ok hnested
    rw [Tx.handle_of_ok hbody] at h
    obtain ⟨rfl, rfl⟩ := Prod.mk.inj h
    exact ⟨none, rfl, .inl ⟨u, rfl⟩⟩

theorem attempt_noDomain (handler : Work PUnit) : NoDomain (attempt handler) := by
  intro s e he
  rcases hs : attempt handler s with ⟨r, s'⟩
  obtain ⟨outcome, rfl, -⟩ := attempt_ok hs
  rw [hs] at he
  cases he

variable {rt}

theorem conclude_keeps {γ : Type} {view : Db → γ} (hv : ∀ t db, view (Db.backgroundJob.set t db) = view db)
    (job : BackgroundJob) (outcome : Option Exc) : Tx.Keeps (Same view) (conclude rt job outcome) := by
  cases outcome with
  | none => exact (Same.utcNow rt).bind fun _ => Relation.save_keeps fun _ => hv _ _
  | some e =>
      refine (Relation.find_keeps _).bind fun row => (Tx.Keeps.orRaise _ _).bind fun row => ?_
      exact (Same.utcNow rt).bind fun _ => Relation.save_keeps fun _ => hv _ _

theorem conclude_noDomain (job : BackgroundJob) (outcome : Option Exc) : NoDomain (conclude rt job outcome) := by
  cases outcome with
  | none => exact (utcNow_noDomain rt).bind fun _ => Relation.save_noDomain _
  | some e =>
      refine (Tx.RaisesOnly.gets _).bind fun row => (orRaise_noDomain _ _).bind fun row => ?_
      exact (utcNow_noDomain rt).bind fun _ => Relation.save_noDomain _

end jobs

/-- The kinds of the jobs that an outbox event asks for. -/
def jobKinds? (eventType : String) : Option (List String) :=
  if eventType = "memory.index_requested" then some ["memory_index"]
  else if eventType = "conversation.closed" then some ["conversation_finalize", "conversation_index"]
  else if eventType = "conversation.corrected_turn_reprocess_requested" then
    some ["corrected_turn_reprocess"]
  else none

/-- One event of `dispatch_outbox`. -/
def dispatchEvent (event : OutboxEvent) : Work PUnit := do
  let kinds := jobKinds? event.eventType
  let _ ← Tx.forEach (fun kind => JobService.enqueue out.toRuntime kind event.payload) (kinds.getD [])
  let now ← utcNow out.toRuntime
  Db.outboxEvent.save out.toRuntime { event with
    lastErrorCode := if kinds = none then some "unknown_outbox_event_parked" else event.lastErrorCode
    publishedAt := some now
    attempts := event.attempts + 1 }

/-- `order_by(created_at, id).limit(50)` over the events that are not published yet. -/
def waitingEvents (db : Db) : List OutboxEvent :=
  ((db.outboxEvents.select fun e => e.publishedAt.isNone).insertionSort fun a b =>
    a.createdAt.before b.createdAt ∨ (¬b.createdAt.before a.createdAt ∧ a.id ≤ b.id)).take 50

def dispatchOutbox : Work ℕ := do
  let events ← Tx.gets fun s => waitingEvents s.db
  let _ ← Tx.forEach (dispatchEvent out) events
  pure events.length

/-- `UUID(payload["message_id"])`. -/
def messageIdOf (payload : Json) : Except Exc Uuid :=
  match payload.get? "message_id" with
  | none => .error (.other "KeyError")
  | some (.str s) => match out.parseUuid s with
    | some id => .ok id
    | none => .error (.other "ValueError")
  | some .null => .error (.other "TypeError")
  | some _ => .error (.other "AttributeError")

/-- What is answered for the corrected message of a conversation. -/
def answerCorrected (job : BackgroundJob) (conversation : Conversation) (messageId : Uuid) :
    Work OrchestrationResult :=
  OrchestrationService.answer out conversation.accountId conversation.id messageId
    (some { actorType := "system", actorId := some conversation.accountId, correlationId := job.correlationId })

/-- The handler `corrected_turn_reprocess`, with the answer that it obtains. -/
def correctedTurnReprocess (job : BackgroundJob) : Work (Option OrchestrationResult) := do
  let messageId ← Tx.ofExcept (messageIdOf out job.payload)
  let message ← Db.conversationMessage.find messageId
  match message with
  | none => pure none
  | some message => do
    let conversation ← Db.conversation.find message.conversationId
    match conversation with
    | none => pure none
    | some conversation => do
      let result ← answerCorrected out job conversation message.id
      let _ ← JobService.enqueue out.toRuntime "conversation_index"
        (.obj [("conversation_id", .str (out.strUuid conversation.id))]) 100 0 job.correlationId
      pure (some result)

end KajovoDagmar.Worker
