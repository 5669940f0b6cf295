import KajovoDagmar.Orchestration.Actions

/-! # Answering a turn

`OrchestrationService.answer`: one run for each user message.  A completed run is replayed; a
run in progress is refused; otherwise the model is called, with a second call after the
read-only tools it asked for, its decision is turned into actions and an assistant turn, and
any exception leaves the run failed. -/

namespace KajovoDagmar

structure OrchestrationResult where
  runId : Uuid
  message : ConversationMessage
  decision : ModelDecision
  actions : List ToolAction

namespace OrchestrationService

variable (out : Outside)

/-! ### Runs -/

/-- The run of a message. -/
def runOf? (db : Db) (accountId messageId : Uuid) : Option OrchestrationRun :=
  (db.orchestrationRuns.select fun r => r.sourceMessageId = messageId ∧ r.accountId = accountId).head?

/-- `state == "completed" and response_message_id and decision`. -/
def replayable (run : OrchestrationRun) : Bool :=
  run.state = .completed ∧ run.responseMessageId.isSome ∧ run.decision.any (·.truthy)

/-- `state in {"running", "awaiting_confirmation"}`. -/
def inProgress (run : OrchestrationRun) : Bool :=
  run.state = .running ∨ run.state = .awaitingConfirmation

/-- `order_by(created_at)`. -/
def actionsOf (db : Db) (runId : Uuid) : List ToolAction :=
  (db.toolActions.select fun a => a.runId = runId).insertionSort fun a b =>
    ¬b.createdAt.before a.createdAt

/-- The stored answer of a completed run. -/
def replay (run : OrchestrationRun) : Work OrchestrationResult := do
  let row ← Tx.gets fun s => run.responseMessageId.bind s.db.conversationMessages.find?
  let message ← Tx.orRaise row (.domain
    ⟨"orchestration_integrity", "Dokončený run nemá dostupnou odpověď.", 500, none, false⟩)
  let actions ← Tx.gets fun s => actionsOf s.db run.id
  let decision ← Tx.orRaise
    ((out.validateDecision (run.decision.getD .null)).toOption) (.other "ValidationError")
  pure ⟨run.id, message, decision, actions⟩

/-! ### Before the model is called -/

/-- What `answer` has at hand when it enters its `try`. -/
structure Prepared where
  runId : Uuid
  conversation : Conversation
  messages : List ConversationMessage
  sourceMessage : ConversationMessage
  normalizedInput : String
  provider : ProviderConfiguration
  model : ModelCatalogEntry
  bundle : ContextBundle

/-- The new run of a message. -/
def newRun (id accountId conversationId messageId : Uuid) (provider : ProviderConfiguration)
    (model : ModelCatalogEntry) (bundle : ContextBundle) : OrchestrationRun :=
  { id := id
    accountId := accountId
    conversationId := conversationId
    sourceMessageId := messageId
    state := .running
    orchestrationVersion := orchestrationVersion
    promptVersion := promptVersion
    providerId := some provider.id
    modelId := some model.id
    contextManifest := bundle.manifest }

/-- `existing or OrchestrationRun(…)`. -/
def openRun (existing : Option OrchestrationRun) (accountId conversationId messageId : Uuid)
    (provider : ProviderConfiguration) (model : ModelCatalogEntry) (bundle : ContextBundle) :
    Work Uuid :=
  match existing with
  | some run => pure run.id
  | none => do
    let id ← newUuid out.toRuntime
    Db.orchestrationRun.add out.toRuntime
      (newRun id accountId conversationId messageId provider model bundle)
    pure id

def prepare (existing : Option OrchestrationRun) (accountId conversationId messageId : Uuid) :
    Work Prepared := do
  let row ← Tx.gets fun s => HistoryService.conversation? s.db accountId conversationId
  let conversation ← Tx.orRaise row HistoryService.notFound
  let messages ← Tx.gets fun s => s.db.messagesOf conversationId
  let sourceMessage ← Tx.orRaise
    ((messages.find? fun m => m.id = messageId).filter fun m => m.role = .user)
    (.domain (.notFound "Zdrojová uživatelská replika nebyla nalezena."))
  let normalizedInput := normalize out sourceMessage.content
  let (provider, model) ← primaryModel out
  let bundle ← buildContext out accountId conversation messages sourceMessage normalizedInput []
  let runId ← openRun out existing accountId conversationId messageId provider model bundle
  pure ⟨runId, conversation, messages, sourceMessage, normalizedInput, provider, model, bundle⟩

/-! ### The model's decision -/

/-- A decision, the usage of the calls that led to it and the sources it may cite. -/
structure Decided where
  decision : ModelDecision
  usage : Json
  allowedIds : List String

def toolLoopExceeded : Exc := .domain
  ⟨"tool_loop_exceeded", "Model po ověřeném hledání znovu požadoval stejný nástroj.", 502, none, false⟩

/-- The read-only calls of a decision. -/
def readCalls (decision : ModelDecision) : List ToolCallDecision :=
  decision.toolCalls.filter fun t => t.name ∈ ToolName.readOnlyTools

/-- The second call, made with the results of the read-only tools. -/
def obtainSecondDecision (accountId : Uuid) (p : Prepared) (first : ModelDecision) (firstUsage : Json) :
    Work Decided := do
  let (toolResults, toolSourceIds) ← executeReadTools out accountId (readCalls first)
  let bundle ← buildContext out accountId p.conversation p.messages p.sourceMessage p.normalizedInput
    toolResults
  let _ ← updateRun out p.runId fun r => { r with contextManifest := bundle.manifest }
  let (decision, result) ← callModel out p.runId p.provider p.model bundle.prompt p.messages
  Tx.raiseIf (readCalls decision ≠ []) toolLoopExceeded
  pure ⟨decision, mergeUsage firstUsage (usage result),
    p.bundle.allowedSourceIds ++ toolSourceIds ++ bundle.allowedSourceIds⟩

/-- The decision after the first call: the first one, unless it asks for read-only tools. -/
def settleDecision (accountId : Uuid) (p : Prepared) (first : ModelDecision) (firstUsage : Json) :
    Work Decided :=
  if readCalls first = [] then pure ⟨first, firstUsage, p.bundle.allowedSourceIds⟩
  else obtainSecondDecision out accountId p first firstUsage

/-- The decision that `answer` goes on with, its sources checked. -/
def obtainDecision (accountId : Uuid) (p : Prepared) : Work Decided := do
  let (first, result) ← callModel out p.runId p.provider p.model p.bundle.prompt p.messages
  let decided ← settleDecision out accountId p first (usage result)
  validateSources decided.decision decided.allowedIds
  pure decided

/-! ### The outcome -/

/-- The idempotency key of the assistant turn of a run. -/
def assistantKey (conversationId messageId runId : Uuid) : String :=
  out.sha256 ("assistant:" ++ out.strUuid conversationId ++ ":" ++ out.strUuid messageId ++ ":" ++
    out.strUuid runId)

/-- What `answer` writes after the actions have been created. -/
def conclude (p : Prepared) (d : Decided) (actions : List ToolAction) (context : AuditContext) :
    Work OrchestrationResult := do
  let _ ← updateRun out p.runId fun r => { r with
    intent := some d.decision.intent.text
    decision := some d.decision.modelDump
    usage := d.usage
    state := if actions = [] then .completed else .awaitingConfirmation }
  let message ← ConversationService.addAssistantTurn out.toRuntime p.conversation.id d.decision.answer
    (assistantKey out p.conversation.id p.sourceMessage.id p.runId) p.runId
  let now ← utcNow out.toRuntime
  let run ← updateRun out p.runId fun r => { r with
    responseMessageId := some message.id
    completedAt := if actions = [] then some now else r.completedAt
    version := r.version + 1 }
  let _ ← AuditService.append out.toRuntime context "orchestration.completed" "success"
    (some "orchestration_run") (some p.runId)
    [("intent", .str d.decision.intent.text), ("attempts", .int run.attemptCount),
     ("actions", .int actions.length), ("prompt_version", .str promptVersion)]
  pure ⟨p.runId, message, d.decision, actions⟩

/-- The body of the `try` of `answer`. -/
def answerPrepared (accountId : Uuid) (p : Prepared) (context : AuditContext) :
    Work OrchestrationResult := do
  let d ← obtainDecision out accountId p
  let actions ← createActions out p.runId accountId p.conversation p.sourceMessage d.decision
  conclude out p d actions context

/-- The body of the `except` of `answer`, without the final `raise`. -/
def failRun (runId : Uuid) (context : AuditContext) (e : Exc) : Work PUnit := do
  let now ← utcNow out.toRuntime
  let run ← updateRun out runId fun r => { r with
    state := .failed, errorCode := some e.errorCode, completedAt := some now, version := r.version + 1 }
  let _ ← AuditService.append out.toRuntime context "orchestration.failed" "failed"
    (some "orchestration_run") (some runId)
    [("error_code", .str e.errorCode), ("attempts", .int run.attemptCount)]
  pure ⟨⟩

/-- `answer` for a message whose run is neither completed nor in progress. -/
def answerAnew (existing : Option OrchestrationRun) (accountId conversationId messageId : Uuid)
    (context : AuditContext) : Work OrchestrationResult := do
  let p ← prepare out existing accountId conversationId messageId
  Tx.handle (answerPrepared out accountId p context) fun e => do
    failRun out p.runId context e
    Tx.raise e.markDurable

def answer (accountId conversationId userMessageId : Uuid) (context : Option AuditContext) :
    Work OrchestrationResult := do
  let auditContext := context.getD { actorType := "system", actorId := some accountId }
  let existing ← Tx.gets fun s => runOf? s.db accountId userMessageId
  match existing.filter replayable with
  | some run => replay out run
  | none => do
    Tx.raiseSome ((existing.filter inProgress).map fun run => .domain
      (.conflict "Tato replika se již zpracovává."
        (some (.obj [("run_id", .str (out.strUuid run.id))]))))
    answerAnew out existing accountId conversationId userMessageId auditContext

/-- `POST /conversations/{conversation_id}/turns`. -/
def turn (accountId conversationId : Uuid) (request : UserTurn) (context : AuditContext) :
    Work (ConversationMessage × OrchestrationResult) := do
  let message ← ConversationService.addUserTurn out.toRuntime accountId conversationId request context
  let result ← answer out accountId conversationId message.id (some context)
  pure (message, result)

end OrchestrationService

end KajovoDagmar
