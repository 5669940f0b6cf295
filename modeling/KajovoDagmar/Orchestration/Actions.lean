import KajovoDagmar.Orchestration.Context

/-! # Tool actions

The part of `OrchestrationService` that turns the state-changing calls of a decision into
actions awaiting confirmation, executes a confirmed action and cancels a run. -/

namespace KajovoDagmar

namespace OrchestrationService

variable (out : Outside)

/-! ### Proposing actions -/

/-- `_impact`. -/
def impact : ToolName → String
  | .memoryUpdate => "Položka dostane novou auditovatelnou verzi."
  | .memoryMarkOutdated => "Položka se přestane používat jako současný fakt."
  | .memoryDelete => "Položka se přestane používat a bude obnovitelná jen po retenční dobu."
  | .memoryRestore => "Odstraněná položka se znovu stane aktivní."
  | .historyContinue => "Vznikne nová samostatná relace propojená s původní."
  | .historyDelete => "Konverzace zmizí z běžné historie a bude obnovitelná jen po retenční dobu."
  | .historyRestore => "Odstraněná konverzace se vrátí do historie."
  | _ => "Dojde ke změně kanonických dat."

/-- The arguments, the preview and the target version of an action. -/
structure NormalizedAction where
  arguments : Json
  preview : Json
  targetVersion : Option ℤ

def validationError : Exc := .other "ValidationError"

/-- `_normalize_action` of `memory_create`. -/
def normalizeCreate (args : Json) (conversation : Conversation)
    (sourceMessage : ConversationMessage) : Work NormalizedAction := do
  let content := normalize out (pyStr out (args.getD "content" (.str "")))
  let category := pyStr out (args.getD "category" (.str "other"))
  let request ← Tx.orRaise
    (MemoryCreate.make out.toRuntime (.str content) (.str category) (.str "explicit_command")
      (some conversation.id) (some sourceMessage.id) (.str sourceMessage.content)
      (args.getD "event_at" .null) (args.getD "valid_from" .null) (args.getD "valid_until" .null)
      (.arr []) (.bool true)) validationError
  pure ⟨request.modelDump out.toRuntime, .obj
    [("operation", .str "Uložit paměť"), ("content", .str content), ("category", .str category),
     ("impact", .str "Vznikne aktivní paměťová položka.")], none⟩

/-- `_normalize_action` of the calls on one memory item. -/
def normalizeMemory (accountId : Uuid) (name : ToolName) (args : Json) : Work NormalizedAction := do
  let memoryId ← Tx.orRaise (out.parseUuid (pyStr out (args.getD "memory_id" .null)))
    (argumentsInvalid "Identifikátor paměti není platné UUID.")
  let item ← MemoryService.get accountId memoryId true
  let expected ← Tx.orRaise (strictInt (args.getD "expected_version" (.int item.version)))
    (argumentsInvalid "Verze paměti musí být celé číslo.")
  Tx.raiseIf (expected ≠ item.version)
    (.domain (.conflict "Cílová paměť se změnila před vytvořením náhledu."
      (some (.obj [("actual_version", .int item.version)]))))
  let changes := if name = .memoryUpdate then
      ["content", "category", "event_at", "valid_from", "valid_until"].filterMap fun key =>
        (args.get? key).map fun v => (key, v)
    else []
  pure ⟨.obj ([("memory_id", .str (out.strUuid item.id)), ("expected_version", .int item.version)] ++
      changes), .obj
    [("operation", .str name.text), ("target", .str item.content), ("state", .str item.state.text),
     ("impact", .str (impact name))], some item.version⟩

/-- `[UUID(str(value)) for value in values]`. -/
def parseUuids : List Json → Option (List Uuid)
  | [] => some []
  | v :: vs => (out.parseUuid (pyStr out v)).bind fun u => (parseUuids vs).map (u :: ·)

/-- The elements of a list. -/
def listItems : Json → Option (List Json)
  | .arr xs => some xs
  | _ => none

/-- `_normalize_action` of `memory_merge`. -/
def normalizeMerge (accountId : Uuid) (args : Json) (conversation : Conversation)
    (sourceMessage : ConversationMessage) : Work NormalizedAction := do
  let rawSourceIds ← Tx.orRaise (listItems (args.getD "source_ids" (.arr [])))
    (argumentsInvalid "source_ids musí být seznam UUID.")
  let sourceIds ← Tx.orRaise (parseUuids out rawSourceIds)
    (argumentsInvalid "source_ids obsahuje neplatné UUID.")
  Tx.raiseIf (sourceIds.dedup.length < 2)
    (argumentsInvalid "Sloučení vyžaduje nejméně dvě položky.")
  let sources ← Db.memoryItem.select fun m => m.accountId = accountId ∧ m.id ∈ sourceIds
  Tx.raiseIf (sources.length ≠ sourceIds.dedup.length)
    (.domain (.notFound "Některá slučovaná paměť nebyla nalezena."))
  let request ← Tx.orRaise
    (MemoryCreate.make out.toRuntime
      (.str (normalize out (pyStr out (args.getD "content" (.str "")))))
      (.str (pyStr out (args.getD "category" (.str "other")))) (.str "explicit_command")
      (some conversation.id) (some sourceMessage.id) .null .null .null .null (.arr []) (.bool true))
    validationError
  pure ⟨.obj
    [("source_ids", .arr (sourceIds.map fun i => .str (out.strUuid i))),
     ("target", request.modelDump out.toRuntime),
     ("source_versions", .obj (sources.map fun row => (out.strUuid row.id, .int row.version)))], .obj
    [("operation", .str "Sloučit paměti"), ("sources", .arr (sources.map fun row => .str row.content)),
     ("result", .str request.content.val),
     ("impact", .str "Zdrojové položky budou označeny jako sloučené.")], none⟩

/-- `_normalize_action` of the calls on one conversation. -/
def normalizeHistory (accountId : Uuid) (name : ToolName) (args : Json) :
    Work NormalizedAction := do
  let conversationId ← Tx.orRaise (out.parseUuid (pyStr out (args.getD "conversation_id" .null)))
    (argumentsInvalid "Identifikátor konverzace není platné UUID.")
  let (target, _) ← HistoryService.detail accountId conversationId true
  let expectedValue := match args.getD "expected_version" .null with
    | .null => .int target.version
    | v => v
  let expected ← Tx.orRaise (strictInt expectedValue)
    (argumentsInvalid "Verze konverzace musí být celé číslo.")
  Tx.raiseIf (expected ≠ target.version)
    (.domain (.conflict "Cílová konverzace se změnila před vytvořením náhledu."
      (some (.obj [("actual_version", .int target.version)]))))
  let title := target.title.filter (· ≠ "")
  pure ⟨.obj
    [("conversation_id", .str (out.strUuid target.id)), ("expected_version", .int target.version)], .obj
    [("operation", .str name.text), ("target", .str (title.getD (out.strUuid target.id))),
     ("state", .str target.state.text), ("impact", .str (impact name))], some target.version⟩

/-- `_normalize_action`. -/
def normalizeAction (accountId : Uuid) (call : ToolCallDecision) (conversation : Conversation)
    (sourceMessage : ConversationMessage) : Work NormalizedAction :=
  match call.name with
  | .memoryCreate => normalizeCreate out (.obj call.arguments) conversation sourceMessage
  | .memoryUpdate | .memoryMarkOutdated | .memoryDelete | .memoryRestore =>
    normalizeMemory out accountId call.name (.obj call.arguments)
  | .memoryMerge => normalizeMerge out accountId (.obj call.arguments) conversation sourceMessage
  | .historyContinue | .historyDelete | .historyRestore =>
    normalizeHistory out accountId call.name (.obj call.arguments)
  | .memorySearch | .historySearch | .none => Tx.raise (.domain
      ⟨"tool_not_allowed", "Požadovaný nástroj není pro tento run povolen.", 502, none, false⟩)

/-- The state-changing calls of a decision; a memory proposal counts as one unless the decision
creates a memory itself. -/
def stateCalls (decision : ModelDecision) : List ToolCallDecision :=
  let calls := decision.toolCalls.filter fun t => t.name ∈ ToolName.stateTools
  match decision.memoryProposal with
  | none => calls
  | some proposal =>
    if calls.any (fun t => t.name = .memoryCreate) then calls
    else calls ++ [⟨.memoryCreate, proposal.modelDump⟩]

/-- The action that one normalised call becomes. -/
def newAction (id runId : Uuid) (index : ℕ) (name : ToolName) (normalized : NormalizedAction)
    (now createdAt : DateTime) : ToolAction :=
  let digest := out.sha256 normalized.arguments.dumpsSorted
  { id := id
    runId := runId
    name := name.text
    arguments := normalized.arguments
    argumentsHash := digest
    sideEffect := "state_change"
    confirmationRequired := true
    state := .pendingConfirmation
    preview := normalized.preview
    expectedTargetVersion := normalized.targetVersion
    expiresAt := some (now.addMicros (DateTime.minutes 10))
    idempotencyKey := out.sha256
      (out.strUuid runId ++ ":" ++ toString index ++ ":" ++ name.text ++ ":" ++ digest)
    createdAt := createdAt }

/-- The idempotency key of the action that a call becomes. -/
def actionKey (runId : Uuid) (index : ℕ) (name : ToolName) (n : NormalizedAction) : String :=
  out.sha256 (out.strUuid runId ++ ":" ++ toString index ++ ":" ++ name.text ++ ":" ++
    out.sha256 n.arguments.dumpsSorted)

/-- One call of `_create_actions`: normalised, then added. -/
def createAction (runId accountId : Uuid) (conversation : Conversation)
    (sourceMessage : ConversationMessage) (index : ℕ) (call : ToolCallDecision) :
    Work ToolAction := do
  let normalized ← normalizeAction out accountId call conversation sourceMessage
  let now ← utcNow out.toRuntime
  let id ← newUuid out.toRuntime
  let began ← Tx.gets Session.began
  let action := newAction out id runId index call.name normalized now began
  Db.toolAction.add out.toRuntime action
  pure action

/-- The loop of `_create_actions` from the given index on. -/
def createFrom (runId accountId : Uuid) (conversation : Conversation)
    (sourceMessage : ConversationMessage) : ℕ → List ToolCallDecision → Work (List ToolAction)
  | _, [] => pure []
  | index, call :: calls => do
    let action ← createAction out runId accountId conversation sourceMessage index call
    let actions ← createFrom runId accountId conversation sourceMessage (index + 1) calls
    pure (action :: actions)

/-- `_create_actions`. -/
def createActions (runId accountId : Uuid) (conversation : Conversation)
    (sourceMessage : ConversationMessage) (decision : ModelDecision) : Work (List ToolAction) := do
  let calls := stateCalls decision
  Tx.raiseIf (calls ≠ [] ∧ decision.requiresConfirmation = false) (.domain
    ⟨"confirmation_missing", "Stavová operace nemá povinné potvrzení.", 502, none, false⟩)
  createFrom out runId accountId conversation sourceMessage 0 calls

/-! ### Executing a confirmed action -/

/-- `args[key]`. -/
def argument (args : Json) (key : String) : Except Exc Json :=
  (args.get? key).elim (.error (.other "KeyError")) .ok

/-- `UUID(value)`. -/
def uuidOf : Json → Except Exc Uuid
  | .str s => (out.parseUuid s).elim (.error (.other "ValueError")) .ok
  | .null => .error (.other "TypeError")
  | _ => .error (.other "AttributeError")

/-- `int(value)`. -/
def intOf (value : Json) : Except Exc ℤ := (out.pyInt value).mapError .other

/-- The values that a `for` loop over a JSON value goes through. -/
def iterate : Json → Except Exc (List Json)
  | .arr xs => .ok xs
  | .obj kvs => .ok (kvs.map fun kv => .str kv.1)
  | .str s => .ok (s.toList.map fun c => .str c.toString)
  | _ => .error (.other "TypeError")

/-- `[UUID(value) for value in values]`. -/
def uuidsOf : List Json → Except Exc (List Uuid)
  | [] => .ok []
  | v :: vs => do
    let u ← uuidOf out v
    let us ← uuidsOf vs
    pure (u :: us)

/-- `value.items()`. -/
def itemsOf : Json → Except Exc (List (String × Json))
  | .obj kvs => .ok kvs
  | _ => .error (.other "AttributeError")

/-- The validation of a request model. -/
def validated {α : Type} (o : Option α) : Except Exc α := o.elim (.error validationError) .ok

/-- `version == value`. -/
def eqVersion (version : ℤ) : Json → Bool
  | .int n => version = n
  | .bool b => version = if b then 1 else 0
  | .float r => out.floatEqInt r version
  | _ => false

def memoryResult (item : MemoryItem) : List (String × Json) :=
  [("memory_id", .str (out.strUuid item.id)), ("state", .str item.state.text),
   ("version", .int item.version)]

def conversationOutcome (c : Conversation) : List (String × Json) :=
  [("conversation_id", .str (out.strUuid c.id)), ("state", .str c.state.text),
   ("version", .int c.version)]

/-- `_execute_state_action` of `memory_create`. -/
def executeCreate (accountId : Uuid) (args : Json) (context : AuditContext) : Work Json := do
  let request ← Tx.ofExcept (validated (MemoryCreate.modelValidate out.toRuntime args))
  let item ← MemoryService.create out.toRuntime accountId request context
  pure (.obj (memoryResult out item))

/-- The arguments of `memory_update` and `memory_mark_outdated`, as the service takes them. -/
def updateArguments (args : Json) (markOutdated : Bool) : Except Exc (Uuid × MemoryUpdate) := do
  let rawId ← argument args "memory_id"
  let memoryId ← uuidOf out rawId
  let rawVersion ← argument args "expected_version"
  let expectedVersion ← intOf out rawVersion
  let request ← validated
    (MemoryUpdate.make out.toRuntime expectedVersion (args.getD "content" .null)
      (args.getD "category" .null) (args.getD "event_at" .null) (args.getD "valid_from" .null)
      (args.getD "valid_until" .null) markOutdated)
  pure (memoryId, request)

/-- `_execute_state_action` of `memory_update` and `memory_mark_outdated`. -/
def executeUpdate (accountId : Uuid) (args : Json) (markOutdated : Bool) (context : AuditContext) :
    Work Json := do
  let (memoryId, request) ← Tx.ofExcept (updateArguments out args markOutdated)
  let item ← MemoryService.update out.toRuntime accountId memoryId request context
  pure (.obj (memoryResult out item))

/-- The identifier and the version that the remaining calls take from their arguments. -/
def targetArguments (args : Json) (key : String) : Except Exc (Uuid × ℤ) := do
  let rawId ← argument args key
  let id ← uuidOf out rawId
  let rawVersion ← argument args "expected_version"
  let expectedVersion ← intOf out rawVersion
  pure (id, expectedVersion)

/-- `_execute_state_action` of `memory_delete`. -/
def executeMemoryDelete (accountId : Uuid) (args : Json) (context : AuditContext) : Work Json := do
  let rawRetention ← setting "memory" "soft_delete_days" (.int 30)
  let retention ← Tx.ofExcept (intOf out rawRetention)
  let (memoryId, expectedVersion) ← Tx.ofExcept (targetArguments out args "memory_id")
  let item ← MemoryService.softDelete out.toRuntime accountId memoryId expectedVersion retention context
  pure (.obj (memoryResult out item ++ [("recoverable_until", datetimeJson out item.purgeAfter)]))

/-- `_execute_state_action` of `memory_restore`. -/
def executeMemoryRestore (accountId : Uuid) (args : Json) (context : AuditContext) : Work Json := do
  let (memoryId, expectedVersion) ← Tx.ofExcept (targetArguments out args "memory_id")
  let item ← MemoryService.restore out.toRuntime accountId memoryId expectedVersion context
  pure (.obj (memoryResult out item))

/-- One source of a merge is still at the version that was confirmed. -/
def checkSource (accountId : Uuid) (source : String × Json) : Work PUnit := do
  let memoryId ← Tx.ofExcept (uuidOf out (.str source.1))
  let item ← MemoryService.get accountId memoryId true
  Tx.raiseIf (eqVersion out item.version source.2 = false)
    (.domain (.conflict "Některá zdrojová paměť se před potvrzením změnila."
      (some (.obj [("memory_id", .str source.1)]))))

/-- The checked arguments of `memory_merge`. -/
def mergeArguments (accountId : Uuid) (args : Json) : Work (List Uuid × MemoryCreate) := do
  let versions ← Tx.ofExcept ((argument args "source_versions").bind itemsOf)
  let _ ← Tx.forEach (checkSource out accountId) versions
  let sourceIds ← Tx.ofExcept (((argument args "source_ids").bind iterate).bind (uuidsOf out))
  let target ← Tx.ofExcept ((argument args "target").bind fun target =>
    validated (MemoryCreate.modelValidate out.toRuntime target))
  pure (sourceIds, target)

/-- `_execute_state_action` of `memory_merge`. -/
def executeMerge (accountId : Uuid) (args : Json) (context : AuditContext) : Work Json := do
  let (sourceIds, target) ← mergeArguments out accountId args
  let item ← MemoryService.merge out.toRuntime accountId sourceIds target context
  pure (.obj (memoryResult out item))

/-- `_execute_state_action` of `history_continue`. -/
def executeContinue (accountId : Uuid) (args : Json) (context : AuditContext) : Work Json := do
  let conversationId ← Tx.ofExcept ((argument args "conversation_id").bind (uuidOf out))
  let c ← HistoryService.continueFrom out.toRuntime accountId conversationId context
  pure (.obj (conversationOutcome out c))

/-- `_execute_state_action` of `history_delete`. -/
def executeHistoryDelete (accountId : Uuid) (args : Json) (context : AuditContext) : Work Json := do
  let rawRetention ← setting "history" "soft_delete_days" (.int 30)
  let retention ← Tx.ofExcept (intOf out rawRetention)
  let (conversationId, expectedVersion) ← Tx.ofExcept (targetArguments out args "conversation_id")
  let c ← HistoryService.softDelete out.toRuntime accountId conversationId expectedVersion retention context
  pure (.obj (conversationOutcome out c ++ [("recoverable_until", datetimeJson out c.purgeAfter)]))

/-- `_execute_state_action` of `history_restore`. -/
def executeHistoryRestore (accountId : Uuid) (args : Json) (context : AuditContext) :
    Work Json := do
  let (conversationId, expectedVersion) ← Tx.ofExcept (targetArguments out args "conversation_id")
  let c ← HistoryService.restore out.toRuntime accountId conversationId expectedVersion context
  pure (.obj (conversationOutcome out c))

/-- `name in {"memory_update", "memory_mark_outdated"}`. -/
def IsUpdate (name : String) : Prop := name = "memory_update" ∨ name = "memory_mark_outdated"

instance : DecidablePred IsUpdate := fun name =>
  inferInstanceAs (Decidable (name = "memory_update" ∨ name = "memory_mark_outdated"))

/-- The operation that a name stands for. -/
def dispatch (accountId : Uuid) (name : String) (args : Json) (context : AuditContext) :
    Work Json :=
  if name = "memory_create" then executeCreate out accountId args context
  else if IsUpdate name then
    executeUpdate out accountId args (decide (name = "memory_mark_outdated")) context
  else if name = "memory_delete" then executeMemoryDelete out accountId args context
  else if name = "memory_restore" then executeMemoryRestore out accountId args context
  else if name = "memory_merge" then executeMerge out accountId args context
  else if name = "history_continue" then executeContinue out accountId args context
  else if name = "history_delete" then executeHistoryDelete out accountId args context
  else if name = "history_restore" then executeHistoryRestore out accountId args context
  else Tx.raise (.domain
    ⟨"tool_not_allowed", "Potvrzený nástroj není podporován.", 409, none, false⟩)

/-- `_execute_state_action`. -/
def executeStateAction (accountId : Uuid) (action : ToolAction) (context : AuditContext) :
    Work Json := do
  Tx.raiseIf (out.sha256 action.arguments.dumpsSorted ≠ action.argumentsHash) (.domain
    ⟨"action_integrity_failed", "Integrita potvrzované operace byla porušena.", 409, none, false⟩)
  dispatch out accountId action.name action.arguments context

/-- Attributes assigned to an action, written back. -/
def updateAction (actionId : Uuid) (f : ToolAction → ToolAction) : Work ToolAction := do
  let row ← Db.toolAction.find actionId
  let action ← Tx.orRaise row (.other "ObjectDeletedError")
  Db.toolAction.save out.toRuntime { f action with id := action.id }
  pure (f action)

/-- The action of an account, joined with its run. -/
def action? (db : Db) (accountId actionId : Uuid) : Option ToolAction :=
  (db.toolActions.find? actionId).filter fun a =>
    (db.orchestrationRuns.find? a.runId).any fun r => r.accountId = accountId

/-- The action that `confirm_action` loads and locks. -/
def lockAction (accountId actionId : Uuid) : Work ToolAction := do
  let row ← Tx.gets fun s => action? s.db accountId actionId
  Tx.orRaise row (.domain (.notFound "Potvrzovaná operace nebyla nalezena."))

/-- `action.expires_at and action.expires_at <= now`. -/
def expired (action : ToolAction) (now : DateTime) : Bool := action.expiresAt.any (·.le now)

/-- The run of a completed action completes with its last action. -/
def completeRun (action : ToolAction) : Work PUnit := do
  let run ← Db.orchestrationRun.find action.runId
  match run with
  | none => pure ⟨⟩
  | some run => do
    let remaining ← Db.toolAction.select fun a =>
      a.runId = run.id ∧ a.id ≠ action.id ∧ ¬a.state.Finished
    if remaining = [] then do
      Db.orchestrationRun.save out.toRuntime { run with state := .completed, version := run.version + 1 }
    else pure ⟨⟩

/-- The body of the `try` of `confirm_action`. -/
def executeConfirmed (accountId : Uuid) (action : ToolAction) (context : AuditContext) :
    Work ToolAction := do
  let result ← executeStateAction out accountId action context
  let now ← utcNow out.toRuntime
  let action ← updateAction out action.id fun a => { a with
    result := some result, state := .completed, completedAt := some now, version := a.version + 1 }
  completeRun out action
  let _ ← AuditService.append out.toRuntime context "orchestration.action_completed" "success"
    (some "tool_action") (some action.id)
    [("name", .str action.name), ("run_id", .str (out.strUuid action.runId))]
  pure action

/-- The body of the `except` of `confirm_action`, without the final `raise`. -/
def failAction (actionId : Uuid) (context : AuditContext) (e : Exc) : Work PUnit := do
  let action ← updateAction out actionId fun a => { a with
    state := .failed, errorCode := some e.errorCode, version := a.version + 1 }
  let _ ← AuditService.append out.toRuntime context "orchestration.action_failed" "failed"
    (some "tool_action") (some action.id)
    [("name", .str action.name), ("error_code", .str e.errorCode)]
  pure ⟨⟩

/-- The expiry branch of `confirm_action`: the one durable refusal of a pending action. -/
def expireAction (actionId : Uuid) : Work ToolAction := do
  let _ ← updateAction out actionId fun a => { a with state := .expired, version := a.version + 1 }
  Tx.raise (Exc.domain
    (.conflict "Platnost potvrzení vypršela; vyžádejte nový náhled.")).markDurable

/-- The confirmation of a pending action that has not expired. -/
def runAction (accountId : Uuid) (action : ToolAction) (context : AuditContext) :
    Work ToolAction := do
  let confirmedAt ← utcNow out.toRuntime
  let action ← updateAction out action.id fun a => { a with
    state := .running, confirmedAt := some confirmedAt, version := a.version + 1 }
  Tx.handle (executeConfirmed out accountId action context) fun e => do
    failAction out action.id context e
    Tx.raise e.markDurable

def confirmAction (accountId actionId : Uuid) (expectedActionVersion : ℤ)
    (context : AuditContext) : Work ToolAction := do
  let action ← lockAction accountId actionId
  if action.state = .completed then pure action
  else do
    Tx.raiseIf (action.version ≠ expectedActionVersion)
      (.domain (.conflict "Návrh operace byl mezitím změněn."
        (some (.obj [("expected_version", .int expectedActionVersion),
          ("actual_version", .int action.version)]))))
    Tx.raiseIf (action.state ≠ .pendingConfirmation)
      (.domain (.conflict "Operaci v tomto stavu nelze potvrdit."))
    let now ← utcNow out.toRuntime
    if expired action now then expireAction out action.id
    else runAction out accountId action context

/-! ### Cancelling a run -/

def cancelRun (accountId runId : Uuid) (context : AuditContext) : Work OrchestrationRun := do
  let rows ← Db.orchestrationRun.select fun r => r.id = runId ∧ r.accountId = accountId
  let run ← Tx.orRaise rows.head? (.domain (.notFound "Orchestration run nebyl nalezen."))
  if run.state = .completed ∨ run.state = .failed ∨ run.state = .cancelled then pure run
  else do
    let now ← utcNow out.toRuntime
    let run ← updateRun out run.id fun r => { r with
      state := .cancelled, cancelledAt := some now, version := r.version + 1 }
    let actions ← Db.toolAction.select fun a => a.runId = run.id ∧ a.state = .pendingConfirmation
    let _ ← Tx.forEach (fun a : ToolAction => updateAction out a.id fun a => { a with
      state := .cancelled, version := a.version + 1 }) actions
    let _ ← AuditService.append out.toRuntime context "orchestration.cancelled" "success"
      (some "orchestration_run") (some run.id)
    pure run

end OrchestrationService

end KajovoDagmar
