import KajovoDagmar.Conversations.Service
import KajovoDagmar.Db.Sample
import KajovoDagmar.Memory.Service
import KajovoDagmar.Orchestration.Contracts
import KajovoDagmar.Orchestration.Prompts

/-! # Model calls and their context

The part of `OrchestrationService` that talks to the language model: choosing the configured
model, building the controlled context, calling the model and running the read-only tools that
it asks for.  The chat provider, the validation of its answer and the ranking of the search
index are outside the program; `Outside` adds them to the runtime. -/

namespace KajovoDagmar

structure Outside extends Runtime where
  /-- `ProviderService.runtime`: what is wrong with a provider's stored configuration. -/
  providerRuntime : Db → ProviderConfiguration → Option Exc
  /-- `provider.chat(request)` at each call. -/
  chat : ℕ → ChatRequest → Except Exc ChatResult
  /-- `TypeAdapter(ModelDecision).validate_python`: the decision or the validation errors. -/
  validateDecision : Json → Except Json ModelDecision
  decisionSchema : Json
  latencyMs : ℕ → ℤ
  /-- `HybridSearchService.ranked_owner_ids`. -/
  rankedOwnerIds : Db → ℕ → (accountId : Uuid) → (ownerType query : String) → (limit : ℕ) →
    Except Exc (List Uuid)

/-- The sample runtime with a given provider, an unranked search index and a given validation of
decisions. -/
def Outside.sample (runtime : Runtime) (chat : ℕ → ChatRequest → Except Exc ChatResult)
    (validateDecision : Json → Except Json ModelDecision) : Outside where
  toRuntime := runtime
  providerRuntime _ _ := none
  chat := chat
  validateDecision := validateDecision
  decisionSchema := .obj []
  latencyMs _ := 0
  rankedOwnerIds _ _ _ _ _ _ := .ok []

structure ContextBundle where
  prompt : String
  manifest : Json
  allowedSourceIds : List String

/-- What one tool found: its name, its query and the items. -/
structure ToolResult where
  tool : String
  query : String
  items : List Json

def ToolResult.json (r : ToolResult) : Json := .obj
  [("tool", .str r.tool), ("query", .str r.query), ("scope", .str "global"), ("items", .arr r.items)]

namespace OrchestrationService

variable (out : Outside)

/-! ### Text and settings -/

/-- `_normalize`. -/
def normalize (value : String) : String :=
  PythonText.strip (PythonText.unwords (PythonText.split (out.nfc value)))

/-- `str(value)`. -/
def pyStr : Json → String
  | .null => "None"
  | .bool true => "True"
  | .bool false => "False"
  | .int n => toString n
  | .float r => r
  | .str s => s
  | j => out.pyRepr j

/-- `_setting`. -/
def setting (area key : String) (fallback : Json) : Work Json := Tx.gets fun s =>
  (s.db.setting? area key).elim fallback fun row => row.value.getD "value" fallback

def unavailable (reason : String) : Exc :=
  .domain (.capabilityUnavailable "conversation_model" reason)

/-- `_primary_model`. -/
def primaryModel : Work (ProviderConfiguration × ModelCatalogEntry) := do
  let row ← Tx.gets fun s => s.db.setting? "models" "conversation_model"
  let value := row.elim .null fun r => r.value.getD "value" .null
  Tx.raiseIf (value.truthy = false)
    (unavailable "V Nastavení není vybrán primární konverzační model.")
  let modelUuid ← Tx.orRaise (out.parseUuid (pyStr out value))
    (unavailable "Uložený výběr modelu není platný.")
  let models ← Tx.gets fun s => s.db.modelCatalogEntries.find? modelUuid
  let model ← Tx.orRaise (models.filter (·.available)) (unavailable "Vybraný model není dostupný.")
  let enabled := model.capabilities.entries.filterMap fun kv =>
    match kv.2 with
    | .bool true => some kv.1
    | _ => none
  Tx.raiseIf (¬("responses" ∈ enabled ∧ "structured_outputs" ∈ enabled))
    (unavailable "Vybraný model nemá ověřenou schopnost strukturované konverzační odpovědi.")
  let providers ← Tx.gets fun s => s.db.providerConfigurations.find? model.providerId
  let provider ← Tx.orRaise
    (providers.filter fun p => p.enabled ∧ p.verificationState = "verified")
    (unavailable "Poskytovatel modelu není ověřen a aktivní.")
  pure (provider, model)

/-! ### The controlled context -/

/-- The newest messages whose contents fit, newest first; the newest one always fits. -/
def takeWhileFits (maxCharacters : ℕ) : ℕ → Bool → List ConversationMessage → List ConversationMessage
  | _, _, [] => []
  | used, selected, message :: older =>
    let length := message.content.length
    if selected ∧ maxCharacters < used + length then []
    else message :: takeWhileFits maxCharacters (used + length) true older

/-- `_context_messages`. -/
def contextMessages (messages : List ConversationMessage) (maxCharacters : ℕ) :
    List ConversationMessage :=
  (takeWhileFits maxCharacters 0 false messages.reverse).reverse

def datetimeJson (d : Option DateTime) : Json := .ofStr? (d.map out.isoformat)

/-- A memory item in the context, with its sources. -/
def memoryPayload (sources : List MemorySource) (memory : MemoryItem) : Json := .obj
  [("id", .str (out.strUuid memory.id)),
   ("category", .str memory.category.text),
   ("state", .str memory.state.text),
   ("content", .str memory.content),
   ("event_at", datetimeJson out memory.eventAt),
   ("valid_from", datetimeJson out memory.validFrom),
   ("valid_until", datetimeJson out memory.validUntil),
   ("sources", .arr ((sources.filter fun s => s.memoryId = memory.id).map fun s => .obj
     [("type", .str s.sourceType),
      ("conversation_id", .ofStr? (s.conversationId.map out.strUuid)),
      ("message_id", .ofStr? (s.messageId.map out.strUuid))]))]

/-- A message of the conversation in the context. -/
def messagePayload (message : ConversationMessage) : Json := .obj
  [("id", .str (out.strUuid message.id)),
   ("sequence", .int message.sequence),
   ("role", .str message.role.text),
   ("content", .str message.content),
   ("status", .str message.status)]

/-- The memories of the context: the ranked ones in their order, or the six changed last. -/
def contextMemories (accountId : Uuid) (ranked : List Uuid) : Work (List MemoryItem) := do
  let rows ← Db.memoryItem.select fun m =>
    m.accountId = accountId ∧ m.state = .active ∧ (ranked = [] ∨ m.id ∈ ranked)
  let ordered := if ranked = [] then
      (rows.insertionSort fun a b => ¬a.updatedAt.before b.updatedAt).take 6
    else rows.insertionSort fun a b => ranked.idxOf a.id ≤ ranked.idxOf b.id
  pure (ordered.take 12)

/-- The identifiers that the items of a tool result carry. -/
def itemIds (items : List Json) : List String :=
  items.filterMap fun item => (item.get? "id").filter (·.truthy) |>.map (pyStr out)

/-- The manifest of the context. -/
def manifest (conversation : Conversation) (sourceMessage : ConversationMessage)
    (selected : List ConversationMessage) (memories : List MemoryItem)
    (toolResults : List ToolResult) : Json := .obj
  [("orchestration_version", .str orchestrationVersion),
   ("prompt_version", .str promptVersion),
   ("conversation_id", .str (out.strUuid conversation.id)),
   ("source_message_id", .str (out.strUuid sourceMessage.id)),
   ("sources", .obj
     [("conversation_messages", .arr (selected.map fun m => .str (out.strUuid m.id))),
      ("memory_items", .arr (memories.map fun m => .str (out.strUuid m.id))),
      ("tool_results", .arr (toolResults.map fun r => .str r.tool))]),
   ("classes", .arr ([.str "system_rules", .str "active_conversation", .str "confirmed_memory"] ++
     if toolResults = [] then [] else [.str "verified_tool_result"]))]

/-- The system prompt of a context. -/
def contextPrompt (conversation : Conversation) (manifest verbosity : Json)
    (selected : List ConversationMessage) (memories : List MemoryItem)
    (sources : List MemorySource) (toolResults : List ToolResult) : String :=
  let summary := (conversation.contextSummary.filter (· ≠ "")).getD "Není vytvořen řízený souhrn."
  systemTemplate (languageName conversation.language) (verbosityInstruction (pyStr out verbosity))
    manifest.dumps summary (Json.arr (selected.map (messagePayload out))).dumps
    (Json.arr (memories.map (memoryPayload out sources))).dumps
    (if toolResults = [] then "Žádný nástroj nebyl spuštěn."
      else (Json.arr (toolResults.map ToolResult.json)).dumps)

/-- The identifiers that a decision may cite. -/
def allowedSources (selected : List ConversationMessage) (memories : List MemoryItem)
    (toolResults : List ToolResult) : List String :=
  selected.map (fun m => out.strUuid m.id) ++ memories.map (fun m => out.strUuid m.id) ++
    toolResults.flatMap fun r => itemIds out r.items

/-- `_build_context`. -/
def buildContext (accountId : Uuid) (conversation : Conversation)
    (messages : List ConversationMessage) (sourceMessage : ConversationMessage)
    (normalizedInput : String) (toolResults : List ToolResult) : Work ContextBundle := do
  let answer ← Tx.gets fun s =>
    out.rankedOwnerIds s.db s.tick accountId "memory" normalizedInput 12
  let ranked ← Tx.ofExcept answer
  let memories ← contextMemories accountId ranked
  let sources ← Db.memorySource.select fun s => s.memoryId ∈ memories.map MemoryItem.id
  let selected := contextMessages messages 45000
  let manifest := manifest out conversation sourceMessage selected memories toolResults
  let verbosity ← setting "conversation" "verbosity" (.str "balanced")
  pure ⟨contextPrompt out conversation manifest verbosity selected memories sources toolResults,
    manifest, allowedSources out selected memories toolResults⟩

/-! ### Calling the model -/

/-- Attributes assigned to a run, written back. -/
def updateRun (runId : Uuid) (f : OrchestrationRun → OrchestrationRun) : Work OrchestrationRun := do
  let row ← Db.orchestrationRun.find runId
  let run ← Tx.orRaise row (.other "ObjectDeletedError")
  Db.orchestrationRun.save out.toRuntime { f run with id := run.id }
  pure (f run)

/-- The provider's answer; every call is on record. -/
def chat (request : ChatRequest) : Work ChatResult := fun s =>
  let reply := out.chat s.tick request
  (reply, { s with tick := s.tick + 1, chats := s.chats ++ [⟨request, reply⟩] })

/-- `messages[-30:]`. -/
def lastThirty (messages : List ConversationMessage) : List ConversationMessage :=
  messages.drop (messages.length - 30)

/-- The request of `_call_model`. -/
def chatRequest (model : ModelCatalogEntry) (prompt : String) (messages : List ConversationMessage) :
    ChatRequest :=
  { model := model.externalId
    messages := ⟨"system", prompt⟩ :: (lastThirty messages).map fun m => ⟨m.role.text, m.content⟩
    responseSchema := out.decisionSchema
    temperature := "0.15"
    timeoutSeconds := "45.0"
    capabilities := model.capabilities }

/-- `_usage`. -/
def usage (result : ChatResult) : Json := .obj
  [("input_units", .int (result.inputUnits.getD 0)), ("output_units", .int (result.outputUnits.getD 0))]

def usageOf (j : Json) (key : String) : ℤ :=
  match j.get? key with
  | some (.int n) => n
  | _ => 0

/-- `_merge_usage`. -/
def mergeUsage (left right : Json) : Json := .obj
  [("input_units", .int (usageOf left "input_units" + usageOf right "input_units")),
   ("output_units", .int (usageOf left "output_units" + usageOf right "output_units"))]

/-- `isinstance(value, (str, int, float, bool))`. -/
def isScalar : Json → Bool
  | .str _ | .int _ | .float _ | .bool _ => true
  | _ => false

/-- `_safe_provider_error_details`. -/
def safeProviderErrorDetails : Exc → Json
  | .domain e =>
    let allowed := ["status", "endpoint", "provider_request_id", "provider_error_type",
      "provider_error_code", "provider_param"]
    let details := (e.details.elim [] Json.entries).filter fun kv =>
      decide (kv.1 ∈ allowed) && isScalar kv.2
    if details.isEmpty then .obj [] else .obj [("provider_error", .obj details)]
  | _ => .obj []

def decisionInvalid (errors : Json) : Exc := .domain
  ⟨"model_decision_invalid", "Modelová odpověď nesplnila bezpečný interní kontrakt.", 502,
    some (.obj [("validation_errors", errors)]), false⟩

/-- The call itself and the validation of its result, recorded in the attempt. -/
def attemptCall (attempt : OrchestrationAttempt) (request : ChatRequest) :
    Work (ModelDecision × ChatResult) := do
  let result ← chat out request
  let decision ← Tx.ofExcept ((out.validateDecision result.structured).mapError decisionInvalid)
  let now ← utcNow out.toRuntime
  Db.orchestrationAttempt.save out.toRuntime { attempt with
    state := "completed"
    providerResponseId := some result.providerResponseId
    completedAt := some now
    latencyMs := some (out.latencyMs attempt.attemptNumber)
    usage := usage result }
  pure (decision, result)

/-- The record of a failed attempt. -/
def failAttempt (attempt : OrchestrationAttempt) (e : Exc) : Work PUnit := do
  let now ← utcNow out.toRuntime
  Db.orchestrationAttempt.save out.toRuntime { attempt with
    state := "failed"
    completedAt := some now
    latencyMs := some (out.latencyMs attempt.attemptNumber)
    errorCode := some e.errorCode
    usage := safeProviderErrorDetails e }

/-- `_call_model`. -/
def callModel (runId : Uuid) (provider : ProviderConfiguration) (model : ModelCatalogEntry)
    (prompt : String) (messages : List ConversationMessage) : Work (ModelDecision × ChatResult) := do
  let broken ← Tx.gets fun s => out.providerRuntime s.db provider
  Tx.raiseSome broken
  let run ← updateRun out runId fun r => { r with attemptCount := r.attemptCount + 1 }
  let id ← newUuid out.toRuntime
  let attempt : OrchestrationAttempt :=
    { id := id
      runId := runId
      attemptNumber := run.attemptCount
      providerId := provider.id
      modelId := model.id }
  Db.orchestrationAttempt.add out.toRuntime attempt
  Tx.handle (attemptCall out attempt (chatRequest out model prompt messages)) fun e => do
    failAttempt out attempt e
    Tx.raise e

/-! ### Read-only tools -/

def argumentsInvalid (message : String) : Exc :=
  .domain ⟨"tool_arguments_invalid", message, 502, none, false⟩

/-- `isinstance(value, int) and not isinstance(value, bool)`. -/
def strictInt : Json → Option ℤ
  | .int n => some n
  | _ => none

def memoryItemResult (row : MemoryItem) : Json := .obj
  [("id", .str (out.strUuid row.id)), ("content", .str row.content),
   ("category", .str row.category.text), ("state", .str row.state.text),
   ("event_at", datetimeJson out row.eventAt)]

def conversationResult (row : Conversation) : Json := .obj
  [("id", .str (out.strUuid row.id)), ("title", .ofStr? row.title), ("summary", .ofStr? row.summary),
   ("started_at", .str (out.isoformat row.startedAt)), ("state", .str row.state.text)]

/-- The items that a search tool finds; a query beyond the bound of the search request fails its
validation after the ranking. -/
def toolItems (accountId : Uuid) (name : ToolName) (query : String) (limit : ℕ) :
    Work (List Json) := do
  let ownerType := if name = .memorySearch then "memory" else "conversation"
  let answer ← Tx.gets fun s => out.rankedOwnerIds s.db s.tick accountId ownerType query limit
  let ranked ← Tx.ofExcept answer
  Tx.raiseIf (500 < query.length) (.other "ValidationError")
  if name = .memorySearch then do
    let rows ← MemoryService.search out.toRuntime accountId query [.active] limit ranked
    pure (rows.map (memoryItemResult out))
  else do
    let rows ← HistoryService.search out.toRuntime accountId query
      [.completed, .interrupted, .recovered] limit ranked
    pure (rows.map (conversationResult out))

/-- One read-only call. -/
def executeReadTool (accountId : Uuid) (call : ToolCallDecision) : Work ToolResult := do
  let arguments := Json.obj call.arguments
  let query := normalize out (pyStr out (arguments.getD "query" (.str "")))
  Tx.raiseIf (query = "") (argumentsInvalid "Hledací nástroj nemá platný dotaz.")
  let rawLimit ← Tx.orRaise (strictInt (arguments.getD "limit" (.int 8)))
    (argumentsInvalid "Limit nástroje musí být celé číslo.")
  let limit := (min (max rawLimit 1) 20).toNat
  let items ← toolItems out accountId call.name query limit
  pure ⟨call.name.text, query, items⟩

/-- `_execute_read_tools`. -/
def executeReadTools (accountId : Uuid) (calls : List ToolCallDecision) :
    Work (List ToolResult × List String) := do
  let results ← Tx.forEach (executeReadTool out accountId) (calls.take 5)
  pure (results, results.flatMap fun r => itemIds out r.items)

/-- `_validate_sources`. -/
def validateSources (decision : ModelDecision) (allowedIds : List String) : Work PUnit :=
  let invalid := decision.sources.filter fun s => s.sourceId ∉ allowedIds
  Tx.raiseIf (invalid ≠ []) (.domain
    ⟨"source_provenance_invalid", "Model odkázal na zdroj, který nebyl součástí řízeného kontextu.",
      502, some (.obj [("invalid_source_count", .int invalid.length)]), false⟩)

end OrchestrationService

end KajovoDagmar
