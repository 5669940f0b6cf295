import KajovoDagmar.Library.Json
import KajovoDagmar.Types

/-! # The model's decision

`ModelDecision` is what the language model returns once it has been validated.  The bounds of
its fields and the consistency of its confirmation flag are part of the structure. -/

namespace KajovoDagmar

inductive Intent where
  | conversation | search | readMemory | readHistory | changeProposal | confirmedChange
  | memoryManagement | historyManagement | administration | securitySensitive
deriving DecidableEq, Repr

def Intent.text : Intent → String
  | conversation => "conversation"
  | search => "search"
  | readMemory => "read_memory"
  | readHistory => "read_history"
  | changeProposal => "change_proposal"
  | confirmedChange => "confirmed_change"
  | memoryManagement => "memory_management"
  | historyManagement => "history_management"
  | administration => "administration"
  | securitySensitive => "security_sensitive"

inductive ToolName where
  | memorySearch | historySearch | memoryCreate | memoryUpdate | memoryMarkOutdated | memoryDelete
  | memoryRestore | memoryMerge | historyContinue | historyDelete | historyRestore | none
deriving DecidableEq, Repr

namespace ToolName

def text : ToolName → String
  | memorySearch => "memory_search"
  | historySearch => "history_search"
  | memoryCreate => "memory_create"
  | memoryUpdate => "memory_update"
  | memoryMarkOutdated => "memory_mark_outdated"
  | memoryDelete => "memory_delete"
  | memoryRestore => "memory_restore"
  | memoryMerge => "memory_merge"
  | historyContinue => "history_continue"
  | historyDelete => "history_delete"
  | historyRestore => "history_restore"
  | none => "none"

/-- `READ_ONLY_TOOLS`. -/
def readOnlyTools : List ToolName := [memorySearch, historySearch]

/-- `STATE_TOOLS`. -/
def stateTools : List ToolName :=
  [memoryCreate, memoryUpdate, memoryMarkOutdated, memoryDelete, memoryRestore, memoryMerge,
    historyContinue, historyDelete, historyRestore]

end ToolName

inductive ResultType where
  | answer | clarification | confirmationRequired | blocked
deriving DecidableEq, Repr

def ResultType.text : ResultType → String
  | answer => "answer"
  | clarification => "clarification"
  | confirmationRequired => "confirmation_required"
  | blocked => "blocked"

inductive Uncertainty where
  | none | low | material
deriving DecidableEq, Repr

def Uncertainty.text : Uncertainty → String
  | none => "none"
  | low => "low"
  | material => "material"

structure MemoryProposal where
  content : String
  category : MemoryCategory
  rationale : String
  eventAt : Option String := none
  validFrom : Option String := none
  validUntil : Option String := none
  sourceMessageId : Option String := none
deriving DecidableEq

/-- `model_dump(exclude_none=True)`. -/
def MemoryProposal.modelDump (p : MemoryProposal) : List (String × Json) :=
  [("content", .str p.content), ("category", .str p.category.text), ("rationale", .str p.rationale)] ++
    [("event_at", p.eventAt), ("valid_from", p.validFrom), ("valid_until", p.validUntil),
      ("source_message_id", p.sourceMessageId)].filterMap fun kv =>
        kv.2.map fun v => (kv.1, Json.str v)

structure ToolCallDecision where
  name : ToolName
  arguments : List (String × Json) := []

structure SourceReference where
  sourceType : String
  sourceId : String
  label : String
deriving DecidableEq

/-- A validated decision. -/
structure ModelDecision where
  intent : Intent
  resultType : ResultType
  answer : String
  uncertainty : Uncertainty
  sources : List SourceReference := []
  toolCalls : List ToolCallDecision := []
  memoryProposal : Option MemoryProposal := none
  requiresConfirmation : Bool := false
  answer_bounds : 1 ≤ answer.length ∧ answer.length ≤ 50000
  sources_bound : sources.length ≤ 20
  toolCalls_bound : toolCalls.length ≤ 5
  /-- `validate_confirmation_consistency`. -/
  confirmed : (∃ tool ∈ toolCalls, tool.name ∉ [.none, .memorySearch, .historySearch]) ∨
    resultType = .confirmationRequired ∨ memoryProposal.isSome → requiresConfirmation = true

theorem noSources_bound : ([] : List SourceReference).length ≤ 20 := by decide

theorem noCalls_bound : ([] : List ToolCallDecision).length ≤ 5 := by decide

/-- A plain answer without calls needs no confirmation. -/
theorem answer_confirmed : (∃ tool ∈ ([] : List ToolCallDecision),
    tool.name ∉ [.none, .memorySearch, .historySearch]) ∨ ResultType.answer = .confirmationRequired ∨
      (none : Option MemoryProposal).isSome → false = true := by decide

/-- `model_dump(mode="json")`. -/
def ModelDecision.modelDump (d : ModelDecision) : Json := .obj
  [("intent", .str d.intent.text),
   ("result_type", .str d.resultType.text),
   ("answer", .str d.answer),
   ("uncertainty", .str d.uncertainty.text),
   ("sources", .arr (d.sources.map fun s => .obj
     [("source_type", .str s.sourceType), ("source_id", .str s.sourceId), ("label", .str s.label)])),
   ("tool_calls", .arr (d.toolCalls.map fun t => .obj
     [("name", .str t.name.text), ("arguments", .obj t.arguments)])),
   ("memory_proposal", .ofOption (d.memoryProposal.map fun p => .obj
     [("content", .str p.content), ("category", .str p.category.text),
      ("rationale", .str p.rationale), ("event_at", .ofStr? p.eventAt),
      ("valid_from", .ofStr? p.validFrom), ("valid_until", .ofStr? p.validUntil),
      ("source_message_id", .ofStr? p.sourceMessageId)])),
   ("requires_confirmation", .bool d.requiresConfirmation)]

end KajovoDagmar
