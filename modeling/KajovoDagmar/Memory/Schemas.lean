import KajovoDagmar.Db.Session
import KajovoDagmar.Library.PythonText

/-! # Memory requests

`MemoryCreate` and `MemoryUpdate` carry the bounds that their validation establishes, so that
the services below never see a request that violates them. -/

namespace KajovoDagmar

/-- The content of a memory: not blank, at most 10000 characters, without surrounding space. -/
def validContent (s : String) : Prop := 1 ≤ s.length ∧ s.length ≤ 10000 ∧ PythonText.strip s = s

instance : DecidablePred validContent := fun s =>
  inferInstanceAs (Decidable (1 ≤ s.length ∧ s.length ≤ 10000 ∧ PythonText.strip s = s))

/-- The validation of a `content` field: `non_blank_content`, then the length bounds. -/
def validateContent : Json → Option { s : String // validContent s }
  | .str s =>
    let t := PythonText.strip s
    if h : 1 ≤ t.length ∧ t.length ≤ 10000 then some ⟨t, h.1, h.2, PythonText.strip_strip s⟩ else none
  | _ => none

/-- The validation of a field of type `T | None`. -/
def validateOptional {α : Type} (validate : Json → Option α) : Json → Option (Option α)
  | .null => some none
  | j => (validate j).map some

def validateText (maxLength : ℕ) : Json → Option String
  | .str s => if s.length ≤ maxLength then some s else none
  | _ => none

def validateCategory : Json → Option MemoryCategory
  | .str s => MemoryCategory.ofText? s
  | _ => none

def validateOrigin : Json → Option OriginType
  | .str s => OriginType.ofText? s
  | _ => none

/-- A list of strings. -/
def validateStrings : List Json → Option (List String)
  | [] => some []
  | .str s :: xs => (validateStrings xs).map (s :: ·)
  | _ :: _ => none

def validateKeywords : Json → Option { ks : List String // ks.length ≤ 30 }
  | .arr xs => (validateStrings xs).bind fun ks => if h : ks.length ≤ 30 then some ⟨ks, h⟩ else none
  | _ => none

structure MemoryCreate where
  content : { s : String // validContent s }
  category : MemoryCategory
  originType : OriginType
  sourceConversationId : Option Uuid
  sourceMessageId : Option Uuid
  originalExpression : Option String
  eventAt : Option DateTime
  validFrom : Option DateTime
  validUntil : Option DateTime
  keywords : { ks : List String // ks.length ≤ 30 }
  confirmed : Bool

namespace MemoryCreate

variable (rt : Runtime)

/-- `MemoryCreate(content=…, …)` with the two identifiers given as `UUID` values. -/
def make (content category originType : Json) (sourceConversationId sourceMessageId : Option Uuid)
    (originalExpression eventAt validFrom validUntil keywords confirmed : Json) :
    Option MemoryCreate := do
  let content ← validateContent content
  let category ← validateCategory category
  let originType ← validateOrigin originType
  let originalExpression ← validateOptional (validateText 10000) originalExpression
  let eventAt ← validateOptional rt.validateDatetime eventAt
  let validFrom ← validateOptional rt.validateDatetime validFrom
  let validUntil ← validateOptional rt.validateDatetime validUntil
  let keywords ← validateKeywords keywords
  let confirmed ← rt.validateBool confirmed
  pure ⟨content, category, originType, sourceConversationId, sourceMessageId, originalExpression,
    eventAt, validFrom, validUntil, keywords, confirmed⟩

/-- `MemoryCreate.model_validate(j)`. -/
def modelValidate (j : Json) : Option MemoryCreate := do
  let content ← j.get? "content"
  let category ← j.get? "category"
  let originType ← j.get? "origin_type"
  let conversationId ← validateOptional rt.validateUuid (j.getD "source_conversation_id" .null)
  let messageId ← validateOptional rt.validateUuid (j.getD "source_message_id" .null)
  make rt content category originType conversationId messageId
    (j.getD "original_expression" .null) (j.getD "event_at" .null) (j.getD "valid_from" .null)
    (j.getD "valid_until" .null) (j.getD "keywords" (.arr [])) (j.getD "confirmed" (.bool false))

/-- `model_dump(mode="json")`. -/
def modelDump (m : MemoryCreate) : Json := .obj
  [("content", .str m.content.val),
   ("category", .str m.category.text),
   ("origin_type", .str m.originType.text),
   ("source_conversation_id", .ofStr? (m.sourceConversationId.map rt.strUuid)),
   ("source_message_id", .ofStr? (m.sourceMessageId.map rt.strUuid)),
   ("original_expression", .ofStr? m.originalExpression),
   ("event_at", .ofStr? (m.eventAt.map rt.dumpDatetime)),
   ("valid_from", .ofStr? (m.validFrom.map rt.dumpDatetime)),
   ("valid_until", .ofStr? (m.validUntil.map rt.dumpDatetime)),
   ("keywords", .arr (m.keywords.val.map .str)),
   ("confirmed", .bool m.confirmed)]

end MemoryCreate

structure MemoryUpdate where
  expectedVersion : { n : ℤ // 1 ≤ n }
  content : Option { s : String // validContent s }
  category : Option MemoryCategory
  eventAt : Option DateTime
  validFrom : Option DateTime
  validUntil : Option DateTime
  markOutdated : Bool

/-- `MemoryUpdate(expected_version=…, …)`. -/
def MemoryUpdate.make (rt : Runtime) (expectedVersion : ℤ)
    (content category eventAt validFrom validUntil : Json) (markOutdated : Bool) :
    Option MemoryUpdate := do
  let expectedVersion ← if h : 1 ≤ expectedVersion then some ⟨expectedVersion, h⟩ else none
  let content ← validateOptional validateContent content
  let category ← validateOptional validateCategory category
  let eventAt ← validateOptional rt.validateDatetime eventAt
  let validFrom ← validateOptional rt.validateDatetime validFrom
  let validUntil ← validateOptional rt.validateDatetime validUntil
  pure ⟨expectedVersion, content, category, eventAt, validFrom, validUntil, markOutdated⟩

end KajovoDagmar
