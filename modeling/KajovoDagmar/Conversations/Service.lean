import KajovoDagmar.History.Service

/-! # Conversations

`ConversationService`: starting a conversation, adding turns, correcting the transcript of a
user turn and ending the conversation.  `UserTurn` and `TranscriptCorrection` carry the bounds
that their validation establishes. -/

namespace KajovoDagmar

/-- The content of a turn: from one to 50000 characters. -/
def validTurn (s : String) : Prop := 1 ≤ s.length ∧ s.length ≤ 50000

instance : DecidablePred validTurn := fun s =>
  inferInstanceAs (Decidable (1 ≤ s.length ∧ s.length ≤ 50000))

structure ConversationStart where
  inputMode : InputMode := .voice
  language : String := "cs"
  continuationOfId : Option Uuid := none

structure UserTurn where
  idempotencyKey : { s : String // 16 ≤ s.length ∧ s.length ≤ 128 }
  content : { s : String // validTurn s }
  inputMode : InputMode
  language : String := "cs"

theorem sampleKey_bounds : 16 ≤ "turn-0000000000000001".length ∧ "turn-0000000000000001".length ≤ 128 := by
  decide

structure TranscriptCorrection where
  expectedMessageVersion : ℤ
  correctedContent : { s : String // validTurn s }
  requestNewAnswer : Bool := false

namespace ConversationService

variable (rt : Runtime)

def start (accountId : Uuid) (request : ConversationStart) (context : AuditContext) :
    Work Conversation := do
  let originals ← Db.conversation.select fun c =>
    request.continuationOfId = some c.id ∧ c.accountId = accountId ∧ c.deletedAt = none
  Tx.raiseIf (request.continuationOfId ≠ none ∧ originals = [])
    (.domain (.notFound "Původní konverzace nebyla nalezena."))
  let id ← newUuid rt
  let began ← Tx.gets Session.began
  let row : Conversation :=
    { id := id
      accountId := accountId
      state := .active
      inputMode := request.inputMode
      language := request.language
      startedAt := began
      lastActivityAt := began
      continuationOfId := request.continuationOfId }
  Db.conversation.add rt row
  match request.continuationOfId with
  | none => pure ⟨⟩
  | some source => do
    let linkId ← newUuid rt
    Db.conversationLink.add rt
      { id := linkId, sourceId := source, targetId := row.id, relation := "continued_by" }
  let _ ← AuditService.append rt context "conversation.started" "success" none (some row.id)
    [("input_mode", .str request.inputMode.name),
     ("continuation", .bool request.continuationOfId.isSome)]
  pure row

/-- An outbox event of a conversation. -/
def publish (conversationId : Uuid) (eventType : String) (payload : Json) (sequence : ℤ) :
    Work PUnit := do
  let id ← newUuid rt
  let began ← Tx.gets Session.began
  Db.outboxEvent.add rt
    { id := id
      aggregateType := "conversation"
      aggregateId := conversationId
      eventType := eventType
      payload := payload
      sequence := sequence
      createdAt := began }

/-- `select coalesce(max(sequence), 0)` over the messages of a conversation. -/
def maxSequence (db : Db) (conversationId : Uuid) : ℕ :=
  ((db.conversationMessages.select fun m => m.conversationId = conversationId).map
    ConversationMessage.sequence).foldr max 0

/-- The hash that recognises a repeated turn. -/
def requestHash (request : UserTurn) : String :=
  rt.sha256 (Json.dumpsSorted (.obj
    [("content", .str (PythonText.strip request.content.val)),
     ("input_mode", .str request.inputMode.name),
     ("language", .str request.language)]))

/-- The message of a conversation with the given idempotency key. -/
def byIdempotencyKey (conversationId : Uuid) (idempotencyKey : String) :
    Work (Option ConversationMessage) := do
  let rows ← Db.conversationMessage.select fun m =>
    m.conversationId = conversationId ∧ m.idempotencyKey = idempotencyKey
  pure rows.head?

/-- A new message at the end of a locked conversation, and the conversation's counters. -/
def appendMessage (conversation : Conversation) (message : ConversationMessage) :
    Work Conversation := do
  Db.conversationMessage.add rt message
  let now ← utcNow rt
  let updated := { conversation with
    messageCount := conversation.messageCount + 1, lastActivityAt := now
    version := conversation.version + 1 }
  Db.conversation.save rt updated
  pure updated

/-- The new message of `add_user_turn`, with its outbox event. -/
def insertUserTurn (conversation : Conversation) (request : UserTurn) (context : AuditContext) :
    Work ConversationMessage := do
  let sequence ← Tx.gets fun s => maxSequence s.db conversation.id + 1
  let id ← newUuid rt
  let now ← utcNow rt
  let message : ConversationMessage :=
    { id := id
      conversationId := conversation.id
      sequence := sequence
      role := .user
      content := PythonText.strip request.content.val
      inputMode := request.inputMode
      status := "final"
      idempotencyKey := request.idempotencyKey.val
      requestHash := some (requestHash rt request)
      finalizedAt := some now }
  let updated ← appendMessage rt conversation message
  publish rt updated.id "conversation.user_turn_finalized"
    (.obj [("conversation_id", .str (rt.strUuid updated.id)), ("message_id", .str (rt.strUuid message.id))])
    updated.messageCount
  let _ ← AuditService.append rt context "conversation.user_turn_added" "success" none
    (some message.id)
    [("conversation_id", .str (rt.strUuid updated.id)), ("sequence", .int sequence)]
  pure message

def addUserTurn (accountId conversationId : Uuid) (request : UserTurn) (context : AuditContext) :
    Work ConversationMessage := do
  let conversation ← HistoryService.lockConversation accountId conversationId
  Tx.raiseIf (conversation.state ≠ .active)
    (.domain (.conflict "Do uzavřené konverzace nelze přidat repliku."))
  let existing ← byIdempotencyKey conversationId request.idempotencyKey.val
  match existing with
  | some message => do
    Tx.raiseIf (message.requestHash.elim false (fun h => h ≠ "" ∧ h ≠ requestHash rt request) = true)
      (.domain (.conflict "Idempotency klíč byl použit pro jiný požadavek."))
    pure message
  | none => insertUserTurn rt conversation request context

def addAssistantTurn (conversationId : Uuid) (content idempotencyKey : String) (runId : Uuid)
    (interrupted : Bool := false) : Work ConversationMessage := do
  let row ← Db.conversation.find conversationId
  let conversation ← Tx.orRaise row HistoryService.notFound
  let existing ← byIdempotencyKey conversationId idempotencyKey
  match existing with
  | some message => pure message
  | none => do
    let sequence ← Tx.gets fun s => maxSequence s.db conversationId + 1
    let id ← newUuid rt
    let now ← utcNow rt
    let message : ConversationMessage :=
      { id := id
        conversationId := conversationId
        sequence := sequence
        role := .assistant
        content := content
        inputMode := .generated
        status := if interrupted then "interrupted" else "final"
        idempotencyKey := idempotencyKey
        responseRunId := some runId
        interrupted := interrupted
        finalizedAt := some now }
    let _ ← appendMessage rt conversation message
    pure message

/-- The user message of an account, joined with its conversation. -/
def userMessage? (db : Db) (accountId messageId : Uuid) : Option ConversationMessage :=
  (db.conversationMessages.find? messageId).filter fun m =>
    m.role = .user ∧ (HistoryService.conversation? db accountId m.conversationId).isSome

/-- The user message that `correct_transcript` loads. -/
def lockUserMessage (accountId messageId : Uuid) : Work ConversationMessage := do
  let row ← Tx.gets fun s => userMessage? s.db accountId messageId
  Tx.orRaise row (.domain (.notFound "Uživatelská replika nebyla nalezena."))

/-- The corrected message with its revision and audit event. -/
def recordCorrection (accountId : Uuid) (message : ConversationMessage)
    (request : TranscriptCorrection) (context : AuditContext) : Work ConversationMessage := do
  let updated := { message with
    content := PythonText.strip request.correctedContent.val, version := message.version + 1 }
  Db.conversationMessage.save rt updated
  let id ← newUuid rt
  Db.messageRevision.add rt
    { id := id
      messageId := message.id
      revisionNumber := updated.version
      originalContent := message.content
      revisedContent := updated.content
      reason := "transcript_correction"
      createdBy := accountId }
  let _ ← AuditService.append rt context "conversation.transcript_corrected" "success" none
    (some message.id)
    [("version", .int updated.version), ("new_answer_requested", .bool request.requestNewAnswer)]
  pure updated

/-- The outbox event of a corrected message for which a new answer is requested. -/
def requestAnswer (request : TranscriptCorrection) (message : ConversationMessage) :
    Work ConversationMessage :=
  if request.requestNewAnswer then do
    publish rt message.conversationId "conversation.corrected_turn_reprocess_requested"
      (.obj [("message_id", .str (rt.strUuid message.id))]) message.sequence
    pure message
  else pure message

def correctTranscript (accountId messageId : Uuid) (request : TranscriptCorrection)
    (context : AuditContext) : Work ConversationMessage := do
  let message ← lockUserMessage accountId messageId
  Tx.raiseIf (message.version ≠ request.expectedMessageVersion)
    (.domain (.conflict "Replika byla mezitím změněna."))
  let updated ← recordCorrection rt accountId message request context
  requestAnswer rt request updated

/-- What `end` writes for an active conversation. -/
def close (row : Conversation) (reason : String) (context : AuditContext) : Work Conversation := do
  let endedAt ← utcNow rt
  let lastActivityAt ← utcNow rt
  let updated := { row with
    state := if reason = "user_ended" then .completed else .interrupted
    endReason := some reason, endedAt := some endedAt, lastActivityAt := lastActivityAt
    version := row.version + 1 }
  Db.conversation.save rt updated
  publish rt row.id "conversation.closed"
    (.obj [("conversation_id", .str (rt.strUuid row.id))]) (updated.messageCount + 1)
  let _ ← AuditService.append rt context "conversation.ended" "success" none (some row.id)
    [("reason", .str reason), ("state", .str updated.state.text)]
  pure updated

/-- `end`. -/
def finish (accountId conversationId : Uuid) (reason : String) (context : AuditContext) :
    Work Conversation := do
  let row ← HistoryService.lockConversation accountId conversationId
  if row.state = .active then close rt row reason context else pure row

end ConversationService

end KajovoDagmar
