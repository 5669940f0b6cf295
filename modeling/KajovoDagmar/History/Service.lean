import KajovoDagmar.Audit.Service

/-! # The history of conversations

`HistoryService`: reading a conversation, continuing it in a new one, deleting it for a
retention period and restoring it. -/

namespace KajovoDagmar

/-- The messages of a conversation, `order_by(sequence)`. -/
def Db.messagesOf (db : Db) (conversationId : Uuid) : List ConversationMessage :=
  (db.conversationMessages.select fun m => m.conversationId = conversationId).insertionSort
    fun a b => a.sequence ≤ b.sequence

@[simp] theorem Db.mem_messagesOf {db : Db} {conversationId : Uuid} {m : ConversationMessage} :
    m ∈ db.messagesOf conversationId ↔
      m ∈ db.conversationMessages ∧ m.conversationId = conversationId := by
  unfold Db.messagesOf Table.select
  rw [List.mem_insertionSort, List.mem_filter, decide_eq_true_iff, Table.mem_def]

/-- `MetadataUpdate`, with the bounds that its validation establishes. -/
structure MetadataUpdate where
  expectedVersion : { n : ℤ // 1 ≤ n }
  title : Option { t : String // 1 ≤ t.length ∧ t.length ≤ 240 } := none
  summary : Option { t : String // 1 ≤ t.length ∧ t.length ≤ 10000 } := none

namespace HistoryService

variable (rt : Runtime)

def notFound : Exc := .domain (.notFound "Konverzace nebyla nalezena.")

def changed : Exc := .domain (.conflict "Konverzace byla mezitím změněna.")

/-- The conversation of an account. -/
def conversation? (db : Db) (accountId conversationId : Uuid) : Option Conversation :=
  (db.conversations.find? conversationId).filter fun c => c.accountId = accountId

def detail (accountId conversationId : Uuid) (includeDeleted : Bool) :
    Work (Conversation × List ConversationMessage) := do
  let row ← Tx.gets fun s => conversation? s.db accountId conversationId
  let conversation ← Tx.orRaise (row.filter fun c => includeDeleted = true ∨ c.deletedAt = none) notFound
  let messages ← Tx.gets fun s => s.db.messagesOf conversation.id
  pure (conversation, messages)

/-- `select(Conversation).where(id, account_id).with_for_update()`. -/
def lockConversation (accountId conversationId : Uuid) : Work Conversation := do
  let row ← Tx.gets fun s => conversation? s.db accountId conversationId
  Tx.orRaise row notFound

/-- The row after an update of its metadata. -/
def retitle (row : Conversation) (request : MetadataUpdate) : Conversation :=
  { row with
    title := request.title.elim row.title fun t => some (PythonText.strip t.val)
    titleSource := request.title.elim row.titleSource fun _ => .manual
    summary := request.summary.elim row.summary fun t => some (PythonText.strip t.val)
    summarySource := request.summary.elim row.summarySource fun _ => .manual
    version := row.version + 1 }

@[simp] theorem id_retitle (row : Conversation) (request : MetadataUpdate) :
    (retitle row request).id = row.id := rfl

/-- `text or default`. -/
def orDefault (text : Option String) (default : String) : String :=
  (text.filter fun t => t ≠ "").getD default

/-- `update_metadata` on the locked row, from the check of its version on. -/
def updateMetadataRow (row : Conversation) (request : MetadataUpdate) (context : AuditContext) :
    Work Conversation := do
  let updated := retitle row request
  Db.conversation.save rt updated
  let id ← newUuid rt
  Db.conversationSummary.add rt
    { id := id
      conversationId := row.id
      revisionNumber := updated.version
      title := orDefault updated.title "Rozhovor"
      summary := orDefault updated.summary "Bez shrnutí"
      source := .manual }
  let _ ← AuditService.append rt context "history.metadata_changed" "success" none (some row.id)
    [("version", .int updated.version)]
  pure updated

def updateMetadata (accountId conversationId : Uuid) (request : MetadataUpdate)
    (context : AuditContext) : Work Conversation := do
  let row ← lockConversation accountId conversationId
  Tx.raiseIf (row.version ≠ request.expectedVersion.val)
    (.domain (.conflict "Konverzace byla mezitím změněna." (some (.obj
      [("expected_version", .int request.expectedVersion.val), ("actual_version", .int row.version)]))))
  updateMetadataRow rt row request context

/-- What `continue_from` writes. -/
def insertContinuation (accountId : Uuid) (original : Conversation) (context : AuditContext) :
    Work Conversation := do
  let id ← newUuid rt
  let began ← Tx.gets Session.began
  let new : Conversation :=
    { id := id
      accountId := accountId
      state := .active
      inputMode := .voice
      language := original.language
      startedAt := began
      lastActivityAt := began
      continuationOfId := some original.id }
  Db.conversation.add rt new
  let linkId ← newUuid rt
  Db.conversationLink.add rt
    { id := linkId, sourceId := original.id, targetId := new.id, relation := "continued_by" }
  let _ ← AuditService.append rt context "history.continued" "success" none (some new.id)
    [("source_id", .str (rt.strUuid original.id))]
  pure new

def continueFrom (accountId conversationId : Uuid) (context : AuditContext) :
    Work Conversation := do
  let (original, _) ← detail accountId conversationId false
  insertContinuation rt accountId original context

def softDelete (accountId conversationId : Uuid) (expectedVersion retentionDays : ℤ)
    (context : AuditContext) : Work Conversation := do
  let row ← lockConversation accountId conversationId
  Tx.raiseIf (row.version ≠ expectedVersion) changed
  let deletedAt ← utcNow rt
  let now ← utcNow rt
  let purgeAfter := now.addMicros (DateTime.days retentionDays)
  let updated := { row with
    deletedAt := some deletedAt, purgeAfter := some purgeAfter, state := .deleted
    version := row.version + 1 }
  Db.conversation.save rt updated
  let _ ← AuditService.append rt context "history.deleted" "success" none (some row.id)
    [("recoverable_until", .str (rt.isoformat purgeAfter))]
  pure updated

/-- `not deleted_at or not purge_after or purge_after <= now`. -/
def unrestorable (row : Conversation) (now : DateTime) : Bool :=
  row.deletedAt = none ∨ row.purgeAfter.elim true (·.le now)

def restore (accountId conversationId : Uuid) (expectedVersion : ℤ) (context : AuditContext) :
    Work Conversation := do
  let row ← lockConversation accountId conversationId
  Tx.raiseIf (row.version ≠ expectedVersion) changed
  let now ← utcNow rt
  Tx.raiseIf (unrestorable row now = true)
    (.domain (.conflict "Konverzaci již nelze běžným způsobem obnovit."))
  let updated := { row with
    deletedAt := none, purgeAfter := none
    state := if row.endedAt = none then .interrupted else .completed
    version := row.version + 1 }
  Db.conversation.save rt updated
  let _ ← AuditService.append rt context "history.restored" "success" none (some row.id)
  pure updated

/-! ### Search -/

/-- The order of a search: the ranked conversations in their order, the rest after them; then
the latest activity first; then the identifier. -/
def searchOrder (ranked : List Uuid) (a b : Conversation) : Bool :=
  let rank (c : Conversation) : ℕ := if c.id ∈ ranked then ranked.idxOf c.id else ranked.length + 1
  rank a < rank b ∨ (rank a = rank b ∧ (b.lastActivityAt.before a.lastActivityAt ∨
    (¬a.lastActivityAt.before b.lastActivityAt ∧ a.id ≤ b.id)))

/-- `search` from the first row and without a filter of times. -/
def search (accountId : Uuid) (query : String) (states : List ConversationState) (limit : ℕ)
    (ranked : List Uuid) : Work (List Conversation) := do
  let term := "%" ++ PythonText.strip query ++ "%"
  let messages ← Db.conversationMessage.select fun m => rt.ilike m.content term
  let matching (c : Conversation) : Bool :=
    PythonText.strip query = "" ∨ c.title.any (rt.ilike · term) ∨ c.summary.any (rt.ilike · term) ∨
      messages.any (fun m => m.conversationId = c.id) ∨ c.id ∈ ranked
  let rows ← Db.conversation.select fun c =>
    c.accountId = accountId ∧ c.state ∈ states ∧ c.deletedAt = none ∧ matching c
  pure ((rows.insertionSort fun a b =>
    searchOrder (if PythonText.strip query = "" then [] else ranked) a b = true).take limit)

end HistoryService

end KajovoDagmar
