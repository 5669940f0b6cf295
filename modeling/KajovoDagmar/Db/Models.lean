import KajovoDagmar.Library.Table
import KajovoDagmar.Types

/-! # The database rows

The tables that the services below work on, with the columns that they read or write.  A
database is one value; every table keeps its primary key by construction.  The remaining
unique constraints are checked by the insertion of each table. -/

namespace KajovoDagmar

structure Conversation where
  id : Uuid
  accountId : Uuid
  state : ConversationState := .active
  inputMode : InputMode := .voice
  language : String := "cs"
  title : Option String := none
  titleSource : TextSource := .automatic
  summary : Option String := none
  summarySource : TextSource := .automatic
  startedAt : DateTime
  endedAt : Option DateTime := none
  lastActivityAt : DateTime
  endReason : Option String := none
  continuationOfId : Option Uuid := none
  deletedAt : Option DateTime := none
  purgeAfter : Option DateTime := none
  messageCount : ℕ := 0
  contextSummary : Option String := none
  version : ℤ := 1
deriving DecidableEq

structure ConversationMessage where
  id : Uuid
  conversationId : Uuid
  sequence : ℕ
  role : MessageRole
  content : String
  inputMode : InputMode
  status : String := "final"
  idempotencyKey : String
  requestHash : Option String := none
  responseRunId : Option Uuid := none
  interrupted : Bool := false
  finalizedAt : Option DateTime := none
  version : ℤ := 1
deriving DecidableEq

structure OrchestrationRun where
  id : Uuid
  accountId : Uuid
  conversationId : Uuid
  sourceMessageId : Uuid
  responseMessageId : Option Uuid := none
  state : RunState := .running
  intent : Option String := none
  orchestrationVersion : String
  promptVersion : String
  providerId : Option Uuid := none
  modelId : Option Uuid := none
  contextManifest : Json := .obj []
  decision : Option Json := none
  attemptCount : ℕ := 0
  completedAt : Option DateTime := none
  cancelledAt : Option DateTime := none
  usage : Json := .obj []
  errorCode : Option String := none
  version : ℤ := 1

structure OrchestrationAttempt where
  id : Uuid
  runId : Uuid
  attemptNumber : ℕ
  providerId : Uuid
  modelId : Uuid
  state : String := "running"
  providerResponseId : Option String := none
  completedAt : Option DateTime := none
  latencyMs : Option ℤ := none
  usage : Json := .obj []
  errorCode : Option String := none

structure ToolAction where
  id : Uuid
  runId : Uuid
  name : String
  arguments : Json
  argumentsHash : String
  sideEffect : String
  confirmationRequired : Bool
  state : ActionState
  preview : Json := .obj []
  expectedTargetVersion : Option ℤ := none
  expiresAt : Option DateTime := none
  idempotencyKey : String
  confirmedAt : Option DateTime := none
  completedAt : Option DateTime := none
  result : Option Json := none
  errorCode : Option String := none
  createdAt : DateTime
  version : ℤ := 1

structure MessageRevision where
  id : Uuid
  messageId : Uuid
  revisionNumber : ℤ
  originalContent : String
  revisedContent : String
  reason : String
  createdBy : Uuid
deriving DecidableEq

structure ConversationLink where
  id : Uuid
  sourceId : Uuid
  targetId : Uuid
  relation : String
deriving DecidableEq

structure ConversationSummary where
  id : Uuid
  conversationId : Uuid
  revisionNumber : ℤ
  title : String
  summary : String
  source : TextSource
deriving DecidableEq

structure MemoryItem where
  id : Uuid
  accountId : Uuid
  content : String
  category : MemoryCategory
  state : MemoryState := .pending
  originType : OriginType
  eventAt : Option DateTime := none
  validFrom : Option DateTime := none
  validUntil : Option DateTime := none
  originalExpression : Option String := none
  keywords : List String := []
  mergedIntoId : Option Uuid := none
  deletedAt : Option DateTime := none
  purgeAfter : Option DateTime := none
  confirmedAt : Option DateTime := none
  updatedAt : DateTime
  createdAt : DateTime := updatedAt
  version : ℤ := 1
deriving DecidableEq

structure MemoryVersion where
  id : Uuid
  memoryId : Uuid
  versionNumber : ℤ
  content : String
  category : MemoryCategory
  state : MemoryState
  changeKind : String
  changedBy : Uuid
  snapshot : Json

structure MemorySource where
  id : Uuid
  memoryId : Uuid
  sourceType : String
  conversationId : Option Uuid := none
  messageId : Option Uuid := none
  sourceExcerpt : Option String := none
deriving DecidableEq

structure SearchDocument where
  id : Uuid
  ownerType : String
  ownerId : Uuid
  accountId : Uuid
  searchableText : String
  language : String := "czech"
  sourceVersion : ℤ
  stale : Bool := false
  version : ℤ := 1
deriving DecidableEq

structure SearchEmbedding where
  id : Uuid
  documentId : Uuid
  modelId : String
  dimensions : ℕ
  embeddingText : String
  sourceHash : String
  vectorData : String
  version : ℤ := 1
deriving DecidableEq

structure OutboxEvent where
  id : Uuid
  aggregateType : String
  aggregateId : Uuid
  eventType : String
  payload : Json
  sequence : ℤ
  createdAt : DateTime
  publishedAt : Option DateTime := none
  attempts : ℕ := 0
  lastErrorCode : Option String := none

structure BackgroundJob where
  id : Uuid
  kind : String
  state : String := "queued"
  payload : Json
  priority : ℤ := 100
  availableAt : DateTime
  lockedAt : Option DateTime := none
  lockedBy : Option String := none
  attempts : ℕ := 0
  maxAttempts : ℕ := 5
  lastErrorCode : Option String := none
  completedAt : Option DateTime := none
  correlationId : Option String := none

structure ApplicationSetting where
  id : Uuid
  area : String
  key : String
  value : Json
  effectBoundary : String := "immediate"
  changedBy : Option Uuid := none
  version : ℤ := 1

structure ApplicationSettingRevision where
  id : Uuid
  settingId : Uuid
  revisionNumber : ℤ
  value : Json
  effectBoundary : String
  changedBy : Option Uuid := none
  changeKind : String

structure ModelCatalogEntry where
  id : Uuid
  providerId : Uuid
  externalId : String
  displayName : String
  role : String
  capabilities : Json := .obj []
  available : Bool := true
  lastSeenAt : DateTime

structure ProviderConfiguration where
  id : Uuid
  providerType : String
  displayName : String
  baseUrl : String
  enabled : Bool := false
  verificationState : String := "not_verified"
  verifiedAt : Option DateTime := none
  catalogRefreshedAt : Option DateTime := none
  catalogState : String := "not_loaded"
  capabilities : Json := .obj []
  secretId : Option Uuid := none
  version : ℤ := 1

structure EncryptedSecret where
  id : Uuid
  purpose : String
  ciphertext : String
  keyVersion : ℤ
  maskedHint : String
  revokedAt : Option DateTime := none

structure AuditEvent where
  id : ℕ
  occurredAt : DateTime
  actorType : String
  actorId : Option Uuid
  sessionId : Option Uuid
  eventType : String
  targetType : Option String
  targetId : Option Uuid
  result : String
  networkContext : Option String
  correlationId : Option String
  details : Json
  previousHash : Option String
  eventHash : String

structure BackupRecord where
  id : Uuid
  backupType : String
  state : String
  startedAt : DateTime
  completedAt : Option DateTime := none
  backupLabel : Option String := none
  manifestDigest : Option String := none
  verifiedAt : Option DateTime := none
  restoreTestedAt : Option DateTime := none
  sizeBytes : Option ℤ := none
  errorCode : Option String := none
  version : ℤ := 1

structure ExportRecord where
  id : Uuid
  accountId : Uuid
  kind : String
  state : String
  format : String
  scope : Json
  filePath : Option String := none
  fileDigest : Option String := none
  expiresAt : Option DateTime := none
  completedAt : Option DateTime := none
  version : ℤ := 1

/-- The columns of `administrator_account` that the services below read. -/
structure AccountRow where
  id : Uuid
  username : String

structure VoiceServiceApiKey where
  id : Uuid
  keyPrefix : String
  secretDigest : String
  scope : String := "voice.realtime.test"
  lastUsedAt : Option DateTime := none
  revokedAt : Option DateTime := none
  revokeReason : Option String := none

structure ServiceAccessNotice where
  id : Uuid
  accountId : Uuid
  apiKeyId : Option Uuid
  occurredAt : DateTime
  result : String
  endpoint : String
  networkContext : Option String
  correlationId : Option String

/-- The database. -/
structure Db where
  conversations : Table Conversation.id := .empty
  conversationMessages : Table ConversationMessage.id := .empty
  orchestrationRuns : Table OrchestrationRun.id := .empty
  orchestrationAttempts : Table OrchestrationAttempt.id := .empty
  toolActions : Table ToolAction.id := .empty
  messageRevisions : Table MessageRevision.id := .empty
  conversationLinks : Table ConversationLink.id := .empty
  conversationSummaries : Table ConversationSummary.id := .empty
  memoryItems : Table MemoryItem.id := .empty
  memoryVersions : Table MemoryVersion.id := .empty
  memorySources : Table MemorySource.id := .empty
  searchDocuments : Table SearchDocument.id := .empty
  searchEmbeddings : Table SearchEmbedding.id := .empty
  outboxEvents : Table OutboxEvent.id := .empty
  backgroundJobs : Table BackgroundJob.id := .empty
  applicationSettings : Table ApplicationSetting.id := .empty
  modelCatalogEntries : Table ModelCatalogEntry.id := .empty
  providerConfigurations : Table ProviderConfiguration.id := .empty
  auditEvents : Table AuditEvent.id := .empty
  backupRecords : Table BackupRecord.id := .empty
  exportRecords : Table ExportRecord.id := .empty
  applicationSettingRevisions : Table ApplicationSettingRevision.id := .empty
  encryptedSecrets : Table EncryptedSecret.id := .empty
  administratorAccounts : Table AccountRow.id := .empty
  voiceServiceApiKeys : Table VoiceServiceApiKey.id := .empty
  serviceAccessNotices : Table ServiceAccessNotice.id := .empty

/-- A row of any table, as it is handed to the database. -/
inductive Row where
  | conversation (r : Conversation)
  | conversationMessage (r : ConversationMessage)
  | orchestrationRun (r : OrchestrationRun)
  | orchestrationAttempt (r : OrchestrationAttempt)
  | toolAction (r : ToolAction)
  | messageRevision (r : MessageRevision)
  | conversationLink (r : ConversationLink)
  | conversationSummary (r : ConversationSummary)
  | memoryItem (r : MemoryItem)
  | memoryVersion (r : MemoryVersion)
  | memorySource (r : MemorySource)
  | searchDocument (r : SearchDocument)
  | searchEmbedding (r : SearchEmbedding)
  | outboxEvent (r : OutboxEvent)
  | backgroundJob (r : BackgroundJob)
  | auditEvent (r : AuditEvent)
  | backupRecord (r : BackupRecord)
  | exportRecord (r : ExportRecord)
  | applicationSetting (r : ApplicationSetting)
  | applicationSettingRevision (r : ApplicationSettingRevision)
  | modelCatalogEntry (r : ModelCatalogEntry)
  | providerConfiguration (r : ProviderConfiguration)
  | encryptedSecret (r : EncryptedSecret)
  | voiceServiceApiKey (r : VoiceServiceApiKey)
  | serviceAccessNotice (r : ServiceAccessNotice)

end KajovoDagmar
