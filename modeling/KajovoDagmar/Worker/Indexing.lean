import KajovoDagmar.Library.PythonText
import KajovoDagmar.Providers.Service
import KajovoDagmar.Settings.Service
import KajovoDagmar.Worker

/-! # The search index

The handlers of the jobs `memory_index`, `conversation_index` and `search_reindex_all`: a document for the
text of an item or a conversation, and its vector under the selected embedding model.

What is assigned to a document before an exception is rolled back with the savepoint of the job. -/

namespace KajovoDagmar

/-- The components of a vector, as `format(float(value), ".9g")` prints them. -/
abbrev SearchVector := List String

/-- What the indexing depends on: the providers and the vectors that a provider returns for texts. -/
structure IndexDeps where
  providers : ProviderDeps
  embed : AIProvider → (texts : List String) → (model : String) → Except Exc (List SearchVector)

namespace Worker

open SettingsService (modelValue)

section indexing

variable (rt : Runtime) (deps : IndexDeps)

def searchVectorDimensions : ℕ := 1536

/-- The model that the setting names, and its provider. -/
def resolveModel (modelId : Uuid) : Work (ModelCatalogEntry × ProviderConfiguration) := do
  let found ← Db.modelCatalogEntry.find modelId
  let model ← Tx.orRaise (found.filter fun m => m.available)
    (.domain (.capabilityUnavailable "model" "Vybraný model není dostupný."))
  let provider ← Db.providerConfiguration.find model.providerId
  let provider ← Tx.orRaise (provider.filter fun p => p.enabled ∧ p.verificationState = "verified")
    (.domain (.capabilityUnavailable "provider" "Poskytovatel vybraného modelu není ověřený a aktivní."))
  pure (model, provider)

/-- `"[" + ",".join(…) + "]"`. -/
def serialized (vector : SearchVector) : String := "[" ++ ",".intercalate vector ++ "]"

/-- The stored vector of a document under a model. -/
def embedding? (db : Db) (documentId : Uuid) (modelId : String) : Option SearchEmbedding :=
  (db.searchEmbeddings.select fun x => x.documentId = documentId ∧ x.modelId = modelId).head?

def newEmbedding (id documentId : Uuid) (modelId text : String) (vector : SearchVector) : SearchEmbedding :=
  { id := id, documentId := documentId, modelId := modelId, dimensions := vector.length, embeddingText := text
    sourceHash := rt.sha256 text, vectorData := serialized vector }

def reembedded (x : SearchEmbedding) (text : String) (vector : SearchVector) : SearchEmbedding :=
  { x with
    embeddingText := text
    sourceHash := rt.sha256 text
    vectorData := serialized vector
    dimensions := vector.length
    version := x.version + 1 }

def putEmbedding (documentId : Uuid) (modelId text : String) (vector : SearchVector)
    (existing : Option SearchEmbedding) : Work PUnit :=
  match existing with
  | none => do
    let id ← newUuid rt
    Db.searchEmbedding.add rt (newEmbedding rt id documentId modelId text vector)
  | some x => Db.searchEmbedding.save rt (reembedded rt x text vector)

def storeEmbedding (documentId : Uuid) (modelId text : String) (vector : SearchVector) : Work PUnit := do
  let existing ← Tx.gets fun s => embedding? s.db documentId modelId
  putEmbedding rt documentId modelId text vector existing

/-- The one vector of a text. -/
def vectorOf (vectors : List SearchVector) : Except Exc SearchVector :=
  match vectors with
  | [vector] =>
    if vector.length = searchVectorDimensions then .ok vector
    else .error (.domain (.capabilityUnavailable "embeddings"
      ("Search vector must have " ++ toString searchVectorDimensions ++ " dimensions, got " ++
        toString vector.length ++ ".")))
  | _ => .error (.other "RuntimeError")

/-- The value of the setting, if it is not empty. -/
def selectedEmbedding (db : Db) : Option Json :=
  ((db.setting? "models" "embedding_model").map fun row => row.value.getD "value" .null).filter Json.truthy

/-- The vector of a document under the model that is selected. -/
def embedDocument (documentId : Uuid) (text : String) (value : Json) : Work PUnit := do
  let modelId ← Tx.orRaise (rt.parseUuid (modelValue rt value)) (.other "ValueError")
  let (model, provider) ← resolveModel modelId
  let runtime ← ProviderService.runtime deps.providers provider
  let vectors ← Tx.ofExcept (deps.embed runtime [text] model.externalId)
  let vector ← Tx.ofExcept (vectorOf vectors)
  storeEmbedding rt documentId model.externalId text vector

/-- A document without a selected model, or without a text of a conversation, has no vector. -/
def embedIfSelected (documentId : Uuid) (text : String) (empty : Bool) : Work PUnit := do
  let selected ← Tx.gets fun s => selectedEmbedding s.db
  match selected with
  | none => pure ⟨⟩
  | some value => if empty then pure ⟨⟩ else embedDocument rt deps documentId text value

/-! ### Documents -/

def document? (db : Db) (ownerType : String) (ownerId : Uuid) : Option SearchDocument :=
  (db.searchDocuments.select fun d => d.ownerType = ownerType ∧ d.ownerId = ownerId).head?

/-- `session.delete(document)`, with the vectors that the database deletes with it. -/
def deleteDocument (document : SearchDocument) : Work PUnit :=
  Tx.modify fun s => { s with db := { s.db with
    searchDocuments := s.db.searchDocuments.filter fun d => d.id ≠ document.id
    searchEmbeddings := s.db.searchEmbeddings.filter fun x => x.documentId ≠ document.id } }

def redocumented (document : SearchDocument) (text : String) (sourceVersion : ℤ) : SearchDocument :=
  { document with
    searchableText := text, sourceVersion := sourceVersion, stale := false, version := document.version + 1 }

/-- The document of a text, new or written again. -/
def storeDocument (ownerType : String) (ownerId accountId : Uuid) (text : String) (sourceVersion : ℤ)
    (found : Option SearchDocument) : Work Uuid :=
  match found with
  | none => do
    let id ← newUuid rt
    Db.searchDocument.add rt
      { id := id, ownerType := ownerType, ownerId := ownerId, accountId := accountId, searchableText := text
        sourceVersion := sourceVersion }
    pure id
  | some document => do
    Db.searchDocument.save rt (redocumented document text sourceVersion)
    pure document.id

/-- The document of an item that is deleted or merged is removed, if there is one. -/
def indexMemoryFound (memory : MemoryItem) (found : Option SearchDocument) : Work PUnit :=
  match found.filter fun _ => memory.state = .deleted ∨ memory.state = .merged with
  | some document => deleteDocument document
  | none => do
    let documentId ← storeDocument rt "memory" memory.id memory.accountId memory.content memory.version found
    embedIfSelected rt deps documentId memory.content false

def indexMemory (memory : MemoryItem) : Work PUnit := do
  let found ← Tx.gets fun s => document? s.db "memory" memory.id
  indexMemoryFound rt deps memory found

def memoryIndex (payload : Json) : Work PUnit := do
  let memoryId ← Tx.ofExcept (JobService.payloadUuid rt "memory_id" payload)
  let memory ← Db.memoryItem.find memoryId
  match memory with
  | none => pure ⟨⟩
  | some memory => indexMemory rt deps memory

/-- The text of a conversation: title, summary and messages. -/
def searchableText (conversation : Conversation) (messages : List ConversationMessage) : String :=
  let transcript := "\n".intercalate (messages.map fun m => m.role.text ++ ": " ++ m.content)
  let parts := [conversation.title.getD "", conversation.summary.getD "", transcript].filter (· ≠ "")
  PythonText.strip ("\n".intercalate parts)

/-- `searchable[:120000]`. -/
def embeddedText (text : String) : String := String.ofList (text.toList.take 120000)

/-- The document of a conversation that is deleted is removed, if there is one. -/
def indexConversationFound (conversation : Conversation) (searchable : String)
    (found : Option SearchDocument) : Work PUnit :=
  if conversation.state = .deleted then
    match found with
    | none => pure ⟨⟩
    | some document => deleteDocument document
  else do
    let documentId ← storeDocument rt "conversation" conversation.id conversation.accountId searchable
      conversation.version found
    embedIfSelected rt deps documentId (embeddedText searchable) (searchable = "")

def indexConversation (conversation : Conversation) : Work PUnit := do
  let messages ← Db.conversationMessage.select fun m => m.conversationId = conversation.id
  let searchable := searchableText conversation (messages.insertionSort fun a b => a.sequence ≤ b.sequence)
  let found ← Tx.gets fun s => document? s.db "conversation" conversation.id
  indexConversationFound rt deps conversation searchable found

def conversationIndex (payload : Json) : Work PUnit := do
  let conversationId ← Tx.ofExcept (JobService.payloadUuid rt "conversation_id" payload)
  let conversation ← Db.conversation.find conversationId
  match conversation with
  | none => pure ⟨⟩
  | some conversation => indexConversation rt deps conversation

/-- One stale document of `search_reindex_all`. -/
def reindexDocument (document : SearchDocument) : Work PUnit :=
  if document.ownerType = "memory" then
    memoryIndex rt deps (.obj [("memory_id", .str (rt.strUuid document.ownerId))])
  else if document.ownerType = "conversation" then
    conversationIndex rt deps (.obj [("conversation_id", .str (rt.strUuid document.ownerId))])
  else Db.searchDocument.save rt { document with stale := false }

/-- `order_by(id)` over the stale documents; `locked` are the rows that other transactions have locked. -/
def staleRows (locked : SearchDocument → Bool) (db : Db) : List SearchDocument :=
  (db.searchDocuments.select fun d => d.stale ∧ locked d = false).insertionSort fun a b => a.id ≤ b.id

def searchReindexAll (locked : SearchDocument → Bool) : Work PUnit := do
  let documents ← Tx.gets fun s => staleRows locked s.db
  let _ ← Tx.forEach (reindexDocument rt deps) documents
  pure ⟨⟩

end indexing

end Worker

end KajovoDagmar
