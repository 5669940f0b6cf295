import KajovoDagmar.Audit.Service
import KajovoDagmar.Memory.Schemas

/-! # The long-term memory

`MemoryService`: creating, changing, deleting, restoring and merging memory items.  A loaded
item is a Python object; `store` writes the columns that were assigned to it back to its row,
where the driver turns its datetimes into instants in UTC and `updated_at` becomes the time of
the transaction.  Queries without an order give the rows in the order of insertion. -/

namespace KajovoDagmar

/-! ### Loaded items and their rows -/

namespace MemoryItem

variable (rt : Runtime)

/-- The instant that the driver stores for a datetime. -/
def bindDatetime (d : DateTime) : DateTime :=
  DateTime.utc (d.wall - d.utcoffset.getD (rt.localOffset d.wall))

/-- The row that the driver stores for an item. -/
def bind (item : MemoryItem) : MemoryItem :=
  { item with
    eventAt := item.eventAt.map (bindDatetime rt)
    validFrom := item.validFrom.map (bindDatetime rt)
    validUntil := item.validUntil.map (bindDatetime rt) }

def eqDatetime : Option DateTime → Option DateTime → Bool
  | some a, some b => a.eqPy b
  | none, none => true
  | _, _ => false

/-- No column of `new` differs from `old` for the unit of work. -/
def unchanged (old new : MemoryItem) : Bool :=
  decide ({ new with eventAt := old.eventAt, validFrom := old.validFrom, validUntil := old.validUntil } = old) &&
    eqDatetime new.eventAt old.eventAt && eqDatetime new.validFrom old.validFrom &&
    eqDatetime new.validUntil old.validUntil

/-- The row of an item that was loaded as `old` and now has the columns of `new`, in a
transaction that began at `began`. -/
def flush (began : DateTime) (old new : MemoryItem) : MemoryItem :=
  if unchanged old new then old else { new.bind rt with updatedAt := began }

end MemoryItem

def secretTerms : List String :=
  ["api key", "api klíč", "password", "heslo", "token", "obnovovací kód", "secret"]

section text

variable (rt : Runtime)

def canonicalContent (value : String) : String :=
  PythonText.unwords (PythonText.split (rt.casefold (rt.nfc value)))

def containsSecretInstruction (content : String) : Bool :=
  secretTerms.any (PythonText.contains (rt.casefold content))

end text

namespace MemoryService

variable (rt : Runtime)

/-! ### Checks -/

def notFound : Exc := .domain (.notFound "Paměťová položka nebyla nalezena.")

def invalidValidity : Exc :=
  .domain ⟨"invalid_validity", "Konec platnosti nesmí předcházet začátku.", 422, none, false⟩

def duplicateOf (item : MemoryItem) : Exc :=
  .domain (.conflict "Významově totožná položka již existuje."
    (some (.obj [("memory_id", .str (rt.strUuid item.id))])))

/-- `_version_guard`. -/
def versionGuard (item : MemoryItem) (expected : ℤ) : Work PUnit :=
  Tx.raiseIf (item.version ≠ expected) (.domain (.conflict "Paměťová položka byla mezitím změněna."
    (some (.obj [("expected_version", .int expected), ("actual_version", .int item.version)]))))

/-- `valid_from and valid_until and valid_until < valid_from`. -/
def inverted : Option DateTime → Option DateTime → Except Exc Bool
  | some validFrom, some validUntil =>
    match validUntil.lt? validFrom with
    | some b => .ok b
    | none => .error (.other "TypeError")
  | _, _ => .ok false

def checkValidity (validFrom validUntil : Option DateTime) : Work PUnit := do
  let bad ← Tx.ofExcept (inverted validFrom validUntil)
  Tx.raiseIf (bad = true) invalidValidity

/-- The items that a new content must not repeat. -/
def standing (accountId : Uuid) (item : MemoryItem) : Bool :=
  item.accountId = accountId ∧ (item.state = .active ∨ item.state = .pending)

/-! ### Writing items -/

/-- The assigned columns of a loaded item, flushed. -/
def store (old new : MemoryItem) : Work PUnit := fun s =>
  if MemoryItem.unchanged old new then (.ok ⟨⟩, s)
  else Db.memoryItem.save rt (MemoryItem.flush rt s.began old new) s

/-- `session.refresh(item)`. -/
def refresh (id : Uuid) : Work MemoryItem := do
  let row ← Db.memoryItem.find id
  Tx.orRaise row (.other "InvalidRequestError")

/-- `_snapshot`. -/
def snapshot (item : MemoryItem) : Json := .obj
  [("content", .str item.content),
   ("category", .str item.category.text),
   ("state", .str item.state.text),
   ("event_at", .ofStr? (item.eventAt.map rt.isoformat)),
   ("valid_from", .ofStr? (item.validFrom.map rt.isoformat)),
   ("valid_until", .ofStr? (item.validUntil.map rt.isoformat)),
   ("keywords", .arr (item.keywords.map .str))]

/-- `_record_version`. -/
def recordVersion (item : MemoryItem) (accountId : Uuid) (changeKind : String) : Work PUnit := do
  let id ← newUuid rt
  Db.memoryVersion.add rt
    { id := id
      memoryId := item.id
      versionNumber := item.version
      content := item.content
      category := item.category
      state := item.state
      changeKind := changeKind
      changedBy := accountId
      snapshot := snapshot rt item }

/-- The outbox event that asks for the item to be indexed. -/
def requestIndex (item : MemoryItem) : Work PUnit := do
  let id ← newUuid rt
  let began ← Tx.gets Session.began
  Db.outboxEvent.add rt
    { id := id
      aggregateType := "memory"
      aggregateId := item.id
      eventType := "memory.index_requested"
      payload := .obj [("memory_id", .str (rt.strUuid item.id))]
      sequence := item.version
      createdAt := began }

/-! ### Operations -/

/-- The item that a creation request describes. -/
def newItem (id accountId : Uuid) (request : MemoryCreate) (state : MemoryState)
    (confirmedAt : Option DateTime) (began : DateTime) : MemoryItem :=
  { id := id
    accountId := accountId
    content := PythonText.strip request.content.val
    category := request.category
    state := state
    originType := request.originType
    eventAt := request.eventAt
    validFrom := request.validFrom
    validUntil := request.validUntil
    originalExpression := request.originalExpression
    keywords := PythonText.sortedSet
      ((request.keywords.val.filter fun k => PythonText.strip k ≠ "").map PythonText.strip)
    confirmedAt := confirmedAt
    updatedAt := began
    version := 1 }

def initialState (request : MemoryCreate) : MemoryState :=
  if request.confirmed ∨ request.originType = .explicitCommand ∨ request.originType = .manual then
    .active
  else .pending

/-- The checks of `create`, made before anything is written. -/
def checkCreate (accountId : Uuid) (request : MemoryCreate) : Work PUnit := do
  Tx.raiseIf (containsSecretInstruction rt request.content.val = true)
    (.domain ⟨"secret_memory_forbidden",
      "Tajné hodnoty se neukládají do dlouhodobé paměti. Použijte zabezpečenou správu poskytovatelů.",
      422, none, false⟩)
  checkValidity request.validFrom request.validUntil
  let candidates ← Db.memoryItem.select (standing accountId)
  let legacy ← Db.memoryItem.select (standing accountId)
  let candidates := if candidates.isEmpty then legacy.take 1 else candidates
  Tx.raiseSome ((candidates.find? fun item =>
    canonicalContent rt item.content = canonicalContent rt request.content.val).map (duplicateOf rt))

/-- What `create` writes once its checks have passed. -/
def insert (accountId : Uuid) (request : MemoryCreate) (context : AuditContext) :
    Work MemoryItem := do
  let now ← utcNow rt
  let id ← newUuid rt
  let began ← Tx.gets Session.began
  let state := initialState request
  let item := newItem id accountId request state (if state = .active then some now else none) began
  Db.memoryItem.add rt (item.bind rt)
  recordVersion rt item accountId "created"
  let sourceId ← newUuid rt
  Db.memorySource.add rt
    { id := sourceId
      memoryId := item.id
      sourceType := request.originType.text
      conversationId := request.sourceConversationId
      messageId := request.sourceMessageId
      sourceExcerpt := request.originalExpression }
  requestIndex rt item
  let _ ← AuditService.append rt context "memory.created" "success" (some "memory_item")
    (some item.id) [("category", .str item.category.text), ("state", .str item.state.text)]
  refresh item.id

def create (accountId : Uuid) (request : MemoryCreate) (context : AuditContext) :
    Work MemoryItem := do
  checkCreate rt accountId request
  insert rt accountId request context

/-- The item of an account. -/
def item? (db : Db) (accountId memoryId : Uuid) : Option MemoryItem :=
  (db.memoryItems.find? memoryId).filter fun item => item.accountId = accountId

def get (accountId memoryId : Uuid) (includeDeleted : Bool) : Work MemoryItem := do
  let item ← Tx.gets fun s => item? s.db accountId memoryId
  Tx.orRaise (item.filter fun item => includeDeleted = true ∨ item.state ≠ .deleted) notFound

/-- `select(MemoryItem).where(id, account_id).with_for_update()`. -/
def lockItem (accountId memoryId : Uuid) : Work MemoryItem := do
  let item ← Tx.gets fun s => item? s.db accountId memoryId
  Tx.orRaise item notFound

def confirm (accountId memoryId : Uuid) (expectedVersion : ℤ) (context : AuditContext) :
    Work MemoryItem := do
  let item ← lockItem accountId memoryId
  versionGuard item expectedVersion
  Tx.raiseIf (item.state ≠ .pending) (.domain (.conflict "Položka nečeká na potvrzení."))
  let now ← utcNow rt
  let updated := { item with state := .active, confirmedAt := some now, version := item.version + 1 }
  store rt item updated
  recordVersion rt updated accountId "confirmed"
  let _ ← AuditService.append rt context "memory.confirmed" "success" none (some item.id)
  refresh item.id

/-- One of the rows that a query without an order selects. -/
def limitOne (db : Db) (rows : List MemoryItem) : Option MemoryItem :=
  rows[rt.limitOne db.memoryItems.rows % rows.length]?

/-- The content branch of `update`: the content to assign, or the refusal of a new content. -/
def updatedContent (db : Db) (accountId : Uuid) (item : MemoryItem) (request : MemoryUpdate) :
    Except Exc String :=
  match request.content with
  | none => .ok item.content
  | some content =>
    let others := db.memoryItems.select fun other => standing accountId other ∧ other.id ≠ item.id
    let repeated := (limitOne rt db others).filter fun duplicate =>
      canonicalContent rt duplicate.content = canonicalContent rt content.val
    if containsSecretInstruction rt content.val then .error (.domain
      ⟨"secret_memory_forbidden", "Tajné hodnoty se neukládají do dlouhodobé paměti.", 422, none, false⟩)
    else match repeated with
      | some duplicate => .error (duplicateOf rt duplicate)
      | none => .ok (PythonText.strip content.val)

/-- The attributes that `update` assigns before it checks the validity. -/
def assign (item : MemoryItem) (request : MemoryUpdate) (content : String) : MemoryItem :=
  { item with
    content := content
    category := request.category.getD item.category
    eventAt := request.eventAt.orElse fun _ => item.eventAt
    validFrom := request.validFrom.orElse fun _ => item.validFrom
    validUntil := request.validUntil.orElse fun _ => item.validUntil
    state := if request.markOutdated then .outdated else item.state }

@[simp] theorem assign_id (item : MemoryItem) (request : MemoryUpdate) (content : String) :
    (assign item request content).id = item.id := rfl

/-- The checks of `update` that precede its assignments: the item and its new content. -/
def checkUpdate (accountId memoryId : Uuid) (request : MemoryUpdate) :
    Work (MemoryItem × String) := do
  let item ← lockItem accountId memoryId
  versionGuard item request.expectedVersion.val
  Tx.raiseIf (item.state = .deleted ∨ item.state = .merged)
    (.domain (.conflict "Odstraněnou nebo sloučenou položku nelze přímo upravit."))
  let checked ← Tx.gets fun s => updatedContent rt s.db accountId item request
  let content ← Tx.ofExcept checked
  pure (item, content)

/-- What `update` writes once the validity has been checked. -/
def finishUpdate (accountId : Uuid) (item : MemoryItem) (context : AuditContext) :
    Work MemoryItem := do
  let updated := { item with version := item.version + 1 }
  store rt item updated
  recordVersion rt updated accountId "updated"
  requestIndex rt updated
  let _ ← AuditService.append rt context "memory.updated" "success" none (some item.id)
    [("version", .int updated.version), ("state", .str updated.state.text)]
  refresh item.id

def update (accountId memoryId : Uuid) (request : MemoryUpdate) (context : AuditContext) :
    Work MemoryItem := do
  let (item, content) ← checkUpdate rt accountId memoryId request
  let assigned := assign item request content
  -- the assignments reach the loaded row before the validity is checked
  store rt item assigned
  checkValidity assigned.validFrom assigned.validUntil
  finishUpdate rt accountId assigned context

def softDelete (accountId memoryId : Uuid) (expectedVersion retentionDays : ℤ)
    (context : AuditContext) : Work MemoryItem := do
  let item ← lockItem accountId memoryId
  versionGuard item expectedVersion
  if item.state = .deleted then
    pure item
  else do
    let deletedAt ← utcNow rt
    let now ← utcNow rt
    let purgeAfter := now.addMicros (DateTime.days retentionDays)
    let updated := { item with
      state := .deleted, deletedAt := some deletedAt, purgeAfter := some purgeAfter
      version := item.version + 1 }
    store rt item updated
    recordVersion rt updated accountId "deleted"
    let _ ← AuditService.append rt context "memory.deleted" "success" none (some item.id)
      [("recoverable_until", .str (rt.isoformat purgeAfter))]
    refresh item.id

/-- `state != "deleted" or not purge_after or purge_after <= now`. -/
def unrestorable (item : MemoryItem) (now : DateTime) : Bool :=
  item.state ≠ .deleted ∨ item.purgeAfter.elim true (·.le now)

def restore (accountId memoryId : Uuid) (expectedVersion : ℤ) (context : AuditContext) :
    Work MemoryItem := do
  let item ← lockItem accountId memoryId
  versionGuard item expectedVersion
  let now ← utcNow rt
  Tx.raiseIf (unrestorable item now = true)
    (.domain (.conflict "Položku již nelze běžným způsobem obnovit."))
  let updated := { item with
    state := .active, deletedAt := none, purgeAfter := none, version := item.version + 1 }
  store rt item updated
  recordVersion rt updated accountId "restored"
  requestIndex rt updated
  let _ ← AuditService.append rt context "memory.restored" "success" none (some item.id)
  refresh item.id

/-- One source of a merge, marked as merged into `mergedId`. -/
def markMerged (accountId mergedId : Uuid) (source : MemoryItem) : Work PUnit := do
  let updated := { source with
    state := .merged, mergedIntoId := some mergedId, version := source.version + 1 }
  store rt source updated
  recordVersion rt updated accountId "merged"

/-- The checks of `merge` on its sources. -/
def checkMerge (accountId : Uuid) (sourceIds : List Uuid) : Work (List MemoryItem) := do
  Tx.raiseIf (sourceIds.dedup.length < 2)
    (.domain ⟨"merge_requires_multiple", "Sloučení vyžaduje nejméně dvě různé položky.", 422, none,
      false⟩)
  let sources ← Db.memoryItem.select fun item => item.accountId = accountId ∧ item.id ∈ sourceIds
  Tx.raiseIf (sources.length ≠ sourceIds.dedup.length ∨
      sources.any (fun i => i.state ≠ .active ∧ i.state ≠ .outdated))
    (.domain (.conflict "Všechny zdrojové položky musí existovat a být aktivní nebo neaktuální."))
  pure sources

def merge (accountId : Uuid) (sourceIds : List Uuid) (target : MemoryCreate)
    (context : AuditContext) : Work MemoryItem := do
  let sources ← checkMerge accountId sourceIds
  let merged ← create rt accountId { target with confirmed := true } context
  let _ ← Tx.forEach (markMerged rt accountId merged.id) sources
  let _ ← AuditService.append rt context "memory.merged" "success" none (some merged.id)
    [("source_ids", .arr (sourceIds.map fun i => .str (rt.strUuid i)))]
  refresh merged.id

/-! ### Search -/

/-- The order of a search: the ranked items in their order, the rest after them; then the
latest change first; then the identifier. -/
def searchOrder (ranked : List Uuid) (a b : MemoryItem) : Bool :=
  let rank (item : MemoryItem) : ℕ := if item.id ∈ ranked then ranked.idxOf item.id else ranked.length + 1
  rank a < rank b ∨ (rank a = rank b ∧ (b.updatedAt.before a.updatedAt ∨
    (¬a.updatedAt.before b.updatedAt ∧ a.id ≤ b.id)))

/-- `search` without a filter of categories and times. -/
def search (accountId : Uuid) (query : String) (states : List MemoryState) (limit : ℕ)
    (ranked : List Uuid) : Work (List MemoryItem) := do
  let terms := PythonText.split (PythonText.strip query)
  let matching (item : MemoryItem) : Bool :=
    terms.isEmpty ∨ terms.any (fun term => rt.like (rt.lower item.content) ("%" ++ rt.casefold term ++ "%")) ∨
      item.id ∈ ranked
  let rows ← Db.memoryItem.select fun item =>
    item.accountId = accountId ∧ item.state ∈ states ∧ matching item
  pure ((rows.insertionSort fun a b =>
    searchOrder (if terms.isEmpty then [] else ranked) a b = true).take limit)

end MemoryService

end KajovoDagmar
