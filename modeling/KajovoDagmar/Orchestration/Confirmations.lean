import KajovoDagmar.Library.ReadCommitted
import KajovoDagmar.Memory.Locked
import KajovoDagmar.Orchestration.Actions

/-! # Confirmations among other transactions

`confirm_action` as a program of statements under READ COMMITTED.  The action, its run and the
target of the operation are taken with `FOR UPDATE`; the sources of a merge are read before
they are locked, and the original of a continuation is never locked.  What comes after the last
of these statements writes the locked rows and inserts new ones, which nobody sees before the
commit, and is executed there.  The advisory lock of the audit chain only delays and is left
out.

A `SELECT … FOR UPDATE` gives the columns of the locked row, except for a row that the session
has loaded before: there it gives the object as it was loaded, if that object is still alive.
Any other operation is a `Change`: it locks some rows and commits any change of them. -/

namespace KajovoDagmar

open ReadCommitted

/-! ### Targets -/

/-- A row that an action can be about. -/
inductive Target where
  | memory (id : Uuid)
  | conversation (id : Uuid)
deriving DecidableEq

/-- The row of a target. -/
def Db.target? (db : Db) : Target → Option (MemoryItem ⊕ Conversation)
  | .memory id => (db.memoryItems.find? id).map .inl
  | .conversation id => (db.conversations.find? id).map .inr

/-- The version of a target. -/
def Db.versionOf (db : Db) (k : Target) : Option ℤ :=
  (db.target? k).map (Sum.elim MemoryItem.version Conversation.version)

@[simp] theorem Db.versionOf_memory (db : Db) (id : Uuid) :
    db.versionOf (.memory id) = (db.memoryItems.find? id).map MemoryItem.version := by
  simp [Db.versionOf, Db.target?, Function.comp_def]

@[simp] theorem Db.versionOf_conversation (db : Db) (id : Uuid) :
    db.versionOf (.conversation id) = (db.conversations.find? id).map Conversation.version := by
  simp [Db.versionOf, Db.target?, Function.comp_def]

/-! ### The operations from the locked row on -/

namespace HistoryService

variable (rt : Runtime)

/-- `soft_delete` on the locked row. -/
def softDeleteRow (row : Conversation) (retentionDays : ℤ) (context : AuditContext) :
    Work Conversation := do
  let deletedAt ← utcNow rt
  let now ← utcNow rt
  let purgeAfter := now.addMicros (DateTime.days retentionDays)
  let updated := { row with
    deletedAt := some deletedAt, purgeAfter := some purgeAfter, state := .deleted
    version := row.version + 1 }
  Db.conversation.save rt updated
  let _ ← AuditService.append rt context "history.deleted" "success" none (some row.id)
    [("recoverable_until", .str (rt.isoformat purgeAfter))]
  pure updated

/-- `restore` on the locked row. -/
def restoreRow (row : Conversation) (context : AuditContext) : Work Conversation := do
  let now ← utcNow rt
  Tx.raiseIf (unrestorable row now = true)
    (.domain (.conflict "Konverzaci již nelze běžným způsobem obnovit."))
  let updated := { row with
    deletedAt := none, purgeAfter := none
    state := if row.endedAt = none then .interrupted else .completed
    version := row.version + 1 }
  Db.conversation.save rt updated
  let _ ← AuditService.append rt context "history.restored" "success" none (some row.id)
  pure updated

theorem softDelete_eq (accountId conversationId : Uuid) (expectedVersion retentionDays : ℤ)
    (context : AuditContext) :
    softDelete rt accountId conversationId expectedVersion retentionDays context = (do
      let row ← lockConversation accountId conversationId
      Tx.raiseIf (row.version ≠ expectedVersion) changed
      softDeleteRow rt row retentionDays context) := rfl

theorem restore_eq (accountId conversationId : Uuid) (expectedVersion : ℤ)
    (context : AuditContext) :
    restore rt accountId conversationId expectedVersion context = (do
      let row ← lockConversation accountId conversationId
      Tx.raiseIf (row.version ≠ expectedVersion) changed
      restoreRow rt row context) := rfl

end HistoryService

/-! ### Statements -/

/-- What a statement of a confirmation can lock. -/
inductive Lockable where
  | action (id : Uuid)
  | run (id : Uuid)
  | target (k : Target)
deriving DecidableEq

/-- A confirmation request: the start of its transaction, the first reading of its clock, and
which of the memory items that it loads are still alive when it locks them. -/
structure ConfirmRequest where
  accountId : Uuid
  actionId : Uuid
  expectedActionVersion : ℤ
  context : AuditContext
  began : DateTime
  tick : ℕ
  alive : Uuid → Bool

/-- The session in which a confirmation writes, over the committed store. -/
def ConfirmRequest.session (c : ConfirmRequest) (db : Db) : Session :=
  { db := db, began := c.began, tick := c.tick + 1 }

/-- Any other operation: the rows it locks and what it commits.  A target that is there stays
as it is unless it has been locked. -/
structure Change where
  rows : List Lockable
  apply : Db → Option Db
  only : ∀ db db' k r, apply db = some db' → .target k ∉ rows → db.target? k = some r →
    db'.target? k = some r

/-- The operations on one locked memory item. -/
inductive MemoryOperation where
  | update (request : MemoryUpdate)
  | delete (retentionDays : ℤ)
  | restore

/-- The operations on one locked conversation. -/
inductive HistoryOperation where
  | delete (retentionDays : ℤ)
  | restore

/-- A merge in progress: the items as they were loaded, the request, and the objects and the
committed versions of the sources that have been locked. -/
structure Merge where
  loaded : List MemoryItem
  sourceIds : List Uuid
  target : MemoryCreate
  sources : List MemoryItem := []
  taken : List (Uuid × ℤ) := []

/-- What is left to do after the last statement that locks or reads the rows of others. -/
inductive Plan where
  | create (request : MemoryCreate) (checked : Except Exc PUnit)
  | update (item : MemoryItem) (request : MemoryUpdate) (checked : Except Exc String)
  | delete (item : MemoryItem) (retentionDays : ℤ)
  | restore (item : MemoryItem)
  | merge (m : Merge) (checked : Except Exc PUnit)
  | continueFrom (original : Conversation)
  | deleteConversation (row : Conversation) (retentionDays : ℤ)
  | restoreConversation (row : Conversation)

/-- The targets that an operation acts on, with their versions when it took them. -/
def Plan.acted : Plan → List (Target × ℤ)
  | .create _ _ => []
  | .update item _ _ | .delete item _ | .restore item => [(.memory item.id, item.version)]
  | .merge m _ => m.taken.map fun t => (.memory t.1, t.2)
  | .continueFrom original => [(.conversation original.id, original.version)]
  | .deleteConversation row _ | .restoreConversation row => [(.conversation row.id, row.version)]

/-- The targets that an operation has locked. -/
def Plan.locks : Plan → List Target
  | .continueFrom _ => []
  | plan => plan.acted.map Prod.fst

/-- Where a transaction stands: its next statement, with what it has read. -/
inductive Stage where
  | confirm (c : ConfirmRequest)
  | lockRun (c : ConfirmRequest) (runId : Uuid)
  | retention (c : ConfirmRequest) (a : ToolAction)
  | lockMemory (c : ConfirmRequest) (a : ToolAction) (id : Uuid) (expected : ℤ) (op : MemoryOperation)
  | checkContent (c : ConfirmRequest) (a : ToolAction) (item : MemoryItem) (request : MemoryUpdate)
  | checkCreated (c : ConfirmRequest) (a : ToolAction) (request : MemoryCreate)
  | loadSource (c : ConfirmRequest) (a : ToolAction) (id : Uuid) (source : String × Json)
      (todo : List (String × Json)) (loaded : List MemoryItem)
  | selectSources (c : ConfirmRequest) (a : ToolAction) (m : Merge)
  | lockSource (c : ConfirmRequest) (a : ToolAction) (m : Merge) (id : Uuid) (todo : List Uuid)
  | checkMerged (c : ConfirmRequest) (a : ToolAction) (m : Merge)
  | readOriginal (c : ConfirmRequest) (a : ToolAction) (id : Uuid)
  | lockConversation (c : ConfirmRequest) (a : ToolAction) (id : Uuid) (expected : ℤ)
      (op : HistoryOperation)
  | finish (c : ConfirmRequest) (a : ToolAction) (plan : Plan)
  | fail (c : ConfirmRequest) (e : Exc)
  | expire (c : ConfirmRequest)
  /-- Refused before anything was written, or already completed. -/
  | refused
  | change (o : Change) (todo held : List Lockable)

namespace Confirmations

open OrchestrationService

variable (out : Outside)

/-! ### From one statement to the next -/

/-- The outcome of the checks of `create` on the committed store. -/
def createOutcome (c : ConfirmRequest) (request : MemoryCreate) (db : Db) : Except Exc PUnit :=
  (MemoryService.checkCreate out.toRuntime c.accountId request
    { db := db, began := c.began, tick := c.tick }).1

/-- The next source of a merge is read, or the merge takes its remaining arguments. -/
def nextSource (c : ConfirmRequest) (a : ToolAction) :
    List (String × Json) → List MemoryItem → Stage
  | source :: todo, loaded =>
    match uuidOf out (.str source.1) with
    | .error e => .fail c e
    | .ok id => .loadSource c a id source todo loaded
  | [], loaded =>
    match ((argument a.arguments "source_ids").bind iterate).bind (uuidsOf out) with
    | .error e => .fail c e
    | .ok sourceIds =>
      match (argument a.arguments "target").bind fun target =>
          validated (MemoryCreate.modelValidate out.toRuntime target) with
      | .error e => .fail c e
      | .ok target =>
        if sourceIds.dedup.length < 2 then .fail c (.domain
          ⟨"merge_requires_multiple", "Sloučení vyžaduje nejméně dvě různé položky.", 422, none, false⟩)
        else .selectSources c a { loaded := loaded, sourceIds := sourceIds, target := target }

/-- The next source of a merge is locked, or its checks are made. -/
def nextLock (c : ConfirmRequest) (a : ToolAction) (m : Merge) : List Uuid → Stage
  | [] => .checkMerged c a m
  | id :: todo => .lockSource c a m id todo

/-- The object that `SELECT … FOR UPDATE` gives for a locked source. -/
def sourceObject (c : ConfirmRequest) (m : Merge) (row : MemoryItem) : MemoryItem :=
  ((m.loaded.find? fun item => item.id = row.id).filter fun _ => c.alive row.id).getD row

/-- A merge that has locked one more source. -/
def takeSource (c : ConfirmRequest) (m : Merge) (row : MemoryItem) : Merge :=
  { m with
    sources := m.sources ++ [sourceObject c m row]
    taken := m.taken ++ [(row.id, row.version)] }

/-- An operation on the locked memory item. -/
def onMemory (c : ConfirmRequest) (a : ToolAction) (item : MemoryItem) : MemoryOperation → Stage
  | .update request => .checkContent c a item request
  | .delete retentionDays => .finish c a (.delete item retentionDays)
  | .restore => .finish c a (.restore item)

/-- An operation on the locked conversation. -/
def onConversation (c : ConfirmRequest) (a : ToolAction) (row : Conversation) :
    HistoryOperation → Stage
  | .delete retentionDays => .finish c a (.deleteConversation row retentionDays)
  | .restore => .finish c a (.restoreConversation row)

/-- The first statement of `_execute_state_action`. -/
def executeFirst (c : ConfirmRequest) (a : ToolAction) : Stage :=
  if out.sha256 a.arguments.dumpsSorted ≠ a.argumentsHash then .fail c (.domain
    ⟨"action_integrity_failed", "Integrita potvrzované operace byla porušena.", 409, none, false⟩)
  else if a.name = "memory_create" then
    match validated (MemoryCreate.modelValidate out.toRuntime a.arguments) with
    | .error e => .fail c e
    | .ok request => .checkCreated c a request
  else if IsUpdate a.name then
    match updateArguments out a.arguments (decide (a.name = "memory_mark_outdated")) with
    | .error e => .fail c e
    | .ok (id, request) => .lockMemory c a id request.expectedVersion.val (.update request)
  else if a.name = "memory_delete" ∨ a.name = "history_delete" then .retention c a
  else if a.name = "memory_restore" then
    match targetArguments out a.arguments "memory_id" with
    | .error e => .fail c e
    | .ok (id, expected) => .lockMemory c a id expected .restore
  else if a.name = "memory_merge" then
    match (argument a.arguments "source_versions").bind itemsOf with
    | .error e => .fail c e
    | .ok versions => nextSource out c a versions []
  else if a.name = "history_continue" then
    match (argument a.arguments "conversation_id").bind (uuidOf out) with
    | .error e => .fail c e
    | .ok id => .readOriginal c a id
  else if a.name = "history_restore" then
    match targetArguments out a.arguments "conversation_id" with
    | .error e => .fail c e
    | .ok (id, expected) => .lockConversation c a id expected .restore
  else .fail c (.domain ⟨"tool_not_allowed", "Potvrzený nástroj není podporován.", 409, none, false⟩)

/-- `_setting` on the committed store. -/
def settingOf (db : Db) (area key : String) (fallback : Json) : Json :=
  (db.setting? area key).elim fallback fun row => row.value.getD "value" fallback

/-- The statement after the reading of the retention period. -/
def retained (c : ConfirmRequest) (a : ToolAction) (db : Db) : Stage :=
  if a.name = "memory_delete" then
    match (do
        let retention ← intOf out (settingOf db "memory" "soft_delete_days" (.int 30))
        let (id, expected) ← targetArguments out a.arguments "memory_id"
        pure (retention, id, expected) : Except Exc (ℤ × Uuid × ℤ)) with
    | .error e => .fail c e
    | .ok (retention, id, expected) => .lockMemory c a id expected (.delete retention)
  else
    match (do
        let retention ← intOf out (settingOf db "history" "soft_delete_days" (.int 30))
        let (id, expected) ← targetArguments out a.arguments "conversation_id"
        pure (retention, id, expected) : Except Exc (ℤ × Uuid × ℤ)) with
    | .error e => .fail c e
    | .ok (retention, id, expected) => .lockConversation c a id expected (.delete retention)

/-- `confirm_action` on the locked action. -/
def confirmed (c : ConfirmRequest) (db : Db) : Stage :=
  match action? db c.accountId c.actionId with
  | none => .refused
  | some a =>
    if a.state = .completed ∨ a.version ≠ c.expectedActionVersion ∨ a.state ≠ .pendingConfirmation then
      .refused
    else if expired a (.utc (out.clock c.tick)) then .expire c
    else executeFirst out c a

/-! ### The end of a confirmation -/

/-- The writes of an operation, and its result. -/
def planWork (c : ConfirmRequest) : Plan → Work Json
  | .create request checked => do
    let item ← MemoryService.createChecked out.toRuntime c.accountId request checked c.context
    pure (.obj (memoryResult out item))
  | .update item request checked => do
    let item ← MemoryService.updateItem out.toRuntime c.accountId item request checked c.context
    pure (.obj (memoryResult out item))
  | .delete item retentionDays => do
    let item ← MemoryService.softDeleteItem out.toRuntime c.accountId item retentionDays c.context
    pure (.obj (memoryResult out item ++ [("recoverable_until", datetimeJson out item.purgeAfter)]))
  | .restore item => do
    let item ← MemoryService.restoreItem out.toRuntime c.accountId item c.context
    pure (.obj (memoryResult out item))
  | .merge m checked => do
    let item ← MemoryService.mergeSources out.toRuntime c.accountId m.sourceIds m.sources m.target
      checked c.context
    pure (.obj (memoryResult out item))
  | .continueFrom original => do
    let row ← HistoryService.insertContinuation out.toRuntime c.accountId original c.context
    pure (.obj (conversationOutcome out row))
  | .deleteConversation row retentionDays => do
    let row ← HistoryService.softDeleteRow out.toRuntime row retentionDays c.context
    pure (.obj (conversationOutcome out row ++ [("recoverable_until", datetimeJson out row.purgeAfter)]))
  | .restoreConversation row => do
    let row ← HistoryService.restoreRow out.toRuntime row c.context
    pure (.obj (conversationOutcome out row))

/-- `confirm_action` from the assignment of `running` on, with the given work in the place of
`_execute_state_action`. -/
def concludeAction (actionId : Uuid) (context : AuditContext) (work : Work Json) :
    Work ToolAction := do
  let confirmedAt ← utcNow out.toRuntime
  let action ← updateAction out actionId fun a => { a with
    state := .running, confirmedAt := some confirmedAt, version := a.version + 1 }
  Tx.handle (do
      let result ← work
      let now ← utcNow out.toRuntime
      let action ← updateAction out action.id fun a => { a with
        result := some result, state := .completed, completedAt := some now, version := a.version + 1 }
      completeRun out action
      let _ ← AuditService.append out.toRuntime context "orchestration.action_completed" "success"
        (some "tool_action") (some action.id)
        [("name", .str action.name), ("run_id", .str (out.strUuid action.runId))]
      pure action)
    fun e => do
      failAction out action.id context e
      Tx.raise e.markDurable

/-- What the commit of a confirmation with the given work publishes. -/
def publishWork (c : ConfirmRequest) (work : Work Json) (db : Db) : Db :=
  (Database.session (concludeAction out c.actionId c.context work) (c.session db)).2.db

/-- The action is committed as completed. -/
def Completes (c : ConfirmRequest) (work : Work Json) (db : Db) : Prop :=
  ∃ a s, concludeAction out c.actionId c.context work (c.session db) = (.ok a, s)

/-- What the commit of an expired confirmation publishes. -/
def publishExpiry (c : ConfirmRequest) (db : Db) : Db :=
  (Database.session (expireAction out c.actionId) (c.session db)).2.db

/-! ### The program -/

/-- The next statement of a transaction. -/
def stmt : Stage → Stmt Lockable Db Stage
  | .confirm c => .lock (.action c.actionId) fun db =>
    match action? db c.accountId c.actionId with
    | none => .refused
    | some a => .lockRun c a.runId
  | .lockRun c runId => .lock (.run runId) (confirmed out c)
  | .retention c a => .read (retained out c a)
  | .lockMemory c a id expected op => .lock (.target (.memory id)) fun db =>
    match MemoryService.item? db c.accountId id with
    | none => .fail c MemoryService.notFound
    | some item =>
      match (MemoryService.versionGuard item expected (c.session db)).1 with
      | .error e => .fail c e
      | .ok _ => onMemory c a item op
  | .checkContent c a item request => .read fun db => .finish c a
    (.update item request (MemoryService.updatedContent out.toRuntime db c.accountId item request))
  | .checkCreated c a request => .read fun db => .finish c a
    (.create request (createOutcome out c request db))
  | .loadSource c a id source todo loaded => .read fun db =>
    match MemoryService.item? db c.accountId id with
    | none => .fail c MemoryService.notFound
    | some item =>
      if eqVersion out item.version source.2 then nextSource out c a todo (loaded ++ [item])
      else .fail c (.domain (.conflict "Některá zdrojová paměť se před potvrzením změnila."
        (some (.obj [("memory_id", .str source.1)]))))
  | .selectSources c a m => .read fun db =>
    nextLock c a m ((db.memoryItems.select fun item =>
      item.accountId = c.accountId ∧ item.id ∈ m.sourceIds).map MemoryItem.id)
  | .lockSource c a m id todo => .lock (.target (.memory id)) fun db =>
    match MemoryService.item? db c.accountId id with
    | none => nextLock c a m todo
    | some row => nextLock c a (takeSource c m row) todo
  | .checkMerged c a m => .read fun db => .finish c a
    (.merge m (createOutcome out c { m.target with confirmed := true } db))
  | .readOriginal c a id => .read fun db =>
    match (HistoryService.conversation? db c.accountId id).filter fun row => row.deletedAt = none with
    | none => .fail c HistoryService.notFound
    | some original => .finish c a (.continueFrom original)
  | .lockConversation c a id expected op => .lock (.target (.conversation id)) fun db =>
    match HistoryService.conversation? db c.accountId id with
    | none => .fail c HistoryService.notFound
    | some row =>
      if row.version ≠ expected then .fail c HistoryService.changed else onConversation c a row op
  | .finish c _ plan => .commit fun db => some (publishWork out c (planWork out c plan) db)
  | .fail c e => .commit fun db => some (publishWork out c (Tx.raise e) db)
  | .expire c => .commit fun db => some (publishExpiry out c db)
  | .refused => .commit some
  | .change o [] _ => .commit o.apply
  | .change o (k :: todo) held => .lock k fun _ => .change o todo (k :: held)

/-- A transaction begins with a confirmation request or is another operation. -/
def initial : Stage → Bool
  | .confirm _ => true
  | .change o todo held => todo = o.rows ∧ held = []
  | _ => false

/-- The confirmations and the other operations, interleaved. -/
abbrev step := ReadCommitted.step (stmt out) initial

end Confirmations

end KajovoDagmar
