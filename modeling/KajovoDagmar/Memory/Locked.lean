import KajovoDagmar.Memory.Effects

/-! # The memory operations from the locked row on

The part of each operation of `MemoryService` that comes after it has locked its rows and has
read what it checks.  The objects it works on may be older than the rows: an object that the
session has loaded before it locks the row keeps its attributes.  The columns that are written
are absolute values, so the number of the version row is what tells an older object. -/

namespace KajovoDagmar.MemoryService

section locked

variable (rt : Runtime)

/-- `confirm` on the locked item. -/
def confirmItem (accountId : Uuid) (item : MemoryItem) (context : AuditContext) : Work MemoryItem := do
  Tx.raiseIf (item.state ≠ .pending) (.domain (.conflict "Položka nečeká na potvrzení."))
  let now ← utcNow rt
  let updated := { item with state := .active, confirmedAt := some now, version := item.version + 1 }
  store rt item updated
  recordVersion rt updated accountId "confirmed"
  let _ ← AuditService.append rt context "memory.confirmed" "success" none (some item.id)
  refresh item.id

/-- `update` on the locked item, with the outcome of its content check. -/
def updateItem (accountId : Uuid) (item : MemoryItem) (request : MemoryUpdate)
    (checked : Except Exc String) (context : AuditContext) : Work MemoryItem := do
  Tx.raiseIf (item.state = .deleted ∨ item.state = .merged)
    (.domain (.conflict "Odstraněnou nebo sloučenou položku nelze přímo upravit."))
  let content ← Tx.ofExcept checked
  let assigned := assign item request content
  store rt item assigned
  checkValidity assigned.validFrom assigned.validUntil
  finishUpdate rt accountId assigned context

/-- `soft_delete` on the locked item. -/
def softDeleteItem (accountId : Uuid) (item : MemoryItem) (retentionDays : ℤ)
    (context : AuditContext) : Work MemoryItem :=
  if item.state = .deleted then
    pure item
  else do
    let deletedAt ← utcNow rt
    let now ← utcNow rt
    let purgeAfter := now.addMicros (DateTime.days retentionDays)
    let updated := { item with
      state := .deleted, deletedAt := some deletedAt, purgeAfter := some purgeAfter
      version := item.version + 1 }
    store rt item updated
    recordVersion rt updated accountId "deleted"
    let _ ← AuditService.append rt context "memory.deleted" "success" none (some item.id)
      [("recoverable_until", .str (rt.isoformat purgeAfter))]
    refresh item.id

/-- `restore` on the locked item. -/
def restoreItem (accountId : Uuid) (item : MemoryItem) (context : AuditContext) :
    Work MemoryItem := do
  let now ← utcNow rt
  Tx.raiseIf (unrestorable item now = true)
    (.domain (.conflict "Položku již nelze běžným způsobem obnovit."))
  let updated := { item with
    state := .active, deletedAt := none, purgeAfter := none, version := item.version + 1 }
  store rt item updated
  recordVersion rt updated accountId "restored"
  requestIndex rt updated
  let _ ← AuditService.append rt context "memory.restored" "success" none (some item.id)
  refresh item.id

/-- `create` with the outcome of its checks. -/
def createChecked (accountId : Uuid) (request : MemoryCreate) (checked : Except Exc PUnit)
    (context : AuditContext) : Work MemoryItem := do
  Tx.ofExcept checked
  insert rt accountId request context

/-- One source of a merge, marked as merged: its row gets the columns that were assigned to the
object, and they are absolute values. -/
def markLoaded (accountId mergedId : Uuid) (source : MemoryItem) : Work PUnit := do
  let row ← Db.memoryItem.find source.id
  let row ← Tx.orRaise row (.other "StaleDataError")
  store rt row { row with
    state := .merged, mergedIntoId := some mergedId, version := source.version + 1 }
  recordVersion rt { source with
    state := .merged, mergedIntoId := some mergedId, version := source.version + 1 } accountId "merged"

/-- `merge` on the objects of the locked sources, with the outcome of the checks of `create`. -/
def mergeSources (accountId : Uuid) (sourceIds : List Uuid) (sources : List MemoryItem)
    (target : MemoryCreate) (checked : Except Exc PUnit) (context : AuditContext) :
    Work MemoryItem := do
  Tx.raiseIf (sources.length ≠ sourceIds.dedup.length ∨
      sources.any (fun i => i.state ≠ .active ∧ i.state ≠ .outdated))
    (.domain (.conflict "Všechny zdrojové položky musí existovat a být aktivní nebo neaktuální."))
  let merged ← createChecked rt accountId { target with confirmed := true } checked context
  let _ ← Tx.forEach (markLoaded rt accountId merged.id) sources
  let _ ← AuditService.append rt context "memory.merged" "success" none (some merged.id)
    [("source_ids", .arr (sourceIds.map fun i => .str (rt.strUuid i)))]
  refresh merged.id

/-! ### The whole operations -/

theorem confirm_eq (accountId memoryId : Uuid) (expectedVersion : ℤ) (context : AuditContext) :
    confirm rt accountId memoryId expectedVersion context = (do
      let item ← lockItem accountId memoryId
      versionGuard item expectedVersion
      confirmItem rt accountId item context) := rfl

theorem update_eq (accountId memoryId : Uuid) (request : MemoryUpdate) (context : AuditContext)
    (s : Session) : update rt accountId memoryId request context s = (do
      let item ← lockItem accountId memoryId
      versionGuard item request.expectedVersion.val
      let checked ← Tx.gets fun s => updatedContent rt s.db accountId item request
      updateItem rt accountId item request checked context : Work MemoryItem) s := by
  unfold update checkUpdate updateItem
  rcases hl : lockItem accountId memoryId s with ⟨e | item, s₁⟩
  · simp only [Tx.bind_apply, hl]
  rcases hg : versionGuard item request.expectedVersion.val s₁ with ⟨e | u, s₂⟩
  · simp only [Tx.bind_apply, hl, hg]
  by_cases hs : item.state = .deleted ∨ item.state = .merged
  · simp [Tx.bind_apply, hl, hg, hs]
  · cases hc : updatedContent rt s₂.db accountId item request <;>
      simp [Tx.bind_apply, hl, hg, hs, hc]

theorem softDelete_eq (accountId memoryId : Uuid) (expectedVersion retentionDays : ℤ)
    (context : AuditContext) :
    softDelete rt accountId memoryId expectedVersion retentionDays context = (do
      let item ← lockItem accountId memoryId
      versionGuard item expectedVersion
      softDeleteItem rt accountId item retentionDays context) := rfl

theorem restore_eq (accountId memoryId : Uuid) (expectedVersion : ℤ) (context : AuditContext) :
    restore rt accountId memoryId expectedVersion context = (do
      let item ← lockItem accountId memoryId
      versionGuard item expectedVersion
      restoreItem rt accountId item context) := rfl

end locked

end KajovoDagmar.MemoryService
