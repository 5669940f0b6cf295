import KajovoDagmar.Memory.Locked
import KajovoDagmar.Library.Runs

/-! # What the memory operations write

Every operation of `MemoryService` that returns has added one item or has written the next
version of items that were there, each with one row of `memory_version` and, for some
operations, with one request to index the item.  `Creates` and `Revises` say so for one item;
the specification of each operation names the item and what became of it. -/

namespace KajovoDagmar

/-- The version and the request rows. -/
def Db.memoryRecords (db : Db) : Table MemoryVersion.id × Table OutboxEvent.id :=
  (db.memoryVersions, db.outboxEvents)

/-- The items and their records. -/
def Db.memoryRows (db : Db) :
    Table MemoryItem.id × Table MemoryVersion.id × Table OutboxEvent.id :=
  (db.memoryItems, db.memoryRecords)

/-- The items to index and the sequences of the requests, in the order of the requests. -/
def Db.indexRequests (db : Db) : List (Uuid × ℤ) :=
  (db.outboxEvents.rows.filter fun e =>
    e.aggregateType = "memory" ∧ e.eventType = "memory.index_requested").map fun e =>
      (e.aggregateId, e.sequence)

/-- The version row `v` records the columns of `item`. -/
structure MemoryVersion.Records (rt : Runtime) (v : MemoryVersion) (item : MemoryItem) : Prop where
  memoryId : v.memoryId = item.id
  versionNumber : v.versionNumber = item.version
  content : v.content = item.content
  category : v.category = item.category
  state : v.state = item.state
  snapshot : v.snapshot = MemoryService.snapshot rt item

namespace MemoryService

variable {rt : Runtime}

/-! ### Writing one item -/

/-- The row of a changed item after a transaction that began at `began`. -/
def rowOf (rt : Runtime) (began : DateTime) (item : MemoryItem) : MemoryItem :=
  { item.bind rt with updatedAt := began }

/-- Beyond the rows of `db` there is the record of `item` and, if `indexed`, a request to index
it. -/
structure Recorded (rt : Runtime) (item : MemoryItem) (indexed : Bool) (db db' : Db) : Prop where
  versions : ∃ v, db'.memoryVersions.rows = db.memoryVersions.rows ++ [v] ∧ v.Records rt item
  requests : db'.indexRequests = db.indexRequests ++ if indexed then [(item.id, item.version)] else []

/-- The row of `item` has been written, with its record. -/
structure Writes (rt : Runtime) (began : DateTime) (item : MemoryItem) (indexed : Bool) (db db' : Db) :
    Prop where
  items : db'.memoryItems = db.memoryItems.put (rowOf rt began item)
  recorded : Recorded rt item indexed db db'

/-- The item `old` has become `new`. -/
structure Revises (rt : Runtime) (began : DateTime) (old new : MemoryItem) (indexed : Bool)
    (db db' : Db) : Prop extends Writes rt began new indexed db db' where
  found : db.memoryItems.find? new.id = some old
  version : new.version = old.version + 1

/-- `item` has been added, with its first version and a request to index it. -/
structure Creates (rt : Runtime) (item : MemoryItem) (db db' : Db) : Prop where
  items : db.memoryItems.insert? (item.bind rt) = some db'.memoryItems
  version : item.version = 1
  recorded : Recorded rt item true db db'

theorem Recorded.congr {item : MemoryItem} {indexed : Bool} {db₁ db₁' db₂ db₂' : Db}
    (h : Recorded rt item indexed db₁ db₁') (hbefore : db₂.memoryRecords = db₁.memoryRecords)
    (hafter : db₂'.memoryRecords = db₁'.memoryRecords) : Recorded rt item indexed db₂ db₂' := by
  obtain ⟨hversions, hevents⟩ := Prod.mk.inj hbefore
  obtain ⟨hversions', hevents'⟩ := Prod.mk.inj hafter
  obtain ⟨hv, hr⟩ := h
  unfold Db.indexRequests at hr
  constructor
  · rw [hversions, hversions']
    exact hv
  · rw [Db.indexRequests, Db.indexRequests, hevents, hevents']
    exact hr

theorem flush_of_version {began : DateTime} {old new : MemoryItem} (h : new.version ≠ old.version) :
    MemoryItem.flush rt began old new = rowOf rt began new := by
  rw [MemoryItem.flush, if_neg, rowOf]
  intro hu
  simp only [MemoryItem.unchanged, Bool.and_eq_true, decide_eq_true_eq] at hu
  have hversion := congrArg MemoryItem.version hu.1.1.1
  exact h hversion

theorem flush_id (began : DateTime) {old new : MemoryItem} (h : new.id = old.id) :
    (MemoryItem.flush rt began old new).id = new.id := by
  unfold MemoryItem.flush
  split
  · exact h.symm
  · rfl

@[simp] theorem rowOf_id (began : DateTime) (item : MemoryItem) : (rowOf rt began item).id = item.id := rfl

/-! ### The parts of an operation -/

theorem recordVersion_ok {item : MemoryItem} {accountId : Uuid} {changeKind : String}
    {s s' : Session} {u : PUnit} (h : recordVersion rt item accountId changeKind s = (.ok u, s')) :
    s'.db.memoryItems = s.db.memoryItems ∧ Recorded rt item false s.db s'.db := by
  obtain ⟨id, s₁, hid, hadd⟩ := Tx.bind_eq_ok h
  obtain ⟨-, rfl⟩ := Prod.mk.inj hid
  obtain ⟨t, ht, rfl⟩ := Relation.add_eq_ok hadd
  refine ⟨rfl, ⟨_, (Table.insert?_eq_some (Relation.insertRow_eq_ok ht).1).1, ?_⟩, ?_⟩
  · exact ⟨rfl, rfl, rfl, rfl, rfl, rfl⟩
  · exact (List.append_nil _).symm

theorem requestIndex_ok {item : MemoryItem} {s s' : Session} {u : PUnit}
    (h : requestIndex rt item s = (.ok u, s')) :
    s'.db.memoryItems = s.db.memoryItems ∧ s'.db.memoryVersions = s.db.memoryVersions ∧
      s'.db.indexRequests = s.db.indexRequests ++ [(item.id, item.version)] := by
  obtain ⟨id, s₁, hid, h⟩ := Tx.bind_eq_ok h
  obtain ⟨-, rfl⟩ := Prod.mk.inj hid
  rw [Tx.gets_bind_apply] at h
  obtain ⟨t, ht, rfl⟩ := Relation.add_eq_ok h
  refine ⟨rfl, rfl, ?_⟩
  have hrows := (Table.insert?_eq_some (Relation.insertRow_eq_ok ht).1).1
  change (t.rows.filter _).map _ = _
  rw [hrows, List.filter_append, List.map_append]
  rfl

/-- The request of an index after the record of a version. -/
theorem Recorded.request {item : MemoryItem} {db db₁ db₂ : Db} (h : Recorded rt item false db db₁)
    (hversions : db₂.memoryVersions = db₁.memoryVersions)
    (hrequests : db₂.indexRequests = db₁.indexRequests ++ [(item.id, item.version)]) :
    Recorded rt item true db db₂ where
  versions := by
    rw [hversions]
    exact h.versions
  requests := by
    rw [hrequests, h.requests]
    simp

/-- The closing audit event and the refresh of the item leave the memory rows alone. -/
theorem close_keeps {context : AuditContext} {eventType result : String} {targetType : Option String}
    {targetId : Option Uuid} {details : List (String × Json)} {id : Uuid} :
    Tx.Keeps (Same Db.memoryRows) (do
      let _ ← AuditService.append rt context eventType result targetType targetId details
      refresh id) :=
  (AuditService.append_keeps fun _ _ => rfl).bind fun _ => refresh_keeps id

/-- What follows the record of a written item leaves it as it is. -/
theorem Writes.congr {began : DateTime} {item : MemoryItem} {indexed : Bool} {db db' db'' : Db}
    (h : Writes rt began item indexed db db') (hrows : db''.memoryRows = db'.memoryRows) :
    Writes rt began item indexed db db'' where
  items := (congrArg Prod.fst hrows).trans h.items
  recorded := h.recorded.congr rfl (congrArg Prod.snd hrows)

/-- A new version of an item is written whatever its other columns are. -/
theorem store_version {old new : MemoryItem} {s s' : Session} {u : PUnit}
    (hversion : new.version ≠ old.version) (h : store rt old new s = (.ok u, s')) :
    s' = { s with db := { s.db with
      memoryItems := s.db.memoryItems.put (rowOf rt s.began new) } } := by
  have hflush : MemoryItem.flush rt s.began old new = rowOf rt s.began new := flush_of_version hversion
  unfold store at h
  split at h
  · next hu =>
    rw [MemoryItem.flush, if_pos hu] at hflush
    exact absurd (congrArg MemoryItem.version hflush).symm hversion
  · rw [hflush] at h
    exact Relation.save_eq_ok h

/-- The next version of an item, written and recorded. -/
theorem write_ok {accountId : Uuid} {changeKind : String} {old new : MemoryItem} {s s' : Session}
    {u : PUnit} (hversion : new.version = old.version + 1)
    (h : (do store rt old new; recordVersion rt new accountId changeKind : Work PUnit) s = (.ok u, s')) :
    Writes rt s.began new false s.db s'.db := by
  obtain ⟨u₁, s₁, hstore, hrecord⟩ := Tx.bind_eq_ok h
  obtain rfl := store_version (by omega) hstore
  obtain ⟨hitems, hrecorded⟩ := recordVersion_ok hrecord
  exact ⟨hitems, hrecorded.congr rfl rfl⟩

/-- The next version of an item, written and recorded, and what follows. -/
theorem write_close_ok {α : Type} {accountId : Uuid} {changeKind : String} {old new : MemoryItem}
    {f : Work α} {s s' : Session} {a : α} (hversion : new.version = old.version + 1)
    (hf : Tx.Keeps (Same Db.memoryRows) f)
    (h : (do
      store rt old new
      recordVersion rt new accountId changeKind
      f : Work α) s = (.ok a, s')) : Writes rt s.began new false s.db s'.db := by
  obtain ⟨u, s₁, hstore, hrest⟩ := Tx.bind_eq_ok h
  obtain ⟨u', s₂, hrecord, hclose⟩ := Tx.bind_eq_ok hrest
  have hwrite : (do store rt old new; recordVersion rt new accountId changeKind : Work PUnit) s =
      (.ok u', s₂) := by
    rw [Tx.bind_of_ok hstore, hrecord]
  exact (write_ok hversion hwrite).congr (hf.of_apply hclose)

/-- The same, with a request to index the item. -/
theorem write_index_ok {α : Type} {accountId : Uuid} {changeKind : String} {old new : MemoryItem}
    {f : Work α} {s s' : Session} {a : α} (hversion : new.version = old.version + 1)
    (hf : Tx.Keeps (Same Db.memoryRows) f)
    (h : (do
      store rt old new
      recordVersion rt new accountId changeKind
      requestIndex rt new
      f : Work α) s = (.ok a, s')) : Writes rt s.began new true s.db s'.db := by
  obtain ⟨u, s₁, hstore, hrest⟩ := Tx.bind_eq_ok h
  obtain ⟨u', s₂, hrecord, hrest'⟩ := Tx.bind_eq_ok hrest
  obtain ⟨u'', s₃, hrequest, hclose⟩ := Tx.bind_eq_ok hrest'
  have hwrite : (do store rt old new; recordVersion rt new accountId changeKind : Work PUnit) s =
      (.ok u', s₂) := by
    rw [Tx.bind_of_ok hstore, hrecord]
  have hwrites := write_ok hversion hwrite
  obtain ⟨hitems, hversions, hrequests⟩ := requestIndex_ok hrequest
  have hindexed : Writes rt s.began new true s.db s₃.db :=
    ⟨hitems.trans hwrites.items, hwrites.recorded.request hversions hrequests⟩
  exact hindexed.congr (hf.of_apply hclose)

/-! ### Operations on one item -/

theorem checkValidity_ok {validFrom validUntil : Option DateTime} {s s' : Session} {u : PUnit}
    (h : checkValidity validFrom validUntil s = (.ok u, s')) :
    inverted validFrom validUntil = .ok false ∧ s' = s := by
  obtain ⟨bad, s₁, hbad, hraise⟩ := Tx.bind_eq_ok h
  obtain ⟨hinv, rfl⟩ := Prod.mk.inj hbad
  cases bad with
  | true => simp at hraise
  | false => exact ⟨hinv, (Prod.mk.inj hraise).2.symm⟩

/-- An operation on a locked item goes on from the item of the account at the expected
version. -/
theorem locked_ok {α : Type} {accountId memoryId : Uuid} {expectedVersion : ℤ}
    {f : MemoryItem → Work α} {s s' : Session} {a : α}
    (h : (do
      let item ← lockItem accountId memoryId
      versionGuard item expectedVersion
      f item : Work α) s = (.ok a, s')) :
    ∃ item, item? s.db accountId memoryId = some item ∧ item.version = expectedVersion ∧
      f item s = (.ok a, s') := by
  obtain ⟨item, s₁, hlock, hguard⟩ := Tx.bind_eq_ok h
  rw [lockItem, Tx.gets_bind_apply] at hlock
  obtain ⟨hitem, rfl⟩ := Tx.orRaise_eq_ok hlock
  obtain ⟨hversion, hgo⟩ := Tx.raiseIf_bind_eq_ok hguard
  exact ⟨item, hitem, not_not.mp hversion, hgo⟩

theorem confirmItem_ok {accountId : Uuid} {item : MemoryItem} {context : AuditContext}
    {s s' : Session} {a : MemoryItem} (hfind : s.db.memoryItems.find? item.id = some item)
    (h : confirmItem rt accountId item context s = (.ok a, s')) :
    item.state = .pending ∧ ∃ now, Revises rt s.began item
      { item with state := .active, confirmedAt := some now, version := item.version + 1 } false
      s.db s'.db := by
  obtain ⟨hstate, h⟩ := Tx.raiseIf_bind_eq_ok h
  obtain ⟨now, s₁, hnow, h⟩ := Tx.bind_eq_ok h
  obtain ⟨-, rfl⟩ := Prod.mk.inj hnow
  refine ⟨not_not.mp hstate, now, ?_⟩
  exact ⟨write_close_ok (s := { s with tick := s.tick + 1 }) rfl close_keeps h, hfind, rfl⟩

theorem confirm_ok {accountId memoryId : Uuid} {expectedVersion : ℤ} {context : AuditContext}
    {s s' : Session} {a : MemoryItem}
    (h : confirm rt accountId memoryId expectedVersion context s = (.ok a, s')) :
    ∃ item now, item? s.db accountId memoryId = some item ∧ item.version = expectedVersion ∧
      item.state = .pending ∧
      Revises rt s.began item
        { item with state := .active, confirmedAt := some now, version := item.version + 1 } false
        s.db s'.db := by
  obtain ⟨item, hitem, hversion, h⟩ := locked_ok h
  obtain ⟨hstate, now, hrevises⟩ := confirmItem_ok (item?_mem hitem) h
  exact ⟨item, now, hitem, hversion, hstate, hrevises⟩

/-- A deleted item is left as it is. -/
theorem softDeleteItem_ok {accountId : Uuid} {item : MemoryItem} {retentionDays : ℤ}
    {context : AuditContext} {s s' : Session} {a : MemoryItem}
    (hfind : s.db.memoryItems.find? item.id = some item)
    (h : softDeleteItem rt accountId item retentionDays context s = (.ok a, s')) :
    (item.state = .deleted ∧ s' = s) ∨ item.state ≠ .deleted ∧ ∃ deletedAt purgeAfter,
      Revises rt s.began item
        { item with
          state := .deleted, deletedAt := some deletedAt, purgeAfter := some purgeAfter
          version := item.version + 1 } false
        s.db s'.db := by
  unfold softDeleteItem at h
  split at h
  · next hstate => exact .inl ⟨hstate, (Prod.mk.inj h).2.symm⟩
  · next hstate =>
    obtain ⟨deletedAt, s₁, hdeleted, h⟩ := Tx.bind_eq_ok h
    obtain ⟨-, rfl⟩ := Prod.mk.inj hdeleted
    obtain ⟨now, s₂, hnow, h⟩ := Tx.bind_eq_ok h
    obtain ⟨-, rfl⟩ := Prod.mk.inj hnow
    refine .inr ⟨hstate, deletedAt, now.addMicros (DateTime.days retentionDays), ?_⟩
    exact ⟨write_close_ok (s := { s with tick := s.tick + 1 + 1 }) rfl close_keeps h, hfind, rfl⟩

/-- `soft_delete` returns a deleted item as it is and deletes any other one. -/
theorem softDelete_ok {accountId memoryId : Uuid} {expectedVersion retentionDays : ℤ}
    {context : AuditContext} {s s' : Session} {a : MemoryItem}
    (h : softDelete rt accountId memoryId expectedVersion retentionDays context s = (.ok a, s')) :
    ∃ item, item? s.db accountId memoryId = some item ∧ item.version = expectedVersion ∧
      ((item.state = .deleted ∧ s' = s) ∨ item.state ≠ .deleted ∧ ∃ deletedAt purgeAfter,
        Revises rt s.began item
          { item with
            state := .deleted, deletedAt := some deletedAt, purgeAfter := some purgeAfter
            version := item.version + 1 } false
          s.db s'.db) := by
  obtain ⟨item, hitem, hversion, h⟩ := locked_ok h
  exact ⟨item, hitem, hversion, softDeleteItem_ok (item?_mem hitem) h⟩

theorem restoreItem_ok {accountId : Uuid} {item : MemoryItem} {context : AuditContext}
    {s s' : Session} {a : MemoryItem} (hfind : s.db.memoryItems.find? item.id = some item)
    (h : restoreItem rt accountId item context s = (.ok a, s')) :
    unrestorable item (.utc (rt.clock s.tick)) = false ∧
      Revises rt s.began item
        { item with
          state := .active, deletedAt := none, purgeAfter := none, version := item.version + 1 } true
        s.db s'.db := by
  obtain ⟨now, s₁, hnow, h⟩ := Tx.bind_eq_ok h
  obtain ⟨hclock, rfl⟩ := Prod.mk.inj hnow
  obtain rfl := Except.ok.inj hclock
  obtain ⟨hstate, hgo⟩ := Tx.raiseIf_bind_eq_ok h
  refine ⟨Bool.eq_false_iff.mpr hstate, ?_⟩
  exact ⟨write_index_ok (s := { s with tick := s.tick + 1 }) rfl close_keeps hgo, hfind, rfl⟩

theorem restore_ok {accountId memoryId : Uuid} {expectedVersion : ℤ} {context : AuditContext}
    {s s' : Session} {a : MemoryItem}
    (h : restore rt accountId memoryId expectedVersion context s = (.ok a, s')) :
    ∃ item, item? s.db accountId memoryId = some item ∧ item.version = expectedVersion ∧
      unrestorable item (.utc (rt.clock s.tick)) = false ∧
      Revises rt s.began item
        { item with
          state := .active, deletedAt := none, purgeAfter := none, version := item.version + 1 } true
        s.db s'.db := by
  obtain ⟨item, hitem, hversion, h⟩ := locked_ok h
  exact ⟨item, hitem, hversion, restoreItem_ok (item?_mem hitem) h⟩

/-- The version that `update` writes. -/
def updatedItem (item : MemoryItem) (request : MemoryUpdate) (content : String) : MemoryItem :=
  { assign item request content with version := item.version + 1 }

theorem updateItem_ok {accountId : Uuid} {item : MemoryItem} {request : MemoryUpdate}
    {checked : Except Exc String} {context : AuditContext} {s s' : Session} {a : MemoryItem}
    (hfind : s.db.memoryItems.find? item.id = some item)
    (h : updateItem rt accountId item request checked context s = (.ok a, s')) :
    item.state ≠ .deleted ∧ item.state ≠ .merged ∧ ∃ content, checked = .ok content ∧
      inverted (assign item request content).validFrom (assign item request content).validUntil =
        .ok false ∧
      Revises rt s.began item (updatedItem item request content) true s.db s'.db := by
  obtain ⟨hstate, h⟩ := Tx.raiseIf_bind_eq_ok h
  rw [not_or] at hstate
  obtain ⟨content, s₀, hchecked, h⟩ := Tx.bind_eq_ok h
  obtain ⟨hcontent, rfl⟩ := Prod.mk.inj hchecked
  obtain ⟨u, s₁, hstore, hrest⟩ := Tx.bind_eq_ok h
  obtain ⟨u', s₂, hvalid, hfinish⟩ := Tx.bind_eq_ok hrest
  obtain rfl := store_ok hfind hstore
  obtain ⟨hinv, rfl⟩ := checkValidity_ok hvalid
  refine ⟨hstate.1, hstate.2, content, hcontent, hinv, ⟨?_, hfind, rfl⟩⟩
  have hversion : (updatedItem item request content).version =
      (assign item request content).version + 1 := rfl
  have hwrites : Writes rt s.began (updatedItem item request content) true
      (stored rt s item (assign item request content)).db s'.db :=
    write_index_ok hversion close_keeps hfinish
  -- the row that the first assignments were flushed to is written again
  refine ⟨hwrites.items.trans ?_, hwrites.recorded.congr rfl rfl⟩
  exact Table.put_put (flush_id _ rfl)

theorem update_ok {accountId memoryId : Uuid} {request : MemoryUpdate} {context : AuditContext}
    {s s' : Session} {a : MemoryItem}
    (h : update rt accountId memoryId request context s = (.ok a, s')) :
    ∃ item content, Editable rt s.db accountId memoryId request item content ∧
      inverted (assign item request content).validFrom (assign item request content).validUntil =
        .ok false ∧
      Revises rt s.began item (updatedItem item request content) true s.db s'.db := by
  rw [update_eq] at h
  obtain ⟨item, hitem, hversion, h⟩ := locked_ok h
  rw [Tx.gets_bind_apply] at h
  obtain ⟨hdeleted, hmerged, content, hcontent, hinv, hrevises⟩ := updateItem_ok (item?_mem hitem) h
  exact ⟨item, content, ⟨hitem, hversion, hdeleted, hmerged, hcontent⟩, hinv, hrevises⟩

/-! ### Creation -/

/-- The item that `request` describes has been added; no standing item of the account repeated its
content. -/
structure CreatesFrom (rt : Runtime) (accountId : Uuid) (request : MemoryCreate) (began : DateTime)
    (item : MemoryItem) (db db' : Db) : Prop extends Creates rt item db db' where
  item_eq : ∃ id now, item = newItem id accountId request (initialState request)
    (if initialState request = .active then some now else none) began
  distinct : ∀ other ∈ db.memoryItems, standing accountId other = true →
    canonicalContent rt other.content ≠ canonicalContent rt request.content.val

/-- The checks of `create` pass when no standing item repeats the content. -/
theorem checkCreate_ok {accountId : Uuid} {request : MemoryCreate} {s s' : Session} {u : PUnit}
    (h : checkCreate rt accountId request s = (.ok u, s')) :
    s' = s ∧ ∀ other ∈ s.db.memoryItems, standing accountId other = true →
      canonicalContent rt other.content ≠ canonicalContent rt request.content.val := by
  obtain ⟨-, hvalidity⟩ := Tx.raiseIf_bind_eq_ok h
  obtain ⟨u', s₁, hvalid, hselect⟩ := Tx.bind_eq_ok hvalidity
  obtain ⟨-, rfl⟩ := checkValidity_ok hvalid
  obtain ⟨candidates, s₂, hcandidates, hlegacy⟩ := Tx.bind_eq_ok hselect
  obtain ⟨hvalue, rfl⟩ := Prod.mk.inj hcandidates
  obtain rfl := Except.ok.inj hvalue
  obtain ⟨legacy, s₃, hselected, hraise⟩ := Tx.bind_eq_ok hlegacy
  obtain ⟨-, rfl⟩ := Prod.mk.inj hselected
  obtain ⟨hnone, rfl⟩ := Tx.raiseSome_eq_ok hraise
  refine ⟨rfl, fun other hother hstanding => ?_⟩
  have hmem : other ∈ (Db.memoryItem.get s'.db).select (standing accountId) :=
    List.mem_filter.mpr ⟨hother, hstanding⟩
  rw [Option.map_eq_none_iff, if_neg (by simpa using List.ne_nil_of_mem hmem), List.find?_eq_none] at hnone
  simpa using hnone other hmem

theorem refresh_ok {id : Uuid} {s s' : Session} {a : MemoryItem} (h : refresh id s = (.ok a, s')) :
    s' = s ∧ a.id = id := by
  rw [refresh, Relation.find, Tx.gets_bind_apply] at h
  obtain ⟨hfind, rfl⟩ := Tx.orRaise_eq_ok h
  exact ⟨rfl, Table.key_of_find? hfind⟩

theorem insert_ok {accountId : Uuid} {request : MemoryCreate} {context : AuditContext}
    {s s' : Session} {a : MemoryItem} (h : insert rt accountId request context s = (.ok a, s')) :
    ∃ id now, Creates rt (newItem id accountId request (initialState request)
      (if initialState request = .active then some now else none) s.began) s.db s'.db ∧ a.id = id := by
  obtain ⟨now, s₁, hnow, h₁⟩ := Tx.bind_eq_ok h
  obtain ⟨-, rfl⟩ := Prod.mk.inj hnow
  obtain ⟨id, s₂, hid, h₂⟩ := Tx.bind_eq_ok h₁
  obtain ⟨-, rfl⟩ := Prod.mk.inj hid
  rw [Tx.gets_bind_apply] at h₂
  refine ⟨id, now, ?_⟩
  obtain ⟨u₃, s₃, hadd, h₃⟩ := Tx.bind_eq_ok h₂
  obtain ⟨t, ht, rfl⟩ := Relation.add_eq_ok hadd
  obtain ⟨u₄, s₄, hrecord, h₄⟩ := Tx.bind_eq_ok h₃
  obtain ⟨hitems, hrecorded⟩ := recordVersion_ok hrecord
  obtain ⟨sourceId, s₅, hsource, h₅⟩ := Tx.bind_eq_ok h₄
  obtain ⟨-, rfl⟩ := Prod.mk.inj hsource
  obtain ⟨u₆, s₆, haddSource, h₆⟩ := Tx.bind_eq_ok h₅
  obtain ⟨t', -, rfl⟩ := Relation.add_eq_ok haddSource
  obtain ⟨u₇, s₇, hrequest, h₇⟩ := Tx.bind_eq_ok h₆
  obtain ⟨hitems', hversions, hrequests⟩ := requestIndex_ok hrequest
  obtain ⟨event, s₈, happend, hrefresh⟩ := Tx.bind_eq_ok h₇
  have hrows : s₈.db.memoryRows = s₇.db.memoryRows :=
    (AuditService.append_keeps fun _ _ => rfl).of_apply happend
  obtain ⟨rfl, haid⟩ := refresh_ok hrefresh
  refine ⟨⟨?_, rfl, ?_⟩, haid⟩
  · have hafter : s'.db.memoryItems = t := (congrArg Prod.fst hrows).trans (hitems'.trans hitems)
    rw [hafter]
    exact (Relation.insertRow_eq_ok ht).1
  · refine Recorded.congr (hrecorded.request ?_ ?_) rfl (congrArg Prod.snd hrows)
    · exact hversions
    · exact hrequests

theorem create_ok {accountId : Uuid} {request : MemoryCreate} {context : AuditContext}
    {s s' : Session} {a : MemoryItem} (h : create rt accountId request context s = (.ok a, s')) :
    ∃ item, CreatesFrom rt accountId request s.began item s.db s'.db ∧ a.id = item.id := by
  obtain ⟨u, s₁, hcheck, hinsert⟩ := Tx.bind_eq_ok h
  obtain ⟨rfl, hdistinct⟩ := checkCreate_ok hcheck
  obtain ⟨id, now, hcreates, haid⟩ := insert_ok hinsert
  exact ⟨_, ⟨hcreates, ⟨id, now, rfl⟩, hdistinct⟩, haid⟩

/-! ### Merging -/

/-- The version of a source that `merge` writes. -/
def mergedItem (source : MemoryItem) (mergedId : Uuid) : MemoryItem :=
  { source with state := .merged, mergedIntoId := some mergedId, version := source.version + 1 }

/-- The sources have been marked as merged, one after the other. -/
inductive Merges (rt : Runtime) (mergedId : Uuid) : List MemoryItem → Db → Db → Prop
  | nil {db db' : Db} (hrows : db'.memoryRows = db.memoryRows) : Merges rt mergedId [] db db'
  | cons {began : DateTime} {source : MemoryItem} {rest : List MemoryItem} {db db₁ db' : Db}
      (hrevises : Revises rt began source (mergedItem source mergedId) false db db₁)
      (hrest : Merges rt mergedId rest db₁ db') : Merges rt mergedId (source :: rest) db db'

theorem Merges.congr {mergedId : Uuid} {sources : List MemoryItem} {db db' db'' : Db}
    (h : Merges rt mergedId sources db db') (hrows : db''.memoryRows = db'.memoryRows) :
    Merges rt mergedId sources db db'' := by
  induction h with
  | nil h => exact .nil (hrows.trans h)
  | cons hrevises _ ih => exact .cons hrevises (ih hrows)

/-- Distinct sources that are in the table are all marked. -/
theorem forEach_markMerged_ok {accountId mergedId : Uuid} {sources : List MemoryItem}
    {s s' : Session} {us : List PUnit} (hnodup : (sources.map MemoryItem.id).Nodup)
    (hmem : ∀ source ∈ sources, source ∈ s.db.memoryItems)
    (h : Tx.forEach (markMerged rt accountId mergedId) sources s = (.ok us, s')) :
    Merges rt mergedId sources s.db s'.db := by
  induction sources generalizing s us with
  | nil =>
      obtain ⟨-, rfl⟩ := Prod.mk.inj h
      exact .nil rfl
  | cons source rest ih =>
      obtain ⟨u, s₁, hmark, hrest⟩ := Tx.bind_eq_ok h
      obtain ⟨us', s₂, hmarks, hpure⟩ := Tx.bind_eq_ok hrest
      obtain ⟨-, rfl⟩ := Prod.mk.inj hpure
      obtain ⟨hnot, hnodup⟩ := List.nodup_cons.mp hnodup
      have hsource := hmem source List.mem_cons_self
      have hversion : (mergedItem source mergedId).version = source.version + 1 := rfl
      have hwrites := write_ok hversion hmark
      refine .cons ⟨hwrites, Table.find?_of_mem hsource, hversion⟩ (ih hnodup ?_ hmarks)
      intro other hother
      rw [hwrites.items]
      refine Table.mem_put_iff.mpr (.inl ⟨hmem other (List.mem_cons_of_mem _ hother), ?_⟩)
      rintro he
      exact hnot (List.mem_map.mpr ⟨other, hother, he⟩)

/-- The sources of a merge: the items of the account among the given ones. -/
def sourcesOf (db : Db) (accountId : Uuid) (sourceIds : List Uuid) : List MemoryItem :=
  db.memoryItems.select fun item => item.accountId = accountId ∧ item.id ∈ sourceIds

theorem merge_ok {accountId : Uuid} {sourceIds : List Uuid} {target : MemoryCreate}
    {context : AuditContext} {s s' : Session} {a : MemoryItem}
    (h : merge rt accountId sourceIds target context s = (.ok a, s')) :
    (∀ source ∈ sourcesOf s.db accountId sourceIds, source.state = .active ∨ source.state = .outdated) ∧
    ∃ item db₁, CreatesFrom rt accountId { target with confirmed := true } s.began item s.db db₁ ∧
      Merges rt item.id (sourcesOf s.db accountId sourceIds) db₁ s'.db := by
  obtain ⟨sources, s₁, hcheck, h₁⟩ := Tx.bind_eq_ok h
  obtain ⟨-, hselect⟩ := Tx.raiseIf_bind_eq_ok hcheck
  obtain ⟨sources', s₂, hsources, hraise⟩ := Tx.bind_eq_ok hselect
  obtain ⟨hvalue, rfl⟩ := Prod.mk.inj hsources
  obtain ⟨hstates, hpure⟩ := Tx.raiseIf_bind_eq_ok hraise
  obtain ⟨hsame, rfl⟩ := Prod.mk.inj hpure
  obtain rfl := Except.ok.inj hsame
  obtain rfl := Except.ok.inj hvalue
  obtain ⟨merged, s₃, hcreate, h₃⟩ := Tx.bind_eq_ok h₁
  obtain ⟨item, hcreates, hid⟩ := create_ok hcreate
  obtain ⟨us, s₄, hmarks, hclose⟩ := Tx.bind_eq_ok h₃
  have hopen : ∀ source ∈ sourcesOf s.db accountId sourceIds,
      source.state = .active ∨ source.state = .outdated := by
    intro source hsource
    by_contra hnot
    rw [not_or] at hnot
    exact hstates (.inr (List.any_eq_true.mpr ⟨source, hsource, by simpa using hnot⟩))
  refine ⟨hopen, item, s₃.db, hcreates, ?_⟩
  rw [← hid]
  refine (forEach_markMerged_ok ?_ ?_ hmarks).congr (close_keeps.of_apply hclose)
  · exact (List.filter_sublist.map _).nodup s.db.memoryItems.nodup
  · intro source hsource
    exact (Table.mem_insert? hcreates.items).mpr (.inl (List.mem_filter.mp hsource).1)

/-! ### No refusal commits -/

theorem checkValidity_notDurable (validFrom validUntil : Option DateTime) :
    NotDurable (checkValidity validFrom validUntil) := by
  refine Tx.RaisesOnly.bind ?_ fun bad => Tx.RaisesOnly.raiseIf fun _ => Bool.false_ne_true
  intro s e h
  unfold inverted at h
  split at h
  · split at h
    · simp at h
    · obtain rfl : _ = e := by simpa using h
      exact id
  · simp at h

theorem lockItem_notDurable (accountId memoryId : Uuid) : NotDurable (lockItem accountId memoryId) :=
  (Tx.RaisesOnly.gets _).bind fun _ => Tx.RaisesOnly.orRaise Bool.false_ne_true

theorem versionGuard_notDurable (item : MemoryItem) (expected : ℤ) :
    NotDurable (versionGuard item expected) :=
  Tx.RaisesOnly.raiseIf fun _ => Bool.false_ne_true

theorem close_noDomain {context : AuditContext} {eventType result : String}
    {targetType : Option String} {targetId : Option Uuid} {details : List (String × Json)} {id : Uuid} :
    NoDomain (do
      let _ ← AuditService.append rt context eventType result targetType targetId details
      refresh id) :=
  AuditService.append_noDomain.bind fun _ => refresh_noDomain id

theorem checkCreate_notDurable (accountId : Uuid) (request : MemoryCreate) :
    NotDurable (checkCreate rt accountId request) := by
  refine Tx.RaisesOnly.bind (Tx.RaisesOnly.raiseIf fun _ => Bool.false_ne_true) fun _ => ?_
  refine (checkValidity_notDurable _ _).bind fun _ => ?_
  refine (Tx.RaisesOnly.gets _).bind fun candidates => (Tx.RaisesOnly.gets _).bind fun legacy => ?_
  refine Tx.RaisesOnly.raiseSome fun e he => ?_
  obtain ⟨item, -, rfl⟩ := Option.map_eq_some_iff.mp he
  exact Bool.false_ne_true

theorem create_notDurable (accountId : Uuid) (request : MemoryCreate) (context : AuditContext) :
    NotDurable (create rt accountId request context) :=
  (checkCreate_notDurable _ _).bind fun _ => (insert_noDomain _ _ _).notDurable

theorem confirm_notDurable (accountId memoryId : Uuid) (expectedVersion : ℤ)
    (context : AuditContext) : NotDurable (confirm rt accountId memoryId expectedVersion context) := by
  refine (lockItem_notDurable _ _).bind fun item => (versionGuard_notDurable _ _).bind fun _ => ?_
  refine Tx.RaisesOnly.bind (Tx.RaisesOnly.raiseIf fun _ => Bool.false_ne_true) fun _ => ?_
  apply NoDomain.notDurable
  refine (utcNow_noDomain rt).bind fun now => (store_noDomain _ _).bind fun _ => ?_
  exact (recordVersion_noDomain _ _ _).bind fun _ => close_noDomain

theorem updatedContent_notDurable {db : Db} {accountId : Uuid} {item : MemoryItem}
    {request : MemoryUpdate} {e : Exc} (h : updatedContent rt db accountId item request = .error e) :
    ¬e.Durable := by
  unfold updatedContent at h
  split at h
  · simp at h
  · simp only at h
    split at h
    · obtain rfl := Except.error.inj h
      exact Bool.false_ne_true
    · split at h
      · obtain rfl := Except.error.inj h
        exact Bool.false_ne_true
      · simp at h

theorem update_notDurable (accountId memoryId : Uuid) (request : MemoryUpdate)
    (context : AuditContext) : NotDurable (update rt accountId memoryId request context) := by
  refine Tx.RaisesOnly.bind ?_ fun checked => (store_noDomain _ _).notDurable.bind fun _ =>
    (checkValidity_notDurable _ _).bind fun _ => (finishUpdate_noDomain _ _ _).notDurable
  refine (lockItem_notDurable _ _).bind fun item => (versionGuard_notDurable _ _).bind fun _ => ?_
  refine Tx.RaisesOnly.bind (Tx.RaisesOnly.raiseIf fun _ => Bool.false_ne_true) fun _ => ?_
  intro s e h
  rw [Tx.gets_bind_apply, Tx.bind_apply, Tx.ofExcept_apply] at h
  cases hc : updatedContent rt s.db accountId item request with
  | error e' =>
      rw [hc] at h
      obtain rfl := Except.error.inj h
      exact updatedContent_notDurable hc
  | ok content =>
      rw [hc] at h
      simp at h

theorem softDelete_notDurable (accountId memoryId : Uuid) (expectedVersion retentionDays : ℤ)
    (context : AuditContext) :
    NotDurable (softDelete rt accountId memoryId expectedVersion retentionDays context) := by
  refine (lockItem_notDurable _ _).bind fun item => (versionGuard_notDurable _ _).bind fun _ => ?_
  split
  · exact Tx.RaisesOnly.pure _
  · apply NoDomain.notDurable
    refine (utcNow_noDomain rt).bind fun deletedAt => (utcNow_noDomain rt).bind fun now => ?_
    refine (store_noDomain _ _).bind fun _ => (recordVersion_noDomain _ _ _).bind fun _ => ?_
    exact close_noDomain

theorem restore_notDurable (accountId memoryId : Uuid) (expectedVersion : ℤ)
    (context : AuditContext) : NotDurable (restore rt accountId memoryId expectedVersion context) := by
  refine (lockItem_notDurable _ _).bind fun item => (versionGuard_notDurable _ _).bind fun _ => ?_
  refine (utcNow_noDomain rt).notDurable.bind fun now => ?_
  refine Tx.RaisesOnly.bind (Tx.RaisesOnly.raiseIf fun _ => Bool.false_ne_true) fun _ => ?_
  apply NoDomain.notDurable
  refine (store_noDomain _ _).bind fun _ => (recordVersion_noDomain _ _ _).bind fun _ => ?_
  exact (requestIndex_noDomain _).bind fun _ => close_noDomain

theorem merge_notDurable (accountId : Uuid) (sourceIds : List Uuid) (target : MemoryCreate)
    (context : AuditContext) : NotDurable (merge rt accountId sourceIds target context) := by
  refine Tx.RaisesOnly.bind ?_ fun sources => (create_notDurable _ _ _).bind fun merged => ?_
  · refine Tx.RaisesOnly.bind (Tx.RaisesOnly.raiseIf fun _ => Bool.false_ne_true) fun _ => ?_
    refine (Tx.RaisesOnly.gets _).bind fun sources => ?_
    exact Tx.RaisesOnly.bind (Tx.RaisesOnly.raiseIf fun _ => Bool.false_ne_true) fun _ =>
      Tx.RaisesOnly.pure _
  · apply NoDomain.notDurable
    exact (Tx.RaisesOnly.forEach fun source => markMerged_noDomain _ _ source).bind fun _ =>
      close_noDomain

/-! ### Sequences of operations -/

/-- An operation on the memory of an account. -/
inductive Operation where
  | create (request : MemoryCreate)
  | confirm (memoryId : Uuid) (expectedVersion : ℤ)
  | update (memoryId : Uuid) (request : MemoryUpdate)
  | softDelete (memoryId : Uuid) (expectedVersion retentionDays : ℤ)
  | restore (memoryId : Uuid) (expectedVersion : ℤ)
  | merge (sourceIds : List Uuid) (target : MemoryCreate)

/-- A call of an operation in a session of its own. -/
structure Call where
  operation : Operation
  accountId : Uuid
  context : AuditContext
  began : DateTime

namespace Call

def work (rt : Runtime) (call : Call) : Work MemoryItem :=
  match call.operation with
  | .create request => create rt call.accountId request call.context
  | .confirm memoryId expectedVersion =>
    confirm rt call.accountId memoryId expectedVersion call.context
  | .update memoryId request => update rt call.accountId memoryId request call.context
  | .softDelete memoryId expectedVersion retentionDays =>
    softDelete rt call.accountId memoryId expectedVersion retentionDays call.context
  | .restore memoryId expectedVersion =>
    restore rt call.accountId memoryId expectedVersion call.context
  | .merge sourceIds target => merge rt call.accountId sourceIds target call.context

/-- The outcome of a call and the session after it. -/
def perform (rt : Runtime) (call : Call) (s : Session) : Except Exc MemoryItem × Session :=
  Database.session (call.work rt) { s with began := call.began }

theorem work_notDurable (call : Call) : NotDurable (call.work rt) := by
  unfold work
  split
  · exact create_notDurable _ _ _
  · exact confirm_notDurable _ _ _ _
  · exact update_notDurable _ _ _ _
  · exact softDelete_notDurable _ _ _ _ _
  · exact restore_notDurable _ _ _ _
  · exact merge_notDurable _ _ _ _

end Call

/-- The session after a call; a call that raises is rolled back. -/
def step (rt : Runtime) (s : Session) (call : Call) : Option Session := some (call.perform rt s).2

/-- A step either leaves the rows as they were or is a call that returns. -/
theorem step_cases {s s' : Session} {call : Call} (h : step rt s call = some s') :
    s'.db = s.db ∨ ∃ a, call.work rt { s with began := call.began } = (.ok a, s') := by
  obtain rfl := Option.some.inj h
  unfold Call.perform
  rcases hr : Database.session (call.work rt) { s with began := call.began } with ⟨r, s₁⟩
  rcases Database.session_cases call.work_notDurable hr with ⟨a, -, hok⟩ | hdb
  · exact .inr ⟨a, hok⟩
  · exact .inl hdb

end MemoryService

end KajovoDagmar
