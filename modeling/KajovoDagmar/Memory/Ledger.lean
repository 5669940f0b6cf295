import KajovoDagmar.Db.Sample
import KajovoDagmar.Library.VersionLedger
import KajovoDagmar.Memory.Revisions

/-! # The version ledger of the memory

The items and the rows of `memory_version` form a ledger of versions in the sense of
`Library.VersionLedger`: every operation that returns is a sequence of its steps, so the ledger
is complete after every sequence of operations.  The snapshot of a version has the dates as the
operation received them, while the row has the instants that the driver stored for them. -/

namespace KajovoDagmar.MemoryService

variable {rt : Runtime}

/-- Items as versioned rows; the record of a version is made of an item whose row it describes. -/
def versioning (rt : Runtime) : Versioning MemoryItem MemoryVersion Uuid where
  key := MemoryItem.id
  version := MemoryItem.version
  owner := MemoryVersion.memoryId
  number := MemoryVersion.versionNumber
  Describes v row := ∃ entered, v.Records rt entered ∧ rowOf rt row.updatedAt entered = row

/-- The ledger that the rows of a database form. -/
def ledger (rt : Runtime) (db : Db) : Ledger (versioning rt) where
  rows := db.memoryItems
  records := db.memoryVersions.rows

/-- The version rows of an item, oldest first. -/
def versionsOf (db : Db) (memoryId : Uuid) : List MemoryVersion :=
  db.memoryVersions.rows.filter fun v => v.memoryId = memoryId

/-- The sequences of the requests to index an item. -/
def sequencesOf (db : Db) (memoryId : Uuid) : List ℤ :=
  (db.indexRequests.filter fun r => r.1 = memoryId).map Prod.snd

/-- There are no items yet, no versions and no requests to index any. -/
structure NoMemories (db : Db) : Prop where
  items : db.memoryItems.rows = []
  versions : db.memoryVersions.rows = []
  requests : db.indexRequests = []

/-! ### Operations as writes of single items -/

/-- One item added or revised, or nothing written to the memory. -/
inductive Write (rt : Runtime) (db db' : Db) : Prop
  | create {item : MemoryItem} (h : Creates rt item db db')
  | revise {began : DateTime} {old new : MemoryItem} {indexed : Bool}
      (h : Revises rt began old new indexed db db')
  | quiet (h : db'.memoryRows = db.memoryRows)

theorem Merges.writes {mergedId : Uuid} {sources : List MemoryItem} {db db' : Db}
    (h : Merges rt mergedId sources db db') : Relation.ReflTransGen (Write rt) db db' := by
  induction h with
  | nil hrows => exact .single (.quiet hrows)
  | cons hrevises _ ih => exact ih.head (.revise hrevises)

/-- An operation that returns writes single items, one after the other. -/
theorem Call.work_writes {call : Call} {s s' : Session} {a : MemoryItem}
    (h : call.work rt s = (.ok a, s')) : Relation.ReflTransGen (Write rt) s.db s'.db := by
  obtain ⟨operation, accountId, context, began⟩ := call
  cases operation with
  | create request =>
      obtain ⟨item, hcreates, -⟩ := create_ok h
      exact .single (.create hcreates.toCreates)
  | confirm memoryId expectedVersion =>
      obtain ⟨item, now, -, -, -, hrevises⟩ := confirm_ok h
      exact .single (.revise hrevises)
  | update memoryId request =>
      obtain ⟨item, content, -, -, hrevises⟩ := update_ok h
      exact .single (.revise hrevises)
  | softDelete memoryId expectedVersion retentionDays =>
      obtain ⟨item, -, -, ⟨-, rfl⟩ | ⟨-, deletedAt, purgeAfter, hrevises⟩⟩ := softDelete_ok h
      · exact .refl
      · exact .single (.revise hrevises)
  | restore memoryId expectedVersion =>
      obtain ⟨item, -, -, -, hrevises⟩ := restore_ok h
      exact .single (.revise hrevises)
  | merge sourceIds target =>
      obtain ⟨-, item, db₁, hcreates, hmerges⟩ := merge_ok h
      exact hmerges.writes.head (.create hcreates.toCreates)

/-! ### The ledger is complete -/

theorem Creates.ledger_step {item : MemoryItem} {db db' : Db} (h : Creates rt item db db') :
    Ledger.Step (ledger rt db) (ledger rt db') := by
  obtain ⟨v, hrows, hrecords⟩ := h.recorded.versions
  have hof : (versioning rt).Of v (item.bind rt) :=
    ⟨hrecords.memoryId, hrecords.versionNumber, item, hrecords, rfl⟩
  have hafter : ledger rt db' = ⟨db'.memoryItems, (ledger rt db).records ++ [v]⟩ :=
    congrArg (Ledger.mk (G := versioning rt) db'.memoryItems) hrows
  rw [hafter]
  exact .create (L := ledger rt db) h.items h.version hof

theorem Revises.ledger_step {began : DateTime} {old new : MemoryItem} {indexed : Bool} {db db' : Db}
    (h : Revises rt began old new indexed db db') :
    Ledger.Step (ledger rt db) (ledger rt db') := by
  obtain ⟨v, hrows, hrecords⟩ := h.recorded.versions
  have hof : (versioning rt).Of v (rowOf rt began new) :=
    ⟨hrecords.memoryId, hrecords.versionNumber, new, hrecords, rfl⟩
  have hafter : ledger rt db' =
      ⟨(ledger rt db).rows.put (rowOf rt began new), (ledger rt db).records ++ [v]⟩ := by
    unfold ledger
    rw [hrows, h.items]
    rfl
  rw [hafter]
  exact .revise (L := ledger rt db) h.found h.version hof

theorem Write.ledger_complete {db db' : Db} (h : Write rt db db') (hc : (ledger rt db).Complete) :
    (ledger rt db').Complete := by
  cases h with
  | create h => exact hc.step h.ledger_step
  | revise h => exact hc.step h.ledger_step
  | quiet h =>
      have hsame : ledger rt db' = ledger rt db := by
        obtain ⟨hitems, hrecords⟩ := Prod.mk.inj h
        rw [ledger, hitems, (Prod.mk.inj hrecords).1]
        rfl
      rw [hsame]
      exact hc

/-! ### The requests to index -/

/-- Every request is for a version that an item has had, each version once and in order. -/
structure Requested (db : Db) : Prop where
  ordered : ∀ memoryId, (sequencesOf db memoryId).Pairwise (· < ·)
  bounded : ∀ r ∈ db.indexRequests, ∃ item ∈ db.memoryItems, item.id = r.1 ∧ r.2 ≤ item.version

theorem mem_sequencesOf {db : Db} {memoryId : Uuid} {n : ℤ} :
    n ∈ sequencesOf db memoryId ↔ (memoryId, n) ∈ db.indexRequests := by
  simp only [sequencesOf, List.mem_map, List.mem_filter, decide_eq_true_eq, Prod.exists,
    exists_eq_right]

/-- A request beyond the earlier ones of its item. -/
theorem sequencesOf_pairwise {db db' : Db} {item : MemoryItem} {indexed : Bool}
    (hordered : ∀ memoryId, (sequencesOf db memoryId).Pairwise (· < ·))
    (hbeyond : ∀ n ∈ sequencesOf db item.id, n < item.version)
    (hrequests : db'.indexRequests = db.indexRequests ++ if indexed then [(item.id, item.version)] else [])
    (memoryId : Uuid) : (sequencesOf db' memoryId).Pairwise (· < ·) := by
  unfold sequencesOf at hordered hbeyond ⊢
  rw [hrequests, List.filter_append, List.map_append]
  by_cases h : indexed = true ∧ item.id = memoryId
  · obtain ⟨hindexed, rfl⟩ := h
    simp only [hindexed, if_true, List.filter_cons, decide_true, List.filter_nil, List.map_cons, List.map_nil]
    rw [List.pairwise_append]
    refine ⟨hordered item.id, List.pairwise_singleton _ _, ?_⟩
    intro n hn m hm
    obtain rfl := List.mem_singleton.mp hm
    exact hbeyond n hn
  · have hnone : (if indexed then [(item.id, item.version)] else []).filter
        (fun r : Uuid × ℤ => decide (r.1 = memoryId)) = [] := by
      cases indexed with
      | false => rfl
      | true => simpa using h
    rw [hnone, List.map_nil, List.append_nil]
    exact hordered memoryId

theorem Requested.create {item : MemoryItem} {db db' : Db} (h : Requested db)
    (hc : Creates rt item db db') : Requested db' := by
  have hrequests := hc.recorded.requests
  constructor
  · refine sequencesOf_pairwise h.ordered ?_ hrequests
    intro n hn
    obtain ⟨x, hx, hid, -⟩ := h.bounded _ (mem_sequencesOf.mp hn)
    exact absurd (List.mem_map.mpr ⟨x, hx, hid⟩) (Table.insert?_eq_some hc.items).2
  · intro r hr
    rw [hrequests] at hr
    rcases List.mem_append.mp hr with hr | hr
    · obtain ⟨x, hx, hid, hle⟩ := h.bounded r hr
      exact ⟨x, (Table.mem_insert? hc.items).mpr (.inl hx), hid, hle⟩
    · obtain rfl := List.mem_singleton.mp hr
      exact ⟨item.bind rt, (Table.mem_insert? hc.items).mpr (.inr rfl), rfl, le_refl _⟩

theorem Requested.revise {began : DateTime} {old new : MemoryItem} {indexed : Bool} {db db' : Db}
    (h : Requested db) (hr : Revises rt began old new indexed db db') : Requested db' := by
  have hrequests := hr.recorded.requests
  have hold := Table.mem_of_find? hr.found
  have hkey := Table.key_of_find? hr.found
  have hversion := hr.version
  constructor
  · refine sequencesOf_pairwise h.ordered ?_ hrequests
    intro n hn
    obtain ⟨x, hx, hid, hle⟩ := h.bounded _ (mem_sequencesOf.mp hn)
    obtain rfl := Table.eq_of_key hx hold (hid.trans hkey.symm)
    simp only at hle
    omega
  · have hnew : rowOf rt began new ∈ db'.memoryItems := by
      rw [hr.items]
      exact Table.mem_put_iff.mpr (.inr ⟨rfl, old, hold, hkey⟩)
    intro r hmem
    rw [hrequests] at hmem
    rcases List.mem_append.mp hmem with hmem | hmem
    · obtain ⟨x, hx, hid, hle⟩ := h.bounded r hmem
      by_cases hxn : x.id = new.id
      · refine ⟨rowOf rt began new, hnew, hxn.symm.trans hid, ?_⟩
        obtain rfl := Table.eq_of_key hx hold (hxn.trans hkey.symm)
        change r.2 ≤ new.version
        omega
      · rw [hr.items]
        exact ⟨x, Table.mem_put_iff.mpr (.inl ⟨hx, hxn⟩), hid, hle⟩
    · cases indexed with
      | false => simp at hmem
      | true =>
          obtain rfl := List.mem_singleton.mp hmem
          exact ⟨rowOf rt began new, hnew, rfl, le_refl _⟩

theorem Write.requested {db db' : Db} (h : Write rt db db') (hr : Requested db) : Requested db' := by
  cases h with
  | create h => exact hr.create h
  | revise h => exact hr.revise h
  | quiet h =>
      obtain ⟨hitems, hrecords⟩ := Prod.mk.inj h
      have hrequests : db'.indexRequests = db.indexRequests := by
        rw [Db.indexRequests, Db.indexRequests, (Prod.mk.inj hrecords).2]
      constructor
      · unfold sequencesOf
        rw [hrequests]
        exact hr.ordered
      · rw [hrequests, hitems]
        exact hr.bounded

/-! ### Every sequence of operations -/

/-- The ledger is complete and every request to index is for one of its versions. -/
structure Kept (rt : Runtime) (db : Db) : Prop where
  complete : (ledger rt db).Complete
  requested : Requested db

theorem NoMemories.kept {db : Db} (h : NoMemories db) : Kept rt db where
  complete := by
    have hempty : ledger rt db = ⟨.empty, []⟩ := by
      unfold ledger
      congr 1
      · exact Table.ext h.items
      · exact h.versions
    rw [hempty]
    exact .empty
  requested := by
    constructor
    · intro memoryId
      rw [sequencesOf, h.requests]
      exact .nil
    · rw [h.requests]
      exact fun r hr => absurd hr List.not_mem_nil

theorem Kept.writes {db db' : Db} (hw : Relation.ReflTransGen (Write rt) db db') (h : Kept rt db) :
    Kept rt db' := by
  induction hw with
  | refl => exact h
  | tail _ hw ih => exact ⟨hw.ledger_complete ih.complete, hw.requested ih.requested⟩

/-- **Step lemma**: every call keeps the ledger. -/
theorem Kept.of_step {s s' : Session} {call : Call} (h : Kept rt s.db)
    (hs : step rt s call = some s') : Kept rt s'.db := by
  rcases step_cases hs with hdb | ⟨a, hwork⟩
  · rw [hdb]
    exact h
  · exact h.writes (Call.work_writes hwork)

/-- The version row `v` describes the row `item`; its snapshot was taken of the item as it was
entered, with the dates that the driver stored as those of the row. -/
structure Latest (rt : Runtime) (v : MemoryVersion) (item : MemoryItem) : Prop where
  versionNumber : v.versionNumber = item.version
  content : v.content = item.content
  category : v.category = item.category
  state : v.state = item.state
  snapshot : ∃ entered, v.snapshot = snapshot rt entered ∧ rowOf rt item.updatedAt entered = item

/-- **The version ledger of every sequence of operations**: an item's version rows carry the
numbers from 1 to its version, the last of them describes the item, and the requests to index it
are for distinct versions that it has had. -/
theorem ledger_kept {s t : Session} {calls : List Call} (h₀ : NoMemories s.db)
    (hrun : Runs.run (step rt) s calls = some t) :
    ∀ item ∈ t.db.memoryItems,
      (versionsOf t.db item.id).map MemoryVersion.versionNumber = Ledger.upTo item.version ∧
      (∃ v, (versionsOf t.db item.id).getLast? = some v ∧ Latest rt v item) ∧
      (sequencesOf t.db item.id).Nodup ∧ ∀ n ∈ sequencesOf t.db item.id, n ≤ item.version := by
  have h : Kept rt t.db :=
    Runs.inv_of_run (I := fun s => Kept rt s.db) (fun _ _ _ h hs => h.of_step hs) h₀.kept hrun
  intro item hitem
  refine ⟨h.complete.numbers item hitem, ?_, ?_, ?_⟩
  · obtain ⟨v, hlast, hof⟩ := h.complete.latest item hitem
    obtain ⟨entered, hrecords, hrow⟩ := hof.describes
    refine ⟨v, hlast, hof.number, ?_, ?_, ?_, entered, hrecords.snapshot, hrow⟩
    · exact hrecords.content.trans (congrArg MemoryItem.content hrow :)
    · exact hrecords.category.trans (congrArg MemoryItem.category hrow :)
    · exact hrecords.state.trans (congrArg MemoryItem.state hrow :)
  · exact (h.requested.ordered item.id).imp fun hlt => hlt.ne
  · intro n hn
    obtain ⟨x, hx, hid, hle⟩ := h.requested.bounded _ (mem_sequencesOf.mp hn)
    obtain rfl := Table.eq_of_key hx hitem hid
    exact hle

/-! ### An event entered in local time -/

/-- The UTC offset of an ISO text, in hours and minutes. -/
def offsetText (offset : ℤ) : String :=
  let minutes := offset.natAbs / 60000000
  (if offset < 0 then "-" else "+") ++ Runtime.padded 2 (minutes / 60) ++ ":" ++
    Runtime.padded 2 (minutes % 60)

/-- The sample runtime with the ISO texts of datetimes in any zone. -/
def zonedRuntime : Runtime := { Runtime.sample 1767225600000000 [] with
  isoformat := fun d => Runtime.isoText (d.utcoffset.elim "" offsetText) d.wall }

def emptySession : Session where
  began := .utc 1767225600000000
  db := {}

/-- A meeting on 2026-01-01 at 10:00 in Prague. -/
def meeting : MemoryCreate where
  content := ⟨"Schůzka s Janou", by decide +kernel⟩
  category := .event
  originType := .manual
  sourceConversationId := none
  sourceMessageId := none
  originalExpression := none
  eventAt := some ⟨1767261600000000, some 3600000000⟩
  validFrom := none
  validUntil := none
  keywords := ⟨[], by decide⟩
  confirmed := true

def callOf (operation : Operation) : Call :=
  ⟨operation, 1, { actorType := "user", actorId := some 1 }, .utc 1767225600000000⟩

theorem emptySession_noMemories : NoMemories emptySession.db := ⟨rfl, rfl, rfl⟩

/-- The last snapshot of an item need not be the one of its current columns: the meeting was
entered in local time and is stored in UTC. -/
theorem snapshot_as_entered : ¬∀ (rt : Runtime) (s t : Session) (calls : List Call),
    NoMemories s.db → Runs.run (step rt) s calls = some t → ∀ item ∈ t.db.memoryItems,
      (versionsOf t.db item.id).map MemoryVersion.versionNumber = Ledger.upTo item.version ∧
      (∃ v, (versionsOf t.db item.id).getLast? = some v ∧ v.content = item.content ∧
        v.category = item.category ∧ v.state = item.state ∧ v.snapshot = snapshot rt item) ∧
      (sequencesOf t.db item.id).Nodup ∧ ∀ n ∈ sequencesOf t.db item.id, n ≤ item.version := by
  intro h
  have hrun : (match Runs.run (step zonedRuntime) emptySession [callOf (.create meeting)] with
      | some t => t.db.memoryItems.rows.any fun item =>
          (versionsOf t.db item.id).getLast?.all fun v =>
            decide (v.snapshot.dumpsSorted ≠ (snapshot zonedRuntime item).dumpsSorted)
      | none => false) = true := by
    decide +kernel
  rcases ht : Runs.run (step zonedRuntime) emptySession [callOf (.create meeting)] with _ | t <;>
    simp only [ht] at hrun
  · simp at hrun
  obtain ⟨item, hitem, hdiffers⟩ := List.any_eq_true.mp hrun
  obtain ⟨-, ⟨v, hlast, -, -, -, hsnapshot⟩, -⟩ :=
    h zonedRuntime emptySession t _ emptySession_noMemories ht item hitem
  rw [hlast, Option.all_some, decide_eq_true_eq] at hdiffers
  exact hdiffers (congrArg Json.dumpsSorted hsnapshot)

/-- A meeting that is entered and then deleted has two versions. -/
theorem ledger_kept_deleting : ∃ t, Runs.run (step zonedRuntime) emptySession
      [callOf (.create meeting), callOf (.softDelete (2 ^ 64 + 1) 1 30)] = some t ∧
    t.db.memoryItems.rows.map MemoryItem.version = [2] ∧
    ∀ item ∈ t.db.memoryItems,
      (versionsOf t.db item.id).map MemoryVersion.versionNumber = Ledger.upTo item.version ∧
      (∃ v, (versionsOf t.db item.id).getLast? = some v ∧ Latest zonedRuntime v item) ∧
      (sequencesOf t.db item.id).Nodup ∧ ∀ n ∈ sequencesOf t.db item.id, n ≤ item.version := by
  have hrun : (match Runs.run (step zonedRuntime) emptySession
        [callOf (.create meeting), callOf (.softDelete (2 ^ 64 + 1) 1 30)] with
      | some t => decide (t.db.memoryItems.rows.map MemoryItem.version = [2])
      | none => false) = true := by
    decide +kernel
  rcases ht : Runs.run (step zonedRuntime) emptySession
      [callOf (.create meeting), callOf (.softDelete (2 ^ 64 + 1) 1 30)] with _ | t <;>
    simp only [ht] at hrun
  · simp at hrun
  exact ⟨t, rfl, of_decide_eq_true hrun, ledger_kept emptySession_noMemories ht⟩

end KajovoDagmar.MemoryService
