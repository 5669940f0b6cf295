import KajovoDagmar.Memory.Ledger

/-! # Edits of memory items

An edit is what a memory operation still has to do once its checks have passed, on the objects
that its session has of the rows.  An object is the row as it stands, or for the sources of a
merge an earlier version of it; in the ledger of versions the next number of an earlier version
is taken, so that an edit which returns has changed the rows that stand. -/

namespace KajovoDagmar.MemoryService

/-! ### Edits -/

/-- A memory operation whose checks of other rows have passed, with the objects it works on. -/
inductive Edit where
  | create (request : MemoryCreate)
  | confirm (item : MemoryItem)
  | update (item : MemoryItem) (request : MemoryUpdate) (content : String)
  | delete (item : MemoryItem) (retentionDays : ℤ)
  | restore (item : MemoryItem)
  | merge (sourceIds : List Uuid) (sources : List MemoryItem) (target : MemoryCreate)

namespace Edit

def work (rt : Runtime) (accountId : Uuid) (context : AuditContext) : Edit → Work MemoryItem
  | create request => createChecked rt accountId request (.ok ⟨⟩) context
  | confirm item => confirmItem rt accountId item context
  | update item request content => updateItem rt accountId item request (.ok content) context
  | delete item retentionDays => softDeleteItem rt accountId item retentionDays context
  | restore item => restoreItem rt accountId item context
  | merge sourceIds sources target =>
    mergeSources rt accountId sourceIds sources target (.ok ⟨⟩) context

/-- The objects that an edit changes. -/
def objects : Edit → List MemoryItem
  | create _ => []
  | confirm item | update item _ _ | delete item _ | restore item => [item]
  | merge _ sources _ => sources

end Edit

/-- The object is the row as it stands, or it was loaded in an earlier version of the row. -/
def Loaded (db : Db) (x : MemoryItem) : Prop :=
  ∃ row, db.memoryItems.find? x.id = some row ∧ (x = row ∨ 1 ≤ x.version ∧ x.version < row.version)

/-- What a transaction knows about the objects of its edit: they are locked rows, or sources of
a merge, which may have been loaded before they were locked. -/
def Edit.Known (db : Db) : Edit → Prop
  | merge _ sources _ => (sources.map MemoryItem.id).Nodup ∧ ∀ x ∈ sources, Loaded db x
  | e => ∀ x ∈ e.objects, db.memoryItems.find? x.id = some x

/-- What an edit does: the ledger stays complete, and a row either stays as it is or is the
object of the edit and is replaced by its next version. -/
structure Edited (rt : Runtime) (objects : List MemoryItem) (db db' : Db) : Prop where
  complete : (ledger rt db').Complete
  rows : ∀ id row, db.memoryItems.find? id = some row → ∃ row', db'.memoryItems.find? id = some row' ∧
    (row' = row ∨ row ∈ objects ∧ row'.version = row.version + 1)

variable {rt : Runtime}

theorem Edited.refl {db db' : Db} {objects : List MemoryItem} (hc : (ledger rt db).Complete)
    (hrows : db'.memoryRows = db.memoryRows) : Edited rt objects db db' where
  complete := by
    have hquiet : Write rt db db' := .quiet hrows
    exact hquiet.ledger_complete hc
  rows id row hrow := by
    have hitems : db'.memoryItems = db.memoryItems := congrArg Prod.fst hrows
    exact ⟨row, by rw [hitems]; exact hrow, .inl rfl⟩

theorem ledger_congr {db₁ db₂ : Db} (h : db₁.memoryRows = db₂.memoryRows) :
    ledger rt db₁ = ledger rt db₂ := by
  obtain ⟨hitems, hrecords⟩ := Prod.mk.inj h
  unfold ledger
  rw [hitems, (Prod.mk.inj hrecords).1]

/-- Only the memory rows matter. -/
theorem Edited.congr {objects : List MemoryItem} {db₁ db₁' db₂ db₂' : Db}
    (h : Edited rt objects db₁ db₁') (hbefore : db₁.memoryRows = db₂.memoryRows)
    (hafter : db₁'.memoryRows = db₂'.memoryRows) : Edited rt objects db₂ db₂' where
  complete := by
    rw [← ledger_congr hafter]
    exact h.complete
  rows id row hrow := by
    have hitems : db₁.memoryItems = db₂.memoryItems := congrArg Prod.fst hbefore
    have hitems' : db₁'.memoryItems = db₂'.memoryItems := congrArg Prod.fst hafter
    rw [← hitems] at hrow
    rw [← hitems']
    exact h.rows id row hrow

theorem Edit.Known.congr {e : Edit} {db₁ db₂ : Db} (h : e.Known db₁)
    (hrows : db₁.memoryRows = db₂.memoryRows) : e.Known db₂ := by
  have hitems : db₁.memoryItems = db₂.memoryItems := congrArg Prod.fst hrows
  cases e <;> simpa only [Edit.Known, Loaded, hitems] using h

/-- What stands apart from the objects of the first edit is edited by the second one. -/
theorem Edited.trans {objects objects' : List MemoryItem} {db db' db'' : Db}
    (h : Edited rt objects db db') (h' : Edited rt objects' db' db'')
    (hdisjoint : ∀ x ∈ objects, ∀ y ∈ objects', y.id ≠ x.id) :
    Edited rt (objects ++ objects') db db'' where
  complete := h'.complete
  rows id row hrow := by
    obtain ⟨row₁, hrow₁, hfirst⟩ := h.rows id row hrow
    obtain ⟨row₂, hrow₂, hsecond⟩ := h'.rows id row₁ hrow₁
    have hid : row.id = id := Table.key_of_find? hrow
    have hid₁ : row₁.id = id := Table.key_of_find? hrow₁
    refine ⟨row₂, hrow₂, ?_⟩
    rcases hfirst with rfl | ⟨hmem, hversion⟩
    · rcases hsecond with rfl | ⟨hmem, hversion⟩
      · exact .inl rfl
      · exact .inr ⟨List.mem_append_right _ hmem, hversion⟩
    · rcases hsecond with rfl | ⟨hmem', -⟩
      · exact .inr ⟨List.mem_append_left _ hmem, hversion⟩
      · exact absurd (hid₁.trans hid.symm) (hdisjoint row hmem row₁ hmem')

/-- An object stays a row or an earlier version of it. -/
theorem Loaded.edited {objects : List MemoryItem} {db db' : Db} {x : MemoryItem} (h : Loaded db x)
    (hc : (ledger rt db).Complete) (he : Edited rt objects db db') : Loaded db' x := by
  obtain ⟨row, hrow, hx⟩ := h
  obtain ⟨row', hrow', hchange⟩ := he.rows x.id row hrow
  have hpos : 1 ≤ row.version := hc.version_pos (Table.mem_of_find? hrow)
  refine ⟨row', hrow', ?_⟩
  rcases hchange with rfl | ⟨-, hversion⟩
  · exact hx
  · rcases hx with rfl | ⟨hx₁, hx₂⟩
    · exact .inr ⟨hpos, by omega⟩
    · exact .inr ⟨hx₁, by omega⟩

/-- A row that is no object of the edit stays as it is. -/
theorem Edited.find?_eq {objects : List MemoryItem} {db db' : Db} {x : MemoryItem}
    (h : Edited rt objects db db') (hx : db.memoryItems.find? x.id = some x)
    (hnot : ∀ y ∈ objects, y.id ≠ x.id) : db'.memoryItems.find? x.id = some x := by
  obtain ⟨row', hrow', rfl | ⟨hmem, -⟩⟩ := h.rows x.id x hx
  · exact hrow'
  · exact absurd rfl (hnot x hmem)

/-- What is known about the objects of an edit survives another one with other objects. -/
theorem Edit.Known.edited {e : Edit} {objects : List MemoryItem} {db db' : Db} (hk : e.Known db)
    (hc : (ledger rt db).Complete) (he : Edited rt objects db db')
    (hnot : ∀ y ∈ objects, ∀ x ∈ e.objects, y.id ≠ x.id) : e.Known db' := by
  cases e with
  | merge sourceIds sources target => exact ⟨hk.1, fun x hx => (hk.2 x hx).edited hc he⟩
  | _ => exact fun x hx => he.find?_eq (hk x hx) fun y hy => hnot y hy x hx

/-- The objects of an edit have rows. -/
theorem Edit.Known.find? {e : Edit} {db : Db} (hk : e.Known db) {x : MemoryItem}
    (hx : x ∈ e.objects) : ∃ row, db.memoryItems.find? x.id = some row := by
  cases e with
  | merge sourceIds sources target =>
      obtain ⟨row, hrow, -⟩ := hk.2 x hx
      exact ⟨row, hrow⟩
  | _ => exact ⟨x, hk x hx⟩

/-- The objects of an edit are distinct. -/
theorem Edit.Known.unique {e : Edit} {db : Db} (hk : e.Known db) {x y : MemoryItem}
    (hx : x ∈ e.objects) (hy : y ∈ e.objects) (hid : x.id = y.id) : x = y := by
  cases e with
  | merge sourceIds sources target => exact List.inj_on_of_nodup_map hk.1 hx hy hid
  | _ => exact Option.some.inj ((hk x hx).symm.trans (hid ▸ hk y hy))

/-! ### What an edit that returns has written -/

theorem Revises.edited {began : DateTime} {old new : MemoryItem} {indexed : Bool} {db db' : Db}
    {objects : List MemoryItem} (h : Revises rt began old new indexed db db')
    (hc : (ledger rt db).Complete) (hold : old ∈ objects) : Edited rt objects db db' where
  complete := hc.step h.ledger_step
  rows id row hrow := by
    rw [h.items]
    by_cases hid : id = new.id
    · subst hid
      obtain rfl : row = old := Option.some.inj (hrow.symm.trans h.found)
      exact ⟨rowOf rt began new, Table.find?_put_self h.found, .inr ⟨hold, h.version⟩⟩
    · refine ⟨row, ?_, .inl rfl⟩
      rw [Table.find?_put_of_ne (by exact hid)]
      exact hrow

theorem Creates.edited {item : MemoryItem} {db db' : Db} {objects : List MemoryItem}
    (h : Creates rt item db db') (hc : (ledger rt db).Complete) : Edited rt objects db db' where
  complete := hc.step h.ledger_step
  rows _ row hrow := ⟨row, Table.find?_insert? h.items hrow, .inl rfl⟩

/-- A recorded version had no record yet. -/
theorem recordVersion_free {item : MemoryItem} {accountId : Uuid} {changeKind : String}
    {s s' : Session} {u : PUnit} (h : recordVersion rt item accountId changeKind s = (.ok u, s')) :
    ∀ v ∈ s.db.memoryVersions.rows, ¬(v.memoryId = item.id ∧ v.versionNumber = item.version) := by
  obtain ⟨id, s₁, hid, hadd⟩ := Tx.bind_eq_ok h
  obtain ⟨-, rfl⟩ := Prod.mk.inj hid
  obtain ⟨t, ht, -⟩ := Relation.add_eq_ok hadd
  intro v hv hsame
  have hclash := (Relation.insertRow_eq_ok ht).2 v hv
  simp only [Db.memoryVersion] at hclash
  rw [if_pos hsame] at hclash
  simp at hclash

theorem store_versions (old new : MemoryItem) : Tx.Keeps (Same Db.memoryVersions) (store rt old new) := by
  intro s
  unfold store
  split
  · rfl
  · exact Relation.save_keeps (fun _ => rfl) s

/-- **A source that is marked was current**: the number of its next version was free, so the object
is the row as it stands. -/
theorem markLoaded_ok {accountId mergedId : Uuid} {source : MemoryItem} {s s' : Session} {u : PUnit}
    (hc : (ledger rt s.db).Complete) (hl : Loaded s.db source)
    (h : markLoaded rt accountId mergedId source s = (.ok u, s')) :
    Revises rt s.began source (mergedItem source mergedId) false s.db s'.db := by
  unfold markLoaded Relation.find at h
  rw [Tx.gets_bind_apply] at h
  obtain ⟨row, s₀, hrow, hmark⟩ := Tx.bind_eq_ok h
  obtain ⟨hfind, rfl⟩ := Tx.orRaise_eq_ok hrow
  obtain ⟨u₁, s₁, hstore, hrecord⟩ := Tx.bind_eq_ok hmark
  have hversions : s₁.db.memoryVersions = s₀.db.memoryVersions := (store_versions _ _).of_apply hstore
  have hfree := recordVersion_free hrecord
  rw [hversions] at hfree
  obtain ⟨row', hrow', hx⟩ := hl
  obtain rfl : row = row' := Option.some.inj (hfind.symm.trans hrow')
  have hcurrent : source = row := by
    rcases hx with hx | ⟨hpos, hlt⟩
    · exact hx
    · have hmem : row ∈ (ledger rt s₀.db).rows := Table.mem_of_find? hrow'
      have hid : row.id = source.id := Table.key_of_find? hrow'
      have hsame : source.version = row.version := by
        refine hc.eq_version_of_free hmem (by omega) hlt.le ?_
        rintro hin
        obtain ⟨v, hv, hnumber⟩ := List.mem_map.mp hin
        obtain ⟨hv, howner⟩ := List.mem_filter.mp hv
        exact hfree v hv ⟨(of_decide_eq_true howner).trans hid, hnumber⟩
      omega
  subst hcurrent
  have hversion : (mergedItem source mergedId).version = source.version + 1 := rfl
  have hwrite : (do
      store rt source (mergedItem source mergedId)
      recordVersion rt (mergedItem source mergedId) accountId "merged" : Work PUnit) s₀ = (.ok u, s') := hmark
  exact ⟨write_ok hversion hwrite, hrow', hversion⟩

/-- The sources of a merge are marked one after the other. -/
theorem forEach_markLoaded_ok {accountId mergedId : Uuid} {sources : List MemoryItem}
    {s s' : Session} {us : List PUnit} (hc : (ledger rt s.db).Complete)
    (hnodup : (sources.map MemoryItem.id).Nodup) (hl : ∀ x ∈ sources, Loaded s.db x)
    (h : Tx.forEach (markLoaded rt accountId mergedId) sources s = (.ok us, s')) :
    Edited rt sources s.db s'.db := by
  induction sources generalizing s us with
  | nil =>
      obtain ⟨-, rfl⟩ := Prod.mk.inj h
      exact .refl hc rfl
  | cons source rest ih =>
      obtain ⟨u, s₁, hmark, hrest⟩ := Tx.bind_eq_ok h
      obtain ⟨us', s₂, hmarks, hpure⟩ := Tx.bind_eq_ok hrest
      obtain ⟨-, rfl⟩ := Prod.mk.inj hpure
      obtain ⟨hnot, hnodup⟩ := List.nodup_cons.mp hnodup
      have hrevises := markLoaded_ok hc (hl source List.mem_cons_self) hmark
      have hfirst : Edited rt [source] s.db s₁.db := hrevises.edited hc (List.mem_singleton.mpr rfl)
      have hloaded : ∀ x ∈ rest, Loaded s₁.db x :=
        fun x hx => (hl x (List.mem_cons_of_mem _ hx)).edited hc hfirst
      have hrest := ih hfirst.complete hnodup hloaded hmarks
      refine hfirst.trans hrest fun x hx y hy he => ?_
      obtain rfl := List.mem_singleton.mp hx
      exact hnot (List.mem_map.mpr ⟨y, hy, he⟩)

/-- **What an edit does**, whether its objects are locked rows or were loaded before. -/
theorem Edit.work_edited {e : Edit} {accountId : Uuid} {context : AuditContext} {s s' : Session}
    {a : MemoryItem} (hc : (ledger rt s.db).Complete) (hk : e.Known s.db)
    (h : e.work rt accountId context s = (.ok a, s')) : Edited rt e.objects s.db s'.db := by
  cases e with
  | create request =>
      obtain ⟨u, s₁, hchecked, hinsert⟩ := Tx.bind_eq_ok h
      obtain ⟨-, rfl⟩ := Prod.mk.inj hchecked
      obtain ⟨id, now, hcreates, -⟩ := insert_ok hinsert
      exact hcreates.edited hc
  | confirm item =>
      have hmem : item ∈ [item] := List.mem_singleton.mpr rfl
      obtain ⟨-, now, hrevises⟩ := confirmItem_ok (hk item hmem) h
      exact hrevises.edited hc hmem
  | update item request content =>
      have hmem : item ∈ [item] := List.mem_singleton.mpr rfl
      obtain ⟨-, -, content', -, -, hrevises⟩ := updateItem_ok (hk item hmem) h
      exact hrevises.edited hc hmem
  | delete item retentionDays =>
      have hmem : item ∈ [item] := List.mem_singleton.mpr rfl
      rcases softDeleteItem_ok (hk item hmem) h with ⟨-, rfl⟩ | ⟨-, deletedAt, purgeAfter, hrevises⟩
      · exact .refl hc rfl
      · exact hrevises.edited hc hmem
  | restore item =>
      have hmem : item ∈ [item] := List.mem_singleton.mpr rfl
      obtain ⟨-, hrevises⟩ := restoreItem_ok (hk item hmem) h
      exact hrevises.edited hc hmem
  | merge sourceIds sources target =>
      obtain ⟨hnodup, hl⟩ := hk
      obtain ⟨-, h⟩ := Tx.raiseIf_bind_eq_ok h
      obtain ⟨merged, s₁, hcreate, h⟩ := Tx.bind_eq_ok h
      obtain ⟨u, s₀, hchecked, hinsert⟩ := Tx.bind_eq_ok hcreate
      obtain ⟨-, rfl⟩ := Prod.mk.inj hchecked
      obtain ⟨id, now, hcreates, -⟩ := insert_ok hinsert
      obtain ⟨us, s₂, hmarks, hclose⟩ := Tx.bind_eq_ok h
      have hcreated : Edited rt [] s.db s₁.db := hcreates.edited hc
      have hloaded : ∀ x ∈ sources, Loaded s₁.db x := fun x hx => (hl x hx).edited hc hcreated
      have hmarked := forEach_markLoaded_ok hcreated.complete hnodup hloaded hmarks
      have hclosed : Edited rt [] s₂.db s'.db := .refl hmarked.complete (close_keeps.of_apply hclose)
      have hboth := hcreated.trans hmarked fun x hx => absurd hx List.not_mem_nil
      have hall := hboth.trans hclosed fun x _ y hy => absurd hy List.not_mem_nil
      rw [List.append_nil] at hall
      exact hall

/-! ### Edits that are refused -/

/-- The edit is an update that is refused after it has changed the row: the item is open to
changes, the assigned bounds of its validity are inverted, and the assigned row is not the
stored one. -/
def Edit.Late (rt : Runtime) (began : DateTime) : Edit → Prop
  | update item request content => item.state ≠ .deleted ∧ item.state ≠ .merged ∧
      inverted (assign item request content).validFrom (assign item request content).validUntil =
        .ok true ∧
      MemoryItem.flush rt began item (assign item request content) ≠ item
  | _ => False

theorem markLoaded_noDomain (accountId mergedId : Uuid) (source : MemoryItem) :
    NoDomain (markLoaded rt accountId mergedId source) := by
  unfold markLoaded
  refine (Tx.RaisesOnly.gets _).bind fun row => ?_
  refine (orRaise_noDomain _ _).bind fun row => ?_
  exact (store_noDomain _ _).bind fun _ => recordVersion_noDomain _ _ _

/-- What a merge writes once its checks have passed raises no domain error. -/
theorem merge_noDomain (accountId : Uuid) (sources : List MemoryItem) (request : MemoryCreate)
    (context : AuditContext) (details : List (String × Json)) :
    NoDomain (do
      let merged ← createChecked rt accountId request (.ok ⟨⟩) context
      let _ ← Tx.forEach (markLoaded rt accountId merged.id) sources
      let _ ← AuditService.append rt context "memory.merged" "success" none (some merged.id)
        details
      refresh merged.id) := by
  refine ((Tx.RaisesOnly.pure _).bind fun _ => insert_noDomain _ _ _).bind fun merged => ?_
  exact (Tx.RaisesOnly.forEach fun source => markLoaded_noDomain _ _ source).bind fun _ => close_noDomain

/-- An update is refused before it writes or for its validity. -/
theorem updateItem_error {accountId : Uuid} {item : MemoryItem} {request : MemoryUpdate}
    {content : String} {context : AuditContext} {s s' : Session} {x : Exc}
    (hfind : s.db.memoryItems.find? item.id = some item)
    (h : updateItem rt accountId item request (.ok content) context s = (.error x, s'))
    (hx : x.IsDomain) : s' = s ∨ (item.state ≠ .deleted ∧ item.state ≠ .merged ∧
      inverted (assign item request content).validFrom (assign item request content).validUntil =
        .ok true ∧ s' = stored rt s item (assign item request content)) := by
  unfold updateItem at h
  by_cases hstate : item.state = .deleted ∨ item.state = .merged
  · rw [Tx.raiseIf_pos hstate, Tx.raise_bind] at h
    exact .inl (Prod.mk.inj h).2.symm
  · rw [Tx.raiseIf_neg hstate, Tx.pure_bind] at h
    have hcontent : (Tx.ofExcept (.ok content) : Work String) s = (.ok content, s) := rfl
    rw [Tx.bind_of_ok hcontent] at h
    rcases Tx.bind_eq_error h with hstore | ⟨u, s₁, hstore, h⟩
    · exact absurd hx (store_noDomain _ _ s x (by rw [hstore]))
    obtain rfl := store_ok hfind hstore
    rcases Tx.bind_eq_error h with hvalid | ⟨u', s₂, -, hfinish⟩
    · obtain ⟨hinv, rfl⟩ := checkValidity_error hvalid hx
      rw [not_or] at hstate
      exact .inr ⟨hstate.1, hstate.2, hinv, rfl⟩
    · exact absurd hx (finishUpdate_noDomain _ _ _ s₂ x (by rw [hfinish]))

/-- An edit that is refused has written nothing, unless it is an update that is refused late. -/
theorem Edit.work_error {e : Edit} {accountId : Uuid} {context : AuditContext} {s s' : Session}
    {x : Exc} (hk : e.Known s.db) (hlate : ¬e.Late rt s.began)
    (h : e.work rt accountId context s = (.error x, s')) (hx : x.IsDomain) :
    s'.db.memoryRows = s.db.memoryRows := by
  have hclean : ∀ {m : Work MemoryItem}, Tx.Clean Exc.IsDomain (Same Db.memoryRows) m →
      m s = (.error x, s') → s'.db.memoryRows = s.db.memoryRows := by
    intro m hm hr
    have hsame := hm s x (by rw [hr]) hx
    rw [hr] at hsame
    exact hsame
  cases e with
  | create request =>
      refine hclean (Tx.RaisesOnly.clean ?_) h
      exact (Tx.RaisesOnly.pure _).bind fun _ => insert_noDomain _ _ _
  | confirm item =>
      refine hclean (Tx.Clean.bind_of_keeps (Tx.Keeps.raiseIf _ _) fun _ => Tx.RaisesOnly.clean ?_) h
      refine (utcNow_noDomain rt).bind fun now => (store_noDomain _ _).bind fun _ => ?_
      exact (recordVersion_noDomain _ _ _).bind fun _ => close_noDomain
  | update item request content =>
      have hfind := hk item (List.mem_singleton.mpr rfl)
      rcases updateItem_error hfind h hx with rfl | ⟨hdeleted, hmerged, hinv, rfl⟩
      · rfl
      · have hflush : MemoryItem.flush rt s.began item (assign item request content) = item := by
          by_contra hne
          exact hlate ⟨hdeleted, hmerged, hinv, hne⟩
        have hput : s.db.memoryItems.put item = s.db.memoryItems :=
          Table.put_of_mem (Table.mem_of_find? hfind)
        rw [stored, hflush, hput]
  | delete item retentionDays =>
      change softDeleteItem rt accountId item retentionDays context s = (.error x, s') at h
      unfold softDeleteItem at h
      by_cases hdeleted : item.state = .deleted
      · rw [if_pos hdeleted] at h
        simp at h
      · rw [if_neg hdeleted] at h
        refine hclean (Tx.RaisesOnly.clean ?_) h
        refine (utcNow_noDomain rt).bind fun deletedAt => (utcNow_noDomain rt).bind fun now => ?_
        refine (store_noDomain _ _).bind fun _ => (recordVersion_noDomain _ _ _).bind fun _ => ?_
        exact close_noDomain
  | restore item =>
      refine hclean (Tx.Clean.bind_of_keeps (Same.utcNow rt) fun now => ?_) h
      refine Tx.Clean.bind_of_keeps (Tx.Keeps.raiseIf _ _) fun _ => Tx.RaisesOnly.clean ?_
      refine (store_noDomain _ _).bind fun _ => (recordVersion_noDomain _ _ _).bind fun _ => ?_
      exact (requestIndex_noDomain _).bind fun _ => close_noDomain
  | merge sourceIds sources target =>
      refine hclean (Tx.Clean.bind_of_keeps (Tx.Keeps.raiseIf _ _) fun _ => Tx.RaisesOnly.clean ?_) h
      exact merge_noDomain _ _ _ _ _

/-- No refusal of an edit makes its session commit. -/
theorem Edit.work_notDurable (e : Edit) (accountId : Uuid) (context : AuditContext) :
    NotDurable (e.work rt accountId context) := by
  have hraise : ∀ (p : Prop) [Decidable p] (d : DomainError), d.durable = false →
      NotDurable (Tx.raiseIf p (.domain d)) := by
    intro p _ d hd
    refine Tx.RaisesOnly.raiseIf fun _ => ?_
    simp [Exc.Durable, hd]
  cases e with
  | create request =>
      apply NoDomain.notDurable
      exact (Tx.RaisesOnly.pure _).bind fun _ => insert_noDomain _ _ _
  | confirm item =>
      refine (hraise _ _ rfl).bind fun _ => NoDomain.notDurable ?_
      refine (utcNow_noDomain rt).bind fun now => (store_noDomain _ _).bind fun _ => ?_
      exact (recordVersion_noDomain _ _ _).bind fun _ => close_noDomain
  | update item request content =>
      refine (hraise _ _ rfl).bind fun _ => (Tx.RaisesOnly.pure _).bind fun content => ?_
      refine (store_noDomain _ _).notDurable.bind fun _ => ?_
      exact (checkValidity_notDurable _ _).bind fun _ => (finishUpdate_noDomain _ _ _).notDurable
  | delete item retentionDays =>
      change NotDurable (softDeleteItem rt accountId item retentionDays context)
      unfold softDeleteItem
      split
      · exact Tx.RaisesOnly.pure _
      · apply NoDomain.notDurable
        refine (utcNow_noDomain rt).bind fun deletedAt => (utcNow_noDomain rt).bind fun now => ?_
        refine (store_noDomain _ _).bind fun _ => (recordVersion_noDomain _ _ _).bind fun _ => ?_
        exact close_noDomain
  | restore item =>
      refine (utcNow_noDomain rt).notDurable.bind fun now => ?_
      refine (hraise _ _ rfl).bind fun _ => NoDomain.notDurable ?_
      refine (store_noDomain _ _).bind fun _ => (recordVersion_noDomain _ _ _).bind fun _ => ?_
      exact (requestIndex_noDomain _).bind fun _ => close_noDomain
  | merge sourceIds sources target =>
      refine (hraise _ _ rfl).bind fun _ => NoDomain.notDurable ?_
      exact merge_noDomain _ _ _ _ _

end KajovoDagmar.MemoryService
