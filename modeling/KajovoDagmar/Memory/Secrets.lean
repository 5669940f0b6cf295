import Mathlib.Data.List.ReduceOption
import KajovoDagmar.Memory.Live

/-! # Secrets in the memory

Which texts the memory stores, over every sequence of operations.  A content is stored only after
`contains_secret_instruction` has been asked of it.  The original expression and the keywords of a
request are stored as they come, and nothing removes them again. -/

namespace KajovoDagmar

/-! ### The texts of the memory -/

/-- The texts of an item. -/
def MemoryItem.texts (item : MemoryItem) : List String :=
  item.content :: (item.originalExpression.toList ++ item.keywords)

def Json.strings (values : List Json) : List String :=
  values.filterMap fun
    | .str s => some s
    | _ => none

/-- The content and the keywords of a snapshot. -/
def MemoryVersion.snapshotTexts (v : MemoryVersion) : List String :=
  Json.strings (v.snapshot.get? "content").toList ++
    match v.snapshot.get? "keywords" with
    | some (.arr keywords) => Json.strings keywords
    | _ => []

def MemoryVersion.texts (v : MemoryVersion) : List String := v.content :: v.snapshotTexts

def Db.excerpts (db : Db) : List (Option String) := db.memorySources.rows.map MemorySource.sourceExcerpt

/-- The texts that the tables of the memory store. -/
def Db.memoryTexts (db : Db) : List String :=
  db.memoryItems.rows.flatMap MemoryItem.texts ++
    (db.memoryVersions.rows.flatMap MemoryVersion.texts ++ db.excerpts.reduceOption)

namespace MemoryService

variable {rt : Runtime}

/-- The keywords that an item takes from its request. -/
def givenKeywords (request : MemoryCreate) : List String :=
  PythonText.sortedSet ((request.keywords.val.filter fun k => PythonText.strip k ≠ "").map PythonText.strip)

/-- The texts of a request that are stored without a check. -/
def uncheckedOf (request : MemoryCreate) : List String :=
  request.originalExpression.toList ++ givenKeywords request

def Operation.unchecked : Operation → List String
  | .create request => uncheckedOf request
  | .merge _ target => uncheckedOf target
  | _ => []

/-- The call returns, and a text that it stores without a check is a secret. -/
def Confides (rt : Runtime) (s : Session) (call : Call) : Prop :=
  (call.work rt { s with began := call.began }).1.isOk = true ∧
    ∃ text ∈ call.operation.unchecked, containsSecretInstruction rt text = true

instance (s : Session) : DecidablePred (Confides rt s) := fun _ => inferInstanceAs (Decidable (_ ∧ _))

/-! ### The sources of a memory -/

/-- Nothing but a creation writes the sources. -/
abbrev KeepsSources {α : Type} (m : Work α) : Prop := Tx.Keeps (Same Db.memorySources) m

theorem store_keepsSources (old new : MemoryItem) : KeepsSources (store rt old new) := by
  intro s
  unfold store
  split
  · rfl
  · exact Relation.save_keeps (fun _ => rfl) s

theorem recordVersion_keepsSources (item : MemoryItem) (accountId : Uuid) (changeKind : String) :
    KeepsSources (recordVersion rt item accountId changeKind) :=
  (Same.newUuid rt).bind fun _ => Relation.add_keeps (fun _ _ => rfl) _

theorem requestIndex_keepsSources (item : MemoryItem) : KeepsSources (requestIndex rt item) :=
  (Same.newUuid rt).bind fun _ => (Tx.Keeps.gets _).bind fun _ => Relation.add_keeps (fun _ _ => rfl) _

theorem close_keepsSources {context : AuditContext} {eventType result : String} {targetType : Option String}
    {targetId : Option Uuid} {details : List (String × Json)} {id : Uuid} :
    KeepsSources (do
      let _ ← AuditService.append rt context eventType result targetType targetId details
      refresh id) :=
  (AuditService.append_keeps fun _ _ => rfl).bind fun _ => refresh_keeps id

theorem confirm_keepsSources (accountId memoryId : Uuid) (expectedVersion : ℤ) (context : AuditContext) :
    KeepsSources (confirm rt accountId memoryId expectedVersion context) := by
  refine (lockItem_keeps _ _).bind fun item => (versionGuard_keeps _ _).bind fun _ => ?_
  refine (Tx.Keeps.raiseIf _ _).bind fun _ => (Same.utcNow rt).bind fun now => ?_
  refine (store_keepsSources _ _).bind fun _ => ?_
  exact (recordVersion_keepsSources _ _ _).bind fun _ => close_keepsSources

theorem update_keepsSources (accountId memoryId : Uuid) (request : MemoryUpdate) (context : AuditContext) :
    KeepsSources (update rt accountId memoryId request context) := by
  refine (checkUpdate_keeps accountId memoryId request).bind fun checked => ?_
  refine (store_keepsSources _ _).bind fun _ => (checkValidity_keeps _ _).bind fun _ => ?_
  refine (store_keepsSources _ _).bind fun _ => (recordVersion_keepsSources _ _ _).bind fun _ => ?_
  exact (requestIndex_keepsSources _).bind fun _ => close_keepsSources

theorem softDelete_keepsSources (accountId memoryId : Uuid) (expectedVersion retentionDays : ℤ)
    (context : AuditContext) :
    KeepsSources (softDelete rt accountId memoryId expectedVersion retentionDays context) := by
  refine (lockItem_keeps _ _).bind fun item => (versionGuard_keeps _ _).bind fun _ => ?_
  split
  · exact Tx.Keeps.pure _
  · refine (Same.utcNow rt).bind fun deletedAt => (Same.utcNow rt).bind fun now => ?_
    refine (store_keepsSources _ _).bind fun _ => ?_
    exact (recordVersion_keepsSources _ _ _).bind fun _ => close_keepsSources

theorem restore_keepsSources (accountId memoryId : Uuid) (expectedVersion : ℤ) (context : AuditContext) :
    KeepsSources (restore rt accountId memoryId expectedVersion context) := by
  refine (lockItem_keeps _ _).bind fun item => (versionGuard_keeps _ _).bind fun _ => ?_
  refine (Same.utcNow rt).bind fun now => (Tx.Keeps.raiseIf _ _).bind fun _ => ?_
  refine (store_keepsSources _ _).bind fun _ => (recordVersion_keepsSources _ _ _).bind fun _ => ?_
  exact (requestIndex_keepsSources _).bind fun _ => close_keepsSources

/-- A creation adds one source with the original expression. -/
theorem create_sources {accountId : Uuid} {request : MemoryCreate} {context : AuditContext} {s s' : Session}
    {a : MemoryItem} (h : create rt accountId request context s = (.ok a, s')) :
    s'.db.excerpts = s.db.excerpts ++ [request.originalExpression] := by
  obtain ⟨u, s₁, hcheck, hinsert⟩ := Tx.bind_eq_ok h
  obtain ⟨rfl, -⟩ := checkCreate_ok hcheck
  obtain ⟨now, s₂, hnow, h₁⟩ := Tx.bind_eq_ok hinsert
  obtain ⟨-, rfl⟩ := Prod.mk.inj hnow
  obtain ⟨id, s₃, hid, h₂⟩ := Tx.bind_eq_ok h₁
  obtain ⟨-, rfl⟩ := Prod.mk.inj hid
  rw [Tx.gets_bind_apply] at h₂
  obtain ⟨u₃, s₄, hadd, h₃⟩ := Tx.bind_eq_ok h₂
  obtain ⟨t, -, rfl⟩ := Relation.add_eq_ok hadd
  obtain ⟨u₄, s₅, hrecord, h₄⟩ := Tx.bind_eq_ok h₃
  have hrecorded := (recordVersion_keepsSources _ _ _).of_apply hrecord
  obtain ⟨sourceId, s₆, hsource, h₅⟩ := Tx.bind_eq_ok h₄
  obtain ⟨-, rfl⟩ := Prod.mk.inj hsource
  obtain ⟨u₆, s₇, haddSource, h₆⟩ := Tx.bind_eq_ok h₅
  obtain ⟨t', ht', rfl⟩ := Relation.add_eq_ok haddSource
  have hrest : s'.db.memorySources = t' :=
    ((requestIndex_keepsSources _).bind fun _ => close_keepsSources).of_apply h₆
  rw [Db.excerpts, Db.excerpts, hrest, (Table.insert?_eq_some (Relation.insertRow_eq_ok ht').1).1, List.map_append]
  exact congrArg (fun t : Table MemorySource.id => t.rows.map MemorySource.sourceExcerpt ++ [_]) hrecorded

theorem create_checked {accountId : Uuid} {request : MemoryCreate} {context : AuditContext} {s s' : Session}
    {a : MemoryItem} (h : create rt accountId request context s = (.ok a, s')) :
    containsSecretInstruction rt request.content.val = false := by
  obtain ⟨u, s₁, hcheck, -⟩ := Tx.bind_eq_ok h
  obtain ⟨hsecret, -⟩ := Tx.raiseIf_bind_eq_ok hcheck
  exact Bool.not_eq_true _ |>.mp hsecret

theorem markMerged_keepsSources (accountId mergedId : Uuid) (source : MemoryItem) :
    KeepsSources (markMerged rt accountId mergedId source) :=
  (store_keepsSources _ _).bind fun _ => recordVersion_keepsSources _ _ _

/-- A merge creates its target; what follows writes no source. -/
theorem merge_create {accountId : Uuid} {sourceIds : List Uuid} {target : MemoryCreate} {context : AuditContext}
    {s s' : Session} {a : MemoryItem} (h : merge rt accountId sourceIds target context s = (.ok a, s')) :
    ∃ merged s₁, create rt accountId { target with confirmed := true } context s = (.ok merged, s₁) ∧
      s'.db.memorySources = s₁.db.memorySources := by
  obtain ⟨sources, s₁, hcheck, h₁⟩ := Tx.bind_eq_ok h
  obtain ⟨-, hselect⟩ := Tx.raiseIf_bind_eq_ok hcheck
  obtain ⟨sources', s₂, hsources, hraise⟩ := Tx.bind_eq_ok hselect
  obtain ⟨-, rfl⟩ := Prod.mk.inj hsources
  obtain ⟨-, hpure⟩ := Tx.raiseIf_bind_eq_ok hraise
  obtain ⟨-, rfl⟩ := Prod.mk.inj hpure
  obtain ⟨merged, s₃, hcreate, h₃⟩ := Tx.bind_eq_ok h₁
  refine ⟨merged, s₃, hcreate, ?_⟩
  have hmarks : KeepsSources (Tx.forEach (markMerged rt accountId merged.id) sources) :=
    Tx.Keeps.forEach fun source => markMerged_keepsSources accountId merged.id source
  exact (hmarks.bind fun _ => close_keepsSources).of_apply h₃

/-- The content that `update` assigns has been asked for secrets, or was there before. -/
theorem updatedContent_checked {db : Db} {accountId : Uuid} {item : MemoryItem} {request : MemoryUpdate}
    {content : String} (h : updatedContent rt db accountId item request = .ok content) :
    content = item.content ∨ containsSecretInstruction rt content = false := by
  unfold updatedContent at h
  split at h
  · exact .inl (Except.ok.inj h).symm
  · next given _ =>
    dsimp only at h
    split at h
    · exact absurd h (by simp)
    · next hsecret =>
      split at h
      · exact absurd h (by simp)
      · -- a validated content has no surrounding space
        refine .inr ?_
        rw [← Except.ok.inj h, given.property.2.2]
        exact Bool.not_eq_true _ |>.mp hsecret

/-! ### Secrets come in unchecked -/

/-- No secret among the items and their versions. -/
structure Discreet (rt : Runtime) (db : Db) : Prop where
  items : ∀ item ∈ db.memoryItems, ∀ text ∈ item.texts, containsSecretInstruction rt text = false
  versions : ∀ v ∈ db.memoryVersions.rows, ∀ text ∈ v.texts, containsSecretInstruction rt text = false

section discreet

variable {db db' : Db}

theorem strings_map_str (texts : List String) : Json.strings (texts.map .str) = texts := by
  induction texts with
  | nil => rfl
  | cons text texts ih => exact congrArg (text :: ·) ih

/-- A version repeats texts of its item. -/
theorem texts_of_records {v : MemoryVersion} {item : MemoryItem} (h : v.Records rt item) {text : String}
    (htext : text ∈ v.texts) : text ∈ item.texts := by
  have hsnapshot : v.snapshotTexts = item.content :: Json.strings (item.keywords.map .str) := by
    rw [MemoryVersion.snapshotTexts, h.snapshot]
    rfl
  rw [MemoryVersion.texts, h.content, hsnapshot, strings_map_str] at htext
  simp only [MemoryItem.texts, List.mem_cons, List.mem_append] at htext ⊢
  grind

theorem Recorded.discreet {item : MemoryItem} {indexed : Bool} (h : Recorded rt item indexed db db')
    (hs : Discreet rt db) (hitem : ∀ text ∈ item.texts, containsSecretInstruction rt text = false) :
    ∀ v ∈ db'.memoryVersions.rows, ∀ text ∈ v.texts, containsSecretInstruction rt text = false := by
  obtain ⟨v, hrows, hrecords⟩ := h.versions
  rw [hrows]
  intro v' hv' text htext
  rcases List.mem_append.mp hv' with hold | hnew
  · exact hs.versions v' hold text htext
  · obtain rfl := List.mem_singleton.mp hnew
    exact hitem text (texts_of_records hrecords htext)

theorem Creates.discreet {item : MemoryItem} (h : Creates rt item db db') (hs : Discreet rt db)
    (hitem : ∀ text ∈ item.texts, containsSecretInstruction rt text = false) : Discreet rt db' where
  items := h.forall hs.items hitem
  versions := h.recorded.discreet hs hitem

theorem Revises.discreet {began : DateTime} {old new : MemoryItem} {indexed : Bool}
    (h : Revises rt began old new indexed db db') (hs : Discreet rt db)
    (hnew : ∀ text ∈ new.texts, text ∈ old.texts ∨ containsSecretInstruction rt text = false) : Discreet rt db' := by
  have hold := hs.items old (Table.mem_of_find? h.found)
  have hclean : ∀ text ∈ new.texts, containsSecretInstruction rt text = false := by
    intro text htext
    rcases hnew text htext with h' | h'
    · exact hold text h'
    · exact h'
  exact ⟨h.forall hs.items fun _ => hclean, h.recorded.discreet hs hclean⟩

theorem Merges.discreet {mergedId : Uuid} {sources : List MemoryItem} (h : Merges rt mergedId sources db db')
    (hs : Discreet rt db) : Discreet rt db' := by
  induction h with
  | nil hrows =>
      obtain ⟨hitems, hrecords⟩ := Prod.mk.inj hrows
      refine ⟨?_, ?_⟩
      · rw [hitems]
        exact hs.items
      · have hversions := congrArg Prod.fst hrecords
        dsimp only [Db.memoryRecords] at hversions
        rw [hversions]
        exact hs.versions
  | cons hrevises _ ih => exact ih (hrevises.discreet hs fun _ htext => .inl htext)

theorem CreatesFrom.discreet {accountId : Uuid} {request : MemoryCreate} {began : DateTime} {item : MemoryItem}
    (h : CreatesFrom rt accountId request began item db db') (hs : Discreet rt db)
    (hcontent : containsSecretInstruction rt request.content.val = false)
    (hunchecked : ∀ text ∈ uncheckedOf request, containsSecretInstruction rt text = false) :
    Discreet rt db' := by
  obtain ⟨id, now, rfl⟩ := h.item_eq
  refine h.toCreates.discreet hs fun text htext => ?_
  rcases List.mem_cons.mp htext with rfl | htext
  · change containsSecretInstruction rt (PythonText.strip request.content.val) = false
    rw [request.content.property.2.2, hcontent]
  · exact hunchecked text htext

end discreet

/-- **Step lemma**: a call that brings no secret with it stores none. -/
theorem Call.work_discreet {call : Call} {s s' : Session} {a : MemoryItem} (h : call.work rt s = (.ok a, s'))
    (hcall : ∀ text ∈ call.operation.unchecked, containsSecretInstruction rt text = false) (hs : Discreet rt s.db) :
    Discreet rt s'.db := by
  obtain ⟨operation, accountId, context, began⟩ := call
  cases operation with
  | create request =>
      obtain ⟨item, hcreates, -⟩ := create_ok h
      exact hcreates.discreet hs (create_checked h) hcall
  | confirm memoryId expectedVersion =>
      obtain ⟨item, now, -, -, -, hrevises⟩ := confirm_ok h
      exact hrevises.discreet hs fun _ htext => .inl htext
  | update memoryId request =>
      obtain ⟨item, content, heditable, -, hrevises⟩ := update_ok h
      refine hrevises.discreet hs fun text htext => ?_
      rcases List.mem_cons.mp htext with rfl | htext
      · rcases updatedContent_checked heditable.content with hsame | hclean
        · exact .inl (List.mem_cons.mpr (.inl hsame))
        · exact .inr hclean
      · exact .inl (List.mem_cons_of_mem _ htext)
  | softDelete memoryId expectedVersion retentionDays =>
      obtain ⟨item, -, -, ⟨-, rfl⟩ | ⟨-, deletedAt, purgeAfter, hrevises⟩⟩ := softDelete_ok h
      · exact hs
      · exact hrevises.discreet hs fun _ htext => .inl htext
  | restore memoryId expectedVersion =>
      obtain ⟨item, -, -, -, hrevises⟩ := restore_ok h
      exact hrevises.discreet hs fun _ htext => .inl htext
  | merge sourceIds target =>
      obtain ⟨-, item, db₁, hcreates, hmerges⟩ := merge_ok h
      obtain ⟨merged, s₁, hcreate, -⟩ := merge_create h
      exact hmerges.discreet (hcreates.discreet hs (create_checked hcreate) hcall)

/-- A call adds no excerpt, or the original expression of its request. -/
theorem Call.work_excerpts {call : Call} {s s' : Session} {a : MemoryItem} (h : call.work rt s = (.ok a, s')) :
    s'.db.excerpts = s.db.excerpts ∨
      ∃ e, s'.db.excerpts = s.db.excerpts ++ [e] ∧ ∀ text ∈ e, text ∈ call.operation.unchecked := by
  obtain ⟨operation, accountId, context, began⟩ := call
  have hsame {m : Work MemoryItem} (hm : KeepsSources m) (h : m s = (.ok a, s')) :
      s'.db.excerpts = s.db.excerpts :=
    congrArg (fun t : Table MemorySource.id => t.rows.map MemorySource.sourceExcerpt) (hm.of_apply h)
  have hgiven (request : MemoryCreate) :
      ∀ text ∈ request.originalExpression, text ∈ uncheckedOf request :=
    fun text htext => List.mem_append_left _ (Option.mem_toList.mpr htext)
  cases operation with
  | create request => exact .inr ⟨_, create_sources h, hgiven request⟩
  | confirm => exact .inl (hsame (confirm_keepsSources _ _ _ _) h)
  | update => exact .inl (hsame (update_keepsSources _ _ _ _) h)
  | softDelete => exact .inl (hsame (softDelete_keepsSources _ _ _ _ _) h)
  | restore => exact .inl (hsame (restore_keepsSources _ _ _ _) h)
  | merge sourceIds target =>
      obtain ⟨merged, s₁, hcreate, hsources⟩ := merge_create h
      have hexcerpts : s'.db.excerpts = s₁.db.excerpts :=
        congrArg (fun t : Table MemorySource.id => t.rows.map MemorySource.sourceExcerpt) hsources
      exact .inr ⟨_, hexcerpts.trans (create_sources hcreate), hgiven target⟩

/-! ### Secrets stay -/

/-- The texts of an item that no operation changes. -/
def lasting (item : MemoryItem) : List String := item.originalExpression.toList ++ item.keywords

/-- An item has the text for good. -/
def Lasts (text : String) (db : Db) : Prop := ∃ item ∈ db.memoryItems, text ∈ lasting item

section lasting

variable {text : String} {db db' : Db}

theorem Creates.lasts {item : MemoryItem} (h : Creates rt item db db') (hs : Lasts text db) : Lasts text db' := by
  obtain ⟨old, hold, htext⟩ := hs
  exact ⟨old, (Table.mem_insert? h.items).mpr (.inl hold), htext⟩

theorem Creates.lasts_new {item : MemoryItem} (h : Creates rt item db db') (htext : text ∈ lasting item) :
    Lasts text db' :=
  ⟨item.bind rt, (Table.mem_insert? h.items).mpr (.inr rfl), htext⟩

theorem Revises.lasts {began : DateTime} {old new : MemoryItem} {indexed : Bool}
    (h : Revises rt began old new indexed db db') (hnew : lasting new = lasting old) (hs : Lasts text db) :
    Lasts text db' := by
  obtain ⟨item, hitem, htext⟩ := hs
  by_cases hid : item.id = new.id
  · -- the item is the one that is revised
    have hfind := Table.find?_of_mem hitem
    rw [hid, h.found] at hfind
    obtain rfl := Option.some.inj hfind
    refine ⟨rowOf rt began new, ?_, ?_⟩
    · rw [h.items]
      exact Table.mem_of_find? (Table.find?_put_self h.found)
    · change text ∈ lasting new
      rw [hnew]
      exact htext
  · refine ⟨item, ?_, htext⟩
    rw [h.items]
    exact Table.mem_put_iff.mpr (.inl ⟨hitem, hid⟩)

theorem Merges.lasts {mergedId : Uuid} {sources : List MemoryItem} (h : Merges rt mergedId sources db db')
    (hs : Lasts text db) : Lasts text db' := by
  induction h with
  | nil hrows =>
      obtain ⟨item, hitem, htext⟩ := hs
      have hitems := (Prod.mk.inj hrows).1
      exact ⟨item, hitems ▸ hitem, htext⟩
  | cons hrevises _ ih => exact ih (hrevises.lasts rfl hs)

theorem CreatesFrom.lasts {accountId : Uuid} {request : MemoryCreate} {began : DateTime} {item : MemoryItem}
    (h : CreatesFrom rt accountId request began item db db') (htext : text ∈ uncheckedOf request) :
    Lasts text db' := by
  obtain ⟨id, now, rfl⟩ := h.item_eq
  exact h.toCreates.lasts_new htext

end lasting

/-- **Step lemma**: what an item has for good it keeps. -/
theorem Call.work_lasts {call : Call} {s s' : Session} {a : MemoryItem} (h : call.work rt s = (.ok a, s'))
    {text : String} (hs : Lasts text s.db) : Lasts text s'.db := by
  obtain ⟨operation, accountId, context, began⟩ := call
  cases operation with
  | create request =>
      obtain ⟨item, hcreates, -⟩ := create_ok h
      exact hcreates.toCreates.lasts hs
  | confirm memoryId expectedVersion =>
      obtain ⟨item, now, -, -, -, hrevises⟩ := confirm_ok h
      exact hrevises.lasts rfl hs
  | update memoryId request =>
      obtain ⟨item, content, -, -, hrevises⟩ := update_ok h
      exact hrevises.lasts rfl hs
  | softDelete memoryId expectedVersion retentionDays =>
      obtain ⟨item, -, -, ⟨-, rfl⟩ | ⟨-, deletedAt, purgeAfter, hrevises⟩⟩ := softDelete_ok h
      · exact hs
      · exact hrevises.lasts rfl hs
  | restore memoryId expectedVersion =>
      obtain ⟨item, -, -, -, hrevises⟩ := restore_ok h
      exact hrevises.lasts rfl hs
  | merge sourceIds target =>
      obtain ⟨-, item, db₁, hcreates, hmerges⟩ := merge_ok h
      exact hmerges.lasts (hcreates.toCreates.lasts hs)

/-- What a call stores unchecked its item has for good. -/
theorem Call.work_unchecked {call : Call} {s s' : Session} {a : MemoryItem} (h : call.work rt s = (.ok a, s'))
    {text : String} (htext : text ∈ call.operation.unchecked) : Lasts text s'.db := by
  obtain ⟨operation, accountId, context, began⟩ := call
  cases operation with
  | create request =>
      obtain ⟨item, hcreates, -⟩ := create_ok h
      exact hcreates.lasts htext
  | merge sourceIds target =>
      obtain ⟨-, item, db₁, hcreates, hmerges⟩ := merge_ok h
      exact hmerges.lasts (hcreates.lasts htext)
  | _ => exact absurd htext List.not_mem_nil

/-! ### Sequences of operations -/

theorem mem_memoryTexts_of_lasts {text : String} {db : Db} (h : Lasts text db) : text ∈ db.memoryTexts := by
  obtain ⟨item, hitem, htext⟩ := h
  exact List.mem_append_left _ (List.mem_flatMap.mpr ⟨item, hitem, List.mem_cons_of_mem _ htext⟩)

/-- No text of the memory is a secret. -/
theorem memoryTexts_clean_iff {db : Db} : (∀ text ∈ db.memoryTexts, containsSecretInstruction rt text = false) ↔
    Discreet rt db ∧ ∀ text, some text ∈ db.excerpts → containsSecretInstruction rt text = false := by
  simp only [Db.memoryTexts, List.mem_append, List.mem_flatMap, List.reduceOption_mem_iff]
  constructor
  · intro h
    exact ⟨⟨fun item hitem text htext => h text (.inl ⟨item, hitem, htext⟩),
      fun v hv text htext => h text (.inr (.inl ⟨v, hv, htext⟩))⟩, fun text htext => h text (.inr (.inr htext))⟩
  · rintro ⟨hdiscreet, hexcerpts⟩ text (⟨item, hitem, htext⟩ | ⟨v, hv, htext⟩ | htext)
    · exact hdiscreet.items item hitem text htext
    · exact hdiscreet.versions v hv text htext
    · exact hexcerpts text htext

/-- A call that brings a secret with it takes effect. -/
theorem Confides.step {s : Session} {call : Call} (h : Confides rt s call) : ∃ a s',
    call.work rt { s with began := call.began } = (.ok a, s') ∧ MemoryService.step rt s call = some s' := by
  obtain ⟨hok, -⟩ := h
  rcases hr : call.work rt { s with began := call.began } with ⟨e | a, s'⟩
  · rw [hr] at hok
    exact absurd hok Bool.false_ne_true
  · refine ⟨a, s', rfl, ?_⟩
    rw [MemoryService.step, Call.perform, Database.session_of_ok hr]

/-- **Run lemma**: what an item has for good it has at the end of every sequence of operations. -/
theorem lasts_of_run {s t : Session} {calls : List Call} {text : String} (hs : Lasts text s.db)
    (hrun : Runs.run (step rt) s calls = some t) : Lasts text t.db := by
  refine Runs.inv_of_run (I := fun s => Lasts text s.db) ?_ hs hrun
  intro s call s' hs hstep
  rcases step_cases hstep with hdb | ⟨a, hwork⟩
  · rw [hdb]
    exact hs
  · exact Call.work_lasts hwork hs

/-- A secret that a call has brought is there at the end. -/
theorem lasts_of_confides {s t : Session} {calls : List Call} (hrun : Runs.run (step rt) s calls = some t)
    (hnot : ¬Runs.Along (step rt) (fun s call => ¬Confides rt s call) s calls) :
    ∃ text, containsSecretInstruction rt text = true ∧ Lasts text t.db := by
  induction calls generalizing s with
  | nil => exact absurd trivial hnot
  | cons call calls ih =>
      obtain ⟨s', hstep, hrest⟩ := Runs.run_cons_eq_some.mp hrun
      by_cases hconfides : Confides rt s call
      · obtain ⟨a, s₁, hwork, hstep'⟩ := hconfides.step
        obtain rfl := Option.some.inj (hstep'.symm.trans hstep)
        obtain ⟨-, text, htext, hsecret⟩ := hconfides
        exact ⟨text, hsecret, lasts_of_run (Call.work_unchecked hwork htext) hrest⟩
      · refine ih hrest fun halong => hnot ⟨hconfides, fun s₁ hstep' => ?_⟩
        obtain rfl := Option.some.inj (hstep'.symm.trans hstep)
        exact halong

/-- **The memory holds a secret exactly if a call has brought one with it**: after every sequence of operations, no
text of the items, their versions and their sources is a secret if and only if no call that returned had one in its
original expression or its keywords. -/
theorem no_secrets_iff {s t : Session} {calls : List Call} (h₀ : NoMemories s.db) (hsources : s.db.excerpts = [])
    (hrun : Runs.run (step rt) s calls = some t) :
    (∀ text ∈ t.db.memoryTexts, containsSecretInstruction rt text = false) ↔
      Runs.Along (step rt) (fun s call => ¬Confides rt s call) s calls := by
  constructor
  · intro hclean
    by_contra hnot
    obtain ⟨text, hsecret, hlasts⟩ := lasts_of_confides hrun hnot
    exact absurd hsecret (by rw [hclean text (mem_memoryTexts_of_lasts hlasts)]; exact Bool.false_ne_true)
  · intro halong
    rw [memoryTexts_clean_iff]
    refine Runs.inv_of_along (I := fun s => Discreet rt s.db ∧
      ∀ text, some text ∈ s.db.excerpts → containsSecretInstruction rt text = false) ?_ ?_ halong hrun
    · rintro s call s' ⟨hdiscreet, hexcerpts⟩ hcall hstep
      rcases step_cases hstep with hdb | ⟨a, hwork⟩
      · rw [hdb]
        exact ⟨hdiscreet, hexcerpts⟩
      · have hunchecked : ∀ text ∈ call.operation.unchecked, containsSecretInstruction rt text = false := by
          intro text htext
          by_contra hsecret
          refine hcall ⟨?_, text, htext, Bool.not_eq_false _ |>.mp hsecret⟩
          rw [hwork]
          rfl
        refine ⟨Call.work_discreet hwork hunchecked hdiscreet, fun text htext => ?_⟩
        rcases Call.work_excerpts hwork with hsame | ⟨e, hadded, he⟩
        · rw [hsame] at htext
          exact hexcerpts text htext
        · rw [hadded] at htext
          rcases List.mem_append.mp htext with hold | hnew
          · exact hexcerpts text hold
          · exact hunchecked text (he text (List.mem_singleton.mp hnew).symm)
    · refine ⟨⟨fun item hitem => ?_, fun v hv => ?_⟩, fun text htext => ?_⟩
      · have hnone : item ∈ s.db.memoryItems.rows := hitem
        rw [h₀.items] at hnone
        exact absurd hnone List.not_mem_nil
      · rw [h₀.versions] at hv
        exact absurd hv List.not_mem_nil
      · rw [hsources] at htext
        exact absurd htext List.not_mem_nil

/-- The content is harmless, what the user said is not. -/
def confession : MemoryCreate := { meeting with originalExpression := some "Moje heslo je abc" }

theorem no_secrets_iff_confession : ∃ t, Runs.run (step zonedRuntime) emptySession [callOf (.create confession)] =
      some t ∧ "Moje heslo je abc" ∈ t.db.memoryTexts ∧
    ((∀ text ∈ t.db.memoryTexts, containsSecretInstruction zonedRuntime text = false) ↔
      Runs.Along (step zonedRuntime) (fun s call => ¬Confides zonedRuntime s call) emptySession
        [callOf (.create confession)]) := by
  have hrun : ((Runs.run (step zonedRuntime) emptySession [callOf (.create confession)]).any fun t =>
      decide ("Moje heslo je abc" ∈ t.db.memoryTexts)) = true := by decide +kernel
  obtain ⟨t, ht, hstored⟩ := (Option.any_eq_true _ _).mp hrun
  exact ⟨t, ht, of_decide_eq_true hstored, no_secrets_iff emptySession_noMemories rfl ht⟩

end MemoryService

end KajovoDagmar
