import KajovoDagmar.Memory.Service

/-! # What the memory operations touch and where they refuse

Every operation of `MemoryService` raises its domain errors before it writes anything, except
`update`, which assigns the requested columns and then checks the validity of the result.
Everything that the operations do after their last check raises no domain error. -/

namespace KajovoDagmar.MemoryService

variable {rt : Runtime} {γ : Type} {view : Db → γ}

/-! ### Checks keep every row -/

theorem versionGuard_keeps (item : MemoryItem) (expected : ℤ) :
    Tx.Keeps (Same view) (versionGuard item expected) :=
  Tx.Keeps.raiseIf _ _

theorem checkValidity_keeps (validFrom validUntil : Option DateTime) :
    Tx.Keeps (Same view) (checkValidity validFrom validUntil) :=
  (Tx.Keeps.ofExcept _).bind fun _ => Tx.Keeps.raiseIf _ _

theorem lockItem_keeps (accountId memoryId : Uuid) :
    Tx.Keeps (Same view) (lockItem accountId memoryId) :=
  (Tx.Keeps.gets _).bind fun _ => Tx.Keeps.orRaise _ _

theorem get_keeps (accountId memoryId : Uuid) (includeDeleted : Bool) :
    Tx.Keeps (Same view) (get accountId memoryId includeDeleted) :=
  (Tx.Keeps.gets _).bind fun _ => Tx.Keeps.orRaise _ _

theorem checkCreate_keeps (accountId : Uuid) (request : MemoryCreate) :
    Tx.Keeps (Same view) (checkCreate rt accountId request) := by
  unfold checkCreate
  refine (Tx.Keeps.raiseIf _ _).bind fun _ => ?_
  refine (checkValidity_keeps _ _).bind fun _ => ?_
  refine (Relation.select_keeps _).bind fun candidates => ?_
  exact (Relation.select_keeps _).bind fun legacy => Tx.Keeps.raiseSome _

theorem checkMerge_keeps (accountId : Uuid) (sourceIds : List Uuid) :
    Tx.Keeps (Same view) (checkMerge accountId sourceIds) := by
  unfold checkMerge
  refine (Tx.Keeps.raiseIf _ _).bind fun _ => ?_
  refine (Relation.select_keeps _).bind fun sources => ?_
  exact (Tx.Keeps.raiseIf _ _).bind fun _ => Tx.Keeps.pure _

/-! ### What the operations write -/

/-- A view of the database in which none of the tables that the memory operations write shows
up. -/
structure Hidden (view : Db → γ) : Prop where
  memoryItems : ∀ t db, view { db with memoryItems := t } = view db
  memoryVersions : ∀ t db, view { db with memoryVersions := t } = view db
  memorySources : ∀ t db, view { db with memorySources := t } = view db
  outboxEvents : ∀ t db, view { db with outboxEvents := t } = view db
  auditEvents : ∀ t db, view { db with auditEvents := t } = view db

section frame

variable (hv : Hidden view)

include hv

theorem store_keeps (old new : MemoryItem) : Tx.Keeps (Same view) (store rt old new) := by
  intro s
  unfold store
  split
  · rfl
  · exact Relation.save_keeps (fun db => hv.memoryItems _ db) s

theorem recordVersion_keeps (item : MemoryItem) (accountId : Uuid) (changeKind : String) :
    Tx.Keeps (Same view) (recordVersion rt item accountId changeKind) :=
  (Same.newUuid rt).bind fun _ => Relation.add_keeps hv.memoryVersions _

theorem requestIndex_keeps (item : MemoryItem) : Tx.Keeps (Same view) (requestIndex rt item) :=
  (Same.newUuid rt).bind fun _ => (Tx.Keeps.gets _).bind fun _ => Relation.add_keeps hv.outboxEvents _

omit hv in
theorem refresh_keeps (id : Uuid) : Tx.Keeps (Same view) (refresh id) :=
  (Tx.Keeps.gets _).bind fun _ => Tx.Keeps.orRaise _ _

theorem insert_keeps (accountId : Uuid) (request : MemoryCreate) (context : AuditContext) :
    Tx.Keeps (Same view) (insert rt accountId request context) := by
  unfold insert
  refine (Same.utcNow rt).bind fun now => ?_
  refine (Same.newUuid rt).bind fun id => ?_
  refine (Tx.Keeps.gets _).bind fun began => ?_
  refine (Relation.add_keeps hv.memoryItems _).bind fun _ => ?_
  refine (recordVersion_keeps hv _ _ _).bind fun _ => ?_
  refine (Same.newUuid rt).bind fun sourceId => ?_
  refine (Relation.add_keeps hv.memorySources _).bind fun _ => ?_
  refine (requestIndex_keeps hv _).bind fun _ => ?_
  exact (AuditService.append_keeps hv.auditEvents).bind fun _ => refresh_keeps _

theorem create_keeps (accountId : Uuid) (request : MemoryCreate) (context : AuditContext) :
    Tx.Keeps (Same view) (create rt accountId request context) :=
  (checkCreate_keeps _ _).bind fun _ => insert_keeps hv _ _ _

theorem confirm_keeps (accountId memoryId : Uuid) (expectedVersion : ℤ) (context : AuditContext) :
    Tx.Keeps (Same view) (confirm rt accountId memoryId expectedVersion context) := by
  unfold confirm
  refine (lockItem_keeps _ _).bind fun item => ?_
  refine (versionGuard_keeps _ _).bind fun _ => ?_
  refine (Tx.Keeps.raiseIf _ _).bind fun _ => ?_
  refine (Same.utcNow rt).bind fun now => ?_
  refine (store_keeps hv _ _).bind fun _ => ?_
  refine (recordVersion_keeps hv _ _ _).bind fun _ => ?_
  exact (AuditService.append_keeps hv.auditEvents).bind fun _ => refresh_keeps _

omit hv in
theorem checkUpdate_keeps (accountId memoryId : Uuid) (request : MemoryUpdate) :
    Tx.Keeps (Same view) (checkUpdate rt accountId memoryId request) := by
  unfold checkUpdate
  refine (lockItem_keeps _ _).bind fun item => ?_
  refine (versionGuard_keeps _ _).bind fun _ => ?_
  refine (Tx.Keeps.raiseIf _ _).bind fun _ => ?_
  refine (Tx.Keeps.gets _).bind fun checked => ?_
  exact (Tx.Keeps.ofExcept _).bind fun content => Tx.Keeps.pure _

theorem finishUpdate_keeps (accountId : Uuid) (item : MemoryItem) (context : AuditContext) :
    Tx.Keeps (Same view) (finishUpdate rt accountId item context) := by
  unfold finishUpdate
  refine (store_keeps hv _ _).bind fun _ => ?_
  refine (recordVersion_keeps hv _ _ _).bind fun _ => ?_
  refine (requestIndex_keeps hv _).bind fun _ => ?_
  exact (AuditService.append_keeps hv.auditEvents).bind fun _ => refresh_keeps _

theorem update_keeps (accountId memoryId : Uuid) (request : MemoryUpdate) (context : AuditContext) :
    Tx.Keeps (Same view) (update rt accountId memoryId request context) := by
  unfold update
  refine (checkUpdate_keeps _ _ _).bind fun checked => ?_
  refine (store_keeps hv _ _).bind fun _ => ?_
  exact (checkValidity_keeps _ _).bind fun _ => finishUpdate_keeps hv _ _ _

theorem softDelete_keeps (accountId memoryId : Uuid) (expectedVersion retentionDays : ℤ)
    (context : AuditContext) :
    Tx.Keeps (Same view) (softDelete rt accountId memoryId expectedVersion retentionDays context) := by
  unfold softDelete
  refine (lockItem_keeps _ _).bind fun item => ?_
  refine (versionGuard_keeps _ _).bind fun _ => ?_
  split
  · exact Tx.Keeps.pure _
  · refine (Same.utcNow rt).bind fun deletedAt => ?_
    refine (Same.utcNow rt).bind fun now => ?_
    refine (store_keeps hv _ _).bind fun _ => ?_
    refine (recordVersion_keeps hv _ _ _).bind fun _ => ?_
    exact (AuditService.append_keeps hv.auditEvents).bind fun _ => refresh_keeps _

theorem restore_keeps (accountId memoryId : Uuid) (expectedVersion : ℤ) (context : AuditContext) :
    Tx.Keeps (Same view) (restore rt accountId memoryId expectedVersion context) := by
  unfold restore
  refine (lockItem_keeps _ _).bind fun item => ?_
  refine (versionGuard_keeps _ _).bind fun _ => ?_
  refine (Same.utcNow rt).bind fun now => ?_
  refine (Tx.Keeps.raiseIf _ _).bind fun _ => ?_
  refine (store_keeps hv _ _).bind fun _ => ?_
  refine (recordVersion_keeps hv _ _ _).bind fun _ => ?_
  refine (requestIndex_keeps hv _).bind fun _ => ?_
  exact (AuditService.append_keeps hv.auditEvents).bind fun _ => refresh_keeps _

theorem markMerged_keeps (accountId mergedId : Uuid) (source : MemoryItem) :
    Tx.Keeps (Same view) (markMerged rt accountId mergedId source) :=
  (store_keeps hv _ _).bind fun _ => recordVersion_keeps hv _ _ _

theorem merge_keeps (accountId : Uuid) (sourceIds : List Uuid) (target : MemoryCreate)
    (context : AuditContext) :
    Tx.Keeps (Same view) (merge rt accountId sourceIds target context) := by
  unfold merge
  refine (checkMerge_keeps _ _).bind fun sources => ?_
  refine (create_keeps hv _ _ _).bind fun merged => ?_
  refine (Tx.Keeps.forEach fun source => markMerged_keeps hv _ _ source).bind fun _ => ?_
  exact (AuditService.append_keeps hv.auditEvents).bind fun _ => refresh_keeps _

end frame

/-! ### Writes raise no domain error -/

theorem store_noDomain (old new : MemoryItem) : NoDomain (store rt old new) := by
  intro s e h
  unfold store at h
  split at h
  · simp at h
  · exact Relation.save_noDomain _ s e h

theorem refresh_noDomain (id : Uuid) : NoDomain (refresh id) :=
  (Tx.RaisesOnly.gets _).bind fun _ => orRaise_noDomain _ _

theorem recordVersion_noDomain (item : MemoryItem) (accountId : Uuid) (changeKind : String) :
    NoDomain (recordVersion rt item accountId changeKind) :=
  (newUuid_noDomain rt).bind fun _ => Relation.add_noDomain _

theorem requestIndex_noDomain (item : MemoryItem) : NoDomain (requestIndex rt item) :=
  (newUuid_noDomain rt).bind fun _ => (Tx.RaisesOnly.gets _).bind fun _ => Relation.add_noDomain _

theorem insert_noDomain (accountId : Uuid) (request : MemoryCreate) (context : AuditContext) :
    NoDomain (insert rt accountId request context) := by
  unfold insert
  refine (utcNow_noDomain rt).bind fun now => ?_
  refine (newUuid_noDomain rt).bind fun id => ?_
  refine (Tx.RaisesOnly.gets _).bind fun began => ?_
  refine (Relation.add_noDomain _).bind fun _ => ?_
  refine (recordVersion_noDomain _ _ _).bind fun _ => ?_
  refine (newUuid_noDomain rt).bind fun sourceId => ?_
  refine (Relation.add_noDomain _).bind fun _ => ?_
  refine (requestIndex_noDomain _).bind fun _ => ?_
  exact AuditService.append_noDomain.bind fun _ => refresh_noDomain _

theorem finishUpdate_noDomain (accountId : Uuid) (item : MemoryItem) (context : AuditContext) :
    NoDomain (finishUpdate rt accountId item context) := by
  unfold finishUpdate
  refine (store_noDomain _ _).bind fun _ => ?_
  refine (recordVersion_noDomain _ _ _).bind fun _ => ?_
  refine (requestIndex_noDomain _).bind fun _ => ?_
  exact AuditService.append_noDomain.bind fun _ => refresh_noDomain _

theorem markMerged_noDomain (accountId mergedId : Uuid) (source : MemoryItem) :
    NoDomain (markMerged rt accountId mergedId source) :=
  (store_noDomain _ _).bind fun _ => recordVersion_noDomain _ _ _

/-! ### Operations that refuse before they write -/

theorem create_clean (accountId : Uuid) (request : MemoryCreate) (context : AuditContext) :
    Tx.Clean Exc.IsDomain (Same view) (create rt accountId request context) :=
  Tx.Clean.bind_of_keeps (checkCreate_keeps _ _) fun _ => (insert_noDomain _ _ _).clean

theorem softDelete_clean (accountId memoryId : Uuid) (expectedVersion retentionDays : ℤ)
    (context : AuditContext) :
    Tx.Clean Exc.IsDomain (Same view)
      (softDelete rt accountId memoryId expectedVersion retentionDays context) := by
  unfold softDelete
  refine Tx.Clean.bind_of_keeps (lockItem_keeps _ _) fun item => ?_
  refine Tx.Clean.bind_of_keeps (versionGuard_keeps _ _) fun _ => ?_
  split
  · exact (Tx.Keeps.pure _).clean
  · apply Tx.RaisesOnly.clean
    refine (utcNow_noDomain rt).bind fun deletedAt => ?_
    refine (utcNow_noDomain rt).bind fun now => ?_
    refine (store_noDomain _ _).bind fun _ => ?_
    refine (recordVersion_noDomain _ _ _).bind fun _ => ?_
    exact AuditService.append_noDomain.bind fun _ => refresh_noDomain _

theorem restore_clean (accountId memoryId : Uuid) (expectedVersion : ℤ) (context : AuditContext) :
    Tx.Clean Exc.IsDomain (Same view) (restore rt accountId memoryId expectedVersion context) := by
  unfold restore
  refine Tx.Clean.bind_of_keeps (lockItem_keeps _ _) fun item => ?_
  refine Tx.Clean.bind_of_keeps (versionGuard_keeps _ _) fun _ => ?_
  refine Tx.Clean.bind_of_keeps (Same.utcNow rt) fun now => ?_
  refine Tx.Clean.bind_of_keeps (Tx.Keeps.raiseIf _ _) fun _ => ?_
  apply Tx.RaisesOnly.clean
  refine (store_noDomain _ _).bind fun _ => ?_
  refine (recordVersion_noDomain _ _ _).bind fun _ => ?_
  refine (requestIndex_noDomain _).bind fun _ => ?_
  exact AuditService.append_noDomain.bind fun _ => refresh_noDomain _

theorem merge_clean (accountId : Uuid) (sourceIds : List Uuid) (target : MemoryCreate)
    (context : AuditContext) :
    Tx.Clean Exc.IsDomain (Same view) (merge rt accountId sourceIds target context) := by
  unfold merge
  refine Tx.Clean.bind_of_keeps (checkMerge_keeps _ _) fun sources => ?_
  refine Tx.Clean.bind_of_raisesOnly (create_clean _ _ _) fun merged => ?_
  refine (Tx.RaisesOnly.forEach fun source => markMerged_noDomain _ _ source).bind fun _ => ?_
  exact AuditService.append_noDomain.bind fun _ => refresh_noDomain _

/-! ### The late check of `update` -/

/-- The item and the content that `update` goes on with: the item is there, at the expected
version, open to changes, and the new content is not refused. -/
structure Editable (rt : Runtime) (db : Db) (accountId memoryId : Uuid) (request : MemoryUpdate)
    (item : MemoryItem) (content : String) : Prop where
  found : item? db accountId memoryId = some item
  version : item.version = request.expectedVersion.val
  notDeleted : item.state ≠ .deleted
  notMerged : item.state ≠ .merged
  content : updatedContent rt db accountId item request = .ok content

/-- Only the memory items decide what is editable. -/
theorem Editable.congr {db db' : Db} {accountId memoryId : Uuid} {request : MemoryUpdate}
    {item : MemoryItem} {content : String} (h : db'.memoryItems = db.memoryItems)
    (he : Editable rt db accountId memoryId request item content) :
    Editable rt db' accountId memoryId request item content where
  found := by
    have := he.found
    unfold item? at this ⊢
    rw [h]
    exact this
  version := he.version
  notDeleted := he.notDeleted
  notMerged := he.notMerged
  content := by
    have := he.content
    unfold updatedContent limitOne at this ⊢
    rw [h]
    exact this

theorem Editable.unique {db : Db} {accountId memoryId : Uuid} {request : MemoryUpdate}
    {item item' : MemoryItem} {content content' : String}
    (h : Editable rt db accountId memoryId request item content)
    (h' : Editable rt db accountId memoryId request item' content') :
    item = item' ∧ content = content' := by
  obtain rfl : item = item' := Option.some.inj (h.found.symm.trans h'.found)
  have := h.content.symm.trans h'.content
  exact ⟨rfl, by simpa using this⟩

/-- The checks of `update` change nothing, and they pass exactly on an editable item. -/
theorem checkUpdate_spec (rt : Runtime) (accountId memoryId : Uuid) (request : MemoryUpdate) (s : Session) :
    (∃ e, checkUpdate rt accountId memoryId request s = (.error e, s) ∧
      ∀ item content, ¬Editable rt s.db accountId memoryId request item content) ∨
    ∃ item content, checkUpdate rt accountId memoryId request s = (.ok (item, content), s) ∧
      Editable rt s.db accountId memoryId request item content := by
  unfold checkUpdate lockItem versionGuard
  cases hf : item? s.db accountId memoryId with
  | none =>
      refine Or.inl ⟨notFound, by simp [Tx.bind_apply, hf], fun item content he => ?_⟩
      simp [he.found] at hf
  | some item =>
      by_cases hv : item.version = request.expectedVersion.val
      · by_cases hs : item.state = .deleted ∨ item.state = .merged
        · refine Or.inl ⟨_, by simp [Tx.bind_apply, hf, hv, hs]; rfl, fun item' content he => ?_⟩
          obtain rfl : item = item' := Option.some.inj (hf.symm.trans he.found)
          exact hs.elim he.notDeleted he.notMerged
        · cases hc : updatedContent rt s.db accountId item request with
          | error e =>
              refine Or.inl ⟨e, by simp [Tx.bind_apply, hf, hv, hs, hc], fun item' content he => ?_⟩
              obtain rfl : item = item' := Option.some.inj (hf.symm.trans he.found)
              simp [he.content] at hc
          | ok content =>
              rw [not_or] at hs
              exact Or.inr ⟨item, content, by simp [Tx.bind_apply, hf, hv, hs, hc],
                ⟨hf, hv, hs.1, hs.2, hc⟩⟩
      · refine Or.inl ⟨_, by simp [Tx.bind_apply, hf, hv]; rfl, fun item' content he => ?_⟩
        obtain rfl : item = item' := Option.some.inj (hf.symm.trans he.found)
        exact hv he.version

theorem item?_mem {db : Db} {accountId memoryId : Uuid} {item : MemoryItem}
    (h : item? db accountId memoryId = some item) :
    db.memoryItems.find? item.id = some item := by
  have hf := (Option.filter_eq_some_iff.mp h).1
  rwa [Table.key_of_find? hf]

/-- The session after the assigned columns of a loaded item have been flushed. -/
def stored (rt : Runtime) (s : Session) (old new : MemoryItem) : Session :=
  { s with db := { s.db with
      memoryItems := s.db.memoryItems.put (MemoryItem.flush rt s.began old new) } }

theorem store_ok {old new : MemoryItem} {s s' : Session} {u : PUnit}
    (hold : s.db.memoryItems.find? old.id = some old) (h : store rt old new s = (.ok u, s')) :
    s' = stored rt s old new := by
  unfold store at h
  split at h
  · next hu =>
    have hput : s.db.memoryItems.put (MemoryItem.flush rt s.began old new) = s.db.memoryItems := by
      rw [MemoryItem.flush, if_pos hu]
      exact Table.put_of_mem (Table.mem_of_find? hold)
    rw [stored, hput]
    exact (Prod.mk.inj h).2.symm
  · cases hr : rt.rejectsUpdate (.memoryItem (MemoryItem.flush rt s.began old new)) with
    | none =>
        rw [Relation.save_of_accepted hr] at h
        exact (Prod.mk.inj h).2.symm
    | some c =>
        rw [Relation.save_of_rejected hr] at h
        simp at h

theorem checkValidity_error {validFrom validUntil : Option DateTime} {s s' : Session} {e : Exc}
    (h : checkValidity validFrom validUntil s = (.error e, s')) (he : e.IsDomain) :
    inverted validFrom validUntil = .ok true ∧ s' = s := by
  unfold checkValidity at h
  cases hi : inverted validFrom validUntil with
  | error e' =>
      simp only [Tx.bind_apply, Tx.ofExcept_apply, hi, Prod.mk.injEq, Except.error.injEq] at h
      obtain ⟨rfl, rfl⟩ := h
      unfold inverted at hi
      split at hi
      · split at hi
        · simp at hi
        · obtain rfl : _ = e' := by simpa using hi
          exact absurd he (Exc.not_isDomain_other _)
      · simp at hi
  | ok b =>
      cases b with
      | true =>
          simp [Tx.bind_apply, hi] at h
          exact ⟨rfl, h.2.symm⟩
      | false => simp [Tx.bind_apply, hi] at h

/-- **The refusals of `update`**: a domain error either comes before any write, on an item that
is not editable, or it is the late refusal of an inverted validity, raised after the requested
columns have been assigned. -/
theorem update_error {accountId memoryId : Uuid} {request : MemoryUpdate} {context : AuditContext}
    {s s' : Session} {e : Exc}
    (h : update rt accountId memoryId request context s = (.error e, s')) (he : e.IsDomain) :
    (s' = s ∧ ∀ item content, ¬Editable rt s.db accountId memoryId request item content) ∨
    ∃ item content, Editable rt s.db accountId memoryId request item content ∧
      inverted (assign item request content).validFrom (assign item request content).validUntil =
        .ok true ∧
      s' = stored rt s item (assign item request content) := by
  unfold update at h
  rcases checkUpdate_spec rt accountId memoryId request s with
    ⟨e', hc, hne⟩ | ⟨item, content, hc, hed⟩
  · rw [Tx.bind_of_error hc] at h
    exact Or.inl ⟨(Prod.mk.inj h).2.symm, hne⟩
  · refine Or.inr ⟨item, content, hed, ?_⟩
    rw [Tx.bind_of_ok hc] at h
    rcases Tx.bind_eq_error h with hst | ⟨u, s₁, hst, h⟩
    · exact absurd he (store_noDomain _ _ s e (by rw [hst]))
    · obtain rfl := store_ok (item?_mem hed.found) hst
      rcases Tx.bind_eq_error h with hv | ⟨_, s₂, -, hfin⟩
      · obtain ⟨hinv, rfl⟩ := checkValidity_error hv he
        exact ⟨hinv, rfl⟩
      · exact absurd he (finishUpdate_noDomain _ _ _ s₂ e (by rw [hfin]))

end KajovoDagmar.MemoryService
