import KajovoDagmar.Orchestration.Confirmations
import KajovoDagmar.Orchestration.Effects

/-! # The locks of confirmations

Which rows a transaction owns at which point of its program, and that the operations write no
target which they have not locked. -/

namespace KajovoDagmar.Confirmations

open OrchestrationService ReadCommitted

variable {out : Outside}

/-! ### Locks -/

/-- The rows that a transaction owns, apart from its run. -/
def held : Stage → List Lockable
  | .confirm _ | .refused => []
  | .change _ _ held => held
  | .lockRun c _ | .retention c _ | .lockMemory c _ _ _ _ | .checkCreated c _ _
  | .loadSource c _ _ _ _ _ | .readOriginal c _ _ | .lockConversation c _ _ _ _ | .fail c _
  | .expire c => [.action c.actionId]
  | .checkContent c _ item _ => [.action c.actionId, .target (.memory item.id)]
  | .selectSources c _ m | .lockSource c _ m _ _ | .checkMerged c _ m =>
    .action c.actionId :: m.taken.map fun t => .target (.memory t.1)
  | .finish c _ plan => .action c.actionId :: plan.locks.map .target

def Holds (t : Stage) (k : Lockable) : Prop := k ∈ held t

section held

variable (c : ConfirmRequest) (a : ToolAction)

theorem held_nextSource (todo : List (String × Json)) (loaded : List MemoryItem) :
    held (nextSource out c a todo loaded) = [.action c.actionId] := by
  cases todo with
  | cons source todo =>
      simp only [nextSource]
      split <;> rfl
  | nil =>
      simp only [nextSource]
      split
      · rfl
      split
      · rfl
      split <;> rfl

theorem held_nextLock (m : Merge) (todo : List Uuid) :
    held (nextLock c a m todo) =
      .action c.actionId :: m.taken.map fun t => .target (.memory t.1) := by
  cases todo <;> rfl

theorem held_onMemory (item : MemoryItem) (op : MemoryOperation) :
    held (onMemory c a item op) = [.action c.actionId, .target (.memory item.id)] := by
  cases op <;> rfl

theorem held_onConversation (row : Conversation) (op : HistoryOperation) :
    held (onConversation c a row op) = [.action c.actionId, .target (.conversation row.id)] := by
  cases op <;> rfl

theorem held_executeFirst : held (executeFirst out c a) = [.action c.actionId] := by
  unfold executeFirst
  split
  · rfl
  split
  · split <;> rfl
  split
  · split <;> rfl
  split
  · rfl
  split
  · split <;> rfl
  split
  · split
    · rfl
    · exact held_nextSource c a _ _
  split
  · split <;> rfl
  split
  · split <;> rfl
  · rfl

theorem held_retained (db : Db) : held (retained out c a db) = [.action c.actionId] := by
  unfold retained
  split <;> split <;> rfl

theorem held_confirmed (db : Db) : held (confirmed out c db) ⊆ [.action c.actionId] := by
  unfold confirmed
  split
  · exact List.nil_subset _
  split
  · exact List.nil_subset _
  split
  · exact List.Subset.refl _
  · rw [held_executeFirst]
    exact List.Subset.refl _

end held

theorem id_of_item? {db : Db} {accountId id : Uuid} {item : MemoryItem}
    (h : MemoryService.item? db accountId id = some item) : item.id = id :=
  Table.key_of_find? (Option.filter_eq_some_iff.mp h).1

theorem id_of_conversation? {db : Db} {accountId id : Uuid} {row : Conversation}
    (h : HistoryService.conversation? db accountId id = some row) : row.id = id :=
  Table.key_of_find? (Option.filter_eq_some_iff.mp h).1

/-- The row ownership of the program. -/
theorem discipline : Discipline (stmt out) initial Holds where
  start := by
    intro t k ht
    cases t with
    | confirm c => exact List.not_mem_nil
    | change o todo held =>
        simp only [initial, Bool.decide_and, Bool.and_eq_true, decide_eq_true_eq] at ht
        unfold Holds Confirmations.held
        rw [ht.2]
        exact List.not_mem_nil
    | _ => simp [initial] at ht
  lock := by
    intro t k next store k' hstmt hk'
    cases t with
    | confirm c =>
        obtain ⟨rfl, rfl⟩ := Stmt.lock.inj hstmt
        dsimp only at hk'
        split at hk'
        · exact absurd hk' List.not_mem_nil
        · exact .inl (List.mem_singleton.mp hk')
    | lockRun c runId =>
        obtain ⟨rfl, rfl⟩ := Stmt.lock.inj hstmt
        exact .inr (held_confirmed c store hk')
    | lockMemory c a id expected op =>
        obtain ⟨rfl, rfl⟩ := Stmt.lock.inj hstmt
        dsimp only at hk'
        split at hk'
        · exact .inr hk'
        · next item hitem =>
          split at hk'
          · exact .inr hk'
          · rw [Holds, held_onMemory, id_of_item? hitem] at hk'
            rcases List.mem_cons.mp hk' with rfl | hk'
            · exact .inr List.mem_cons_self
            · exact .inl (List.mem_singleton.mp hk')
    | lockSource c a m id todo =>
        obtain ⟨rfl, rfl⟩ := Stmt.lock.inj hstmt
        dsimp only at hk'
        split at hk'
        · rw [Holds, held_nextLock] at hk'
          exact .inr hk'
        · next row hrow =>
          rw [Holds, held_nextLock] at hk'
          simp only [takeSource, List.map_append, List.map_cons, List.map_nil,
            id_of_item? hrow] at hk'
          rw [← List.cons_append] at hk'
          rcases List.mem_append.mp hk' with hk' | hk'
          · exact .inr hk'
          · exact .inl (List.mem_singleton.mp hk')
    | lockConversation c a id expected op =>
        obtain ⟨rfl, rfl⟩ := Stmt.lock.inj hstmt
        dsimp only at hk'
        split at hk'
        · exact .inr hk'
        · next row hrow =>
          split at hk'
          · exact .inr hk'
          · rw [Holds, held_onConversation, id_of_conversation? hrow] at hk'
            rcases List.mem_cons.mp hk' with rfl | hk'
            · exact .inr List.mem_cons_self
            · exact .inl (List.mem_singleton.mp hk')
    | change o todo held =>
        cases todo with
        | nil => simp [stmt] at hstmt
        | cons k₀ todo =>
            obtain ⟨rfl, rfl⟩ := Stmt.lock.inj hstmt
            exact List.mem_cons.mp hk'
    | _ => simp [stmt] at hstmt
  read := by
    intro t next store k hstmt hk
    cases t with
    | retention c a =>
        obtain rfl := Stmt.read.inj hstmt
        rwa [Holds, held_retained] at hk
    | checkContent c a item request =>
        obtain rfl := Stmt.read.inj hstmt
        exact hk
    | checkCreated c a request =>
        obtain rfl := Stmt.read.inj hstmt
        exact hk
    | loadSource c a id source todo loaded =>
        obtain rfl := Stmt.read.inj hstmt
        dsimp only at hk
        split at hk
        · exact hk
        split at hk
        · rwa [Holds, held_nextSource] at hk
        · exact hk
    | selectSources c a m =>
        obtain rfl := Stmt.read.inj hstmt
        rwa [Holds, held_nextLock] at hk
    | checkMerged c a m =>
        obtain rfl := Stmt.read.inj hstmt
        rw [Holds] at hk ⊢
        simpa [Confirmations.held, Plan.locks, Plan.acted, Function.comp_def] using hk
    | readOriginal c a id =>
        obtain rfl := Stmt.read.inj hstmt
        dsimp only at hk
        split at hk
        · exact hk
        · exact hk
    | change o todo held => cases todo <;> simp [stmt] at hstmt
    | _ => simp [stmt] at hstmt

/-! ### The tables that an operation writes -/

section keeps

variable {rt : Runtime} {γ : Type} {view : Db → γ} (hm : MemoryService.Hidden view)
  (hh : HistoryService.Hidden view)

include hm

theorem updateItem_keeps (accountId : Uuid) (item : MemoryItem) (request : MemoryUpdate)
    (checked : Except Exc String) (context : AuditContext) :
    Tx.Keeps (Same view) (MemoryService.updateItem rt accountId item request checked context) := by
  unfold MemoryService.updateItem
  refine (Tx.Keeps.raiseIf _ _).bind fun _ => ?_
  refine (Tx.Keeps.ofExcept _).bind fun content => ?_
  refine (MemoryService.store_keeps hm _ _).bind fun _ => ?_
  exact (MemoryService.checkValidity_keeps _ _).bind fun _ =>
    MemoryService.finishUpdate_keeps hm _ _ _

theorem softDeleteItem_keeps (accountId : Uuid) (item : MemoryItem) (retentionDays : ℤ)
    (context : AuditContext) :
    Tx.Keeps (Same view) (MemoryService.softDeleteItem rt accountId item retentionDays context) := by
  unfold MemoryService.softDeleteItem
  split
  · exact Tx.Keeps.pure _
  · refine (Same.utcNow rt).bind fun deletedAt => ?_
    refine (Same.utcNow rt).bind fun now => ?_
    refine (MemoryService.store_keeps hm _ _).bind fun _ => ?_
    refine (MemoryService.recordVersion_keeps hm _ _ _).bind fun _ => ?_
    exact (AuditService.append_keeps hm.auditEvents).bind fun _ => MemoryService.refresh_keeps _

theorem restoreItem_keeps (accountId : Uuid) (item : MemoryItem) (context : AuditContext) :
    Tx.Keeps (Same view) (MemoryService.restoreItem rt accountId item context) := by
  unfold MemoryService.restoreItem
  refine (Same.utcNow rt).bind fun now => ?_
  refine (Tx.Keeps.raiseIf _ _).bind fun _ => ?_
  refine (MemoryService.store_keeps hm _ _).bind fun _ => ?_
  refine (MemoryService.recordVersion_keeps hm _ _ _).bind fun _ => ?_
  refine (MemoryService.requestIndex_keeps hm _).bind fun _ => ?_
  exact (AuditService.append_keeps hm.auditEvents).bind fun _ => MemoryService.refresh_keeps _

theorem createChecked_keeps (accountId : Uuid) (request : MemoryCreate)
    (checked : Except Exc PUnit) (context : AuditContext) :
    Tx.Keeps (Same view) (MemoryService.createChecked rt accountId request checked context) :=
  (Tx.Keeps.ofExcept _).bind fun _ => MemoryService.insert_keeps hm _ _ _

theorem markLoaded_keeps (accountId mergedId : Uuid) (source : MemoryItem) :
    Tx.Keeps (Same view) (MemoryService.markLoaded rt accountId mergedId source) := by
  unfold MemoryService.markLoaded
  refine (Tx.Keeps.gets _).bind fun row => ?_
  refine (Tx.Keeps.orRaise _ _).bind fun row => ?_
  exact (MemoryService.store_keeps hm _ _).bind fun _ => MemoryService.recordVersion_keeps hm _ _ _

theorem mergeSources_keeps (accountId : Uuid) (sourceIds : List Uuid) (sources : List MemoryItem)
    (target : MemoryCreate) (checked : Except Exc PUnit) (context : AuditContext) :
    Tx.Keeps (Same view)
      (MemoryService.mergeSources rt accountId sourceIds sources target checked context) := by
  unfold MemoryService.mergeSources
  refine (Tx.Keeps.raiseIf _ _).bind fun _ => ?_
  refine (createChecked_keeps hm _ _ _ _).bind fun merged => ?_
  refine (Tx.Keeps.forEach fun source => markLoaded_keeps hm _ _ source).bind fun _ => ?_
  exact (AuditService.append_keeps hm.auditEvents).bind fun _ => MemoryService.refresh_keeps _

include hh

omit hm in
theorem insertContinuation_keeps (accountId : Uuid) (original : Conversation)
    (context : AuditContext) :
    Tx.Keeps (Same view) (HistoryService.insertContinuation rt accountId original context) := by
  unfold HistoryService.insertContinuation
  refine (Same.newUuid rt).bind fun id => ?_
  refine (Tx.Keeps.gets _).bind fun began => ?_
  refine (Relation.add_keeps hh.conversations _).bind fun _ => ?_
  refine (Same.newUuid rt).bind fun linkId => ?_
  refine (Relation.add_keeps hh.conversationLinks _).bind fun _ => ?_
  exact (AuditService.append_keeps hh.auditEvents).bind fun _ => Tx.Keeps.pure _

omit hm in
theorem softDeleteRow_keeps (row : Conversation) (retentionDays : ℤ) (context : AuditContext) :
    Tx.Keeps (Same view) (HistoryService.softDeleteRow rt row retentionDays context) := by
  unfold HistoryService.softDeleteRow
  refine (Same.utcNow rt).bind fun deletedAt => ?_
  refine (Same.utcNow rt).bind fun now => ?_
  refine (Relation.save_keeps fun db => hh.conversations _ db).bind fun _ => ?_
  exact (AuditService.append_keeps hh.auditEvents).bind fun _ => Tx.Keeps.pure _

omit hm in
theorem restoreRow_keeps (row : Conversation) (context : AuditContext) :
    Tx.Keeps (Same view) (HistoryService.restoreRow rt row context) := by
  unfold HistoryService.restoreRow
  refine (Same.utcNow rt).bind fun now => ?_
  refine (Tx.Keeps.raiseIf _ _).bind fun _ => ?_
  refine (Relation.save_keeps fun db => hh.conversations _ db).bind fun _ => ?_
  exact (AuditService.append_keeps hh.auditEvents).bind fun _ => Tx.Keeps.pure _

/-- An operation writes nothing but the tables that a hidden view does not show. -/
theorem planWork_keeps (c : ConfirmRequest) (plan : Plan) :
    Tx.Keeps (Same view) (planWork out c plan) := by
  cases plan with
  | create request checked => exact (createChecked_keeps hm _ _ _ _).bind fun _ => Tx.Keeps.pure _
  | update item request checked =>
      exact (updateItem_keeps hm _ _ _ _ _).bind fun _ => Tx.Keeps.pure _
  | delete item retentionDays =>
      exact (softDeleteItem_keeps hm _ _ _ _).bind fun _ => Tx.Keeps.pure _
  | restore item => exact (restoreItem_keeps hm _ _ _).bind fun _ => Tx.Keeps.pure _
  | merge m checked => exact (mergeSources_keeps hm _ _ _ _ _ _).bind fun _ => Tx.Keeps.pure _
  | continueFrom original => exact (insertContinuation_keeps hh _ _ _).bind fun _ => Tx.Keeps.pure _
  | deleteConversation row retentionDays =>
      exact (softDeleteRow_keeps hh _ _ _).bind fun _ => Tx.Keeps.pure _
  | restoreConversation row => exact (restoreRow_keeps hh _ _).bind fun _ => Tx.Keeps.pure _

end keeps

/-! ### What an operation leaves alone -/

/-- The targets that were there are still the same, apart from the given ones. -/
def Stays (ks : List Target) (s s' : Session) : Prop :=
  ∀ k r, k ∉ ks → s.db.target? k = some r → s'.db.target? k = some r

instance (ks : List Target) : Std.Refl (Stays ks) := ⟨fun _ _ _ _ h => h⟩

instance (ks : List Target) : IsTrans Session (Stays ks) :=
  ⟨fun _ _ _ h h' k r hk hr => h' k r hk (h k r hk hr)⟩

/-- The two tables of targets. -/
def targetTables (db : Db) := (db.memoryItems, db.conversations)

theorem Stays.of_same {ks : List Target} {s s' : Session} (h : Same targetTables s s') :
    Stays ks s s' := by
  obtain ⟨hm, hc⟩ := Prod.mk.inj h
  intro k r _ hr
  cases k with
  | memory id => rwa [Db.target?, hm]
  | conversation id => rwa [Db.target?, hc]

theorem Stays.keeps {α : Type} {m : Work α} {ks : List Target} (h : Tx.Keeps (Same targetTables) m) :
    Tx.Keeps (Stays ks) m := fun s => Stays.of_same (h s)

section stays

variable {rt : Runtime} {ks : List Target}

theorem utcNow_stays : Tx.Keeps (Stays ks) (utcNow rt) := Stays.keeps (Same.utcNow rt)

theorem newUuid_stays : Tx.Keeps (Stays ks) (newUuid rt) := Stays.keeps (Same.newUuid rt)

theorem append_stays {context : AuditContext} {eventType result : String} {targetType : Option String}
    {targetId : Option Uuid} {details : List (String × Json)} :
    Tx.Keeps (Stays ks) (AuditService.append rt context eventType result targetType targetId details) :=
  Stays.keeps (AuditService.append_keeps fun _ _ => rfl)

theorem recordVersion_stays (item : MemoryItem) (accountId : Uuid) (changeKind : String) :
    Tx.Keeps (Stays ks) (MemoryService.recordVersion rt item accountId changeKind) :=
  newUuid_stays.bind fun _ => Stays.keeps (Relation.add_keeps (fun _ _ => rfl) _)

theorem requestIndex_stays (item : MemoryItem) :
    Tx.Keeps (Stays ks) (MemoryService.requestIndex rt item) :=
  newUuid_stays.bind fun _ => (Tx.Keeps.gets _).bind fun _ =>
    Stays.keeps (Relation.add_keeps (fun _ _ => rfl) _)

theorem refresh_stays (id : Uuid) : Tx.Keeps (Stays ks) (MemoryService.refresh id) :=
  Stays.keeps (MemoryService.refresh_keeps id)

/-- A memory item that is written is one of the given targets. -/
theorem saveMemory_stays {r : MemoryItem} (h : .memory r.id ∈ ks) :
    Tx.Keeps (Stays ks) (Db.memoryItem.save rt r) := by
  intro s
  cases hr : rt.rejectsUpdate (Db.memoryItem.row r) with
  | some c =>
      rw [Relation.save_of_rejected hr]
      exact Std.Refl.refl s
  | none =>
      rw [Relation.save_of_accepted hr]
      intro k x hk hx
      cases k with
      | conversation id => exact hx
      | memory id =>
          have hne : id ≠ r.id := by
            rintro rfl
            exact hk h
          change ((s.db.memoryItems.put r).find? id).map _ = _
          rwa [Table.find?_put_of_ne hne]

theorem saveConversation_stays {r : Conversation} (h : .conversation r.id ∈ ks) :
    Tx.Keeps (Stays ks) (Db.conversation.save rt r) := by
  intro s
  cases hr : rt.rejectsUpdate (Db.conversation.row r) with
  | some c =>
      rw [Relation.save_of_rejected hr]
      exact Std.Refl.refl s
  | none =>
      rw [Relation.save_of_accepted hr]
      intro k x hk hx
      cases k with
      | memory id => exact hx
      | conversation id =>
          have hne : id ≠ r.id := by
            rintro rfl
            exact hk h
          change ((s.db.conversations.put r).find? id).map _ = _
          rwa [Table.find?_put_of_ne hne]

/-- A new memory item replaces none. -/
theorem addMemory_stays (r : MemoryItem) : Tx.Keeps (Stays ks) (Db.memoryItem.add rt r) := by
  intro s
  rcases hs : Db.memoryItem.add rt r s with ⟨e | u, s'⟩
  · obtain rfl := (Relation.add_error hs).1
    exact Std.Refl.refl s'
  · obtain ⟨t, ht, rfl⟩ := Relation.add_eq_ok hs
    intro k x _ hx
    cases k with
    | conversation id => exact hx
    | memory id =>
        obtain ⟨item, hitem, rfl⟩ := Option.map_eq_some_iff.mp hx
        exact Option.map_eq_some_iff.mpr
          ⟨item, Table.find?_insert? (Relation.insertRow_eq_ok ht).1 hitem, rfl⟩

/-- A new conversation replaces none. -/
theorem addConversation_stays (r : Conversation) :
    Tx.Keeps (Stays ks) (Db.conversation.add rt r) := by
  intro s
  rcases hs : Db.conversation.add rt r s with ⟨e | u, s'⟩
  · obtain rfl := (Relation.add_error hs).1
    exact Std.Refl.refl s'
  · obtain ⟨t, ht, rfl⟩ := Relation.add_eq_ok hs
    intro k x _ hx
    cases k with
    | memory id => exact hx
    | conversation id =>
        obtain ⟨row, hrow, rfl⟩ := Option.map_eq_some_iff.mp hx
        exact Option.map_eq_some_iff.mpr
          ⟨row, Table.find?_insert? (Relation.insertRow_eq_ok ht).1 hrow, rfl⟩

theorem store_stays {old new : MemoryItem} (h : .memory new.id ∈ ks) :
    Tx.Keeps (Stays ks) (MemoryService.store rt old new) := by
  intro s
  unfold MemoryService.store
  split
  · exact Std.Refl.refl s
  · next hchanged =>
    rw [MemoryItem.flush, if_neg hchanged]
    exact saveMemory_stays (by exact h) s

theorem checkValidity_stays (validFrom validUntil : Option DateTime) :
    Tx.Keeps (Stays ks) (MemoryService.checkValidity validFrom validUntil) :=
  Stays.keeps (MemoryService.checkValidity_keeps _ _)

theorem updateItem_stays (accountId : Uuid) {item : MemoryItem} (request : MemoryUpdate)
    (checked : Except Exc String) (context : AuditContext) (h : .memory item.id ∈ ks) :
    Tx.Keeps (Stays ks) (MemoryService.updateItem rt accountId item request checked context) := by
  unfold MemoryService.updateItem MemoryService.finishUpdate
  refine (Tx.Keeps.raiseIf _ _).bind fun _ => ?_
  refine (Tx.Keeps.ofExcept _).bind fun content => ?_
  refine (store_stays (by exact h)).bind fun _ => ?_
  refine (checkValidity_stays _ _).bind fun _ => ?_
  refine (store_stays (by exact h)).bind fun _ => ?_
  refine (recordVersion_stays _ _ _).bind fun _ => ?_
  refine (requestIndex_stays _).bind fun _ => ?_
  exact append_stays.bind fun _ => refresh_stays _

theorem softDeleteItem_stays (accountId : Uuid) {item : MemoryItem} (retentionDays : ℤ)
    (context : AuditContext) (h : .memory item.id ∈ ks) :
    Tx.Keeps (Stays ks) (MemoryService.softDeleteItem rt accountId item retentionDays context) := by
  unfold MemoryService.softDeleteItem
  split
  · exact Tx.Keeps.pure _
  · refine utcNow_stays.bind fun deletedAt => ?_
    refine utcNow_stays.bind fun now => ?_
    refine (store_stays (by exact h)).bind fun _ => ?_
    refine (recordVersion_stays _ _ _).bind fun _ => ?_
    exact append_stays.bind fun _ => refresh_stays _

theorem restoreItem_stays (accountId : Uuid) {item : MemoryItem} (context : AuditContext)
    (h : .memory item.id ∈ ks) :
    Tx.Keeps (Stays ks) (MemoryService.restoreItem rt accountId item context) := by
  unfold MemoryService.restoreItem
  refine utcNow_stays.bind fun now => ?_
  refine (Tx.Keeps.raiseIf _ _).bind fun _ => ?_
  refine (store_stays (by exact h)).bind fun _ => ?_
  refine (recordVersion_stays _ _ _).bind fun _ => ?_
  refine (requestIndex_stays _).bind fun _ => ?_
  exact append_stays.bind fun _ => refresh_stays _

theorem createChecked_stays (accountId : Uuid) (request : MemoryCreate) (checked : Except Exc PUnit)
    (context : AuditContext) :
    Tx.Keeps (Stays ks) (MemoryService.createChecked rt accountId request checked context) := by
  unfold MemoryService.createChecked MemoryService.insert
  refine (Tx.Keeps.ofExcept _).bind fun _ => ?_
  refine utcNow_stays.bind fun now => ?_
  refine newUuid_stays.bind fun id => ?_
  refine (Tx.Keeps.gets _).bind fun began => ?_
  refine (addMemory_stays _).bind fun _ => ?_
  refine (recordVersion_stays _ _ _).bind fun _ => ?_
  refine newUuid_stays.bind fun sourceId => ?_
  refine (Stays.keeps (Relation.add_keeps (fun _ _ => rfl) _)).bind fun _ => ?_
  refine (requestIndex_stays _).bind fun _ => ?_
  exact append_stays.bind fun _ => refresh_stays _

theorem markLoaded_stays (accountId mergedId : Uuid) {source : MemoryItem}
    (h : .memory source.id ∈ ks) :
    Tx.Keeps (Stays ks) (MemoryService.markLoaded rt accountId mergedId source) := by
  intro s
  unfold MemoryService.markLoaded Relation.find
  rw [Tx.gets_bind_apply]
  cases hrow : (Db.memoryItem.get s.db).find? source.id with
  | none => exact Std.Refl.refl s
  | some row =>
      have hid : row.id = source.id := Table.key_of_find? hrow
      rw [Tx.orRaise_some, Tx.pure_bind]
      refine ((store_stays ?_).bind fun _ => recordVersion_stays _ _ _) s
      exact hid ▸ h

theorem mergeSources_stays (accountId : Uuid) (sourceIds : List Uuid) {sources : List MemoryItem}
    (target : MemoryCreate) (checked : Except Exc PUnit) (context : AuditContext)
    (h : ∀ source ∈ sources, .memory source.id ∈ ks) :
    Tx.Keeps (Stays ks)
      (MemoryService.mergeSources rt accountId sourceIds sources target checked context) := by
  unfold MemoryService.mergeSources
  refine (Tx.Keeps.raiseIf _ _).bind fun _ => ?_
  refine (createChecked_stays _ _ _ _).bind fun merged => ?_
  refine Tx.Keeps.bind ?_ fun _ => append_stays.bind fun _ => refresh_stays _
  induction sources with
  | nil => exact Tx.Keeps.pure _
  | cons source sources ih =>
      refine (markLoaded_stays _ _ (h source List.mem_cons_self)).bind fun _ => ?_
      refine (ih fun x hx => h x (List.mem_cons_of_mem _ hx)).bind fun _ => ?_
      exact Tx.Keeps.pure _

theorem insertContinuation_stays (accountId : Uuid) (original : Conversation)
    (context : AuditContext) :
    Tx.Keeps (Stays ks) (HistoryService.insertContinuation rt accountId original context) := by
  unfold HistoryService.insertContinuation
  refine newUuid_stays.bind fun id => ?_
  refine (Tx.Keeps.gets _).bind fun began => ?_
  refine (addConversation_stays _).bind fun _ => ?_
  refine newUuid_stays.bind fun linkId => ?_
  refine (Stays.keeps (Relation.add_keeps (fun _ _ => rfl) _)).bind fun _ => ?_
  exact append_stays.bind fun _ => Tx.Keeps.pure _

theorem softDeleteRow_stays {row : Conversation} (retentionDays : ℤ) (context : AuditContext)
    (h : .conversation row.id ∈ ks) :
    Tx.Keeps (Stays ks) (HistoryService.softDeleteRow rt row retentionDays context) := by
  unfold HistoryService.softDeleteRow
  refine utcNow_stays.bind fun deletedAt => ?_
  refine utcNow_stays.bind fun now => ?_
  refine (saveConversation_stays (by exact h)).bind fun _ => ?_
  exact append_stays.bind fun _ => Tx.Keeps.pure _

theorem restoreRow_stays {row : Conversation} (context : AuditContext)
    (h : .conversation row.id ∈ ks) :
    Tx.Keeps (Stays ks) (HistoryService.restoreRow rt row context) := by
  unfold HistoryService.restoreRow
  refine utcNow_stays.bind fun now => ?_
  refine (Tx.Keeps.raiseIf _ _).bind fun _ => ?_
  refine (saveConversation_stays (by exact h)).bind fun _ => ?_
  exact append_stays.bind fun _ => Tx.Keeps.pure _

theorem updateAction_stays (actionId : Uuid) (f : ToolAction → ToolAction) :
    Tx.Keeps (Stays ks) (updateAction out actionId f) :=
  Stays.keeps (updateAction_keeps (fun _ _ => rfl) _ _)

theorem completeRun_stays (action : ToolAction) : Tx.Keeps (Stays ks) (completeRun out action) := by
  unfold completeRun
  refine (Tx.Keeps.gets _).bind fun run => ?_
  cases run with
  | none => exact Tx.Keeps.pure _
  | some run =>
      refine (Tx.Keeps.gets _).bind fun remaining => ?_
      split
      · exact Stays.keeps (Relation.save_keeps fun _ => rfl)
      · exact Tx.Keeps.pure _

theorem failAction_stays (actionId : Uuid) (context : AuditContext) (e : Exc) :
    Tx.Keeps (Stays ks) (failAction out actionId context e) :=
  Stays.keeps (failAction_keeps (fun _ _ => rfl) (fun _ _ => rfl) _ _ _)

theorem concludeAction_stays (actionId : Uuid) (context : AuditContext) {work : Work Json}
    (h : Tx.Keeps (Stays ks) work) :
    Tx.Keeps (Stays ks) (concludeAction out actionId context work) := by
  unfold concludeAction
  refine utcNow_stays.bind fun confirmedAt => ?_
  refine (updateAction_stays _ _).bind fun action => ?_
  refine Tx.Keeps.handle ?_ fun e => ?_
  · refine h.bind fun result => ?_
    refine utcNow_stays.bind fun now => ?_
    refine (updateAction_stays _ _).bind fun action => ?_
    refine (completeRun_stays _).bind fun _ => ?_
    exact append_stays.bind fun _ => Tx.Keeps.pure _
  · exact (failAction_stays _ _ _).bind fun _ => Tx.Keeps.raise _

theorem expireAction_stays (actionId : Uuid) : Tx.Keeps (Stays ks) (expireAction out actionId) :=
  (updateAction_stays _ _).bind fun _ => Tx.Keeps.raise _

/-- The end of a session leaves alone what its work does. -/
theorem session_stays {α : Type} {m : Work α} (h : Tx.Keeps (Stays ks) m) :
    Tx.Keeps (Stays ks) (Database.session m) := by
  intro s
  rcases hm : m s with ⟨e | x, s'⟩
  · have hs' := h.of_apply hm
    by_cases he : e.Durable
    · rw [Database.session_of_durable hm he]
      exact hs'
    · rw [Database.session_of_rollback hm he]
      exact fun _ _ _ hr => hr
  · rw [Database.session_of_ok hm]
    exact h.of_apply hm

end stays

section publish

variable {c : ConfirmRequest}

/-- An operation writes no target that it has not locked. -/
theorem planWork_stays {plan : Plan} (h : ∀ m checked, plan = .merge m checked →
      ∀ source ∈ m.sources, ∃ t ∈ m.taken, t.1 = source.id) :
    Tx.Keeps (Stays plan.locks) (planWork out c plan) := by
  cases plan with
  | create request checked => exact (createChecked_stays _ _ _ _).bind fun _ => Tx.Keeps.pure _
  | update item request checked =>
      exact (updateItem_stays _ _ _ _ (List.mem_singleton.mpr rfl)).bind fun _ => Tx.Keeps.pure _
  | delete item retentionDays =>
      exact (softDeleteItem_stays _ _ _ (List.mem_singleton.mpr rfl)).bind fun _ => Tx.Keeps.pure _
  | restore item =>
      exact (restoreItem_stays _ _ (List.mem_singleton.mpr rfl)).bind fun _ => Tx.Keeps.pure _
  | merge m checked =>
      refine (mergeSources_stays _ _ _ _ _ fun source hs => ?_).bind fun _ => Tx.Keeps.pure _
      obtain ⟨t, ht, hid⟩ := h m checked rfl source hs
      exact List.mem_map.mpr ⟨(.memory t.1, t.2), List.mem_map.mpr ⟨t, ht, rfl⟩, by rw [hid]⟩
  | continueFrom original => exact (insertContinuation_stays _ _ _).bind fun _ => Tx.Keeps.pure _
  | deleteConversation row retentionDays =>
      exact (softDeleteRow_stays _ _ (List.mem_singleton.mpr rfl)).bind fun _ => Tx.Keeps.pure _
  | restoreConversation row =>
      exact (restoreRow_stays _ (List.mem_singleton.mpr rfl)).bind fun _ => Tx.Keeps.pure _

/-- What is published leaves alone what the work does. -/
theorem target?_publishWork {ks : List Target} {work : Work Json} (h : Tx.Keeps (Stays ks) work)
    {db : Db} {k : Target} {r : MemoryItem ⊕ Conversation} (hk : k ∉ ks) (hr : db.target? k = some r) :
    (publishWork out c work db).target? k = some r :=
  session_stays (concludeAction_stays _ _ h) (c.session db) k r hk hr

theorem target?_publishExpiry {db : Db} {k : Target} {r : MemoryItem ⊕ Conversation}
    (hr : db.target? k = some r) : (publishExpiry out c db).target? k = some r :=
  session_stays (expireAction_stays _) (c.session db) k r (@List.not_mem_nil _ k) hr

end publish

end KajovoDagmar.Confirmations
