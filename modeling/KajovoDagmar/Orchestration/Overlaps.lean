import KajovoDagmar.Memory.Edits
import KajovoDagmar.Orchestration.Atomicity
import KajovoDagmar.Orchestration.Locks
import KajovoDagmar.Orchestration.Outcomes

/-! # Memory transactions that overlap

The operations of `MemoryService` on their own, as the API calls them, and within
`confirm_action`, under READ COMMITTED.  Three mechanisms keep a change from being lost: the row
lock, the guard of the expected version, and the unique key of the version rows.  The sources of
a confirmed merge are loaded before they are locked, so that only the last one protects them.

A confirmed update that is refused for its validity is committed with what it has assigned, in
the version that stood: this is the one change that raises no version. -/

namespace KajovoDagmar

open ReadCommitted MemoryService

/-! ### Edits within a confirmation -/

/-- The edit that is left to do, when the operation is one on the memory and its checks have
passed. -/
def Plan.edit? : Plan → Option Edit
  | .create request (.ok _) => some (.create request)
  | .update item request (.ok content) => some (.update item request content)
  | .delete item retentionDays => some (.delete item retentionDays)
  | .restore item => some (.restore item)
  | .merge m (.ok _) => some (.merge m.sourceIds m.sources m.target)
  | _ => none

namespace Confirmations

open OrchestrationService

variable {out : Outside}

/-- The work of a plan is its edit. -/
theorem planWork_of_edit {c : ConfirmRequest} {plan : Plan} {e : Edit} (h : plan.edit? = some e) :
    ∃ result : MemoryItem → Json, planWork out c plan = (do
      let item ← e.work out.toRuntime c.accountId c.context
      pure (result item)) := by
  cases plan with
  | create request checked =>
      cases checked with
      | error x => simp [Plan.edit?] at h
      | ok u =>
          obtain rfl := Option.some.inj h
          exact ⟨_, rfl⟩
  | update item request checked =>
      cases checked with
      | error x => simp [Plan.edit?] at h
      | ok content =>
          obtain rfl := Option.some.inj h
          exact ⟨_, rfl⟩
  | delete item retentionDays =>
      obtain rfl := Option.some.inj h
      exact ⟨_, rfl⟩
  | restore item =>
      obtain rfl := Option.some.inj h
      exact ⟨_, rfl⟩
  | merge m checked =>
      cases checked with
      | error x => simp [Plan.edit?] at h
      | ok u =>
          obtain rfl := Option.some.inj h
          exact ⟨_, rfl⟩
  | _ => simp [Plan.edit?] at h

/-- Any other plan leaves the memory rows alone. -/
theorem planWork_of_none {c : ConfirmRequest} {plan : Plan} (h : plan.edit? = none) :
    Tx.Keeps (Same Db.memoryRows) (planWork out c plan) := by
  have hh : HistoryService.Hidden Db.memoryRows := by constructor <;> intros <;> rfl
  cases plan with
  | create request checked =>
      cases checked with
      | error x => exact (Tx.Keeps.raise x).bind fun _ => Tx.Keeps.pure _
      | ok u => simp [Plan.edit?] at h
  | update item request checked =>
      cases checked with
      | error x =>
          refine Tx.Keeps.bind ?_ fun _ => Tx.Keeps.pure _
          unfold MemoryService.updateItem
          exact (Tx.Keeps.raiseIf _ _).bind fun _ => fun s => rfl
      | ok content => simp [Plan.edit?] at h
  | merge m checked =>
      cases checked with
      | error x =>
          refine Tx.Keeps.bind ?_ fun _ => Tx.Keeps.pure _
          unfold MemoryService.mergeSources MemoryService.createChecked
          exact (Tx.Keeps.raiseIf _ _).bind fun _ => fun s => rfl
      | ok u => simp [Plan.edit?] at h
  | continueFrom original =>
      exact (insertContinuation_keeps hh _ _ _).bind fun _ => Tx.Keeps.pure _
  | deleteConversation row retentionDays =>
      exact (softDeleteRow_keeps hh _ _ _).bind fun _ => Tx.Keeps.pure _
  | restoreConversation row => exact (restoreRow_keeps hh _ _).bind fun _ => Tx.Keeps.pure _
  | _ => simp [Plan.edit?] at h

/-- A confirmation that is not rolled back, in a view that shows neither the actions nor the runs
nor the audit trail: what its work has done, and the work has returned or raised a domain
error. -/
theorem concludeAction_view {γ : Type} {view : Db → γ}
    (ha : ∀ r db, view { db with toolActions := db.toolActions.put r } = view db)
    (hr : ∀ t db, view { db with orchestrationRuns := t } = view db)
    (haudit : ∀ t db, view { db with auditEvents := t } = view db)
    {actionId : Uuid} {context : AuditContext} {work : Work Json} {r : Except Exc ToolAction}
    {s s' : Session} (h : concludeAction out actionId context work s = (r, s')) :
    (∃ e, r = .error e ∧ ¬e.Durable) ∨ ∃ s₁ x s₂, view s₁.db = view s.db ∧ s₁.began = s.began ∧
      work s₁ = (x, s₂) ∧ view s'.db = view s₂.db ∧ ∀ e, x = .error e → e.IsDomain := by
  unfold concludeAction at h
  rcases Tx.bind_cases h with ⟨e, he, rfl⟩ | ⟨confirmedAt, s₁, h₁, h⟩
  · simp [utcNow] at he
  have hview₁ : view s₁.db = view s.db := by rw [← (Prod.mk.inj h₁).2]
  have hbegan₁ : s₁.began = s.began := by rw [← (Prod.mk.inj h₁).2]
  rcases Tx.bind_cases h with ⟨e, he, rfl⟩ | ⟨running, s₂, h₂, h⟩
  · exact .inl ⟨e, rfl, fun hd => updateAction_noDomain _ _ _ e (by rw [he]) hd.isDomain⟩
  have hview₂ : view s₂.db = view s.db := ((updateAction_keeps ha _ _).of_apply h₂).trans hview₁
  have hbegan₂ : s₂.began = s.began := by
    obtain ⟨stored, -, -, rfl⟩ := updateAction_ok h₂
    exact hbegan₁
  rcases Tx.handle_cases h with ⟨a, hbody, rfl⟩ | ⟨e, s₃, hbody, h⟩
  · obtain ⟨result, s₃, h₃, hrest⟩ := Tx.bind_eq_ok hbody
    refine .inr ⟨s₂, .ok result, s₃, hview₂, hbegan₂, h₃, ?_, fun e he => by simp at he⟩
    refine Tx.Keeps.of_apply (R := Same view) ?_ hrest
    refine (Same.utcNow _).bind fun now => (updateAction_keeps ha _ _).bind fun action => ?_
    refine (completeRun_keeps (fun _ _ => hr _ _) _).bind fun _ => ?_
    exact (AuditService.append_keeps haudit).bind fun _ => Tx.Keeps.pure _
  · rcases Tx.bind_cases h with ⟨e', he', rfl⟩ | ⟨u, s₄, h₄, h⟩
    · exact .inl ⟨e', rfl, fun hd => failAction_noDomain _ _ _ _ e' (by rw [he']) hd.isDomain⟩
    obtain ⟨hr, rfl⟩ := Prod.mk.inj h
    have hview₄ : view s₄.db = view s₃.db := (failAction_keeps ha haudit _ _ _).of_apply h₄
    by_cases he : e.IsDomain
    swap
    · exact .inl ⟨e.markDurable, hr.symm, fun hd => he ((Exc.durable_markDurable e).mp hd)⟩
    · rcases Tx.bind_eq_error hbody with hw | ⟨result, s₅, -, hrest⟩
      · refine .inr ⟨s₂, .error e, s₃, hview₂, hbegan₂, hw, hview₄, fun e' he' => ?_⟩
        rw [← Except.error.inj he']
        exact he
      · exact absurd he (recordResult_noDomain _ result context s₅ e (by rw [hrest]))

/-- The memory rows after the commit of a confirmation. -/
theorem publishWork_memory (c : ConfirmRequest) (work : Work Json) (db : Db) :
    (publishWork out c work db).memoryRows = db.memoryRows ∨ ∃ s₁ x s₂,
      s₁.db.memoryRows = db.memoryRows ∧ s₁.began = c.began ∧ work s₁ = (x, s₂) ∧
      (publishWork out c work db).memoryRows = s₂.db.memoryRows ∧
      ∀ e, x = .error e → e.IsDomain := by
  unfold publishWork
  rcases hs : Database.session (concludeAction out c.actionId c.context work) (c.session db)
    with ⟨r, s'⟩
  rcases session_cases hs with ⟨hm, hdurable⟩ | ⟨hdb, -⟩
  · rcases @concludeAction_view out _ Db.memoryRows (fun _ _ => rfl) (fun _ _ => rfl)
      (fun _ _ => rfl) _ _ _ _ _ _ hm with ⟨e, he, hnot⟩ | hwork
    · exact absurd (hdurable e he) hnot
    · exact .inr hwork
  · exact .inl (congrArg Db.memoryRows hdb)

end Confirmations
/-! ### The program -/

namespace Overlaps

/-- A request to the memory API, with the start of its transaction and the first reading of its
clock. -/
structure Request where
  accountId : Uuid
  context : AuditContext
  began : DateTime
  tick : ℕ

def Request.session (d : Request) (db : Db) : Session := { db := db, began := d.began, tick := d.tick }

/-- The operations on one item. -/
inductive ItemOperation where
  | confirm (expectedVersion : ℤ)
  | update (request : MemoryUpdate)
  | softDelete (expectedVersion retentionDays : ℤ)
  | restore (expectedVersion : ℤ)

def ItemOperation.expectedVersion : ItemOperation → ℤ
  | confirm expectedVersion | softDelete expectedVersion _ | restore expectedVersion => expectedVersion
  | update request => request.expectedVersion.val

/-- Where a transaction stands: its next statement, with what it has read. -/
inductive Stage where
  | confirmation (t : KajovoDagmar.Stage)
  | create (d : Request) (request : MemoryCreate)
  | item (d : Request) (memoryId : Uuid) (op : ItemOperation)
  | checkContent (d : Request) (item : MemoryItem) (request : MemoryUpdate)
  | merge (d : Request) (sourceIds : List Uuid) (target : MemoryCreate)
  | lockSource (d : Request) (sourceIds : List Uuid) (target : MemoryCreate)
      (sources : List MemoryItem) (todo : List Uuid)
  | finish (d : Request) (e : Edit)
  /-- The session is rolled back. -/
  | refused

section program

variable (out : Outside)

/-- The outcome of the checks of `create` on the committed store. -/
def createOutcome (d : Request) (request : MemoryCreate) (db : Db) : Except Exc PUnit :=
  (checkCreate out.toRuntime d.accountId request (d.session db)).1

/-- What the commit of an edit publishes. -/
def publishEdit (d : Request) (e : Edit) (db : Db) : Db :=
  (Database.session (e.work out.toRuntime d.accountId d.context) (d.session db)).2.db

/-- An operation on the locked item. -/
def onItem (d : Request) (item : MemoryItem) : ItemOperation → Stage
  | .confirm _ => .finish d (.confirm item)
  | .update request => .checkContent d item request
  | .softDelete _ retentionDays => .finish d (.delete item retentionDays)
  | .restore _ => .finish d (.restore item)

/-- The next statement of a transaction. -/
def stmt : Stage → Stmt Lockable Db Stage
  | .confirmation t => (Confirmations.stmt out t).map .confirmation
  | .create d request => .read fun db =>
    match createOutcome out d request db with
    | .error _ => .refused
    | .ok _ => .finish d (.create request)
  | .item d memoryId op => .lock (.target (.memory memoryId)) fun db =>
    match item? db d.accountId memoryId with
    | none => .refused
    | some item => if item.version ≠ op.expectedVersion then .refused else onItem d item op
  | .checkContent d item request => .read fun db =>
    match updatedContent out.toRuntime db d.accountId item request with
    | .error _ => .refused
    | .ok content => .finish d (.update item request content)
  | .merge d sourceIds target => .read fun db =>
    if sourceIds.dedup.length < 2 then .refused
    else .lockSource d sourceIds target [] ((sourcesOf db d.accountId sourceIds).map MemoryItem.id)
  | .lockSource d sourceIds target sources (id :: todo) => .lock (.target (.memory id)) fun db =>
    .lockSource d sourceIds target (sources ++ (item? db d.accountId id).toList) todo
  | .lockSource d sourceIds target sources [] => .read fun db =>
    match createOutcome out d { target with confirmed := true } db with
    | .error _ => .refused
    | .ok _ => .finish d (.merge sourceIds sources target)
  | .finish d e => .commit fun db => some (publishEdit out d e db)
  | .refused => .commit some

/-- A transaction begins with a confirmation or with a request to the memory API. -/
def initial : Stage → Bool
  | .confirmation (.confirm _) => true
  | .create _ _ | .item _ _ _ | .merge _ _ _ => true
  | _ => false

/-- Memory transactions, interleaved. -/
abbrev step := ReadCommitted.step (stmt out) initial

end program

/-! ### Locks -/

variable {out : Outside}

/-- The objects that the commit of a transaction changes. -/
def objects : Stage → List MemoryItem
  | .confirmation (.finish _ _ plan) => (plan.edit?.map Edit.objects).getD []
  | .finish _ e => e.objects
  | _ => []

/-- The rows that a transaction owns, apart from the run of an action. -/
def held : Stage → List Lockable
  | .confirmation t => Confirmations.held t
  | .checkContent _ item _ => [.target (.memory item.id)]
  | .lockSource _ _ _ sources _ => sources.map fun x => .target (.memory x.id)
  | .finish _ e => e.objects.map fun x => .target (.memory x.id)
  | .create _ _ | .item _ _ _ | .merge _ _ _ | .refused => []

def Holds (t : Stage) (k : Lockable) : Prop := k ∈ held t

/-- The row ownership of the program. -/
theorem discipline : Discipline (stmt out) initial Holds where
  start := by
    intro t k ht hk
    cases t with
    | confirmation t =>
        cases t with
        | confirm c => exact List.not_mem_nil hk
        | _ => simp [initial] at ht
    | create d request => exact List.not_mem_nil hk
    | item d memoryId op => exact List.not_mem_nil hk
    | merge d sourceIds target => exact List.not_mem_nil hk
    | _ => simp [initial] at ht
  lock := by
    intro t k next store k' hstmt hk'
    cases t with
    | confirmation t =>
        obtain ⟨next', hstmt', rfl⟩ := Stmt.map_eq_lock hstmt
        exact Confirmations.discipline.lock hstmt' hk'
    | item d memoryId op =>
        obtain ⟨rfl, rfl⟩ := Stmt.lock.inj hstmt
        dsimp only at hk'
        split at hk'
        · exact absurd hk' List.not_mem_nil
        · next item hitem =>
          split at hk'
          · exact absurd hk' List.not_mem_nil
          · have hheld : held (onItem d item op) = [.target (.memory item.id)] := by
              cases op <;> rfl
            rw [Holds, hheld, Confirmations.id_of_item? hitem] at hk'
            exact .inl (List.mem_singleton.mp hk')
    | lockSource d sourceIds target sources todo =>
        cases todo with
        | nil => simp [stmt] at hstmt
        | cons id todo =>
            obtain ⟨rfl, rfl⟩ := Stmt.lock.inj hstmt
            simp only [Holds, held, List.map_append, List.mem_append] at hk'
            rcases hk' with hk' | hk'
            · exact .inr hk'
            · obtain ⟨item, hitem, rfl⟩ := List.mem_map.mp hk'
              rw [Confirmations.id_of_item? (Option.mem_toList.mp hitem)]
              exact .inl rfl
    | _ => simp [stmt] at hstmt
  read := by
    intro t next store k hstmt hk
    cases t with
    | confirmation t =>
        obtain ⟨next', hstmt', rfl⟩ := Stmt.map_eq_read hstmt
        exact Confirmations.discipline.read hstmt' hk
    | create d request =>
        obtain rfl := Stmt.read.inj hstmt
        dsimp only at hk
        split at hk
        · exact absurd hk List.not_mem_nil
        · exact absurd hk List.not_mem_nil
    | checkContent d item request =>
        obtain rfl := Stmt.read.inj hstmt
        dsimp only at hk
        split at hk
        · exact absurd hk List.not_mem_nil
        · exact hk
    | merge d sourceIds target =>
        obtain rfl := Stmt.read.inj hstmt
        dsimp only at hk
        split at hk
        · exact absurd hk List.not_mem_nil
        · exact absurd hk List.not_mem_nil
    | lockSource d sourceIds target sources todo =>
        cases todo with
        | nil =>
            obtain rfl := Stmt.read.inj hstmt
            dsimp only at hk
            split at hk
            · exact absurd hk List.not_mem_nil
            · exact hk
        | cons id todo => simp [stmt] at hstmt
    | _ => simp [stmt] at hstmt

/-! ### What a transaction knows -/

/-- A merge whose sources are being locked: its objects are distinct, they are rows or were loaded
in earlier versions, and their rows have been locked. -/
structure Taking (db : Db) (m : Merge) (todo : List Uuid) : Prop where
  loaded : ∀ x ∈ m.loaded, Loaded db x
  distinct : (m.sources.map MemoryItem.id ++ todo).Nodup
  sources : ∀ x ∈ m.sources, Loaded db x
  taken : ∀ x ∈ m.sources, ∃ v, (x.id, v) ∈ m.taken

/-- What a confirmation knows about the objects that it has loaded. -/
def ConfirmationKnows (db : Db) : KajovoDagmar.Stage → Prop
  | .change _ _ _ => False
  | .checkContent _ _ item _ => db.memoryItems.find? item.id = some item
  | .loadSource _ _ _ _ _ loaded => ∀ x ∈ loaded, Loaded db x
  | .selectSources _ _ m => (∀ x ∈ m.loaded, Loaded db x) ∧ m.sources = []
  | .lockSource _ _ m id todo => Taking db m (id :: todo)
  | .checkMerged _ _ m => Taking db m []
  | .finish _ _ plan => ∀ e, plan.edit? = some e → e.Known db ∧
      ∀ x ∈ e.objects, .memory x.id ∈ plan.locks
  | _ => True

/-- What a transaction knows about its objects. -/
def Knows (db : Db) : Stage → Prop
  | .confirmation t => ConfirmationKnows db t
  | .checkContent _ item _ => db.memoryItems.find? item.id = some item
  | .lockSource _ _ _ sources todo => (sources.map MemoryItem.id ++ todo).Nodup ∧
      ∀ x ∈ sources, Loaded db x
  | .finish _ e => e.Known db
  | .create _ _ | .item _ _ _ | .merge _ _ _ | .refused => True

section knows

variable {db : Db} {c : ConfirmRequest} {a : ToolAction}

theorem loaded_of_item? {accountId id : Uuid} {item : MemoryItem}
    (h : item? db accountId id = some item) : Loaded db item :=
  ⟨item, item?_mem h, .inl rfl⟩

theorem knows_nextSource {todo : List (String × Json)} {loaded : List MemoryItem}
    (h : ∀ x ∈ loaded, Loaded db x) :
    ConfirmationKnows db (Confirmations.nextSource out c a todo loaded) := by
  cases todo with
  | cons source todo =>
      simp only [Confirmations.nextSource]
      split
      · trivial
      · exact h
  | nil =>
      simp only [Confirmations.nextSource]
      split
      · trivial
      split
      · trivial
      split
      · trivial
      · exact ⟨h, rfl⟩

theorem knows_nextLock {m : Merge} {todo : List Uuid} (h : Taking db m todo) :
    ConfirmationKnows db (Confirmations.nextLock c a m todo) := by
  cases todo with
  | nil => exact h
  | cons id todo => exact h

theorem knows_executeFirst : ConfirmationKnows db (Confirmations.executeFirst out c a) := by
  unfold Confirmations.executeFirst
  split
  · trivial
  split
  · split <;> trivial
  split
  · split <;> trivial
  split
  · trivial
  split
  · split <;> trivial
  split
  · split
    · trivial
    · exact knows_nextSource fun x hx => absurd hx List.not_mem_nil
  split
  · split <;> trivial
  split
  · split <;> trivial
  · trivial

theorem knows_retained : ConfirmationKnows db (Confirmations.retained out c a db) := by
  unfold Confirmations.retained
  split <;> split <;> trivial

theorem knows_confirmed : ConfirmationKnows db (Confirmations.confirmed out c db) := by
  unfold Confirmations.confirmed
  split
  · trivial
  split
  · trivial
  split
  · trivial
  · exact knows_executeFirst

theorem knows_onMemory {item : MemoryItem} {op : MemoryOperation}
    (h : db.memoryItems.find? item.id = some item) :
    ConfirmationKnows db (Confirmations.onMemory c a item op) := by
  cases op with
  | update request => exact h
  | delete retentionDays =>
      rintro e he
      obtain rfl := Option.some.inj he
      refine ⟨fun x hx => ?_, fun x hx => ?_⟩
      · obtain rfl := List.mem_singleton.mp hx
        exact h
      · obtain rfl := List.mem_singleton.mp hx
        exact List.mem_singleton.mpr rfl
  | restore =>
      rintro e he
      obtain rfl := Option.some.inj he
      refine ⟨fun x hx => ?_, fun x hx => ?_⟩
      · obtain rfl := List.mem_singleton.mp hx
        exact h
      · obtain rfl := List.mem_singleton.mp hx
        exact List.mem_singleton.mpr rfl

/-- A plan that is no edit of items works on no objects. -/
theorem knows_finish {plan : Plan} (h : plan.edit? = none) :
    ConfirmationKnows db (.finish c a plan) := by
  intro e he
  rw [h] at he
  simp at he

theorem knows_onConversation {row : Conversation} {op : HistoryOperation} :
    ConfirmationKnows db (Confirmations.onConversation c a row op) := by
  cases op <;> exact knows_finish rfl

/-- The object of a source that has been locked. -/
theorem sourceObject_cases (m : Merge) (row : MemoryItem) :
    Confirmations.sourceObject c m row = row ∨
      Confirmations.sourceObject c m row ∈ m.loaded ∧ (Confirmations.sourceObject c m row).id = row.id := by
  unfold Confirmations.sourceObject
  cases hfind : m.loaded.find? fun item => item.id = row.id with
  | none => exact .inl rfl
  | some x =>
      have hid : x.id = row.id := by simpa using List.find?_some hfind
      cases halive : c.alive row.id with
      | false => simp [Option.filter]
      | true =>
          refine .inr ?_
          simp only [Option.filter, if_true, Option.getD_some]
          exact ⟨List.mem_of_find?_eq_some hfind, hid⟩

/-- One more source is locked. -/
theorem Taking.take {m : Merge} {id : Uuid} {todo : List Uuid} {row : MemoryItem}
    (h : Taking db m (id :: todo)) (hrow : item? db c.accountId id = some row) :
    Taking db (Confirmations.takeSource c m row) todo := by
  have hid : row.id = id := Confirmations.id_of_item? hrow
  obtain ⟨x, hx⟩ : ∃ x, Confirmations.sourceObject c m row = x := ⟨_, rfl⟩
  have hobject : x.id = id ∧ Loaded db x := by
    rcases sourceObject_cases m row with hsame | ⟨hmem, hsame⟩ <;> rw [hx] at hsame
    · rw [hsame]
      exact ⟨hid, loaded_of_item? hrow⟩
    · rw [hx] at hmem
      exact ⟨hsame.trans hid, h.loaded x hmem⟩
  have hsources : (Confirmations.takeSource c m row).sources = m.sources ++ [x] := by
    rw [← hx]
    rfl
  constructor
  · exact h.loaded
  · rw [hsources, List.map_append, List.append_assoc]
    simp only [List.map_cons, List.map_nil, List.cons_append, List.nil_append, hobject.1]
    exact h.distinct
  · intro y hy
    rw [hsources] at hy
    rcases List.mem_append.mp hy with hy | hy
    · exact h.sources y hy
    · obtain rfl := List.mem_singleton.mp hy
      exact hobject.2
  · intro y hy
    rw [hsources] at hy
    rcases List.mem_append.mp hy with hy | hy
    · obtain ⟨v, hv⟩ := h.taken y hy
      exact ⟨v, List.mem_append_left _ hv⟩
    · obtain rfl := List.mem_singleton.mp hy
      refine ⟨row.version, List.mem_append_right _ ?_⟩
      rw [hobject.1, ← hid]
      exact List.mem_singleton.mpr rfl

/-- A source that is not there any more is skipped. -/
theorem Taking.skip {m : Merge} {id : Uuid} {todo : List Uuid} (h : Taking db m (id :: todo)) :
    Taking db m todo where
  loaded := h.loaded
  distinct := by
    refine h.distinct.sublist ?_
    exact List.Sublist.append_left (List.sublist_cons_self id todo) _
  sources := h.sources
  taken := h.taken

/-- The items that a merge selects are distinct. -/
theorem select_nodup (p : MemoryItem → Bool) :
    ((db.memoryItems.select p).map MemoryItem.id).Nodup :=
  (List.filter_sublist.map _).nodup db.memoryItems.nodup

/-- Waiting for a row keeps what is known, on the store that is then seen. -/
theorem knows_lock (db : Db) (t : Stage) (k : Lockable) (next : Db → Stage)
    (hstmt : stmt out t = .lock k next) (h : Knows db t) : Knows db (next db) := by
  cases t with
  | confirmation t =>
      obtain ⟨next', hstmt', rfl⟩ := Stmt.map_eq_lock hstmt
      cases t with
      | confirm c =>
          obtain ⟨rfl, rfl⟩ := Stmt.lock.inj hstmt'
          dsimp only
          split <;> trivial
      | lockRun c runId =>
          obtain ⟨rfl, rfl⟩ := Stmt.lock.inj hstmt'
          exact knows_confirmed
      | lockMemory c a id expected op =>
          obtain ⟨rfl, rfl⟩ := Stmt.lock.inj hstmt'
          dsimp only
          split
          · trivial
          · next item hitem =>
            split
            · trivial
            · exact knows_onMemory (item?_mem hitem)
      | lockSource c a m id todo =>
          obtain ⟨rfl, rfl⟩ := Stmt.lock.inj hstmt'
          dsimp only
          split
          · exact knows_nextLock (Taking.skip h)
          · next row hrow => exact knows_nextLock (Taking.take h hrow)
      | lockConversation c a id expected op =>
          obtain ⟨rfl, rfl⟩ := Stmt.lock.inj hstmt'
          dsimp only
          split
          · trivial
          split
          · trivial
          · exact knows_onConversation
      | change o todo held => exact False.elim h
      | _ => simp [Confirmations.stmt] at hstmt'
  | item d memoryId op =>
      obtain ⟨rfl, rfl⟩ := Stmt.lock.inj hstmt
      dsimp only
      split
      · trivial
      · next item hitem =>
        split
        · trivial
        · have hfind := item?_mem hitem
          cases op with
          | update request => exact hfind
          | _ =>
              intro x hx
              obtain rfl := List.mem_singleton.mp hx
              exact hfind
  | lockSource d sourceIds target sources todo =>
      cases todo with
      | nil => simp [stmt] at hstmt
      | cons id todo =>
          obtain ⟨rfl, rfl⟩ := Stmt.lock.inj hstmt
          obtain ⟨hnodup, hloaded⟩ := h
          cases hitem : item? db d.accountId id with
          | none =>
              refine ⟨?_, ?_⟩
              · rw [hitem, Option.toList_none, List.append_nil]
                exact hnodup.sublist (List.Sublist.append_left (List.sublist_cons_self id todo) _)
              · rw [hitem, Option.toList_none, List.append_nil]
                exact hloaded
          | some item =>
              have hid : item.id = id := Confirmations.id_of_item? hitem
              refine ⟨?_, ?_⟩
              · simp only [hitem, Option.toList_some, List.map_append, List.map_cons, List.map_nil, hid,
                  List.append_assoc, List.cons_append, List.nil_append]
                exact hnodup
              · intro x hx
                rw [hitem, Option.toList_some] at hx
                rcases List.mem_append.mp hx with hx | hx
                · exact hloaded x hx
                · obtain rfl := List.mem_singleton.mp hx
                  exact loaded_of_item? hitem
  | _ => simp [stmt] at hstmt

theorem knows_read (db : Db) (t : Stage) (next : Db → Stage) (hstmt : stmt out t = .read next)
    (h : Knows db t) : Knows db (next db) := by
  cases t with
  | confirmation t =>
      obtain ⟨next', hstmt', rfl⟩ := Stmt.map_eq_read hstmt
      cases t with
      | retention c a =>
          obtain rfl := Stmt.read.inj hstmt'
          exact knows_retained
      | checkContent c a item request =>
          obtain rfl := Stmt.read.inj hstmt'
          have hfind : db.memoryItems.find? item.id = some item := h
          intro e he
          cases hchecked : updatedContent out.toRuntime db c.accountId item request with
          | error x => simp [Plan.edit?, hchecked] at he
          | ok content =>
              rw [hchecked] at he
              obtain rfl := Option.some.inj he
              refine ⟨fun x hx => ?_, fun x hx => ?_⟩
              · obtain rfl := List.mem_singleton.mp hx
                exact hfind
              · obtain rfl := List.mem_singleton.mp hx
                exact List.mem_singleton.mpr rfl
      | checkCreated c a request =>
          obtain rfl := Stmt.read.inj hstmt'
          intro e he
          cases hchecked : Confirmations.createOutcome out c request db with
          | error x => simp [Plan.edit?, hchecked] at he
          | ok u =>
              rw [hchecked] at he
              obtain rfl := Option.some.inj he
              exact ⟨fun x hx => absurd hx List.not_mem_nil, fun x hx => absurd hx List.not_mem_nil⟩
      | loadSource c a id source todo loaded =>
          obtain rfl := Stmt.read.inj hstmt'
          dsimp only
          split
          · trivial
          · next item hitem =>
            split
            · refine knows_nextSource fun x hx => ?_
              rcases List.mem_append.mp hx with hx | hx
              · exact h x hx
              · obtain rfl := List.mem_singleton.mp hx
                exact loaded_of_item? hitem
            · trivial
      | selectSources c a m =>
          obtain rfl := Stmt.read.inj hstmt'
          obtain ⟨hloaded, hsources⟩ := h
          refine knows_nextLock ⟨hloaded, ?_, ?_, ?_⟩
          · rw [hsources]
            exact select_nodup _
          · rw [hsources]
            exact fun x hx => absurd hx List.not_mem_nil
          · rw [hsources]
            exact fun x hx => absurd hx List.not_mem_nil
      | checkMerged c a m =>
          obtain rfl := Stmt.read.inj hstmt'
          have htaking : Taking db m [] := h
          intro e he
          cases hchecked : Confirmations.createOutcome out c { m.target with confirmed := true } db with
          | error x => simp [Plan.edit?, hchecked] at he
          | ok u =>
              rw [hchecked] at he
              obtain rfl := Option.some.inj he
              refine ⟨⟨?_, htaking.sources⟩, fun x hx => ?_⟩
              · have hdistinct := htaking.distinct
                rw [List.append_nil] at hdistinct
                exact hdistinct
              · obtain ⟨v, hv⟩ := htaking.taken x hx
                exact List.mem_map.mpr ⟨(.memory x.id, v), List.mem_map.mpr ⟨(x.id, v), hv, rfl⟩, rfl⟩
      | readOriginal c a id =>
          obtain rfl := Stmt.read.inj hstmt'
          dsimp only
          split
          · trivial
          · exact @knows_finish _ c a _ rfl
      | change o todo held => exact False.elim h
      | _ => simp [Confirmations.stmt] at hstmt'
  | create d request =>
      obtain rfl := Stmt.read.inj hstmt
      dsimp only
      split
      · trivial
      · exact fun x hx => absurd hx List.not_mem_nil
  | checkContent d item request =>
      obtain rfl := Stmt.read.inj hstmt
      have hfind : db.memoryItems.find? item.id = some item := h
      dsimp only
      split
      · trivial
      · intro x hx
        obtain rfl := List.mem_singleton.mp hx
        exact hfind
  | merge d sourceIds target =>
      obtain rfl := Stmt.read.inj hstmt
      dsimp only
      split
      · trivial
      · exact ⟨select_nodup _, fun x hx => absurd hx List.not_mem_nil⟩
  | lockSource d sourceIds target sources todo =>
      cases todo with
      | nil =>
          obtain rfl := Stmt.read.inj hstmt
          obtain ⟨hnodup, hloaded⟩ := h
          rw [List.append_nil] at hnodup
          dsimp only
          split
          · trivial
          · exact ⟨hnodup, hloaded⟩
      | cons id todo => simp [stmt] at hstmt
  | _ => simp [stmt] at hstmt

end knows

/-! ### Commits -/

/-- The commit of a confirmed update that is refused after it has changed the item. -/
def LateRefusal (out : Outside) (t : Stage) : Prop :=
  ∃ c a plan e, t = .confirmation (.finish c a plan) ∧ plan.edit? = some e ∧
    e.Late out.toRuntime c.began

section commit

variable {db : Db}

/-- The commit of a confirmation edits the objects of its plan. -/
theorem edited_publishWork {c : ConfirmRequest} {plan : Plan} {e : Edit}
    (hc : (ledger out.toRuntime db).Complete) (he : plan.edit? = some e) (hk : e.Known db)
    (hlate : ¬e.Late out.toRuntime c.began) :
    Edited out.toRuntime e.objects db
      (Confirmations.publishWork out c (Confirmations.planWork out c plan) db) := by
  rcases Confirmations.publishWork_memory c (Confirmations.planWork out c plan) db with
    hsame | ⟨s₁, x, s₂, hrows, hbegan, hwork, hafter, hdomain⟩
  · exact .refl hc hsame
  · have hc₁ : (ledger out.toRuntime s₁.db).Complete := by
      rw [ledger_congr hrows]
      exact hc
    have hk₁ := hk.congr hrows.symm
    rw [← hbegan] at hlate
    obtain ⟨result, hplan⟩ := Confirmations.planWork_of_edit (c := c) he
    rw [hplan] at hwork
    rcases Tx.bind_cases hwork with ⟨y, hy, rfl⟩ | ⟨item, s₃, hy, hpure⟩
    · have hclean := Edit.work_error hk₁ hlate hy (hdomain y rfl)
      exact .refl hc (hafter.trans (hclean.trans hrows))
    · obtain ⟨-, rfl⟩ := Prod.mk.inj hpure
      exact (Edit.work_edited hc₁ hk₁ hy).congr hrows hafter.symm

/-- The commit of a request to the memory API edits its objects or is rolled back. -/
theorem edited_publishEdit {d : Request} {e : Edit} (hc : (ledger out.toRuntime db).Complete)
    (hk : e.Known db) : Edited out.toRuntime e.objects db (publishEdit out d e db) := by
  unfold publishEdit
  rcases hs : Database.session (e.work out.toRuntime d.accountId d.context) (d.session db) with ⟨r, s'⟩
  rcases Database.session_cases (e.work_notDurable d.accountId d.context) hs with ⟨a, -, hok⟩ | hdb
  · exact Edit.work_edited hc hk hok
  · exact .refl hc (congrArg Db.memoryRows hdb)

/-- **What a commit does to the memory**, unless it is a late refusal. -/
theorem edited_of_commit {t : Stage} {publish : Db → Option Db} {db' : Db}
    (hc : (ledger out.toRuntime db).Complete) (hknows : Knows db t)
    (hlate : ¬LateRefusal out t) (hstmt : stmt out t = .commit publish)
    (hpublish : publish db = some db') : Edited out.toRuntime (objects t) db db' := by
  cases t with
  | confirmation t =>
      have hstmt' := Stmt.map_eq_commit hstmt
      cases t with
      | finish c a plan =>
          obtain rfl := Stmt.commit.inj hstmt'
          obtain rfl := Option.some.inj hpublish
          cases he : plan.edit? with
          | none =>
              have hkeeps : Tx.Keeps (Same Db.memoryRows) (Confirmations.planWork out c plan) :=
                Confirmations.planWork_of_none he
              have hrows : (Confirmations.publishWork out c (Confirmations.planWork out c plan)
                  db).memoryRows = db.memoryRows := by
                rcases Confirmations.publishWork_memory c (Confirmations.planWork out c plan) db with
                  hsame | ⟨s₁, x, s₂, hrows, -, hwork, hafter, -⟩
                · exact hsame
                · exact hafter.trans ((hkeeps.of_apply hwork).trans hrows)
              exact .refl hc hrows
          | some e =>
              have hobjects : objects (.confirmation (.finish c a plan)) = e.objects := by
                simp [objects, he]
              rw [hobjects]
              exact edited_publishWork hc he (hknows e he).1 fun h => hlate ⟨c, a, plan, e, rfl, he, h⟩
      | fail c x =>
          obtain rfl := Stmt.commit.inj hstmt'
          obtain rfl := Option.some.inj hpublish
          rcases Confirmations.publishWork_memory c (Tx.raise x) db with
            hsame | ⟨s₁, y, s₂, hrows, -, hwork, hafter, -⟩
          · exact .refl hc hsame
          · obtain ⟨-, rfl⟩ := Prod.mk.inj hwork
            exact .refl hc (hafter.trans hrows)
      | expire c =>
          obtain rfl := Stmt.commit.inj hstmt'
          obtain rfl := Option.some.inj hpublish
          have hkeeps : Tx.Keeps (Same Db.memoryRows) (OrchestrationService.expireAction out c.actionId) :=
            (OrchestrationService.updateAction_keeps (fun _ _ => rfl) _ _).bind fun _ => Tx.Keeps.raise _
          unfold Confirmations.publishExpiry
          rcases hs : Database.session (OrchestrationService.expireAction out c.actionId)
            (c.session db) with ⟨r, s'⟩
          rcases OrchestrationService.session_cases hs with ⟨hm, -⟩ | ⟨hdb, -⟩
          · exact .refl hc (hkeeps.of_apply hm)
          · exact .refl hc (congrArg Db.memoryRows hdb)
      | refused =>
          obtain rfl := Stmt.commit.inj hstmt'
          obtain rfl := Option.some.inj hpublish
          exact .refl hc rfl
      | change o todo held => exact False.elim hknows
      | _ => simp [Confirmations.stmt] at hstmt'
  | lockSource d sourceIds target sources todo => cases todo <;> simp [stmt] at hstmt
  | finish d e =>
      obtain rfl := Stmt.commit.inj hstmt
      obtain rfl := Option.some.inj hpublish
      exact edited_publishEdit hc hknows
  | refused =>
      obtain rfl := Stmt.commit.inj hstmt
      obtain rfl := Option.some.inj hpublish
      exact .refl hc rfl
  | _ => simp [stmt] at hstmt

/-- A transaction owns the rows of the objects that it changes. -/
theorem holds_objects {t : Stage} (hknows : Knows db t) {x : MemoryItem} (hx : x ∈ objects t) :
    Holds t (.target (.memory x.id)) := by
  cases t with
  | confirmation t =>
      cases t with
      | finish c a plan =>
          cases he : plan.edit? with
          | none => simp [objects, he] at hx
          | some e =>
              simp only [objects, he, Option.map_some, Option.getD_some] at hx
              exact List.mem_cons_of_mem _ (List.mem_map.mpr ⟨_, (hknows e he).2 x hx, rfl⟩)
      | _ => exact absurd hx List.not_mem_nil
  | finish d e => exact List.mem_map.mpr ⟨x, hx, rfl⟩
  | _ => exact absurd hx List.not_mem_nil

/-- The changed objects are those of an edit. -/
theorem edit_of_objects {t : Stage} (hknows : Knows db t) {x : MemoryItem} (hx : x ∈ objects t) :
    ∃ e : Edit, e.Known db ∧ objects t = e.objects := by
  cases t with
  | confirmation t =>
      cases t with
      | finish c a plan =>
          cases he : plan.edit? with
          | none => simp [objects, he] at hx
          | some e => exact ⟨e, (hknows e he).1, by simp [objects, he]⟩
      | _ => exact absurd hx List.not_mem_nil
  | finish d e => exact ⟨e, hknows, rfl⟩
  | _ => exact absurd hx List.not_mem_nil

/-- What a transaction knows survives the commit of another that owns other rows. -/
theorem knows_edited {t : Stage} {changed : List MemoryItem} {db' : Db} (hknows : Knows db t)
    (hc : (ledger out.toRuntime db).Complete) (he : Edited out.toRuntime changed db db')
    (hnot : ∀ y ∈ changed, ¬Holds t (.target (.memory y.id))) : Knows db' t := by
  have hloaded : ∀ {x}, Loaded db x → Loaded db' x := fun hx => hx.edited hc he
  have hfind : ∀ {x : MemoryItem}, Holds t (.target (.memory x.id)) →
      db.memoryItems.find? x.id = some x → db'.memoryItems.find? x.id = some x := by
    intro x hx hrow
    refine he.find?_eq hrow fun y hy hid => hnot y hy ?_
    rw [hid]
    exact hx
  have htaking : ∀ {m todo}, Taking db m todo → Taking db' m todo := fun h =>
    ⟨fun x hx => hloaded (h.loaded x hx), h.distinct, fun x hx => hloaded (h.sources x hx), h.taken⟩
  cases t with
  | confirmation t =>
      cases t with
      | change o todo held => exact False.elim hknows
      | checkContent c a item request =>
          exact hfind (List.mem_cons_of_mem _ (List.mem_singleton.mpr rfl)) hknows
      | loadSource c a id source todo loaded => exact fun x hx => hloaded (hknows x hx)
      | selectSources c a m => exact ⟨fun x hx => hloaded (hknows.1 x hx), hknows.2⟩
      | lockSource c a m id todo => exact htaking hknows
      | checkMerged c a m => exact htaking hknows
      | finish c a plan =>
          intro e hplan
          obtain ⟨hk, hlocks⟩ := hknows e hplan
          refine ⟨hk.edited hc he fun y hy x hx hid => hnot y hy ?_, hlocks⟩
          rw [hid]
          exact List.mem_cons_of_mem _ (List.mem_map.mpr ⟨_, hlocks x hx, rfl⟩)
      | _ => trivial
  | checkContent d item request => exact hfind (List.mem_singleton.mpr rfl) hknows
  | lockSource d sourceIds target sources todo =>
      exact ⟨hknows.1, fun x hx => hloaded (hknows.2 x hx)⟩
  | finish d e =>
      refine Edit.Known.edited hknows hc he fun y hy x hx hid => hnot y hy ?_
      rw [hid]
      exact List.mem_map.mpr ⟨x, hx, rfl⟩
  | _ => trivial

end commit

/-! ### Runs -/

section runs

/-- What holds between two events. -/
structure Inv (out : Outside) (s : State Lockable Db Stage) : Prop where
  held : Held Holds s
  knows : Asserted Knows s
  complete : (ledger out.toRuntime s.store).Complete

/-- The event commits a late refusal. -/
def Refuses (out : Outside) (s : State Lockable Db Stage) (e : Event Stage) : Prop :=
  ∃ i t, e = .exec i ∧ s.txn i = some t ∧ LateRefusal out t

variable {s s' : State Lockable Db Stage} {e : Event Stage}

theorem Inv.of_quiet (hs : s.Quiet) (hc : (ledger out.toRuntime s.store).Complete) : Inv out s :=
  ⟨Held.of_quiet hs, Asserted.of_quiet hs, hc⟩

/-- What the commit of a transaction in flight does. -/
theorem Inv.edited (h : Inv out s) {i : ℕ} {t : Stage} {publish : Db → Option Db} {db : Db}
    (ht : s.txn i = some t) (hlate : ¬LateRefusal out t) (hstmt : stmt out t = .commit publish)
    (hpublish : publish s.store = some db) : Edited out.toRuntime (objects t) s.store db :=
  edited_of_commit h.complete (h.knows i t ht) hlate hstmt hpublish

/-- **Step lemma**. -/
theorem Inv.of_step (h : Inv out s) (hnot : ¬Refuses out s e) (hs : step out s e = some s') :
    Inv out s' where
  held := h.held.of_step discipline hs
  knows := by
    refine h.knows.of_exec ?_ (fun i t k next _ _ => knows_lock s.store t k next)
      (fun i t next _ _ => knows_read s.store t next) ?_ hs
    · intro db t ht
      cases t with
      | confirmation t =>
          cases t with
          | confirm c => trivial
          | _ => simp [initial] at ht
      | create d request => trivial
      | item d memoryId op => trivial
      | merge d sourceIds target => trivial
      | _ => simp [initial] at ht
    · intro i t publish db he ht hstmt hpublish j u hne hj hu
      have hlate : ¬LateRefusal out t := fun hlate => hnot ⟨i, t, he, ht, hlate⟩
      refine knows_edited hu h.complete (h.edited ht hlate hstmt hpublish) fun y hy hk => ?_
      exact hne (h.held.unique hj ht hk (holds_objects (h.knows i t ht) hy))
  complete := by
    rcases store_eq_or_commit hs with hsame | ⟨i, t, publish, rfl, ht, hstmt, hpublish⟩
    · rw [hsame]
      exact h.complete
    · have hlate : ¬LateRefusal out t := fun hlate => hnot ⟨i, t, rfl, ht, hlate⟩
      exact (h.edited ht hlate hstmt hpublish).complete

/-- What an event does to a row. -/
theorem Inv.row_of_step (h : Inv out s) (hnot : ¬Refuses out s e) (hs : step out s e = some s')
    {id : Uuid} {row : MemoryItem} (hrow : s.store.memoryItems.find? id = some row) :
    ∃ row', s'.store.memoryItems.find? id = some row' ∧ (row' = row ∨
      (∃ i t, e = .exec i ∧ s.txn i = some t ∧ row ∈ objects t) ∧ row'.version = row.version + 1) := by
  rcases store_eq_or_commit hs with hsame | ⟨i, t, publish, rfl, ht, hstmt, hpublish⟩
  · exact ⟨row, by rw [hsame]; exact hrow, .inl rfl⟩
  · have hlate : ¬LateRefusal out t := fun hlate => hnot ⟨i, t, rfl, ht, hlate⟩
    obtain ⟨row', hrow', hchange⟩ := (h.edited ht hlate hstmt hpublish).rows id row hrow
    refine ⟨row', hrow', ?_⟩
    rcases hchange with hsame | ⟨hmem, hversion⟩
    · exact .inl hsame
    · exact .inr ⟨⟨i, t, rfl, ht, hmem⟩, hversion⟩

/-- **Run lemma**: the versions of an item only grow. -/
theorem Inv.version_le {events : List (Event Stage)} (h : Inv out s)
    (hcond : Runs.Along (step out) (fun s e => ¬Refuses out s e) s events)
    (hrun : Runs.run (step out) s events = some s') {id : Uuid} {row : MemoryItem}
    (hrow : s.store.memoryItems.find? id = some row) :
    Inv out s' ∧ ∃ row', s'.store.memoryItems.find? id = some row' ∧ row.version ≤ row'.version := by
  refine Runs.inv_of_along (I := fun s' => Inv out s' ∧ ∃ row',
    s'.store.memoryItems.find? id = some row' ∧ row.version ≤ row'.version) ?_ ?_ hcond hrun
  · rintro s₁ e s₂ ⟨hinv, row₁, hrow₁, hle⟩ hnot hs
    obtain ⟨row₂, hrow₂, hchange⟩ := hinv.row_of_step hnot hs hrow₁
    refine ⟨hinv.of_step hnot hs, row₂, hrow₂, ?_⟩
    rcases hchange with rfl | ⟨-, hversion⟩
    · exact hle
    · omega
  · exact ⟨h, row, hrow, le_refl _⟩

theorem Inv.of_run {events : List (Event Stage)} (h : Inv out s)
    (hcond : Runs.Along (step out) (fun s e => ¬Refuses out s e) s events)
    (hrun : Runs.run (step out) s events = some s') : Inv out s' :=
  Runs.inv_of_along (fun _ _ _ hinv hnot hs => hinv.of_step hnot hs) h hcond hrun

end runs

/-! ### No lost update -/

/-- The event commits a change of the item, by a transaction that is applied to it in the given
version. -/
structure Changes (s : State Lockable Db Stage) (e : Event Stage) (s' : State Lockable Db Stage)
    (id : Uuid) (version : ℤ) : Prop where
  applied : ∃ i t x, e = .exec i ∧ s.txn i = some t ∧ x ∈ objects t ∧ x.id = id ∧ x.version = version
  changed : s'.store.memoryItems.find? id ≠ s.store.memoryItems.find? id

/-- Along the events from `s`, every change of a stored item raises its version by one over the
row that the transaction is applied to, and two transactions that are applied to the same version
do not both change the item. -/
structure NoLostUpdate (out : Outside) (s : State Lockable Db Stage) (events : List (Event Stage)) :
    Prop where
  raises : ∀ before e after u u', events = before ++ e :: after →
    Runs.run (step out) s before = some u → step out u e = some u' →
    ∀ id row, u.store.memoryItems.find? id = some row →
      ∃ row', u'.store.memoryItems.find? id = some row' ∧ (row' = row ∨
        (∃ i t, e = .exec i ∧ u.txn i = some t ∧ row ∈ objects t) ∧
          row'.version = row.version + 1)
  once : ∀ before e between e' after u u' v v',
    events = before ++ e :: (between ++ e' :: after) →
    Runs.run (step out) s before = some u → step out u e = some u' →
    Runs.run (step out) u' between = some v → step out v e' = some v' →
    ∀ id version, Changes u e u' id version → ¬Changes v e' v' id version

section changes

variable {s s' : State Lockable Db Stage} {e : Event Stage}

/-- A change that is applied to a version leaves the next one. -/
theorem Inv.changes (h : Inv out s) (hnot : ¬Refuses out s e) (hs : step out s e = some s')
    {id : Uuid} {version : ℤ} (hc : Changes s e s' id version) :
    ∃ row row', s.store.memoryItems.find? id = some row ∧ row.version = version ∧
      s'.store.memoryItems.find? id = some row' ∧ row'.version = version + 1 := by
  obtain ⟨i, t, x, rfl, ht, hx, rfl, rfl⟩ := hc.applied
  have hknows := h.knows i t ht
  obtain ⟨edit, hknown, hobjects⟩ := edit_of_objects hknows hx
  rw [hobjects] at hx
  obtain ⟨row, hrow⟩ := hknown.find? hx
  obtain ⟨row', hrow', hchange⟩ := h.row_of_step hnot hs hrow
  rcases hchange with rfl | ⟨⟨j, u, he, hu, hmem⟩, hversion⟩
  · exact absurd (hrow'.trans hrow.symm) hc.changed
  · obtain rfl := Event.exec.inj he
    obtain rfl := Option.some.inj (ht.symm.trans hu)
    rw [hobjects] at hmem
    obtain rfl : x = row := hknown.unique hx hmem (Table.key_of_find? hrow).symm
    exact ⟨x, row', hrow, rfl, hrow', hversion⟩

end changes

/-- **No memory update is lost** in a run in which no refusal of a confirmed update comes after the
update has changed the item. -/
theorem no_lost_update {s : State Lockable Db Stage} {events : List (Event Stage)} (hs : s.Quiet)
    (hc : (ledger out.toRuntime s.store).Complete)
    (hcond : Runs.Along (step out) (fun s e => ¬Refuses out s e) s events) :
    NoLostUpdate out s events := by
  have hinv : Inv out s := .of_quiet hs hc
  constructor
  · rintro before e after u u' rfl hrun hstep id row hrow
    obtain ⟨hbefore, hafter⟩ := hcond.append
    exact (hinv.of_run hbefore hrun).row_of_step (hafter u hrun).1 hstep hrow
  · rintro before e between e' after u u' v v' rfl hrun hstep hrun' hstep' id version hfirst hsecond
    obtain ⟨hbefore, hafter⟩ := hcond.append
    obtain ⟨hnot, hrest⟩ := hafter u hrun
    obtain ⟨hbetween, hafter'⟩ := (hrest u' hstep).append
    have hu : Inv out u := hinv.of_run hbefore hrun
    have hu' : Inv out u' := hu.of_step hnot hstep
    obtain ⟨-, row, -, -, hrow, hversion⟩ := hu.changes hnot hstep hfirst
    obtain ⟨hv, row', hrow', hle⟩ := hu'.version_le hbetween hrun' hrow
    obtain ⟨row₁, -, hrow₁, hversion₁, -⟩ := hv.changes (hafter' v hrun').1 hstep' hsecond
    obtain rfl : row₁ = row' := Option.some.inj (hrow₁.symm.trans hrow')
    omega

/-! ### An update that is refused late -/

open OrchestrationService (lateOutside lateSession)

/-- A memory that is valid until the first of June 2025. -/
def lease : MemoryItem :=
  { id := 10, accountId := 1, content := "Služební byt v Brně", category := .personalFact
    state := .active, originType := .manual, validUntil := some (.utc 1748736000000000)
    updatedAt := .utc 1735689600000000 }

def leaseVersion : MemoryVersion where
  id := 11
  memoryId := 10
  versionNumber := 1
  content := lease.content
  category := lease.category
  state := lease.state
  changeKind := "created"
  changedBy := 1
  snapshot := snapshot lateOutside.toRuntime lease

/-- The memory with its version, and a pending update of it. -/
def leaseState : State Lockable Db Stage where
  store := { lateSession.db with memoryVersions := .singleton leaseVersion }
  owner _ := none
  txn _ := none

theorem leaseState_complete : (ledger lateOutside.toRuntime leaseState.store).Complete := by
  have hof : (versioning lateOutside.toRuntime).Of leaseVersion lease :=
    ⟨rfl, rfl, lease, ⟨rfl, rfl, rfl, rfl, rfl, rfl⟩, rfl⟩
  exact Ledger.Complete.empty.step (.create (L := ⟨.empty, []⟩) (t := .singleton lease) rfl rfl hof)

def userContext : AuditContext := { actorType := "user", actorId := some 1 }

def leaseConfirmation : ConfirmRequest where
  accountId := 1
  actionId := 30
  expectedActionVersion := 1
  context := userContext
  began := .utc 1767268800000000
  tick := 0
  alive _ := false

/-- The confirmation of the pending update, up to its commit. -/
def lateUpdate : List (Event Stage) :=
  .start 1 (.confirmation (.confirm leaseConfirmation)) :: List.replicate 4 (.exec 1)

/-- A confirmed update can change an item and leave its version. -/
theorem changed_without_version : ¬∀ (out : Outside) (s : State Lockable Db Stage)
    (events : List (Event Stage)), s.Quiet → (ledger out.toRuntime s.store).Complete →
      NoLostUpdate out s events := by
  intro h
  have hrun : ((Runs.run (step lateOutside) leaseState lateUpdate).any fun u =>
      (step lateOutside u (.exec 1)).any fun u' => (u.store.memoryItems.find? 10).any fun row =>
        (u'.store.memoryItems.find? 10).any fun row' =>
          decide (row'.version = row.version ∧ row'.validFrom ≠ row.validFrom)) = true := by
    decide +kernel
  obtain ⟨u, hu, hstep⟩ := (Option.any_eq_true _ _).mp hrun
  obtain ⟨u', hu', hrows⟩ := (Option.any_eq_true _ _).mp hstep
  obtain ⟨row, hrow, hafter⟩ := (Option.any_eq_true _ _).mp hrows
  obtain ⟨row', hrow', hchange⟩ := (h lateOutside leaseState (lateUpdate ++ [.exec 1]) (fun _ => rfl)
    leaseState_complete).raises _ _ [] u u' rfl hu hu' _ row hrow
  rw [hrow', Option.any_some] at hafter
  obtain ⟨hversion, hdiffers⟩ := of_decide_eq_true hafter
  rcases hchange with rfl | ⟨-, hraised⟩
  · exact hdiffers rfl
  · omega

def userRequest (tick : ℕ) : Request := ⟨1, userContext, .utc 1767268800000000, tick⟩

/-- Two deletions of the first version overlap. -/
def overlapping : List (Event Stage) :=
  [.start 1 (.item (userRequest 0) 10 (.softDelete 1 30)),
   .start 2 (.item (userRequest 10) 10 (.softDelete 1 30)), .exec 1, .exec 1, .exec 2, .exec 2]

/-- The event does not end a confirmation. -/
def confirmless (s : State Lockable Db Stage) : Event Stage → Bool
  | .exec i => (s.txn i).all fun t => match t with
    | .confirmation _ => false
    | _ => true
  | _ => true

/-- Only the first one changes the memory. -/
theorem no_lost_update_overlapping :
    ∃ t, Runs.run (step lateOutside) leaseState overlapping = some t ∧
      t.store.memoryItems.rows.map (fun item => (item.version, item.state)) = [(2, .deleted)] ∧
      NoLostUpdate lateOutside leaseState overlapping := by
  have hrun : (match Runs.run (step lateOutside) leaseState overlapping with
      | some t => decide (t.store.memoryItems.rows.map (fun item => (item.version, item.state)) =
          [(2, .deleted)])
      | none => false) = true := by
    decide +kernel
  rcases ht : Runs.run (step lateOutside) leaseState overlapping with _ | t <;> simp only [ht] at hrun
  · simp at hrun
  refine ⟨t, rfl, of_decide_eq_true hrun, no_lost_update (fun _ => rfl) leaseState_complete ?_⟩
  refine Runs.Along.of_alongB (c := confirmless) ?_ (by decide +kernel)
  rintro s e he ⟨i, t, rfl, ht, c, a, plan, edit, rfl, -⟩
  simp [confirmless, ht] at he

end Overlaps

end KajovoDagmar
