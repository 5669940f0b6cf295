import KajovoDagmar.Orchestration.Effects

/-! # Atomicity of confirmed actions

A confirmed action whose operation ends in a `DomainError` is committed as failed: the error
is made durable, so the session commits whatever the operation has written.  The memory items,
their versions, the conversations, their messages and the outbox are then unchanged, unless
the operation is the update of a memory that is refused late (`LateRefusal`). -/

namespace KajovoDagmar

/-- The rows that a failed action must not touch. -/
def Db.protectedRows (db : Db) :=
  (db.memoryItems, db.memoryVersions, db.conversations, db.conversationMessages, db.outboxEvents)

namespace OrchestrationService

variable {out : Outside}

/-! ### The operations -/

section dispatch

variable {γ : Type} {view : Db → γ}

theorem executeCreate_clean (accountId : Uuid) (args : Json) (context : AuditContext) :
    Tx.Clean Exc.IsDomain (Same view) (executeCreate out accountId args context) := by
  unfold executeCreate
  refine Tx.Clean.bind_of_keeps (Tx.Keeps.ofExcept _) fun request => ?_
  exact Tx.Clean.bind_of_raisesOnly (MemoryService.create_clean _ _ _) fun _ => Tx.RaisesOnly.pure _

theorem executeMemoryDelete_clean (accountId : Uuid) (args : Json) (context : AuditContext) :
    Tx.Clean Exc.IsDomain (Same view) (executeMemoryDelete out accountId args context) := by
  unfold executeMemoryDelete
  refine Tx.Clean.bind_of_keeps (setting_keeps _ _ _) fun rawRetention => ?_
  refine Tx.Clean.bind_of_keeps (Tx.Keeps.ofExcept _) fun retention => ?_
  refine Tx.Clean.bind_of_keeps (Tx.Keeps.ofExcept _) fun target => ?_
  exact Tx.Clean.bind_of_raisesOnly (MemoryService.softDelete_clean _ _ _ _ _) fun _ =>
    Tx.RaisesOnly.pure _

theorem executeMemoryRestore_clean (accountId : Uuid) (args : Json) (context : AuditContext) :
    Tx.Clean Exc.IsDomain (Same view) (executeMemoryRestore out accountId args context) := by
  unfold executeMemoryRestore
  refine Tx.Clean.bind_of_keeps (Tx.Keeps.ofExcept _) fun target => ?_
  exact Tx.Clean.bind_of_raisesOnly (MemoryService.restore_clean _ _ _ _) fun _ => Tx.RaisesOnly.pure _

theorem executeMerge_clean (accountId : Uuid) (args : Json) (context : AuditContext) :
    Tx.Clean Exc.IsDomain (Same view) (executeMerge out accountId args context) := by
  unfold executeMerge
  refine Tx.Clean.bind_of_keeps (mergeArguments_keeps _ _) fun target => ?_
  exact Tx.Clean.bind_of_raisesOnly (MemoryService.merge_clean _ _ _ _) fun _ => Tx.RaisesOnly.pure _

theorem executeContinue_clean (accountId : Uuid) (args : Json) (context : AuditContext) :
    Tx.Clean Exc.IsDomain (Same view) (executeContinue out accountId args context) := by
  unfold executeContinue
  refine Tx.Clean.bind_of_keeps (Tx.Keeps.ofExcept _) fun conversationId => ?_
  exact Tx.Clean.bind_of_raisesOnly (HistoryService.continueFrom_clean _ _ _) fun _ =>
    Tx.RaisesOnly.pure _

theorem executeHistoryDelete_clean (accountId : Uuid) (args : Json) (context : AuditContext) :
    Tx.Clean Exc.IsDomain (Same view) (executeHistoryDelete out accountId args context) := by
  unfold executeHistoryDelete
  refine Tx.Clean.bind_of_keeps (setting_keeps _ _ _) fun rawRetention => ?_
  refine Tx.Clean.bind_of_keeps (Tx.Keeps.ofExcept _) fun retention => ?_
  refine Tx.Clean.bind_of_keeps (Tx.Keeps.ofExcept _) fun target => ?_
  exact Tx.Clean.bind_of_raisesOnly (HistoryService.softDelete_clean _ _ _ _ _) fun _ =>
    Tx.RaisesOnly.pure _

theorem executeHistoryRestore_clean (accountId : Uuid) (args : Json) (context : AuditContext) :
    Tx.Clean Exc.IsDomain (Same view) (executeHistoryRestore out accountId args context) := by
  unfold executeHistoryRestore
  refine Tx.Clean.bind_of_keeps (Tx.Keeps.ofExcept _) fun target => ?_
  exact Tx.Clean.bind_of_raisesOnly (HistoryService.restore_clean _ _ _ _) fun _ => Tx.RaisesOnly.pure _

/-- Every operation but the update of a memory refuses before it writes. -/
theorem dispatch_clean {name : String} (hname : ¬IsUpdate name) (accountId : Uuid) (args : Json)
    (context : AuditContext) :
    Tx.Clean Exc.IsDomain (Same view) (dispatch out accountId name args context) := by
  unfold dispatch
  split
  · exact executeCreate_clean _ _ _
  split
  · exact executeMemoryDelete_clean _ _ _
  split
  · exact executeMemoryRestore_clean _ _ _
  split
  · exact executeMerge_clean _ _ _
  split
  · exact executeContinue_clean _ _ _
  split
  · exact executeHistoryDelete_clean _ _ _
  split
  · exact executeHistoryRestore_clean _ _ _
  · exact (Tx.Keeps.raise _).clean

theorem dispatch_of_isUpdate {name : String} (hname : IsUpdate name) (accountId : Uuid) (args : Json)
    (context : AuditContext) : dispatch out accountId name args context =
      executeUpdate out accountId args (decide (name = "memory_mark_outdated")) context := by
  have hcreate : name ≠ "memory_create" := by
    rcases hname with rfl | rfl <;> decide
  unfold dispatch
  rw [if_neg hcreate, if_pos hname]

end dispatch

/-! ### Recording the outcome -/

/-- What follows the operation of a confirmed action raises no domain error. -/
theorem recordResult_noDomain (actionId : Uuid) (result : Json) (context : AuditContext) :
    NoDomain (do
      let now ← utcNow out.toRuntime
      let action ← updateAction out actionId fun a => { a with
        result := some result, state := .completed, completedAt := some now, version := a.version + 1 }
      completeRun out action
      let _ ← AuditService.append out.toRuntime context "orchestration.action_completed" "success"
        (some "tool_action") (some action.id)
        [("name", .str action.name), ("run_id", .str (out.strUuid action.runId))]
      pure action : Work ToolAction) := by
  refine (utcNow_noDomain _).bind fun now => ?_
  refine (updateAction_noDomain _ _).bind fun action => ?_
  refine (completeRun_noDomain _).bind fun _ => ?_
  exact AuditService.append_noDomain.bind fun _ => Tx.RaisesOnly.pure _

/-- A domain error of a confirmed action is the domain error of its operation. -/
theorem executeConfirmed_error {accountId : Uuid} {action : ToolAction} {context : AuditContext}
    {s s' : Session} {e : Exc}
    (h : executeConfirmed out accountId action context s = (.error e, s')) (he : e.IsDomain) :
    executeStateAction out accountId action context s = (.error e, s') := by
  unfold executeConfirmed at h
  rcases Tx.bind_eq_error h with h₁ | ⟨result, s₁, -, h₂⟩
  · exact h₁
  · exact absurd he (recordResult_noDomain _ result context s₁ e (by rw [h₂]))

/-! ### The late refusal -/

/-- The action that a call of `confirm_action` goes on to execute: it belongs to the account,
awaits confirmation at the expected version and has not expired. -/
structure Confirmable (out : Outside) (accountId actionId : Uuid) (expectedActionVersion : ℤ)
    (s : Session) (action : ToolAction) : Prop where
  found : action? s.db accountId actionId = some action
  pending : action.state = .pendingConfirmation
  version : action.version = expectedActionVersion
  notExpired : expired action (DateTime.utc (out.clock s.tick)) = false

/-- The operation of an action is an update that is refused after it has changed the item: the
arguments are intact, they name an editable item, the assigned bounds of its validity are
inverted, and the assigned row is not the stored one. -/
structure LateUpdate (out : Outside) (accountId : Uuid) (action : ToolAction) (s : Session)
    (memoryId : Uuid) (request : MemoryUpdate) (item : MemoryItem) (content : String) : Prop where
  intact : out.sha256 action.arguments.dumpsSorted = action.argumentsHash
  isUpdate : IsUpdate action.name
  arguments : updateArguments out action.arguments (decide (action.name = "memory_mark_outdated")) =
    .ok (memoryId, request)
  editable : MemoryService.Editable out.toRuntime s.db accountId memoryId request item content
  inverted : MemoryService.inverted (MemoryService.assign item request content).validFrom
    (MemoryService.assign item request content).validUntil = .ok true
  changed : MemoryItem.flush out.toRuntime s.began item (MemoryService.assign item request content) ≠ item

def LateOperation (out : Outside) (accountId : Uuid) (action : ToolAction) (s : Session) : Prop :=
  ∃ memoryId request item content, LateUpdate out accountId action s memoryId request item content

/-- The confirmed action is an update of a memory that is refused late. -/
def LateRefusal (out : Outside) (accountId actionId : Uuid) (expectedActionVersion : ℤ)
    (s : Session) : Prop :=
  ∃ action, Confirmable out accountId actionId expectedActionVersion s action ∧
    LateOperation out accountId action s

/-- The state of the action and the rest of the database do not matter. -/
theorem LateOperation.congr {accountId : Uuid} {action action' : ToolAction} {s s' : Session}
    (harguments : action'.arguments = action.arguments)
    (hhash : action'.argumentsHash = action.argumentsHash) (hname : action'.name = action.name)
    (hitems : s'.db.memoryItems = s.db.memoryItems) (hbegan : s'.began = s.began)
    (h : LateOperation out accountId action s) : LateOperation out accountId action' s' := by
  obtain ⟨memoryId, request, item, content, hl⟩ := h
  refine ⟨memoryId, request, item, content, ?_, ?_, ?_, hl.editable.congr hitems, hl.inverted, ?_⟩
  · rw [harguments, hhash]
    exact hl.intact
  · rw [hname]
    exact hl.isUpdate
  · rw [harguments, hname]
    exact hl.arguments
  · rw [hbegan]
    exact hl.changed

/-- A stored update shows in the protected rows exactly when it changes the row. -/
theorem protectedRows_stored_iff {s : Session} {item new : MemoryItem}
    (hid : new.id = item.id) (hf : s.db.memoryItems.find? item.id = some item) :
    (MemoryService.stored out.toRuntime s item new).db.protectedRows = s.db.protectedRows ↔
      MemoryItem.flush out.toRuntime s.began item new = item := by
  have hkey : (MemoryItem.flush out.toRuntime s.began item new).id = item.id := by
    unfold MemoryItem.flush
    split
    · rfl
    · exact hid
  have hold : s.db.memoryItems.find? (MemoryItem.flush out.toRuntime s.began item new).id =
      some item := by
    rw [hkey]
    exact hf
  have hput := Table.put_eq_iff hold
  constructor
  · intro h
    exact hput.mp (congrArg Prod.fst h)
  · intro h
    simp only [MemoryService.stored, Db.protectedRows, hput.mpr h]

/-- A domain error of the operation leaves the protected rows as they were, unless it is the
late refusal of an update. -/
theorem executeStateAction_protected_iff {accountId : Uuid} {action : ToolAction}
    {context : AuditContext} {s s' : Session} {e : Exc}
    (h : executeStateAction out accountId action context s = (.error e, s')) (he : e.IsDomain) :
    s'.db.protectedRows = s.db.protectedRows ↔ ¬LateOperation out accountId action s := by
  unfold executeStateAction at h
  by_cases hhash : out.sha256 action.arguments.dumpsSorted = action.argumentsHash
  · rw [Tx.raiseIf_neg (not_not_intro hhash), Tx.pure_bind] at h
    by_cases hname : IsUpdate action.name
    · rw [dispatch_of_isUpdate hname] at h
      unfold executeUpdate at h
      cases hargs : updateArguments out action.arguments
          (decide (action.name = "memory_mark_outdated")) with
      | error e' =>
          rw [Tx.bind_of_error (by rw [Tx.ofExcept_apply, hargs])] at h
          obtain ⟨-, rfl⟩ := Prod.mk.inj h
          refine iff_of_true rfl ?_
          rintro ⟨memoryId, request, item, content, hl⟩
          have := hargs.symm.trans hl.arguments
          simp at this
      | ok target =>
          obtain ⟨memoryId, request⟩ := target
          rw [Tx.bind_of_ok (by rw [Tx.ofExcept_apply, hargs])] at h
          have hup : MemoryService.update out.toRuntime accountId memoryId request context s =
              (.error e, s') := by
            rcases Tx.bind_eq_error h with hu | ⟨_, s₁, -, hp⟩
            · exact hu
            · simp at hp
          rcases MemoryService.update_error hup he with ⟨rfl, hne⟩ | ⟨item, content, hed, hinv, rfl⟩
          · refine iff_of_true rfl ?_
            rintro ⟨memoryId', request', item, content, hl⟩
            obtain ⟨rfl, rfl⟩ : memoryId = memoryId' ∧ request = request' := by
              simpa using hargs.symm.trans hl.arguments
            exact hne item content hl.editable
          · rw [protectedRows_stored_iff (MemoryService.assign_id _ _ _) (MemoryService.item?_mem hed.found)]
            constructor
            · rintro hsame ⟨memoryId', request', item', content', hl⟩
              obtain ⟨rfl, rfl⟩ : memoryId = memoryId' ∧ request = request' := by
                simpa using hargs.symm.trans hl.arguments
              obtain ⟨rfl, rfl⟩ := hed.unique hl.editable
              exact hl.changed hsame
            · intro hnot
              by_contra hdiff
              exact hnot ⟨memoryId, request, item, content, hhash, hname, hargs, hed, hinv, hdiff⟩
    · have hclean : Tx.Clean Exc.IsDomain (Same Db.protectedRows)
          (dispatch out accountId action.name action.arguments context) :=
        dispatch_clean hname _ _ _
      have hkeep := hclean s e (by rw [h]) he
      rw [h] at hkeep
      refine iff_of_true hkeep ?_
      rintro ⟨_, _, _, _, hl⟩
      exact hname hl.isUpdate
  · rw [Tx.raiseIf_pos hhash, Tx.raise_bind, Tx.raise_apply] at h
    obtain ⟨-, rfl⟩ := Prod.mk.inj h
    refine iff_of_true rfl ?_
    rintro ⟨_, _, _, _, hl⟩
    exact hhash hl.intact

/-! ### The confirmation -/

theorem action?_find {db : Db} {accountId actionId : Uuid} {action : ToolAction}
    (h : action? db accountId actionId = some action) :
    db.toolActions.find? action.id = some action := by
  have hf := (Option.filter_eq_some_iff.mp h).1
  rwa [Table.key_of_find? hf]

/-- A domain error of the execution is durable, and it leaves the protected rows as they were
unless the operation is a late update. -/
theorem runAction_protected_iff {accountId : Uuid} {action : ToolAction} {context : AuditContext}
    {s s' : Session} {e : Exc} (hf : s.db.toolActions.find? action.id = some action)
    (h : runAction out accountId action context s = (.error e, s')) (he : e.IsDomain) :
    e.Durable ∧ (s'.db.protectedRows = s.db.protectedRows ↔ ¬LateOperation out accountId action s) := by
  unfold runAction at h
  rcases Tx.bind_eq_error h with h | ⟨confirmedAt, s₁, hnow, h⟩
  · exact absurd he (utcNow_noDomain _ s e (by rw [h]))
  obtain ⟨-, rfl⟩ := Prod.mk.inj hnow
  rcases Tx.bind_eq_error h with h | ⟨running, s₂, hrun, h⟩
  · exact absurd he (updateAction_noDomain _ _ _ e (by rw [h]))
  obtain ⟨stored, hstored, rfl, hs₂⟩ := updateAction_ok hrun
  obtain rfl : action = stored := Option.some.inj (hf.symm.trans hstored)
  have hitems : s₂.db.memoryItems = s.db.memoryItems := by rw [hs₂]
  have hbegan : s₂.began = s.began := by rw [hs₂]
  have hrows : s₂.db.protectedRows = s.db.protectedRows := by rw [hs₂]; rfl
  unfold Tx.handle at h
  split at h
  · simp at h
  next e' s₃ hexec =>
  rcases Tx.bind_eq_error h with h | ⟨_, s₄, hfail, h⟩
  · exact absurd he (failAction_noDomain _ _ _ _ e (by rw [h]))
  obtain ⟨hee, rfl⟩ := Prod.mk.inj h
  obtain rfl : e'.markDurable = e := by simpa using hee
  have he' : e'.IsDomain := (Exc.isDomain_markDurable e').mp he
  refine ⟨(Exc.durable_markDurable e').mpr he', ?_⟩
  have hkeep : s₄.db.protectedRows = s₃.db.protectedRows := by
    have : Tx.Keeps (Same Db.protectedRows) (failAction out action.id context e') :=
      failAction_keeps (fun _ _ => rfl) (fun _ _ => rfl) _ _ _
    have := this s₃
    rwa [hfail] at this
  rw [hkeep, ← hrows,
    executeStateAction_protected_iff (executeConfirmed_error hexec he') he']
  exact not_congr ⟨LateOperation.congr rfl rfl rfl hitems.symm hbegan.symm,
    LateOperation.congr rfl rfl rfl hitems hbegan⟩

/-- A refusal that is made before the action is touched changes nothing, and the action is not
one that would be executed. -/
theorem confirmAction_error {accountId actionId : Uuid} {expectedActionVersion : ℤ}
    {context : AuditContext} {s s' : Session} {e : Exc}
    (h : confirmAction out accountId actionId expectedActionVersion context s = (.error e, s'))
    (he : e.IsDomain) :
    (s'.db.protectedRows = s.db.protectedRows ↔
      ¬LateRefusal out accountId actionId expectedActionVersion s) ∧
    (¬e.Durable → ¬LateRefusal out accountId actionId expectedActionVersion s) := by
  have early : ∀ {s₁ : Session}, s₁.db.protectedRows = s.db.protectedRows →
      (¬∃ action, Confirmable out accountId actionId expectedActionVersion s action) →
      (s₁.db.protectedRows = s.db.protectedRows ↔
        ¬LateRefusal out accountId actionId expectedActionVersion s) ∧
      (¬e.Durable → ¬LateRefusal out accountId actionId expectedActionVersion s) := by
    intro s₁ hrows hnone
    have hnot : ¬LateRefusal out accountId actionId expectedActionVersion s :=
      fun ⟨action, hc, _⟩ => hnone ⟨action, hc⟩
    exact ⟨iff_of_true hrows hnot, fun _ => hnot⟩
  unfold confirmAction lockAction at h
  cases hf : action? s.db accountId actionId with
  | none =>
      simp only [Tx.bind_apply, Tx.gets_apply, hf, Tx.orRaise_none, Tx.raise_apply] at h
      obtain ⟨-, rfl⟩ := Prod.mk.inj h
      refine early rfl ?_
      rintro ⟨action, hc⟩
      have := hf.symm.trans hc.found
      simp at this
  | some action =>
      have only : ∀ {action'}, Confirmable out accountId actionId expectedActionVersion s action' →
          action' = action := fun hc => Option.some.inj (hc.found.symm.trans hf)
      have hlock : (do
          let row ← Tx.gets fun s => action? s.db accountId actionId
          Tx.orRaise row (.domain (.notFound "Potvrzovaná operace nebyla nalezena.")) :
          Work ToolAction) s = (.ok action, s) := by
        simp [Tx.bind_apply, hf]
      rw [Tx.bind_of_ok hlock] at h
      by_cases hcompleted : action.state = .completed
      · rw [if_pos hcompleted] at h
        simp at h
      rw [if_neg hcompleted] at h
      by_cases hversion : action.version = expectedActionVersion
      swap
      · rw [Tx.raiseIf_pos hversion, Tx.raise_bind, Tx.raise_apply] at h
        obtain ⟨-, rfl⟩ := Prod.mk.inj h
        refine early rfl ?_
        rintro ⟨action', hc⟩
        exact hversion (only hc ▸ hc.version)
      rw [Tx.raiseIf_neg (not_not_intro hversion), Tx.pure_bind] at h
      by_cases hpending : action.state = .pendingConfirmation
      swap
      · rw [Tx.raiseIf_pos hpending, Tx.raise_bind, Tx.raise_apply] at h
        obtain ⟨-, rfl⟩ := Prod.mk.inj h
        refine early rfl ?_
        rintro ⟨action', hc⟩
        exact hpending (only hc ▸ hc.pending)
      rw [Tx.raiseIf_neg (not_not_intro hpending), Tx.pure_bind] at h
      rcases Tx.bind_eq_error h with h | ⟨now, s₁, hnow, h⟩
      · exact absurd he (utcNow_noDomain _ s e (by rw [h]))
      obtain ⟨hnow', rfl⟩ := Prod.mk.inj hnow
      obtain rfl : DateTime.utc (out.clock s.tick) = now := by simpa using hnow'
      by_cases hexpired : expired action (DateTime.utc (out.clock s.tick)) = true
      · rw [if_pos hexpired] at h
        rcases Tx.bind_eq_error h with h | ⟨a, s₂, hup, h⟩
        · exact absurd he (updateAction_noDomain _ _ _ e (by rw [h]))
        obtain ⟨-, rfl⟩ := Prod.mk.inj h
        have hkeep : Tx.Keeps (Same Db.protectedRows) (updateAction out action.id fun a => { a with
            state := .expired, version := a.version + 1 }) := updateAction_keeps (fun _ _ => rfl) _ _
        have hrows := hkeep { s with tick := s.tick + 1 }
        rw [hup] at hrows
        refine early hrows ?_
        rintro ⟨action', hc⟩
        have := only hc ▸ hc.notExpired
        rw [hexpired] at this
        simp at this
      · rw [if_neg hexpired] at h
        have hfound : ({ s with tick := s.tick + 1 } : Session).db.toolActions.find? action.id =
            some action := action?_find hf
        obtain ⟨hdurable, hiff⟩ := runAction_protected_iff hfound h he
        refine ⟨?_, fun hd => absurd hdurable hd⟩
        have hconfirmable : Confirmable out accountId actionId expectedActionVersion s action :=
          ⟨hf, hpending, hversion, by simpa using hexpired⟩
        refine hiff.trans (not_congr ⟨fun hl => ⟨action, hconfirmable, ?_⟩, ?_⟩)
        · exact hl.congr (by rfl) (by rfl) (by rfl) (by rfl) (by rfl)
        · rintro ⟨action', hc, hl⟩
          obtain rfl := only hc
          exact hl.congr (by rfl) (by rfl) (by rfl) (by rfl) (by rfl)

/-- **Atomicity of confirmed actions**: when `confirm_action` ends in a `DomainError`, the
committed rows of the memory, the conversations and the outbox are those from before the call
exactly when the action is not an update that is refused late. -/
theorem confirmAction_protected_iff {accountId actionId : Uuid} {expectedActionVersion : ℤ}
    {context : AuditContext} {s s' : Session} {e : Exc}
    (h : Database.session (confirmAction out accountId actionId expectedActionVersion context) s =
      (.error e, s')) (he : e.IsDomain) :
    s'.db.protectedRows = s.db.protectedRows ↔
      ¬LateRefusal out accountId actionId expectedActionVersion s := by
  obtain ⟨s₁, hm, rfl⟩ := Database.session_eq_error h
  obtain ⟨hiff, hearly⟩ := confirmAction_error hm he
  by_cases hd : e.Durable
  · rwa [if_pos hd]
  · rw [if_neg hd]
    exact iff_of_true rfl (hearly hd)

/-! ### An update that is refused late -/

/-- The confirmed arguments: a start of validity after the stored end. -/
def lateArguments : Json := .obj
  [("memory_id", .str "00000000-0000-0000-0000-00000000000a"), ("expected_version", .int 1),
   ("valid_from", .str "2027-01-01T00:00:00Z")]

/-- The runtime on the first of January 2026, without a language model. -/
def lateOutside : Outside := .sample
  (.sample 1767268800000000 [("2027-01-01T00:00:00Z", .utc 1798761600000000)])
  (fun _ _ => .error (.other "NotImplementedError")) (fun _ => .error .null)

/-- A memory that is valid until the first of June 2025, and a pending update of it. -/
def lateSession : Session where
  began := .utc 1767268800000000
  db :=
    { memoryItems := .singleton
        { id := 10, accountId := 1, content := "Služební byt v Brně", category := .personalFact
          state := .active, originType := .manual, validUntil := some (.utc 1748736000000000)
          updatedAt := .utc 1735689600000000 }
      orchestrationRuns := .singleton
        { id := 20, accountId := 1, conversationId := 2, sourceMessageId := 3
          state := .awaitingConfirmation, orchestrationVersion := orchestrationVersion
          promptVersion := promptVersion }
      toolActions := .singleton
        { id := 30, runId := 20, name := "memory_update", arguments := lateArguments
          argumentsHash := "04cb9497128b4d9d8ca8001aa40280fe3aed58338c86ba8333f45d5309c5458f"
          sideEffect := "state_change", confirmationRequired := true, state := .pendingConfirmation
          expectedTargetVersion := some 1
          idempotencyKey := "0f0e0d0c0b0a09080706050403020100", createdAt := .utc 1767268800000000 } }

/-- The confirmation of the pending update. -/
def lateConfirmation : Except Exc ToolAction × Session :=
  Database.session (confirmAction lateOutside 1 30 1 ⟨"user", some 1, none, none, none⟩) lateSession

theorem lateConfirmation_def :
    Database.session (confirmAction lateOutside 1 30 1 ⟨"user", some 1, none, none, none⟩)
      lateSession = lateConfirmation := rfl

/-- The confirmation is refused for its validity, and the inverted validity is committed. -/
theorem lateConfirmation_eq : ∃ d, lateConfirmation = (.error (.domain d), lateConfirmation.2) ∧
    lateConfirmation.2.db.memoryItems.rows.map MemoryItem.validFrom =
      [some (.utc 1798761600000000)] := by
  have h : ((Exc.refusal? lateConfirmation.1).any fun d => decide (d.code = "invalid_validity" ∧
      lateConfirmation.2.db.memoryItems.rows.map MemoryItem.validFrom =
        [some (.utc 1798761600000000)])) = true := by
    decide +kernel
  obtain ⟨d, hd, hdecide⟩ := (Option.any_eq_true _ _).mp h
  exact ⟨d, Exc.eq_of_refusal? hd, (of_decide_eq_true hdecide).2⟩

/-- A confirmation that ends in a domain error does not in general leave the protected rows as
they were: the update of a memory with a start of validity after its stored end is refused and
committed. -/
theorem confirmAction_not_atomic : ¬∀ (out : Outside) (accountId actionId : Uuid)
    (expectedActionVersion : ℤ) (context : AuditContext) (s s' : Session) (e : Exc),
    Database.session (confirmAction out accountId actionId expectedActionVersion context) s =
      (.error e, s') → e.IsDomain → s'.db.protectedRows = s.db.protectedRows := by
  intro h
  obtain ⟨d, hd, hrows⟩ := lateConfirmation_eq
  have hsame := h _ _ _ _ _ _ _ _ (lateConfirmation_def.trans hd) trivial
  simp only [Db.protectedRows, Prod.mk.injEq] at hsame
  rw [hsame.1] at hrows
  simp [lateSession, Table.singleton] at hrows

/-- The equivalence at the refused update. -/
theorem confirmAction_protected_iff_late :
    lateConfirmation.2.db.protectedRows = lateSession.db.protectedRows ↔
      ¬LateRefusal lateOutside 1 30 1 lateSession := by
  obtain ⟨d, hd, -⟩ := lateConfirmation_eq
  exact confirmAction_protected_iff (lateConfirmation_def.trans hd) trivial

end OrchestrationService

end KajovoDagmar
