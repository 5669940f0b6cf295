import KajovoDagmar.History.Effects
import KajovoDagmar.Memory.Effects
import KajovoDagmar.Orchestration.Service

/-! # What the orchestration touches

Which tables the parts of `OrchestrationService` write, which of them only read, and which
raise no domain error. -/

namespace KajovoDagmar.OrchestrationService

variable {out : Outside} {γ : Type} {view : Db → γ}

/-! ### Runs and actions -/

theorem updateRun_noDomain (runId : Uuid) (f : OrchestrationRun → OrchestrationRun) :
    NoDomain (updateRun out runId f) := by
  unfold updateRun
  refine (Tx.RaisesOnly.gets _).bind fun row => ?_
  refine (orRaise_noDomain _ _).bind fun run => ?_
  exact (Relation.save_noDomain _).bind fun _ => Tx.RaisesOnly.pure _

theorem updateAction_noDomain (actionId : Uuid) (f : ToolAction → ToolAction) :
    NoDomain (updateAction out actionId f) := by
  unfold updateAction
  refine (Tx.RaisesOnly.gets _).bind fun row => ?_
  refine (orRaise_noDomain _ _).bind fun action => ?_
  exact (Relation.save_noDomain _).bind fun _ => Tx.RaisesOnly.pure _

theorem updateAction_keeps
    (hv : ∀ r db, view { db with toolActions := db.toolActions.put r } = view db) (actionId : Uuid)
    (f : ToolAction → ToolAction) : Tx.Keeps (Same view) (updateAction out actionId f) := by
  unfold updateAction
  refine (Tx.Keeps.gets _).bind fun row => ?_
  refine (Tx.Keeps.orRaise _ _).bind fun action => ?_
  exact (Relation.save_keeps (hv _)).bind fun _ => Tx.Keeps.pure _

/-- An updated action is the one that was stored, changed by `f`. -/
theorem updateAction_ok {actionId : Uuid} {f : ToolAction → ToolAction} {a : ToolAction}
    {s s' : Session} (h : updateAction out actionId f s = (.ok a, s')) :
    ∃ stored, s.db.toolActions.find? actionId = some stored ∧ a = f stored ∧
      s' = { s with db := { s.db with
        toolActions := s.db.toolActions.put { f stored with id := stored.id } } } := by
  unfold updateAction at h
  exact Relation.update_ok h

/-- An updated run is the one that was stored, changed by `f`. -/
theorem updateRun_ok {runId : Uuid} {f : OrchestrationRun → OrchestrationRun} {r : OrchestrationRun}
    {s s' : Session} (h : updateRun out runId f s = (.ok r, s')) :
    ∃ stored, s.db.orchestrationRuns.find? runId = some stored ∧ r = f stored ∧
      s' = { s with db := { s.db with
        orchestrationRuns := s.db.orchestrationRuns.put { f stored with id := stored.id } } } := by
  unfold updateRun at h
  exact Relation.update_ok h

theorem completeRun_noDomain (action : ToolAction) : NoDomain (completeRun out action) := by
  unfold completeRun
  refine (Tx.RaisesOnly.gets _).bind fun run => ?_
  cases run with
  | none => exact Tx.RaisesOnly.pure _
  | some run =>
      refine (Tx.RaisesOnly.gets _).bind fun remaining => ?_
      split
      · exact Relation.save_noDomain _
      · exact Tx.RaisesOnly.pure _

theorem failAction_noDomain (actionId : Uuid) (context : AuditContext) (e : Exc) :
    NoDomain (failAction out actionId context e) := by
  unfold failAction
  refine (updateAction_noDomain _ _).bind fun action => ?_
  exact AuditService.append_noDomain.bind fun _ => Tx.RaisesOnly.pure _

theorem failAction_keeps (ha : ∀ r db, view { db with toolActions := db.toolActions.put r } = view db)
    (haudit : ∀ t db, view { db with auditEvents := t } = view db) (actionId : Uuid)
    (context : AuditContext) (e : Exc) :
    Tx.Keeps (Same view) (failAction out actionId context e) := by
  unfold failAction
  refine (updateAction_keeps ha _ _).bind fun action => ?_
  exact (AuditService.append_keeps haudit).bind fun _ => Tx.Keeps.pure _

/-! ### Executing and confirming actions -/

theorem setting_keeps (area key : String) (fallback : Json) :
    Tx.Keeps (Same view) (setting area key fallback) :=
  Tx.Keeps.gets _

theorem checkSource_keeps (accountId : Uuid) (source : String × Json) :
    Tx.Keeps (Same view) (checkSource out accountId source) := by
  unfold checkSource
  refine (Tx.Keeps.ofExcept _).bind fun memoryId => ?_
  exact (MemoryService.get_keeps _ _ _).bind fun item => Tx.Keeps.raiseIf _ _

theorem mergeArguments_keeps (accountId : Uuid) (args : Json) :
    Tx.Keeps (Same view) (mergeArguments out accountId args) := by
  unfold mergeArguments
  refine (Tx.Keeps.ofExcept _).bind fun versions => ?_
  refine (Tx.Keeps.forEach fun source => checkSource_keeps _ source).bind fun _ => ?_
  refine (Tx.Keeps.ofExcept _).bind fun sourceIds => ?_
  exact (Tx.Keeps.ofExcept _).bind fun target => Tx.Keeps.pure _

theorem completeRun_keeps
    (hr : ∀ r db, view { db with orchestrationRuns := db.orchestrationRuns.put r } = view db)
    (action : ToolAction) : Tx.Keeps (Same view) (completeRun out action) := by
  unfold completeRun
  refine (Tx.Keeps.gets _).bind fun run => ?_
  cases run with
  | none => exact Tx.Keeps.pure _
  | some run =>
      refine (Tx.Keeps.gets _).bind fun remaining => ?_
      split
      · exact Relation.save_keeps fun db => hr _ db
      · exact Tx.Keeps.pure _

/-- A view of the database in which a confirmation does not show up. -/
structure Hidden (view : Db → γ) : Prop where
  memory : MemoryService.Hidden view
  history : HistoryService.Hidden view
  actions : ∀ r db, view { db with toolActions := db.toolActions.put r } = view db
  runs : ∀ r db, view { db with orchestrationRuns := db.orchestrationRuns.put r } = view db

theorem dispatch_keeps (hm : MemoryService.Hidden view) (hh : HistoryService.Hidden view)
    (accountId : Uuid) (name : String) (args : Json) (context : AuditContext) :
    Tx.Keeps (Same view) (dispatch out accountId name args context) := by
  unfold dispatch
  split
  · exact (Tx.Keeps.ofExcept _).bind fun _ =>
      (MemoryService.create_keeps hm _ _ _).bind fun _ => Tx.Keeps.pure _
  split
  · exact (Tx.Keeps.ofExcept _).bind fun _ =>
      (MemoryService.update_keeps hm _ _ _ _).bind fun _ => Tx.Keeps.pure _
  split
  · exact (setting_keeps _ _ _).bind fun _ => (Tx.Keeps.ofExcept _).bind fun _ =>
      (Tx.Keeps.ofExcept _).bind fun _ =>
      (MemoryService.softDelete_keeps hm _ _ _ _ _).bind fun _ => Tx.Keeps.pure _
  split
  · exact (Tx.Keeps.ofExcept _).bind fun _ =>
      (MemoryService.restore_keeps hm _ _ _ _).bind fun _ => Tx.Keeps.pure _
  split
  · exact (mergeArguments_keeps _ _).bind fun _ =>
      (MemoryService.merge_keeps hm _ _ _ _).bind fun _ => Tx.Keeps.pure _
  split
  · exact (Tx.Keeps.ofExcept _).bind fun _ =>
      (HistoryService.continueFrom_keeps hh _ _ _).bind fun _ => Tx.Keeps.pure _
  split
  · exact (setting_keeps _ _ _).bind fun _ => (Tx.Keeps.ofExcept _).bind fun _ =>
      (Tx.Keeps.ofExcept _).bind fun _ =>
      (HistoryService.softDelete_keeps hh _ _ _ _ _).bind fun _ => Tx.Keeps.pure _
  split
  · exact (Tx.Keeps.ofExcept _).bind fun _ =>
      (HistoryService.restore_keeps hh _ _ _ _).bind fun _ => Tx.Keeps.pure _
  · exact Tx.Keeps.raise _

section frame

variable (hv : Hidden view)

include hv

theorem executeConfirmed_keeps (accountId : Uuid) (action : ToolAction) (context : AuditContext) :
    Tx.Keeps (Same view) (executeConfirmed out accountId action context) := by
  unfold executeConfirmed executeStateAction
  refine ((Tx.Keeps.raiseIf _ _).bind fun _ => dispatch_keeps hv.memory hv.history _ _ _ _).bind fun result => ?_
  refine (Same.utcNow _).bind fun now => ?_
  refine (updateAction_keeps hv.actions _ _).bind fun action => ?_
  refine (completeRun_keeps hv.runs _).bind fun _ => ?_
  exact (AuditService.append_keeps hv.memory.auditEvents).bind fun _ => Tx.Keeps.pure _

/-- A confirmation writes nothing but the tables that a hidden view does not show. -/
theorem confirmAction_keeps (accountId actionId : Uuid) (expectedActionVersion : ℤ)
    (context : AuditContext) :
    Tx.Keeps (Same view) (confirmAction out accountId actionId expectedActionVersion context) := by
  unfold confirmAction lockAction expireAction runAction
  refine ((Tx.Keeps.gets _).bind fun row => Tx.Keeps.orRaise _ _).bind fun action => ?_
  split
  · exact Tx.Keeps.pure _
  refine (Tx.Keeps.raiseIf _ _).bind fun _ => ?_
  refine (Tx.Keeps.raiseIf _ _).bind fun _ => ?_
  refine (Same.utcNow _).bind fun now => ?_
  split
  · exact (updateAction_keeps hv.actions _ _).bind fun _ => Tx.Keeps.raise _
  · refine (Same.utcNow _).bind fun confirmedAt => ?_
    refine (updateAction_keeps hv.actions _ _).bind fun action => ?_
    refine (executeConfirmed_keeps hv _ _ _).handle fun e => ?_
    exact (failAction_keeps hv.actions hv.memory.auditEvents _ _ _).bind fun _ => Tx.Keeps.raise _

end frame

/-! ### Preparing and calling the model -/

theorem primaryModel_keeps : Tx.Keeps (Same view) (primaryModel out) := by
  unfold primaryModel
  refine (Tx.Keeps.gets _).bind fun row => ?_
  refine (Tx.Keeps.raiseIf _ _).bind fun _ => ?_
  refine (Tx.Keeps.orRaise _ _).bind fun modelUuid => ?_
  refine (Tx.Keeps.gets _).bind fun models => ?_
  refine (Tx.Keeps.orRaise _ _).bind fun model => ?_
  refine (Tx.Keeps.raiseIf _ _).bind fun _ => ?_
  refine (Tx.Keeps.gets _).bind fun providers => ?_
  exact (Tx.Keeps.orRaise _ _).bind fun provider => Tx.Keeps.pure _

theorem buildContext_keeps (accountId : Uuid) (conversation : Conversation)
    (messages : List ConversationMessage) (sourceMessage : ConversationMessage)
    (normalizedInput : String) (toolResults : List ToolResult) :
    Tx.Keeps (Same view)
      (buildContext out accountId conversation messages sourceMessage normalizedInput toolResults) := by
  unfold buildContext contextMemories
  refine (Tx.Keeps.gets _).bind fun answer => ?_
  refine (Tx.Keeps.ofExcept _).bind fun ranked => ?_
  refine ((Tx.Keeps.gets _).bind fun rows => Tx.Keeps.pure _).bind fun memories => ?_
  refine (Tx.Keeps.gets _).bind fun sources => ?_
  exact (setting_keeps _ _ _).bind fun verbosity => Tx.Keeps.pure _

theorem executeReadTools_keeps (accountId : Uuid) (calls : List ToolCallDecision) :
    Tx.Keeps (Same view) (executeReadTools out accountId calls) := by
  have hitems : ∀ name query limit, Tx.Keeps (Same view) (toolItems out accountId name query limit) := by
    intro name query limit
    unfold toolItems MemoryService.search HistoryService.search
    refine (Tx.Keeps.gets _).bind fun answer => ?_
    refine (Tx.Keeps.ofExcept _).bind fun ranked => ?_
    refine (Tx.Keeps.raiseIf _ _).bind fun _ => ?_
    split
    · exact ((Tx.Keeps.gets _).bind fun rows => Tx.Keeps.pure _).bind fun rows => Tx.Keeps.pure _
    · exact ((Tx.Keeps.gets _).bind fun messages => (Tx.Keeps.gets _).bind fun rows =>
        Tx.Keeps.pure _).bind fun rows => Tx.Keeps.pure _
  have hcall : ∀ call, Tx.Keeps (Same view) (executeReadTool out accountId call) := by
    intro call
    unfold executeReadTool
    extract_lets arguments query
    clear_value query arguments
    refine (Tx.Keeps.raiseIf _ _).bind fun _ => ?_
    refine (Tx.Keeps.orRaise _ _).bind fun rawLimit => ?_
    exact (hitems _ _ _).bind fun items => Tx.Keeps.pure _
  exact (Tx.Keeps.forEach hcall).bind fun results => Tx.Keeps.pure _

theorem openRun_keeps (hr : ∀ t db, view { db with orchestrationRuns := t } = view db)
    (existing : Option OrchestrationRun) (accountId conversationId messageId : Uuid)
    (provider : ProviderConfiguration) (model : ModelCatalogEntry) (bundle : ContextBundle) :
    Tx.Keeps (Same view)
      (openRun out existing accountId conversationId messageId provider model bundle) := by
  cases existing with
  | some run => exact Tx.Keeps.pure _
  | none =>
      exact (Same.newUuid _).bind fun id => (Relation.add_keeps hr _).bind fun _ => Tx.Keeps.pure _

theorem prepare_keeps (hr : ∀ t db, view { db with orchestrationRuns := t } = view db)
    (existing : Option OrchestrationRun) (accountId conversationId messageId : Uuid) :
    Tx.Keeps (Same view) (prepare out existing accountId conversationId messageId) := by
  unfold prepare
  refine (Tx.Keeps.gets _).bind fun row => ?_
  refine (Tx.Keeps.orRaise _ _).bind fun conversation => ?_
  refine (Tx.Keeps.gets _).bind fun messages => ?_
  refine (Tx.Keeps.orRaise _ _).bind fun sourceMessage => ?_
  refine primaryModel_keeps.bind fun selected => ?_
  refine (buildContext_keeps _ _ _ _ _ _).bind fun bundle => ?_
  exact (openRun_keeps hr _ _ _ _ _ _ _).bind fun runId => Tx.Keeps.pure _

/-- The update of a run is invisible to a view that the changed columns do not show up in. -/
theorem updateRun_keeps {f : OrchestrationRun → OrchestrationRun}
    (hr : ∀ (run : OrchestrationRun) (db : Db), run ∈ db.orchestrationRuns → view { db with
      orchestrationRuns := db.orchestrationRuns.put { f run with id := run.id } } = view db)
    (runId : Uuid) : Tx.Keeps (Same view) (updateRun out runId f) := by
  intro s
  unfold updateRun
  change Same view s ((Tx.orRaise (s.db.orchestrationRuns.find? runId) _ >>= _) s).2
  cases hf : s.db.orchestrationRuns.find? runId with
  | none => rfl
  | some run =>
      rw [Tx.orRaise_some, Tx.pure_bind]
      have hsave : Same view s (Relation.save out.toRuntime Db.orchestrationRun
          { f run with id := run.id } s).2 := by
        cases hu : out.rejectsUpdate (.orchestrationRun { f run with id := run.id }) with
        | none =>
            rw [Relation.save_of_accepted hu]
            exact hr run s.db (Table.mem_of_find? hf)
        | some c =>
            rw [Relation.save_of_rejected hu]
            rfl
      rcases h : Relation.save out.toRuntime Db.orchestrationRun { f run with id := run.id } s with
        ⟨e | u, s'⟩ <;> rw [h] at hsave
      · rw [Tx.bind_of_error h]
        exact hsave
      · rw [Tx.bind_of_ok h]
        exact hsave

/-- A view of the database in which a model call does not show up. -/
structure HiddenCall (view : Db → γ) : Prop where
  attempts : ∀ t db, view { db with orchestrationAttempts := t } = view db
  count : ∀ (run : OrchestrationRun) (db : Db), run ∈ db.orchestrationRuns → view { db with
    orchestrationRuns := db.orchestrationRuns.put { run with
      attemptCount := run.attemptCount + 1 } } = view db
  manifest : ∀ (m : Json) (run : OrchestrationRun) (db : Db), run ∈ db.orchestrationRuns →
    view { db with
      orchestrationRuns := db.orchestrationRuns.put { run with contextManifest := m } } = view db

theorem callModel_keeps (hv : HiddenCall view) (runId : Uuid) (provider : ProviderConfiguration)
    (model : ModelCatalogEntry) (prompt : String) (messages : List ConversationMessage) :
    Tx.Keeps (Same view) (callModel out runId provider model prompt messages) := by
  unfold callModel attemptCall failAttempt
  refine (Tx.Keeps.gets _).bind fun broken => ?_
  refine (Tx.Keeps.raiseSome _).bind fun _ => ?_
  refine (updateRun_keeps hv.count _).bind fun run => ?_
  refine (Same.newUuid _).bind fun id => ?_
  refine (Relation.add_keeps hv.attempts _).bind fun _ => ?_
  refine Tx.Keeps.handle ?_ fun e => ?_
  · have hchat : ∀ request, Tx.Keeps (Same view) (chat out request) := fun request s => rfl
    refine (hchat _).bind fun result => ?_
    refine (Tx.Keeps.ofExcept _).bind fun decision => ?_
    refine (Same.utcNow _).bind fun now => ?_
    exact (Relation.save_keeps fun db => hv.attempts _ db).bind fun _ => Tx.Keeps.pure _
  · refine ((Same.utcNow _).bind fun now => ?_).bind fun _ => Tx.Keeps.raise _
    exact Relation.save_keeps fun db => hv.attempts _ db

theorem obtainDecision_keeps (hv : HiddenCall view) (accountId : Uuid) (p : Prepared) :
    Tx.Keeps (Same view) (obtainDecision out accountId p) := by
  unfold obtainDecision settleDecision obtainSecondDecision validateSources
  refine (callModel_keeps hv _ _ _ _ _).bind fun first => ?_
  refine Tx.Keeps.bind ?_ fun decided => (Tx.Keeps.raiseIf _ _).bind fun _ => Tx.Keeps.pure _
  split
  · exact Tx.Keeps.pure _
  · refine (executeReadTools_keeps _ _).bind fun found => ?_
    refine (buildContext_keeps _ _ _ _ _ _).bind fun bundle => ?_
    refine (updateRun_keeps (hv.manifest _) _).bind fun _ => ?_
    refine (callModel_keeps hv _ _ _ _ _).bind fun second => ?_
    exact (Tx.Keeps.raiseIf _ _).bind fun _ => Tx.Keeps.pure _

/-! ### Normalising a call only reads -/

/-- The rows that the normalisation of a call looks at. -/
def targets (db : Db) := (db.memoryItems, db.conversations, db.conversationMessages)

theorem normalizeAction_reads (accountId : Uuid) (call : ToolCallDecision)
    (conversation : Conversation) (sourceMessage : ConversationMessage) :
    Tx.Reads (Same targets) (normalizeAction out accountId call conversation sourceMessage) := by
  have hitems : ∀ {s s' : Session}, Same targets s s' → s'.db.memoryItems = s.db.memoryItems :=
    fun h => congrArg Prod.fst h
  have hconversations : ∀ {s s' : Session}, Same targets s s' →
      s'.db.conversations = s.db.conversations ∧
        s'.db.conversationMessages = s.db.conversationMessages :=
    fun h => Prod.mk.inj (congrArg Prod.snd h)
  have hmemory : ∀ name args, Tx.Reads (Same targets) (normalizeMemory out accountId name args) := by
    intro name args
    unfold normalizeMemory MemoryService.get
    refine (Tx.Reads.orRaise _ _).bind fun memoryId => ?_
    refine Tx.Reads.bind ?_ fun item => ?_
    · refine (Tx.Reads.gets fun s s' h => ?_).bind fun item => Tx.Reads.orRaise _ _
      unfold MemoryService.item?
      rw [hitems h]
    · refine (Tx.Reads.orRaise _ _).bind fun expected => ?_
      exact (Tx.Reads.raiseIf _ _).bind fun _ => Tx.Reads.pure _
  have hhistory : ∀ name args, Tx.Reads (Same targets) (normalizeHistory out accountId name args) := by
    intro name args
    unfold normalizeHistory HistoryService.detail
    refine (Tx.Reads.orRaise _ _).bind fun conversationId => ?_
    refine Tx.Reads.bind ?_ fun detail => ?_
    · refine (Tx.Reads.gets fun s s' h => ?_).bind fun row => ?_
      · unfold HistoryService.conversation?
        rw [(hconversations h).1]
      refine (Tx.Reads.orRaise _ _).bind fun c => ?_
      refine (Tx.Reads.gets fun s s' h => ?_).bind fun messages => Tx.Reads.pure _
      unfold Db.messagesOf
      rw [(hconversations h).2]
    · refine (Tx.Reads.orRaise _ _).bind fun expected => ?_
      exact (Tx.Reads.raiseIf _ _).bind fun _ => Tx.Reads.pure _
  unfold normalizeAction
  split
  · unfold normalizeCreate
    exact (Tx.Reads.orRaise _ _).bind fun request => Tx.Reads.pure _
  · exact hmemory _ _
  · exact hmemory _ _
  · exact hmemory _ _
  · exact hmemory _ _
  · unfold normalizeMerge
    refine (Tx.Reads.orRaise _ _).bind fun rawSourceIds => ?_
    refine (Tx.Reads.orRaise _ _).bind fun sourceIds => ?_
    refine (Tx.Reads.raiseIf _ _).bind fun _ => ?_
    refine (Tx.Reads.gets fun s s' h => ?_).bind fun sources => ?_
    · simp only [Db.memoryItem, hitems h]
    refine (Tx.Reads.raiseIf _ _).bind fun _ => ?_
    exact (Tx.Reads.orRaise _ _).bind fun request => Tx.Reads.pure _
  · exact hhistory _ _
  · exact hhistory _ _
  · exact hhistory _ _
  all_goals exact Tx.Reads.raise _

/-! ### The three ways of answering -/

/-- The run of the message is neither replayed nor in progress. -/
def Anew (db : Db) (accountId messageId : Uuid) : Prop :=
  ∀ run, runOf? db accountId messageId = some run → replayable run = false ∧ inProgress run = false

/-- The context under which `answer` writes its audit events. -/
def auditContext (accountId : Uuid) (context : Option AuditContext) : AuditContext :=
  context.getD { actorType := "system", actorId := some accountId }

/-- A completed run is replayed, a run in progress is refused, and everything else is answered
anew. -/
theorem answer_cases {accountId conversationId messageId : Uuid} {context : Option AuditContext}
    {r : Except Exc OrchestrationResult} {s s' : Session}
    (h : answer out accountId conversationId messageId context s = (r, s')) :
    (∃ run, runOf? s.db accountId messageId = some run ∧ replayable run = true ∧
      replay out run s = (r, s')) ∨
    (∃ run e, runOf? s.db accountId messageId = some run ∧ inProgress run = true ∧
      r = .error (.domain (.conflict "Tato replika se již zpracovává." e)) ∧ s' = s) ∨
    (Anew s.db accountId messageId ∧ answerAnew out (runOf? s.db accountId messageId) accountId
      conversationId messageId (auditContext accountId context) s = (r, s')) := by
  unfold answer at h
  rw [Tx.gets_bind_apply] at h
  cases hreplay : (runOf? s.db accountId messageId).filter replayable with
  | some run =>
      rw [hreplay] at h
      obtain ⟨hrun, hreplayable⟩ := Option.filter_eq_some_iff.mp hreplay
      exact .inl ⟨run, hrun, hreplayable, h⟩
  | none =>
      rw [hreplay] at h
      right
      cases hprogress : (runOf? s.db accountId messageId).filter inProgress with
      | some run =>
          rw [hprogress, Option.map_some, Tx.raiseSome_some, Tx.raise_bind] at h
          obtain ⟨hrun, hin⟩ := Option.filter_eq_some_iff.mp hprogress
          exact .inl ⟨run, _, hrun, hin, (Prod.mk.inj h).1.symm, (Prod.mk.inj h).2.symm⟩
      | none =>
          rw [hprogress, Option.map_none, Tx.raiseSome_none, Tx.pure_bind] at h
          refine .inr ⟨?_, h⟩
          intro run hrun
          rw [hrun, Option.filter_eq_none_iff] at hreplay hprogress
          exact ⟨by simpa using hreplay run rfl, by simpa using hprogress run rfl⟩

end KajovoDagmar.OrchestrationService
