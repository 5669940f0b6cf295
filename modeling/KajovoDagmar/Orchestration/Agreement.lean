import KajovoDagmar.Orchestration.Calls

/-! # The states of runs and actions

A run awaits confirmation as long as one of its actions is pending, and a run that has ended
says when and why.  Answers, confirmations and cancellations keep this agreement as long as no
confirmation takes the last pending action of a run, no failed answer leaves actions behind, and
no run completes that has failed before. -/

namespace KajovoDagmar.OrchestrationService

variable {out : Outside}

def HasPending (actions : Table ToolAction.id) (runId : Uuid) : Prop :=
  ∃ a ∈ actions, a.runId = runId ∧ a.state = .pendingConfirmation

/-- What the state of a run says about its fields and its actions. -/
structure RunAgrees (actions : Table ToolAction.id) (r : OrchestrationRun) : Prop where
  awaiting : r.state = .awaitingConfirmation ↔ HasPending actions r.id
  completed : r.state = .completed →
    r.completedAt.isSome ∧ r.errorCode = none ∧ ¬HasPending actions r.id
  failed : r.state = .failed →
    r.completedAt.isSome ∧ r.errorCode.isSome ∧ ¬HasPending actions r.id
  cancelled : r.state = .cancelled → r.cancelledAt.isSome ∧ ¬HasPending actions r.id

/-- The states of the runs agree with the actions. -/
def Agreement (db : Db) : Prop := ∀ r ∈ db.orchestrationRuns, RunAgrees db.toolActions r

/-- The foreign key of the actions. -/
def Owned (db : Db) : Prop := ∀ a ∈ db.toolActions, ∃ r ∈ db.orchestrationRuns, r.id = a.runId

/-! ### The agreement of two tables -/

/-- The agreement and the foreign key, for a table of runs and a table of actions. -/
structure Agree (runs : Table OrchestrationRun.id) (actions : Table ToolAction.id) : Prop where
  agrees : ∀ r ∈ runs, RunAgrees actions r
  owned : ∀ a ∈ actions, ∃ r ∈ runs, r.id = a.runId

theorem RunAgrees.core_iff {actions : Table ToolAction.id} {r : OrchestrationRun} :
    RunAgrees actions (core r) ↔ RunAgrees actions r :=
  ⟨fun h => ⟨h.awaiting, h.completed, h.failed, h.cancelled⟩,
    fun h => ⟨h.awaiting, h.completed, h.failed, h.cancelled⟩⟩

theorem agree_cores {db : Db} : Agree (cores db) db.toolActions ↔ Agreement db ∧ Owned db := by
  have hmem : ∀ r : OrchestrationRun, r ∈ cores db ↔ ∃ x ∈ db.orchestrationRuns, core x = r :=
    fun r => List.mem_map
  constructor
  · rintro ⟨hagrees, howned⟩
    refine ⟨fun r hr => RunAgrees.core_iff.mp (hagrees _ ((hmem _).mpr ⟨r, hr, rfl⟩)), fun a ha => ?_⟩
    obtain ⟨r, hr, hid⟩ := howned a ha
    obtain ⟨x, hx, rfl⟩ := (hmem r).mp hr
    exact ⟨x, hx, hid⟩
  · rintro ⟨hagrees, howned⟩
    refine ⟨fun r hr => ?_, fun a ha => ?_⟩
    · obtain ⟨x, hx, rfl⟩ := (hmem r).mp hr
      exact RunAgrees.core_iff.mpr (hagrees x hx)
    · obtain ⟨r, hr, hid⟩ := howned a ha
      exact ⟨core r, (hmem _).mpr ⟨r, hr, rfl⟩, hid⟩

theorem RunAgrees.of_iff {actions actions' : Table ToolAction.id} {r : OrchestrationRun}
    (hp : HasPending actions' r.id ↔ HasPending actions r.id) (h : RunAgrees actions r) :
    RunAgrees actions' r where
  awaiting := h.awaiting.trans hp.symm
  completed hs := ⟨(h.completed hs).1, (h.completed hs).2.1, fun hn => (h.completed hs).2.2 (hp.mp hn)⟩
  failed hs := ⟨(h.failed hs).1, (h.failed hs).2.1, fun hn => (h.failed hs).2.2 (hp.mp hn)⟩
  cancelled hs := ⟨(h.cancelled hs).1, fun hn => (h.cancelled hs).2 (hp.mp hn)⟩

/-- A run that is not awaiting confirmation has no pending action. -/
theorem RunAgrees.not_hasPending {actions : Table ToolAction.id} {r : OrchestrationRun}
    (h : RunAgrees actions r) (hs : r.state ≠ .awaitingConfirmation) : ¬HasPending actions r.id :=
  mt h.awaiting.mpr hs

/-- One run changes, together with its own actions. -/
theorem Agree.put {runs : Table OrchestrationRun.id} (actions : Table ToolAction.id)
    {actions' : Table ToolAction.id} {run : OrchestrationRun}
    (hothers : ∀ r ∈ runs, r.id ≠ run.id → RunAgrees actions r)
    (hpending : ∀ r ∈ runs, r.id ≠ run.id → (HasPending actions' r.id ↔ HasPending actions r.id))
    (hrun : RunAgrees actions' run)
    (howned : ∀ a ∈ actions', ∃ r ∈ runs, r.id = a.runId) : Agree (runs.put run) actions' := by
  constructor
  · intro r hr
    rcases Table.mem_put_iff.mp hr with ⟨hr, hne⟩ | ⟨rfl, -⟩
    · exact (hothers r hr hne).of_iff (hpending r hr hne)
    · exact hrun
  · intro a ha
    obtain ⟨r, hr, hid⟩ := howned a ha
    by_cases h : r.id = run.id
    · exact ⟨run, Table.mem_put_iff.mpr (.inr ⟨rfl, r, hr, h⟩), h.symm.trans hid⟩
    · exact ⟨r, Table.mem_put_iff.mpr (.inl ⟨hr, h⟩), hid⟩

/-! ### Answers -/

theorem hasPending_append {actions actions' : Table ToolAction.id} {created : List ToolAction}
    {runId : Uuid} (h : actions'.rows = actions.rows ++ created)
    (hcreated : ∀ a ∈ created, a.runId = runId ∧ a.state = .pendingConfirmation) (id : Uuid) :
    HasPending actions' id ↔ HasPending actions id ∨ (id = runId ∧ created ≠ []) := by
  unfold HasPending
  simp only [Table.mem_def, h, List.mem_append]
  constructor
  · rintro ⟨a, ha | ha, hid, hs⟩
    · exact .inl ⟨a, ha, hid, hs⟩
    · exact .inr ⟨hid.symm.trans (hcreated a ha).1, List.ne_nil_of_mem ha⟩
  · rintro (⟨a, ha, hid, hs⟩ | ⟨rfl, hne⟩)
    · exact ⟨a, .inl ha, hid, hs⟩
    · obtain ⟨a, ha⟩ := List.exists_mem_of_ne_nil created hne
      exact ⟨a, .inr ha, (hcreated a ha).1, (hcreated a ha).2⟩

theorem Opened.mem {accountId conversationId messageId : Uuid} {db : Db} {run r : OrchestrationRun}
    {t : Table OrchestrationRun.id} (h : Opened accountId conversationId messageId db run t)
    (hr : r ∈ t) (hne : r.id ≠ run.id) : r ∈ cores db := by
  cases h with
  | again found => exact hr
  | first missing added =>
      rcases (Table.mem_insert? added).mp hr with hr | rfl
      · exact hr
      · exact absurd rfl hne

theorem Opened.subset {accountId conversationId messageId : Uuid} {db : Db} {run r : OrchestrationRun}
    {t : Table OrchestrationRun.id} (h : Opened accountId conversationId messageId db run t)
    (hr : r ∈ cores db) : r ∈ t := by
  cases h with
  | again found => exact hr
  | first missing added => exact (Table.mem_insert? added).mpr (.inl hr)

/-- A run that is answered anew has no pending action. -/
theorem Opened.not_hasPending {accountId conversationId messageId : Uuid} {db : Db}
    {run : OrchestrationRun} {t : Table OrchestrationRun.id}
    (h : Opened accountId conversationId messageId db run t) (hanew : Anew db accountId messageId)
    (hinv : Agree (cores db) db.toolActions) : ¬HasPending db.toolActions run.id := by
  cases h with
  | again found =>
      rename_i run
      have hidle := (hanew run found).2
      have hmem : core run ∈ cores db := List.mem_map_of_mem (runOf?_mem found).1
      refine (hinv.agrees _ hmem).not_hasPending fun hs => ?_
      have : run.state = .awaitingConfirmation := hs
      simp [inProgress, this] at hidle
  | first missing added =>
      rintro ⟨a, ha, hid, -⟩
      obtain ⟨r, hr, hrid⟩ := hinv.owned a ha
      exact (Table.insert?_eq_some added).2 (List.mem_map.mpr ⟨r, hr, hrid.trans hid⟩)

/-- The run of an answer changes, and its new actions are added. -/
theorem agree_of_opened {accountId conversationId messageId : Uuid} {db : Db}
    {run run' : OrchestrationRun} {t : Table OrchestrationRun.id} {actions : Table ToolAction.id}
    {created : List ToolAction} (h : Opened accountId conversationId messageId db run t)
    (hid : run'.id = run.id) (hinv : Agree (cores db) db.toolActions)
    (hactions : actions.rows = db.toolActions.rows ++ created)
    (hcreated : ∀ a ∈ created, a.runId = run.id ∧ a.state = .pendingConfirmation)
    (hrun : RunAgrees actions run') : Agree (t.put run') actions := by
  refine Agree.put db.toolActions ?_ ?_ hrun ?_
  · intro r hr hne
    exact hinv.agrees r (h.mem hr (hid ▸ hne))
  · intro r hr hne
    rw [hasPending_append hactions hcreated]
    exact or_iff_left fun hor => hne (hor.1.trans hid.symm)
  · intro a ha
    rw [Table.mem_def, hactions, List.mem_append] at ha
    rcases ha with ha | ha
    · obtain ⟨r, hr, hrid⟩ := hinv.owned a ha
      exact ⟨r, h.subset hr, hrid⟩
    · exact ⟨run, Table.mem_of_find? h.find?, (hcreated a ha).1.symm⟩

/-- The model decides without a state-changing call for a message whose run has failed before. -/
def CompletesFailed (out : Outside) (accountId conversationId messageId : Uuid) (s : Session) : Prop :=
  ∃ run p d s₁, runOf? s.db accountId messageId = some run ∧ run.errorCode ≠ none ∧
    Decides out accountId conversationId messageId s p d s₁ ∧ stateCalls d.decision = []

theorem Opened.errorCode {accountId conversationId messageId : Uuid} {db : Db}
    {run : OrchestrationRun} {t : Table OrchestrationRun.id}
    (h : Opened accountId conversationId messageId db run t) (he : run.errorCode ≠ none) :
    ∃ r, runOf? db accountId messageId = some r ∧ r.errorCode ≠ none := by
  cases h with
  | again found => exact ⟨_, found, he⟩
  | first missing added => exact absurd rfl he

theorem agree_of_answerMoves {accountId conversationId messageId : Uuid} {s s' : Session}
    {r : Except Exc OrchestrationResult}
    (h : AnswerMoves out accountId conversationId messageId s s' r)
    (hinv : Agree (cores s.db) s.db.toolActions)
    (hunfinished : ¬PartialProposal out accountId conversationId messageId s ∨ ∃ a, r = .ok a)
    (hcompletes : ¬CompletesFailed out accountId conversationId messageId s) :
    Agree (cores s'.db) s'.db.toolActions := by
  cases h with
  | idle how runs actions messages => rwa [runs, actions]
  | failed anew opened runs actions pending leftover messages =>
      rename_i run t created e e' now
      obtain rfl : created = [] := by
        rcases leftover with rfl | hleft
        · rfl
        · rcases hunfinished with hno | ⟨a, ha⟩
          · exact absurd hleft hno
          · simp at ha
      have hnone : ¬HasPending s'.db.toolActions run.id := by
        rw [hasPending_append actions pending]
        have := opened.not_hasPending anew hinv
        tauto
      rw [runs]
      refine agree_of_opened opened rfl hinv actions pending ⟨?_, ?_, ?_, ?_⟩
      · exact iff_of_false (by simp [failed]) hnone
      · intro hs
        simp [failed] at hs
      · intro _
        exact ⟨rfl, rfl, hnone⟩
      · intro hs
        simp [failed] at hs
  | answered opened decides id runs actions pending length replied =>
      rename_i run t p d s₁ created m now
      have hpending : HasPending s'.db.toolActions run.id ↔ created ≠ [] := by
        rw [hasPending_append actions pending]
        have := opened.not_hasPending decides.anew hinv
        tauto
      rw [runs]
      refine agree_of_opened opened rfl hinv actions pending ⟨?_, ?_, ?_, ?_⟩
      · refine Iff.trans ?_ hpending.symm
        unfold concluded
        by_cases hc : created = [] <;> simp [hc]
      · intro hs
        have hc : created = [] := by
          by_contra hc
          simp [concluded, hc] at hs
        refine ⟨by simp [concluded, hc], ?_, fun hp => hpending.mp hp hc⟩
        by_contra he
        obtain ⟨r, hr, hre⟩ := opened.errorCode he
        have hcalls : stateCalls d.decision = [] := by
          rw [← List.length_eq_zero_iff, ← length, hc]
          rfl
        exact hcompletes ⟨r, p, d, s₁, hr, hre, decides, hcalls⟩
      · intro hs
        unfold concluded at hs
        by_cases hc : created = [] <;> simp [hc] at hs
      · intro hs
        unfold concluded at hs
        by_cases hc : created = [] <;> simp [hc] at hs

/-! ### Confirmations and cancellations -/

/-- Another action of the run is pending. -/
def OtherPending (actions : Table ToolAction.id) (a : ToolAction) : Prop :=
  ∃ x ∈ actions, x.runId = a.runId ∧ x.id ≠ a.id ∧ x.state = .pendingConfirmation

/-- A pending action that ends next to another pending action of its run. -/
theorem hasPending_put {actions : Table ToolAction.id} {a a' : ToolAction} (ha : a ∈ actions)
    (hid : a'.id = a.id) (hrun : a'.runId = a.runId) (hends : a'.state ≠ .pendingConfirmation)
    (hother : OtherPending actions a) (runId : Uuid) :
    HasPending (actions.put a') runId ↔ HasPending actions runId := by
  obtain ⟨x, hx, hxrun, hxne, hxs⟩ := hother
  have hx' : x ∈ actions.put a' := Table.mem_put_iff.mpr (.inl ⟨hx, hid ▸ hxne⟩)
  constructor
  · rintro ⟨y, hy, hyrun, hys⟩
    rcases Table.mem_put_iff.mp hy with ⟨hy, -⟩ | ⟨rfl, -⟩
    · exact ⟨y, hy, hyrun, hys⟩
    · exact absurd hys hends
  · rintro ⟨y, hy, hyrun, hys⟩
    by_cases h : y.id = a'.id
    · obtain rfl := Table.eq_of_key hy ha (h.trans hid)
      exact ⟨x, hx', hxrun.trans hyrun, hxs⟩
    · exact ⟨y, Table.mem_put_iff.mpr (.inl ⟨hy, h⟩), hyrun, hys⟩

/-- An action ends and its run is left as it is. -/
theorem Agree.put_action {runs : Table OrchestrationRun.id} {actions : Table ToolAction.id}
    {a a' : ToolAction} (hinv : Agree runs actions) (ha : a ∈ actions) (hid : a'.id = a.id)
    (hrun : a'.runId = a.runId) (hends : a'.state ≠ .pendingConfirmation)
    (hother : OtherPending actions a) : Agree runs (actions.put a') := by
  constructor
  · intro r hr
    exact (hinv.agrees r hr).of_iff (hasPending_put ha hid hrun hends hother r.id)
  · intro y hy
    rcases Table.mem_put_iff.mp hy with ⟨hy, -⟩ | ⟨rfl, -⟩
    · exact hinv.owned y hy
    · exact hrun ▸ hinv.owned a ha

theorem agree_of_confirmMoves {accountId actionId : Uuid} {expectedActionVersion : ℤ} {s s' : Session}
    (h : ConfirmMoves accountId actionId expectedActionVersion s s')
    (hinv : Agree (cores s.db) s.db.toolActions)
    (hother : ∀ a, Awaits s.db accountId actionId expectedActionVersion a →
      OtherPending s.db.toolActions a) : Agree (cores s'.db) s'.db.toolActions := by
  cases h with
  | idle same =>
      simp only [ledger, Prod.mk.injEq] at same
      rwa [same.1, same.2.1]
  | expired awaits same =>
      simp only [ledger, Prod.mk.injEq] at same
      rw [same.1, same.2.1]
      exact hinv.put_action (Table.mem_of_find? awaits.stored) rfl rfl (by simp) (hother _ awaits)
  | failed awaits id run ends same =>
      simp only [ledger, Prod.mk.injEq] at same
      rw [same.1, same.2.1]
      exact hinv.put_action (Table.mem_of_find? awaits.stored) id run (by simp [ends]) (hother _ awaits)
  | completed awaits id run ends runs same =>
      simp only [ledger, Prod.mk.injEq] at same
      have hpending := hother _ awaits
      cases runs with
      | waits h =>
          rw [same.1, same.2.1]
          exact hinv.put_action (Table.mem_of_find? awaits.stored) id run (by simp [ends]) hpending
      | completes found last =>
          obtain ⟨x, hx, hxrun, hxne, hxs⟩ := hpending
          exact absurd ⟨x, hx, hxrun, hxne, by simp [hxs, ActionState.Finished]⟩ last

theorem hasPending_cancelPending {actions : Table ToolAction.id} {runId id : Uuid} :
    HasPending (actions.mapRows (cancelPending runId) (cancelPending_id runId)) id ↔
      HasPending actions id ∧ id ≠ runId := by
  unfold HasPending
  simp only [Table.mem_def, Table.rows_mapRows, List.mem_map]
  constructor
  · rintro ⟨a, ⟨x, hx, rfl⟩, hrun, hs⟩
    unfold cancelPending at hrun hs
    split at hs
    · simp at hs
    · next h =>
      rw [if_neg h] at hrun
      exact ⟨⟨x, hx, hrun, hs⟩, fun hid => h ⟨hrun.trans hid, hs⟩⟩
  · rintro ⟨⟨x, hx, hrun, hs⟩, hne⟩
    have h : cancelPending runId x = x := if_neg fun h => hne (hrun.symm.trans h.1)
    exact ⟨x, ⟨x, hx, h⟩, hrun, hs⟩

theorem agree_of_cancelMoves {runId : Uuid} {s s' : Session} (h : CancelMoves runId s s')
    (hinv : Agree (cores s.db) s.db.toolActions) : Agree (cores s'.db) s'.db.toolActions := by
  cases h with
  | idle same =>
      simp only [ledger, Prod.mk.injEq] at same
      rwa [same.1, same.2.1]
  | cancelled found opens same =>
      rename_i run now
      simp only [ledger, Prod.mk.injEq] at same
      rw [same.1, same.2.1]
      have hid : run.id = runId := Table.key_of_find? found
      have hnone : ¬HasPending (s.db.toolActions.mapRows (cancelPending runId) (cancelPending_id runId))
          run.id := fun hp => (hasPending_cancelPending.mp hp).2 hid
      refine Agree.put s.db.toolActions ?_ ?_ ⟨?_, ?_, ?_, ?_⟩ ?_
      · exact fun r hr _ => hinv.agrees r hr
      · intro r _ hne
        rw [hasPending_cancelPending]
        exact and_iff_left (hid ▸ hne)
      · exact iff_of_false (by simp) hnone
      · intro hs
        simp at hs
      · intro hs
        simp at hs
      · exact fun _ => ⟨rfl, hnone⟩
      · intro a ha
        obtain ⟨x, hx, rfl⟩ := List.mem_map.mp ha
        have hrun : (cancelPending runId x).runId = x.runId := by
          unfold cancelPending
          split <;> rfl
        rw [hrun]
        exact hinv.owned x hx

/-! ### Histories -/

/-- The call completes no run that has failed before, leaves no actions behind when it fails,
and confirms a pending action only next to another one of the run. -/
def Call.KeepsAgreement (out : Outside) (call : Call) (s : Session) : Prop :=
  (∀ accountId conversationId messageId s₁,
    call.Answering out s accountId conversationId messageId s₁ →
      ¬CompletesFailed out accountId conversationId messageId s₁ ∧
      (call.KeepsFailures → ¬PartialProposal out accountId conversationId messageId s₁)) ∧
  ∀ accountId actionId expectedActionVersion context a,
    call.operation = .confirmAction accountId actionId expectedActionVersion context →
      Awaits s.db accountId actionId expectedActionVersion a → OtherPending s.db.toolActions a

theorem agree_of_told {db db' : Db} (h : told db' = told db)
    (hinv : Agree (cores db) db.toolActions) : Agree (cores db') db'.toolActions := by
  simp only [told, Prod.mk.injEq] at h
  rwa [h.1, h.2.1]

theorem agree_step {call : Call} {s s' : Session} (hinv : Agree (cores s.db) s.db.toolActions)
    (hcond : call.KeepsAgreement out s) (hstep : step out s call = some s') :
    Agree (cores s'.db) s'.db.toolActions := by
  obtain rfl := Option.some.inj hstep
  cases moves_of_perform out call s with
  | still same => exact agree_of_told same hinv
  | answers of before moves commits after =>
      obtain ⟨hcompletes, hunfinished⟩ := hcond.1 _ _ _ _ of
      have hcommits := commits.symm.imp_left hunfinished
      have hagree := agree_of_answerMoves moves (agree_of_told before hinv) hcommits hcompletes
      exact agree_of_told (told_of_ledger after) hagree
  | confirms of moves =>
      exact agree_of_confirmMoves moves hinv fun a ha => hcond.2 _ _ _ _ a of ha
  | cancels of moves => exact agree_of_cancelMoves moves hinv

/-- **The states of runs and actions agree** after every history whose calls keep to the
conditions. -/
theorem agreement_of_history {s t : Session} {calls : List Call} (h₀ : Agreement s.db)
    (howned : Owned s.db) (hcond : Runs.Along (step out) (fun s call => call.KeepsAgreement out s) s calls)
    (hrun : Runs.run (step out) s calls = some t) : Agreement t.db := by
  have hinv : Agree (cores t.db) t.db.toolActions :=
    Runs.inv_of_along (I := fun s : Session => Agree (cores s.db) s.db.toolActions)
      (fun s call s' h hc hs => agree_step h hc hs) (agree_cores.mpr ⟨h₀, howned⟩) hcond hrun
  exact (agree_cores.mp hinv).1

/-! ### The only action of a run -/

def callAt (operation : Operation) : Call := ⟨operation, .utc 1767268800000000⟩

/-- The identifier and the version of a memory, as the arguments of its deletion. -/
def forgettingArguments : Json := .obj
  [("memory_id", .str "00000000-0000-0000-0000-00000000000a"), ("expected_version", .int 1)]

def forgettingAction : ToolAction :=
  { id := 30, runId := 20, name := "memory_delete", arguments := forgettingArguments
    argumentsHash := "528bfa2e50c6aafd6d90985a969f27cf3c0ef44cec69ee8551df89841415dd04"
    sideEffect := "state_change", confirmationRequired := true, state := .pendingConfirmation
    expectedTargetVersion := some 1, idempotencyKey := "0f0e0d0c0b0a09080706050403020100"
    createdAt := .utc 1767268800000000 }

/-- A memory, and a run that awaits the confirmation of its deletion. -/
def forgettingSession : Session where
  began := .utc 1767268800000000
  db :=
    { memoryItems := .singleton
        { id := 10, accountId := 1, content := "Bydlím v Brně", category := .personalFact
          state := .active, originType := .manual, updatedAt := .utc 1735689600000000 }
      orchestrationRuns := .singleton
        { id := 20, accountId := 1, conversationId := 2, sourceMessageId := 3
          state := .awaitingConfirmation, orchestrationVersion := orchestrationVersion
          promptVersion := promptVersion }
      toolActions := .singleton forgettingAction }

theorem forgettingSession_agreement : Agreement forgettingSession.db ∧ Owned forgettingSession.db := by
  have hpending : HasPending forgettingSession.db.toolActions 20 :=
    ⟨forgettingAction, List.mem_singleton_self _, rfl, rfl⟩
  constructor
  · intro r hr
    obtain rfl := List.mem_singleton.mp hr
    exact ⟨iff_of_true rfl hpending, by simp, by simp, by simp⟩
  · intro a ha
    obtain rfl := List.mem_singleton.mp ha
    exact ⟨_, List.mem_singleton_self _, rfl⟩

def forgettingCall : Call := callAt (.confirmAction 1 30 1 ⟨"user", some 1, none, none, none⟩)

/-- The deletion is confirmed. -/
def forgottenSession : Session := forgettingCall.perform (.sample (.sample 1767268800000000 [])
  (fun _ _ => .error (.other "NotImplementedError")) (fun _ => .error .null)) forgettingSession

/-- The confirmation completes the run without a time of completion. -/
theorem forgottenSession_run : ∃ run ∈ forgottenSession.db.orchestrationRuns,
    run.state = .completed ∧ run.completedAt = none := by
  have h : (forgottenSession.db.orchestrationRuns.rows.any fun run =>
      run.state = .completed ∧ run.completedAt = none) = true := by
    decide +kernel
  obtain ⟨run, hrun, hstate⟩ := List.any_eq_true.mp h
  exact ⟨run, hrun, of_decide_eq_true hstate⟩

/-- The states of runs and actions do not agree after every history: the confirmation of the
only action of a run completes it without a time of completion. -/
theorem agreement_broken : ¬∀ (out : Outside) (s t : Session) (calls : List Call),
    Agreement s.db → Owned s.db → Runs.run (step out) s calls = some t → Agreement t.db := by
  intro h
  obtain ⟨run, hrun, hcompleted, hat⟩ := forgottenSession_run
  have hagree := h _ forgettingSession forgottenSession [forgettingCall] forgettingSession_agreement.1
    forgettingSession_agreement.2 (run_singleton _ _ _) run hrun
  have hsome := (hagree.completed hcompleted).1
  simp [hat] at hsome

/-! ### A proposed memory -/

/-- The model proposes a new memory. -/
def savingDecision : ModelDecision where
  intent := .memoryManagement
  resultType := .confirmationRequired
  answer := "Uložím novou paměť."
  uncertainty := .low
  toolCalls :=
    [⟨.memoryCreate, [("content", .str "Bydlím v Brně"), ("category", .str "personal_fact")]⟩]
  requiresConfirmation := true
  answer_bounds := by decide
  sources_bound := noSources_bound
  toolCalls_bound := by decide
  confirmed := fun _ => rfl

/-- A model that always decides so. -/
def savingOutside : Outside := .sample (.sample 1767268800000000 [])
  (fun _ _ => .ok ⟨"resp-1", "", .null, none, none⟩) (fun _ => .ok savingDecision)

/-- One message, not yet answered. -/
def savingSession : Session where
  began := .utc 1767268800000000
  db := .sample (.singleton (.sample "Ulož, že bydlím v Brně."))

theorem savingSession_agreement : Agreement savingSession.db ∧ Owned savingSession.db :=
  ⟨fun _ hr => absurd hr List.not_mem_nil, fun _ ha => absurd ha List.not_mem_nil⟩

def savingAnswer : Call := callAt (.answer 1 2 3 none)

/-- The cancellation of the run that the answer opens. -/
def savingCancellation : Call := callAt (.cancelRun 1 (2 ^ 64) ⟨"user", some 1, none, none, none⟩)

theorem savingDecision_calls {p : Prepared} {d : Decided} {s₁ : Session}
    (h : Decides savingOutside 1 2 3 savingSession p d s₁) : (stateCalls d.decision).length = 1 := by
  have hall : ((prepare savingOutside none 1 2 3 savingSession).1.toOption.all fun p =>
      (obtainDecision savingOutside 1 p (prepare savingOutside none 1 2 3 savingSession).2).1.toOption.all
        fun d => decide ((stateCalls d.decision).length = 1)) = true := by
    decide +kernel
  obtain ⟨s₀, hprepare, hobtain⟩ := h.decided
  have hnone : runOf? savingSession.db 1 3 = none := rfl
  rw [hnone] at hprepare
  simp only [hprepare, hobtain, Except.toOption, Option.all_some] at hall
  exact of_decide_eq_true hall

theorem savingAnswer_keepsAgreement : savingAnswer.KeepsAgreement savingOutside savingSession := by
  have hstart : savingAnswer.start savingSession = savingSession := rfl
  constructor
  · intro accountId conversationId messageId s₁ hanswering
    cases hanswering with
    | answer operation =>
        obtain ⟨rfl, rfl, rfl, rfl⟩ := Operation.answer.inj operation
        rw [hstart]
        constructor
        · rintro ⟨run, p, d, s₁, hrun, -⟩
          have hnone : runOf? savingSession.db 1 3 = none := rfl
          rw [hnone] at hrun
          simp at hrun
        · rintro - ⟨p, d, s₁, hdecides, before, call, after, hcalls, hbefore, -⟩
          have hlength := savingDecision_calls hdecides
          rw [hcalls, List.length_append, List.length_cons] at hlength
          have : before.length ≠ 0 := mt List.length_eq_zero_iff.mp hbefore
          omega
    | turn operation => simp [savingAnswer, callAt] at operation
    | reprocess operation => simp [savingAnswer, callAt] at operation
  · intro _ _ _ _ _ hop
    simp [savingAnswer, callAt] at hop

theorem savingCancellation_keepsAgreement (s : Session) :
    savingCancellation.KeepsAgreement savingOutside s := by
  constructor
  · intro _ _ _ _ hanswering
    cases hanswering with
    | answer operation => simp [savingCancellation, callAt] at operation
    | turn operation => simp [savingCancellation, callAt] at operation
    | reprocess operation => simp [savingCancellation, callAt] at operation
  · intro _ _ _ _ _ hop
    simp [savingCancellation, callAt] at hop

/-- The states agree when the message is answered and the run is cancelled. -/
theorem agreement_of_history_cancelled : Agreement
    (savingCancellation.perform savingOutside (savingAnswer.perform savingOutside savingSession)).db := by
  have hcond : Runs.Along (step savingOutside) (fun s call => call.KeepsAgreement savingOutside s)
      savingSession [savingAnswer, savingCancellation] :=
    ⟨savingAnswer_keepsAgreement, fun s' _ => ⟨savingCancellation_keepsAgreement s', fun _ _ => trivial⟩⟩
  exact agreement_of_history savingSession_agreement.1 savingSession_agreement.2 hcond (run_pair _ _ _ _)

end KajovoDagmar.OrchestrationService
