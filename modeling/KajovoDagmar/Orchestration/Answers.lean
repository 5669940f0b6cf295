import KajovoDagmar.Orchestration.Agreement

/-! # The stored answer

The decision of a run and its assistant turn say the same in every history in which an answer
never meets an assistant turn that the run has stored before with another text. -/

namespace KajovoDagmar.OrchestrationService

variable {out : Outside}

/-- The decision of a run is that of its response message. -/
def RunAnswers (turns : List ConversationMessage) (r : OrchestrationRun) : Prop :=
  ∀ j messageId, r.decision = some j → r.responseMessageId = some messageId →
    ∃ (d : ModelDecision) (m : ConversationMessage), j = d.modelDump ∧ m ∈ turns ∧ m.id = messageId ∧
      m.content = d.answer

/-- Every run with a decision and a response message has the decided answer as its assistant
turn. -/
def StoredAnswers (db : Db) : Prop := ∀ r ∈ db.orchestrationRuns, RunAnswers (assistantTurns db) r

theorem answer_of_modelDump (d : ModelDecision) : d.modelDump.get? "answer" = some (.str d.answer) := rfl

/-! ### The answers of a table of runs -/

def Answered (runs : Table OrchestrationRun.id) (turns : List ConversationMessage) : Prop :=
  ∀ r ∈ runs, RunAnswers turns r

theorem answered_cores {db : Db} : Answered (cores db) (assistantTurns db) ↔ StoredAnswers db := by
  constructor
  · intro h r hr
    exact h (core r) (List.mem_map_of_mem hr)
  · intro h r hr
    obtain ⟨x, hx, rfl⟩ := List.mem_map.mp hr
    exact h x hx

theorem RunAnswers.mono {turns turns' : List ConversationMessage} (hsub : turns ⊆ turns')
    {r : OrchestrationRun} (h : RunAnswers turns r) : RunAnswers turns' r := by
  intro j messageId hj hm
  obtain ⟨d, m, hd, hmem, hid, hcontent⟩ := h j messageId hj hm
  exact ⟨d, m, hd, hsub hmem, hid, hcontent⟩

/-- What a run says of its answer depends on its decision and its response only. -/
theorem RunAnswers.congr {turns : List ConversationMessage} {r r' : OrchestrationRun}
    (hd : r'.decision = r.decision) (hm : r'.responseMessageId = r.responseMessageId)
    (h : RunAnswers turns r) : RunAnswers turns r' := by
  intro j messageId hj hmid
  exact h j messageId (hd ▸ hj) (hm ▸ hmid)

theorem Answered.put {runs : Table OrchestrationRun.id} {turns turns' : List ConversationMessage}
    {run : OrchestrationRun} (hsub : turns ⊆ turns')
    (hothers : ∀ r ∈ runs, r.id ≠ run.id → RunAnswers turns r) (hrun : RunAnswers turns' run) :
    Answered (runs.put run) turns' := by
  intro r hr
  rcases Table.mem_put_iff.mp hr with ⟨hr, hne⟩ | ⟨rfl, -⟩
  · exact (hothers r hr hne).mono hsub
  · exact hrun

/-! ### What a call does to the answers -/

theorem mem_assistantTurns {db : Db} {m : ConversationMessage} :
    m ∈ assistantTurns db ↔ m ∈ db.conversationMessages ∧ m.role = .assistant := by
  unfold assistantTurns
  rw [List.mem_filter, decide_eq_true_eq]
  rfl

theorem Opened.answers {accountId conversationId messageId : Uuid} {db : Db} {run : OrchestrationRun}
    {t : Table OrchestrationRun.id} {turns : List ConversationMessage}
    (h : Opened accountId conversationId messageId db run t) (hinv : Answered (cores db) turns) :
    RunAnswers turns run := by
  cases h with
  | again found => exact hinv _ (List.mem_map_of_mem (runOf?_mem found).1)
  | first missing added =>
      intro j messageId hj
      simp [core, newRun] at hj

theorem Replied.subset {conversationId : Uuid} {content key : String} {db db' : Db}
    {m : ConversationMessage}
    (h : Replied conversationId content key db.conversationMessages m db'.conversationMessages) :
    assistantTurns db ⊆ assistantTurns db' := by
  intro x hx
  obtain ⟨hx, hrole⟩ := mem_assistantTurns.mp hx
  refine mem_assistantTurns.mpr ⟨?_, hrole⟩
  generalize db'.conversationMessages = t at h
  cases h with
  | reused stored ofConversation carries => exact hx
  | added unused text speaks ofConversation carries insert => exact (Table.mem_insert? insert).mpr (.inl hx)

/-- An assistant turn that the run of the message has stored before says what is decided now. -/
def AnswersAlike (out : Outside) (accountId conversationId messageId : Uuid) (s : Session) : Prop :=
  ∀ p d s₁, Decides out accountId conversationId messageId s p d s₁ →
    ∀ m ∈ s.db.conversationMessages, m.conversationId = p.conversation.id →
      m.idempotencyKey = assistantKey out p.conversation.id p.sourceMessage.id p.runId →
        m.role = .assistant ∧ m.content = d.decision.answer

/-- The assistant turn of a decision carries its answer. -/
theorem Replied.answer {conversationId : Uuid} {content key : String} {db db' : Db}
    {m : ConversationMessage}
    (h : Replied conversationId content key db.conversationMessages m db'.conversationMessages)
    (halike : ∀ x ∈ db.conversationMessages, x.conversationId = conversationId →
      x.idempotencyKey = key → x.role = .assistant ∧ x.content = content) :
    m ∈ assistantTurns db' ∧ m.content = content := by
  rw [mem_assistantTurns]
  generalize db'.conversationMessages = t at h
  cases h with
  | reused stored ofConversation carries =>
      obtain ⟨hrole, hcontent⟩ := halike m stored ofConversation carries
      exact ⟨⟨stored, hrole⟩, hcontent⟩
  | added unused text speaks ofConversation carries insert =>
      exact ⟨⟨(Table.mem_insert? insert).mpr (.inr rfl), speaks⟩, text⟩

theorem answered_of_answerMoves {accountId conversationId messageId : Uuid} {s s' : Session}
    {r : Except Exc OrchestrationResult}
    (h : AnswerMoves out accountId conversationId messageId s s' r)
    (halike : AnswersAlike out accountId conversationId messageId s)
    (hinv : Answered (cores s.db) (assistantTurns s.db)) :
    Answered (cores s'.db) (assistantTurns s'.db) := by
  cases h with
  | idle how runs actions messages =>
      unfold assistantTurns
      rwa [runs, messages]
  | failed anew opened runs actions pending leftover messages =>
      have hturns : assistantTurns s'.db = assistantTurns s.db := by
        unfold assistantTurns
        rw [messages]
      rw [runs, hturns]
      refine Answered.put (List.Subset.refl _) (fun r hr hne => hinv r (opened.mem hr hne)) ?_
      exact (opened.answers hinv).congr rfl rfl
  | answered opened decides id runs actions pending length replied =>
      rename_i run t p d s₁ created m now
      obtain ⟨hmem, hcontent⟩ := replied.answer (halike p d s₁ decides)
      rw [runs]
      refine Answered.put replied.subset (fun r hr hne => hinv r (opened.mem hr hne)) ?_
      intro j messageId hj hm
      obtain rfl := Option.some.inj hj
      obtain rfl := Option.some.inj hm
      exact ⟨d.decision, m, rfl, hmem, rfl, hcontent⟩

/-- A replayed result is the stored response with the stored decision. -/
theorem replay_ok {run : OrchestrationRun} {r : OrchestrationResult} {s s' : Session}
    (h : replay out run s = (.ok r, s')) :
    run.responseMessageId = some r.message.id ∧ r.message ∈ s.db.conversationMessages ∧
      out.validateDecision (run.decision.getD .null) = .ok r.decision := by
  unfold replay at h
  obtain ⟨row, s₁, h₁, h⟩ := Tx.bind_eq_ok h
  obtain ⟨hrow, rfl⟩ := Prod.mk.inj h₁
  obtain ⟨message, s₂, h₂, hrest⟩ := Tx.bind_eq_ok h
  obtain ⟨hmessage, hs₂⟩ := Tx.orRaise_eq_ok h₂
  obtain ⟨actions, s₃, h₃, hrest⟩ := Tx.bind_eq_ok hrest
  obtain ⟨-, rfl⟩ := Prod.mk.inj h₃
  obtain ⟨decision, s₄, h₄, hrest⟩ := Tx.bind_eq_ok hrest
  obtain ⟨hdecision, hs₄⟩ := Tx.orRaise_eq_ok h₄
  obtain rfl := Except.ok.inj (Prod.mk.inj hrest).1
  rw [hmessage] at hrow
  obtain ⟨messageId, hid, hfind⟩ := Option.bind_eq_some_iff.mp (Except.ok.inj hrow)
  obtain rfl := Table.key_of_find? hfind
  refine ⟨hid, Table.mem_of_find? hfind, ?_⟩
  cases hv : out.validateDecision (run.decision.getD .null) with
  | error e =>
      rw [hv] at hdecision
      simp [Except.toOption] at hdecision
  | ok d =>
      rw [hv] at hdecision
      exact congrArg Except.ok (Option.some.inj hdecision)

/-- The result of an answer says what was decided. -/
theorem result_of_answerMoves {accountId conversationId messageId : Uuid} {s s' : Session}
    {r : OrchestrationResult}
    (hvalid : ∀ d d' : ModelDecision, out.validateDecision d.modelDump = .ok d' → d'.answer = d.answer)
    (h : AnswerMoves out accountId conversationId messageId s s' (.ok r))
    (halike : AnswersAlike out accountId conversationId messageId s)
    (hinv : Answered (cores s.db) (assistantTurns s.db)) : r.message.content = r.decision.answer := by
  cases h with
  | idle how runs actions messages =>
      rcases how with ⟨run, hrun, hreplayable, hreplay⟩ | ⟨e, he⟩
      · obtain ⟨hresponse, hmem, hdecision⟩ := replay_ok hreplay
        obtain ⟨j, hj⟩ : ∃ j, run.decision = some j := by
          unfold replayable at hreplayable
          cases hd : run.decision with
          | none => simp [hd] at hreplayable
          | some j => exact ⟨j, rfl⟩
        have hstored := hinv (core run) (List.mem_map_of_mem (runOf?_mem hrun).1)
        obtain ⟨d, m, rfl, hm, hid, hcontent⟩ := hstored j r.message.id hj hresponse
        obtain rfl : r.message = m :=
          Table.eq_of_key hmem (mem_assistantTurns.mp hm).1 hid.symm
        rw [hj] at hdecision
        exact hcontent.trans (hvalid d r.decision hdecision).symm
      · simp at he
  | answered opened decides id runs actions pending length replied =>
      exact (replied.answer (halike _ _ _ decides)).2

theorem answered_of_confirmMoves {accountId actionId : Uuid} {expectedActionVersion : ℤ}
    {s s' : Session} (h : ConfirmMoves accountId actionId expectedActionVersion s s')
    (hinv : Answered (cores s.db) (assistantTurns s.db)) :
    Answered (cores s'.db) (assistantTurns s'.db) := by
  have hsame : ∀ {t actions}, ledger s'.db = (t, actions, s.db.conversationMessages) →
      Answered t (assistantTurns s.db) → Answered (cores s'.db) (assistantTurns s'.db) := by
    intro t actions hl ht
    simp only [ledger, Prod.mk.injEq] at hl
    unfold assistantTurns
    rwa [hl.1, hl.2.2]
  cases h with
  | idle same => exact hsame same hinv
  | expired awaits same => exact hsame same hinv
  | failed awaits id run ends same => exact hsame same hinv
  | completed awaits id run ends runs same =>
      refine hsame same ?_
      cases runs with
      | waits h => exact hinv
      | completes found last =>
          have hrun := hinv _ (Table.mem_of_find? found)
          exact Answered.put (List.Subset.refl _) (fun r hr _ => hinv r hr) (hrun.congr rfl rfl)

theorem answered_of_cancelMoves {runId : Uuid} {s s' : Session} (h : CancelMoves runId s s')
    (hinv : Answered (cores s.db) (assistantTurns s.db)) :
    Answered (cores s'.db) (assistantTurns s'.db) := by
  cases h with
  | idle same =>
      simp only [ledger, Prod.mk.injEq] at same
      unfold assistantTurns
      rwa [same.1, same.2.2]
  | cancelled found opens same =>
      simp only [ledger, Prod.mk.injEq] at same
      have hturns : assistantTurns s'.db = assistantTurns s.db := by
        unfold assistantTurns
        rw [same.2.2]
      rw [same.1, hturns]
      have hrun := hinv _ (Table.mem_of_find? found)
      exact Answered.put (List.Subset.refl _) (fun r hr _ => hinv r hr) (hrun.congr rfl rfl)

/-! ### Histories -/

/-- The call does not answer a message whose run has stored another answer. -/
def Call.KeepsAnswers (out : Outside) (call : Call) (s : Session) : Prop :=
  ∀ accountId conversationId messageId s₁,
    call.Answering out s accountId conversationId messageId s₁ →
      AnswersAlike out accountId conversationId messageId s₁

/-- The result of the call carries a message with the decided answer. -/
def Call.ReturnsAnswer (out : Outside) (call : Call) (s : Session) : Prop :=
  ∀ result, call.result? out s = some result → result.message.content = result.decision.answer

theorem answered_of_told {db db' : Db} (h : told db' = told db)
    (hinv : Answered (cores db) (assistantTurns db)) : Answered (cores db') (assistantTurns db') := by
  simp only [told, Prod.mk.injEq] at h
  rwa [h.1, h.2.2]

theorem answered_step {call : Call} {s s' : Session}
    (hinv : Answered (cores s.db) (assistantTurns s.db)) (hcond : call.KeepsAnswers out s)
    (hstep : step out s call = some s') : Answered (cores s'.db) (assistantTurns s'.db) := by
  obtain rfl := Option.some.inj hstep
  cases moves_of_perform out call s with
  | still same silent => exact answered_of_told same hinv
  | answers of before moves commits after returns =>
      have hanswered := answered_of_answerMoves moves (hcond _ _ _ _ of) (answered_of_told before hinv)
      exact answered_of_told (told_of_ledger after) hanswered
  | confirms of moves => exact answered_of_confirmMoves moves hinv
  | cancels of moves => exact answered_of_cancelMoves moves hinv

theorem returnsAnswer {call : Call} {s : Session}
    (hvalid : ∀ d d' : ModelDecision, out.validateDecision d.modelDump = .ok d' → d'.answer = d.answer)
    (hinv : Answered (cores s.db) (assistantTurns s.db)) (hcond : call.KeepsAnswers out s) :
    call.ReturnsAnswer out s := by
  intro result hresult
  cases moves_of_perform out call s with
  | still same silent =>
      rw [silent] at hresult
      simp at hresult
  | answers of before moves commits after returns =>
      rename_i r
      rw [returns] at hresult
      cases r with
      | error e => simp [Except.toOption] at hresult
      | ok a =>
          obtain rfl := Option.some.inj hresult
          exact result_of_answerMoves hvalid moves (hcond _ _ _ _ of) (answered_of_told before hinv)
  | confirms of moves =>
      unfold Call.result? at hresult
      simp [of] at hresult
  | cancels of moves =>
      unfold Call.result? at hresult
      simp [of] at hresult

/-- **The stored answer is the decided answer** after every history in which no answer meets
another answer that the run of its message has stored before, and every call of such a history
that returns an answer returns the decided one. -/
theorem storedAnswers_of_history
    (hvalid : ∀ d d' : ModelDecision, out.validateDecision d.modelDump = .ok d' → d'.answer = d.answer)
    {s t : Session} {calls : List Call} (h₀ : StoredAnswers s.db)
    (hcond : Runs.Along (step out) (fun s call => call.KeepsAnswers out s) s calls)
    (hrun : Runs.run (step out) s calls = some t) :
    StoredAnswers t.db ∧ Runs.Along (step out) (fun s call => call.ReturnsAnswer out s) s calls := by
  have hinv : Answered (cores s.db) (assistantTurns s.db) := answered_cores.mpr h₀
  constructor
  · exact answered_cores.mp (Runs.inv_of_along
      (I := fun s : Session => Answered (cores s.db) (assistantTurns s.db))
      (fun s call s' h hc hs => answered_step h hc hs) hinv hcond hrun)
  · exact hcond.of_inv (fun s call s' h hc hs => answered_step h hc hs)
      (fun s call h hc => returnsAnswer hvalid h hc) hinv

/-! ### An answer after a cancelled one -/

/-- The validation of the one decision that a model makes. -/
def validateOnly (d : ModelDecision) (j : Json) : Except Json ModelDecision :=
  match j.get? "answer" with
  | some (.str answer) => if answer = d.answer then .ok d else .error .null
  | _ => .error .null

theorem validateOnly_answer (x d d' : ModelDecision) (h : validateOnly x d.modelDump = .ok d') :
    d'.answer = d.answer := by
  unfold validateOnly at h
  rw [answer_of_modelDump] at h
  by_cases hx : d.answer = x.answer
  · simp only [hx, if_true] at h
    rw [← Except.ok.inj h, hx]
  · simp [hx] at h

/-- A model that always makes the same decision. -/
def decidingOutside (d : ModelDecision) : Outside := .sample (.sample 1767268800000000 [])
  (fun _ _ => .ok ⟨"resp-1", "", d.modelDump, none, none⟩) (validateOnly d)

/-- The model leaves everything as it is. -/
def plainDecision : ModelDecision where
  intent := .conversation
  resultType := .answer
  answer := "Dobře, nic neukládám."
  uncertainty := .none
  answer_bounds := by decide
  sources_bound := noSources_bound
  toolCalls_bound := noCalls_bound
  confirmed := answer_confirmed

/-- The response of a cancelled run. -/
def cancelledResponse : ConversationMessage :=
  { id := 7, conversationId := 2, sequence := 2, role := .assistant, content := savingDecision.answer
    inputMode := .generated
    idempotencyKey := "99f98883456ac81ad700d899aaae8893da364ea898d37af29bd22927b9c5cbf9"
    responseRunId := some 20 }

/-- A message whose run was cancelled after it had been answered. -/
def cancelledSession : Session where
  began := .utc 1767268800000000
  db := { Db.sample ⟨[.sample "Ulož, že bydlím v Brně.", cancelledResponse], by decide⟩ with
    orchestrationRuns := .singleton
      { id := 20, accountId := 1, conversationId := 2, sourceMessageId := 3, state := .cancelled
        orchestrationVersion := orchestrationVersion, promptVersion := promptVersion
        decision := some savingDecision.modelDump, responseMessageId := some 7
        cancelledAt := some (.utc 1767265200000000) } }

theorem cancelledSession_answers : StoredAnswers cancelledSession.db := by
  intro r hr
  obtain rfl := List.mem_singleton.mp hr
  intro j messageId hj hm
  obtain rfl := Option.some.inj hj
  obtain rfl := Option.some.inj hm
  refine ⟨savingDecision, cancelledResponse, rfl, ?_, rfl, rfl⟩
  exact mem_assistantTurns.mpr ⟨List.mem_cons_of_mem _ (List.mem_singleton_self _), rfl⟩

/-- The message is answered again, with another decision. -/
def repeatedSession : Session := savingAnswer.perform (decidingOutside plainDecision) cancelledSession

/-- The text of the answer that a stored decision holds. -/
def answerOf? (decision : Json) : Option String :=
  match decision.get? "answer" with
  | some (.str a) => some a
  | _ => none

theorem answerOf?_eq_some {decision : Json} {a : String} (h : answerOf? decision = some a) :
    decision.get? "answer" = some (.str a) := by
  unfold answerOf? at h
  split at h
  · next a' ha =>
    rw [ha, Option.some.inj h]
  · simp at h

/-- The decision is replaced and the assistant turn is not. -/
theorem repeatedSession_run : ∃ run ∈ repeatedSession.db.orchestrationRuns, ∃ j m a,
    run.decision = some j ∧ run.responseMessageId = some m.id ∧
      m ∈ repeatedSession.db.conversationMessages ∧ j.get? "answer" = some (.str a) ∧ m.content ≠ a := by
  have h : (repeatedSession.db.orchestrationRuns.rows.any fun run =>
      run.decision.any fun j => run.responseMessageId.any fun messageId =>
        (repeatedSession.db.conversationMessages.find? messageId).any fun m =>
          (answerOf? j).any fun a => decide (m.content ≠ a)) = true := by
    decide +kernel
  obtain ⟨run, hrun, hj⟩ := List.any_eq_true.mp h
  obtain ⟨j, hj, hid⟩ := (Option.any_eq_true _ _).mp hj
  obtain ⟨messageId, hid, hm⟩ := (Option.any_eq_true _ _).mp hid
  obtain ⟨m, hm, ha⟩ := (Option.any_eq_true _ _).mp hm
  obtain ⟨a, ha, hne⟩ := (Option.any_eq_true _ _).mp ha
  obtain rfl := Table.key_of_find? hm
  exact ⟨run, hrun, j, m, a, hj, hid, Table.mem_of_find? hm, answerOf?_eq_some ha, of_decide_eq_true hne⟩

/-- The stored answer is not the decided one after every history: a message whose run was
cancelled is answered again, and the run keeps its first assistant turn. -/
theorem storedAnswers_broken : ¬∀ (out : Outside) (s t : Session) (calls : List Call),
    (∀ d d' : ModelDecision, out.validateDecision d.modelDump = .ok d' → d'.answer = d.answer) →
      StoredAnswers s.db → Runs.run (step out) s calls = some t → StoredAnswers t.db := by
  intro h
  obtain ⟨run, hrun, j, m, a, hj, hid, hm, ha, hne⟩ := repeatedSession_run
  have hstored := h (decidingOutside plainDecision) cancelledSession repeatedSession [savingAnswer]
    (validateOnly_answer plainDecision) cancelledSession_answers (run_singleton _ _ _) run hrun
  obtain ⟨d, m', rfl, hm', hid', hcontent⟩ := hstored j m.id hj hid
  obtain rfl : m' = m := Table.eq_of_key (mem_assistantTurns.mp hm').1 hm hid'
  rw [answer_of_modelDump] at ha
  simp only [Option.some.injEq, Json.str.injEq] at ha
  exact hne (hcontent.trans ha)

theorem savingAnswer_keepsAnswers :
    savingAnswer.KeepsAnswers (decidingOutside savingDecision) savingSession := by
  have hstart : savingAnswer.start savingSession = savingSession := rfl
  intro accountId conversationId messageId s₁ hanswering
  cases hanswering with
  | answer operation =>
      obtain ⟨rfl, rfl, rfl, rfl⟩ := Operation.answer.inj operation
      rw [hstart]
      intro p d s₁ hdecides m hm hof hkey
      have hall : ((prepare (decidingOutside savingDecision) none 1 2 3 savingSession).1.toOption.all
          fun p => savingSession.db.conversationMessages.rows.all fun m =>
            decide (m.idempotencyKey ≠ assistantKey (decidingOutside savingDecision) p.conversation.id
              p.sourceMessage.id p.runId)) = true := by
        decide +kernel
      obtain ⟨s₀, hprepare, -⟩ := hdecides.decided
      have hnone : runOf? savingSession.db 1 3 = none := rfl
      rw [hnone] at hprepare
      simp only [hprepare, Except.toOption, Option.all_some] at hall
      exact absurd hkey (of_decide_eq_true (List.all_eq_true.mp hall m hm))
  | turn operation => simp [savingAnswer, callAt] at operation
  | reprocess operation => simp [savingAnswer, callAt] at operation

theorem savingCancellation_keepsAnswers (s : Session) :
    savingCancellation.KeepsAnswers (decidingOutside savingDecision) s := by
  intro _ _ _ _ hanswering
  cases hanswering with
  | answer operation => simp [savingCancellation, callAt] at operation
  | turn operation => simp [savingCancellation, callAt] at operation
  | reprocess operation => simp [savingCancellation, callAt] at operation

/-- A message is answered and its run is cancelled. -/
theorem storedAnswers_of_history_cancelled :
    StoredAnswers (savingCancellation.perform (decidingOutside savingDecision)
      (savingAnswer.perform (decidingOutside savingDecision) savingSession)).db ∧
    savingAnswer.ReturnsAnswer (decidingOutside savingDecision) savingSession := by
  have h₀ : StoredAnswers savingSession.db := fun r hr => absurd hr List.not_mem_nil
  have hcond : Runs.Along (step (decidingOutside savingDecision))
      (fun s call => call.KeepsAnswers (decidingOutside savingDecision) s) savingSession
      [savingAnswer, savingCancellation] :=
    ⟨savingAnswer_keepsAnswers, fun s' _ => ⟨savingCancellation_keepsAnswers s', fun _ _ => trivial⟩⟩
  have hall := storedAnswers_of_history (validateOnly_answer savingDecision) h₀ hcond (run_pair _ _ _ _)
  exact ⟨hall.1, hall.2.1⟩

end KajovoDagmar.OrchestrationService
