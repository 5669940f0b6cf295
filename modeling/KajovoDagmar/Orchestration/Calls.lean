import KajovoDagmar.Conversations.Numbering
import KajovoDagmar.Library.Runs
import KajovoDagmar.Orchestration.Outcomes
import KajovoDagmar.Worker

/-! # Histories of calls

A history is a sequence of calls, each in a session of its own that commits or rolls back
before the next one: the operations on conversations, answers, confirmations, cancellations,
and the worker's reprocessing of a corrected turn.  Between them the rest of the program may
change everything but the conversations, their messages, the runs and the actions. -/

namespace KajovoDagmar.OrchestrationService

/-- The operations of `ConversationService` and `HistoryService`. -/
inductive Service where
  | start (accountId : Uuid) (request : ConversationStart)
  | addUserTurn (accountId conversationId : Uuid) (request : UserTurn)
  | correctTranscript (accountId messageId : Uuid) (request : TranscriptCorrection)
  | finish (accountId conversationId : Uuid) (reason : String)
  | continueFrom (accountId conversationId : Uuid)
  | softDelete (accountId conversationId : Uuid) (expectedVersion retentionDays : ℤ)
  | restore (accountId conversationId : Uuid) (expectedVersion : ℤ)

def Service.work (rt : Runtime) (context : AuditContext) : Service → Work PUnit
  | start accountId request => do
    let _ ← ConversationService.start rt accountId request context
    pure ⟨⟩
  | addUserTurn accountId conversationId request => do
    let _ ← ConversationService.addUserTurn rt accountId conversationId request context
    pure ⟨⟩
  | correctTranscript accountId messageId request => do
    let _ ← ConversationService.correctTranscript rt accountId messageId request context
    pure ⟨⟩
  | finish accountId conversationId reason => do
    let _ ← ConversationService.finish rt accountId conversationId reason context
    pure ⟨⟩
  | continueFrom accountId conversationId => do
    let _ ← HistoryService.continueFrom rt accountId conversationId context
    pure ⟨⟩
  | softDelete accountId conversationId expectedVersion retentionDays => do
    let _ ← HistoryService.softDelete rt accountId conversationId expectedVersion retentionDays context
    pure ⟨⟩
  | restore accountId conversationId expectedVersion => do
    let _ ← HistoryService.restore rt accountId conversationId expectedVersion context
    pure ⟨⟩

inductive Operation where
  | service (service : Service) (context : AuditContext)
  | answer (accountId conversationId messageId : Uuid) (context : Option AuditContext)
  | turn (accountId conversationId : Uuid) (request : UserTurn) (context : AuditContext)
  | reprocess (job : BackgroundJob)
  | confirmAction (accountId actionId : Uuid) (expectedActionVersion : ℤ) (context : AuditContext)
  | cancelRun (accountId runId : Uuid) (context : AuditContext)
  /-- What the rest of the program does to the rest of the database. -/
  | elsewhere (db : Db)

structure Call where
  operation : Operation
  began : DateTime

/-- The session in which a call begins. -/
def Call.start (call : Call) (s : Session) : Session := { s with began := call.began }

variable (out : Outside)

/-- The committed state after a call. -/
def Call.perform (call : Call) (s : Session) : Session :=
  match call.operation with
  | .service service context => (Database.session (service.work out.toRuntime context) (call.start s)).2
  | .answer accountId conversationId messageId context =>
    (Database.session (answer out accountId conversationId messageId context) (call.start s)).2
  | .turn accountId conversationId request context =>
    (Database.session (turn out accountId conversationId request context) (call.start s)).2
  | .reprocess job => (Worker.nested (Worker.correctedTurnReprocess out job) (call.start s)).2
  | .confirmAction accountId actionId expectedActionVersion context =>
    (Database.session (confirmAction out accountId actionId expectedActionVersion context)
      (call.start s)).2
  | .cancelRun accountId runId context =>
    (Database.session (cancelRun out accountId runId context) (call.start s)).2
  | .elsewhere db => { s with db := { db with
      conversations := s.db.conversations
      conversationMessages := s.db.conversationMessages
      orchestrationRuns := s.db.orchestrationRuns
      orchestrationAttempts := s.db.orchestrationAttempts
      toolActions := s.db.toolActions } }

/-- The result of `answer` with which a call ends. -/
def Call.result? (call : Call) (s : Session) : Option OrchestrationResult :=
  match call.operation with
  | .answer accountId conversationId messageId context =>
    (Database.session (answer out accountId conversationId messageId context) (call.start s)).1.toOption
  | .turn accountId conversationId request context =>
    (Database.session (turn out accountId conversationId request context)
      (call.start s)).1.toOption.map Prod.snd
  | .reprocess job =>
    (Worker.nested (Worker.correctedTurnReprocess out job) (call.start s)).1.toOption.join
  | _ => none

def step (s : Session) (call : Call) : Option Session := some (call.perform out s)

theorem run_singleton (s : Session) (call : Call) :
    Runs.run (step out) s [call] = some (call.perform out s) := rfl

theorem run_pair (s : Session) (call call' : Call) :
    Runs.run (step out) s [call, call'] = some (call'.perform out (call.perform out s)) := rfl

variable {out}

/-! ### Operations that do not concern the runs -/

/-- The assistant turns. -/
def assistantTurns (db : Db) : List ConversationMessage :=
  db.conversationMessages.rows.filter fun m => m.role = .assistant

/-- The runs, the actions and the assistant turns. -/
def told (db : Db) := (cores db, db.toolActions, assistantTurns db)

theorem assistantTurns_insert {db : Db} {m : ConversationMessage} {t : Table ConversationMessage.id}
    (hrole : m.role = .user) (h : db.conversationMessages.insert? m = some t) :
    assistantTurns { db with conversationMessages := t } = assistantTurns db := by
  unfold assistantTurns
  rw [(Table.insert?_eq_some h).1, List.filter_append]
  simp [hrole]

theorem assistantTurns_put {db : Db} {m : ConversationMessage} (m' : ConversationMessage)
    (hm : m ∈ db.conversationMessages) (hid : m'.id = m.id) (hrole : m.role = .user) (hrole' : m'.role = .user) :
    assistantTurns { db with conversationMessages := db.conversationMessages.put m' } =
      assistantTurns db := by
  unfold assistantTurns
  rw [Table.rows_put, List.filter_map]
  have hfilter : ∀ x ∈ db.conversationMessages.rows,
      ((fun m : ConversationMessage => decide (m.role = .assistant)) ∘
        Table.overwrite ConversationMessage.id m') x = decide (x.role = .assistant) := by
    intro x hx
    simp only [Function.comp, Table.overwrite]
    split
    · next h =>
      obtain rfl : x = m := Table.eq_of_key hx hm (h.trans hid)
      rw [hrole, hrole']
    · rfl
  rw [List.filter_congr hfilter]
  conv_rhs => rw [← List.map_id (List.filter _ _)]
  apply List.map_congr_left
  intro x hx
  obtain ⟨hx, hassistant⟩ := List.mem_filter.mp hx
  unfold Table.overwrite
  split
  · next h =>
    obtain rfl : x = m := Table.eq_of_key hx hm (h.trans hid)
    rw [hrole] at hassistant
    simp at hassistant
  · rfl

section user

variable {rt : Runtime} {accountId conversationId messageId : Uuid} {context : AuditContext}

theorem publish_told (eventType : String) (payload : Json) (sequence : ℤ) : Tx.Keeps (Same told)
    (ConversationService.publish rt conversationId eventType payload sequence) := by
  unfold ConversationService.publish
  refine (Same.newUuid rt).bind fun id => (Tx.Keeps.gets _).bind fun began => ?_
  exact Relation.add_keeps (fun _ _ => rfl) _

theorem addUserTurn_told (request : UserTurn) : Tx.Keeps (Same told)
    (ConversationService.addUserTurn rt accountId conversationId request context) := by
  unfold ConversationService.addUserTurn
  refine (HistoryService.lockConversation_keeps _ _).bind fun conversation => ?_
  refine (Tx.Keeps.raiseIf _ _).bind fun _ => ?_
  refine (Tx.Keeps.bind (Relation.select_keeps _) fun _ => Tx.Keeps.pure _).bind fun existing => ?_
  cases existing with
  | some message => exact (Tx.Keeps.raiseIf _ _).bind fun _ => Tx.Keeps.pure _
  | none =>
      unfold ConversationService.insertUserTurn ConversationService.appendMessage
      refine (Tx.Keeps.gets _).bind fun sequence => (Same.newUuid rt).bind fun id => ?_
      refine (Same.utcNow rt).bind fun now => Tx.Keeps.bind ?_ fun updated => ?_
      · refine Tx.Keeps.bind (Relation.insert_keeps ?_) fun _ => (Same.utcNow rt).bind fun now' => ?_
        · intro t db ht
          have hturns := assistantTurns_insert rfl (Relation.insertRow_eq_ok ht).1
          exact congrArg (fun x => (cores db, db.toolActions, x)) hturns
        · exact (Relation.save_keeps fun _ => rfl).bind fun _ => Tx.Keeps.pure _
      · refine (publish_told _ _ _).bind fun _ => ?_
        exact (AuditService.append_keeps fun _ _ => rfl).bind fun _ => Tx.Keeps.pure _

theorem recordCorrection_told {m : ConversationMessage} {request : TranscriptCorrection}
    {r : Except Exc ConversationMessage} {s s' : Session} (hm : m ∈ s.db.conversationMessages)
    (hrole : m.role = .user)
    (h : ConversationService.recordCorrection rt accountId m request context s = (r, s')) :
    told s'.db = told s.db := by
  unfold ConversationService.recordCorrection at h
  rcases Tx.bind_cases h with ⟨e, he, rfl⟩ | ⟨u, s₁, h₁, hrest⟩
  · rw [(Relation.save_error he).1]
  obtain rfl := Relation.save_eq_ok h₁
  have hput := assistantTurns_put { m with
    content := PythonText.strip request.correctedContent.val, version := m.version + 1 } hm rfl
    hrole hrole
  refine Eq.trans ?_ (congrArg (fun x => (cores s.db, s.db.toolActions, x)) hput)
  refine Tx.Keeps.of_apply (R := Same told) ?_ hrest
  refine (Same.newUuid rt).bind fun id => (Relation.add_keeps (fun _ _ => rfl) _).bind fun _ => ?_
  exact (AuditService.append_keeps fun _ _ => rfl).bind fun _ => Tx.Keeps.pure _

theorem correctTranscript_told {request : TranscriptCorrection} {r : Except Exc ConversationMessage}
    {s s' : Session}
    (h : ConversationService.correctTranscript rt accountId messageId request context s = (r, s')) :
    told s'.db = told s.db := by
  rcases ConversationService.correctTranscript_cases rt accountId messageId request context s with
    ⟨d, -, hd⟩ | ⟨m, hm, -, hcorrect⟩
  · rw [hd] at h
    rw [(Prod.mk.inj h).2]
  rw [hcorrect] at h
  obtain ⟨hmem, hrole⟩ := ConversationService.userMessage?_mem hm
  rcases Tx.bind_cases h with ⟨e, he, rfl⟩ | ⟨updated, s₁, h₁, hrest⟩
  · exact recordCorrection_told hmem hrole he
  · refine Eq.trans ?_ (recordCorrection_told hmem hrole h₁)
    unfold ConversationService.requestAnswer at hrest
    split at hrest
    · exact ((publish_told _ _ _).bind fun _ => Tx.Keeps.pure _ : Tx.Keeps (Same told) _).of_apply hrest
    · rw [(Prod.mk.inj hrest).2]

theorem hidden_told : HistoryService.Hidden told := ⟨fun _ _ => rfl, fun _ _ => rfl, fun _ _ => rfl⟩

theorem start_told (request : ConversationStart) : Tx.Keeps (Same told)
    (ConversationService.start rt accountId request context) := by
  unfold ConversationService.start
  refine (Relation.select_keeps _).bind fun originals => (Tx.Keeps.raiseIf _ _).bind fun _ => ?_
  refine (Same.newUuid rt).bind fun id => (Tx.Keeps.gets _).bind fun began => ?_
  refine (Relation.add_keeps (fun _ _ => rfl) _).bind fun _ => ?_
  cases request.continuationOfId with
  | none => exact (AuditService.append_keeps fun _ _ => rfl).bind fun _ => Tx.Keeps.pure _
  | some source =>
      refine (Same.newUuid rt).bind fun linkId => (Relation.add_keeps (fun _ _ => rfl) _).bind fun _ => ?_
      exact (AuditService.append_keeps fun _ _ => rfl).bind fun _ => Tx.Keeps.pure _

theorem finish_told (reason : String) : Tx.Keeps (Same told)
    (ConversationService.finish rt accountId conversationId reason context) := by
  unfold ConversationService.finish
  refine (HistoryService.lockConversation_keeps _ _).bind fun row => ?_
  split
  · unfold ConversationService.close
    refine (Same.utcNow rt).bind fun endedAt => (Same.utcNow rt).bind fun now => ?_
    refine (Relation.save_keeps fun _ => rfl).bind fun _ => (publish_told _ _ _).bind fun _ => ?_
    exact (AuditService.append_keeps fun _ _ => rfl).bind fun _ => Tx.Keeps.pure _
  · exact Tx.Keeps.pure _

theorem Service.work_told (service : Service) : Tx.Keeps (Same told) (service.work rt context) := by
  cases service with
  | start accountId request => exact (start_told request).bind fun _ => Tx.Keeps.pure _
  | addUserTurn accountId conversationId request =>
      exact (addUserTurn_told request).bind fun _ => Tx.Keeps.pure _
  | correctTranscript accountId messageId request =>
      have hkeep : Tx.Keeps (Same told)
          (ConversationService.correctTranscript rt accountId messageId request context) :=
        fun s => correctTranscript_told Prod.mk.eta.symm
      exact hkeep.bind fun _ => Tx.Keeps.pure _
  | finish accountId conversationId reason => exact (finish_told reason).bind fun _ => Tx.Keeps.pure _
  | continueFrom accountId conversationId =>
      exact (HistoryService.continueFrom_keeps hidden_told _ _ _).bind fun _ => Tx.Keeps.pure _
  | softDelete accountId conversationId expectedVersion retentionDays =>
      exact (HistoryService.softDelete_keeps hidden_told _ _ _ _ _).bind fun _ => Tx.Keeps.pure _
  | restore accountId conversationId expectedVersion =>
      exact (HistoryService.restore_keeps hidden_told _ _ _ _).bind fun _ => Tx.Keeps.pure _

end user

/-! ### What a call commits -/

variable (out)

/-- The message that a call answers, and the session in which `answer` is entered. -/
inductive Call.Answering (call : Call) (s : Session) : Uuid → Uuid → Uuid → Session → Prop where
  | answer {accountId conversationId messageId : Uuid} {context : Option AuditContext}
      (operation : call.operation = .answer accountId conversationId messageId context) :
      Answering call s accountId conversationId messageId (call.start s)
  | turn {accountId conversationId : Uuid} {request : UserTurn} {context : AuditContext}
      {m : ConversationMessage} {s₁ : Session}
      (operation : call.operation = .turn accountId conversationId request context)
      (added : ConversationService.addUserTurn out.toRuntime accountId conversationId request context
        (call.start s) = (.ok m, s₁)) :
      Answering call s accountId conversationId m.id s₁
  | reprocess {job : BackgroundJob} {messageId : Uuid} {m : ConversationMessage} {c : Conversation}
      (operation : call.operation = .reprocess job)
      (payload : Worker.messageIdOf out job.payload = .ok messageId)
      (message : s.db.conversationMessages.find? messageId = some m)
      (conversation : s.db.conversations.find? m.conversationId = some c) :
      Answering call s c.accountId c.id m.id (call.start s)

/-- A failed answer is committed, if its exception is durable.  The worker's savepoint takes it
back. -/
def Call.KeepsFailures (call : Call) : Prop :=
  match call.operation with
  | .reprocess _ => False
  | _ => True

/-- What is committed by a call. -/
inductive CallMoves (call : Call) (s s' : Session) : Prop where
  | still (same : told s'.db = told s.db) (silent : call.result? out s = none)
  | answers {accountId conversationId messageId : Uuid} {s₁ s₂ : Session}
      {r : Except Exc OrchestrationResult}
      (of : call.Answering out s accountId conversationId messageId s₁)
      (before : told s₁.db = told s.db)
      (moves : AnswerMoves out accountId conversationId messageId s₁ s₂ r)
      (commits : (∃ a, r = .ok a) ∨ call.KeepsFailures)
      (after : ledger s'.db = ledger s₂.db) (returns : call.result? out s = r.toOption)
  | confirms {accountId actionId : Uuid} {expectedActionVersion : ℤ} {context : AuditContext}
      (of : call.operation = .confirmAction accountId actionId expectedActionVersion context)
      (moves : ConfirmMoves accountId actionId expectedActionVersion (call.start s) s')
  | cancels {accountId runId : Uuid} {context : AuditContext}
      (of : call.operation = .cancelRun accountId runId context)
      (moves : CancelMoves runId (call.start s) s')

variable {out}

theorem told_of_ledger {db db' : Db} (h : ledger db' = ledger db) : told db' = told db := by
  simp only [ledger, Prod.mk.injEq] at h
  obtain ⟨hcores, hactions, hmessages⟩ := h
  unfold told assistantTurns
  rw [hcores, hactions, hmessages]

/-- A call whose work keeps the told part keeps it, whether it commits or not. -/
theorem session_told {α : Type} {m : Work α} {s : Session} (h : told (m s).2.db = told s.db) :
    told (Database.session m s).2.db = told s.db := by
  rcases session_cases (Prod.mk.eta.symm : Database.session m s = (_, _)) with ⟨hm, -⟩ | ⟨hdb, -⟩
  · rwa [hm] at h
  · exact congrArg told hdb

theorem turn_moves {call : Call} {accountId conversationId : Uuid} {request : UserTurn}
    {context : AuditContext} {r : Except Exc (ConversationMessage × OrchestrationResult)} {s s' : Session}
    (hop : call.operation = .turn accountId conversationId request context)
    (h : Database.session (turn out accountId conversationId request context) (call.start s) = (r, s')) :
    CallMoves out call s s' := by
  have hresult : call.result? out s = r.toOption.map Prod.snd := by
    unfold Call.result?
    rw [hop]
    change (Database.session (turn out accountId conversationId request context)
      (call.start s)).1.toOption.map Prod.snd = _
    rw [h]
  rcases session_cases h with ⟨hm, hdurable⟩ | ⟨hdb, e, rfl⟩
  swap
  · exact .still (congrArg told hdb) hresult
  unfold turn at hm
  rcases Tx.bind_cases hm with ⟨e, he, rfl⟩ | ⟨m, s₁, h₁, hrest⟩
  · have hsame : told s'.db = told (call.start s).db := (addUserTurn_told request).of_apply he
    exact .still hsame hresult
  have hbefore : told s₁.db = told (call.start s).db := (addUserTurn_told request).of_apply h₁
  have hop' : call.Answering out s accountId conversationId m.id s₁ := .turn hop h₁
  have hkeeps : call.KeepsFailures := by
    unfold Call.KeepsFailures
    rw [hop]
    trivial
  rcases Tx.bind_cases hrest with ⟨e, he, rfl⟩ | ⟨result, s₂, h₂, hrest⟩
  · have hmoves := moves_of_answer (Database.session_of_durable he (hdurable e rfl))
    exact .answers hop' hbefore hmoves (.inr hkeeps) rfl hresult
  · obtain ⟨rfl, rfl⟩ := Prod.mk.inj hrest
    have hmoves := moves_of_answer (Database.session_of_ok h₂)
    exact .answers hop' hbefore hmoves (.inl ⟨result, rfl⟩) rfl hresult

/-- The handler finds no message to answer, or answers it. -/
theorem reprocess_ok {job : BackgroundJob} {r : Option OrchestrationResult} {s s' : Session}
    (h : Worker.correctedTurnReprocess out job s = (.ok r, s')) :
    (r = none ∧ s' = s) ∨ ∃ messageId m c result s₁,
      Worker.messageIdOf out job.payload = .ok messageId ∧
      s.db.conversationMessages.find? messageId = some m ∧
      s.db.conversations.find? m.conversationId = some c ∧
      Worker.answerCorrected out job c m.id s = (.ok result, s₁) ∧
      r = some result ∧ ∃ queued, JobService.enqueue out.toRuntime "conversation_index"
        (.obj [("conversation_id", .str (out.strUuid c.id))]) 100 0 job.correlationId none s₁ =
          (.ok queued, s') := by
  unfold Worker.correctedTurnReprocess at h
  obtain ⟨messageId, s₀, h₀, h⟩ := Tx.bind_eq_ok h
  obtain ⟨hid, rfl⟩ := Prod.mk.inj h₀
  obtain ⟨message, s₁, h₁, h⟩ := Tx.bind_eq_ok h
  obtain ⟨hm, rfl⟩ := Prod.mk.inj h₁
  cases message with
  | none =>
      obtain ⟨hr, rfl⟩ := Prod.mk.inj h
      exact .inl ⟨(Except.ok.inj hr).symm, rfl⟩
  | some m =>
      obtain ⟨conversation, s₂, h₂, h⟩ := Tx.bind_eq_ok h
      obtain ⟨hc, rfl⟩ := Prod.mk.inj h₂
      cases conversation with
      | none =>
          obtain ⟨hr, rfl⟩ := Prod.mk.inj h
          exact .inl ⟨(Except.ok.inj hr).symm, rfl⟩
      | some c =>
          obtain ⟨result, s₃, h₃, h⟩ := Tx.bind_eq_ok h
          obtain ⟨queued, s₄, h₄, h⟩ := Tx.bind_eq_ok h
          obtain ⟨hr, rfl⟩ := Prod.mk.inj h
          exact .inr ⟨messageId, m, c, result, s₃, hid, Except.ok.inj hm,
            Except.ok.inj hc, h₃, (Except.ok.inj hr).symm, queued, h₄⟩

theorem reprocess_moves {call : Call} {job : BackgroundJob} {s : Session}
    (hop : call.operation = .reprocess job) :
    CallMoves out call s (Worker.nested (Worker.correctedTurnReprocess out job) (call.start s)).2 := by
  have hresult : call.result? out s =
      (Worker.nested (Worker.correctedTurnReprocess out job) (call.start s)).1.toOption.join := by
    unfold Call.result?
    rw [hop]
  rcases hm : Worker.correctedTurnReprocess out job (call.start s) with ⟨e | r, s₁⟩
  · have hroll : Worker.nested (Worker.correctedTurnReprocess out job) (call.start s) =
        (.error e, (call.start s).rollback s₁) := Tx.session_of_rollback hm id
    rw [hroll] at hresult ⊢
    exact .still rfl hresult
  · have hdone : Worker.nested (Worker.correctedTurnReprocess out job) (call.start s) = (.ok r, s₁) :=
      Tx.session_of_ok hm
    rw [hdone] at hresult ⊢
    rcases reprocess_ok hm with
      ⟨rfl, rfl⟩ | ⟨messageId, m, c, result, s₂, hid, hfound, hc, hanswer, rfl, queued, hq⟩
    · exact .still rfl hresult
    · have hmoves := moves_of_answer (Database.session_of_ok hanswer)
      have hledger : ledger s₁.db = ledger s₂.db :=
        (JobService.enqueue_keeps (fun _ _ => rfl) _ _ _ _ _ _ : Tx.Keeps (Same ledger) _).of_apply hq
      exact .answers (.reprocess hop hid hfound hc) rfl hmoves (.inl ⟨result, rfl⟩) hledger hresult

variable (out) in
/-- **What a call commits.** -/
theorem moves_of_perform (call : Call) (s : Session) : CallMoves out call s (call.perform out s) := by
  have hresult : call.result? out s = call.result? out s := rfl
  conv at hresult =>
    rhs
    unfold Call.result?
  unfold Call.perform
  cases hop : call.operation with
  | service service context =>
      rw [hop] at hresult
      exact .still (session_told (service.work_told (call.start s))) hresult
  | answer accountId conversationId messageId context =>
      rw [hop] at hresult
      have hkeeps : call.KeepsFailures := by
        unfold Call.KeepsFailures
        rw [hop]
        trivial
      exact .answers (.answer hop) rfl (moves_of_answer Prod.mk.eta.symm) (.inr hkeeps) rfl hresult
  | turn accountId conversationId request context => exact turn_moves hop Prod.mk.eta.symm
  | reprocess job => exact reprocess_moves hop
  | confirmAction accountId actionId expectedActionVersion context =>
      exact .confirms hop (moves_of_confirmAction Prod.mk.eta.symm)
  | cancelRun accountId runId context => exact .cancels hop (moves_of_cancelRun Prod.mk.eta.symm)
  | elsewhere db =>
      rw [hop] at hresult
      exact .still rfl hresult

end KajovoDagmar.OrchestrationService
