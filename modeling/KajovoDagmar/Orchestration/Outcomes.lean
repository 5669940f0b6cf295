import KajovoDagmar.Orchestration.Atomicity
import KajovoDagmar.Orchestration.Proposals
import KajovoDagmar.Orchestration.Requests

/-! # What the orchestration leaves in the database

`answer`, `confirm_action` and `cancel_run` each change the runs, the actions and the messages
in one of a few ways (`AnswerMoves`, `ConfirmMoves`, `CancelMoves`).  What concerns every
reachable state is derived from these inversions.  The number of attempts and the context of a
run are left out of them (`core`): the model calls change nothing else of a run. -/

namespace KajovoDagmar.OrchestrationService

variable {out : Outside}

/-! ### Runs without the traces of their model calls -/

/-- A run without its number of attempts and its context. -/
def core (r : OrchestrationRun) : OrchestrationRun := { r with attemptCount := 0, contextManifest := .null }

def cores (db : Db) : Table OrchestrationRun.id := db.orchestrationRuns.mapRows core fun _ => rfl

theorem cores_put (db : Db) (r : OrchestrationRun) :
    cores { db with orchestrationRuns := db.orchestrationRuns.put r } = (cores db).put (core r) :=
  Table.mapRows_put _ _ _ _

/-- A change that does not show in the core of a run. -/
theorem cores_put_of_eq {db : Db} {run changed : OrchestrationRun} (h : run ∈ db.orchestrationRuns)
    (hc : core changed = core run) :
    cores { db with orchestrationRuns := db.orchestrationRuns.put changed } = cores db := by
  rw [cores_put, hc]
  exact Table.put_of_mem (List.mem_map_of_mem h)

theorem find?_cores (db : Db) (runId : Uuid) :
    (cores db).find? runId = (db.orchestrationRuns.find? runId).map core :=
  Table.find?_mapRows _ _ _ _

/-- The update of a run, seen in the cores. -/
theorem updateRun_cores {runId : Uuid} {f : OrchestrationRun → OrchestrationRun} {r : OrchestrationRun}
    {s s' : Session} (h : updateRun out runId f s = (.ok r, s')) (hid : ∀ x, (f x).id = x.id) :
    ∃ stored, s.db.orchestrationRuns.find? runId = some stored ∧ r = f stored ∧
      cores s'.db = (cores s.db).put (core r) ∧
      s'.db = { s.db with orchestrationRuns := s'.db.orchestrationRuns } := by
  obtain ⟨stored, hstored, rfl, rfl⟩ := updateRun_ok h
  have hf : { f stored with id := stored.id } = f stored := by
    rw [← hid stored]
  exact ⟨stored, hstored, rfl, by rw [hf, cores_put], rfl⟩

/-- What a model call leaves alone. -/
def calm (db : Db) := (cores db, db.toolActions, db.conversations, db.conversationMessages, targets db)

theorem hiddenCall_calm : HiddenCall calm where
  attempts _ _ := rfl
  count _ db h := congrArg
    (·, db.toolActions, db.conversations, db.conversationMessages, targets db) (cores_put_of_eq h rfl)
  manifest _ _ db h := congrArg
    (·, db.toolActions, db.conversations, db.conversationMessages, targets db) (cores_put_of_eq h rfl)

/-! ### The run that is answered -/

/-- The run under which a message is answered anew, in the table that holds it: the run of the
message, or a new one. -/
inductive Opened (accountId conversationId messageId : Uuid) (db : Db) :
    OrchestrationRun → Table OrchestrationRun.id → Prop where
  | again {run : OrchestrationRun} (found : runOf? db accountId messageId = some run) :
      Opened accountId conversationId messageId db (core run) (cores db)
  | first {id : Uuid} {provider : ProviderConfiguration} {model : ModelCatalogEntry}
      {bundle : ContextBundle} {t : Table OrchestrationRun.id}
      (missing : runOf? db accountId messageId = none)
      (added : (cores db).insert?
        (core (newRun id accountId conversationId messageId provider model bundle)) = some t) :
      Opened accountId conversationId messageId db
        (core (newRun id accountId conversationId messageId provider model bundle)) t

theorem runOf?_mem {db : Db} {accountId messageId : Uuid} {run : OrchestrationRun}
    (h : runOf? db accountId messageId = some run) :
    run ∈ db.orchestrationRuns ∧ run.sourceMessageId = messageId ∧ run.accountId = accountId := by
  have hmem := List.mem_of_head? h
  obtain ⟨hrows, hp⟩ := List.mem_filter.mp hmem
  obtain ⟨hm, ha⟩ := of_decide_eq_true hp
  exact ⟨hrows, hm, ha⟩

theorem Opened.find? {accountId conversationId messageId : Uuid} {db : Db} {run : OrchestrationRun}
    {t : Table OrchestrationRun.id} (h : Opened accountId conversationId messageId db run t) :
    t.find? run.id = some run := by
  cases h with
  | again found =>
      rename_i run
      have hmem : core run ∈ cores db := List.mem_map_of_mem (runOf?_mem found).1
      exact Table.find?_of_mem hmem
  | first missing added => exact Table.find?_insert?_self added

theorem prepare_opened {accountId conversationId messageId : Uuid} {s s' : Session} {p : Prepared}
    (h : prepare out (runOf? s.db accountId messageId) accountId conversationId messageId s =
      (.ok p, s')) :
    ∃ run t, Opened accountId conversationId messageId s.db run t ∧ run.id = p.runId ∧
      calm s'.db = (t, s.db.toolActions, s.db.conversations, s.db.conversationMessages, targets s.db) := by
  unfold prepare at h
  obtain ⟨row, s₁, h₁, h⟩ := Tx.bind_eq_ok h
  obtain rfl : s = s₁ := (Tx.Keeps.gets _ : Tx.Keeps (· = ·) _).of_apply h₁
  obtain ⟨conversation, s₂, h₂, h⟩ := Tx.bind_eq_ok h
  obtain rfl : s = s₂ := (Tx.Keeps.orRaise _ _ : Tx.Keeps (· = ·) _).of_apply h₂
  rw [Tx.gets_bind_apply] at h
  obtain ⟨sourceMessage, s₃, h₃, h⟩ := Tx.bind_eq_ok h
  obtain rfl : s = s₃ := (Tx.Keeps.orRaise _ _ : Tx.Keeps (· = ·) _).of_apply h₃
  obtain ⟨⟨provider, model⟩, s₄, h₄, h⟩ := Tx.bind_eq_ok h
  have hs₄ : calm s₄.db = calm s.db := primaryModel_keeps.of_apply h₄
  obtain ⟨bundle, s₅, h₅, h⟩ := Tx.bind_eq_ok h
  have hs₅ : calm s₅.db = calm s.db := ((buildContext_keeps _ _ _ _ _ _).of_apply h₅).trans hs₄
  obtain ⟨runId, s₆, h₆, h⟩ := Tx.bind_eq_ok h
  obtain ⟨hp, rfl⟩ := Prod.mk.inj h
  obtain rfl := Except.ok.inj hp
  cases hr : runOf? s.db accountId messageId with
  | some run =>
      rw [hr] at h₆
      obtain ⟨hid, rfl⟩ := Prod.mk.inj h₆
      exact ⟨core run, cores s.db, .again hr, Except.ok.inj hid, hs₅⟩
  | none =>
      rw [hr] at h₆
      obtain ⟨id, s₇, h₇, h₆⟩ := Tx.bind_eq_ok h₆
      have hs₇ : calm s₇.db = calm s.db := ((Same.newUuid _ : Tx.Keeps (Same calm) _).of_apply h₇).trans hs₅
      obtain ⟨u, s₈, h₈, h₆⟩ := Tx.bind_eq_ok h₆
      obtain ⟨hid, rfl⟩ := Prod.mk.inj h₆
      obtain rfl := Except.ok.inj hid
      obtain ⟨t, ht, rfl⟩ := Relation.add_eq_ok h₈
      have hinsert : (cores s₇.db).insert? _ = some _ :=
        Table.mapRows_insert? core (fun _ => rfl) (Relation.insertRow_eq_ok ht).1
      have hcores : cores s₇.db = cores s.db := congrArg Prod.fst hs₇
      rw [hcores] at hinsert
      refine ⟨_, _, .first hr hinsert, rfl, ?_⟩
      have hrest := congrArg Prod.snd hs₇
      exact congrArg (Prod.mk _) hrest

/-! ### The actions of a decision -/

/-- The actions of accepted calls are added after all others and await confirmation. -/
theorem createFrom_ok {runId accountId : Uuid} {conversation : Conversation}
    {sourceMessage : ConversationMessage} {calls : List ToolCallDecision} {index : ℕ}
    {created : List ToolAction} {s s' : Session}
    (h : createFrom out runId accountId conversation sourceMessage index calls s = (.ok created, s')) :
    created.length = calls.length ∧ (∀ a ∈ created, a.runId = runId ∧ a.state = .pendingConfirmation) ∧
      ∃ t, t.rows = s.db.toolActions.rows ++ created ∧ s'.db = { s.db with toolActions := t } := by
  induction calls generalizing index created s with
  | nil =>
      obtain ⟨hc, rfl⟩ := Prod.mk.inj h
      obtain rfl := Except.ok.inj hc
      exact ⟨rfl, by simp, s.db.toolActions, by simp, rfl⟩
  | cons call calls ih =>
      unfold createFrom at h
      obtain ⟨a, s₁, h₁, h⟩ := Tx.bind_eq_ok h
      obtain ⟨as, s₂, h₂, h⟩ := Tx.bind_eq_ok h
      obtain ⟨hc, rfl⟩ := Prod.mk.inj h
      obtain rfl := Except.ok.inj hc
      obtain ⟨-, ha, t₁, ht₁, hs₁⟩ := createAction_ok h₁
      obtain ⟨hlength, has, t, ht, hs₂⟩ := ih h₂
      refine ⟨by rw [List.length_cons, List.length_cons, hlength], ?_, t, ?_, ?_⟩
      · intro x hx
        rcases List.mem_cons.mp hx with rfl | hx
        · exact ha
        · exact has x hx
      · rw [ht, hs₁, ht₁, List.append_assoc]
        rfl
      · rw [hs₂, hs₁]

/-! ### The assistant turn -/

/-- The assistant turn of a key: the message that already carries it, or a new one. -/
inductive Replied (conversationId : Uuid) (content key : String)
    (messages : Table ConversationMessage.id) : ConversationMessage → Table ConversationMessage.id → Prop where
  | reused {m : ConversationMessage} (stored : m ∈ messages)
      (ofConversation : m.conversationId = conversationId) (carries : m.idempotencyKey = key) :
      Replied conversationId content key messages m messages
  | added {m : ConversationMessage} {t : Table ConversationMessage.id}
      (unused : ∀ x ∈ messages, ¬(x.conversationId = conversationId ∧ x.idempotencyKey = key))
      (text : m.content = content) (speaks : m.role = .assistant)
      (ofConversation : m.conversationId = conversationId) (carries : m.idempotencyKey = key)
      (insert : messages.insert? m = some t) : Replied conversationId content key messages m t

theorem byIdempotencyKey_ok {conversationId : Uuid} {key : String} {o : Option ConversationMessage}
    {s s' : Session} (h : ConversationService.byIdempotencyKey conversationId key s = (.ok o, s')) :
    s' = s ∧ o = (s.db.conversationMessages.select fun m =>
      m.conversationId = conversationId ∧ m.idempotencyKey = key).head? := by
  obtain ⟨ho, rfl⟩ := Prod.mk.inj h
  exact ⟨rfl, (Except.ok.inj ho).symm⟩

theorem addAssistantTurn_ok {conversationId runId : Uuid} {content key : String}
    {m : ConversationMessage} {s s' : Session}
    (h : ConversationService.addAssistantTurn out.toRuntime conversationId content key runId false s =
      (.ok m, s')) :
    Replied conversationId content key s.db.conversationMessages m s'.db.conversationMessages ∧
      s'.db = { s.db with
        conversations := s'.db.conversations, conversationMessages := s'.db.conversationMessages } := by
  unfold ConversationService.addAssistantTurn at h
  obtain ⟨row, s₁, h₁, h⟩ := Tx.bind_eq_ok h
  obtain rfl : s = s₁ := (Tx.Keeps.gets _ : Tx.Keeps (· = ·) _).of_apply h₁
  obtain ⟨conversation, s₂, h₂, h⟩ := Tx.bind_eq_ok h
  obtain rfl : s = s₂ := (Tx.Keeps.orRaise _ _ : Tx.Keeps (· = ·) _).of_apply h₂
  obtain ⟨existing, s₃, h₃, h⟩ := Tx.bind_eq_ok h
  obtain ⟨rfl, hexisting⟩ := byIdempotencyKey_ok h₃
  cases existing with
  | some message =>
      obtain ⟨hm, rfl⟩ := Prod.mk.inj h
      obtain rfl := Except.ok.inj hm
      have hmem := List.mem_of_head? hexisting.symm
      obtain ⟨hstored, hp⟩ := List.mem_filter.mp hmem
      obtain ⟨hof, hkey⟩ := of_decide_eq_true hp
      exact ⟨.reused hstored hof hkey, rfl⟩
  | none =>
      obtain ⟨sequence, s₄, hsequence, h⟩ := Tx.bind_eq_ok h
      obtain ⟨-, rfl⟩ := Prod.mk.inj hsequence
      obtain ⟨id, s₄, h₄, h⟩ := Tx.bind_eq_ok h
      obtain ⟨now, s₅, h₅, h⟩ := Tx.bind_eq_ok h
      obtain ⟨updated, s₆, h₆, h⟩ := Tx.bind_eq_ok h
      obtain ⟨hm, rfl⟩ := Prod.mk.inj h
      obtain rfl := Except.ok.inj hm
      obtain ⟨-, rfl⟩ := Prod.mk.inj h₄
      obtain ⟨-, rfl⟩ := Prod.mk.inj h₅
      unfold ConversationService.appendMessage at h₆
      obtain ⟨u, s₇, h₇, h₆⟩ := Tx.bind_eq_ok h₆
      obtain ⟨t, ht, rfl⟩ := Relation.add_eq_ok h₇
      obtain ⟨now', s₈, h₈, h₆⟩ := Tx.bind_eq_ok h₆
      obtain ⟨-, rfl⟩ := Prod.mk.inj h₈
      obtain ⟨u', s₉, h₉, h₆⟩ := Tx.bind_eq_ok h₆
      obtain ⟨-, rfl⟩ := Prod.mk.inj h₆
      have hinsert := (Relation.insertRow_eq_ok ht).1
      have hunused : ∀ x ∈ s₃.db.conversationMessages,
          ¬(x.conversationId = conversationId ∧ x.idempotencyKey = key) := by
        intro x hx hand
        have hnil := List.head?_eq_none_iff.mp hexisting.symm
        have : x ∈ s₃.db.conversationMessages.select fun m =>
            m.conversationId = conversationId ∧ m.idempotencyKey = key :=
          List.mem_filter.mpr ⟨hx, decide_eq_true hand⟩
        rw [hnil] at this
        simp at this
      obtain rfl := Relation.save_eq_ok h₉
      exact ⟨.added hunused rfl rfl rfl rfl hinsert, rfl⟩

/-! ### The end of a run -/

/-- A run with its decision and the message that answers it. -/
def concluded (run : OrchestrationRun) (d : Decided) (actions : List ToolAction) (messageId : Uuid)
    (now : DateTime) : OrchestrationRun :=
  { run with
    intent := some d.decision.intent.text
    decision := some d.decision.modelDump
    usage := d.usage
    state := if actions = [] then .completed else .awaitingConfirmation
    responseMessageId := some messageId
    completedAt := if actions = [] then some now else run.completedAt
    version := run.version + 1 }

/-- A failed run. -/
def failed (run : OrchestrationRun) (e : Exc) (now : DateTime) : OrchestrationRun :=
  { run with
    state := .failed, errorCode := some e.errorCode, completedAt := some now, version := run.version + 1 }

theorem append_db {rt : Runtime} {context : AuditContext} {eventType result : String}
    {targetType : Option String} {targetId : Option Uuid} {details : List (String × Json)}
    {a : AuditEvent} {s s' : Session}
    (h : AuditService.append rt context eventType result targetType targetId details s = (.ok a, s')) :
    s'.db = { s.db with auditEvents := s'.db.auditEvents } := by
  unfold AuditService.append at h
  rw [Tx.gets_bind_apply] at h
  obtain ⟨occurredAt, s₁, h₁, h⟩ := Tx.bind_eq_ok h
  obtain ⟨-, rfl⟩ := Prod.mk.inj h₁
  obtain ⟨u, s₂, h₂, h⟩ := Tx.bind_eq_ok h
  obtain ⟨-, rfl⟩ := Prod.mk.inj h
  obtain ⟨t, -, rfl⟩ := Relation.add_eq_ok h₂
  rfl

theorem conclude_ok {p : Prepared} {d : Decided} {actions : List ToolAction} {context : AuditContext}
    {r : OrchestrationResult} {s s' : Session} {run : OrchestrationRun}
    (h : conclude out p d actions context s = (.ok r, s'))
    (hrun : (cores s.db).find? p.runId = some run) :
    ∃ m now, r = ⟨p.runId, m, d.decision, actions⟩ ∧
      cores s'.db = (cores s.db).put (concluded run d actions m.id now) ∧
      Replied p.conversation.id d.decision.answer
        (assistantKey out p.conversation.id p.sourceMessage.id p.runId) s.db.conversationMessages m
        s'.db.conversationMessages ∧
      s'.db.toolActions = s.db.toolActions := by
  unfold conclude at h
  obtain ⟨r₁, s₁, h₁, h⟩ := Tx.bind_eq_ok h
  obtain ⟨m, s₂, h₂, h⟩ := Tx.bind_eq_ok h
  obtain ⟨now, s₃, h₃, h⟩ := Tx.bind_eq_ok h
  obtain ⟨-, rfl⟩ := Prod.mk.inj h₃
  obtain ⟨r₂, s₄, h₄, h⟩ := Tx.bind_eq_ok h
  obtain ⟨event, s₅, h₅, h⟩ := Tx.bind_eq_ok h
  obtain ⟨hr, rfl⟩ := Prod.mk.inj h
  obtain ⟨stored, hstored, rfl, hcores₁, hs₁⟩ := updateRun_cores h₁ fun _ => rfl
  obtain ⟨hreplied, hs₂⟩ := addAssistantTurn_ok h₂
  obtain ⟨stored', hstored', rfl, hcores₄, hs₄⟩ := updateRun_cores h₄ fun _ => rfl
  have hs₅ := append_db h₅
  have hcore : core stored = run := by
    rw [find?_cores, hstored] at hrun
    exact Option.some.inj hrun
  have hcores₂ : cores s₂.db = cores s₁.db := by rw [hs₂]; rfl
  -- the second update finds the run as the first one has left it
  have hid : run.id = p.runId := Table.key_of_find? hrun
  have hcore' : some (core stored') = some (core { stored with
      intent := some d.decision.intent.text
      decision := some d.decision.modelDump
      usage := d.usage
      state := if actions = [] then .completed else .awaitingConfirmation }) := by
    have hfind := find?_cores s₂.db p.runId
    rw [hstored', hcores₂, hcores₁] at hfind
    refine hfind.symm.trans ?_
    rw [← hid, ← hcore] at hrun ⊢
    exact Table.find?_put_self hrun
  refine ⟨m, now, (Except.ok.inj hr).symm, ?_, ?_, ?_⟩
  · have hlast : cores s₅.db = cores s₄.db := by rw [hs₅]; rfl
    have hcore₂ := Option.some.inj hcore'
    rw [hlast, hcores₄, hcores₂, hcores₁, Table.put_put]
    · rw [← hcore]
      congr 1
      have := congrArg (fun x : OrchestrationRun => { x with
        responseMessageId := some m.id
        completedAt := if actions = [] then some now else x.completedAt
        version := x.version + 1 }) hcore₂
      exact this
    · exact (congrArg OrchestrationRun.id hcore₂).symm
  · have hmessages : s₁.db.conversationMessages = s.db.conversationMessages := by rw [hs₁]
    rw [hs₅, hs₄, ← hmessages]
    exact hreplied
  · rw [hs₅, hs₄, hs₂, hs₁]

theorem failRun_ok {runId : Uuid} {context : AuditContext} {e : Exc} {u : PUnit} {s s' : Session}
    {run : OrchestrationRun} (h : failRun out runId context e s = (.ok u, s'))
    (hrun : (cores s.db).find? runId = some run) :
    ∃ now, cores s'.db = (cores s.db).put (failed run e now) ∧
      s'.db.conversationMessages = s.db.conversationMessages ∧ s'.db.toolActions = s.db.toolActions := by
  unfold failRun at h
  obtain ⟨now, s₁, h₁, h⟩ := Tx.bind_eq_ok h
  obtain ⟨-, rfl⟩ := Prod.mk.inj h₁
  obtain ⟨r, s₂, h₂, h⟩ := Tx.bind_eq_ok h
  obtain ⟨event, s₃, h₃, h⟩ := Tx.bind_eq_ok h
  obtain ⟨-, rfl⟩ := Prod.mk.inj h
  obtain ⟨stored, hstored, rfl, hcores, hs₂⟩ := updateRun_cores h₂ fun _ => rfl
  have hs₃ := append_db h₃
  rw [find?_cores, hstored] at hrun
  obtain rfl := Option.some.inj hrun
  refine ⟨now, ?_, ?_, ?_⟩
  · have hlast : cores s₃.db = cores s₂.db := by rw [hs₃]; rfl
    rw [hlast, hcores]
    rfl
  · rw [hs₃, hs₂]
  · rw [hs₃, hs₂]

/-! ### What a call of `answer` does -/

/-- What is committed by a call of `answer`. -/
inductive AnswerMoves (out : Outside) (accountId conversationId messageId : Uuid) (s s' : Session) :
    Except Exc OrchestrationResult → Prop where
  /-- The stored answer is returned, or the call fails and is rolled back. -/
  | idle {r : Except Exc OrchestrationResult}
      (how : (∃ run, runOf? s.db accountId messageId = some run ∧ replayable run = true ∧
        replay out run s = (r, s')) ∨ ∃ e, r = .error e)
      (runs : cores s'.db = cores s.db) (actions : s'.db.toolActions = s.db.toolActions)
      (messages : s'.db.conversationMessages = s.db.conversationMessages) :
      AnswerMoves out accountId conversationId messageId s s' r
  | failed {run : OrchestrationRun} {t : Table OrchestrationRun.id} {created : List ToolAction}
      {e e' : Exc} {now : DateTime} (anew : Anew s.db accountId messageId)
      (opened : Opened accountId conversationId messageId s.db run t)
      (runs : cores s'.db = t.put (failed run e now))
      (actions : s'.db.toolActions.rows = s.db.toolActions.rows ++ created)
      (pending : ∀ a ∈ created, a.runId = run.id ∧ a.state = .pendingConfirmation)
      (leftover : created = [] ∨ PartialProposal out accountId conversationId messageId s)
      (messages : s'.db.conversationMessages = s.db.conversationMessages) :
      AnswerMoves out accountId conversationId messageId s s' (.error e')
  | answered {run : OrchestrationRun} {t : Table OrchestrationRun.id} {p : Prepared} {d : Decided}
      {s₁ : Session} {created : List ToolAction} {m : ConversationMessage} {now : DateTime}
      (opened : Opened accountId conversationId messageId s.db run t)
      (decides : Decides out accountId conversationId messageId s p d s₁) (id : run.id = p.runId)
      (runs : cores s'.db = t.put (concluded run d created m.id now))
      (actions : s'.db.toolActions.rows = s.db.toolActions.rows ++ created)
      (pending : ∀ a ∈ created, a.runId = run.id ∧ a.state = .pendingConfirmation)
      (length : created.length = (stateCalls d.decision).length)
      (replied : Replied p.conversation.id d.decision.answer
        (assistantKey out p.conversation.id p.sourceMessage.id p.runId) s.db.conversationMessages m
        s'.db.conversationMessages) :
      AnswerMoves out accountId conversationId messageId s s' (.ok ⟨p.runId, m, d.decision, created⟩)

/-- A session either commits what was written or leaves the database as it was. -/
theorem session_cases {α : Type} {m : Work α} {r : Except Exc α} {s s' : Session}
    (h : Database.session m s = (r, s')) :
    (m s = (r, s') ∧ ∀ e, r = .error e → e.Durable) ∨ (s'.db = s.db ∧ ∃ e, r = .error e) := by
  rcases hm : m s with ⟨e | a, s₁⟩
  · by_cases hd : e.Durable
    · rw [Database.session_of_durable hm hd] at h
      obtain ⟨rfl, rfl⟩ := Prod.mk.inj h
      refine .inl ⟨rfl, ?_⟩
      intro e' he
      exact Except.error.inj he ▸ hd
    · rw [Database.session_of_rollback hm hd] at h
      obtain ⟨rfl, rfl⟩ := Prod.mk.inj h
      exact .inr ⟨rfl, e, rfl⟩
  · rw [Database.session_of_ok hm] at h
    obtain ⟨rfl, rfl⟩ := Prod.mk.inj h
    refine .inl ⟨rfl, ?_⟩
    intro e he
    simp at he

/-- A preparation that fails has written nothing. -/
theorem prepare_error {existing : Option OrchestrationRun}
    {accountId conversationId messageId : Uuid} {s s' : Session} {e : Exc}
    (h : prepare out existing accountId conversationId messageId s = (.error e, s')) : s'.db = s.db := by
  have : Std.Refl fun s s' : Session => s'.db = s.db := ⟨fun _ => rfl⟩
  unfold prepare at h
  rcases Tx.bind_eq_error h with h | ⟨row, s₁, h₁, h⟩
  · simp at h
  obtain rfl : s = s₁ := (Tx.Keeps.gets _ : Tx.Keeps (· = ·) _).of_apply h₁
  rcases Tx.bind_eq_error h with h | ⟨conversation, s₂, h₂, h⟩
  · exact (Tx.Keeps.orRaise _ _ : Tx.Keeps (fun s s' => s'.db = s.db) _).of_apply h
  obtain rfl : s = s₂ := (Tx.Keeps.orRaise _ _ : Tx.Keeps (· = ·) _).of_apply h₂
  rw [Tx.gets_bind_apply] at h
  rcases Tx.bind_eq_error h with h | ⟨sourceMessage, s₃, h₃, h⟩
  · exact (Tx.Keeps.orRaise _ _ : Tx.Keeps (fun s s' => s'.db = s.db) _).of_apply h
  obtain rfl : s = s₃ := (Tx.Keeps.orRaise _ _ : Tx.Keeps (· = ·) _).of_apply h₃
  rcases Tx.bind_eq_error h with h | ⟨⟨provider, model⟩, s₄, h₄, h⟩
  · exact (primaryModel_keeps : Tx.Keeps (Same id) _).of_apply h
  have hs₄ : s₄.db = s.db := (primaryModel_keeps : Tx.Keeps (Same id) _).of_apply h₄
  rcases Tx.bind_eq_error h with h | ⟨bundle, s₅, h₅, h⟩
  · exact ((buildContext_keeps _ _ _ _ _ _ : Tx.Keeps (Same id) _).of_apply h).trans hs₄
  have hs₅ : s₅.db = s.db := ((buildContext_keeps _ _ _ _ _ _ : Tx.Keeps (Same id) _).of_apply h₅).trans hs₄
  rcases Tx.bind_eq_error h with h | ⟨runId, s₆, -, h⟩
  · cases existing with
    | some run => simp [openRun] at h
    | none =>
        rcases Tx.bind_eq_error h with h | ⟨id, s₇, h₇, h⟩
        · simp [newUuid] at h
        obtain ⟨-, rfl⟩ := Prod.mk.inj h₇
        rcases Tx.bind_eq_error h with h | ⟨u, s₈, -, h⟩
        · rw [(Relation.add_error h).1]
          exact hs₅
        · simp at h
  · simp at h

/-- **What `answer` commits.** -/
theorem moves_of_answer {accountId conversationId messageId : Uuid} {context : Option AuditContext}
    {r : Except Exc OrchestrationResult} {s s' : Session}
    (h : Database.session (answer out accountId conversationId messageId context) s = (r, s')) :
    AnswerMoves out accountId conversationId messageId s s' r := by
  have idle : s'.db = s.db → (∃ e, r = .error e) →
      AnswerMoves out accountId conversationId messageId s s' r := by
    intro hdb hr
    exact .idle (.inr hr) (by rw [hdb]) (by rw [hdb]) (by rw [hdb])
  rcases session_cases h with ⟨hm, hdurable⟩ | ⟨hdb, hr⟩
  swap
  · exact idle hdb hr
  rcases answer_cases hm with ⟨run, hrun, hreplayable, hreplay⟩ | ⟨run, e, -, -, rfl, rfl⟩ | ⟨hanew, hm⟩
  · have hs : s'.db = s.db := by rw [← (replay_reading run).of_apply hreplay]
    exact .idle (.inl ⟨run, hrun, hreplayable, hreplay⟩) (by rw [hs]) (by rw [hs]) (by rw [hs])
  · exact idle rfl ⟨_, rfl⟩
  unfold answerAnew at hm
  rcases hp : prepare out (runOf? s.db accountId messageId) accountId conversationId messageId s with
    ⟨e | p, s₀⟩
  · rw [Tx.bind_of_error hp] at hm
    obtain ⟨rfl, rfl⟩ := Prod.mk.inj hm
    exact idle (prepare_error hp) ⟨e, rfl⟩
  rw [Tx.bind_of_ok hp] at hm
  obtain ⟨run, t, hopened, hid, hcalm⟩ := prepare_opened hp
  simp only [calm, Prod.mk.injEq] at hcalm
  obtain ⟨ht, hactions₀, hconversations₀, hmessages₀, -⟩ := hcalm
  have hdecides : ∀ d s₁, obtainDecision out accountId p s₀ = (.ok d, s₁) →
      Decides out accountId conversationId messageId s p d s₁ := fun d s₁ hd => ⟨hanew, s₀, hp, hd⟩
  have hkeep : Tx.Keeps (Same calm) (obtainDecision out accountId p) :=
    obtainDecision_keeps hiddenCall_calm _ _
  rcases hprepared : answerPrepared out accountId p (auditContext accountId context) s₀ with ⟨e | a, s₂⟩
  · -- the failure is recorded, and committed if it is a domain error
    rw [Tx.handle_of_error hprepared] at hm
    rcases hfail : failRun out p.runId (auditContext accountId context) e s₂ with ⟨e' | u, s₃⟩
    · rw [Tx.bind_of_error hfail] at hm
      obtain ⟨rfl, rfl⟩ := Prod.mk.inj hm
      have hdomain := (hdurable e' rfl).isDomain
      exact absurd hdomain (failRun_noDomain _ _ _ s₂ e' (by rw [hfail]))
    rw [Tx.bind_of_ok hfail] at hm
    obtain ⟨rfl, rfl⟩ := Prod.mk.inj hm
    have he : e.IsDomain := (Exc.durable_markDurable e).mp (hdurable _ rfl)
    rcases answerPrepared_error (fun d s₁ hd => (hdecides d s₁ hd).conversation) hprepared he with
      hd | ⟨d, s₁, hd, hcreate⟩
    · have hsame := hkeep.of_apply hd
      simp only [Same, calm, Prod.mk.injEq] at hsame
      obtain ⟨hcores, hactions, -, hmessages, -⟩ := hsame
      have hrun : (cores s₂.db).find? p.runId = some run := by
        rw [hcores, ht, ← hid]
        exact hopened.find?
      obtain ⟨now, hruns, hmessages', hactions'⟩ := failRun_ok hfail hrun
      have hruns' : cores s₃.db = t.put (failed run e now) := by rw [hruns, hcores, ht]
      have hrows : s₃.db.toolActions.rows = s.db.toolActions.rows ++ [] := by
        rw [hactions', hactions, hactions₀, List.append_nil]
      exact .failed hanew hopened hruns' hrows (by simp) (.inl rfl) (by rw [hmessages', hmessages, hmessages₀])
    · have hsame := hkeep.of_apply hd
      simp only [Same, calm, Prod.mk.injEq] at hsame
      obtain ⟨hcores, hactions, -, hmessages, -⟩ := hsame
      obtain ⟨before, call, after, created, t', -, -, -, -, hcreated, ht', hs₂⟩ := createFrom_error hcreate he
      have hcores₂ : cores s₂.db = t := by rw [hs₂, ← ht, ← hcores]; rfl
      have hrun : (cores s₂.db).find? p.runId = some run := by
        rw [hcores₂, ← hid]
        exact hopened.find?
      obtain ⟨now, hruns, hmessages', hactions'⟩ := failRun_ok hfail hrun
      have hruns' : cores s₃.db = t.put (failed run e now) := by rw [hruns, hcores₂]
      have hrows : s₂.db.toolActions.rows = s.db.toolActions.rows ++ created := by
        rw [hs₂, ← hactions₀, ← hactions, ← ht']
      have hleft : created = [] ∨ PartialProposal out accountId conversationId messageId s := by
        rcases (hdecides d s₁ hd).refused hcreate he with ⟨-, hsame⟩ | ⟨hunfinished, -⟩
        · left
          rw [hsame] at hrows
          simpa using hrows
        · exact .inr hunfinished
      refine .failed hanew hopened hruns' (hactions' ▸ hrows) ?_ hleft ?_
      · exact fun a ha => hid ▸ hcreated a ha
      · rw [hmessages', hs₂, hmessages, hmessages₀]
  · rw [Tx.handle_of_ok hprepared] at hm
    obtain ⟨rfl, rfl⟩ := Prod.mk.inj hm
    unfold answerPrepared at hprepared
    obtain ⟨d, s₁, hd, hprepared⟩ := Tx.bind_eq_ok hprepared
    have hsame := hkeep.of_apply hd
    simp only [Same, calm, Prod.mk.injEq] at hsame
    obtain ⟨hcores, hactions, -, hmessages, -⟩ := hsame
    rw [createActions_eq] at hprepared
    obtain ⟨created, s₃, hcreate, hconclude⟩ := Tx.bind_eq_ok hprepared
    obtain ⟨hlength, hcreated, t', ht', hs₃⟩ := createFrom_ok hcreate
    have hcores₃ : cores s₃.db = t := by rw [hs₃, ← ht, ← hcores]; rfl
    have hrun : (cores s₃.db).find? p.runId = some run := by
      rw [hcores₃, ← hid]
      exact hopened.find?
    obtain ⟨m, now, rfl, hruns, hreplied, hactions'⟩ := conclude_ok hconclude hrun
    have hruns' : cores s₂.db = t.put (concluded run d created m.id now) := by rw [hruns, hcores₃]
    have hrows : s₂.db.toolActions.rows = s.db.toolActions.rows ++ created := by
      rw [hactions', hs₃, ← hactions₀, ← hactions, ← ht']
    have hmessages₃ : s₃.db.conversationMessages = s.db.conversationMessages := by
      rw [hs₃, hmessages, hmessages₀]
    rw [hmessages₃] at hreplied
    exact .answered hopened (hdecides d s₁ hd) hid hruns' hrows (fun a ha => hid ▸ hcreated a ha)
      hlength hreplied

/-! ### What a confirmation does -/

/-- The runs, the actions and the messages. -/
def ledger (db : Db) := (cores db, db.toolActions, db.conversationMessages)

theorem executeStateAction_ledger (accountId : Uuid) (action : ToolAction) (context : AuditContext) :
    Tx.Keeps (Same ledger) (executeStateAction out accountId action context) := by
  unfold executeStateAction
  refine (Tx.Keeps.raiseIf _ _).bind fun _ => dispatch_keeps ?_ ?_ _ _ _ _
  · constructor <;> intros <;> rfl
  · constructor <;> intros <;> rfl

/-- Another action of the run has not ended yet. -/
def OtherOpen (actions : Table ToolAction.id) (a : ToolAction) : Prop :=
  ∃ x ∈ actions, x.runId = a.runId ∧ x.id ≠ a.id ∧ ¬x.state.Finished

/-- The runs after the completion of an action: its run completes with its last action. -/
inductive RunCompletes (db : Db) (a : ToolAction) : Table OrchestrationRun.id → Prop where
  | waits (h : (cores db).find? a.runId = none ∨ OtherOpen db.toolActions a) :
      RunCompletes db a (cores db)
  | completes {run : OrchestrationRun} (found : (cores db).find? a.runId = some run)
      (last : ¬OtherOpen db.toolActions a) :
      RunCompletes db a ((cores db).put { run with state := .completed, version := run.version + 1 })

theorem completeRun_ok {action : ToolAction} {u : PUnit} {s s' : Session}
    (h : completeRun out action s = (.ok u, s')) :
    RunCompletes s.db action (cores s'.db) ∧
      s'.db = { s.db with orchestrationRuns := s'.db.orchestrationRuns } := by
  unfold completeRun Relation.find at h
  rw [Tx.gets_bind_apply] at h
  have hlookup : (Db.orchestrationRun.get s.db).find? action.runId =
      s.db.orchestrationRuns.find? action.runId := rfl
  cases hr : s.db.orchestrationRuns.find? action.runId with
  | none =>
      rw [hlookup, hr] at h
      obtain ⟨-, rfl⟩ := Prod.mk.inj h
      refine ⟨.waits (.inl ?_), rfl⟩
      rw [find?_cores, hr]
      rfl
  | some run =>
      rw [hlookup, hr] at h
      obtain ⟨remaining, s₁, hremaining, h⟩ := Tx.bind_eq_ok h
      obtain ⟨hrem, rfl⟩ := Prod.mk.inj hremaining
      have hid : run.id = action.runId := Table.key_of_find? hr
      have hopen : remaining = [] ↔ ¬OtherOpen s.db.toolActions action := by
        rw [← Except.ok.inj hrem, List.eq_nil_iff_forall_not_mem]
        unfold OtherOpen Table.select
        rw [not_exists]
        refine forall_congr' fun x => not_congr ?_
        rw [List.mem_filter, decide_eq_true_eq, hid]
        rfl
      by_cases hnil : remaining = []
      · rw [if_pos hnil] at h
        obtain rfl := Relation.save_eq_ok h
        refine ⟨?_, rfl⟩
        have hfound : (cores s.db).find? action.runId = some (core run) := by
          rw [find?_cores, hr]
          rfl
        have hcores := cores_put s.db { run with state := .completed, version := run.version + 1 }
        exact hcores ▸ .completes hfound (hopen.mp hnil)
      · rw [if_neg hnil] at h
        obtain ⟨-, rfl⟩ := Prod.mk.inj h
        exact ⟨.waits (.inr (not_not.mp fun hother => hnil (hopen.mpr hother))), rfl⟩

/-- The confirmation finds a pending action, at the version it expects. -/
structure Awaits (db : Db) (accountId actionId : Uuid) (expectedActionVersion : ℤ) (a : ToolAction) :
    Prop where
  found : action? db accountId actionId = some a
  version : a.version = expectedActionVersion
  pending : a.state = .pendingConfirmation

theorem Awaits.stored {db : Db} {accountId actionId : Uuid} {expectedActionVersion : ℤ} {a : ToolAction}
    (h : Awaits db accountId actionId expectedActionVersion a) : db.toolActions.find? actionId = some a :=
  (Option.filter_eq_some_iff.mp h.found).1

/-- What is committed by a confirmation. -/
inductive ConfirmMoves (accountId actionId : Uuid) (expectedActionVersion : ℤ) (s s' : Session) :
    Prop where
  /-- The action had been confirmed before, or the call fails and is rolled back. -/
  | idle (same : ledger s'.db = ledger s.db)
  | expired {a : ToolAction} (awaits : Awaits s.db accountId actionId expectedActionVersion a)
      (same : ledger s'.db = (cores s.db,
        s.db.toolActions.put { a with state := .expired, version := a.version + 1 },
        s.db.conversationMessages))
  | failed {a a' : ToolAction} (awaits : Awaits s.db accountId actionId expectedActionVersion a)
      (id : a'.id = a.id) (run : a'.runId = a.runId) (ends : a'.state = .failed)
      (same : ledger s'.db = (cores s.db, s.db.toolActions.put a', s.db.conversationMessages))
  | completed {a a' : ToolAction} {t : Table OrchestrationRun.id}
      (awaits : Awaits s.db accountId actionId expectedActionVersion a)
      (id : a'.id = a.id) (run : a'.runId = a.runId) (ends : a'.state = .completed)
      (runs : RunCompletes s.db a t)
      (same : ledger s'.db = (t, s.db.toolActions.put a', s.db.conversationMessages))

/-- An update of an action, seen in the ledger. -/
theorem updateAction_ledger {actionId : Uuid} {f : ToolAction → ToolAction} {a : ToolAction}
    {s s' : Session} (h : updateAction out actionId f s = (.ok a, s')) (hid : ∀ x, (f x).id = x.id) :
    ∃ stored, s.db.toolActions.find? actionId = some stored ∧ a = f stored ∧
      ledger s'.db = (cores s.db, s.db.toolActions.put a, s.db.conversationMessages) := by
  obtain ⟨stored, hstored, rfl, rfl⟩ := updateAction_ok h
  have hf : { f stored with id := stored.id } = f stored := by
    rw [← hid stored]
  refine ⟨stored, hstored, rfl, ?_⟩
  rw [hf]
  rfl

theorem OtherOpen.of_put {actions : Table ToolAction.id} {a b : ToolAction} (hid : b.id = a.id) :
    OtherOpen (actions.put b) a ↔ OtherOpen actions a := by
  unfold OtherOpen
  refine exists_congr fun x => ?_
  constructor
  · rintro ⟨hx, hrun, hne, hopen⟩
    rcases Table.mem_put_iff.mp hx with ⟨hx, -⟩ | ⟨rfl, -⟩
    · exact ⟨hx, hrun, hne, hopen⟩
    · exact absurd hid hne
  · rintro ⟨hx, hrun, hne, hopen⟩
    exact ⟨Table.mem_put_iff.mpr (.inl ⟨hx, hid ▸ hne⟩), hrun, hne, hopen⟩

theorem RunCompletes.congr {db db' : Db} {a a' : ToolAction} {t : Table OrchestrationRun.id}
    (hc : cores db' = cores db) (hrun : a'.runId = a.runId)
    (hopen : OtherOpen db'.toolActions a' ↔ OtherOpen db.toolActions a)
    (h : RunCompletes db' a' t) : RunCompletes db a t := by
  cases h with
  | waits h =>
      rw [hc]
      refine .waits (h.imp ?_ hopen.mp)
      intro hnone
      rwa [hc, hrun] at hnone
  | completes found last =>
      rw [hc] at found ⊢
      rw [hrun] at found
      exact .completes found (mt hopen.mpr last)

/-- The execution of a running action, up to its end. -/
theorem executeConfirmed_ok {accountId : Uuid} {action a : ToolAction} {context : AuditContext}
    {s s' : Session} (h : executeConfirmed out accountId action context s = (.ok a, s'))
    (hfound : s.db.toolActions.find? action.id = some action) :
    a.id = action.id ∧ a.runId = action.runId ∧ a.state = .completed ∧
      ∃ t, RunCompletes s.db action t ∧
        ledger s'.db = (t, s.db.toolActions.put a, s.db.conversationMessages) := by
  unfold executeConfirmed at h
  obtain ⟨result, s₁, h₁, h⟩ := Tx.bind_eq_ok h
  obtain ⟨now, s₂, h₂, h⟩ := Tx.bind_eq_ok h
  obtain ⟨-, rfl⟩ := Prod.mk.inj h₂
  obtain ⟨a', s₃, h₃, h⟩ := Tx.bind_eq_ok h
  obtain ⟨u, s₄, h₄, h⟩ := Tx.bind_eq_ok h
  obtain ⟨event, s₅, h₅, h⟩ := Tx.bind_eq_ok h
  obtain ⟨ha, rfl⟩ := Prod.mk.inj h
  obtain rfl := Except.ok.inj ha
  have hs₁ : ledger s₁.db = ledger s.db := (executeStateAction_ledger _ _ _).of_apply h₁
  simp only [ledger, Prod.mk.injEq] at hs₁
  obtain ⟨hcores, hactions, hmessages⟩ := hs₁
  obtain ⟨stored, hstored, rfl, hs₃⟩ := updateAction_ledger h₃ fun _ => rfl
  change s₁.db.toolActions.find? action.id = some stored at hstored
  rw [hactions, hfound] at hstored
  obtain rfl := Option.some.inj hstored
  simp only [ledger, Prod.mk.injEq] at hs₃
  obtain ⟨hcores₃, hactions₃, hmessages₃⟩ := hs₃
  obtain ⟨hruns, hs₄⟩ := completeRun_ok h₄
  have hs₅ := append_db h₅
  refine ⟨rfl, rfl, rfl, cores s₄.db, RunCompletes.congr (hcores₃.trans hcores) ?_ ?_ hruns, ?_⟩
  · rfl
  · rw [hactions₃, hactions]
    exact OtherOpen.of_put rfl
  · have hcores₅ : cores s₅.db = cores s₄.db := by rw [hs₅]; rfl
    unfold ledger
    rw [hcores₅, hs₅, hs₄, hactions₃, hactions, hmessages₃, hmessages]

theorem failAction_ok {actionId : Uuid} {context : AuditContext} {e : Exc} {u : PUnit}
    {s s' : Session} (h : failAction out actionId context e s = (.ok u, s')) :
    ∃ stored a, s.db.toolActions.find? actionId = some stored ∧ a.id = stored.id ∧
      a.runId = stored.runId ∧ a.state = .failed ∧
      ledger s'.db = (cores s.db, s.db.toolActions.put a, s.db.conversationMessages) := by
  unfold failAction at h
  obtain ⟨a, s₁, h₁, h⟩ := Tx.bind_eq_ok h
  obtain ⟨event, s₂, h₂, h⟩ := Tx.bind_eq_ok h
  obtain ⟨-, rfl⟩ := Prod.mk.inj h
  obtain ⟨stored, hstored, rfl, hs₁⟩ := updateAction_ledger h₁ fun _ => rfl
  have hs₂ : ledger s₂.db = ledger s₁.db := by
    rw [append_db h₂]
    rfl
  exact ⟨stored, { stored with
    state := .failed, errorCode := some e.errorCode, version := stored.version + 1 }, hstored, rfl, rfl,
    rfl, hs₂.trans hs₁⟩

/-- A confirmation looks the action up, and it is refused or goes on with a pending one. -/
theorem confirmAction_cases {accountId actionId : Uuid} {expectedActionVersion : ℤ}
    {context : AuditContext} {r : Except Exc ToolAction} {s s' : Session}
    (h : confirmAction out accountId actionId expectedActionVersion context s = (r, s')) :
    s' = s ∨ ∃ a now, Awaits s.db accountId actionId expectedActionVersion a ∧
      (if expired a now then expireAction out a.id else runAction out accountId a context)
        { s with tick := s.tick + 1 } = (r, s') := by
  unfold confirmAction lockAction at h
  cases hf : action? s.db accountId actionId with
  | none =>
      simp only [Tx.bind_apply, Tx.gets_apply, hf, Tx.orRaise_none, Tx.raise_apply] at h
      exact .inl (Prod.mk.inj h).2.symm
  | some a =>
      have hlock : (do
          let row ← Tx.gets fun s => action? s.db accountId actionId
          Tx.orRaise row (.domain (.notFound "Potvrzovaná operace nebyla nalezena.")) :
          Work ToolAction) s = (.ok a, s) := by
        simp [Tx.bind_apply, hf]
      rw [Tx.bind_of_ok hlock] at h
      by_cases hcompleted : a.state = .completed
      · rw [if_pos hcompleted] at h
        exact .inl (Prod.mk.inj h).2.symm
      rw [if_neg hcompleted] at h
      by_cases hversion : a.version = expectedActionVersion
      swap
      · rw [Tx.raiseIf_pos hversion, Tx.raise_bind, Tx.raise_apply] at h
        exact .inl (Prod.mk.inj h).2.symm
      rw [Tx.raiseIf_neg (not_not_intro hversion), Tx.pure_bind] at h
      by_cases hpending : a.state = .pendingConfirmation
      swap
      · rw [Tx.raiseIf_pos hpending, Tx.raise_bind, Tx.raise_apply] at h
        exact .inl (Prod.mk.inj h).2.symm
      rw [Tx.raiseIf_neg (not_not_intro hpending), Tx.pure_bind] at h
      exact .inr ⟨a, _, ⟨hf, hversion, hpending⟩, h⟩

/-- **What `confirm_action` commits.** -/
theorem moves_of_confirmAction {accountId actionId : Uuid} {expectedActionVersion : ℤ}
    {context : AuditContext} {r : Except Exc ToolAction} {s s' : Session}
    (h : Database.session (confirmAction out accountId actionId expectedActionVersion context) s =
      (r, s')) : ConfirmMoves accountId actionId expectedActionVersion s s' := by
  rcases session_cases h with ⟨hm, hdurable⟩ | ⟨hdb, -⟩
  swap
  · exact .idle (congrArg ledger hdb)
  rcases confirmAction_cases hm with rfl | ⟨a, now, hawaits, hrest⟩
  · exact .idle rfl
  have hfound := hawaits.stored
  have hid : a.id = actionId := Table.key_of_find? hfound
  split at hrest
  · unfold expireAction at hrest
    rcases Tx.bind_cases hrest with ⟨e, he, rfl⟩ | ⟨a', s₁, h₁, h₂⟩
    · exact absurd (hdurable e rfl).isDomain (updateAction_noDomain _ _ _ e (by rw [he]))
    obtain ⟨-, rfl⟩ := Prod.mk.inj h₂
    obtain ⟨stored, hstored, rfl, hs₁⟩ := updateAction_ledger h₁ fun _ => rfl
    obtain rfl := Option.some.inj (hfound.symm.trans (hid ▸ hstored))
    exact .expired hawaits hs₁
  · unfold runAction at hrest
    rcases Tx.bind_cases hrest with ⟨e, he, rfl⟩ | ⟨confirmedAt, s₁, h₁, hrest⟩
    · simp [utcNow] at he
    obtain ⟨-, rfl⟩ := Prod.mk.inj h₁
    rcases Tx.bind_cases hrest with ⟨e, he, rfl⟩ | ⟨running, s₂, h₂, hrest⟩
    · exact absurd (hdurable e rfl).isDomain (updateAction_noDomain _ _ _ e (by rw [he]))
    obtain ⟨stored, hstored, rfl, hs₂⟩ := updateAction_ledger h₂ fun _ => rfl
    obtain rfl := Option.some.inj (hfound.symm.trans (hid ▸ hstored))
    simp only [ledger, Prod.mk.injEq] at hs₂
    obtain ⟨hcores₂, hactions₂, hmessages₂⟩ := hs₂
    have hrunning : s₂.db.toolActions.find? a.id = some { a with
        state := .running, confirmedAt := some confirmedAt, version := a.version + 1 } := by
      rw [hactions₂]
      exact Table.find?_put_self (hid ▸ hfound)
    rcases Tx.handle_cases hrest with ⟨b, hexec, rfl⟩ | ⟨e, s₃, hexec, hrest⟩
    · obtain ⟨hbid, hbrun, hbstate, t, hruns, hs'⟩ := executeConfirmed_ok hexec hrunning
      refine .completed hawaits hbid hbrun hbstate (RunCompletes.congr hcores₂ ?_ ?_ hruns) ?_
      · rfl
      · rw [hactions₂]
        exact OtherOpen.of_put rfl
      · rw [hs', hactions₂, hmessages₂, Table.put_put hbid.symm]
    · rcases Tx.bind_cases hrest with ⟨e', he, rfl⟩ | ⟨u, s₄, hfail, hrest⟩
      · exact absurd (hdurable e' rfl).isDomain (failAction_noDomain _ _ _ _ e' (by rw [he]))
      obtain ⟨hr, rfl⟩ := Prod.mk.inj hrest
      have he : e.IsDomain := (Exc.durable_markDurable e).mp (hdurable _ hr.symm)
      have hs₃ : ledger s₃.db = ledger s₂.db :=
        (executeStateAction_ledger _ _ _).of_apply (executeConfirmed_error hexec he)
      simp only [ledger, Prod.mk.injEq] at hs₃
      obtain ⟨hcores₃, hactions₃, hmessages₃⟩ := hs₃
      obtain ⟨stored, b, hstored, hbid, hbrun, hbstate, hs₄⟩ := failAction_ok hfail
      rw [hactions₃] at hstored
      obtain rfl := Option.some.inj (hrunning.symm.trans hstored)
      refine .failed hawaits hbid hbrun hbstate ?_
      rw [hs₄, hcores₃, hcores₂, hactions₃, hactions₂, hmessages₃, hmessages₂, Table.put_put hbid.symm]

/-! ### What a cancellation does -/

/-- The actions after the pending ones of a run have been cancelled. -/
def cancelPending (runId : Uuid) (a : ToolAction) : ToolAction :=
  if a.runId = runId ∧ a.state = .pendingConfirmation then
    { a with state := .cancelled, version := a.version + 1 }
  else a

theorem cancelPending_id (runId : Uuid) (a : ToolAction) : (cancelPending runId a).id = a.id := by
  unfold cancelPending
  split <;> rfl

/-- What is committed by a cancellation. -/
inductive CancelMoves (runId : Uuid) (s s' : Session) : Prop where
  | idle (same : ledger s'.db = ledger s.db)
  | cancelled {run : OrchestrationRun} {now : DateTime} (found : (cores s.db).find? runId = some run)
      (opens : run.state ≠ .completed ∧ run.state ≠ .failed ∧ run.state ≠ .cancelled)
      (same : ledger s'.db = ((cores s.db).put { run with
          state := .cancelled, cancelledAt := some now, version := run.version + 1 },
        s.db.toolActions.mapRows (cancelPending runId) (cancelPending_id runId),
        s.db.conversationMessages))

/-- Updating the actions of a list one by one changes exactly these. -/
theorem forEach_updateAction_ok {f : ToolAction → ToolAction} (hid : ∀ x, (f x).id = x.id)
    {as bs : List ToolAction} {s s' : Session}
    (h : Tx.forEach (fun a : ToolAction => updateAction out a.id f) as s = (.ok bs, s'))
    (hnodup : (as.map ToolAction.id).Nodup) :
    s'.db = { s.db with toolActions := s'.db.toolActions } ∧
      s'.db.toolActions.rows = s.db.toolActions.rows.map fun x =>
        if x.id ∈ as.map ToolAction.id then f x else x := by
  induction as generalizing s bs with
  | nil =>
      obtain ⟨-, rfl⟩ := Prod.mk.inj h
      exact ⟨rfl, by simp⟩
  | cons a as ih =>
      unfold Tx.forEach at h
      obtain ⟨b, s₁, h₁, h⟩ := Tx.bind_eq_ok h
      obtain ⟨bs', s₂, h₂, h⟩ := Tx.bind_eq_ok h
      obtain ⟨-, rfl⟩ := Prod.mk.inj h
      rw [List.map_cons, List.nodup_cons] at hnodup
      obtain ⟨stored, hstored, rfl, rfl⟩ := updateAction_ok h₁
      obtain ⟨hdb, hrows⟩ := ih h₂ hnodup.2
      refine ⟨hdb, ?_⟩
      rw [hrows]
      have hkey : stored.id = a.id := Table.key_of_find? hstored
      have hf : { f stored with id := stored.id } = f stored := by rw [← hid stored]
      rw [hf]
      change ((s.db.toolActions.put (f stored)).rows.map _) = _
      rw [Table.rows_put, List.map_map]
      apply List.map_congr_left
      intro x hx
      simp only [Function.comp, Table.overwrite, hid, hkey, List.map_cons, List.mem_cons]
      by_cases hxa : x.id = a.id
      · have hxs : x = stored := Table.eq_of_key hx (Table.mem_of_find? hstored) (hxa.trans hkey.symm)
        subst hxs
        rw [if_pos hxa, if_neg (by rw [hid, hxa]; exact hnodup.1), if_pos (.inl hxa)]
      · simp [hxa]

/-- **What `cancel_run` commits.** -/
theorem moves_of_cancelRun {accountId runId : Uuid} {context : AuditContext}
    {r : Except Exc OrchestrationRun} {s s' : Session}
    (h : Database.session (cancelRun out accountId runId context) s = (r, s')) :
    CancelMoves runId s s' := by
  rcases session_cases h with ⟨hm, hdurable⟩ | ⟨hdb, -⟩
  swap
  · exact .idle (congrArg ledger hdb)
  unfold cancelRun Relation.select at hm
  rw [Tx.gets_bind_apply] at hm
  change (Tx.orRaise (s.db.orchestrationRuns.select fun r => r.id = runId ∧ r.accountId = accountId).head?
    _ >>= _) s = _ at hm
  cases hhead : (s.db.orchestrationRuns.select fun r => r.id = runId ∧ r.accountId = accountId).head? with
  | none =>
      rw [hhead, Tx.orRaise_none, Tx.raise_bind] at hm
      exact .idle (congrArg (fun s => ledger s.db) (Prod.mk.inj hm).2.symm)
  | some run =>
      rw [hhead, Tx.orRaise_some, Tx.pure_bind] at hm
      obtain ⟨hmem, hp⟩ := List.mem_filter.mp (List.mem_of_head? hhead)
      obtain ⟨rfl, -⟩ := of_decide_eq_true hp
      have hfind : s.db.orchestrationRuns.find? run.id = some run := Table.find?_of_mem hmem
      split at hm
      · exact .idle (congrArg (fun s => ledger s.db) (Prod.mk.inj hm).2.symm)
      next hopen =>
      simp only [not_or] at hopen
      rcases Tx.bind_cases hm with ⟨e, he, rfl⟩ | ⟨now, s₁, h₁, hm⟩
      · simp [utcNow] at he
      obtain ⟨-, rfl⟩ := Prod.mk.inj h₁
      rcases Tx.bind_cases hm with ⟨e, he, rfl⟩ | ⟨run', s₂, h₂, hm⟩
      · exact absurd (hdurable e rfl).isDomain (updateRun_noDomain _ _ _ e (by rw [he]))
      obtain ⟨stored, hstored, rfl, hcores, hs₂⟩ := updateRun_cores h₂ fun _ => rfl
      obtain rfl := Option.some.inj (hfind.symm.trans hstored)
      rcases Tx.bind_cases hm with ⟨e, he, rfl⟩ | ⟨actions, s₃, h₃, hm⟩
      · simp at he
      obtain ⟨hactions, rfl⟩ := Prod.mk.inj h₃
      rcases Tx.bind_cases hm with ⟨e, he, rfl⟩ | ⟨updated, s₄, h₄, hm⟩
      · have hno : NoDomain (Tx.forEach (fun a : ToolAction => updateAction out a.id fun a => { a with
            state := .cancelled, version := a.version + 1 }) actions) :=
          Tx.RaisesOnly.forEach fun a => updateAction_noDomain _ _
        exact absurd (hdurable e rfl).isDomain (hno _ e (by rw [he]))
      rcases Tx.bind_cases hm with ⟨e, he, rfl⟩ | ⟨event, s₅, h₅, hm⟩
      · exact absurd (hdurable e rfl).isDomain (AuditService.append_noDomain _ e (by rw [he]))
      obtain ⟨-, rfl⟩ := Prod.mk.inj hm
      have hsel : actions = s₂.db.toolActions.select fun a =>
          a.runId = run.id ∧ a.state = .pendingConfirmation := (Except.ok.inj hactions).symm
      have hnodup : (actions.map ToolAction.id).Nodup := by
        rw [hsel]
        exact s₂.db.toolActions.nodup.sublist (List.filter_sublist.map _)
      have hcancelled := forEach_updateAction_ok (f := fun a : ToolAction =>
        { a with state := .cancelled, version := a.version + 1 }) (fun _ => rfl) h₄ hnodup
      obtain ⟨hs₄, hrows⟩ := hcancelled
      have hfound : (cores s.db).find? run.id = some (core run) := by
        rw [find?_cores, hfind]
        rfl
      have hs₅ := append_db h₅
      have hcores₅ : cores s₅.db = cores s₂.db := by rw [hs₅]; unfold cores; rw [hs₄]
      have hactions₂ : s₂.db.toolActions = s.db.toolActions := by rw [hs₂]
      have htable : s₅.db.toolActions =
          s.db.toolActions.mapRows (cancelPending run.id) (cancelPending_id run.id) := by
        apply Table.ext
        rw [hs₅, hrows, Table.rows_mapRows, hactions₂]
        apply List.map_congr_left
        intro x hx
        have hiff : x.id ∈ actions.map ToolAction.id ↔ x.runId = run.id ∧ x.state = .pendingConfirmation := by
          rw [hsel, hactions₂, List.mem_map]
          constructor
          · rintro ⟨y, hy, hyx⟩
            obtain ⟨hy, hp⟩ := List.mem_filter.mp hy
            obtain rfl := Table.eq_of_key hy hx hyx
            exact of_decide_eq_true hp
          · intro hp
            exact ⟨x, List.mem_filter.mpr ⟨hx, decide_eq_true hp⟩, rfl⟩
        unfold cancelPending
        by_cases hp : x.runId = run.id ∧ x.state = .pendingConfirmation
        · rw [if_pos (hiff.mpr hp), if_pos hp]
        · rw [if_neg (mt hiff.mp hp), if_neg hp]
      have hmessages : s₅.db.conversationMessages = s.db.conversationMessages := by rw [hs₅, hs₄, hs₂]
      have hsame : ledger s₅.db = (cores s₅.db, s₅.db.toolActions, s₅.db.conversationMessages) := rfl
      rw [hcores₅, hcores, htable, hmessages] at hsame
      exact .cancelled hfound ⟨hopen.1, hopen.2.1, hopen.2.2⟩ hsame

end KajovoDagmar.OrchestrationService
