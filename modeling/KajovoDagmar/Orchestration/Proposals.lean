import KajovoDagmar.Orchestration.Effects

/-! # What a failed answer leaves behind

`answer` adds the actions of a decision to the session one by one, each after its call has been
normalised.  When a later call is refused with a `DomainError`, the failure of the run is made
durable and the actions added before it are committed with it, still awaiting confirmation
(`PartialProposal`).  In every other failure no action of the call is committed, and then no
later confirmation of one changes anything. -/

namespace KajovoDagmar.OrchestrationService

variable {out : Outside}

/-! ### Runs and their keys -/

/-- The columns by which a run is found: its identifier, its message and its account. -/
def runKey (r : OrchestrationRun) : Uuid × Uuid × Uuid := (r.id, r.sourceMessageId, r.accountId)

def runKeys (db : Db) : List (Uuid × Uuid × Uuid) := db.orchestrationRuns.rows.map runKey

theorem runOf?_id (db : Db) (accountId messageId : Uuid) :
    (runOf? db accountId messageId).map OrchestrationRun.id =
      ((runKeys db).find? fun k => k.2.1 = messageId ∧ k.2.2 = accountId).map Prod.fst := by
  unfold runOf? runKeys Table.select
  rw [List.head?_filter, List.find?_map, Option.map_map]
  rfl

/-- The run of a message is found under the same identifier as long as the keys are the same. -/
theorem runOf?_congr {db db' : Db} (h : runKeys db' = runKeys db) (accountId messageId : Uuid) :
    (runOf? db' accountId messageId).map OrchestrationRun.id =
      (runOf? db accountId messageId).map OrchestrationRun.id := by
  rw [runOf?_id, runOf?_id, h]

theorem runKeys_put {db : Db} {run changed : OrchestrationRun} (h : run ∈ db.orchestrationRuns)
    (hk : runKey changed = runKey run) :
    runKeys { db with orchestrationRuns := db.orchestrationRuns.put changed } = runKeys db :=
  Table.map_put h (congrArg Prod.fst hk) hk

/-- Neither the keys of the runs nor the actions nor the conversations are touched by a model
call. -/
def settled (db : Db) := (runKeys db, db.toolActions, db.conversations, targets db)

theorem settled_put {db : Db} {run changed : OrchestrationRun} (h : run ∈ db.orchestrationRuns)
    (hk : runKey changed = runKey run) :
    settled { db with orchestrationRuns := db.orchestrationRuns.put changed } = settled db := by
  unfold settled targets
  rw [runKeys_put h hk]

theorem hiddenCall_settled : HiddenCall settled where
  attempts _ _ := rfl
  count _ _ h := settled_put h rfl
  manifest _ _ _ h := settled_put h rfl

/-! ### The conversation and the run of a prepared answer -/

/-- What `prepare` has established: the conversation of the account, and the run of the
message. -/
theorem prepare_ok {existing : Option OrchestrationRun} {accountId conversationId messageId : Uuid}
    {s s' : Session} {p : Prepared}
    (h : prepare out existing accountId conversationId messageId s = (.ok p, s')) :
    HistoryService.conversation? s.db accountId conversationId = some p.conversation ∧
      (∀ run, existing = some run → p.runId = run.id ∧ runKeys s'.db = runKeys s.db) ∧
      (existing = none → runKeys s'.db = runKeys s.db ++ [(p.runId, messageId, accountId)]) := by
  unfold prepare at h
  rw [Tx.gets_bind_apply] at h
  cases hc : HistoryService.conversation? s.db accountId conversationId with
  | none => simp [hc, Tx.bind_apply] at h
  | some conversation =>
      rw [hc, Tx.orRaise_some, Tx.pure_bind, Tx.gets_bind_apply] at h
      obtain ⟨sourceMessage, s₂, h₂, h⟩ := Tx.bind_eq_ok h
      obtain ⟨⟨provider, model⟩, s₃, h₃, h⟩ := Tx.bind_eq_ok h
      obtain ⟨bundle, s₄, h₄, h⟩ := Tx.bind_eq_ok h
      obtain ⟨runId, s₅, h₅, h⟩ := Tx.bind_eq_ok h
      obtain ⟨hp, rfl⟩ := Prod.mk.inj h
      obtain rfl := Except.ok.inj hp
      have hkeys : runKeys s₄.db = runKeys s.db := by
        have h₂' : runKeys s₂.db = runKeys s.db := (Tx.Keeps.orRaise _ _ : Tx.Keeps (Same runKeys) _).of_apply h₂
        have h₃' : runKeys s₃.db = runKeys s₂.db := primaryModel_keeps.of_apply h₃
        have h₄' : runKeys s₄.db = runKeys s₃.db := (buildContext_keeps _ _ _ _ _ _).of_apply h₄
        rw [h₄', h₃', h₂']
      refine ⟨rfl, ?_, ?_⟩
      · rintro run rfl
        obtain ⟨hrun, rfl⟩ := Prod.mk.inj h₅
        exact ⟨(Except.ok.inj hrun).symm, hkeys⟩
      · rintro rfl
        obtain ⟨id, s₆, h₆, h₅⟩ := Tx.bind_eq_ok h₅
        obtain ⟨_, s₇, h₇, h₅⟩ := Tx.bind_eq_ok h₅
        obtain ⟨hid, rfl⟩ := Prod.mk.inj h₅
        obtain rfl := Except.ok.inj hid
        obtain ⟨t, ht, rfl⟩ := Relation.add_eq_ok h₇
        have hs₆ : s₆.db = s₄.db := by rw [← (Prod.mk.inj h₆).2]
        obtain ⟨hrows, -⟩ := Table.insert?_eq_some (Relation.insertRow_eq_ok ht).1
        change t.rows.map runKey = _
        rw [hrows, List.map_append, ← hkeys, ← hs₆]
        rfl

/-! ### Creating the actions -/

/-- The normalisation of a call succeeds. -/
def Normalises (out : Outside) (accountId : Uuid) (conversation : Conversation)
    (sourceMessage : ConversationMessage) (s : Session) (call : ToolCallDecision) : Prop :=
  ∃ n, (normalizeAction out accountId call conversation sourceMessage s).1 = .ok n

/-- The normalisation of a call is refused with a `DomainError`. -/
def Refuses (out : Outside) (accountId : Uuid) (conversation : Conversation)
    (sourceMessage : ConversationMessage) (s : Session) (call : ToolCallDecision) : Prop :=
  ∃ e : Exc, e.IsDomain ∧ (normalizeAction out accountId call conversation sourceMessage s).1 = .error e

section create

variable {runId accountId : Uuid} {conversation : Conversation} {sourceMessage : ConversationMessage}

theorem Normalises.congr {s s' : Session} {call : ToolCallDecision} (hs : Same targets s s')
    (h : Normalises out accountId conversation sourceMessage s' call) :
    Normalises out accountId conversation sourceMessage s call := by
  obtain ⟨n, hn⟩ := h
  exact ⟨n, by rw [← hn, (normalizeAction_reads _ _ _ _ s).2 s' hs]⟩

theorem Refuses.congr {s s' : Session} {call : ToolCallDecision} (hs : Same targets s s')
    (h : Refuses out accountId conversation sourceMessage s' call) :
    Refuses out accountId conversation sourceMessage s call := by
  obtain ⟨e, he, hr⟩ := h
  exact ⟨e, he, by rw [← hr, (normalizeAction_reads _ _ _ _ s).2 s' hs]⟩

theorem Normalises.not_refuses {s : Session} {call : ToolCallDecision}
    (h : Normalises out accountId conversation sourceMessage s call) :
    ¬Refuses out accountId conversation sourceMessage s call := by
  obtain ⟨n, hn⟩ := h
  rintro ⟨e, -, he⟩
  rw [hn] at he
  simp at he

/-- A created action belongs to the run, awaits confirmation and is the last of the table. -/
theorem createAction_ok {index : ℕ} {call : ToolCallDecision} {a : ToolAction} {s s' : Session}
    (h : createAction out runId accountId conversation sourceMessage index call s = (.ok a, s')) :
    Normalises out accountId conversation sourceMessage s call ∧
      (a.runId = runId ∧ a.state = .pendingConfirmation) ∧
      ∃ t, t.rows = s.db.toolActions.rows ++ [a] ∧ s'.db = { s.db with toolActions := t } := by
  unfold createAction at h
  obtain ⟨n, s₁, hn, hrest⟩ := Tx.bind_eq_ok h
  obtain rfl : s₁ = s := Tx.Reads.eq (normalizeAction_reads _ _ _ _) hn
  obtain ⟨now, s₂, hnow, hrest⟩ := Tx.bind_eq_ok hrest
  obtain ⟨id, s₃, hid, hrest⟩ := Tx.bind_eq_ok hrest
  rw [Tx.gets_bind_apply] at hrest
  obtain ⟨u, s₄, hadd, hrest⟩ := Tx.bind_eq_ok hrest
  obtain ⟨ha, rfl⟩ := Prod.mk.inj hrest
  obtain rfl := Except.ok.inj ha
  obtain ⟨-, rfl⟩ := Prod.mk.inj hnow
  obtain ⟨-, rfl⟩ := Prod.mk.inj hid
  obtain ⟨t, ht, rfl⟩ := Relation.add_eq_ok hadd
  have hrows := (Table.insert?_eq_some (Relation.insertRow_eq_ok ht).1).1
  exact ⟨⟨n, by rw [hn]⟩, ⟨rfl, rfl⟩, t, hrows, rfl⟩

/-- A call that is refused with a domain error is refused by its normalisation, before anything
is written. -/
theorem createAction_error {index : ℕ} {call : ToolCallDecision} {e : Exc} {s s' : Session}
    (h : createAction out runId accountId conversation sourceMessage index call s = (.error e, s'))
    (he : e.IsDomain) :
    Refuses out accountId conversation sourceMessage s call ∧ s' = s := by
  unfold createAction at h
  rcases Tx.bind_eq_error h with hn | ⟨n, s₁, hn, h⟩
  · exact ⟨⟨e, he, by rw [hn]⟩, Tx.Reads.eq (normalizeAction_reads _ _ _ _) hn⟩
  · have hrest : NoDomain (do
        let now ← utcNow out.toRuntime
        let id ← newUuid out.toRuntime
        let began ← Tx.gets Session.began
        let action := newAction out id runId index call.name n now began
        Db.toolAction.add out.toRuntime action
        pure action : Work ToolAction) := by
      refine (utcNow_noDomain _).bind fun now => (newUuid_noDomain _).bind fun id => ?_
      refine (Tx.RaisesOnly.gets _).bind fun began => ?_
      exact (Relation.add_noDomain _).bind fun _ => Tx.RaisesOnly.pure _
    exact absurd he (hrest s₁ e (by rw [h]))

/-- When the actions of a list of calls end in a domain error, the calls before the refused one
have become pending actions of the run. -/
theorem createFrom_error {calls : List ToolCallDecision} {index : ℕ} {e : Exc} {s s' : Session}
    (h : createFrom out runId accountId conversation sourceMessage index calls s = (.error e, s'))
    (he : e.IsDomain) :
    ∃ before call after created t, calls = before ++ call :: after ∧
      (∀ c ∈ before, Normalises out accountId conversation sourceMessage s c) ∧
      Refuses out accountId conversation sourceMessage s call ∧
      created.length = before.length ∧
      (∀ a ∈ created, a.runId = runId ∧ a.state = .pendingConfirmation) ∧
      t.rows = s.db.toolActions.rows ++ created ∧ s'.db = { s.db with toolActions := t } := by
  induction calls generalizing index s with
  | nil => simp [createFrom] at h
  | cons call calls ih =>
      unfold createFrom at h
      rcases Tx.bind_eq_error h with h₁ | ⟨a, s₁, h₁, h⟩
      · obtain ⟨hrefused, rfl⟩ := createAction_error h₁ he
        exact ⟨[], call, calls, [], s'.db.toolActions, rfl, by simp, hrefused, rfl, by simp, by simp, rfl⟩
      · obtain ⟨hnormal, ha, t₁, ht₁, hs₁⟩ := createAction_ok h₁
        have hrest : createFrom out runId accountId conversation sourceMessage (index + 1) calls s₁ =
            (.error e, s') := by
          rcases Tx.bind_eq_error h with h₂ | ⟨_, s₂, -, h₂⟩
          · exact h₂
          · simp at h₂
        have hsame : Same targets s s₁ := by
          unfold Same targets
          rw [hs₁]
        obtain ⟨before, refused, after, created, t, rfl, hbefore, hrefused, hlength, hcreated, ht, hs'⟩ :=
          ih hrest
        refine ⟨call :: before, refused, after, a :: created, t, rfl, ?_, hrefused.congr hsame, ?_, ?_, ?_, ?_⟩
        · intro c hc
          rcases List.mem_cons.mp hc with rfl | hc
          · exact hnormal
          · exact (hbefore c hc).congr hsame
        · rw [List.length_cons, List.length_cons, hlength]
        · intro x hx
          rcases List.mem_cons.mp hx with rfl | hx
          · exact ha
          · exact hcreated x hx
        · rw [ht, hs₁, ht₁, List.append_assoc]
          rfl
        · rw [hs', hs₁]

/-- Every state-changing call or memory proposal of a decision has been marked as requiring
confirmation. -/
theorem requiresConfirmation_of_stateCalls {decision : ModelDecision} (h : stateCalls decision ≠ []) :
    decision.requiresConfirmation = true := by
  refine decision.confirmed ?_
  cases hp : decision.memoryProposal with
  | some proposal => exact .inr (.inr rfl)
  | none =>
      left
      have hcalls : (decision.toolCalls.filter fun t => t.name ∈ ToolName.stateTools) ≠ [] := by
        simpa only [stateCalls, hp] using h
      obtain ⟨t, ht⟩ := List.exists_mem_of_ne_nil _ hcalls
      obtain ⟨hmem, hstate⟩ := List.mem_filter.mp ht
      refine ⟨t, hmem, ?_⟩
      cases hn : t.name <;> simp [hn, ToolName.stateTools] at hstate ⊢

end create

/-! ### Recording the outcome -/

theorem createFrom_keeps {γ : Type} {view : Db → γ}
    (ha : ∀ t db, view { db with toolActions := t } = view db) (runId accountId : Uuid)
    (conversation : Conversation) (sourceMessage : ConversationMessage) (index : ℕ)
    (calls : List ToolCallDecision) :
    Tx.Keeps (Same view) (createFrom out runId accountId conversation sourceMessage index calls) := by
  induction calls generalizing index with
  | nil => exact Tx.Keeps.pure _
  | cons call calls ih =>
      have hone : Tx.Keeps (Same view)
          (createAction out runId accountId conversation sourceMessage index call) := by
        refine (Tx.Reads.keeps (normalizeAction_reads _ _ _ _)).bind fun n => ?_
        refine (Same.utcNow _).bind fun now => (Same.newUuid _).bind fun id => ?_
        exact (Tx.Keeps.gets _).bind fun began => (Relation.add_keeps ha _).bind fun _ => Tx.Keeps.pure _
      exact hone.bind fun a => (ih (index + 1)).bind fun actions => Tx.Keeps.pure _

/-- A decision passes the check of `_create_actions` that precedes the loop. -/
theorem createActions_eq (runId accountId : Uuid) (conversation : Conversation)
    (sourceMessage : ConversationMessage) (decision : ModelDecision) :
    createActions out runId accountId conversation sourceMessage decision =
      createFrom out runId accountId conversation sourceMessage 0 (stateCalls decision) := by
  have hpass : ¬(stateCalls decision ≠ [] ∧ decision.requiresConfirmation = false) := by
    rintro ⟨hcalls, hfalse⟩
    rw [requiresConfirmation_of_stateCalls hcalls] at hfalse
    simp at hfalse
  simp only [createActions, Tx.raiseIf_neg hpass, Tx.pure_bind]

theorem appendMessage_noDomain (conversation : Conversation) (message : ConversationMessage) :
    NoDomain (ConversationService.appendMessage out.toRuntime conversation message) := by
  unfold ConversationService.appendMessage
  refine (Relation.add_noDomain _).bind fun _ => (utcNow_noDomain _).bind fun now => ?_
  exact (Relation.save_noDomain _).bind fun _ => Tx.RaisesOnly.pure _

/-- The assistant turn of an existing conversation is not refused. -/
theorem addAssistantTurn_error {conversationId runId : Uuid} {content idempotencyKey : String}
    {e : Exc} {s s' : Session} (hc : (s.db.conversations.find? conversationId).isSome)
    (h : ConversationService.addAssistantTurn out.toRuntime conversationId content idempotencyKey runId
      false s = (.error e, s')) : ¬e.IsDomain := by
  obtain ⟨conversation, hconversation⟩ := Option.isSome_iff_exists.mp hc
  unfold ConversationService.addAssistantTurn at h
  rw [Relation.find, Tx.gets_bind_apply] at h
  change (Tx.orRaise (s.db.conversations.find? conversationId) _ >>= _) s = _ at h
  rw [hconversation, Tx.orRaise_some, Tx.pure_bind] at h
  rcases Tx.bind_eq_error h with h | ⟨existing, s₁, -, h⟩
  · unfold ConversationService.byIdempotencyKey Relation.select at h
    simp [Tx.bind_apply] at h
  · cases existing with
    | some message => simp at h
    | none =>
        have hrest : NoDomain (do
            let sequence ← Tx.gets fun s => ConversationService.maxSequence s.db conversationId + 1
            let id ← newUuid out.toRuntime
            let now ← utcNow out.toRuntime
            let message : ConversationMessage :=
              { id := id
                conversationId := conversationId
                sequence := sequence
                role := .assistant
                content := content
                inputMode := .generated
                status := if false then "interrupted" else "final"
                idempotencyKey := idempotencyKey
                responseRunId := some runId
                interrupted := false
                finalizedAt := some now }
            let _ ← ConversationService.appendMessage out.toRuntime conversation message
            pure message : Work ConversationMessage) := by
          refine (Tx.RaisesOnly.gets _).bind fun sequence => (newUuid_noDomain _).bind fun id => ?_
          refine (utcNow_noDomain _).bind fun now => ?_
          exact (appendMessage_noDomain _ _).bind fun _ => Tx.RaisesOnly.pure _
        exact hrest s₁ e (congrArg Prod.fst h)

/-- Nothing that follows the actions is refused. -/
theorem conclude_error {p : Prepared} {d : Decided} {actions : List ToolAction}
    {context : AuditContext} {e : Exc} {s s' : Session}
    (hc : (s.db.conversations.find? p.conversation.id).isSome)
    (h : conclude out p d actions context s = (.error e, s')) : ¬e.IsDomain := by
  unfold conclude at h
  rcases Tx.bind_eq_error h with h₁ | ⟨run, s₁, h₁, h⟩
  · exact updateRun_noDomain _ _ s e (by rw [h₁])
  have hs₁ : s₁.db.conversations = s.db.conversations := by
    have hkeep : Tx.Keeps (Same Db.conversations) (updateRun out p.runId fun r => { r with
        intent := some d.decision.intent.text
        decision := some d.decision.modelDump
        usage := d.usage
        state := if actions = [] then .completed else .awaitingConfirmation }) :=
      updateRun_keeps (fun _ _ _ => rfl) _
    exact hkeep.of_apply h₁
  rcases Tx.bind_eq_error h with h₂ | ⟨message, s₂, -, h⟩
  · exact addAssistantTurn_error (by rw [hs₁]; exact hc) h₂
  · have hrest : NoDomain (do
        let now ← utcNow out.toRuntime
        let run ← updateRun out p.runId fun r => { r with
          responseMessageId := some message.id
          completedAt := if actions = [] then some now else r.completedAt
          version := r.version + 1 }
        let _ ← AuditService.append out.toRuntime context "orchestration.completed" "success"
          (some "orchestration_run") (some p.runId)
          [("intent", .str d.decision.intent.text), ("attempts", .int run.attemptCount),
           ("actions", .int actions.length), ("prompt_version", .str promptVersion)]
        pure ⟨p.runId, message, d.decision, actions⟩ : Work OrchestrationResult) := by
      refine (utcNow_noDomain _).bind fun now => (updateRun_noDomain _ _).bind fun run => ?_
      exact AuditService.append_noDomain.bind fun _ => Tx.RaisesOnly.pure _
    exact hrest s₂ e (by rw [h])

theorem failRun_noDomain (runId : Uuid) (context : AuditContext) (e : Exc) :
    NoDomain (failRun out runId context e) := by
  unfold failRun
  refine (utcNow_noDomain _).bind fun now => (updateRun_noDomain _ _).bind fun run => ?_
  exact AuditService.append_noDomain.bind fun _ => Tx.RaisesOnly.pure _

theorem failRun_settled (runId : Uuid) (context : AuditContext) (e : Exc) :
    Tx.Keeps (Same settled) (failRun out runId context e) := by
  unfold failRun
  refine (Same.utcNow _).bind fun now => ?_
  refine (updateRun_keeps ?_ _).bind fun run => ?_
  · intro run db h
    exact settled_put h rfl
  · exact (AuditService.append_keeps fun _ _ => rfl).bind fun _ => Tx.Keeps.pure _

/-! ### A decision that is refused after its first actions -/

/-- The model's decision on a message whose run is neither replayed nor in progress, with what
had been prepared before the model was called. -/
structure Decides (out : Outside) (accountId conversationId messageId : Uuid) (s : Session)
    (p : Prepared) (d : Decided) (s₁ : Session) : Prop where
  anew : ∀ run, runOf? s.db accountId messageId = some run →
    replayable run = false ∧ inProgress run = false
  decided : ∃ s₀, prepare out (runOf? s.db accountId messageId) accountId conversationId messageId s =
    (.ok p, s₀) ∧ obtainDecision out accountId p s₀ = (.ok d, s₁)

/-- Among the state-changing calls of the decision, one is refused with a `DomainError` after
others that are not. -/
def PartialProposal (out : Outside) (accountId conversationId messageId : Uuid) (s : Session) : Prop :=
  ∃ p d s₁, Decides out accountId conversationId messageId s p d s₁ ∧
    ∃ before call after, stateCalls d.decision = before ++ call :: after ∧ before ≠ [] ∧
      (∀ c ∈ before, Normalises out accountId p.conversation p.sourceMessage s c) ∧
      Refuses out accountId p.conversation p.sourceMessage s call

theorem Decides.unique {accountId conversationId messageId : Uuid} {s s₁ s₂ : Session}
    {p q : Prepared} {d c : Decided} (hp : Decides out accountId conversationId messageId s p d s₁)
    (hq : Decides out accountId conversationId messageId s q c s₂) : p = q ∧ d = c ∧ s₁ = s₂ := by
  obtain ⟨s₀, h₀, h₁⟩ := hp.decided
  obtain ⟨s₀', h₀', h₁'⟩ := hq.decided
  rw [h₀] at h₀'
  obtain ⟨hpq, rfl⟩ := Prod.mk.inj h₀'
  obtain rfl := Except.ok.inj hpq
  rw [h₁] at h₁'
  obtain ⟨hdc, rfl⟩ := Prod.mk.inj h₁'
  exact ⟨rfl, Except.ok.inj hdc, rfl⟩

section refused

variable {accountId conversationId messageId : Uuid} {s s₁ : Session} {p : Prepared} {d : Decided}

/-- Deciding touches no action, no conversation and no target of a call, and the run is then
found under the identifier that was prepared. -/
theorem Decides.settled (h : Decides out accountId conversationId messageId s p d s₁) :
    s₁.db.toolActions = s.db.toolActions ∧ s₁.db.conversations = s.db.conversations ∧
      targets s₁.db = targets s.db ∧
      ((runKeys s₁.db).find? fun k => k.2.1 = messageId ∧ k.2.2 = accountId).map Prod.fst =
        some p.runId := by
  obtain ⟨s₀, hp, hd⟩ := h.decided
  have hrest : Same (fun db => (db.toolActions, db.conversations, targets db)) s s₀ :=
    (prepare_keeps (fun _ _ => rfl) _ _ _ _).of_apply hp
  have hsettled : Same OrchestrationService.settled s₀ s₁ :=
    (obtainDecision_keeps hiddenCall_settled _ _).of_apply hd
  simp only [Same, OrchestrationService.settled, Prod.mk.injEq] at hrest hsettled
  refine ⟨hsettled.2.1.trans hrest.1, hsettled.2.2.1.trans hrest.2.1,
    hsettled.2.2.2.trans hrest.2.2, ?_⟩
  rw [hsettled.1]
  obtain ⟨-, hsome, hnone⟩ := prepare_ok hp
  have hfound := runOf?_id s.db accountId messageId
  cases he : runOf? s.db accountId messageId with
  | some run =>
      obtain ⟨hid, hkeys⟩ := hsome run he
      rw [hkeys, ← hfound, he, hid]
      rfl
  | none =>
      rw [he, Option.map_none] at hfound
      rw [hnone he, List.find?_append, Option.map_eq_none_iff.mp hfound.symm]
      simp

theorem Decides.conversation (h : Decides out accountId conversationId messageId s p d s₁) :
    (s₁.db.conversations.find? p.conversation.id).isSome := by
  obtain ⟨-, hconversations, -, -⟩ := h.settled
  obtain ⟨s₀, hp, -⟩ := h.decided
  have hc := (prepare_ok hp).1
  have hmem : p.conversation ∈ s.db.conversations :=
    Table.mem_of_find? (Option.filter_eq_some_iff.mp hc).1
  rw [hconversations, Table.find?_of_mem hmem]
  rfl

end refused

/-! ### A failed answer -/

section answer

variable {accountId conversationId messageId : Uuid} {context : Option AuditContext}

/-- The domain error of a prepared answer: either the model's decision could not be obtained,
or one of its calls was refused. -/
theorem answerPrepared_error {p : Prepared} {context : AuditContext} {e : Exc} {s s' : Session}
    (hc : ∀ d s₁, obtainDecision out accountId p s = (.ok d, s₁) →
      (s₁.db.conversations.find? p.conversation.id).isSome)
    (h : answerPrepared out accountId p context s = (.error e, s')) (he : e.IsDomain) :
    obtainDecision out accountId p s = (.error e, s') ∨
      ∃ d s₁, obtainDecision out accountId p s = (.ok d, s₁) ∧
        createFrom out p.runId accountId p.conversation p.sourceMessage 0 (stateCalls d.decision) s₁ =
          (.error e, s') := by
  unfold answerPrepared at h
  rcases Tx.bind_eq_error h with h₁ | ⟨d, s₁, h₁, h⟩
  · exact .inl h₁
  right
  refine ⟨d, s₁, h₁, ?_⟩
  rw [createActions_eq] at h
  rcases Tx.bind_eq_error h with h₂ | ⟨actions, s₂, h₂, h⟩
  · exact h₂
  · have hkeep : Tx.Keeps (Same Db.conversations)
        (createFrom out p.runId accountId p.conversation p.sourceMessage 0 (stateCalls d.decision)) :=
      createFrom_keeps (fun _ _ => rfl) _ _ _ _ _ _
    have hs₂ : s₂.db.conversations = s₁.db.conversations := hkeep.of_apply h₂
    refine absurd he (conclude_error ?_ h)
    rw [hs₂]
    exact hc d s₁ h₁

/-- An action of the run of a message, created between `s` and `s'` and awaiting
confirmation. -/
structure LeftPending (accountId messageId : Uuid) (s s' : Session) (run : OrchestrationRun)
    (a : ToolAction) : Prop where
  found : runOf? s'.db accountId messageId = some run
  stored : a ∈ s'.db.toolActions
  ofRun : a.runId = run.id
  created : s.db.toolActions.find? a.id = none
  pending : a.state = .pendingConfirmation

/-- When a call of the decision is refused, the decision is refused after its first actions
exactly when something has been written, and that is an action of the run. -/
theorem Decides.refused {p : Prepared} {d : Decided} {e : Exc} {s s₁ s₂ : Session}
    (hd : Decides out accountId conversationId messageId s p d s₁)
    (h : createFrom out p.runId accountId p.conversation p.sourceMessage 0 (stateCalls d.decision) s₁ =
      (.error e, s₂)) (he : e.IsDomain) :
    (¬PartialProposal out accountId conversationId messageId s ∧
      s₂.db.toolActions = s.db.toolActions) ∨
    (PartialProposal out accountId conversationId messageId s ∧
      ∃ run a, LeftPending accountId messageId s s₂ run a) := by
  obtain ⟨hactions, -, htargets, hrun⟩ := hd.settled
  have hsame : Same targets s s₁ := htargets
  obtain ⟨before, call, after, created, t, hcalls, hbefore, hcall, hlength, hcreated, ht, hs₂⟩ :=
    createFrom_error h he
  cases created with
  | nil =>
      left
      obtain rfl := List.length_eq_zero_iff.mp hlength.symm
      refine ⟨?_, ?_⟩
      · rintro ⟨p', d', s₁', hd', before', call', after', hcalls', hne, hbefore', -⟩
        obtain ⟨rfl, rfl, rfl⟩ := hd.unique hd'
        obtain ⟨c, rest, rfl⟩ := List.exists_cons_of_ne_nil hne
        rw [hcalls] at hcalls'
        obtain ⟨rfl, -⟩ := List.cons.inj hcalls'
        exact (hbefore' call (by simp)).not_refuses (hcall.congr hsame)
      · rw [hs₂, ← hactions]
        exact Table.ext (by rw [ht, List.append_nil])
  | cons a created =>
      right
      refine ⟨⟨p, d, s₁, hd, before, call, after, hcalls, ?_, ?_, hcall.congr hsame⟩, ?_⟩
      · rintro rfl
        simp at hlength
      · exact fun c hc => (hbefore c hc).congr hsame
      · have hkeys : runKeys s₂.db = runKeys s₁.db := by rw [hs₂]; rfl
        rw [← hkeys, ← runOf?_id] at hrun
        obtain ⟨run, hfound, hid⟩ := Option.map_eq_some_iff.mp hrun
        have hmem : a ∈ t.rows := by rw [ht]; simp
        obtain ⟨hof, hpending⟩ := hcreated a (by simp)
        refine ⟨run, a, hfound, by rw [hs₂]; exact hmem, hof.trans hid.symm, ?_, hpending⟩
        -- the identifiers of a table are distinct, and the old rows stand before the new ones
        rw [Table.find?_eq_none, ← hactions]
        intro x hx hxa
        have hnodup := t.nodup
        rw [ht, List.map_append, List.nodup_append] at hnodup
        exact hnodup.2.2 x.id (List.mem_map_of_mem hx) a.id (by simp) hxa

/-- The failure of a prepared answer is recorded without touching its actions, and a domain
error is made durable. -/
theorem handled_error {p : Prepared} {context : AuditContext} {e : Exc} {s s' : Session}
    (h : Tx.handle (answerPrepared out accountId p context) (fun e => do
      failRun out p.runId context e
      Tx.raise e.markDurable) s = (.error e, s')) (he : e.IsDomain) :
    ∃ e' s₁, answerPrepared out accountId p context s = (.error e', s₁) ∧ e'.IsDomain ∧ e.Durable ∧
      Same settled s₁ s' := by
  unfold Tx.handle at h
  split at h
  · simp at h
  next e' s₁ hp =>
  rcases Tx.bind_eq_error h with h | ⟨u, s₂, hfail, h⟩
  · exact absurd he (failRun_noDomain _ _ _ s₁ e (by rw [h]))
  obtain ⟨hee, rfl⟩ := Prod.mk.inj h
  obtain rfl : e'.markDurable = e := by simpa using hee
  have he' : e'.IsDomain := (Exc.isDomain_markDurable e').mp he
  exact ⟨e', s₁, hp, he', (Exc.durable_markDurable e').mpr he', (failRun_settled _ _ _).of_apply hfail⟩

/-- A run that is answered anew ends in a domain error with or without a pending action. -/
theorem answerAnew_error {context : AuditContext} {e : Exc} {s s' : Session}
    (hanew : ∀ run, runOf? s.db accountId messageId = some run →
      replayable run = false ∧ inProgress run = false)
    (h : answerAnew out (runOf? s.db accountId messageId) accountId conversationId messageId context s =
      (.error e, s')) (he : e.IsDomain) :
    (¬PartialProposal out accountId conversationId messageId s ∧
      s'.db.toolActions = s.db.toolActions) ∨
    (PartialProposal out accountId conversationId messageId s ∧ e.Durable ∧
      ∃ run a, LeftPending accountId messageId s s' run a) := by
  have hprepare : Tx.Keeps (Same Db.toolActions)
      (prepare out (runOf? s.db accountId messageId) accountId conversationId messageId) :=
    prepare_keeps (fun _ _ => rfl) _ _ _ _
  unfold answerAnew at h
  rcases Tx.bind_eq_error h with hp | ⟨p, s₀, hp, h⟩
  · refine .inl ⟨?_, hprepare.of_apply hp⟩
    rintro ⟨p, d, s₁, hd, -⟩
    obtain ⟨s₀, hp', -⟩ := hd.decided
    rw [hp] at hp'
    simp at hp'
  obtain ⟨e', s₂, hprepared, he', hdurable, hsettled⟩ := handled_error h he
  simp only [Same, settled, Prod.mk.injEq] at hsettled
  have hdecides : ∀ d s₁, obtainDecision out accountId p s₀ = (.ok d, s₁) →
      Decides out accountId conversationId messageId s p d s₁ :=
    fun d s₁ hd => ⟨hanew, s₀, hp, hd⟩
  rcases answerPrepared_error (fun d s₁ hd => (hdecides d s₁ hd).conversation) hprepared he' with
    hd | ⟨d, s₁, hd, hcreate⟩
  · left
    have hkeep : Tx.Keeps (Same settled) (obtainDecision out accountId p) :=
      obtainDecision_keeps hiddenCall_settled _ _
    have hsame := hkeep.of_apply hd
    simp only [Same, settled, Prod.mk.injEq] at hsame
    refine ⟨?_, hsettled.2.1.trans (hsame.2.1.trans (hprepare.of_apply hp))⟩
    rintro ⟨p', d, s₁, hd', -⟩
    obtain ⟨s₀', hp', hd'⟩ := hd'.decided
    rw [hp] at hp'
    obtain ⟨hpp, rfl⟩ := Prod.mk.inj hp'
    obtain rfl := Except.ok.inj hpp
    rw [hd] at hd'
    simp at hd'
  · rcases (hdecides d s₁ hd).refused hcreate he' with ⟨hnot, hactions⟩ | ⟨hunfinished, run, a, hl⟩
    · exact .inl ⟨hnot, hsettled.2.1.trans hactions⟩
    · right
      have hid := runOf?_congr hsettled.1 accountId messageId
      rw [hl.found] at hid
      obtain ⟨run', hfound, hrun'⟩ := Option.map_eq_some_iff.mp hid
      refine ⟨hunfinished, hdurable, run', a, hfound, ?_, ?_, hl.created, hl.pending⟩
      · rw [hsettled.2.1]
        exact hl.stored
      · rw [hl.ofRun, hrun']

/-- An answer that ends in a domain error has changed no action, unless its decision was
refused after its first actions; then an action of the run is left pending. -/
theorem answer_error {e : Exc} {s s' : Session}
    (h : answer out accountId conversationId messageId context s = (.error e, s')) (he : e.IsDomain) :
    (¬PartialProposal out accountId conversationId messageId s ∧
      s'.db.toolActions = s.db.toolActions) ∨
    (PartialProposal out accountId conversationId messageId s ∧ e.Durable ∧
      ∃ run a, LeftPending accountId messageId s s' run a) := by
  unfold answer at h
  rw [Tx.gets_bind_apply] at h
  cases hreplay : (runOf? s.db accountId messageId).filter replayable with
  | some run =>
      rw [hreplay] at h
      obtain ⟨hrun, hreplayable⟩ := Option.filter_eq_some_iff.mp hreplay
      left
      refine ⟨?_, ?_⟩
      · rintro ⟨p, d, s₁, hd, -⟩
        rw [(hd.anew run hrun).1] at hreplayable
        simp at hreplayable
      · have hkeep : Tx.Keeps (Same Db.toolActions) (replay out run) := by
          unfold replay
          refine (Tx.Keeps.gets _).bind fun row => (Tx.Keeps.orRaise _ _).bind fun message => ?_
          refine (Tx.Keeps.gets _).bind fun actions => ?_
          exact (Tx.Keeps.orRaise _ _).bind fun decision => Tx.Keeps.pure _
        exact hkeep.of_apply h
  | none =>
      rw [hreplay] at h
      cases hprogress : (runOf? s.db accountId messageId).filter inProgress with
      | some run =>
          rw [hprogress, Option.map_some, Tx.raiseSome_some, Tx.raise_bind] at h
          obtain ⟨hrun, hin⟩ := Option.filter_eq_some_iff.mp hprogress
          obtain rfl : s = s' := (Prod.mk.inj h).2
          refine .inl ⟨?_, rfl⟩
          rintro ⟨p, d, s₁, hd, -⟩
          rw [(hd.anew run hrun).2] at hin
          simp at hin
      | none =>
          rw [hprogress, Option.map_none, Tx.raiseSome_none, Tx.pure_bind] at h
          refine answerAnew_error ?_ h he
          intro run hrun
          rw [hrun, Option.filter_eq_none_iff] at hreplay hprogress
          exact ⟨by simpa using hreplay run rfl, by simpa using hprogress run rfl⟩

end answer

/-! ### Later confirmations -/

/-- A call of `confirm_action` in a session of its own. -/
structure Confirmation where
  accountId : Uuid
  actionId : Uuid
  expectedActionVersion : ℤ
  context : AuditContext
  began : DateTime
  tick : ℕ

namespace Confirmation

/-- The database after a confirmation. -/
def apply (out : Outside) (c : Confirmation) (db : Db) : Db :=
  (Database.session (confirmAction out c.accountId c.actionId c.expectedActionVersion c.context)
    { db := db, began := c.began, tick := c.tick }).2.db

/-- The database after a sequence of confirmations. -/
def applyAll (out : Outside) (cs : List Confirmation) (db : Db) : Db :=
  cs.foldl (fun db c => c.apply out db) db

def actionIds (db : Db) : List Uuid := db.toolActions.rows.map ToolAction.id

theorem hidden_actionIds : Hidden actionIds := by
  refine ⟨?_, ?_, fun r db => Table.keys_put _ _, fun _ _ => rfl⟩ <;> constructor <;> intros <;> rfl

/-- Confirming creates and deletes no action. -/
theorem actionIds_apply (c : Confirmation) (db : Db) : actionIds (c.apply out db) = actionIds db := by
  have hkeep : Tx.Keeps (Same actionIds)
      (confirmAction out c.accountId c.actionId c.expectedActionVersion c.context) :=
    confirmAction_keeps hidden_actionIds _ _ _ _
  have h := hkeep { db := db, began := c.began, tick := c.tick }
  unfold apply Database.session Tx.session
  split
  · next hm => rw [hm] at h; exact h
  · next hm =>
    rw [hm] at h
    split
    · exact h
    · rfl

theorem actionIds_applyAll (cs : List Confirmation) (db : Db) :
    actionIds (applyAll out cs db) = actionIds db := by
  induction cs generalizing db with
  | nil => rfl
  | cons c cs ih => exact (ih (c.apply out db)).trans (c.actionIds_apply db)

theorem find?_eq_none_iff (db : Db) (actionId : Uuid) :
    db.toolActions.find? actionId = none ↔ actionId ∉ actionIds db := by
  rw [Table.find?_eq_none, actionIds, List.mem_map, not_exists]
  exact forall_congr' fun a => not_and.symm

/-- The confirmation of an action that does not exist changes nothing. -/
theorem apply_of_missing {c : Confirmation} {db : Db} (h : db.toolActions.find? c.actionId = none) :
    c.apply out db = db := by
  have hm : confirmAction out c.accountId c.actionId c.expectedActionVersion c.context
      { db := db, began := c.began, tick := c.tick } =
      (.error (.domain (.notFound "Potvrzovaná operace nebyla nalezena.")),
        { db := db, began := c.began, tick := c.tick }) := by
    simp [confirmAction, lockAction, Tx.bind_apply, action?, h]
  unfold apply
  rw [Database.session_of_rollback hm (by simp [Exc.Durable, DomainError.notFound])]
  rfl

end Confirmation

/-! ### A failed answer proposes nothing -/

/-- The call that led from `s` to `s'` has left no action of the message's run pending, and no
sequence of confirmations makes one of an action that did not exist before the call change
anything. -/
structure ProposesNothing (out : Outside) (accountId messageId : Uuid) (s s' : Session) : Prop where
  pending : ∀ run a, runOf? s'.db accountId messageId = some run → a ∈ s'.db.toolActions →
    a.runId = run.id → s.db.toolActions.find? a.id = none → a.state ≠ .pendingConfirmation
  inert : ∀ (cs : List Confirmation) (c : Confirmation),
    s.db.toolActions.find? c.actionId = none →
      c.apply out (Confirmation.applyAll out cs s'.db) = Confirmation.applyAll out cs s'.db

/-- A call that has changed no action proposes nothing. -/
theorem ProposesNothing.of_eq {accountId messageId : Uuid} {s s' : Session}
    (h : s'.db.toolActions = s.db.toolActions) : ProposesNothing out accountId messageId s s' where
  pending run a _ hstored _ hcreated := by
    rw [h] at hstored
    rw [Table.find?_of_mem hstored] at hcreated
    simp at hcreated
  inert cs c hc := by
    apply Confirmation.apply_of_missing
    rw [Confirmation.find?_eq_none_iff, Confirmation.actionIds_applyAll, Confirmation.actionIds, h]
    exact (Confirmation.find?_eq_none_iff s.db c.actionId).mp hc

/-- **A failed answer proposes nothing** unless it fails with a `DomainError` on a decision of
which one state-changing call is refused after others that are not: exactly then the database
is left with a pending action of the failed run. -/
theorem answer_proposesNothing_iff {accountId conversationId messageId : Uuid}
    {context : Option AuditContext} {e : Exc} {s s' : Session}
    (h : Database.session (answer out accountId conversationId messageId context) s =
      (.error e, s')) :
    ProposesNothing out accountId messageId s s' ↔
      (e.IsDomain → ¬PartialProposal out accountId conversationId messageId s) := by
  obtain ⟨s₁, hm, rfl⟩ := Database.session_eq_error h
  by_cases he : e.IsDomain
  · rcases answer_error hm he with ⟨hnot, hactions⟩ | ⟨hunfinished, hdurable, run, a, hl⟩
    · refine iff_of_true (.of_eq ?_) fun _ => hnot
      split
      · exact hactions
      · rfl
    · rw [if_pos hdurable]
      refine iff_of_false ?_ fun hnot => hnot he hunfinished
      intro hnothing
      exact hnothing.pending run a hl.found hl.stored hl.ofRun hl.created hl.pending
  · rw [if_neg fun hd => he hd.isDomain]
    exact iff_of_true (.of_eq rfl) fun hd => absurd hd he

/-! ### A deletion without a target after a new memory -/

/-- The model proposes a new memory and the deletion of one that it does not identify. -/
def mixedDecision : ModelDecision where
  intent := .memoryManagement
  resultType := .confirmationRequired
  answer := "Uložím novou paměť a starou odstraním."
  uncertainty := .low
  toolCalls :=
    [⟨.memoryCreate, [("content", .str "Bydlím v Brně"), ("category", .str "personal_fact")]⟩,
     ⟨.memoryDelete, [("memory_id", .str "ta stará")]⟩]
  requiresConfirmation := true
  answer_bounds := by decide
  sources_bound := noSources_bound
  toolCalls_bound := by decide
  confirmed := fun _ => rfl

/-- A model that always decides so. -/
def mixedOutside : Outside := .sample (.sample 1767268800000000 [])
  (fun _ _ => .ok ⟨"resp-1", "", .null, none, none⟩) (fun _ => .ok mixedDecision)

/-- One message, not yet answered. -/
def mixedSession : Session where
  began := .utc 1767268800000000
  db := .sample (.singleton (.sample "Ulož, že bydlím v Brně, a starou adresu smaž."))

/-- The answer to the message. -/
def mixedAnswer : Except Exc OrchestrationResult × Session :=
  Database.session (answer mixedOutside 1 2 3 none) mixedSession

theorem mixedAnswer_def :
    Database.session (answer mixedOutside 1 2 3 none) mixedSession = mixedAnswer := rfl

/-- The answer fails, and the new memory is left pending. -/
theorem mixedAnswer_eq : ∃ d, mixedAnswer = (.error (.domain d), mixedAnswer.2) ∧
    ∃ run a, runOf? mixedAnswer.2.db 1 3 = some run ∧ a ∈ mixedAnswer.2.db.toolActions ∧
      a.runId = run.id ∧ a.state = .pendingConfirmation := by
  have h : ((Exc.refusal? mixedAnswer.1).any fun d => decide (d.code = "tool_arguments_invalid" ∧
      (runOf? mixedAnswer.2.db 1 3).any fun run => mixedAnswer.2.db.toolActions.rows.any fun a =>
        a.runId = run.id ∧ a.state = .pendingConfirmation)) = true := by
    decide +kernel
  obtain ⟨d, hd, hdecide⟩ := (Option.any_eq_true _ _).mp h
  obtain ⟨-, hany⟩ := of_decide_eq_true hdecide
  obtain ⟨run, hrun, hactions⟩ := (Option.any_eq_true _ _).mp hany
  obtain ⟨a, ha, hpending⟩ := List.any_eq_true.mp hactions
  obtain ⟨hof, hstate⟩ := of_decide_eq_true hpending
  exact ⟨d, Exc.eq_of_refusal? hd, run, a, hrun, ha, hof, hstate⟩

/-- A failed answer may propose something: the new memory before the deletion without a target
is committed and still awaits confirmation. -/
theorem answer_proposes : ¬∀ (out : Outside) (accountId conversationId messageId : Uuid)
    (context : Option AuditContext) (s s' : Session) (e : Exc),
    Database.session (answer out accountId conversationId messageId context) s = (.error e, s') →
      ProposesNothing out accountId messageId s s' := by
  intro h
  obtain ⟨d, hd, run, a, hrun, ha, hof, hstate⟩ := mixedAnswer_eq
  have hnothing := h _ _ _ _ _ _ _ _ (mixedAnswer_def.trans hd)
  exact hnothing.pending run a hrun ha hof rfl hstate

/-- The equivalence at that answer. -/
theorem answer_proposesNothing_iff_mixed :
    ProposesNothing mixedOutside 1 3 mixedSession mixedAnswer.2 ↔
      ¬PartialProposal mixedOutside 1 2 3 mixedSession := by
  obtain ⟨d, hd, -⟩ := mixedAnswer_eq
  have hiff := answer_proposesNothing_iff (mixedAnswer_def.trans hd)
  exact hiff.trans ⟨fun h => h trivial, fun h _ => h⟩

end KajovoDagmar.OrchestrationService
