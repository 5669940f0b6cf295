import KajovoDagmar.Orchestration.Effects

/-! # What the model is asked

Every request that `answer` issues carries the last thirty messages of the whole conversation
(`answer_asked`), whichever message the run belongs to.  It ends with the source message exactly
when the conversation does (`answer_asksAbout_iff`). -/

namespace KajovoDagmar.OrchestrationService

variable {out : Outside}

/-! ### Work that only reads -/

theorem Reading.keeps {α : Type} {m : Work α} (h : Tx.Keeps (· = ·) m) {R : Session → Session → Prop}
    [Std.Refl R] : Tx.Keeps R m := by
  intro s
  rw [← h s]
  exact Std.Refl.refl s

theorem setting_reading (area key : String) (fallback : Json) :
    Tx.Keeps (· = ·) (setting area key fallback) :=
  Tx.Keeps.gets _

theorem primaryModel_reading : Tx.Keeps (· = ·) (primaryModel out) := by
  unfold primaryModel
  refine (Tx.Keeps.gets _).bind fun row => ?_
  refine (Tx.Keeps.raiseIf _ _).bind fun _ => ?_
  refine (Tx.Keeps.orRaise _ _).bind fun modelUuid => ?_
  refine (Tx.Keeps.gets _).bind fun models => ?_
  refine (Tx.Keeps.orRaise _ _).bind fun model => ?_
  refine (Tx.Keeps.raiseIf _ _).bind fun _ => ?_
  refine (Tx.Keeps.gets _).bind fun providers => ?_
  exact (Tx.Keeps.orRaise _ _).bind fun provider => Tx.Keeps.pure _

theorem buildContext_reading (accountId : Uuid) (conversation : Conversation)
    (messages : List ConversationMessage) (sourceMessage : ConversationMessage)
    (normalizedInput : String) (toolResults : List ToolResult) : Tx.Keeps (· = ·)
      (buildContext out accountId conversation messages sourceMessage normalizedInput toolResults) := by
  unfold buildContext contextMemories
  refine (Tx.Keeps.gets _).bind fun answer => ?_
  refine (Tx.Keeps.ofExcept _).bind fun ranked => ?_
  refine ((Tx.Keeps.gets _).bind fun rows => Tx.Keeps.pure _).bind fun memories => ?_
  refine (Tx.Keeps.gets _).bind fun sources => ?_
  exact (setting_reading _ _ _).bind fun verbosity => Tx.Keeps.pure _

theorem toolItems_reading (accountId : Uuid) (name : ToolName) (query : String) (limit : ℕ) :
    Tx.Keeps (· = ·) (toolItems out accountId name query limit) := by
  unfold toolItems MemoryService.search HistoryService.search
  refine (Tx.Keeps.gets _).bind fun answer => ?_
  refine (Tx.Keeps.ofExcept _).bind fun ranked => ?_
  refine (Tx.Keeps.raiseIf _ _).bind fun _ => ?_
  split
  · exact ((Tx.Keeps.gets _).bind fun rows => Tx.Keeps.pure _).bind fun rows => Tx.Keeps.pure _
  · refine Tx.Keeps.bind ?_ fun rows => Tx.Keeps.pure _
    exact (Tx.Keeps.gets _).bind fun messages => (Tx.Keeps.gets _).bind fun rows => Tx.Keeps.pure _

theorem executeReadTools_reading (accountId : Uuid) (calls : List ToolCallDecision) :
    Tx.Keeps (· = ·) (executeReadTools out accountId calls) := by
  have hcall : ∀ call, Tx.Keeps (· = ·) (executeReadTool out accountId call) := by
    intro call
    unfold executeReadTool
    extract_lets arguments query
    clear_value query arguments
    refine (Tx.Keeps.raiseIf _ _).bind fun _ => ?_
    refine (Tx.Keeps.orRaise _ _).bind fun rawLimit => ?_
    exact (toolItems_reading _ _ _ _).bind fun items => Tx.Keeps.pure _
  exact (Tx.Keeps.forEach hcall).bind fun results => Tx.Keeps.pure _

theorem replay_reading (run : OrchestrationRun) : Tx.Keeps (· = ·) (replay out run) := by
  unfold replay
  refine (Tx.Keeps.gets _).bind fun row => ?_
  refine (Tx.Keeps.orRaise _ _).bind fun message => ?_
  refine (Tx.Keeps.gets _).bind fun actions => ?_
  exact (Tx.Keeps.orRaise _ _).bind fun decision => Tx.Keeps.pure _

/-! ### Work that calls no model -/

section silent

variable {R : Session → Session → Prop} [Std.Refl R] [IsTrans Session R]
  (hR : ∀ s s' : Session, s'.chats = s.chats → R s s')

include hR

omit [Std.Refl R] [IsTrans Session R] in
theorem utcNow_silent (rt : Runtime) : Tx.Keeps R (utcNow rt) := fun _ => hR _ _ rfl

omit [Std.Refl R] [IsTrans Session R] in
theorem newUuid_silent (rt : Runtime) : Tx.Keeps R (newUuid rt) := fun _ => hR _ _ rfl

omit [Std.Refl R] [IsTrans Session R] in
theorem add_silent {K : Type} {key : K → ℕ} (rt : Runtime) (rel : Relation key) (r : K) :
    Tx.Keeps R (rel.add rt r) := by
  intro s
  rcases hs : rel.add rt r s with ⟨e | u, s'⟩
  · exact hR _ _ (congrArg Session.chats (Relation.add_error hs).1)
  · obtain ⟨t, -, rfl⟩ := Relation.add_eq_ok hs
    exact hR _ _ rfl

omit [Std.Refl R] [IsTrans Session R] in
theorem save_silent {K : Type} {key : K → ℕ} (rt : Runtime) (rel : Relation key) (r : K) :
    Tx.Keeps R (rel.save rt r) := by
  intro s
  cases hr : rt.rejectsUpdate (rel.row r) with
  | none =>
      rw [Relation.save_of_accepted hr]
      exact hR _ _ rfl
  | some c =>
      rw [Relation.save_of_rejected hr]
      exact hR _ _ rfl

theorem append_silent (rt : Runtime) (context : AuditContext) (eventType result : String)
    (targetType : Option String) (targetId : Option Uuid) (details : List (String × Json)) :
    Tx.Keeps R (AuditService.append rt context eventType result targetType targetId details) := by
  unfold AuditService.append
  refine (Tx.Keeps.gets _).bind fun previous => ?_
  refine (utcNow_silent hR _).bind fun occurredAt => ?_
  exact (add_silent hR _ _ _).bind fun _ => Tx.Keeps.pure _

theorem updateRun_silent (runId : Uuid) (f : OrchestrationRun → OrchestrationRun) :
    Tx.Keeps R (updateRun out runId f) := by
  unfold updateRun
  refine (Tx.Keeps.gets _).bind fun row => ?_
  refine (Tx.Keeps.orRaise _ _).bind fun run => ?_
  exact (save_silent hR _ _ _).bind fun _ => Tx.Keeps.pure _

theorem openRun_silent (existing : Option OrchestrationRun) (accountId conversationId messageId : Uuid)
    (provider : ProviderConfiguration) (model : ModelCatalogEntry) (bundle : ContextBundle) :
    Tx.Keeps R (openRun out existing accountId conversationId messageId provider model bundle) := by
  cases existing with
  | some run => exact Tx.Keeps.pure _
  | none =>
      refine (newUuid_silent hR _).bind fun id => ?_
      exact (add_silent hR _ _ _).bind fun _ => Tx.Keeps.pure _

theorem createFrom_silent (runId accountId : Uuid) (conversation : Conversation)
    (sourceMessage : ConversationMessage) (index : ℕ) (calls : List ToolCallDecision) :
    Tx.Keeps R (createFrom out runId accountId conversation sourceMessage index calls) := by
  induction calls generalizing index with
  | nil => exact Tx.Keeps.pure _
  | cons call calls ih =>
      have hone : Tx.Keeps R
          (createAction out runId accountId conversation sourceMessage index call) := by
        refine (Tx.Reads.keeps (normalizeAction_reads _ _ _ _)).bind fun n => ?_
        refine (utcNow_silent hR _).bind fun now => ?_
        refine (newUuid_silent hR _).bind fun id => ?_
        refine (Tx.Keeps.gets _).bind fun began => ?_
        exact (add_silent hR _ _ _).bind fun _ => Tx.Keeps.pure _
      exact hone.bind fun a => (ih (index + 1)).bind fun actions => Tx.Keeps.pure _

theorem createActions_silent (runId accountId : Uuid) (conversation : Conversation)
    (sourceMessage : ConversationMessage) (decision : ModelDecision) :
    Tx.Keeps R (createActions out runId accountId conversation sourceMessage decision) := by
  unfold createActions
  exact (Tx.Keeps.raiseIf _ _).bind fun _ => createFrom_silent hR _ _ _ _ _ _

theorem addAssistantTurn_silent (rt : Runtime) (conversationId : Uuid) (content key : String)
    (runId : Uuid) (interrupted : Bool) :
    Tx.Keeps R (ConversationService.addAssistantTurn rt conversationId content key runId
      interrupted) := by
  unfold ConversationService.addAssistantTurn ConversationService.byIdempotencyKey
    ConversationService.appendMessage
  refine (Tx.Keeps.gets _).bind fun row => ?_
  refine (Tx.Keeps.orRaise _ _).bind fun conversation => ?_
  refine ((Tx.Keeps.gets _).bind fun rows => Tx.Keeps.pure _).bind fun existing => ?_
  cases existing with
  | some message => exact Tx.Keeps.pure _
  | none =>
      refine (Tx.Keeps.gets _).bind fun sequence => ?_
      refine (newUuid_silent hR _).bind fun id => (utcNow_silent hR _).bind fun now => ?_
      refine Tx.Keeps.bind ?_ fun _ => Tx.Keeps.pure _
      refine (add_silent hR _ _ _).bind fun _ => (utcNow_silent hR _).bind fun now => ?_
      exact (save_silent hR _ _ _).bind fun _ => Tx.Keeps.pure _

theorem conclude_silent (p : Prepared) (d : Decided) (actions : List ToolAction)
    (context : AuditContext) : Tx.Keeps R (conclude out p d actions context) := by
  unfold conclude
  refine (updateRun_silent hR _ _).bind fun _ => ?_
  refine (addAssistantTurn_silent hR _ _ _ _ _ _).bind fun message => ?_
  refine (utcNow_silent hR _).bind fun now => (updateRun_silent hR _ _).bind fun run => ?_
  exact (append_silent hR _ _ _ _ _ _ _).bind fun _ => Tx.Keeps.pure _

theorem failRun_silent (runId : Uuid) (context : AuditContext) (e : Exc) :
    Tx.Keeps R (failRun out runId context e) := by
  unfold failRun
  refine (utcNow_silent hR _).bind fun now => (updateRun_silent hR _ _).bind fun run => ?_
  exact (append_silent hR _ _ _ _ _ _ _).bind fun _ => Tx.Keeps.pure _

end silent

/-! ### The requests of an answer -/

/-- Between two sessions the model was asked only about these messages. -/
def Asked (out : Outside) (messages : List ConversationMessage) (s s' : Session) : Prop :=
  ∃ calls, s'.chats = s.chats ++ calls ∧
    ∀ call ∈ calls, ∃ model prompt, call.request = chatRequest out model prompt messages

namespace Asked

variable {messages : List ConversationMessage}

theorem of_eq (s s' : Session) (h : s'.chats = s.chats) : Asked out messages s s' :=
  ⟨[], by rw [h, List.append_nil], by simp⟩

instance : Std.Refl (Asked out messages) := ⟨fun s => of_eq s s rfl⟩

instance : IsTrans Session (Asked out messages) where
  trans s₁ s₂ s₃ h₁ h₂ := by
    obtain ⟨calls, hc, hcalls⟩ := h₁
    obtain ⟨more, hm, hmore⟩ := h₂
    refine ⟨calls ++ more, by rw [hm, hc, List.append_assoc], ?_⟩
    intro call h
    rcases List.mem_append.mp h with h | h
    · exact hcalls call h
    · exact hmore call h

end Asked

theorem callModel_asked (runId : Uuid) (provider : ProviderConfiguration) (model : ModelCatalogEntry)
    (prompt : String) (messages : List ConversationMessage) :
    Tx.Keeps (Asked out messages) (callModel out runId provider model prompt messages) := by
  have hchat : Tx.Keeps (Asked out messages) (chat out (chatRequest out model prompt messages)) := by
    intro s
    refine ⟨[_], rfl, ?_⟩
    intro call hcall
    obtain rfl := List.mem_singleton.mp hcall
    exact ⟨model, prompt, rfl⟩
  unfold callModel attemptCall failAttempt
  refine (Tx.Keeps.gets _).bind fun broken => ?_
  refine (Tx.Keeps.raiseSome _).bind fun _ => ?_
  refine (updateRun_silent Asked.of_eq _ _).bind fun run => ?_
  refine (newUuid_silent Asked.of_eq _).bind fun id => ?_
  refine (add_silent Asked.of_eq _ _ _).bind fun _ => ?_
  refine Tx.Keeps.handle ?_ fun e => ?_
  · refine hchat.bind fun result => ?_
    refine (Tx.Keeps.ofExcept _).bind fun decision => ?_
    refine (utcNow_silent Asked.of_eq _).bind fun now => ?_
    exact (save_silent Asked.of_eq _ _ _).bind fun _ => Tx.Keeps.pure _
  · refine Tx.Keeps.bind ?_ fun _ => Tx.Keeps.raise _
    exact (utcNow_silent Asked.of_eq _).bind fun now => save_silent Asked.of_eq _ _ _

theorem obtainDecision_asked (accountId : Uuid) (p : Prepared) :
    Tx.Keeps (Asked out p.messages) (obtainDecision out accountId p) := by
  unfold obtainDecision settleDecision obtainSecondDecision validateSources
  refine (callModel_asked _ _ _ _ _).bind fun first => ?_
  refine Tx.Keeps.bind ?_ fun decided => (Tx.Keeps.raiseIf _ _).bind fun _ => Tx.Keeps.pure _
  split
  · exact Tx.Keeps.pure _
  · refine (Reading.keeps (executeReadTools_reading _ _)).bind fun found => ?_
    refine (Reading.keeps (buildContext_reading _ _ _ _ _ _)).bind fun bundle => ?_
    refine (updateRun_silent Asked.of_eq _ _).bind fun _ => ?_
    refine (callModel_asked _ _ _ _ _).bind fun second => ?_
    exact (Tx.Keeps.raiseIf _ _).bind fun _ => Tx.Keeps.pure _

theorem answerPrepared_asked (accountId : Uuid) (p : Prepared) (context : AuditContext) :
    Tx.Keeps (Asked out p.messages) (answerPrepared out accountId p context) := by
  unfold answerPrepared
  refine (obtainDecision_asked _ _).bind fun d => ?_
  refine (createActions_silent Asked.of_eq _ _ _ _ _).bind fun actions => ?_
  exact conclude_silent Asked.of_eq _ _ _ _

/-- The source message, as `prepare` takes it from the conversation. -/
def sourceMessage? (db : Db) (conversationId messageId : Uuid) : Option ConversationMessage :=
  ((db.messagesOf conversationId).find? fun m => m.id = messageId).filter fun m => m.role = .user

/-- Preparing calls no model, and takes the messages of the conversation. -/
theorem prepare_messages {existing : Option OrchestrationRun}
    {accountId conversationId messageId : Uuid} {s s' : Session} {p : Prepared}
    (h : prepare out existing accountId conversationId messageId s = (.ok p, s')) :
    p.messages = s.db.messagesOf conversationId ∧
      sourceMessage? s.db conversationId messageId = some p.sourceMessage := by
  unfold prepare at h
  obtain ⟨row, s₁, h₁, h⟩ := Tx.bind_eq_ok h
  obtain ⟨-, rfl⟩ := Prod.mk.inj h₁
  obtain ⟨conversation, s₂, h₂, h⟩ := Tx.bind_eq_ok h
  have hs₂ : s = s₂ := (Tx.Keeps.orRaise _ _ : Tx.Keeps (· = ·) _).of_apply h₂
  subst hs₂
  rw [Tx.gets_bind_apply] at h
  obtain ⟨sourceMessage, s₃, h₃, h⟩ := Tx.bind_eq_ok h
  have hsource : sourceMessage? s.db conversationId messageId = some sourceMessage := by
    unfold sourceMessage?
    cases hf : ((s.db.messagesOf conversationId).find? fun m => m.id = messageId).filter
        fun m => m.role = .user with
    | none => simp [hf] at h₃
    | some m =>
        rw [hf, Tx.orRaise_some, Tx.pure_apply] at h₃
        rw [Except.ok.inj (Prod.mk.inj h₃).1]
  obtain ⟨⟨provider, model⟩, s₄, -, h⟩ := Tx.bind_eq_ok h
  obtain ⟨bundle, s₅, -, h⟩ := Tx.bind_eq_ok h
  obtain ⟨runId, s₆, -, h⟩ := Tx.bind_eq_ok h
  obtain rfl := Except.ok.inj (Prod.mk.inj h).1
  exact ⟨rfl, hsource⟩

theorem prepare_silent (existing : Option OrchestrationRun) (accountId conversationId messageId : Uuid) :
    Tx.Keeps (fun s s' => s'.chats = s.chats)
      (prepare out existing accountId conversationId messageId) := by
  have : Std.Refl fun s s' : Session => s'.chats = s.chats := ⟨fun _ => rfl⟩
  have : IsTrans Session fun s s' => s'.chats = s.chats := ⟨fun _ _ _ h h' => h'.trans h⟩
  unfold prepare
  refine (Tx.Keeps.gets _).bind fun row => ?_
  refine (Tx.Keeps.orRaise _ _).bind fun conversation => ?_
  refine (Tx.Keeps.gets _).bind fun messages => ?_
  refine (Tx.Keeps.orRaise _ _).bind fun sourceMessage => ?_
  refine (Reading.keeps primaryModel_reading).bind fun selected => ?_
  refine (Reading.keeps (buildContext_reading _ _ _ _ _ _)).bind fun bundle => ?_
  exact (openRun_silent (fun _ _ h => h) _ _ _ _ _ _ _).bind fun runId => Tx.Keeps.pure _

/-- A call of `answer` either calls no model or asks it about the messages of the
conversation, of which the source message is one. -/
theorem answer_asked {accountId conversationId messageId : Uuid} {context : Option AuditContext}
    {r : Except Exc OrchestrationResult} {s s' : Session}
    (h : answer out accountId conversationId messageId context s = (r, s')) :
    s'.chats = s.chats ∨ (∃ source, sourceMessage? s.db conversationId messageId = some source) ∧
      Asked out (s.db.messagesOf conversationId) s s' := by
  rcases answer_cases h with ⟨run, -, -, hreplay⟩ | ⟨run, e, -, -, -, rfl⟩ | ⟨-, h⟩
  · left
    rw [← (replay_reading run).of_apply hreplay]
  · exact .inl rfl
  unfold answerAnew at h
  rcases hp : prepare out (runOf? s.db accountId messageId) accountId conversationId messageId s with
    ⟨e | p, s₂⟩
  · rw [Tx.bind_of_error hp] at h
    left
    rw [← (Prod.mk.inj h).2]
    exact (prepare_silent _ _ _ _).of_apply hp
  rw [Tx.bind_of_ok hp] at h
  obtain ⟨hmessages, hsource⟩ := prepare_messages hp
  have hchats : s₂.chats = s.chats := (prepare_silent _ _ _ _).of_apply hp
  right
  refine ⟨⟨_, hsource⟩, ?_⟩
  rw [← hmessages]
  refine IsTrans.trans _ s₂ _ (Asked.of_eq _ _ hchats) (Tx.Keeps.of_apply ?_ h)
  refine (answerPrepared_asked _ _ _).handle fun e => ?_
  exact (failRun_silent Asked.of_eq _ _ _).bind fun _ => Tx.Keeps.raise _

/-! ### The question that is answered -/

/-- The calls of the model between two sessions. -/
def asked (s s' : Session) : List ChatCall := s'.chats.drop s.chats.length

/-- The source message is the last message of the request. -/
def AsksAbout (db : Db) (conversationId messageId : Uuid) (request : ChatRequest) : Prop :=
  ∃ source, sourceMessage? db conversationId messageId = some source ∧
    request.messages.getLast? = some ⟨source.role.text, source.content⟩

/-- The last message of the conversation is the source message, or says the same. -/
def EndsWith (db : Db) (conversationId messageId : Uuid) : Prop :=
  ∃ source last, sourceMessage? db conversationId messageId = some source ∧
    (db.messagesOf conversationId).getLast? = some last ∧ last.role = source.role ∧
    last.content = source.content

theorem role_text_inj {r r' : MessageRole} (h : r.text = r'.text) : r = r' := by
  cases r <;> cases r' <;> simp [MessageRole.text] at h ⊢

theorem getLast?_lastThirty (messages : List ConversationMessage) :
    (lastThirty messages).getLast? = messages.getLast? := by
  unfold lastThirty
  rw [List.getLast?_drop]
  split
  · next h =>
    have hlength : messages.length = 0 := by omega
    rw [List.length_eq_zero_iff.mp hlength]
    rfl
  · rfl

/-- A request ends with the last message of the conversation. -/
theorem getLast?_chatRequest (model : ModelCatalogEntry) (prompt : String)
    {messages : List ConversationMessage} {last : ConversationMessage}
    (h : messages.getLast? = some last) :
    (chatRequest out model prompt messages).messages.getLast? = some ⟨last.role.text, last.content⟩ := by
  have hlast := (getLast?_lastThirty messages).trans h
  unfold chatRequest
  rw [List.getLast?_cons, List.getLast?_map, hlast]
  rfl

/-- **The question that is answered**: a request that `answer` issues ends with the source
message exactly when the conversation does. -/
theorem answer_asksAbout_iff {accountId conversationId messageId : Uuid}
    {context : Option AuditContext} {r : Except Exc OrchestrationResult} {s s' : Session}
    (h : Database.session (answer out accountId conversationId messageId context) s = (r, s'))
    {call : ChatCall} (hcall : call ∈ asked s s') :
    AsksAbout s.db conversationId messageId call.request ↔ EndsWith s.db conversationId messageId := by
  obtain ⟨s₁, hm, hchats⟩ : ∃ s₁, answer out accountId conversationId messageId context s = (r, s₁) ∧
      s'.chats = s₁.chats := by
    rcases hm : answer out accountId conversationId messageId context s with ⟨e | a, s₁⟩
    · by_cases hd : e.Durable
      · rw [Database.session_of_durable hm hd] at h
        exact ⟨s₁, by rw [(Prod.mk.inj h).1], by rw [(Prod.mk.inj h).2]⟩
      · rw [Database.session_of_rollback hm hd] at h
        exact ⟨s₁, by rw [(Prod.mk.inj h).1], by rw [← (Prod.mk.inj h).2]; rfl⟩
    · rw [Database.session_of_ok hm] at h
      exact ⟨s₁, by rw [(Prod.mk.inj h).1], by rw [(Prod.mk.inj h).2]⟩
  unfold asked at hcall
  rw [hchats] at hcall
  rcases answer_asked hm with hnone | ⟨⟨source, hsource⟩, calls, hcalls, hasked⟩
  · rw [hnone, List.drop_length] at hcall
    simp at hcall
  rw [hcalls, List.drop_left] at hcall
  obtain ⟨model, prompt, hrequest⟩ := hasked call hcall
  have hmem : source ∈ s.db.messagesOf conversationId :=
    List.mem_of_find?_eq_some (Option.filter_eq_some_iff.mp hsource).1
  obtain ⟨last, hlast⟩ : ∃ last, (s.db.messagesOf conversationId).getLast? = some last :=
    Option.isSome_iff_exists.mp (List.getLast?_isSome.mpr (List.ne_nil_of_mem hmem))
  have hend : call.request.messages.getLast? = some ⟨last.role.text, last.content⟩ := by
    rw [hrequest]
    exact getLast?_chatRequest model prompt hlast
  constructor
  · rintro ⟨source', hs, heq⟩
    obtain ⟨hrole, hcontent⟩ := ChatMessage.mk.inj (Option.some.inj (hend.symm.trans heq))
    exact ⟨source', last, hs, hlast, role_text_inj hrole, hcontent⟩
  · rintro ⟨source', last', hs, hl, hrole, hcontent⟩
    obtain rfl := Option.some.inj (hlast.symm.trans hl)
    exact ⟨source', hs, by rw [hend, hrole, hcontent]⟩

/-! ### An earlier turn answered again -/

/-- Two turns of which the first has not been answered. -/
def earlierSession : Session where
  began := .utc 1767268800000000
  db := .sample
    { rows :=
        [.sample "Kdy mám zubaře?",
         { id := 7, conversationId := 2, sequence := 2, role := .user, inputMode := .text
           content := "Jaké je hlavní město Francie?", idempotencyKey := "turn-0000000000000002" }]
      nodup := by decide }

/-- A provider that does not answer in time. -/
def silentOutside : Outside := .sample (.sample 1767268800000000 [])
  (fun _ _ => .error (.domain ⟨"provider_timeout", "Externí služba neodpověděla včas.", 504, none, false⟩))
  (fun _ => .error .null)

/-- The answer to the first turn. -/
def earlierAnswer : Except Exc OrchestrationResult × Session :=
  Database.session (answer silentOutside 1 2 3 none) earlierSession

theorem earlierAnswer_def : Database.session (answer silentOutside 1 2 3 none) earlierSession =
    (earlierAnswer.1, earlierAnswer.2) := Prod.mk.eta.symm

/-- The one request that is issued ends with the second turn. -/
theorem earlierAnswer_asked : (asked earlierSession earlierAnswer.2).map
    (fun call => call.request.messages.getLast?) = [some ⟨"user", "Jaké je hlavní město Francie?"⟩] := by
  decide +kernel

theorem earlierSession_source : sourceMessage? earlierSession.db 2 3 = some (.sample "Kdy mám zubaře?") := by
  decide +kernel

/-- The model is not always asked the question it answers: the request for the first turn ends
with the second one. -/
theorem answer_asksAnother : ¬∀ (out : Outside) (accountId conversationId messageId : Uuid)
    (context : Option AuditContext) (s s' : Session) (r : Except Exc OrchestrationResult),
    Database.session (answer out accountId conversationId messageId context) s = (r, s') →
      ∀ call ∈ asked s s', AsksAbout s.db conversationId messageId call.request := by
  intro h
  have hasked := earlierAnswer_asked
  obtain ⟨call, hcall⟩ : ∃ call, asked earlierSession earlierAnswer.2 = [call] :=
    List.length_eq_one_iff.mp (by simpa using congrArg List.length hasked)
  have habout := h _ _ _ _ _ _ _ _ earlierAnswer_def call (by rw [hcall]; exact List.mem_singleton_self _)
  obtain ⟨source, hsource, hlast⟩ := habout
  obtain rfl := Option.some.inj (earlierSession_source.symm.trans hsource)
  rw [hcall, List.map_singleton, List.singleton_inj, hlast] at hasked
  have hcontent : "Kdy mám zubaře?" = "Jaké je hlavní město Francie?" :=
    congrArg ChatMessage.content (Option.some.inj hasked)
  simp at hcontent

/-- The equivalence at that request. -/
theorem answer_asksAbout_iff_earlier : ∃ call ∈ asked earlierSession earlierAnswer.2,
    (AsksAbout earlierSession.db 2 3 call.request ↔ EndsWith earlierSession.db 2 3) := by
  obtain ⟨call, hcall⟩ : ∃ call, asked earlierSession earlierAnswer.2 = [call] :=
    List.length_eq_one_iff.mp (by simpa using congrArg List.length earlierAnswer_asked)
  have hmem : call ∈ asked earlierSession earlierAnswer.2 := by rw [hcall]; exact List.mem_singleton_self _
  exact ⟨call, hmem, answer_asksAbout_iff earlierAnswer_def hmem⟩

end KajovoDagmar.OrchestrationService
