import KajovoDagmar.Orchestration.Outcomes
import KajovoDagmar.Orchestration.Requests

/-! # What a context is built from

The rows behind a context and behind the results of the read-only tools: active memories and conversations of
the account, whatever the index of the search ranks.  `obtainDecision_ok` says which contexts the model was
given before it decided. -/

namespace KajovoDagmar.OrchestrationService

variable {out : Outside}

/-! ### The memories of a context -/

theorem contextMemories_ok {accountId : Uuid} {ranked : List Uuid} {memories : List MemoryItem} {s s' : Session}
    (h : contextMemories accountId ranked s = (.ok memories, s')) :
    ∀ m ∈ memories, m ∈ s.db.memoryItems ∧ m.accountId = accountId ∧ m.state = .active := by
  unfold contextMemories at h
  rw [Relation.select, Tx.gets_bind_apply] at h
  obtain rfl := Except.ok.inj (Prod.mk.inj h).1
  intro m hm
  have hrow := List.mem_of_mem_take hm
  split at hrow
  · have hsorted := (List.mem_insertionSort _).mp (List.mem_of_mem_take hrow)
    obtain ⟨hmem, hsel⟩ := List.mem_filter.mp hsorted
    obtain ⟨haccount, hstate, -⟩ := of_decide_eq_true hsel
    exact ⟨hmem, haccount, hstate⟩
  · obtain ⟨hmem, hsel⟩ := List.mem_filter.mp ((List.mem_insertionSort _).mp hrow)
    obtain ⟨haccount, hstate, -⟩ := of_decide_eq_true hsel
    exact ⟨hmem, haccount, hstate⟩

/-- What a context was built from. -/
structure Built (out : Outside) (db : Db) (accountId : Uuid) (conversation : Conversation)
    (messages : List ConversationMessage) (sourceMessage : ConversationMessage) (toolResults : List ToolResult)
    (verbosity : Json) (memories : List MemoryItem) (sources : List MemorySource) (bundle : ContextBundle) :
    Prop where
  setting : verbosity = (db.setting? "conversation" "verbosity").elim (.str "balanced")
    fun row => row.value.getD "value" (.str "balanced")
  active : ∀ m ∈ memories, m ∈ db.memoryItems ∧ m.accountId = accountId ∧ m.state = .active
  manifest : bundle.manifest =
    manifest out conversation sourceMessage (contextMessages messages 45000) memories toolResults
  prompt : bundle.prompt = contextPrompt out conversation bundle.manifest verbosity
    (contextMessages messages 45000) memories sources toolResults
  allowed : bundle.allowedSourceIds = allowedSources out (contextMessages messages 45000) memories toolResults

theorem buildContext_ok {accountId : Uuid} {conversation : Conversation} {messages : List ConversationMessage}
    {sourceMessage : ConversationMessage} {normalizedInput : String} {toolResults : List ToolResult}
    {bundle : ContextBundle} {s s' : Session}
    (h : buildContext out accountId conversation messages sourceMessage normalizedInput toolResults s =
      (.ok bundle, s')) :
    s' = s ∧ ∃ verbosity memories sources,
      Built out s.db accountId conversation messages sourceMessage toolResults verbosity memories sources bundle := by
  have hs : s = s' := (buildContext_reading _ _ _ _ _ _).of_apply h
  subst hs
  refine ⟨rfl, ?_⟩
  unfold buildContext at h
  rw [Tx.gets_bind_apply] at h
  obtain ⟨ranked, s₁, hranked, h₁⟩ := Tx.bind_eq_ok h
  obtain rfl : s = s₁ := (Tx.Keeps.ofExcept _ : Tx.Keeps (· = ·) _).of_apply hranked
  obtain ⟨memories, s₂, hmemories, h₂⟩ := Tx.bind_eq_ok h₁
  have hrows := contextMemories_ok hmemories
  have hs₂ : s = s₂ := ((Tx.Keeps.gets _).bind fun rows => Tx.Keeps.pure _ :
    Tx.Keeps (· = ·) (contextMemories accountId ranked)).of_apply hmemories
  subst hs₂
  rw [Relation.select, Tx.gets_bind_apply] at h₂
  rw [setting, Tx.gets_bind_apply] at h₂
  obtain rfl := Except.ok.inj (Prod.mk.inj h₂).1
  exact ⟨_, memories, _, rfl, hrows, rfl, rfl, rfl⟩

/-- Every turn of a loop that only reads is made in the session in which the loop begins. -/
theorem mem_of_reading {α β : Type} {f : α → Work β} (hf : ∀ a, Tx.Keeps (· = ·) (f a)) {as : List α}
    {s s' : Session} {bs : List β} (h : Tx.forEach f as s = (.ok bs, s')) :
    ∀ b ∈ bs, ∃ a ∈ as, f a s = (.ok b, s) := by
  induction as generalizing bs with
  | nil =>
    obtain rfl := Except.ok.inj (Prod.mk.inj h).1
    exact fun b hb => absurd hb List.not_mem_nil
  | cons a as ih =>
    obtain ⟨b, s₁, hfirst, h₁⟩ := Tx.bind_eq_ok h
    obtain rfl : s = s₁ := (hf a).of_apply hfirst
    obtain ⟨rest, s₂, hrest, h₂⟩ := Tx.bind_eq_ok h₁
    obtain ⟨hbs, rfl⟩ := Prod.mk.inj h₂
    obtain rfl := Except.ok.inj hbs
    intro x hx
    rcases List.mem_cons.mp hx with rfl | hx
    · exact ⟨a, List.mem_cons_self, hfirst⟩
    · obtain ⟨a', ha', hturn⟩ := ih hrest x hx
      exact ⟨a', List.mem_cons_of_mem a ha', hturn⟩

/-! ### The items of the read-only tools -/

/-- The item of a row that a search tool may return to an account. -/
inductive FoundItem (out : Outside) (db : Db) (accountId : Uuid) : Json → Prop where
  | memory (row : MemoryItem) (mem : row ∈ db.memoryItems) (account : row.accountId = accountId)
      (active : row.state = .active) : FoundItem out db accountId (memoryItemResult out row)
  | conversation (row : Conversation) (mem : row ∈ db.conversations) (account : row.accountId = accountId) :
      FoundItem out db accountId (conversationResult out row)

theorem toolItems_ok {accountId : Uuid} {name : ToolName} {query : String} {limit : ℕ} {items : List Json}
    {s s' : Session} (h : toolItems out accountId name query limit s = (.ok items, s')) :
    ∀ item ∈ items, FoundItem out s.db accountId item := by
  unfold toolItems at h
  rw [Tx.gets_bind_apply] at h
  obtain ⟨ranked, s₁, hranked, h₁⟩ := Tx.bind_eq_ok h
  obtain rfl : s = s₁ := (Tx.Keeps.ofExcept _ : Tx.Keeps (· = ·) _).of_apply hranked
  obtain ⟨-, h₂⟩ := Tx.raiseIf_bind_eq_ok h₁
  intro item hitem
  split at h₂
  · obtain ⟨rows, s₂, hrows, h₃⟩ := Tx.bind_eq_ok h₂
    unfold MemoryService.search Relation.select at hrows
    simp only at hrows
    rw [Tx.gets_bind_apply] at hrows
    obtain rfl := Except.ok.inj (Prod.mk.inj hrows).1
    obtain rfl := Except.ok.inj (Prod.mk.inj h₃).1
    obtain ⟨row, hrow, rfl⟩ := List.mem_map.mp hitem
    obtain ⟨hmem, hsel⟩ := List.mem_filter.mp ((List.mem_insertionSort _).mp (List.mem_of_mem_take hrow))
    obtain ⟨haccount, hstate, -⟩ := of_decide_eq_true hsel
    exact .memory row hmem haccount (List.mem_singleton.mp hstate)
  · obtain ⟨rows, s₂, hrows, h₃⟩ := Tx.bind_eq_ok h₂
    unfold HistoryService.search Relation.select at hrows
    simp only at hrows
    rw [Tx.gets_bind_apply, Tx.gets_bind_apply] at hrows
    obtain rfl := Except.ok.inj (Prod.mk.inj hrows).1
    obtain rfl := Except.ok.inj (Prod.mk.inj h₃).1
    obtain ⟨row, hrow, rfl⟩ := List.mem_map.mp hitem
    obtain ⟨hmem, hsel⟩ := List.mem_filter.mp ((List.mem_insertionSort _).mp (List.mem_of_mem_take hrow))
    obtain ⟨haccount, -⟩ := of_decide_eq_true hsel
    exact .conversation row hmem haccount

theorem executeReadTool_reading (accountId : Uuid) (call : ToolCallDecision) :
    Tx.Keeps (· = ·) (executeReadTool out accountId call) := by
  unfold executeReadTool
  extract_lets arguments query
  clear_value query arguments
  refine (Tx.Keeps.raiseIf _ _).bind fun _ => ?_
  refine (Tx.Keeps.orRaise _ _).bind fun rawLimit => ?_
  exact (toolItems_reading _ _ _ _).bind fun items => Tx.Keeps.pure _

theorem executeReadTool_ok {accountId : Uuid} {call : ToolCallDecision} {r : ToolResult} {s s' : Session}
    (h : executeReadTool out accountId call s = (.ok r, s')) :
    r.tool = call.name.text ∧ ∀ item ∈ r.items, FoundItem out s.db accountId item := by
  unfold executeReadTool at h
  simp only at h
  generalize normalize out (pyStr out ((Json.obj call.arguments).getD "query" (.str ""))) = query at h
  obtain ⟨-, h₁⟩ := Tx.raiseIf_bind_eq_ok h
  obtain ⟨rawLimit, -, h₂⟩ := Tx.orRaise_bind_eq_ok h₁
  obtain ⟨items, s₁, hitems, h₃⟩ := Tx.bind_eq_ok h₂
  obtain rfl := Except.ok.inj (Prod.mk.inj h₃).1
  exact ⟨rfl, toolItems_ok hitems⟩

/-- The results of the tools: each comes from a call of its own, made in the same session. -/
theorem executeReadTools_ok {accountId : Uuid} {calls : List ToolCallDecision} {results : List ToolResult}
    {ids : List String} {s s' : Session}
    (h : executeReadTools out accountId calls s = (.ok (results, ids), s')) :
    s' = s ∧ (ids = results.flatMap fun r => itemIds out r.items) ∧
      ∀ r ∈ results, ∃ call ∈ calls.take 5, executeReadTool out accountId call s = (.ok r, s) := by
  have hs : s = s' := (executeReadTools_reading _ _).of_apply h
  subst hs
  unfold executeReadTools at h
  obtain ⟨found, s₁, hfound, h₁⟩ := Tx.bind_eq_ok h
  obtain ⟨hresults, hids⟩ := Prod.mk.inj (Except.ok.inj (Prod.mk.inj h₁).1)
  refine ⟨rfl, ?_, ?_⟩
  · rw [← hids, hresults]
  · rw [← hresults]
    exact mem_of_reading (fun call => executeReadTool_reading _ _) hfound

/-! ### The calls of the model -/

/-- A call of the model with a context that returned a decision. -/
structure CallReturns (out : Outside) (model : ModelCatalogEntry) (prompt : String)
    (messages : List ConversationMessage) (decision : ModelDecision) (result : ChatResult) (call : ChatCall) :
    Prop where
  request : call.request = chatRequest out model prompt messages
  reply : call.reply = .ok result
  decision : out.validateDecision result.structured = .ok decision

/-- A model call that returns has asked once. -/
theorem callModel_ok {runId : Uuid} {provider : ProviderConfiguration} {model : ModelCatalogEntry}
    {prompt : String} {messages : List ConversationMessage} {decision : ModelDecision} {result : ChatResult}
    {s s' : Session}
    (h : callModel out runId provider model prompt messages s = (.ok (decision, result), s')) :
    out.providerRuntime s.db provider = none ∧
      ∃ call, s'.chats = s.chats ++ [call] ∧ CallReturns out model prompt messages decision result call := by
  have hchats : ∀ {α : Type} {m : Work α}, Tx.Keeps (fun s s' : Session => s'.chats = s.chats) m →
      ∀ {s s' : Session} {r : Except Exc α}, m s = (r, s') → s'.chats = s.chats := fun hm => hm.of_apply
  have : Std.Refl fun s s' : Session => s'.chats = s.chats := ⟨fun _ => rfl⟩
  have : IsTrans Session fun s s' => s'.chats = s.chats := ⟨fun _ _ _ h h' => h'.trans h⟩
  unfold callModel at h
  rw [Tx.gets_bind_apply] at h
  obtain ⟨u, s₁, hbroken, h₁⟩ := Tx.bind_eq_ok h
  obtain ⟨hnone, rfl⟩ := Tx.raiseSome_eq_ok hbroken
  refine ⟨hnone, ?_⟩
  obtain ⟨run, s₂, hrun, h₂⟩ := Tx.bind_eq_ok h₁
  obtain ⟨id, s₃, hid, h₃⟩ := Tx.bind_eq_ok h₂
  obtain ⟨u', s₄, hadd, h₄⟩ := Tx.bind_eq_ok h₃
  have hbefore : s₄.chats = s₁.chats :=
    (hchats (add_silent (fun _ _ h => h) _ _ _) hadd).trans
      ((hchats (newUuid_silent (fun _ _ h => h) _) hid).trans
        (hchats (updateRun_silent (fun _ _ h => h) _ _) hrun))
  rcases Tx.handle_cases h₄ with ⟨r, hattempt, hr⟩ | ⟨e, s₅, -, hfail⟩
  · obtain rfl := Except.ok.inj hr
    unfold attemptCall at hattempt
    obtain ⟨reply, s₅, hchat, h₅⟩ := Tx.bind_eq_ok hattempt
    obtain ⟨d, s₆, hvalid, h₆⟩ := Tx.bind_eq_ok h₅
    obtain ⟨hdecided, rfl⟩ := Prod.mk.inj hvalid
    obtain ⟨now, s₇, hnow, h₇⟩ := Tx.bind_eq_ok h₆
    obtain ⟨u'', s₈, hsave, h₈⟩ := Tx.bind_eq_ok h₇
    obtain ⟨hresult, rfl⟩ := Prod.mk.inj h₈
    obtain ⟨rfl, rfl⟩ := Prod.mk.inj (Except.ok.inj hresult)
    obtain ⟨hreply, rfl⟩ := Prod.mk.inj hchat
    refine ⟨⟨_, out.chat s₄.tick _⟩, ?_, rfl, hreply, ?_⟩
    · rw [← hbefore]
      exact (hchats (save_silent (fun _ _ h => h) _ _ _) hsave).trans
        (hchats (utcNow_silent (fun _ _ h => h) _) hnow)
    · cases hdecision : out.validateDecision reply.structured with
      | error errors =>
        rw [hdecision] at hdecided
        cases hdecided
      | ok d' =>
        rw [hdecision] at hdecided
        exact congrArg Except.ok (Except.ok.inj hdecided)
  · obtain ⟨u'', s₆, -, h₆⟩ := Tx.bind_eq_ok hfail
    cases (Prod.mk.inj h₆).1

/-- The contexts behind a decision: the model decided with the first one, or called read-only tools and decided
with a second one that has their results.  Every source of the decision is allowed. -/
theorem obtainDecision_ok {accountId : Uuid} {p : Prepared} {d : Decided} {s s' : Session}
    (h : obtainDecision out accountId p s = (.ok d, s')) :
    (∀ source ∈ d.decision.sources, source.sourceId ∈ d.allowedIds) ∧
    ∃ first result s₁, callModel out p.runId p.provider p.model p.bundle.prompt p.messages s =
        (.ok (first, result), s₁) ∧
      (readCalls first = [] ∧ d = ⟨first, usage result, p.bundle.allowedSourceIds⟩ ∧ s' = s₁ ∨
        readCalls first ≠ [] ∧ ∃ results ids bundle run s₂ second result',
          executeReadTools out accountId (readCalls first) s₁ = (.ok (results, ids), s₁) ∧
          buildContext out accountId p.conversation p.messages p.sourceMessage p.normalizedInput results s₁ =
            (.ok bundle, s₁) ∧
          updateRun out p.runId (fun r => { r with contextManifest := bundle.manifest }) s₁ = (.ok run, s₂) ∧
          callModel out p.runId p.provider p.model bundle.prompt p.messages s₂ = (.ok (second, result'), s') ∧
          d = ⟨second, mergeUsage (usage result) (usage result'),
            p.bundle.allowedSourceIds ++ ids ++ bundle.allowedSourceIds⟩) := by
  unfold obtainDecision at h
  obtain ⟨⟨first, result⟩, s₁, hfirst, h₁⟩ := Tx.bind_eq_ok h
  obtain ⟨decided, s₂, hsettle, h₂⟩ := Tx.bind_eq_ok h₁
  obtain ⟨u, s₃, hvalid, h₃⟩ := Tx.bind_eq_ok h₂
  obtain ⟨hd, rfl⟩ := Prod.mk.inj h₃
  obtain rfl := Except.ok.inj hd
  have hsources : (∀ source ∈ decided.decision.sources, source.sourceId ∈ decided.allowedIds) ∧ s₃ = s₂ := by
    unfold validateSources at hvalid
    by_cases hinvalid : decided.decision.sources.filter (fun s => s.sourceId ∉ decided.allowedIds) ≠ []
    · rw [Tx.raiseIf_pos hinvalid] at hvalid
      cases (Prod.mk.inj hvalid).1
    · rw [Tx.raiseIf_neg hinvalid] at hvalid
      refine ⟨fun source hsource => ?_, (Prod.mk.inj hvalid).2.symm⟩
      by_contra hnot
      exact List.filter_eq_nil_iff.mp (not_not.mp hinvalid) source hsource (decide_eq_true hnot)
  obtain ⟨hsources, rfl⟩ := hsources
  refine ⟨hsources, first, result, s₁, hfirst, ?_⟩
  unfold settleDecision at hsettle
  split at hsettle
  · next hread =>
    obtain ⟨hdecided, rfl⟩ := Prod.mk.inj hsettle
    exact .inl ⟨hread, (Except.ok.inj hdecided).symm, rfl⟩
  · next hread =>
    refine .inr ⟨hread, ?_⟩
    unfold obtainSecondDecision at hsettle
    obtain ⟨⟨results, ids⟩, s₄, htools, h₄⟩ := Tx.bind_eq_ok hsettle
    obtain rfl : s₁ = s₄ := (executeReadTools_reading _ _).of_apply htools
    obtain ⟨bundle, s₅, hbundle, h₅⟩ := Tx.bind_eq_ok h₄
    obtain rfl : s₁ = s₅ := (buildContext_reading _ _ _ _ _ _).of_apply hbundle
    obtain ⟨run, s₆, hupdate, h₆⟩ := Tx.bind_eq_ok h₅
    obtain ⟨⟨second, result'⟩, s₇, hsecond, h₇⟩ := Tx.bind_eq_ok h₆
    obtain ⟨-, h₈⟩ := Tx.raiseIf_bind_eq_ok h₇
    obtain ⟨hdecided, rfl⟩ := Prod.mk.inj h₈
    exact ⟨results, ids, bundle, run, s₆, second, result', htools, hbundle, hupdate, hsecond,
      (Except.ok.inj hdecided).symm⟩

/-! ### What is prepared -/

/-- What is prepared for a message. -/
theorem prepare_built {existing : Option OrchestrationRun} {accountId conversationId messageId : Uuid}
    {s s' : Session} {p : Prepared}
    (h : prepare out existing accountId conversationId messageId s = (.ok p, s')) :
    HistoryService.conversation? s.db accountId conversationId = some p.conversation ∧
      p.messages = s.db.messagesOf conversationId ∧
      primaryModel out s = (.ok (p.provider, p.model), s) ∧
      buildContext out accountId p.conversation p.messages p.sourceMessage p.normalizedInput [] s =
        (.ok p.bundle, s) ∧
      openRun out existing accountId conversationId messageId p.provider p.model p.bundle s =
        (.ok p.runId, s') := by
  unfold prepare at h
  rw [Tx.gets_bind_apply] at h
  obtain ⟨conversation, hconversation, h₁⟩ := Tx.orRaise_bind_eq_ok h
  rw [Tx.gets_bind_apply] at h₁
  obtain ⟨sourceMessage, -, h₂⟩ := Tx.orRaise_bind_eq_ok h₁
  obtain ⟨⟨provider, model⟩, s₃, hmodel, h₃⟩ := Tx.bind_eq_ok h₂
  obtain rfl : s = s₃ := primaryModel_reading.of_apply hmodel
  obtain ⟨bundle, s₄, hbundle, h₄⟩ := Tx.bind_eq_ok h₃
  obtain rfl : s = s₄ := (buildContext_reading _ _ _ _ _ _).of_apply hbundle
  obtain ⟨runId, s₅, hopen, h₅⟩ := Tx.bind_eq_ok h₄
  obtain ⟨hp, rfl⟩ := Prod.mk.inj h₅
  obtain rfl := Except.ok.inj hp
  exact ⟨hconversation, rfl, hmodel, hbundle, hopen⟩

end KajovoDagmar.OrchestrationService
