import KajovoDagmar.Orchestration.Bundles

/-! # Where the sources of a decision come from

A decision is stored only after its sources were found among the identifiers of its contexts and of the results of
its read-only tools (`sources_of_answer`). -/

namespace KajovoDagmar.OrchestrationService

variable {out : Outside}

/-! ### What may be cited -/

/-- A call of the model whose prompt has a message among those of the conversation. -/
def InPrompt (out : Outside) (conversation : Conversation) (messages : List ConversationMessage)
    (m : ConversationMessage) (call : ChatCall) : Prop :=
  m ∈ contextMessages messages 45000 ∧ ∃ model manifest verbosity memories sources toolResults,
    call.request = chatRequest out model (contextPrompt out conversation manifest verbosity
      (contextMessages messages 45000) memories sources toolResults) messages

/-- Between two sessions a read-only tool, called by a decision of the model, returned an item. -/
def Returned (out : Outside) (accountId : Uuid) (s s' : Session) (item : Json) : Prop :=
  ∃ call ∈ asked s s', ∃ result first, call.reply = .ok result ∧
    out.validateDecision result.structured = .ok first ∧
    ∃ tool ∈ (readCalls first).take 5, ∃ s₁ r, targets s₁.db = targets s.db ∧
      executeReadTool out accountId tool s₁ = (.ok r, s₁) ∧ item ∈ r.items

/-- The identifier of a row that the account's model may cite: a message of the conversation that was in the
prompt, an active memory, or a row that a read-only tool returned. -/
inductive Citable (out : Outside) (accountId conversationId : Uuid) (s s' : Session) : String → Prop where
  | message (c : Conversation) (m : ConversationMessage) (call : ChatCall)
      (own : HistoryService.conversation? s.db accountId conversationId = some c)
      (mem : m ∈ s.db.messagesOf conversationId) (asked : call ∈ asked s s')
      (prompted : InPrompt out c (s.db.messagesOf conversationId) m call) :
      Citable out accountId conversationId s s' (out.strUuid m.id)
  | memory (m : MemoryItem) (mem : m ∈ s.db.memoryItems) (own : m.accountId = accountId)
      (active : m.state = .active) : Citable out accountId conversationId s s' (out.strUuid m.id)
  | foundMemory (m : MemoryItem) (mem : m ∈ s.db.memoryItems) (own : m.accountId = accountId)
      (returned : Returned out accountId s s' (memoryItemResult out m)) :
      Citable out accountId conversationId s s' (out.strUuid m.id)
  | foundConversation (c : Conversation) (mem : c ∈ s.db.conversations) (own : c.accountId = accountId)
      (returned : Returned out accountId s s' (conversationResult out c)) :
      Citable out accountId conversationId s s' (out.strUuid c.id)

/-! ### The identifiers of items -/

/-- The identifiers that items carry are those of their rows. -/
theorem mem_itemIds {db : Db} {accountId : Uuid} {items : List Json} {id : String}
    (hitems : ∀ item ∈ items, FoundItem out db accountId item) (h : id ∈ itemIds out items) :
    (∃ m ∈ db.memoryItems, m.accountId = accountId ∧ memoryItemResult out m ∈ items ∧ id = out.strUuid m.id) ∨
      ∃ c ∈ db.conversations, c.accountId = accountId ∧ conversationResult out c ∈ items ∧
        id = out.strUuid c.id := by
  obtain ⟨item, hitem, hid⟩ := List.mem_filterMap.mp h
  obtain ⟨j, hj, rfl⟩ := Option.map_eq_some_iff.mp hid
  obtain ⟨hget, -⟩ := Option.filter_eq_some_iff.mp hj
  cases hitems item hitem with
  | memory m hmem hown =>
    obtain rfl : Json.str (out.strUuid m.id) = j := Option.some.inj hget
    exact .inl ⟨m, hmem, hown, hitem, rfl⟩
  | conversation c hmem hown =>
    obtain rfl : Json.str (out.strUuid c.id) = j := Option.some.inj hget
    exact .inr ⟨c, hmem, hown, hitem, rfl⟩

theorem mem_allowedSources {selected : List ConversationMessage} {memories : List MemoryItem}
    {toolResults : List ToolResult} {id : String} (h : id ∈ allowedSources out selected memories toolResults) :
    (∃ m ∈ selected, id = out.strUuid m.id) ∨ (∃ m ∈ memories, id = out.strUuid m.id) ∨
      ∃ r ∈ toolResults, id ∈ itemIds out r.items := by
  rcases List.mem_append.mp h with h | h
  · rcases List.mem_append.mp h with h | h
    · obtain ⟨m, hm, rfl⟩ := List.mem_map.mp h
      exact .inl ⟨m, hm, rfl⟩
    · obtain ⟨m, hm, rfl⟩ := List.mem_map.mp h
      exact .inr (.inl ⟨m, hm, rfl⟩)
  · exact .inr (.inr (List.mem_flatMap.mp h))

theorem mem_of_takeWhileFits {limit : ℕ} {m : ConversationMessage} :
    ∀ {messages : List ConversationMessage} {used : ℕ} {selected : Bool},
      m ∈ takeWhileFits limit used selected messages → m ∈ messages
  | [], _, _, h => h
  | x :: messages, used, selected, h => by
    unfold takeWhileFits at h
    simp only at h
    split at h
    · exact absurd h List.not_mem_nil
    · rcases List.mem_cons.mp h with rfl | h
      · exact List.mem_cons_self
      · exact List.mem_cons_of_mem x (mem_of_takeWhileFits h)

theorem mem_of_contextMessages {messages : List ConversationMessage} {limit : ℕ} {m : ConversationMessage}
    (h : m ∈ contextMessages messages limit) : m ∈ messages :=
  List.mem_reverse.mp (mem_of_takeWhileFits (List.mem_reverse.mp h))

/-! ### The sources of a decision -/

/-- The calls between two sessions, when those before are kept. -/
theorem mem_asked {s s' : Session} {calls : List ChatCall} {call : ChatCall}
    (h : s'.chats = s.chats ++ calls) : call ∈ asked s s' ↔ call ∈ calls := by
  rw [asked, h, List.drop_left]

/-- Every source of a decision may be cited. -/
theorem citable_of_decided {accountId conversationId messageId : Uuid} {existing : Option OrchestrationRun}
    {p : Prepared} {d : Decided} {s s₀ s₁ s' : Session}
    (hp : prepare out existing accountId conversationId messageId s = (.ok p, s₀))
    (htargets : targets s₀.db = targets s.db) (hd : obtainDecision out accountId p s₀ = (.ok d, s₁))
    (hs' : s'.chats = s₁.chats) :
    ∀ source ∈ d.decision.sources, Citable out accountId conversationId s s' source.sourceId := by
  obtain ⟨hconversation, hmessages, -, hbundle, -⟩ := prepare_built hp
  obtain ⟨-, verbosity, memories, sources, hbuilt⟩ := buildContext_ok hbundle
  have hchats₀ : s₀.chats = s.chats := (prepare_silent _ _ _ _).of_apply hp
  obtain ⟨hallowed, first, result, s₂, hfirst, hcases⟩ := obtainDecision_ok hd
  obtain ⟨-, call, hcall, hreturns⟩ := callModel_ok hfirst
  rw [hchats₀] at hcall
  have htargets₂ : targets s₂.db = targets s.db := by
    have hcalm : Same calm s₀ s₂ := (callModel_keeps hiddenCall_calm _ _ _ _ _).of_apply hfirst
    simp only [Same, calm, Prod.mk.injEq] at hcalm
    exact hcalm.2.2.2.2.trans htargets
  have hmemories₂ : s₂.db.memoryItems = s.db.memoryItems := congrArg Prod.fst htargets₂
  have hconversations₂ : s₂.db.conversations = s.db.conversations := congrArg (fun t => t.2.1) htargets₂
  -- the first call is among those of the whole answer
  have hasked : call ∈ asked s s' ∧ ∃ more, s'.chats = s.chats ++ more := by
    rcases hcases with ⟨-, -, rfl⟩ | ⟨-, results, ids, bundle, run, s₃, second, result', -, -, hupdate, hsecond, -⟩
    · have hall : s'.chats = s.chats ++ [call] := hs'.trans hcall
      exact ⟨(mem_asked hall).mpr List.mem_cons_self, _, hall⟩
    · obtain ⟨-, call', hcall', -⟩ := callModel_ok hsecond
      have hupdated : s₃.chats = s₂.chats := by
        have : Std.Refl fun s s' : Session => s'.chats = s.chats := ⟨fun _ => rfl⟩
        have : IsTrans Session fun s s' => s'.chats = s.chats := ⟨fun _ _ _ h h' => h'.trans h⟩
        exact (updateRun_silent (fun _ _ h => h) _ _).of_apply hupdate
      have hall : s'.chats = s.chats ++ [call, call'] := by
        rw [hs', hcall', hupdated, hcall, List.append_assoc]
        rfl
      exact ⟨(mem_asked hall).mpr List.mem_cons_self, _, hall⟩
  have hmessage : ∀ m ∈ contextMessages p.messages 45000,
      Citable out accountId conversationId s s' (out.strUuid m.id) := by
    intro m hm
    rw [hmessages] at hm hbuilt hreturns
    refine .message p.conversation m call hconversation (mem_of_contextMessages hm) hasked.1 ⟨hm, ?_⟩
    rw [hbuilt.prompt] at hreturns
    exact ⟨_, _, _, _, _, _, hreturns.request⟩
  have hmemory : ∀ m : MemoryItem, m ∈ s.db.memoryItems ∧ m.accountId = accountId ∧ m.state = .active →
      Citable out accountId conversationId s s' (out.strUuid m.id) :=
    fun m hm => .memory m hm.1 hm.2.1 hm.2.2
  have hfirstAllowed : ∀ id ∈ p.bundle.allowedSourceIds, Citable out accountId conversationId s s' id := by
    intro id hid
    rw [hbuilt.allowed] at hid
    rcases mem_allowedSources hid with ⟨m, hm, rfl⟩ | ⟨m, hm, rfl⟩ | ⟨r, hr, -⟩
    · exact hmessage m hm
    · exact hmemory m (hbuilt.active m hm)
    · exact absurd hr List.not_mem_nil
  intro source hsource
  have hid := hallowed source hsource
  rcases hcases with ⟨-, rfl, -⟩ | ⟨-, results, ids, bundle, run, s₃, second, result', htools, hcontext, -, -, rfl⟩
  · exact hfirstAllowed _ hid
  obtain ⟨-, hids, hresults⟩ := executeReadTools_ok htools
  have hitem : ∀ r ∈ results, ∀ id ∈ itemIds out r.items, Citable out accountId conversationId s s' id := by
    intro r hr id hmem
    obtain ⟨tool, htool, hexecuted⟩ := hresults r hr
    have hreturned : ∀ item ∈ r.items, Returned out accountId s s' item := fun item hitem =>
      ⟨call, hasked.1, result, first, hreturns.reply, hreturns.decision, tool, htool, s₂, r, htargets₂, hexecuted,
        hitem⟩
    rcases mem_itemIds (executeReadTool_ok hexecuted).2 hmem with ⟨m, hm, hown, hitem, rfl⟩ | ⟨c, hc, hown, hitem, rfl⟩
    · exact .foundMemory m (hmemories₂ ▸ hm) hown (hreturned _ hitem)
    · exact .foundConversation c (hconversations₂ ▸ hc) hown (hreturned _ hitem)
  rcases List.mem_append.mp hid with hid | hid
  · rcases List.mem_append.mp hid with hid | hid
    · exact hfirstAllowed _ hid
    · rw [hids] at hid
      obtain ⟨r, hr, hid⟩ := List.mem_flatMap.mp hid
      exact hitem r hr _ hid
  · obtain ⟨-, verbosity', memories', sources', hbuilt'⟩ := buildContext_ok hcontext
    rw [hbuilt'.allowed] at hid
    rcases mem_allowedSources hid with ⟨m, hm, hsame⟩ | ⟨m, hm, hsame⟩ | ⟨r, hr, hid⟩
    · rw [hsame]
      exact hmessage m hm
    · rw [hsame]
      obtain ⟨hmem, hown, hactive⟩ := hbuilt'.active m hm
      exact hmemory m ⟨hmemories₂ ▸ hmem, hown, hactive⟩
    · exact hitem r hr _ hid

/-! ### What an answer stores -/

theorem mem_cores {db : Db} {x : OrchestrationRun} : x ∈ cores db ↔ ∃ run ∈ db.orchestrationRuns, core run = x :=
  List.mem_map

/-- A decision in the table of an opened run was there before. -/
theorem Opened.decision {accountId conversationId messageId : Uuid} {db : Db} {run x : OrchestrationRun}
    {t : Table OrchestrationRun.id} (h : Opened accountId conversationId messageId db run t) (hx : x ∈ t) {j : Json}
    (hj : x.decision = some j) : x ∈ cores db := by
  cases h with
  | again found => exact hx
  | first missing added =>
    rcases (Table.mem_insert? added).mp hx with hx | rfl
    · exact hx
    · cases hj

theorem answered_of_session {accountId conversationId messageId : Uuid} {context : Option AuditContext}
    {result : OrchestrationResult} {s s' : Session} (hanew : Anew s.db accountId messageId)
    (h : Database.session (answer out accountId conversationId messageId context) s = (.ok result, s')) :
    ∀ source ∈ result.decision.sources, Citable out accountId conversationId s s' source.sourceId := by
  rcases session_cases h with ⟨hm, -⟩ | ⟨-, e, he⟩
  swap
  · cases he
  rcases answer_cases hm with ⟨run, hrun, hreplayable, -⟩ | ⟨run, e, -, -, he, -⟩ | ⟨-, hm⟩
  · rw [(hanew run hrun).1] at hreplayable
    cases hreplayable
  · cases he
  unfold answerAnew at hm
  obtain ⟨p, s₀, hp, hrest⟩ := Tx.bind_eq_ok hm
  have hprepared : answerPrepared out accountId p (auditContext accountId context) s₀ = (.ok result, s') := by
    rcases Tx.handle_cases hrest with ⟨a, ha, hr⟩ | ⟨e, s₁, -, hfail⟩
    · rw [hr]
      exact ha
    · obtain ⟨u, s₂, -, hraise⟩ := Tx.bind_eq_ok hfail
      cases (Prod.mk.inj hraise).1
  unfold answerPrepared at hprepared
  obtain ⟨d, s₁, hd, h₁⟩ := Tx.bind_eq_ok hprepared
  obtain ⟨actions, s₂, hactions, hconclude⟩ := Tx.bind_eq_ok h₁
  have : Std.Refl fun s s' : Session => s'.chats = s.chats := ⟨fun _ => rfl⟩
  have : IsTrans Session fun s s' => s'.chats = s.chats := ⟨fun _ _ _ h h' => h'.trans h⟩
  have hchats : s'.chats = s₁.chats :=
    ((conclude_silent (fun _ _ h => h) _ _ _ _).of_apply hconclude).trans
      ((createActions_silent (fun _ _ h => h) _ _ _ _ _).of_apply hactions)
  have hdecision : result.decision = d.decision := by
    unfold conclude at hconclude
    obtain ⟨r₁, t₁, -, h₂⟩ := Tx.bind_eq_ok hconclude
    obtain ⟨m, t₂, -, h₃⟩ := Tx.bind_eq_ok h₂
    obtain ⟨now, t₃, -, h₄⟩ := Tx.bind_eq_ok h₃
    obtain ⟨r₂, t₄, -, h₅⟩ := Tx.bind_eq_ok h₄
    obtain ⟨event, t₅, -, h₆⟩ := Tx.bind_eq_ok h₅
    rw [← Except.ok.inj (Prod.mk.inj h₆).1]
  have htargets : targets s₀.db = targets s.db := by
    obtain ⟨run, t, -, -, hcalm⟩ := prepare_opened hp
    simp only [calm, Prod.mk.injEq] at hcalm
    exact hcalm.2.2.2.2
  rw [hdecision]
  exact citable_of_decided hp htargets hd hchats

/-- **Where sources come from**: every decision that is stored after a call of `answer` was stored before, in the
run of that time or in one that has failed since, or it is the decision that the call returns, and each of its
sources is the identifier of a row that may be cited. -/
theorem sources_of_answer {accountId conversationId messageId : Uuid} {context : Option AuditContext}
    {r : Except Exc OrchestrationResult} {s s' : Session}
    (h : Database.session (answer out accountId conversationId messageId context) s = (r, s'))
    {run : OrchestrationRun} (hrun : run ∈ s'.db.orchestrationRuns) {j : Json} (hj : run.decision = some j) :
    (∃ old ∈ s.db.orchestrationRuns, old.id = run.id ∧ old.decision = some j ∧
      (run.state = .failed ∨ run.version = old.version)) ∨
    ∃ result, r = .ok result ∧ result.runId = run.id ∧ j = result.decision.modelDump ∧
      ∀ source ∈ result.decision.sources, Citable out accountId conversationId s s' source.sourceId := by
  have hcore : core run ∈ cores s'.db := mem_cores.mpr ⟨run, hrun, rfl⟩
  have hold : ∀ x ∈ cores s.db, core run = x → ∃ old ∈ s.db.orchestrationRuns, old.id = run.id ∧
      old.decision = some j ∧ (run.state = .failed ∨ run.version = old.version) := by
    intro x hx hsame
    obtain ⟨old, hmem, rfl⟩ := mem_cores.mp hx
    have hid : (core run).id = (core old).id := by rw [hsame]
    have hdecision : (core run).decision = (core old).decision := by rw [hsame]
    have hversion : (core run).version = (core old).version := by rw [hsame]
    exact ⟨old, hmem, hid.symm, hdecision.symm.trans hj, .inr hversion⟩
  cases moves_of_answer h with
  | idle how runs actions messages =>
    rw [runs] at hcore
    exact .inl (hold _ hcore rfl)
  | @failed run₀ t created e e' now anew opened runs actions pending leftover messages =>
    rw [runs] at hcore
    rcases Table.mem_put_iff.mp hcore with ⟨hmem, -⟩ | ⟨hsame, -⟩
    · exact .inl (hold _ (opened.decision hmem hj) rfl)
    · have hid : (core run).id = run₀.id := by rw [hsame]; rfl
      have hstate : (core run).state = .failed := by rw [hsame]; rfl
      have hdecision : (core run).decision = run₀.decision := by rw [hsame]; rfl
      have hmem : run₀ ∈ cores s.db :=
        opened.decision (Table.mem_of_find? opened.find?) (hdecision.symm.trans hj)
      obtain ⟨old, hstored, rfl⟩ := mem_cores.mp hmem
      exact .inl ⟨old, hstored, hid.symm, hdecision.symm.trans hj, .inl hstate⟩
  | @answered run₀ t p d s₁ created m now opened decides id runs actions pending length replied =>
    rw [runs] at hcore
    rcases Table.mem_put_iff.mp hcore with ⟨hmem, -⟩ | ⟨hsame, -⟩
    · exact .inl (hold _ (opened.decision hmem hj) rfl)
    · have hid : (core run).id = run₀.id := by rw [hsame]; rfl
      have hdecision : (core run).decision = some d.decision.modelDump := by rw [hsame]; rfl
      exact .inr ⟨_, rfl, id.symm.trans hid.symm, Option.some.inj (hj.symm.trans hdecision),
        answered_of_session decides.anew h⟩

/-! ### A decision that cites the message it answers -/

def citingDecision : ModelDecision where
  intent := .conversation
  resultType := .answer
  answer := "Dobře."
  uncertainty := .none
  sources := [⟨"conversation", "00000000-0000-0000-0000-000000000003", "Vaše zpráva"⟩]
  answer_bounds := by decide
  sources_bound := by decide
  toolCalls_bound := noCalls_bound
  confirmed := answer_confirmed

def citingOutside : Outside := .sample (.sample 1767268800000000 [])
  (fun _ _ => .ok ⟨"resp-1", "", .null, none, none⟩) (fun _ => .ok citingDecision)

def citingSession : Session where
  began := .utc 1767268800000000
  db := .sample (.singleton (.sample "Pojedeme do Prahy."))

/-- The answer of the model. -/
def citingAnswer : Except Exc OrchestrationResult × Session :=
  Database.session (answer citingOutside 1 2 3 none) citingSession

theorem citingAnswer_def : Database.session (answer citingOutside 1 2 3 none) citingSession =
    (citingAnswer.1, citingAnswer.2) := Prod.mk.eta.symm

/-- The source of the stored decision may be cited. -/
theorem sources_of_answer_citing : ∃ result, citingAnswer.1 = .ok result ∧
    ∀ source ∈ result.decision.sources, Citable citingOutside 1 2 citingSession citingAnswer.2 source.sourceId := by
  have hrun : citingAnswer.2.db.orchestrationRuns.rows.any (fun run => run.decision.isSome) = true := by
    decide +kernel
  obtain ⟨run, hrow, hsome⟩ := List.any_eq_true.mp hrun
  obtain ⟨j, hj⟩ := Option.isSome_iff_exists.mp hsome
  have hmem : run ∈ citingAnswer.2.db.orchestrationRuns := by
    rw [Table.mem_def]
    exact hrow
  have hempty : citingSession.db.orchestrationRuns = .empty := rfl
  rcases sources_of_answer citingAnswer_def hmem hj with ⟨old, hold, -⟩ | ⟨result, hresult, -, -, hsources⟩
  · rw [hempty] at hold
    exact absurd hold List.not_mem_nil
  · exact ⟨result, hresult, hsources⟩

end KajovoDagmar.OrchestrationService
