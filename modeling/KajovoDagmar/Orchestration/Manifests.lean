import KajovoDagmar.Orchestration.Sections

/-! # The manifest of a run

A run keeps the manifest, the provider and the model with which it was opened; only a second context replaces the
manifest.  `manifest_iff` says when a committed call leaves the run with the manifest of the context, and with the
provider and the model, of its last call of the model. -/

namespace KajovoDagmar.OrchestrationService

variable {out : Outside}

/-! ### What a run says about its context -/

/-- The manifest, the provider and the model of each run. -/
def imprint (db : Db) (runId : Uuid) : Option (Json × Option Uuid × Option Uuid) :=
  (db.orchestrationRuns.find? runId).map fun run => (run.contextManifest, run.providerId, run.modelId)

theorem imprint_put {db : Db} {run updated : OrchestrationRun} (hrun : run ∈ db.orchestrationRuns)
    (hid : updated.id = run.id) :
    imprint { db with orchestrationRuns := db.orchestrationRuns.put updated } run.id =
        some (updated.contextManifest, updated.providerId, updated.modelId) ∧
      ∀ runId, runId ≠ run.id →
        imprint { db with orchestrationRuns := db.orchestrationRuns.put updated } runId = imprint db runId := by
  unfold imprint
  have hfind : db.orchestrationRuns.find? updated.id = some run := hid ▸ Table.find?_of_mem hrun
  constructor
  · have hput := Table.find?_put_self hfind
    rw [hid] at hput
    rw [hput, Option.map_some]
  · intro runId hne
    rw [Table.find?_put_of_ne (hid ▸ hne)]

/-- An update of other columns leaves every manifest, provider and model. -/
theorem imprint_put_of_eq {db : Db} {run updated : OrchestrationRun} (hrun : run ∈ db.orchestrationRuns)
    (hid : updated.id = run.id) (hmanifest : updated.contextManifest = run.contextManifest)
    (hprovider : updated.providerId = run.providerId) (hmodel : updated.modelId = run.modelId) :
    imprint { db with orchestrationRuns := db.orchestrationRuns.put updated } = imprint db := by
  funext runId
  obtain ⟨hself, hother⟩ := imprint_put hrun hid
  by_cases hsame : runId = run.id
  · rw [hsame, hself, imprint, Table.find?_of_mem hrun, Option.map_some, hmanifest, hprovider, hmodel]
  · exact hother runId hsame

theorem updateRun_imprint {f : OrchestrationRun → OrchestrationRun}
    (hf : ∀ r, (f r).contextManifest = r.contextManifest ∧ (f r).providerId = r.providerId ∧
      (f r).modelId = r.modelId) (runId : Uuid) : Tx.Keeps (Same imprint) (updateRun out runId f) := by
  apply updateRun_keeps
  intro run db hrun
  obtain ⟨hmanifest, hprovider, hmodel⟩ := hf run
  exact imprint_put_of_eq hrun rfl hmanifest hprovider hmodel

theorem createActions_keeps {γ : Type} {view : Db → γ}
    (hactions : ∀ t db, view { db with toolActions := t } = view db) (runId accountId : Uuid)
    (conversation : Conversation) (sourceMessage : ConversationMessage) (decision : ModelDecision) :
    Tx.Keeps (Same view) (createActions out runId accountId conversation sourceMessage decision) := by
  have hcreate : ∀ index calls,
      Tx.Keeps (Same view) (createFrom out runId accountId conversation sourceMessage index calls) := by
    intro index calls
    induction calls generalizing index with
    | nil => exact Tx.Keeps.pure _
    | cons call calls ih =>
      have hone : Tx.Keeps (Same view)
          (createAction out runId accountId conversation sourceMessage index call) := by
        refine (Tx.Reads.keeps (normalizeAction_reads _ _ _ _)).bind fun n => ?_
        refine (Same.utcNow _).bind fun now => (Same.newUuid _).bind fun id => ?_
        refine (Tx.Keeps.gets _).bind fun began => ?_
        exact (Relation.add_keeps (fun t db => hactions t db) _).bind fun _ => Tx.Keeps.pure _
      exact hone.bind fun a => (ih (index + 1)).bind fun actions => Tx.Keeps.pure _
  unfold createActions
  exact (Tx.Keeps.raiseIf _ _).bind fun _ => hcreate _ _

theorem addAssistantTurn_imprint (rt : Runtime) (conversationId : Uuid) (content key : String) (runId : Uuid)
    (interrupted : Bool) : Tx.Keeps (Same imprint)
      (ConversationService.addAssistantTurn rt conversationId content key runId interrupted) := by
  unfold ConversationService.addAssistantTurn ConversationService.byIdempotencyKey
    ConversationService.appendMessage
  refine (Tx.Keeps.gets _).bind fun row => ?_
  refine (Tx.Keeps.orRaise _ _).bind fun conversation => ?_
  refine ((Tx.Keeps.gets _).bind fun rows => Tx.Keeps.pure _).bind fun existing => ?_
  cases existing with
  | some message => exact Tx.Keeps.pure _
  | none =>
    refine (Tx.Keeps.gets _).bind fun sequence => ?_
    refine (Same.newUuid _).bind fun id => (Same.utcNow _).bind fun now => ?_
    refine Tx.Keeps.bind ?_ fun _ => Tx.Keeps.pure _
    refine (Relation.add_keeps (fun _ _ => rfl) _).bind fun _ => (Same.utcNow _).bind fun now => ?_
    exact (Relation.save_keeps fun _ => rfl).bind fun _ => Tx.Keeps.pure _

theorem conclude_imprint (p : Prepared) (d : Decided) (actions : List ToolAction) (context : AuditContext) :
    Tx.Keeps (Same imprint) (conclude out p d actions context) := by
  unfold conclude
  refine (updateRun_imprint (by intro r; exact ⟨rfl, rfl, rfl⟩) _).bind fun _ => ?_
  refine (addAssistantTurn_imprint _ _ _ _ _ _).bind fun message => ?_
  refine (Same.utcNow _).bind fun now => ?_
  refine (updateRun_imprint (by intro r; exact ⟨rfl, rfl, rfl⟩) _).bind fun run => ?_
  exact (AuditService.append_keeps fun _ _ => rfl).bind fun _ => Tx.Keeps.pure _

theorem failRun_imprint (runId : Uuid) (context : AuditContext) (e : Exc) :
    Tx.Keeps (Same imprint) (failRun out runId context e) := by
  unfold failRun
  refine (Same.utcNow _).bind fun now => ?_
  refine (updateRun_imprint (by intro r; exact ⟨rfl, rfl, rfl⟩) _).bind fun run => ?_
  exact (AuditService.append_keeps fun _ _ => rfl).bind fun _ => Tx.Keeps.pure _

theorem callModel_imprint (runId : Uuid) (provider : ProviderConfiguration) (model : ModelCatalogEntry)
    (prompt : String) (messages : List ConversationMessage) :
    Tx.Keeps (Same imprint) (callModel out runId provider model prompt messages) := by
  unfold callModel attemptCall failAttempt
  refine (Tx.Keeps.gets _).bind fun broken => ?_
  refine (Tx.Keeps.raiseSome _).bind fun _ => ?_
  refine (updateRun_imprint (by intro r; exact ⟨rfl, rfl, rfl⟩) _).bind fun run => ?_
  refine (Same.newUuid _).bind fun id => ?_
  refine (Relation.add_keeps (fun _ _ => rfl) _).bind fun _ => ?_
  refine Tx.Keeps.handle ?_ fun e => ?_
  · have hchat : ∀ request, Tx.Keeps (Same imprint) (chat out request) := fun request s => rfl
    refine (hchat _).bind fun result => ?_
    refine (Tx.Keeps.ofExcept _).bind fun decision => ?_
    refine (Same.utcNow _).bind fun now => ?_
    exact (Relation.save_keeps fun _ => rfl).bind fun _ => Tx.Keeps.pure _
  · refine ((Same.utcNow _).bind fun now => ?_).bind fun _ => Tx.Keeps.raise _
    exact Relation.save_keeps fun _ => rfl

/-! ### The calls of the model -/

/-- An attempt asks the model once. -/
theorem attemptCall_chats (attempt : OrchestrationAttempt) (request : ChatRequest) (s : Session) :
    (attemptCall out attempt request s).2.chats = s.chats ++ [⟨request, out.chat s.tick request⟩] := by
  have : Std.Refl fun s s' : Session => s'.chats = s.chats := ⟨fun _ => rfl⟩
  have : IsTrans Session fun s s' => s'.chats = s.chats := ⟨fun _ _ _ h h' => h'.trans h⟩
  unfold attemptCall
  rcases hchat : chat out request s with ⟨e | result, s₁⟩
  · rw [Tx.bind_of_error hchat]
    exact congrArg Session.chats (Prod.mk.inj hchat).2.symm
  · rw [Tx.bind_of_ok hchat]
    have hrest : Tx.Keeps (fun s s' : Session => s'.chats = s.chats) (do
        let decision ← Tx.ofExcept ((out.validateDecision result.structured).mapError decisionInvalid)
        let now ← utcNow out.toRuntime
        Db.orchestrationAttempt.save out.toRuntime { attempt with
          state := "completed"
          providerResponseId := some result.providerResponseId
          completedAt := some now
          latencyMs := some (out.latencyMs attempt.attemptNumber)
          usage := usage result }
        pure (decision, result) : Work (ModelDecision × ChatResult)) := by
      refine (Tx.Keeps.ofExcept _).bind fun decision => ?_
      refine (utcNow_silent (fun _ _ h => h) _).bind fun now => ?_
      exact (save_silent (fun _ _ h => h) _ _ _).bind fun _ => Tx.Keeps.pure _
    exact (hrest s₁).trans (congrArg Session.chats (Prod.mk.inj hchat).2.symm)

/-- A model call that returns or raises a domain error has failed to load the provider's configuration or has
asked the model once. -/
theorem callModel_cases {runId : Uuid} {provider : ProviderConfiguration} {model : ModelCatalogEntry}
    {prompt : String} {messages : List ConversationMessage} {r : Except Exc (ModelDecision × ChatResult)}
    {s s' : Session} (h : callModel out runId provider model prompt messages s = (r, s'))
    (hr : ∀ e, r = .error e → e.IsDomain) :
    (∃ e, out.providerRuntime s.db provider = some e ∧ r = .error e ∧ s' = s) ∨
      out.providerRuntime s.db provider = none ∧
        ∃ call, s'.chats = s.chats ++ [call] ∧ call.request = chatRequest out model prompt messages := by
  unfold callModel at h
  rw [Tx.gets_bind_apply] at h
  cases hbroken : out.providerRuntime s.db provider with
  | some e =>
    rw [hbroken, Tx.raiseSome_some, Tx.raise_bind] at h
    obtain ⟨hresult, rfl⟩ := Prod.mk.inj h
    exact .inl ⟨e, rfl, hresult.symm, rfl⟩
  | none =>
    refine .inr ⟨rfl, ?_⟩
    rw [hbroken, Tx.raiseSome_none, Tx.pure_bind] at h
    have : Std.Refl fun s s' : Session => s'.chats = s.chats := ⟨fun _ => rfl⟩
    have : IsTrans Session fun s s' => s'.chats = s.chats := ⟨fun _ _ _ h h' => h'.trans h⟩
    -- what precedes the call raises no domain error
    have hsettled : ∀ {α : Type} {m : Work α} {e : Exc} {t t' : Session}, NoDomain m → m t = (.error e, t') →
        r ≠ .error e := by
      intro α m e t t' hm hraised heq
      exact hm t e (congrArg Prod.fst hraised) (hr e heq)
    rcases Tx.bind_cases h with ⟨e, hrun, he⟩ | ⟨run, s₁, hrun, h₁⟩
    · exact absurd he (hsettled (updateRun_noDomain _ _) hrun)
    rcases Tx.bind_cases h₁ with ⟨e, hid, he⟩ | ⟨id, s₂, hid, h₂⟩
    · cases (Prod.mk.inj hid).1
    rcases Tx.bind_cases h₂ with ⟨e, hadd, he⟩ | ⟨u, s₃, hadd, h₃⟩
    · exact absurd he (hsettled (Relation.add_noDomain _) hadd)
    have hbefore : s₃.chats = s.chats := by
      have hadded : s₃.chats = s₂.chats :=
        (add_silent (fun _ _ h => h) _ _ _ : Tx.Keeps (fun s s' : Session => s'.chats = s.chats) _).of_apply hadd
      have hnumbered : s₂.chats = s₁.chats := (newUuid_silent (fun _ _ h => h) _ :
        Tx.Keeps (fun s s' : Session => s'.chats = s.chats) _).of_apply hid
      have hcounted : s₁.chats = s.chats := (updateRun_silent (fun _ _ h => h) _ _ :
        Tx.Keeps (fun s s' : Session => s'.chats = s.chats) _).of_apply hrun
      rw [hadded, hnumbered, hcounted]
    refine ⟨⟨chatRequest out model prompt messages, out.chat s₃.tick (chatRequest out model prompt messages)⟩, ?_,
      rfl⟩
    rw [← hbefore]
    rcases Tx.handle_cases h₃ with ⟨a, hattempt, -⟩ | ⟨e, s₄, hattempt, hfail⟩
    · exact (congrArg (fun x => x.2.chats) hattempt).symm.trans (attemptCall_chats _ _ _)
    · have hfailed : s'.chats = s₄.chats := by
        refine (Tx.Keeps.bind ?_ fun _ => Tx.Keeps.raise _ :
          Tx.Keeps (fun s s' : Session => s'.chats = s.chats) _).of_apply hfail
        unfold failAttempt
        exact (utcNow_silent (fun _ _ h => h) _).bind fun now => save_silent (fun _ _ h => h) _ _ _
      rw [hfailed]
      exact (congrArg (fun x => x.2.chats) hattempt).symm.trans (attemptCall_chats _ _ _)

/-- A sequence whose second part only checks: it ends where the first part does. -/
theorem bind_check {α β : Type} {m : Work α} {f : α → Work β} (hf : ∀ a, Tx.Keeps (· = ·) (f a))
    {r : Except Exc β} {s s' : Session} (h : (m >>= f) s = (r, s')) :
    ∃ r₁, m s = (r₁, s') ∧ ∀ e, r₁ = .error e → r = .error e := by
  rcases Tx.bind_cases h with ⟨e, hm, hr⟩ | ⟨a, s₁, hm, hrest⟩
  · refine ⟨.error e, hm, fun e' he => ?_⟩
    rw [hr, Except.error.inj he]
  · obtain rfl : s₁ = s' := (hf a).of_apply hrest
    exact ⟨.ok a, hm, fun e he => absurd he (by simp)⟩

/-- The first answer of the model leads to a second context, whose manifest is stored in the run. -/
def SecondContext (out : Outside) (accountId : Uuid) (p : Prepared) (s : Session) (bundle : ContextBundle)
    (s' : Session) : Prop :=
  ∃ first result s₁ results ids run,
    callModel out p.runId p.provider p.model p.bundle.prompt p.messages s = (.ok (first, result), s₁) ∧
    readCalls first ≠ [] ∧ executeReadTools out accountId (readCalls first) s₁ = (.ok (results, ids), s₁) ∧
    buildContext out accountId p.conversation p.messages p.sourceMessage p.normalizedInput results s₁ =
      (.ok bundle, s₁) ∧
    updateRun out p.runId (fun r => { r with contextManifest := bundle.manifest }) s₁ = (.ok run, s')

/-- The model is asked once, and the run keeps its manifest. -/
structure AskedOnce (out : Outside) (accountId : Uuid) (p : Prepared) (s s' : Session) : Prop where
  single : ∀ bundle s₃, ¬SecondContext out accountId p s bundle s₃
  imprint : Same imprint s s'
  asked : ∃ call, s'.chats = s.chats ++ [call] ∧
    call.request = chatRequest out p.model p.bundle.prompt p.messages

/-- The run has the manifest of a second context; the model is asked again if the provider can be loaded. -/
structure AskedTwice (out : Outside) (accountId : Uuid) (p : Prepared) (s s' : Session) (bundle : ContextBundle)
    (s₃ : Session) : Prop where
  second : SecondContext out accountId p s bundle s₃
  imprint : Same imprint s₃ s'
  asked : ∃ call, call.request = chatRequest out p.model p.bundle.prompt p.messages ∧
    (out.providerRuntime s₃.db p.provider ≠ none ∧ s'.chats = s.chats ++ [call] ∨
      out.providerRuntime s₃.db p.provider = none ∧ ∃ call', s'.chats = s.chats ++ [call, call'] ∧
        call'.request = chatRequest out p.model bundle.prompt p.messages)

/-- **What is asked before a decision**, when the call returns or raises a domain error. -/
theorem obtainDecision_cases {accountId : Uuid} {p : Prepared} {r : Except Exc Decided} {s s' : Session}
    (h : obtainDecision out accountId p s = (r, s')) (hr : ∀ e, r = .error e → e.IsDomain) :
    (out.providerRuntime s.db p.provider ≠ none ∧ s' = s) ∨
      out.providerRuntime s.db p.provider = none ∧
        (AskedOnce out accountId p s s' ∨ ∃ bundle s₃, AskedTwice out accountId p s s' bundle s₃) := by
  unfold obtainDecision at h
  rcases Tx.bind_cases h with ⟨e, hfirst, he⟩ | ⟨⟨first, result⟩, s₁, hfirst, h₁⟩
  · rcases callModel_cases hfirst (fun e' he' => hr e' (he.trans (congrArg _ (Except.error.inj he')))) with
      ⟨e', hbroken, -, hs⟩ | ⟨hruntime, call, hcall, hrequest⟩
    · exact .inl ⟨by rw [hbroken]; simp, hs⟩
    · refine .inr ⟨hruntime, .inl ⟨?_, ?_, call, hcall, hrequest⟩⟩
      · rintro bundle s₃ ⟨first, result, s₁, results, ids, run, hother, -⟩
        rw [hfirst] at hother
        cases (Prod.mk.inj hother).1
      · exact (callModel_imprint _ _ _ _ _).of_apply hfirst
  rcases callModel_cases hfirst (by simp) with ⟨e', -, hfalse, -⟩ | ⟨hruntime, call, hcall, hrequest⟩
  · cases hfalse
  have himprint₁ : Same imprint s s₁ := (callModel_imprint _ _ _ _ _).of_apply hfirst
  refine .inr ⟨hruntime, ?_⟩
  have hvalidate : ∀ decided : Decided, Tx.Keeps (· = ·)
      (do validateSources decided.decision decided.allowedIds; pure decided : Work Decided) := fun decided =>
    Tx.Keeps.bind (Tx.Keeps.raiseIf _ _) fun _ => Tx.Keeps.pure _
  obtain ⟨r₁, hsettle, hr₁⟩ := bind_check hvalidate h₁
  -- a first answer that does not get as far as a second context
  have honce : s' = s₁ → (∀ bundle s₃, ¬SecondContext out accountId p s bundle s₃) →
      AskedOnce out accountId p s s' := by
    rintro rfl hsingle
    exact ⟨hsingle, himprint₁, call, hcall, hrequest⟩
  unfold settleDecision at hsettle
  split at hsettle
  · next hread =>
    left
    apply honce (Prod.mk.inj hsettle).2.symm
    rintro bundle s₃ ⟨first', result', s₁', results, ids, run, hother, hreads, -⟩
    rw [hfirst] at hother
    obtain ⟨rfl, rfl⟩ := Prod.mk.inj (Except.ok.inj (Prod.mk.inj hother).1)
    exact hreads hread
  next hread =>
  unfold obtainSecondDecision at hsettle
  rcases Tx.bind_cases hsettle with ⟨e, htools, he⟩ | ⟨⟨results, ids⟩, s₄, htools, h₄⟩
  · left
    apply honce ((executeReadTools_reading _ _).of_apply htools).symm
    rintro bundle s₃ ⟨first', result', s₁', results, ids, run, hother, -, hexecuted, -⟩
    rw [hfirst] at hother
    obtain ⟨hsame, rfl⟩ := Prod.mk.inj hother
    obtain ⟨rfl, rfl⟩ := Prod.mk.inj (Except.ok.inj hsame)
    rw [htools] at hexecuted
    cases (Prod.mk.inj hexecuted).1
  obtain rfl : s₁ = s₄ := (executeReadTools_reading _ _).of_apply htools
  rcases Tx.bind_cases h₄ with ⟨e, hcontext, he⟩ | ⟨bundle, s₅, hcontext, h₅⟩
  · left
    apply honce ((buildContext_reading _ _ _ _ _ _).of_apply hcontext).symm
    rintro bundle s₃ ⟨first', result', s₁', results', ids', run, hother, -, hexecuted, hbuilt, -⟩
    rw [hfirst] at hother
    obtain ⟨hsame, rfl⟩ := Prod.mk.inj hother
    obtain ⟨rfl, rfl⟩ := Prod.mk.inj (Except.ok.inj hsame)
    rw [htools] at hexecuted
    obtain ⟨rfl, rfl⟩ := Prod.mk.inj (Except.ok.inj (Prod.mk.inj hexecuted).1)
    rw [hcontext] at hbuilt
    cases (Prod.mk.inj hbuilt).1
  obtain rfl : s₁ = s₅ := (buildContext_reading _ _ _ _ _ _).of_apply hcontext
  rcases Tx.bind_cases h₅ with ⟨e, hupdate, he⟩ | ⟨run, s₃, hupdate, h₆⟩
  · exact absurd (hr e (hr₁ e he)) (updateRun_noDomain _ _ s₁ e (congrArg Prod.fst hupdate))
  right
  have hcheck : ∀ second : ModelDecision × ChatResult, Tx.Keeps (· = ·)
      (do Tx.raiseIf (readCalls second.1 ≠ []) toolLoopExceeded
          pure ⟨second.1, mergeUsage (usage result) (usage second.2),
            p.bundle.allowedSourceIds ++ ids ++ bundle.allowedSourceIds⟩ : Work Decided) := fun second =>
    Tx.Keeps.bind (Tx.Keeps.raiseIf _ _) fun _ => Tx.Keeps.pure _
  obtain ⟨r₂, hsecond, hr₂⟩ := bind_check hcheck h₆
  have hkept : s₃.chats = s₁.chats := by
    have : Std.Refl fun s s' : Session => s'.chats = s.chats := ⟨fun _ => rfl⟩
    have : IsTrans Session fun s s' => s'.chats = s.chats := ⟨fun _ _ _ h h' => h'.trans h⟩
    exact (updateRun_silent (fun _ _ h => h) _ _ : Tx.Keeps (fun s s' : Session => s'.chats = s.chats) _).of_apply
      hupdate
  have hafter := hkept.trans hcall
  refine ⟨bundle, s₃, ⟨first, result, s₁, results, ids, run, hfirst, hread, htools, hcontext, hupdate⟩,
    (callModel_imprint _ _ _ _ _).of_apply hsecond, call, hrequest, ?_⟩
  rcases callModel_cases hsecond (fun e he => hr e (hr₁ e (hr₂ e he))) with
    ⟨e, hbroken, -, rfl⟩ | ⟨hloaded, call', hcall', hrequest'⟩
  · exact .inl ⟨by rw [hbroken]; simp, hafter⟩
  · refine .inr ⟨hloaded, call', ?_, hrequest'⟩
    rw [hcall', hafter, List.append_assoc, List.cons_append, List.nil_append]

/-! ### The contexts of a call -/

theorem promptLines_manifestAt (language verbosity manifest summary conversation memories toolResults : String) :
    (promptLines language verbosity manifest summary conversation memories toolResults)[
      manifestAt language verbosity]? = some manifest := by
  unfold promptLines manifestAt
  rw [List.getElem?_append_right (le_refl _), Nat.sub_self, List.getElem?_cons_zero]

/-- Contexts of one conversation that have the same prompt have the same manifest. -/
theorem manifest_of_prompt {accountId : Uuid} {conversation : Conversation} {messages : List ConversationMessage}
    {sourceMessage : ConversationMessage} {normalizedInput : String} {toolResults toolResults' : List ToolResult}
    {bundle bundle' : ContextBundle} {s s₁ s' s₁' : Session}
    (h : buildContext out accountId conversation messages sourceMessage normalizedInput toolResults s =
      (.ok bundle, s₁)) (hresults : Gathered out toolResults)
    (h' : buildContext out accountId conversation messages sourceMessage normalizedInput toolResults' s' =
      (.ok bundle', s₁')) (hresults' : Gathered out toolResults')
    (hverbosity : verbosityOf s'.db = verbosityOf s.db) (hprompt : bundle'.prompt = bundle.prompt) :
    bundle'.manifest = bundle.manifest := by
  obtain ⟨memories, sources, hsections⟩ := sections_of_buildContext h hresults
  obtain ⟨memories', sources', hsections'⟩ := sections_of_buildContext h' hresults'
  rw [hverbosity] at hsections'
  have hlines := hsections'.lines.symm.trans ((congrArg PythonText.lines hprompt).trans hsections.lines)
  have hline := congrArg (fun lines => lines[manifestAt (languageName conversation.language)
    (verbosityInstruction (pyStr out (verbosityOf s.db)))]?) hlines
  simp only [promptLines_manifestAt] at hline
  have hexact : bundle.manifest.Exact ∧ bundle'.manifest.Exact := by
    obtain ⟨-, _, _, _, hbuilt⟩ := buildContext_ok h
    obtain ⟨-, _, _, _, hbuilt'⟩ := buildContext_ok h'
    rw [hbuilt.manifest, hbuilt'.manifest]
    exact ⟨manifest_exact _ _ _ _ _, manifest_exact _ _ _ _ _⟩
  have hread := Json.loads_dumps hexact.2
  rw [Option.some.inj hline, Json.loads_dumps hexact.1] at hread
  exact (Option.some.inj hread).symm

theorem gathered_nil (s : Session) : Gathered out [] := ⟨0, [], s, [], s, rfl⟩

/-- The manifest of a second context names a tool, the first one none. -/
theorem SecondContext.manifest_ne {accountId : Uuid} {p : Prepared} {s s₃ s₀ s₁ : Session}
    {bundle : ContextBundle} (h : SecondContext out accountId p s bundle s₃)
    (hfirst : buildContext out accountId p.conversation p.messages p.sourceMessage p.normalizedInput [] s₀ =
      (.ok p.bundle, s₁)) : bundle.manifest ≠ p.bundle.manifest := by
  obtain ⟨first, result, t₁, results, ids, run, -, hread, htools, hcontext, -⟩ := h
  obtain ⟨-, _, _, _, hbuilt⟩ := buildContext_ok hcontext
  obtain ⟨-, _, _, _, hbuilt₀⟩ := buildContext_ok hfirst
  rw [hbuilt.manifest, hbuilt₀.manifest]
  unfold manifest
  simp only [ne_eq, Json.obj.injEq, List.cons.injEq, Prod.mk.injEq, Json.arr.injEq, true_and, and_true, List.map_nil,
    List.map_eq_nil_iff, not_and]
  rintro ⟨-, -, hnone⟩ -
  obtain ⟨call, calls, hcalls⟩ := List.exists_cons_of_ne_nil hread
  unfold executeReadTools at htools
  obtain ⟨found, t₂, hfound, hresult⟩ := Tx.bind_eq_ok htools
  obtain ⟨rfl, -⟩ := Prod.mk.inj (Except.ok.inj (Prod.mk.inj hresult).1)
  obtain ⟨r, hr, -⟩ := Tx.exists_of_forEach_eq_ok hfound call (by rw [hcalls]; simp)
  exact List.not_mem_nil hr

/-- A call of the model leaves the setting of the prompt. -/
theorem hiddenCall_verbosity : HiddenCall verbosityOf :=
  ⟨fun _ _ => rfl, fun _ _ _ => rfl, fun _ _ _ _ => rfl⟩

/-- The prompt of a second context is another than the first one. -/
theorem SecondContext.prompt_ne {accountId : Uuid} {p : Prepared} {s s₃ s₀ s₁ : Session}
    {bundle : ContextBundle} (h : SecondContext out accountId p s bundle s₃)
    (hfirst : buildContext out accountId p.conversation p.messages p.sourceMessage p.normalizedInput [] s₀ =
      (.ok p.bundle, s₁)) (hverbosity : verbosityOf s.db = verbosityOf s₀.db) :
    bundle.prompt ≠ p.bundle.prompt := by
  intro hsame
  have hne := h.manifest_ne hfirst
  obtain ⟨first, result, t₁, results, ids, run, hcall, -, htools, hcontext, -⟩ := h
  exact hne (manifest_of_prompt hfirst (gathered_nil s₀) hcontext ⟨_, _, _, _, _, htools⟩
    (((callModel_keeps hiddenCall_verbosity _ _ _ _ _).of_apply hcall).trans hverbosity) hsame)

/-- A call builds at most one second context. -/
theorem SecondContext.unique {accountId : Uuid} {p : Prepared} {s s₃ s₃' : Session}
    {bundle bundle' : ContextBundle} (h : SecondContext out accountId p s bundle s₃)
    (h' : SecondContext out accountId p s bundle' s₃') :
    bundle' = bundle ∧ s₃' = s₃ := by
  obtain ⟨first, result, t₁, results, ids, run, hcall, -, htools, hcontext, hupdate⟩ := h
  obtain ⟨first', result', t₁', results', ids', run', hcall', -, htools', hcontext', hupdate'⟩ := h'
  rw [hcall] at hcall'
  obtain ⟨hsame, rfl⟩ := Prod.mk.inj hcall'
  obtain ⟨rfl, rfl⟩ := Prod.mk.inj (Except.ok.inj hsame)
  rw [htools] at htools'
  obtain ⟨rfl, rfl⟩ := Prod.mk.inj (Except.ok.inj (Prod.mk.inj htools').1)
  rw [hcontext] at hcontext'
  obtain rfl := Except.ok.inj (Prod.mk.inj hcontext').1
  rw [hupdate] at hupdate'
  exact ⟨rfl, (Prod.mk.inj hupdate').2.symm⟩

theorem chatRequest_prompt {model : ModelCatalogEntry} {prompt prompt' : String}
    {messages : List ConversationMessage}
    (h : chatRequest out model prompt' messages = chatRequest out model prompt messages) : prompt' = prompt := by
  have hmessages := congrArg ChatRequest.messages h
  exact congrArg ChatMessage.content (List.cons.inj hmessages).1

/-! ### What a committed call leaves -/

/-- The contexts that a call builds. -/
def ContextOf (out : Outside) (accountId : Uuid) (p : Prepared) (s : Session) (bundle : ContextBundle) : Prop :=
  bundle = p.bundle ∨ ∃ s₃, SecondContext out accountId p s bundle s₃

/-- If the model was called, the run has the manifest of the context whose prompt the last call sent, and the
provider and the model of that call. -/
def Describes (out : Outside) (accountId conversationId messageId : Uuid) (s s' : Session) : Prop :=
  ∀ call, (asked s s').getLast? = some call → ∃ p s₀ bundle run,
    prepare out (runOf? s.db accountId messageId) accountId conversationId messageId s = (.ok p, s₀) ∧
    ContextOf out accountId p s₀ bundle ∧ call.request = chatRequest out p.model bundle.prompt p.messages ∧
    s'.db.orchestrationRuns.find? p.runId = some run ∧ run.contextManifest = bundle.manifest ∧
    run.providerId = some p.provider.id ∧ run.modelId = some p.model.id

/-- The run that a message already has was opened with the provider and the model that are selected now, and with
the context of now unless a second one is built. -/
structure Current (out : Outside) (accountId : Uuid) (p : Prepared) (s : Session) (run : OrchestrationRun) :
    Prop where
  provider : run.providerId = some p.provider.id
  model : run.modelId = some p.model.id
  manifest : (∀ bundle s₃, ¬SecondContext out accountId p s bundle s₃) → run.contextManifest = p.bundle.manifest

/-- When the model is called, an earlier run of the message is current, and the provider can be loaded again after
a second context. -/
def Truthful (out : Outside) (accountId conversationId messageId : Uuid) (s : Session) : Prop :=
  Anew s.db accountId messageId → ∀ p s₀,
    prepare out (runOf? s.db accountId messageId) accountId conversationId messageId s = (.ok p, s₀) →
    out.providerRuntime s₀.db p.provider = none →
    (∀ run, runOf? s.db accountId messageId = some run → Current out accountId p s₀ run) ∧
    ∀ bundle s₃, SecondContext out accountId p s₀ bundle s₃ → out.providerRuntime s₃.db p.provider = none

/-- What is stored when the model is about to be called: the columns of the earlier run, or those of now. -/
theorem prepare_imprint {accountId conversationId messageId : Uuid} {p : Prepared} {s s₀ : Session}
    (hp : prepare out (runOf? s.db accountId messageId) accountId conversationId messageId s = (.ok p, s₀)) :
    ∃ manifest provider model, imprint s₀.db p.runId = some (manifest, provider, model) ∧
      ((∀ run, runOf? s.db accountId messageId = some run → Current out accountId p s₀ run) ↔
        provider = some p.provider.id ∧ model = some p.model.id ∧
          ((∀ bundle s₃, ¬SecondContext out accountId p s₀ bundle s₃) → manifest = p.bundle.manifest)) := by
  obtain ⟨-, -, -, -, hopen⟩ := prepare_built hp
  cases hrun : runOf? s.db accountId messageId with
  | some run =>
    rw [hrun] at hopen
    obtain ⟨hid, rfl⟩ := Prod.mk.inj hopen
    refine ⟨run.contextManifest, run.providerId, run.modelId, ?_, ?_, ?_⟩
    · rw [imprint, ← Except.ok.inj hid, Table.find?_of_mem (runOf?_mem hrun).1, Option.map_some]
    · intro h
      obtain ⟨hprovider, hmodel, hmanifest⟩ := h run rfl
      exact ⟨hprovider, hmodel, hmanifest⟩
    · rintro ⟨hprovider, hmodel, hmanifest⟩ run' hsame
      obtain rfl := Option.some.inj hsame
      exact ⟨hprovider, hmodel, hmanifest⟩
  | none =>
    rw [hrun] at hopen
    obtain ⟨id, s₁, -, h₁⟩ := Tx.bind_eq_ok hopen
    obtain ⟨u, s₂, hadd, h₂⟩ := Tx.bind_eq_ok h₁
    obtain ⟨hid, rfl⟩ := Prod.mk.inj h₂
    obtain ⟨t, hinsert, rfl⟩ := Relation.add_eq_ok hadd
    refine ⟨p.bundle.manifest, some p.provider.id, some p.model.id, ?_, by simp⟩
    have hfind := Table.find?_insert?_self (Relation.insertRow_eq_ok hinsert).1
    show (t.find? p.runId).map _ = _
    rw [← Except.ok.inj hid]
    exact congrArg (Option.map _) hfind

/-- A second context changes the manifest of the run. -/
theorem SecondContext.imprint {accountId : Uuid} {p : Prepared} {s s₃ : Session} {bundle : ContextBundle}
    (h : SecondContext out accountId p s bundle s₃) {manifest : Json} {provider model : Option Uuid}
    (himprint : imprint s.db p.runId = some (manifest, provider, model)) :
    OrchestrationService.imprint s₃.db p.runId = some (bundle.manifest, provider, model) := by
  obtain ⟨first, result, s₁, results, ids, run, hcall, -, -, -, hupdate⟩ := h
  have hkept : OrchestrationService.imprint s₁.db p.runId = some (manifest, provider, model) :=
    (congrFun ((callModel_imprint _ _ _ _ _).of_apply hcall) _).trans himprint
  obtain ⟨stored, hstored, -, rfl⟩ := updateRun_ok hupdate
  rw [OrchestrationService.imprint, hstored, Option.map_some] at hkept
  obtain ⟨-, hcolumns⟩ := Prod.mk.inj (Option.some.inj hkept)
  obtain ⟨hprovider, hmodel⟩ := Prod.mk.inj hcolumns
  have hput := (imprint_put (Table.mem_of_find? hstored)
    (rfl : { stored with contextManifest := bundle.manifest }.id = stored.id)).1
  rw [← Table.key_of_find? hstored]
  refine hput.trans ?_
  rw [← hprovider, ← hmodel]

theorem asked_of_append {s s' : Session} (calls : List ChatCall) (h : s'.chats = s.chats ++ calls) :
    asked s s' = calls := by
  rw [asked, h, List.drop_left]

/-- The description of the last call, once the preparation is known. -/
theorem describes_iff {accountId conversationId messageId : Uuid} {p : Prepared} {s s₀ s' : Session}
    (hp : prepare out (runOf? s.db accountId messageId) accountId conversationId messageId s = (.ok p, s₀))
    {call : ChatCall} (hcall : (asked s s').getLast? = some call) {manifest : Json} {provider model : Option Uuid}
    (himprint : imprint s'.db p.runId = some (manifest, provider, model)) :
    Describes out accountId conversationId messageId s s' ↔ ∃ bundle, ContextOf out accountId p s₀ bundle ∧
      call.request = chatRequest out p.model bundle.prompt p.messages ∧ manifest = bundle.manifest ∧
        provider = some p.provider.id ∧ model = some p.model.id := by
  obtain ⟨run, hrun, hcolumns⟩ := Option.map_eq_some_iff.mp himprint
  obtain ⟨rfl, hrest⟩ := Prod.mk.inj hcolumns
  obtain ⟨rfl, rfl⟩ := Prod.mk.inj hrest
  constructor
  · intro h
    obtain ⟨p', s₀', bundle, run', hp', hcontext, hrequest, hrun', hmanifest, hprovider, hmodel⟩ := h call hcall
    rw [hp] at hp'
    obtain ⟨hsame, rfl⟩ := Prod.mk.inj hp'
    obtain rfl := Except.ok.inj hsame
    rw [hrun] at hrun'
    obtain rfl := Option.some.inj hrun'
    exact ⟨bundle, hcontext, hrequest, hmanifest, hprovider, hmodel⟩
  · rintro ⟨bundle, hcontext, hrequest, hmanifest, hprovider, hmodel⟩ call' hcall'
    rw [hcall] at hcall'
    obtain rfl := Option.some.inj hcall'
    exact ⟨p, s₀, bundle, run, hp, hcontext, hrequest, hrun, hmanifest, hprovider, hmodel⟩

/-- What the decision leaves is truthful or not, and the rest of the call changes nothing of it. -/
theorem describes_iff_of_decided {accountId conversationId messageId : Uuid} {p : Prepared}
    {r : Except Exc Decided} {s s₀ s₁ s' : Session} (hanew : Anew s.db accountId messageId)
    (hp : prepare out (runOf? s.db accountId messageId) accountId conversationId messageId s = (.ok p, s₀))
    (hd : obtainDecision out accountId p s₀ = (r, s₁)) (hr : ∀ e, r = .error e → e.IsDomain)
    (himprint : Same imprint s₁ s') (hchats : s'.chats = s₁.chats) :
    Describes out accountId conversationId messageId s s' ↔
      Truthful out accountId conversationId messageId s := by
  have hbefore : s₀.chats = s.chats := (prepare_silent _ _ _ _).of_apply hp
  obtain ⟨manifest, provider, model, himprint₀, hcurrent⟩ := prepare_imprint hp
  -- the condition, for the one preparation that there is
  have htruthful : Truthful out accountId conversationId messageId s ↔
      (out.providerRuntime s₀.db p.provider = none →
        (∀ run, runOf? s.db accountId messageId = some run → Current out accountId p s₀ run) ∧
        ∀ bundle s₃, SecondContext out accountId p s₀ bundle s₃ → out.providerRuntime s₃.db p.provider = none) := by
    constructor
    · exact fun h => h hanew p s₀ hp
    · intro h _ p' s₀' hp'
      rw [hp] at hp'
      obtain ⟨hsame, rfl⟩ := Prod.mk.inj hp'
      obtain rfl := Except.ok.inj hsame
      exact h
  rw [htruthful, hcurrent]
  rcases obtainDecision_cases hd hr with ⟨hbroken, rfl⟩ | ⟨hruntime, honce | ⟨bundle, s₃, htwice⟩⟩
  · -- the model is not called
    have hnone : asked s s' = [] := asked_of_append [] (by rw [hchats, hbefore, List.append_nil])
    refine ⟨fun _ hruntime => absurd hruntime hbroken, fun _ call hcall => ?_⟩
    rw [hnone] at hcall
    cases hcall
  · obtain ⟨call, hcalls, hrequest⟩ := honce.asked
    have hlast : (asked s s').getLast? = some call := by
      rw [asked_of_append [call] (by rw [hchats, hcalls, hbefore])]
      rfl
    have hstored : imprint s'.db p.runId = some (manifest, provider, model) :=
      (congrFun (himprint.trans honce.imprint) _).trans himprint₀
    rw [describes_iff hp hlast hstored]
    constructor
    · rintro ⟨bundle, rfl | ⟨s₃, hsecond⟩, -, hmanifest, hprovider, hmodel⟩ -
      · refine ⟨⟨hprovider, hmodel, fun _ => hmanifest⟩, fun bundle s₃ hsecond => ?_⟩
        exact absurd hsecond (honce.single _ _)
      · exact absurd hsecond (honce.single _ _)
    · intro h
      obtain ⟨⟨hprovider, hmodel, hmanifest⟩, -⟩ := h hruntime
      exact ⟨p.bundle, .inl rfl, hrequest, hmanifest honce.single, hprovider, hmodel⟩
  · obtain ⟨call, hrequest, hcalls⟩ := htwice.asked
    have hstored : imprint s'.db p.runId = some (bundle.manifest, provider, model) :=
      (congrFun (himprint.trans htwice.imprint) _).trans (htwice.second.imprint himprint₀)
    have hfirst := (prepare_built hp).2.2.2.1
    have hverbosity : verbosityOf s₀.db = verbosityOf s.db :=
      (prepare_keeps (fun _ _ => rfl) _ _ _ _ : Tx.Keeps (Same verbosityOf) _).of_apply hp
    rcases hcalls with ⟨hbroken, hcalls⟩ | ⟨hloaded, call', hcalls, hrequest'⟩
    · -- the run has the second manifest, and only the first prompt was sent
      have hlast : (asked s s').getLast? = some call := by
        rw [asked_of_append [call] (by rw [hchats, hcalls, hbefore])]
        rfl
      rw [describes_iff hp hlast hstored]
      constructor
      · rintro ⟨bundle', rfl | ⟨s₃', hsecond⟩, hsent, hmanifest, -⟩
        · exact absurd hmanifest (htwice.second.manifest_ne hfirst)
        · obtain ⟨rfl, -⟩ := htwice.second.unique hsecond
          exact absurd (chatRequest_prompt (hsent.symm.trans hrequest)) (htwice.second.prompt_ne hfirst hverbosity)
      · exact fun h => absurd ((h hruntime).2 _ _ htwice.second) hbroken
    · have hlast : (asked s s').getLast? = some call' := by
        rw [asked_of_append [call, call'] (by rw [hchats, hcalls, hbefore])]
        rfl
      rw [describes_iff hp hlast hstored]
      constructor
      · rintro ⟨bundle', -, -, -, hprovider, hmodel⟩ -
        refine ⟨⟨hprovider, hmodel, fun h => absurd htwice.second (h _ _)⟩, fun bundle₂ s₃' hsecond => ?_⟩
        obtain ⟨-, rfl⟩ := htwice.second.unique hsecond
        exact hloaded
      · intro h
        obtain ⟨⟨hprovider, hmodel, -⟩, -⟩ := h hruntime
        exact ⟨bundle, .inr ⟨s₃, htwice.second⟩, hrequest', rfl, hprovider, hmodel⟩

/-- A session that commits ends as its work does. -/
theorem eq_of_commits {α : Type} {m : Work α} {r : Except Exc α} {s s' : Session}
    (h : Database.session m s = (r, s')) (hcommits : ∀ e, r = .error e → e.Durable) : m s = (r, s') := by
  rcases hm : m s with ⟨e | a, s₁⟩
  · by_cases hd : e.Durable
    · rw [Database.session_of_durable hm hd] at h
      exact h
    · rw [Database.session_of_rollback hm hd] at h
      obtain ⟨hr, -⟩ := Prod.mk.inj h
      exact absurd (hcommits e hr.symm) hd
  · rw [Database.session_of_ok hm] at h
    exact h

/-- A committed call that got past its preparation, from its decision on. -/
theorem decided_of_answered {accountId : Uuid} {p : Prepared} {context : AuditContext}
    {r : Except Exc OrchestrationResult} {s₀ s' : Session}
    (h : Tx.handle (answerPrepared out accountId p context) (fun e => do
        failRun out p.runId context e
        Tx.raise e.markDurable) s₀ = (r, s')) (hcommits : ∀ e, r = .error e → e.Durable) :
    ∃ d s₁, obtainDecision out accountId p s₀ = (d, s₁) ∧ (∀ e, d = .error e → e.IsDomain) ∧
      Same imprint s₁ s' ∧ s'.chats = s₁.chats := by
  have : Std.Refl fun s s' : Session => s'.chats = s.chats := ⟨fun _ => rfl⟩
  have : IsTrans Session fun s s' => s'.chats = s.chats := ⟨fun _ _ _ h h' => h'.trans h⟩
  have hprepared : ∀ {d : Decided} {s₁ s₂ : Session} {r₂ : Except Exc OrchestrationResult},
      (do let actions ← createActions out p.runId accountId p.conversation p.sourceMessage d.decision
          conclude out p d actions context : Work OrchestrationResult) s₁ = (r₂, s₂) →
      Same imprint s₁ s₂ ∧ s₂.chats = s₁.chats := by
    intro d s₁ s₂ r₂ hrest
    constructor
    · exact (Tx.Keeps.bind (createActions_keeps (fun _ _ => rfl) _ _ _ _ _) fun actions =>
        conclude_imprint p d actions context).of_apply hrest
    · exact (Tx.Keeps.bind (createActions_silent (fun _ _ h => h) _ _ _ _ _) fun actions =>
        conclude_silent (fun _ _ h => h) p d actions context : Tx.Keeps (fun s s' => s'.chats = s.chats) _).of_apply
        hrest
  rcases Tx.handle_cases h with ⟨a, hanswer, -⟩ | ⟨e, s₂, hanswer, hfail⟩
  · obtain ⟨d, s₁, hd, hrest⟩ := Tx.bind_eq_ok hanswer
    exact ⟨.ok d, s₁, hd, by simp, hprepared hrest⟩
  · rcases Tx.bind_cases hfail with ⟨e', hfailed, hr⟩ | ⟨u, s₃, hfailed, hraise⟩
    · exact absurd (hcommits e' hr).isDomain (failRun_noDomain _ _ _ s₂ e' (congrArg Prod.fst hfailed))
    obtain ⟨hr, rfl⟩ := Prod.mk.inj hraise
    have hkept : Same imprint s₂ s₃ ∧ s₃.chats = s₂.chats :=
      ⟨(failRun_imprint _ _ _).of_apply hfailed, (failRun_silent (fun _ _ h => h) _ _ _ :
        Tx.Keeps (fun s s' : Session => s'.chats = s.chats) _).of_apply hfailed⟩
    have hdomain : e.IsDomain := (Exc.durable_markDurable e).mp (hcommits _ hr.symm)
    rcases Tx.bind_cases hanswer with ⟨e', hd, he⟩ | ⟨d, s₁, hd, hrest⟩
    · refine ⟨.error e', s₂, hd, fun e'' he' => ?_, hkept⟩
      rw [← Except.error.inj he', ← Except.error.inj he]
      exact hdomain
    · obtain ⟨himprint, hchats⟩ := hprepared hrest
      exact ⟨.ok d, s₁, hd, by simp, hkept.1.trans himprint, hkept.2.trans hchats⟩

/-- **When the manifest describes the context used.** -/
theorem manifest_iff {accountId conversationId messageId : Uuid} {context : Option AuditContext}
    {r : Except Exc OrchestrationResult} {s s' : Session}
    (h : Database.session (answer out accountId conversationId messageId context) s = (r, s'))
    (hcommits : ∀ e, r = .error e → e.Durable) :
    Describes out accountId conversationId messageId s s' ↔ Truthful out accountId conversationId messageId s := by
  -- a call that asks nothing has nothing to describe
  have hidle : s'.chats = s.chats → Describes out accountId conversationId messageId s s' := by
    intro hchats call hcall
    rw [asked_of_append [] (by rw [hchats, List.append_nil])] at hcall
    cases hcall
  rcases answer_cases (eq_of_commits h hcommits) with
    ⟨run, hrun, hreplayable, hreplay⟩ | ⟨run, e, hrun, hprogress, rfl, rfl⟩ | ⟨hanew, hm⟩
  · have hs : s = s' := (replay_reading run).of_apply hreplay
    refine iff_of_true (hidle (by rw [hs])) fun hanew => ?_
    rw [(hanew run hrun).1] at hreplayable
    cases hreplayable
  · refine iff_of_true (hidle rfl) fun hanew => ?_
    rw [(hanew run hrun).2] at hprogress
    cases hprogress
  unfold answerAnew at hm
  rcases Tx.bind_cases hm with ⟨e, hp, -⟩ | ⟨p, s₀, hp, hrest⟩
  · refine iff_of_true (hidle ((prepare_silent _ _ _ _).of_apply hp)) fun _ p s₀ hother => ?_
    rw [hp] at hother
    cases (Prod.mk.inj hother).1
  · obtain ⟨d, s₁, hd, hdomain, himprint, hchats⟩ := decided_of_answered hrest hcommits
    exact describes_iff_of_decided hanew hp hd hdomain himprint hchats

/-! ### A run that is retried after the model was changed -/

/-- A failed run that another model was selected for. -/
def formerRun : OrchestrationRun :=
  { id := 7, accountId := 1, conversationId := 2, sourceMessageId := 3, state := .failed
    orchestrationVersion := orchestrationVersion, promptVersion := promptVersion
    providerId := some 5, modelId := some 8
    contextManifest := .obj [("orchestration_version", .str orchestrationVersion)]
    attemptCount := 1, errorCode := some "provider_timeout", version := 2 }

def formerSession : Session where
  began := .utc 1767268800000000
  db := { Db.sample (.singleton (.sample "Kdy jedu do Prahy?")) with orchestrationRuns := .singleton formerRun }

def formerDecision : ModelDecision where
  intent := .conversation
  resultType := .answer
  answer := "V pondělí."
  uncertainty := .none
  answer_bounds := by decide
  sources_bound := noSources_bound
  toolCalls_bound := noCalls_bound
  confirmed := answer_confirmed

def formerOutside : Outside := .sample (.sample 1767268800000000 [])
  (fun _ _ => .ok ⟨"resp-1", "", .null, none, none⟩) (fun _ => .ok formerDecision)

/-- The retry of the failed run. -/
def formerAnswer : Except Exc OrchestrationResult × Session :=
  Database.session (answer formerOutside 1 2 3 none) formerSession

theorem formerAnswer_def : Database.session (answer formerOutside 1 2 3 none) formerSession =
    (formerAnswer.1, formerAnswer.2) := Prod.mk.eta.symm

theorem formerAnswer_ok : formerAnswer.1.toBool = true := by decide +kernel

/-- The model that is selected for the retry. -/
theorem formerSession_model : (match (primaryModel formerOutside formerSession).1 with
    | .ok (_, model) => model.id == 4
    | .error _ => false) = true := by decide +kernel

theorem formerAnswer_runs : (asked formerSession formerAnswer.2).length = 1 ∧
    formerAnswer.2.db.orchestrationRuns.rows.map (fun run => run.modelId) = [some 8] := by decide +kernel

/-- The retry answers with the model that is selected now, and the run names the former one. -/
theorem manifest_stale : (∃ result, formerAnswer.1 = .ok result) ∧
    ¬Describes formerOutside 1 2 3 formerSession formerAnswer.2 := by
  constructor
  · have hok := formerAnswer_ok
    cases hanswer : formerAnswer.1 with
    | error e =>
      rw [hanswer] at hok
      cases hok
    | ok result => exact ⟨result, rfl⟩
  · intro h
    obtain ⟨hlength, hmodels⟩ := formerAnswer_runs
    obtain ⟨call, hcall⟩ := List.length_eq_one_iff.mp hlength
    obtain ⟨p, s₀, bundle, run, hp, -, -, hrun, -, -, hmodel⟩ := h call (by rw [hcall, List.getLast?_singleton])
    have hselected := formerSession_model
    rw [(prepare_built hp).2.2.1] at hselected
    have hmem : run ∈ formerAnswer.2.db.orchestrationRuns := Table.mem_of_find? hrun
    rw [Table.mem_def] at hmem
    have hmapped := List.mem_map_of_mem (f := fun run : OrchestrationRun => run.modelId) hmem
    rw [hmodels, hmodel, List.mem_singleton] at hmapped
    have hfour : p.model.id = 4 := beq_iff_eq.mp hselected
    rw [hfour] at hmapped
    cases hmapped

/-- The condition fails for the retry. -/
theorem manifest_iff_former : Describes formerOutside 1 2 3 formerSession formerAnswer.2 ↔
    Truthful formerOutside 1 2 3 formerSession := by
  apply manifest_iff formerAnswer_def
  intro e he
  have hok := formerAnswer_ok
  rw [he] at hok
  cases hok

end KajovoDagmar.OrchestrationService
