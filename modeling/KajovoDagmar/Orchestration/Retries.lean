import KajovoDagmar.Orchestration.Anchors
import KajovoDagmar.Orchestration.Answers
import Mathlib.Data.List.MinMax

/-! # Retrying a turn

An answer never meets its own attempts, runs and messages at a unique constraint.  The keys of
its actions are another matter: they do not depend on the attempt, so a retry that decides the
same again meets the actions of the first pass. -/

namespace KajovoDagmar.OrchestrationService

variable {out : Outside}

/-! ### What is read clashes with nothing -/

/-- The unique constraints of the tables that an answer writes. -/
def uniqueConstraints : List String :=
  ["orchestration_run_source_message_id_key", "orchestration_attempt_run_id_attempt_number_key",
   "tool_action_idempotency_key_key", "uq_conversation_message_conversation_sequence",
   "uq_conversation_message_conversation_idempotency"]

/-- A unique constraint of these tables is violated. -/
def Clash : Exc → Prop
  | .integrity c => c ∈ uniqueConstraints
  | _ => False

abbrev NoClash {α : Type} (m : Work α) : Prop := Tx.RaisesOnly (fun e => ¬Clash e) m

/-- Providers and the search index raise no violation of these constraints. -/
structure Foreign (out : Outside) : Prop where
  chat : ∀ n request e, out.chat n request = .error e → ¬Clash e
  runtime : ∀ db provider e, out.providerRuntime db provider = some e → ¬Clash e
  ranked : ∀ db n accountId ownerType query limit e,
    out.rankedOwnerIds db n accountId ownerType query limit = .error e → ¬Clash e

theorem primaryModel_noClash : NoClash (primaryModel out) := by
  unfold primaryModel
  refine (Tx.RaisesOnly.gets _).bind fun row => (Tx.RaisesOnly.raiseIf fun _ => id).bind fun _ => ?_
  refine (Tx.RaisesOnly.orRaise id).bind fun modelUuid => (Tx.RaisesOnly.gets _).bind fun models => ?_
  refine (Tx.RaisesOnly.orRaise id).bind fun model => (Tx.RaisesOnly.raiseIf fun _ => id).bind fun _ => ?_
  refine (Tx.RaisesOnly.gets _).bind fun providers => ?_
  exact (Tx.RaisesOnly.orRaise id).bind fun provider => Tx.RaisesOnly.pure _

/-- A ranking that is read off the session. -/
theorem ranking_noClash (hout : Foreign out) {α : Type} {accountId : Uuid} {ownerType query : String}
    {limit : ℕ} {f : List Uuid → Work α} (hf : ∀ ranked, NoClash (f ranked)) :
    NoClash (do
      let answer ← Tx.gets fun s => out.rankedOwnerIds s.db s.tick accountId ownerType query limit
      let ranked ← Tx.ofExcept answer
      f ranked) := by
  intro s e he
  rw [Tx.gets_bind_apply] at he
  rcases hr : out.rankedOwnerIds s.db s.tick accountId ownerType query limit with e' | ranked
  · rw [hr] at he
    obtain rfl : e' = e := by simpa [Tx.bind_apply] using he
    exact hout.ranked _ _ _ _ _ _ _ hr
  · rw [hr] at he
    exact hf ranked s e he

theorem buildContext_noClash (hout : Foreign out) (accountId : Uuid) (conversation : Conversation)
    (messages : List ConversationMessage) (sourceMessage : ConversationMessage)
    (normalizedInput : String) (toolResults : List ToolResult) : NoClash
      (buildContext out accountId conversation messages sourceMessage normalizedInput toolResults) := by
  unfold buildContext
  refine ranking_noClash hout fun ranked => ?_
  refine ((Tx.RaisesOnly.gets _).bind fun rows => Tx.RaisesOnly.pure _).bind fun memories => ?_
  refine (Tx.RaisesOnly.gets _).bind fun sources => (Tx.RaisesOnly.gets _).bind fun verbosity => ?_
  exact Tx.RaisesOnly.pure _

theorem executeReadTools_noClash (hout : Foreign out) (accountId : Uuid) (calls : List ToolCallDecision) :
    NoClash (executeReadTools out accountId calls) := by
  have hitems : ∀ name query limit, NoClash (toolItems out accountId name query limit) := by
    intro name query limit
    unfold toolItems
    refine ranking_noClash hout fun ranked => (Tx.RaisesOnly.raiseIf fun _ => id).bind fun _ => ?_
    unfold MemoryService.search HistoryService.search
    split
    · exact ((Tx.RaisesOnly.gets _).bind fun rows => Tx.RaisesOnly.pure _).bind fun _ => Tx.RaisesOnly.pure _
    · exact ((Tx.RaisesOnly.gets _).bind fun messages => (Tx.RaisesOnly.gets _).bind fun rows =>
        Tx.RaisesOnly.pure _).bind fun _ => Tx.RaisesOnly.pure _
  unfold executeReadTools
  refine (Tx.RaisesOnly.forEach fun call => ?_).bind fun results => Tx.RaisesOnly.pure _
  unfold executeReadTool
  extract_lets arguments query
  clear_value query arguments
  refine (Tx.RaisesOnly.raiseIf fun _ => id).bind fun _ => (Tx.RaisesOnly.orRaise id).bind fun limit => ?_
  exact (hitems _ _ _).bind fun items => Tx.RaisesOnly.pure _

theorem detail_noClash (accountId conversationId : Uuid) (includeDeleted : Bool) :
    NoClash (HistoryService.detail accountId conversationId includeDeleted) := by
  unfold HistoryService.detail
  refine (Tx.RaisesOnly.gets _).bind fun row => (Tx.RaisesOnly.orRaise id).bind fun c => ?_
  exact (Tx.RaisesOnly.gets _).bind fun messages => Tx.RaisesOnly.pure _

theorem get_noClash (accountId memoryId : Uuid) (includeDeleted : Bool) :
    NoClash (MemoryService.get accountId memoryId includeDeleted) := by
  unfold MemoryService.get
  exact (Tx.RaisesOnly.gets _).bind fun row => Tx.RaisesOnly.orRaise id

theorem normalizeAction_noClash (accountId : Uuid) (call : ToolCallDecision)
    (conversation : Conversation) (sourceMessage : ConversationMessage) :
    NoClash (normalizeAction out accountId call conversation sourceMessage) := by
  have hmemory : ∀ name args, NoClash (normalizeMemory out accountId name args) := by
    intro name args
    unfold normalizeMemory
    refine (Tx.RaisesOnly.orRaise id).bind fun memoryId => (get_noClash _ _ _).bind fun item => ?_
    refine (Tx.RaisesOnly.orRaise id).bind fun expected => ?_
    exact (Tx.RaisesOnly.raiseIf fun _ => id).bind fun _ => Tx.RaisesOnly.pure _
  have hhistory : ∀ name args, NoClash (normalizeHistory out accountId name args) := by
    intro name args
    unfold normalizeHistory
    refine (Tx.RaisesOnly.orRaise id).bind fun conversationId => ?_
    refine (detail_noClash _ _ _).bind fun target => (Tx.RaisesOnly.orRaise id).bind fun expected => ?_
    exact (Tx.RaisesOnly.raiseIf fun _ => id).bind fun _ => Tx.RaisesOnly.pure _
  unfold normalizeAction
  split
  · unfold normalizeCreate
    exact (Tx.RaisesOnly.orRaise id).bind fun request => Tx.RaisesOnly.pure _
  · exact hmemory _ _
  · exact hmemory _ _
  · exact hmemory _ _
  · exact hmemory _ _
  · unfold normalizeMerge
    refine (Tx.RaisesOnly.orRaise id).bind fun raw => (Tx.RaisesOnly.orRaise id).bind fun ids => ?_
    refine (Tx.RaisesOnly.raiseIf fun _ => id).bind fun _ => (Tx.RaisesOnly.gets _).bind fun sources => ?_
    refine (Tx.RaisesOnly.raiseIf fun _ => id).bind fun _ => ?_
    exact (Tx.RaisesOnly.orRaise id).bind fun request => Tx.RaisesOnly.pure _
  · exact hhistory _ _
  · exact hhistory _ _
  · exact hhistory _ _
  all_goals exact Tx.RaisesOnly.raise id

/-! ### An answer up to its actions -/

/-- Whatever the computation ends with, the attempts and runs stay anchored, and no unique
constraint is violated. -/
abbrev Quiet {α : Type} (m : Work α) : Prop := Tx.Guards (fun s => Anchored s.db) (fun e => ¬Clash e) m

/-- A predicate of the rows is kept by what only reads them. -/
theorem guards_of_db {α : Type} {p : Db → Prop} {F : Exc → Prop} {m : Work α}
    (hk : Tx.Keeps (Same id) m) (hf : Tx.RaisesOnly F m) : Tx.Guards (fun s => p s.db) F m :=
  Tx.Guards.of_keeps (fun s s' (h : s'.db = s.db) hp => by rwa [h]) hk hf

theorem newUuid_guards {p : Db → Prop} {F : Exc → Prop} :
    Tx.Guards (fun s => p s.db) F (newUuid out.toRuntime) :=
  guards_of_db (Same.newUuid _) (Tx.RaisesOnly.modifyGet _)

theorem utcNow_guards {p : Db → Prop} {F : Exc → Prop} :
    Tx.Guards (fun s => p s.db) F (utcNow out.toRuntime) :=
  guards_of_db (Same.utcNow _) (Tx.RaisesOnly.modifyGet _)

theorem Quiet.of_keeps {α : Type} {m : Work α} (hk : Tx.Keeps (Same anchors) m) (hf : NoClash m) :
    Quiet m :=
  Tx.Guards.of_keeps (fun _ _ hs hinv => hinv.congr hs) hk hf

theorem append_quiet {context : AuditContext} {eventType result : String} {targetType : Option String}
    {targetId : Option Uuid} {details : List (String × Json)} : Quiet
      (AuditService.append out.toRuntime context eventType result targetType targetId details) := by
  refine Quiet.of_keeps append_anchors ?_
  unfold AuditService.append
  refine (Tx.RaisesOnly.gets _).bind fun previous => (Tx.RaisesOnly.modifyGet _).bind fun now => ?_
  refine Tx.RaisesOnly.bind ?_ fun _ => Tx.RaisesOnly.pure _
  intro s e he
  rcases hs : Db.auditEvent.add out.toRuntime _ s with ⟨e' | u, s'⟩ <;> rw [hs] at he
  · obtain rfl : e' = e := by simpa using he
    rcases Relation.add_error_cases hs with ⟨c, rfl⟩ | rfl | ⟨x, hx, c, hc, rfl⟩
    · exact id
    · intro h
      simp [Clash, uniqueConstraints, Db.auditEvent] at h
    · simp [Db.auditEvent] at hc
  · simp at he

theorem updateRun_quiet {f : OrchestrationRun → OrchestrationRun}
    (hcount : ∀ r, r.attemptCount ≤ (f r).attemptCount)
    (hsource : ∀ r, (f r).sourceMessageId = r.sourceMessageId)
    (haccount : ∀ r, (f r).accountId = r.accountId) (runId : Uuid) : Quiet (updateRun out runId f) :=
  updateRun_guards hcount hsource haccount runId fun _ => id

/-! ### The model calls -/

/-- The attempts and runs are anchored, and the exception violates no unique constraint. -/
def Refused (e : Exc) (s : Session) : Prop := Anchored s.db ∧ ¬Clash e

/-- The number of an attempt is counted by its run. -/
def CountedAttempt (runId : Uuid) (number : ℕ) (db : Db) : Prop := Anchored db ∧ Counted db runId number

/-- The next attempt of a run has a number of its own. -/
def NextAttempt (runId : Uuid) (number : ℕ) (db : Db) : Prop :=
  CountedAttempt runId number db ∧
    ∀ a ∈ db.orchestrationAttempts, ¬(a.runId = runId ∧ a.attemptNumber = number)

theorem countAttempt_leads (runId : Uuid) : Tx.Leads (fun s => Anchored s.db)
    (fun run s => NextAttempt runId run.attemptCount s.db) Refused
    (updateRun out runId fun r => { r with attemptCount := r.attemptCount + 1 }) := by
  have hquiet : Quiet (updateRun out runId fun r : OrchestrationRun => { r with
      attemptCount := r.attemptCount + 1 }) := by
    exact updateRun_quiet (by intro r; exact Nat.le_succ _) (by intro r; rfl) (by intro r; rfl) runId
  intro s hinv
  refine ⟨?_, fun e s' h => ⟨hquiet.of_apply hinv h, hquiet.of_error hinv h⟩⟩
  intro run s' h
  have hinv' := hquiet.of_apply hinv h
  obtain ⟨stored, hstored, rfl, rfl⟩ := updateRun_ok h
  have hmem := Table.mem_of_find? hstored
  have hid : stored.id = runId := Table.key_of_find? hstored
  refine ⟨⟨hinv', ?_⟩, ?_⟩
  · refine ⟨{ stored with attemptCount := stored.attemptCount + 1 }, ?_, hid, le_rfl⟩
    exact Table.mem_put_iff.mpr (.inr ⟨rfl, stored, hmem, rfl⟩)
  · rintro a ha ⟨hof, hnumber⟩
    obtain ⟨r, hr, hrid, hcount⟩ := hinv.attempts a ha
    obtain rfl : r = stored := Table.eq_of_key hr hmem (hrid.trans (hof.trans hid.symm))
    simp only at hnumber
    omega

theorem attemptCall_guards (hout : Foreign out) (attempt : OrchestrationAttempt) (request : ChatRequest) :
    Tx.Guards (fun s => CountedAttempt attempt.runId attempt.attemptNumber s.db) (fun e => ¬Clash e)
      (attemptCall out attempt request) := by
  unfold attemptCall
  refine Tx.Guards.bind ?_ fun result => Tx.Guards.bind ?_ fun decision => ?_
  · intro s hP
    exact ⟨hP, fun e he => hout.chat _ _ _ he⟩
  · refine guards_of_db (fun _ => rfl) ?_
    intro s e he
    rcases hv : out.validateDecision result.structured with errors | d
    · simp only [hv, Except.mapError, Tx.ofExcept_apply, Except.error.injEq] at he
      exact he ▸ id
    · simp [hv, Except.mapError] at he
  · refine Tx.Guards.bind utcNow_guards fun now => Tx.Guards.bind ?_ fun _ => .pure _
    exact Relation.save_guards (fun s hP => ⟨hP.1.put_attempt hP.2, hP.2⟩) fun _ => id

theorem failAttempt_guards (attempt : OrchestrationAttempt) (e : Exc) :
    Tx.Guards (fun s => CountedAttempt attempt.runId attempt.attemptNumber s.db) (fun e => ¬Clash e)
      (failAttempt out attempt e) := by
  unfold failAttempt
  refine Tx.Guards.bind utcNow_guards fun now => ?_
  exact Relation.save_guards (fun s hP => ⟨hP.1.put_attempt hP.2, hP.2⟩) fun _ => id

/-- The attempt of a number that is not taken is added. -/
theorem addAttempt_leads (attempt : OrchestrationAttempt) :
    Tx.Leads (fun s => NextAttempt attempt.runId attempt.attemptNumber s.db)
      (fun _ s => CountedAttempt attempt.runId attempt.attemptNumber s.db) Refused
      (Db.orchestrationAttempt.add out.toRuntime attempt) := by
  refine Relation.add_leads ?_ (fun s c hP => ⟨hP.1.1, id⟩) ?_ ?_
  · intro s t hP ht
    exact ⟨hP.1.1.insert_attempt (Relation.insertRow_eq_ok ht).1 hP.1.2, hP.1.2⟩
  · intro s hP
    refine ⟨hP.1.1, fun h => ?_⟩
    simp [Clash, uniqueConstraints, Db.orchestrationAttempt] at h
  · intro s hP x hx c hc
    simp only [Db.orchestrationAttempt] at hc
    rw [if_neg (hP.2 x hx)] at hc
    simp at hc

theorem callModel_quiet (hout : Foreign out) (runId : Uuid) (provider : ProviderConfiguration)
    (model : ModelCatalogEntry) (prompt : String) (messages : List ConversationMessage) :
    Quiet (callModel out runId provider model prompt messages) := by
  refine Tx.Leads.guards ?_
  unfold callModel
  refine Tx.Leads.bind (Q := fun broken s => Anchored s.db ∧ ∀ e, broken = some e → ¬Clash e)
    (Tx.Leads.gets fun s hinv => ⟨hinv, fun e he => hout.runtime _ _ e he⟩) fun broken => ?_
  refine Tx.Leads.bind (Q := fun _ s => Anchored s.db)
    (Tx.Leads.raiseSome (fun _ hP => hP.1) fun e he s hP => ⟨hP.1, hP.2 e he⟩) fun _ => ?_
  refine (countAttempt_leads runId).bind fun run => ?_
  have hid : Tx.Guards (fun s => NextAttempt runId run.attemptCount s.db) (fun e => ¬Clash e)
      (newUuid out.toRuntime) := newUuid_guards
  refine Tx.Leads.bind (hid.leads.conseq (fun _ h => h) (fun _ _ h => h) fun e s h => ⟨h.1.1.1, h.2⟩)
    fun id => ?_
  extract_lets attempt
  refine (addAttempt_leads attempt).bind fun _ => ?_
  have hrest : Tx.Guards (fun s => CountedAttempt attempt.runId attempt.attemptNumber s.db)
      (fun e => ¬Clash e) (Tx.handle (attemptCall out attempt (chatRequest out model prompt messages))
        fun e => do
          failAttempt out attempt e
          Tx.raise e) :=
    Tx.Guards.handle (attemptCall_guards hout _ _) fun e he =>
      Tx.Guards.bind (failAttempt_guards _ e) fun _ => Tx.Guards.raise he
  exact hrest.leads.conseq (fun _ h => h) (fun _ _ h => h.1) fun e s h => ⟨h.1.1, h.2⟩

theorem obtainDecision_quiet (hout : Foreign out) (accountId : Uuid) (p : Prepared) :
    Quiet (obtainDecision out accountId p) := by
  unfold obtainDecision settleDecision obtainSecondDecision validateSources
  refine Tx.Guards.bind (callModel_quiet hout _ _ _ _ _) fun first => ?_
  refine Tx.Guards.bind ?_ fun decided => Tx.Guards.bind (.raiseIf id) fun _ => .pure _
  split
  · exact .pure _
  · refine Tx.Guards.bind ?_ fun found => Tx.Guards.bind ?_ fun bundle => ?_
    · exact Quiet.of_keeps (executeReadTools_keeps _ _) (executeReadTools_noClash hout _ _)
    · exact Quiet.of_keeps (buildContext_keeps _ _ _ _ _ _) (buildContext_noClash hout _ _ _ _ _ _)
    · refine Tx.Guards.bind ?_ fun run => Tx.Guards.bind (callModel_quiet hout _ _ _ _ _) fun second => ?_
      · exact updateRun_quiet (by intro r; exact le_rfl) (by intro r; rfl) (by intro r; rfl) _
      · exact Tx.Guards.bind (.raiseIf id) fun _ => .pure _

/-! ### Opening the run -/

/-- No run of another account answers a message of the account. -/
theorem Anchored.no_source {db : Db} {accountId conversationId messageId : Uuid} (hinv : Anchored db)
    (hplaced : Placed db messageId conversationId) (hbelongs : Belongs db conversationId accountId)
    (hnone : runOf? db accountId messageId = none) (r : OrchestrationRun)
    (hr : r ∈ db.orchestrationRuns) : r.sourceMessageId ≠ messageId := by
  rintro rfl
  obtain ⟨c, ⟨m, hm, hmid, hmc⟩, d, hd, hdid, hda⟩ := hinv.runs r hr
  obtain ⟨m', hm', hmid', hmc'⟩ := hplaced
  obtain rfl : m = m' := Table.eq_of_key hm hm' (hmid.trans hmid'.symm)
  obtain ⟨d', hd', hdid', hda'⟩ := hbelongs
  have hconversation : c = conversationId := hmc.symm.trans hmc'
  obtain rfl : d = d' := Table.eq_of_key hd hd' (hdid.trans (hconversation.trans hdid'.symm))
  unfold runOf? at hnone
  have hnil := List.head?_eq_none_iff.mp hnone
  have hmem : r ∈ db.orchestrationRuns.select fun x =>
      x.sourceMessageId = r.sourceMessageId ∧ x.accountId = accountId :=
    List.mem_filter.mpr ⟨hr, decide_eq_true ⟨rfl, hda.symm.trans hda'⟩⟩
  rw [hnil] at hmem
  simp at hmem

theorem openRun_leads {db : Db} {accountId conversationId messageId : Uuid} (hinv : Anchored db)
    (hplaced : Placed db messageId conversationId) (hbelongs : Belongs db conversationId accountId)
    (provider : ProviderConfiguration) (model : ModelCatalogEntry) (bundle : ContextBundle) :
    Tx.Leads (fun s => s.db = db) (fun _ s => Anchored s.db) Refused
      (openRun out (runOf? db accountId messageId) accountId conversationId messageId provider model
        bundle) := by
  cases hrun : runOf? db accountId messageId with
  | some run => exact Tx.Leads.pure fun s hs => hs ▸ hinv
  | none =>
      have hid : Tx.Guards (fun s => s.db = db) (fun e => ¬Clash e) (newUuid out.toRuntime) :=
        newUuid_guards (p := fun d => d = db)
      refine Tx.Leads.bind (hid.leads.conseq (fun _ h => h) (fun _ _ h => h)
        fun e s h => ⟨h.1 ▸ hinv, h.2⟩) fun id => ?_
      refine Tx.Leads.bind (Q := fun _ s => Anchored s.db) ?_ fun _ => Tx.Leads.pure fun _ h => h
      refine Relation.add_leads ?_ (fun s c hs => ⟨hs ▸ hinv, fun h => h⟩) ?_ ?_
      · rintro s t rfl ht
        exact hinv.insert_run (Relation.insertRow_eq_ok ht).1 hplaced hbelongs
      · intro s hs
        refine ⟨hs ▸ hinv, fun h => ?_⟩
        simp [Clash, uniqueConstraints, Db.orchestrationRun] at h
      · rintro s rfl x hx c hc
        have hne := hinv.no_source hplaced hbelongs hrun x hx
        simp only [Db.orchestrationRun, newRun] at hc
        rw [if_neg hne] at hc
        simp at hc

theorem prepare_leads {db : Db} (hout : Foreign out) {accountId conversationId messageId : Uuid}
    (hinv : Anchored db) :
    Tx.Leads (fun s => s.db = db) (fun _ s => Anchored s.db) Refused
      (prepare out (runOf? db accountId messageId) accountId conversationId messageId) := by
  have hreads : ∀ {α : Type} {m : Work α}, Tx.Keeps (Same id) m → NoClash m →
      Tx.Leads (fun s => s.db = db) (fun _ s => s.db = db) Refused m := by
    intro α m hk hf
    have hguards : Tx.Guards (fun s => s.db = db) (fun e => ¬Clash e) m :=
      guards_of_db (p := fun d => d = db) hk hf
    exact hguards.leads.conseq (fun _ h => h) (fun _ _ h => h) fun e s h => ⟨h.1 ▸ hinv, h.2⟩
  unfold prepare
  refine Tx.Leads.bind (Q := fun row s => s.db = db ∧
    row = HistoryService.conversation? db accountId conversationId)
    (Tx.Leads.gets fun s hs => ⟨hs, hs ▸ rfl⟩) fun row => ?_
  refine Tx.Leads.assume fun hrow => ?_
  refine Tx.Leads.bind (Q := fun c s => s.db = db ∧
    HistoryService.conversation? db accountId conversationId = some c)
    (Tx.Leads.orRaise (fun c hc s hs => ⟨hs, hrow ▸ hc⟩) fun s hs => ⟨hs ▸ hinv, id⟩) fun conversation => ?_
  refine Tx.Leads.assume fun hconversation => ?_
  obtain ⟨hbelongs, hid, haccount⟩ := belongs_of_conversation? hconversation
  rw [hid, haccount] at hbelongs
  refine Tx.Leads.bind (Q := fun messages s => s.db = db ∧ messages = db.messagesOf conversationId)
    (Tx.Leads.gets fun s hs => ⟨hs, hs ▸ rfl⟩) fun messages => ?_
  refine Tx.Leads.assume fun hmessages => ?_
  refine Tx.Leads.bind (Q := fun _ s => s.db = db ∧ Placed db messageId conversationId)
    (Tx.Leads.orRaise ?_ fun s hs => ⟨hs ▸ hinv, id⟩) fun sourceMessage => ?_
  · intro m hm s hs
    obtain ⟨hfind, -⟩ := Option.filter_eq_some_iff.mp hm
    have hmem := List.mem_of_find?_eq_some hfind
    have hkey : m.id = messageId := by simpa using List.find?_some hfind
    rw [hmessages, Db.mem_messagesOf] at hmem
    exact ⟨hs, m, hmem.1, hkey, hmem.2⟩
  refine Tx.Leads.assume fun hplaced => ?_
  refine Tx.Leads.bind (hreads primaryModel_keeps primaryModel_noClash) fun selected => ?_
  refine Tx.Leads.bind (hreads (buildContext_keeps _ _ _ _ _ _) (buildContext_noClash hout _ _ _ _ _ _))
    fun bundle => ?_
  exact Tx.Leads.bind (openRun_leads hinv hplaced hbelongs _ _ _) fun runId => Tx.Leads.pure fun _ h => h

/-! ### Ending the answer -/

theorem le_maxSequence {db : Db} {conversationId : Uuid} {m : ConversationMessage}
    (hm : m ∈ db.conversationMessages) (hof : m.conversationId = conversationId) :
    m.sequence ≤ ConversationService.maxSequence db conversationId := by
  unfold ConversationService.maxSequence
  have hmem : m ∈ db.conversationMessages.select fun m => m.conversationId = conversationId :=
    List.mem_filter.mpr ⟨hm, decide_eq_true hof⟩
  exact List.le_max_of_le' 0 (List.mem_map_of_mem hmem) le_rfl

/-- The next message of a conversation meets neither its number nor its key. -/
def NextMessage (c : Conversation) (key : String) (sequence : ℕ) (s : Session) : Prop :=
  Held c s ∧ ∀ x ∈ s.db.conversationMessages, x.conversationId = c.id →
    x.sequence ≠ sequence ∧ x.idempotencyKey ≠ key

theorem NextMessage.congr {c : Conversation} {key : String} {sequence : ℕ} {s s' : Session}
    (h : s'.db = s.db) (hinv : NextMessage c key sequence s) : NextMessage c key sequence s' := by
  unfold NextMessage Held at *
  rwa [h]

theorem nextMessage_guards {α : Type} {c : Conversation} {key : String} {sequence : ℕ} {m : Work α}
    (hk : Tx.Keeps (Same id) m) (hf : NoClash m) :
    Tx.Guards (NextMessage c key sequence) (fun e => ¬Clash e) m :=
  Tx.Guards.of_keeps (fun _ _ hs hP => hP.congr hs) hk hf

/-- The next message is added, and its conversation is still held. -/
theorem addMessage_leads {c : Conversation} (m : ConversationMessage) (hof : m.conversationId = c.id) :
    Tx.Leads (NextMessage c m.idempotencyKey m.sequence) (fun _ => Held c) Refused
      (Db.conversationMessage.add out.toRuntime m) := by
  refine Relation.add_leads ?_ (fun s code hP => ⟨hP.1.1, id⟩) ?_ ?_
  · intro s t hP ht
    have hinsert := (Relation.insertRow_eq_ok ht).1
    exact ⟨hP.1.1.of_placed fun _ _ h => h.insert hinsert, hP.1.2⟩
  · intro s hP
    refine ⟨hP.1.1, fun h => ?_⟩
    simp [Clash, uniqueConstraints, Db.conversationMessage] at h
  · intro s hP x hx code hcode
    -- neither the number nor the key of the message is taken in its conversation
    have hfresh := hP.2 x hx
    rw [← hof] at hfresh
    simp only [Db.conversationMessage] at hcode
    rw [if_neg fun h => (hfresh h.1).1 h.2, if_neg fun h => (hfresh h.1).2 h.2] at hcode
    simp at hcode

theorem Held.quiet {α : Type} {c : Conversation} {m : Work α}
    (h : Tx.Guards (Held c) (fun e => ¬Clash e) m) :
    Tx.Leads (Held c) (fun _ s => Anchored s.db) Refused m :=
  h.leads.conseq (fun _ hP => hP) (fun _ _ hP => hP.1) fun _ _ hE => ⟨hE.1.1, hE.2⟩

theorem appendMessage_leads {c : Conversation} (m : ConversationMessage) (hof : m.conversationId = c.id) :
    Tx.Leads (NextMessage c m.idempotencyKey m.sequence) (fun _ s => Anchored s.db) Refused
      (ConversationService.appendMessage out.toRuntime c m) := by
  unfold ConversationService.appendMessage
  refine (addMessage_leads m hof).bind fun _ => Held.quiet ?_
  refine Tx.Guards.bind (Held.of_keeps (Same.utcNow _) (Tx.RaisesOnly.modifyGet _)) fun now => ?_
  refine Tx.Guards.bind ?_ fun _ => .pure _
  exact saveConversation_held (c := { c with
    messageCount := c.messageCount + 1, lastActivityAt := now, version := c.version + 1 }) fun _ => id

theorem addAssistantTurn_quiet (conversationId runId : Uuid) (content key : String) (interrupted : Bool) :
    Quiet (ConversationService.addAssistantTurn out.toRuntime conversationId content key runId
      interrupted) := by
  refine Tx.Leads.guards ?_
  unfold ConversationService.addAssistantTurn
  refine Tx.Leads.bind (Q := fun row s => Anchored s.db ∧ row = s.db.conversations.find? conversationId)
    (Tx.Leads.gets fun s hinv => ⟨hinv, rfl⟩) fun row => ?_
  refine Tx.Leads.bind (Q := fun c s => Held c s ∧ c.id = conversationId)
    (Tx.Leads.orRaise ?_ fun s hP => ⟨hP.1, id⟩) fun c => Tx.Leads.assume fun hid => ?_
  · rintro c rfl s ⟨hinv, hc⟩
    exact ⟨⟨hinv, c, Table.mem_of_find? hc.symm, rfl, rfl⟩, Table.key_of_find? hc.symm⟩
  subst hid
  unfold ConversationService.byIdempotencyKey
  refine Tx.Leads.bind (Q := fun existing s => Held c s ∧ (existing = none →
    ∀ x ∈ s.db.conversationMessages, x.conversationId = c.id → x.idempotencyKey ≠ key))
    (Tx.Leads.bind (Q := fun rows s => Held c s ∧ rows = s.db.conversationMessages.select fun m =>
      m.conversationId = c.id ∧ m.idempotencyKey = key)
      (Tx.Leads.gets fun s hP => ⟨hP, rfl⟩) fun rows => Tx.Leads.pure ?_) fun existing => ?_
  · rintro s ⟨hP, rfl⟩
    refine ⟨hP, fun hnone x hx hof hkey => ?_⟩
    have hmem : x ∈ s.db.conversationMessages.select fun m =>
        m.conversationId = c.id ∧ m.idempotencyKey = key :=
      List.mem_filter.mpr ⟨hx, decide_eq_true ⟨hof, hkey⟩⟩
    rw [List.head?_eq_none_iff.mp hnone] at hmem
    exact List.not_mem_nil hmem
  cases existing with
  | some message => exact Tx.Leads.pure fun s hP => hP.1.1
  | none =>
      refine Tx.Leads.bind (Q := fun sequence s => NextMessage c key sequence s)
        (Tx.Leads.gets ?_) fun sequence => ?_
      · rintro s ⟨hP, hkey⟩
        refine ⟨hP, fun x hx hof => ⟨?_, hkey rfl x hx hof⟩⟩
        have hle := le_maxSequence hx hof
        omega
      have hstays : ∀ {α : Type} {m : Work α}, Tx.Keeps (Same id) m → NoClash m →
          Tx.Leads (NextMessage c key sequence) (fun _ => NextMessage c key sequence) Refused m :=
        fun hk hf => (nextMessage_guards hk hf).leads.conseq (fun _ h => h) (fun _ _ h => h)
          fun e s h => ⟨h.1.1.1, h.2⟩
      refine (hstays (Same.newUuid _) (Tx.RaisesOnly.modifyGet _)).bind fun id => ?_
      refine (hstays (Same.utcNow _) (Tx.RaisesOnly.modifyGet _)).bind fun now => ?_
      extract_lets message
      exact (appendMessage_leads message rfl).bind fun _ => Tx.Leads.pure fun _ h => h

theorem conclude_quiet (p : Prepared) (d : Decided) (actions : List ToolAction) (context : AuditContext) :
    Quiet (conclude out p d actions context) := by
  unfold conclude
  refine Tx.Guards.bind ?_ fun run => ?_
  · exact updateRun_quiet (by intro r; exact le_rfl) (by intro r; rfl) (by intro r; rfl) _
  refine Tx.Guards.bind (addAssistantTurn_quiet _ _ _ _ _) fun message => ?_
  refine Tx.Guards.bind utcNow_guards fun now => Tx.Guards.bind ?_ fun run' => ?_
  · exact updateRun_quiet (by intro r; exact le_rfl) (by intro r; rfl) (by intro r; rfl) _
  · exact Tx.Guards.bind append_quiet fun _ => .pure _

theorem failRun_quiet (runId : Uuid) (context : AuditContext) (e : Exc) :
    Quiet (failRun out runId context e) := by
  unfold failRun
  refine Tx.Guards.bind utcNow_guards fun now => Tx.Guards.bind ?_ fun run => ?_
  · exact updateRun_quiet (by intro r; exact le_rfl) (by intro r; rfl) (by intro r; rfl) _
  · exact Tx.Guards.bind append_quiet fun _ => .pure _

/-! ### The keys of the actions -/

section keys

variable (out) (runId accountId : Uuid) (conversation : Conversation) (sourceMessage : ConversationMessage)

/-- The keys of the stored actions. -/
def actionKeys (db : Db) : List String := db.toolActions.rows.map ToolAction.idempotencyKey

/-- The calls get keys that are neither taken nor given to an earlier one, as far as they are
normalised. -/
def FreshKeys (s : Session) : List String → ℕ → List ToolCallDecision → Prop
  | _, _, [] => True
  | taken, index, call :: calls => ∀ n,
      (normalizeAction out accountId call conversation sourceMessage s).1 = .ok n →
        actionKey out runId index call.name n ∉ taken ∧
          FreshKeys s (taken ++ [actionKey out runId index call.name n]) (index + 1) calls

variable {out} {runId accountId conversation sourceMessage}

/-- The store while the actions of a decision are created. -/
structure Creating (s₀ : Session) (taken : List String) (s : Session) : Prop where
  anchored : Anchored s.db
  reads : Same targets s₀ s
  keys : actionKeys s.db = taken

theorem Creating.congr {s₀ s s' : Session} {taken : List String} (h : s'.db = s.db)
    (hinv : Creating s₀ taken s) : Creating s₀ taken s' := by
  obtain ⟨hanchored, hreads, hkeys⟩ := hinv
  unfold Same at hreads
  constructor
  · rwa [h]
  · unfold Same
    rwa [h]
  · rwa [h]

theorem Creating.stays {α : Type} {s₀ : Session} {taken : List String} {m : Work α}
    (hk : Tx.Keeps (Same id) m) (hf : NoClash m) :
    Tx.Leads (Creating s₀ taken) (fun _ => Creating s₀ taken) Refused m := by
  have hguards : Tx.Guards (Creating s₀ taken) (fun e => ¬Clash e) m :=
    Tx.Guards.of_keeps (fun _ _ hs hP => hP.congr hs) hk hf
  exact hguards.leads.conseq (fun _ h => h) (fun _ _ h => h) fun e s h => ⟨h.1.anchored, h.2⟩

/-- Where the actions of a decision are created, a call is normalised as before. -/
theorem normalizeAction_leads {s₀ : Session} {taken : List String} (call : ToolCallDecision) :
    Tx.Leads (Creating s₀ taken) (fun n s => Creating s₀ taken s ∧
      (normalizeAction out accountId call conversation sourceMessage s₀).1 = .ok n) Refused
      (normalizeAction out accountId call conversation sourceMessage) := by
  intro s hP
  have hreads : Tx.Reads (Same targets) (normalizeAction out accountId call conversation sourceMessage) :=
    normalizeAction_reads _ _ _ _
  constructor
  · intro n s' h
    obtain rfl := hreads.eq h
    refine ⟨hP, ?_⟩
    rw [← (hreads s₀).2 s' hP.reads, h]
  · intro e s' h
    obtain rfl := hreads.eq h
    exact ⟨hP.anchored, normalizeAction_noClash accountId call conversation sourceMessage s' e (by rw [h])⟩

theorem addAction_leads {s₀ : Session} {taken : List String} (action : ToolAction)
    (hfresh : action.idempotencyKey ∉ taken) :
    Tx.Leads (Creating s₀ taken) (fun _ => Creating s₀ (taken ++ [action.idempotencyKey])) Refused
      (Db.toolAction.add out.toRuntime action) := by
  refine Relation.add_leads ?_ (fun s c hP => ⟨hP.anchored, id⟩) ?_ ?_
  · intro s t hP ht
    obtain ⟨hrows, -⟩ := Table.insert?_eq_some (Relation.insertRow_eq_ok ht).1
    have hview : anchors (Db.toolAction.set t s.db) = anchors s.db := rfl
    refine ⟨hP.anchored.congr hview, hP.reads, ?_⟩
    have hkeys : actionKeys s.db = taken := hP.keys
    change t.rows.map _ = _
    rw [hrows, List.map_append, ← hkeys]
    rfl
  · intro s hP
    refine ⟨hP.anchored, fun h => ?_⟩
    simp [Clash, uniqueConstraints, Db.toolAction] at h
  · intro s hP x hx c hc
    have htaken : x.idempotencyKey ∈ taken := by
      rw [← hP.keys]
      exact List.mem_map_of_mem hx
    have hne : x.idempotencyKey ≠ action.idempotencyKey := fun h => hfresh (h ▸ htaken)
    simp only [Db.toolAction] at hc
    rw [if_neg hne] at hc
    simp at hc

/-- The actions of fresh keys are created. -/
theorem createFrom_leads {s₀ : Session} {calls : List ToolCallDecision} {taken : List String} {index : ℕ}
    (hfresh : FreshKeys out runId accountId conversation sourceMessage s₀ taken index calls) :
    Tx.Leads (Creating s₀ taken) (fun _ s => Anchored s.db) Refused
      (createFrom out runId accountId conversation sourceMessage index calls) := by
  induction calls generalizing taken index with
  | nil => exact Tx.Leads.pure fun s hP => hP.anchored
  | cons call calls ih =>
      unfold createFrom createAction
      refine Tx.Leads.bind (Q := fun _ s => ∃ n,
        (normalizeAction out accountId call conversation sourceMessage s₀).1 = .ok n ∧
          Creating s₀ (taken ++ [actionKey out runId index call.name n]) s) ?_ fun action => ?_
      · refine (normalizeAction_leads call).bind fun n => Tx.Leads.assume fun hn => ?_
        refine (Creating.stays (Same.utcNow _) (Tx.RaisesOnly.modifyGet _)).bind fun now => ?_
        refine (Creating.stays (Same.newUuid _) (Tx.RaisesOnly.modifyGet _)).bind fun id => ?_
        refine (Creating.stays (Tx.Keeps.gets _) (Tx.RaisesOnly.gets _)).bind fun began => ?_
        refine (addAction_leads (newAction out id runId index call.name n now began) (hfresh n hn).1).bind
          fun _ => Tx.Leads.pure fun s hP => ⟨n, hn, hP⟩
      · rintro s ⟨n, hn, hP⟩
        have hrest := (ih (hfresh n hn).2).bind (R := fun _ s => Anchored s.db)
          (f := fun actions => pure (action :: actions)) fun _ => Tx.Leads.pure fun _ h => h
        exact hrest s hP

end keys

/-! ### A call of `answer` -/

/-- The decision on the message, if there is one, gives its actions fresh keys. -/
def DecidesFreshly (out : Outside) (accountId conversationId messageId : Uuid) (s : Session) : Prop :=
  ∀ p d s₁, Decides out accountId conversationId messageId s p d s₁ →
    FreshKeys out p.runId accountId p.conversation p.sourceMessage s (actionKeys s.db) 0
      (stateCalls d.decision)

theorem replay_noClash (run : OrchestrationRun) : NoClash (replay out run) := by
  unfold replay
  refine (Tx.RaisesOnly.gets _).bind fun row => (Tx.RaisesOnly.orRaise id).bind fun message => ?_
  refine (Tx.RaisesOnly.gets _).bind fun actions => ?_
  exact (Tx.RaisesOnly.orRaise id).bind fun decision => Tx.RaisesOnly.pure _

theorem answerPrepared_leads (hout : Foreign out) {accountId conversationId messageId : Uuid}
    {s s₀ : Session} {p : Prepared} (context : AuditContext)
    (hdecides : ∀ d s₁, obtainDecision out accountId p s₀ = (.ok d, s₁) →
      Decides out accountId conversationId messageId s p d s₁)
    (hfresh : DecidesFreshly out accountId conversationId messageId s) :
    Tx.Leads (fun x => x = s₀ ∧ Anchored s₀.db) (fun _ s' => Anchored s'.db) Refused
      (answerPrepared out accountId p context) := by
  unfold answerPrepared
  refine Tx.Leads.bind (Q := fun d s₁ => Anchored s₁.db ∧
    obtainDecision out accountId p s₀ = (.ok d, s₁)) ?_ fun d => ?_
  · rintro x ⟨rfl, hinv⟩
    have hquiet := obtainDecision_quiet hout accountId p
    exact ⟨fun d s₁ h => ⟨hquiet.of_apply hinv h, h⟩,
      fun e s₁ h => ⟨hquiet.of_apply hinv h, hquiet.of_error hinv h⟩⟩
  · rintro s₁ ⟨hinv, hd⟩
    have hdecided := hdecides d s₁ hd
    obtain ⟨hactions, -, htargets, -⟩ := hdecided.settled
    have hcreating : Creating s (actionKeys s.db) s₁ :=
      ⟨hinv, htargets, congrArg (fun t : Table ToolAction.id => t.rows.map ToolAction.idempotencyKey) hactions⟩
    rw [createActions_eq]
    have hconclude : ∀ actions, Tx.Leads (fun x => Anchored x.db) (fun _ s' => Anchored s'.db) Refused
        (conclude out p d actions context) := fun actions => (conclude_quiet p d actions context).leads
    exact ((createFrom_leads (hfresh p d s₁ hdecided)).bind hconclude) s₁ hcreating

theorem answerAnew_leads (hout : Foreign out) {accountId conversationId messageId : Uuid}
    {s : Session} (context : AuditContext) (hinv : Anchored s.db)
    (hanew : Anew s.db accountId messageId)
    (hfresh : DecidesFreshly out accountId conversationId messageId s) :
    Tx.Leads (fun x => x = s) (fun _ s' => Anchored s'.db) Refused
      (answerAnew out (runOf? s.db accountId messageId) accountId conversationId messageId context) := by
  unfold answerAnew
  refine Tx.Leads.bind (Q := fun p s₀ => Anchored s₀.db ∧
    prepare out (runOf? s.db accountId messageId) accountId conversationId messageId s = (.ok p, s₀)) ?_
    fun p => ?_
  · rintro x rfl
    have hprepare : Tx.Leads (fun y => y.db = x.db) (fun _ s' => Anchored s'.db) Refused
        (prepare out (runOf? x.db accountId messageId) accountId conversationId messageId) :=
      prepare_leads hout hinv
    obtain ⟨hok, herror⟩ := hprepare x rfl
    exact ⟨fun p s₀ h => ⟨hok p s₀ h, h⟩, herror⟩
  · rintro s₀ ⟨hinv₀, hp⟩
    have hdecides : ∀ d s₁, obtainDecision out accountId p s₀ = (.ok d, s₁) →
        Decides out accountId conversationId messageId s p d s₁ := fun d s₁ hd => ⟨hanew, s₀, hp, hd⟩
    have hbody := answerPrepared_leads hout context hdecides hfresh
    refine Tx.Leads.handle hbody (fun e => ?_) s₀ ⟨rfl, hinv₀⟩
    -- the failure is recorded, and its exception is the one of the body
    refine Tx.Leads.bind (Q := fun _ x => Refused e x) ?_ fun _ => Tx.Leads.raise ?_
    · rintro x ⟨hx, he⟩
      have hquiet : Quiet (failRun out p.runId context e) := failRun_quiet _ _ _
      exact ⟨fun u x' h => ⟨hquiet.of_apply hx h, he⟩,
        fun e' x' h => ⟨hquiet.of_apply hx h, hquiet.of_error hx h⟩⟩
    · rintro x ⟨hx, he⟩
      refine ⟨hx, fun hclash => he ?_⟩
      cases e <;> exact hclash

/-- An answer whose actions get fresh keys violates none of the unique constraints. -/
theorem answer_leads (hout : Foreign out) {accountId conversationId messageId : Uuid}
    {context : Option AuditContext} {s : Session} (hinv : Anchored s.db)
    (hfresh : DecidesFreshly out accountId conversationId messageId s) :
    Tx.Leads (fun x => x = s) (fun _ s' => Anchored s'.db) Refused
      (answer out accountId conversationId messageId context) := by
  have hall : ∀ {r s'}, answer out accountId conversationId messageId context s = (r, s') →
      Anchored s'.db ∧ ∀ e, r = .error e → ¬Clash e := by
    intro r s' h
    rcases answer_cases h with ⟨run, -, -, hreplay⟩ | ⟨run, details, -, -, rfl, rfl⟩ | ⟨hanew, hm⟩
    · obtain rfl : s = s' := (replay_reading run).of_apply hreplay
      exact ⟨hinv, fun e he => replay_noClash run s e (by rw [hreplay, he])⟩
    · refine ⟨hinv, ?_⟩
      rintro e he
      obtain rfl := Except.error.inj he
      exact id
    · have hleads := answerAnew_leads hout (auditContext accountId context) hinv hanew hfresh s rfl
      cases r with
      | ok a => exact ⟨hleads.1 a s' hm, fun e he => by simp at he⟩
      | error e =>
          obtain ⟨hinv', hclash⟩ := hleads.2 e s' hm
          exact ⟨hinv', fun e' he => Except.error.inj he ▸ hclash⟩
  rintro x rfl
  exact ⟨fun a s' h => (hall h).1, fun e s' h => ⟨(hall h).1, (hall h).2 e rfl⟩⟩

/-! ### Histories -/

/-- A decision that the call leads to gives its actions fresh keys. -/
def Call.DecidesFreshly (out : Outside) (call : Call) (s : Session) : Prop :=
  ∀ accountId conversationId messageId s₁, call.Answering out s accountId conversationId messageId s₁ →
    OrchestrationService.DecidesFreshly out accountId conversationId messageId s₁

/-- The answer that the call asks for does not fail on a unique constraint. -/
def Call.AnswersFreely (out : Outside) (call : Call) (s : Session) : Prop :=
  ∀ accountId conversationId messageId context s₁ s₂ e,
    call.Answering out s accountId conversationId messageId s₁ →
      answer out accountId conversationId messageId context s₁ = (.error e, s₂) → ¬Clash e

theorem session_anchored {α : Type} {m : Work α} {s : Session} (hinv : Anchored s.db)
    (hm : Anchored (m s).2.db) : Anchored (Database.session m s).2.db := by
  rcases session_cases (Prod.mk.eta.symm : Database.session m s = (_, _)) with ⟨h, -⟩ | ⟨hdb, -⟩
  · rwa [h] at hm
  · rwa [hdb]

theorem Call.Answering.anchored {call : Call} {s s₁ : Session}
    {accountId conversationId messageId : Uuid}
    (h : call.Answering out s accountId conversationId messageId s₁) (hinv : Anchored s.db) :
    Anchored s₁.db := by
  have hstart : Anchored (call.start s).db := hinv
  cases h with
  | answer operation => exact hinv
  | turn operation added => exact (addUserTurn_anchors _).of_apply hstart added
  | reprocess operation payload message conversation => exact hinv

theorem answersFreely {call : Call} {s : Session} (hout : Foreign out) (hinv : Anchored s.db)
    (hcond : call.DecidesFreshly out s) : call.AnswersFreely out s := by
  intro accountId conversationId messageId context s₁ s₂ e hanswering he
  have hfresh := hcond _ _ _ _ hanswering
  exact ((answer_leads hout (hanswering.anchored hinv) hfresh s₁ rfl).2 e s₂ he).2

/-- An answer keeps the attempts and runs anchored. -/
theorem answer_anchored {accountId conversationId messageId : Uuid} {context : Option AuditContext}
    {s : Session} (hout : Foreign out) (hinv : Anchored s.db)
    (hfresh : DecidesFreshly out accountId conversationId messageId s)
    {r : Except Exc OrchestrationResult} {s' : Session}
    (h : answer out accountId conversationId messageId context s = (r, s')) : Anchored s'.db := by
  obtain ⟨hok, herror⟩ := answer_leads hout hinv hfresh s rfl
  cases r with
  | ok a => exact hok a s' h
  | error e => exact (herror e s' h).1

theorem reprocess_anchored {call : Call} {job : BackgroundJob} {s : Session}
    (hop : call.operation = .reprocess job) (hout : Foreign out) (hinv : Anchored s.db)
    (hcond : call.DecidesFreshly out s) :
    Anchored (Worker.nested (Worker.correctedTurnReprocess out job) (call.start s)).2.db := by
  have hstart : Anchored (call.start s).db := hinv
  rcases hm : Worker.correctedTurnReprocess out job (call.start s) with ⟨e | r, s₁⟩
  · have hroll : Worker.nested (Worker.correctedTurnReprocess out job) (call.start s) =
        (.error e, (call.start s).rollback s₁) := Tx.session_of_rollback hm id
    rw [hroll]
    exact hinv
  · have hdone : Worker.nested (Worker.correctedTurnReprocess out job) (call.start s) = (.ok r, s₁) :=
      Tx.session_of_ok hm
    rw [hdone]
    rcases reprocess_ok hm with
      ⟨-, rfl⟩ | ⟨messageId, m, c, result, s₂, hid, hfound, hc, hanswer, -, queued, hq⟩
    · exact hinv
    · have hs₂ := answer_anchored hout hstart (hcond _ _ _ _ (.reprocess hop hid hfound hc)) hanswer
      have hqueue : anchors s₁.db = anchors s₂.db :=
        (JobService.enqueue_keeps (fun _ _ => rfl) _ _ _ _ _ _ : Tx.Keeps (Same anchors) _).of_apply hq
      exact hs₂.congr hqueue

theorem perform_anchored {call : Call} {s : Session} (hout : Foreign out) (hinv : Anchored s.db)
    (hcond : call.DecidesFreshly out s) : Anchored (call.perform out s).db := by
  have hstart : Anchored (call.start s).db := hinv
  unfold Call.perform
  cases hop : call.operation with
  | service service context =>
      exact session_anchored hstart ((service.work_anchors (call.start s) hstart).1)
  | answer accountId conversationId messageId context =>
      refine session_anchored hstart ?_
      exact answer_anchored hout hstart (hcond _ _ _ _ (.answer hop)) Prod.mk.eta.symm
  | turn accountId conversationId request context =>
      refine session_anchored hstart ?_
      unfold turn
      rcases hm : ConversationService.addUserTurn out.toRuntime accountId conversationId request context
        (call.start s) with ⟨e | m, s₁⟩
      · rw [Tx.bind_of_error hm]
        exact (addUserTurn_anchors _).of_apply hstart hm
      · have hs₁ : Anchored s₁.db := (addUserTurn_anchors _).of_apply hstart hm
        rw [Tx.bind_of_ok hm]
        rcases ha : answer out accountId conversationId m.id (some context) s₁ with ⟨e | r, s₂⟩
        · rw [Tx.bind_of_error ha]
          exact answer_anchored hout hs₁ (hcond _ _ _ _ (.turn hop hm)) ha
        · rw [Tx.bind_of_ok ha]
          exact answer_anchored hout hs₁ (hcond _ _ _ _ (.turn hop hm)) ha
  | reprocess job => exact reprocess_anchored hop hout hinv hcond
  | confirmAction accountId actionId expectedActionVersion context =>
      exact session_anchored hstart ((confirmAction_anchors _ _ _ _ (call.start s) hstart).1)
  | cancelRun accountId runId context =>
      exact session_anchored hstart ((cancelRun_anchors _ _ _ (call.start s) hstart).1)
  | elsewhere db => exact ⟨hinv.attempts, hinv.runs⟩

/-- **A turn can be retried** in every history in which no decision repeats, at its place, a call
of which an action has been stored before: no answer fails on a unique constraint. -/
theorem answersFreely_of_history (hout : Foreign out) {s : Session} {calls : List Call}
    (h₀ : Anchored s.db)
    (hcond : Runs.Along (step out) (fun s call => call.DecidesFreshly out s) s calls) :
    Runs.Along (step out) (fun s call => call.AnswersFreely out s) s calls := by
  refine hcond.of_inv (I := fun s : Session => Anchored s.db) ?_ ?_ h₀
  · intro s call s' hinv hc hs
    obtain rfl := Option.some.inj hs
    exact perform_anchored hout hinv hc
  · exact fun s call hinv hc => answersFreely hout hinv hc

/-! ### The same decision after a cancellation -/

/-- The model proposes to delete a memory. -/
def deletingDecision : ModelDecision where
  intent := .memoryManagement
  resultType := .confirmationRequired
  answer := "Odstraním paměť."
  uncertainty := .low
  toolCalls := [⟨.memoryDelete, [("memory_id", .str "00000000-0000-0000-0000-00000000000a")]⟩]
  requiresConfirmation := true
  answer_bounds := by decide
  sources_bound := noSources_bound
  toolCalls_bound := by decide
  confirmed := fun _ => rfl

/-- A message whose run was cancelled before the proposed deletion was confirmed. -/
def withdrawnSession : Session where
  began := .utc 1767268800000000
  db := { Db.sample ⟨[.sample "Zapomeň, kde bydlím.",
      { cancelledResponse with content := deletingDecision.answer }], by decide⟩ with
    memoryItems := forgettingSession.db.memoryItems
    orchestrationRuns := .singleton
      { id := 20, accountId := 1, conversationId := 2, sourceMessageId := 3, state := .cancelled
        orchestrationVersion := orchestrationVersion, promptVersion := promptVersion
        decision := some deletingDecision.modelDump, responseMessageId := some 7
        cancelledAt := some (.utc 1767265200000000) }
    toolActions := .singleton { forgettingAction with
      state := .cancelled, version := 2
      idempotencyKey := "2a3a5a39f3be25b59986da73c75ecdb06d0a72e0f90ff71d9afb9b7540abd9f6" } }

theorem withdrawnSession_anchored : Anchored withdrawnSession.db := by
  refine ⟨fun a ha => absurd ha List.not_mem_nil, fun r hr => ?_⟩
  obtain rfl := List.mem_singleton.mp hr
  refine ⟨2, ⟨_, List.mem_cons_self, rfl, rfl⟩, ?_⟩
  exact ⟨_, List.mem_singleton_self _, rfl, rfl⟩

theorem decidingOutside_foreign (d : ModelDecision) : Foreign (decidingOutside d) := by
  constructor
  · intro n request e he
    simp [decidingOutside, Outside.sample] at he
  · intro db provider e he
    simp [decidingOutside, Outside.sample] at he
  · intro db n accountId ownerType query limit e he
    simp [decidingOutside, Outside.sample] at he

/-- The message is answered again, with the same decision. -/
def withdrawnAnswer : Except Exc OrchestrationResult × Session :=
  answer (decidingOutside deletingDecision) 1 2 3 none withdrawnSession

theorem withdrawnAnswer_def :
    answer (decidingOutside deletingDecision) 1 2 3 none withdrawnSession = withdrawnAnswer := rfl

theorem withdrawnAnswer_eq :
    withdrawnAnswer = (.error (.integrity "tool_action_idempotency_key_key"), withdrawnAnswer.2) := by
  have h : ((Exc.clash? withdrawnAnswer.1).any fun c => decide (c = "tool_action_idempotency_key_key")) =
      true := by
    decide +kernel
  obtain ⟨c, hc, hkey⟩ := (Option.any_eq_true _ _).mp h
  obtain rfl := of_decide_eq_true hkey
  have hr := Exc.clash?_eq_some hc
  revert hr
  generalize withdrawnAnswer = r
  rintro hr
  exact Prod.ext hr rfl

/-- A turn cannot always be retried: after its run was cancelled, the same decision gives its
action the key of the cancelled one. -/
theorem retries_blocked : ¬∀ (out : Outside) (s : Session) (calls : List Call), Foreign out →
    Anchored s.db → Runs.Along (step out) (fun s call => call.AnswersFreely out s) s calls := by
  intro h
  have hfree := (h (decidingOutside deletingDecision) withdrawnSession [savingAnswer]
    (decidingOutside_foreign _) withdrawnSession_anchored).1
  have hstart : savingAnswer.start withdrawnSession = withdrawnSession := rfl
  have hanswering : savingAnswer.Answering (decidingOutside deletingDecision) withdrawnSession 1 2 3
      withdrawnSession := hstart ▸ .answer rfl
  refine hfree 1 2 3 none withdrawnSession _ _ hanswering (withdrawnAnswer_def.trans withdrawnAnswer_eq) ?_
  simp [Clash, uniqueConstraints]

theorem plainDecision_calls {p : Prepared} {d : Decided} {s₁ : Session}
    (h : Decides (decidingOutside plainDecision) 1 2 3 withdrawnSession p d s₁) :
    stateCalls d.decision = [] := by
  have hall : ((prepare (decidingOutside plainDecision) (runOf? withdrawnSession.db 1 3) 1 2 3
      withdrawnSession).1.toOption.all fun p =>
        (obtainDecision (decidingOutside plainDecision) 1 p (prepare (decidingOutside plainDecision)
          (runOf? withdrawnSession.db 1 3) 1 2 3 withdrawnSession).2).1.toOption.all
            fun d => (stateCalls d.decision).isEmpty) = true := by
    decide +kernel
  obtain ⟨s₀, hprepare, hobtain⟩ := h.decided
  simp only [hprepare, hobtain, Except.toOption, Option.all_some] at hall
  exact List.isEmpty_iff.mp hall

/-- After the cancellation, the message is answered with another decision. -/
theorem answersFreely_of_history_withdrawn :
    savingAnswer.AnswersFreely (decidingOutside plainDecision) withdrawnSession := by
  have hstart : savingAnswer.start withdrawnSession = withdrawnSession := rfl
  have hcond : savingAnswer.DecidesFreshly (decidingOutside plainDecision) withdrawnSession := by
    intro accountId conversationId messageId s₁ hanswering
    cases hanswering with
    | answer operation =>
        obtain ⟨rfl, rfl, rfl, rfl⟩ := Operation.answer.inj operation
        rw [hstart]
        intro p d s₁ hdecides
        rw [plainDecision_calls hdecides]
        trivial
    | turn operation => simp [savingAnswer, callAt] at operation
    | reprocess operation => simp [savingAnswer, callAt] at operation
  have hall : Runs.Along (step (decidingOutside plainDecision))
      (fun s call => call.DecidesFreshly (decidingOutside plainDecision) s) withdrawnSession
      [savingAnswer] := ⟨hcond, fun _ _ => trivial⟩
  exact (answersFreely_of_history (decidingOutside_foreign _) withdrawnSession_anchored hall).1

end KajovoDagmar.OrchestrationService
