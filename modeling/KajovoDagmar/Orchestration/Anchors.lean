import KajovoDagmar.Orchestration.Calls

/-! # Attempts, runs and their messages

In every history the attempts of a run are numbered up to its counter, and its account is that of
the conversation of its message (`Anchored`).  Here it is shown of every operation but an
answer. -/

namespace KajovoDagmar.OrchestrationService

variable {out : Outside}

/-- The run has counted at least so many attempts. -/
def Counted (db : Db) (runId : Uuid) (number : ℕ) : Prop :=
  ∃ r ∈ db.orchestrationRuns, r.id = runId ∧ number ≤ r.attemptCount

def Placed (db : Db) (messageId conversationId : Uuid) : Prop :=
  ∃ m ∈ db.conversationMessages, m.id = messageId ∧ m.conversationId = conversationId

def Belongs (db : Db) (conversationId accountId : Uuid) : Prop :=
  ∃ c ∈ db.conversations, c.id = conversationId ∧ c.accountId = accountId

/-- Every attempt is one of those that its run has counted, and every run answers a message of
a conversation of its account. -/
structure Anchored (db : Db) : Prop where
  attempts : ∀ a ∈ db.orchestrationAttempts, Counted db a.runId a.attemptNumber
  runs : ∀ r ∈ db.orchestrationRuns, ∃ conversationId, Placed db r.sourceMessageId conversationId ∧
    Belongs db conversationId r.accountId

/-- The tables that `Anchored` looks at. -/
def anchors (db : Db) :=
  (db.orchestrationAttempts, db.orchestrationRuns, db.conversationMessages, db.conversations)

theorem Anchored.congr {db db' : Db} (h : anchors db' = anchors db) (hinv : Anchored db) :
    Anchored db' := by
  simp only [anchors, Prod.mk.injEq] at h
  obtain ⟨hattempts, hruns, hmessages, hconversations⟩ := h
  constructor
  · intro a ha
    obtain ⟨r, hr, hid, hcount⟩ := hinv.attempts a (hattempts ▸ ha)
    exact ⟨r, hruns ▸ hr, hid, hcount⟩
  · intro r hr
    obtain ⟨c, ⟨m, hm, hmid⟩, d, hd, hdid⟩ := hinv.runs r (hruns ▸ hr)
    exact ⟨c, ⟨m, hmessages ▸ hm, hmid⟩, d, hconversations ▸ hd, hdid⟩

section tables

variable {db : Db}

theorem Counted.put {run run' : OrchestrationRun} {runId : Uuid} {number : ℕ}
    (hrun : run ∈ db.orchestrationRuns) (hid : run'.id = run.id)
    (hcount : run.attemptCount ≤ run'.attemptCount) (h : Counted db runId number) :
    Counted { db with orchestrationRuns := db.orchestrationRuns.put run' } runId number := by
  obtain ⟨r, hr, hrid, hn⟩ := h
  by_cases hsame : r.id = run'.id
  · obtain rfl : r = run := Table.eq_of_key hr hrun (hsame.trans hid)
    exact ⟨run', Table.mem_put_iff.mpr (.inr ⟨rfl, r, hr, hsame⟩), hid.trans hrid, hn.trans hcount⟩
  · exact ⟨r, Table.mem_put_iff.mpr (.inl ⟨hr, hsame⟩), hrid, hn⟩

theorem Placed.put {m : ConversationMessage} {messageId conversationId : Uuid}
    (hm : Placed db m.id m.conversationId) (h : Placed db messageId conversationId) :
    Placed { db with conversationMessages := db.conversationMessages.put m } messageId
      conversationId := by
  obtain ⟨x, hx, hid, hc⟩ := h
  obtain ⟨y, hy, hyid, hyc⟩ := hm
  by_cases hsame : x.id = m.id
  · obtain rfl : x = y := Table.eq_of_key hx hy (hsame.trans hyid.symm)
    exact ⟨m, Table.mem_put_iff.mpr (.inr ⟨rfl, x, hx, hsame⟩), hyid.symm.trans hid, hyc.symm.trans hc⟩
  · exact ⟨x, Table.mem_put_iff.mpr (.inl ⟨hx, hsame⟩), hid, hc⟩

theorem Belongs.put {c : Conversation} {conversationId accountId : Uuid}
    (hc : Belongs db c.id c.accountId) (h : Belongs db conversationId accountId) :
    Belongs { db with conversations := db.conversations.put c } conversationId accountId := by
  obtain ⟨x, hx, hid, ha⟩ := h
  obtain ⟨y, hy, hyid, hya⟩ := hc
  by_cases hsame : x.id = c.id
  · obtain rfl : x = y := Table.eq_of_key hx hy (hsame.trans hyid.symm)
    exact ⟨c, Table.mem_put_iff.mpr (.inr ⟨rfl, x, hx, hsame⟩), hyid.symm.trans hid, hya.symm.trans ha⟩
  · exact ⟨x, Table.mem_put_iff.mpr (.inl ⟨hx, hsame⟩), hid, ha⟩

/-- A run keeps its message and its account, and its counter only grows. -/
theorem Anchored.put_run {run run' : OrchestrationRun} (hrun : run ∈ db.orchestrationRuns)
    (hid : run'.id = run.id) (hcount : run.attemptCount ≤ run'.attemptCount)
    (hsource : run'.sourceMessageId = run.sourceMessageId) (haccount : run'.accountId = run.accountId)
    (hinv : Anchored db) :
    Anchored { db with orchestrationRuns := db.orchestrationRuns.put run' } := by
  constructor
  · exact fun a ha => (hinv.attempts a ha).put hrun hid hcount
  · intro r hr
    rcases Table.mem_put_iff.mp hr with ⟨hr, -⟩ | ⟨rfl, -⟩
    · exact hinv.runs r hr
    · rw [hsource, haccount]
      exact hinv.runs run hrun

theorem Anchored.insert_run {run : OrchestrationRun} {t : Table OrchestrationRun.id}
    (ht : db.orchestrationRuns.insert? run = some t) {conversationId : Uuid}
    (hplaced : Placed db run.sourceMessageId conversationId)
    (hbelongs : Belongs db conversationId run.accountId) (hinv : Anchored db) :
    Anchored { db with orchestrationRuns := t } := by
  constructor
  · intro a ha
    obtain ⟨r, hr, hid, hcount⟩ := hinv.attempts a ha
    exact ⟨r, (Table.mem_insert? ht).mpr (.inl hr), hid, hcount⟩
  · intro r hr
    rcases (Table.mem_insert? ht).mp hr with hr | rfl
    · exact hinv.runs r hr
    · exact ⟨conversationId, hplaced, hbelongs⟩

theorem Anchored.put_attempt {a : OrchestrationAttempt} (ha : Counted db a.runId a.attemptNumber)
    (hinv : Anchored db) :
    Anchored { db with orchestrationAttempts := db.orchestrationAttempts.put a } := by
  refine ⟨?_, hinv.runs⟩
  intro x hx
  rcases Table.mem_put_iff.mp hx with ⟨hx, -⟩ | ⟨rfl, -⟩
  · exact hinv.attempts x hx
  · exact ha

theorem Anchored.insert_attempt {a : OrchestrationAttempt} {t : Table OrchestrationAttempt.id}
    (ht : db.orchestrationAttempts.insert? a = some t) (ha : Counted db a.runId a.attemptNumber)
    (hinv : Anchored db) : Anchored { db with orchestrationAttempts := t } := by
  refine ⟨?_, hinv.runs⟩
  intro x hx
  rcases (Table.mem_insert? ht).mp hx with hx | rfl
  · exact hinv.attempts x hx
  · exact ha

/-- Messages keep their conversation. -/
theorem Anchored.of_placed {t : Table ConversationMessage.id}
    (h : ∀ m c, Placed db m c → Placed { db with conversationMessages := t } m c)
    (hinv : Anchored db) : Anchored { db with conversationMessages := t } := by
  refine ⟨hinv.attempts, ?_⟩
  intro r hr
  obtain ⟨c, hplaced, hbelongs⟩ := hinv.runs r hr
  exact ⟨c, h _ _ hplaced, hbelongs⟩

/-- Conversations keep their account. -/
theorem Anchored.of_belongs {t : Table Conversation.id}
    (h : ∀ c a, Belongs db c a → Belongs { db with conversations := t } c a) (hinv : Anchored db) :
    Anchored { db with conversations := t } := by
  refine ⟨hinv.attempts, ?_⟩
  intro r hr
  obtain ⟨c, hplaced, hbelongs⟩ := hinv.runs r hr
  exact ⟨c, hplaced, h _ _ hbelongs⟩

theorem Placed.insert {m : ConversationMessage} {t : Table ConversationMessage.id}
    (ht : db.conversationMessages.insert? m = some t) {messageId conversationId : Uuid}
    (h : Placed db messageId conversationId) :
    Placed { db with conversationMessages := t } messageId conversationId := by
  obtain ⟨x, hx, hid⟩ := h
  exact ⟨x, (Table.mem_insert? ht).mpr (.inl hx), hid⟩

theorem Belongs.insert {c : Conversation} {t : Table Conversation.id}
    (ht : db.conversations.insert? c = some t) {conversationId accountId : Uuid}
    (h : Belongs db conversationId accountId) :
    Belongs { db with conversations := t } conversationId accountId := by
  obtain ⟨x, hx, hid⟩ := h
  exact ⟨x, (Table.mem_insert? ht).mpr (.inl hx), hid⟩

theorem belongs_of_conversation? {accountId conversationId : Uuid} {c : Conversation}
    (h : HistoryService.conversation? db accountId conversationId = some c) :
    Belongs db c.id c.accountId ∧ c.id = conversationId ∧ c.accountId = accountId := by
  obtain ⟨hc, ha⟩ := Option.filter_eq_some_iff.mp h
  have hmem := Table.mem_of_find? hc
  exact ⟨⟨c, hmem, rfl, rfl⟩, Table.key_of_find? hc, of_decide_eq_true ha⟩

end tables

/-! ### What the other operations do to them -/

/-- Whatever the computation ends with, the attempts and runs stay anchored. -/
abbrev Anchors {α : Type} (m : Work α) : Prop := Tx.Guards (fun s => Anchored s.db) (fun _ => True) m

/-- A conversation at hand, as it is stored but for its account. -/
def Held (c : Conversation) (s : Session) : Prop := Anchored s.db ∧ Belongs s.db c.id c.accountId

theorem Held.congr {c : Conversation} {s s' : Session} (h : Same anchors s s') (hinv : Held c s) :
    Held c s' := by
  refine ⟨hinv.1.congr h, ?_⟩
  obtain ⟨x, hx, hid⟩ := hinv.2
  simp only [Same, anchors, Prod.mk.injEq] at h
  exact ⟨x, h.2.2.2 ▸ hx, hid⟩

theorem Anchors.of_keeps {α : Type} {m : Work α} (h : Tx.Keeps (Same anchors) m) : Anchors m :=
  Tx.Guards.of_keeps (fun _ _ hs hinv => hinv.congr hs) h fun _ _ _ => trivial

section services

variable {rt : Runtime} {accountId conversationId messageId : Uuid} {context : AuditContext}
  {F : Exc → Prop}

theorem Held.of_keeps {α : Type} {c : Conversation} {m : Work α} (h : Tx.Keeps (Same anchors) m)
    (hf : Tx.RaisesOnly F m) : Tx.Guards (Held c) F m :=
  Tx.Guards.of_keeps (fun _ _ hs hinv => hinv.congr hs) h hf

theorem append_anchors {eventType result : String} {targetType : Option String} {targetId : Option Uuid}
    {details : List (String × Json)} : Tx.Keeps (Same anchors)
      (AuditService.append rt context eventType result targetType targetId details) :=
  AuditService.append_keeps fun _ _ => rfl

theorem publish_anchors (eventType : String) (payload : Json) (sequence : ℤ) : Tx.Keeps (Same anchors)
    (ConversationService.publish rt conversationId eventType payload sequence) := by
  unfold ConversationService.publish
  refine (Same.newUuid rt).bind fun id => (Tx.Keeps.gets _).bind fun began => ?_
  exact Relation.add_keeps (fun _ _ => rfl) _

/-- A conversation that is written back keeps its account. -/
theorem saveConversation_held {c : Conversation} (hother : ∀ code, F (.other code)) :
    Tx.Guards (Held c) F (Db.conversation.save rt c) := by
  refine Relation.save_guards ?_ hother
  rintro s ⟨hinv, hc⟩
  exact ⟨hinv.of_belongs fun _ _ h => hc.put h, hc.put hc⟩

/-- What goes on from a locked conversation holds it. -/
theorem lockConversation_anchors {α : Type} {f : Conversation → Work α}
    (hf : ∀ c, Tx.Guards (Held c) (fun _ => True) (f c)) :
    Anchors (HistoryService.lockConversation accountId conversationId >>= f) := by
  intro s hinv
  rcases h : (HistoryService.lockConversation accountId conversationId >>= f) s with ⟨r, s'⟩
  refine ⟨?_, fun _ _ => trivial⟩
  rcases Tx.bind_cases h with ⟨e, he, rfl⟩ | ⟨c, s₁, h₁, hrest⟩
  · have hs : anchors s'.db = anchors s.db := (HistoryService.lockConversation_keeps _ _).of_apply he
    exact hinv.congr hs
  · obtain ⟨rfl, hc⟩ := ConversationService.lockConversation_ok h₁
    have hc' : Belongs s₁.db c.id c.accountId := ⟨c, Table.mem_of_find? hc, rfl, rfl⟩
    exact ((hf c).of_apply ⟨hinv, hc'⟩ hrest).1

theorem addUserTurn_anchors (request : UserTurn) :
    Anchors (ConversationService.addUserTurn rt accountId conversationId request context) := by
  unfold ConversationService.addUserTurn
  refine lockConversation_anchors fun c => ?_
  refine Tx.Guards.bind (.raiseIf trivial) fun _ => ?_
  refine Tx.Guards.bind (Tx.Guards.bind (.gets _) fun _ => .pure _) fun existing => ?_
  cases existing with
  | some message => exact Tx.Guards.bind (.raiseIf trivial) fun _ => .pure _
  | none =>
      unfold ConversationService.insertUserTurn ConversationService.appendMessage
      refine Tx.Guards.bind (.gets _) fun sequence => ?_
      refine Tx.Guards.bind (Held.of_keeps (Same.newUuid rt) fun _ _ _ => trivial) fun id => ?_
      refine Tx.Guards.bind (Held.of_keeps (Same.utcNow rt) fun _ _ _ => trivial) fun now => ?_
      refine Tx.Guards.bind (Tx.Guards.bind ?_ fun _ => ?_) fun updated => ?_
      · refine Relation.add_guards ?_ (fun _ => trivial) trivial fun _ _ _ _ _ _ => trivial
        rintro s t ⟨hinv, hc⟩ ht
        exact ⟨hinv.of_placed fun _ _ h => h.insert (Relation.insertRow_eq_ok ht).1, hc⟩
      · refine Tx.Guards.bind (Held.of_keeps (Same.utcNow rt) fun _ _ _ => trivial) fun now' => ?_
        refine Tx.Guards.bind ?_ fun _ => .pure _
        exact saveConversation_held (c := { c with
          messageCount := c.messageCount + 1, lastActivityAt := now', version := c.version + 1 })
          fun _ => trivial
      · refine Tx.Guards.bind (Held.of_keeps (publish_anchors _ _ _) fun _ _ _ => trivial) fun _ => ?_
        exact Tx.Guards.bind (Held.of_keeps append_anchors fun _ _ _ => trivial) fun _ => .pure _

theorem correctTranscript_anchors (request : TranscriptCorrection) :
    Anchors (ConversationService.correctTranscript rt accountId messageId request context) := by
  intro s hinv
  rcases h : ConversationService.correctTranscript rt accountId messageId request context s with ⟨r, s'⟩
  refine ⟨?_, fun _ _ => trivial⟩
  rcases ConversationService.correctTranscript_cases rt accountId messageId request context s with
    ⟨d, -, hd⟩ | ⟨m, hm, -, hcorrect⟩
  · rw [hd] at h
    exact (Prod.mk.inj h).2 ▸ hinv
  rw [hcorrect] at h
  obtain ⟨hmem, -⟩ := ConversationService.userMessage?_mem hm
  have hrecord : ∀ {r s'}, ConversationService.recordCorrection rt accountId m request context s = (r, s') →
      Anchored s'.db := by
    intro r s' h
    unfold ConversationService.recordCorrection at h
    rcases Tx.bind_cases h with ⟨e, he, rfl⟩ | ⟨u, s₁, h₁, hrest⟩
    · exact (Relation.save_error he).1 ▸ hinv
    · obtain rfl := Relation.save_eq_ok h₁
      have hplaced : Placed s.db m.id m.conversationId := ⟨m, hmem, rfl, rfl⟩
      refine (hinv.of_placed fun _ _ h => hplaced.put (m := { m with
        content := PythonText.strip request.correctedContent.val, version := m.version + 1 }) h).congr ?_
      refine Tx.Keeps.of_apply (R := Same anchors) ?_ hrest
      refine (Same.newUuid rt).bind fun id => (Relation.add_keeps (fun _ _ => rfl) _).bind fun _ => ?_
      exact append_anchors.bind fun _ => Tx.Keeps.pure _
  rcases Tx.bind_cases h with ⟨e, he, rfl⟩ | ⟨updated, s₁, h₁, hrest⟩
  · exact hrecord he
  · refine (hrecord h₁).congr ?_
    unfold ConversationService.requestAnswer at hrest
    split at hrest
    · exact ((publish_anchors _ _ _).bind fun _ => Tx.Keeps.pure _ : Tx.Keeps (Same anchors) _).of_apply hrest
    · rw [(Prod.mk.inj hrest).2]

/-- A new conversation leaves the others where they are. -/
theorem addConversation_anchors (c : Conversation) : Anchors (Db.conversation.add rt c) := by
  refine Relation.add_guards ?_ (fun _ => trivial) trivial fun _ _ _ _ _ _ => trivial
  intro s t hinv ht
  exact hinv.of_belongs fun _ _ h => h.insert (Relation.insertRow_eq_ok ht).1

theorem start_anchors (request : ConversationStart) :
    Anchors (ConversationService.start rt accountId request context) := by
  unfold ConversationService.start
  refine Tx.Guards.bind (.gets _) fun originals => Tx.Guards.bind (.raiseIf trivial) fun _ => ?_
  refine Tx.Guards.bind (Anchors.of_keeps (Same.newUuid rt)) fun id => ?_
  refine Tx.Guards.bind (.gets _) fun began => ?_
  refine Tx.Guards.bind (addConversation_anchors _) fun _ => ?_
  cases request.continuationOfId with
  | none => exact Tx.Guards.bind (Anchors.of_keeps append_anchors) fun _ => .pure _
  | some source =>
      refine Tx.Guards.bind (Anchors.of_keeps (Same.newUuid rt)) fun linkId => ?_
      refine Tx.Guards.bind (Anchors.of_keeps (Relation.add_keeps (fun _ _ => rfl) _)) fun _ => ?_
      exact Tx.Guards.bind (Anchors.of_keeps append_anchors) fun _ => .pure _

theorem finish_anchors (reason : String) :
    Anchors (ConversationService.finish rt accountId conversationId reason context) := by
  unfold ConversationService.finish
  refine lockConversation_anchors fun c => ?_
  split
  · unfold ConversationService.close
    refine Tx.Guards.bind (Held.of_keeps (Same.utcNow rt) fun _ _ _ => trivial) fun endedAt => ?_
    refine Tx.Guards.bind (Held.of_keeps (Same.utcNow rt) fun _ _ _ => trivial) fun now => ?_
    refine Tx.Guards.bind ?_ fun _ => ?_
    · exact saveConversation_held (c := { c with
        state := if reason = "user_ended" then .completed else .interrupted
        endReason := some reason, endedAt := some endedAt, lastActivityAt := now
        version := c.version + 1 }) fun _ => trivial
    · refine Tx.Guards.bind (Held.of_keeps (publish_anchors _ _ _) fun _ _ _ => trivial) fun _ => ?_
      exact Tx.Guards.bind (Held.of_keeps append_anchors fun _ _ _ => trivial) fun _ => .pure _
  · exact .pure _

theorem continueFrom_anchors :
    Anchors (HistoryService.continueFrom rt accountId conversationId context) := by
  unfold HistoryService.continueFrom HistoryService.insertContinuation
  refine Tx.Guards.bind (Anchors.of_keeps (HistoryService.detail_keeps _ _ _)) fun detail => ?_
  refine Tx.Guards.bind (Anchors.of_keeps (Same.newUuid rt)) fun id => ?_
  refine Tx.Guards.bind (.gets _) fun began => ?_
  refine Tx.Guards.bind (addConversation_anchors _) fun _ => ?_
  refine Tx.Guards.bind (Anchors.of_keeps (Same.newUuid rt)) fun linkId => ?_
  refine Tx.Guards.bind (Anchors.of_keeps (Relation.add_keeps (fun _ _ => rfl) _)) fun _ => ?_
  exact Tx.Guards.bind (Anchors.of_keeps append_anchors) fun _ => .pure _

theorem softDelete_anchors (expectedVersion retentionDays : ℤ) : Anchors
    (HistoryService.softDelete rt accountId conversationId expectedVersion retentionDays context) := by
  unfold HistoryService.softDelete
  refine lockConversation_anchors fun c => Tx.Guards.bind (.raiseIf trivial) fun _ => ?_
  refine Tx.Guards.bind (Held.of_keeps (Same.utcNow rt) fun _ _ _ => trivial) fun deletedAt => ?_
  refine Tx.Guards.bind (Held.of_keeps (Same.utcNow rt) fun _ _ _ => trivial) fun now => ?_
  refine Tx.Guards.bind ?_ fun _ => ?_
  · exact saveConversation_held (c := { c with
      deletedAt := some deletedAt, purgeAfter := some (now.addMicros (DateTime.days retentionDays))
      state := .deleted, version := c.version + 1 }) fun _ => trivial
  · exact Tx.Guards.bind (Held.of_keeps append_anchors fun _ _ _ => trivial) fun _ => .pure _

theorem restore_anchors (expectedVersion : ℤ) : Anchors
    (HistoryService.restore rt accountId conversationId expectedVersion context) := by
  unfold HistoryService.restore
  refine lockConversation_anchors fun c => Tx.Guards.bind (.raiseIf trivial) fun _ => ?_
  refine Tx.Guards.bind (Held.of_keeps (Same.utcNow rt) fun _ _ _ => trivial) fun now => ?_
  refine Tx.Guards.bind (.raiseIf trivial) fun _ => Tx.Guards.bind ?_ fun _ => ?_
  · exact saveConversation_held (c := { c with
      deletedAt := none, purgeAfter := none
      state := if c.endedAt = none then .interrupted else .completed
      version := c.version + 1 }) fun _ => trivial
  · exact Tx.Guards.bind (Held.of_keeps append_anchors fun _ _ _ => trivial) fun _ => .pure _

theorem Service.work_anchors (service : Service) : Anchors (service.work rt context) := by
  cases service with
  | start accountId request => exact Tx.Guards.bind (start_anchors _) fun _ => .pure _
  | addUserTurn accountId conversationId request =>
      exact Tx.Guards.bind (addUserTurn_anchors _) fun _ => .pure _
  | correctTranscript accountId messageId request =>
      exact Tx.Guards.bind (correctTranscript_anchors _) fun _ => .pure _
  | finish accountId conversationId reason => exact Tx.Guards.bind (finish_anchors _) fun _ => .pure _
  | continueFrom accountId conversationId => exact Tx.Guards.bind continueFrom_anchors fun _ => .pure _
  | softDelete accountId conversationId expectedVersion retentionDays =>
      exact Tx.Guards.bind (softDelete_anchors _ _) fun _ => .pure _
  | restore accountId conversationId expectedVersion =>
      exact Tx.Guards.bind (restore_anchors _) fun _ => .pure _

end services

/-! ### Confirmations and cancellations -/

/-- An update of a run that keeps its message and its account and takes back no attempt. -/
theorem updateRun_guards {f : OrchestrationRun → OrchestrationRun} {F : Exc → Prop}
    (hcount : ∀ r, r.attemptCount ≤ (f r).attemptCount)
    (hsource : ∀ r, (f r).sourceMessageId = r.sourceMessageId)
    (haccount : ∀ r, (f r).accountId = r.accountId) (runId : Uuid) (hother : ∀ code, F (.other code)) :
    Tx.Guards (fun s => Anchored s.db) F (updateRun out runId f) := by
  refine Tx.Leads.guards ?_
  intro s hinv
  constructor
  · intro r s' h
    obtain ⟨stored, hstored, -, rfl⟩ := updateRun_ok h
    exact hinv.put_run (Table.mem_of_find? hstored) rfl (hcount _) (hsource _) (haccount _)
  · intro e s' h
    unfold updateRun at h
    obtain ⟨rfl, rfl | ⟨c, rfl⟩⟩ := Relation.update_error h
    · exact ⟨hinv, hother _⟩
    · exact ⟨hinv, hother _⟩

theorem hidden_anchors : MemoryService.Hidden anchors := by
  constructor <;> intros <;> rfl

theorem dispatch_anchors (accountId : Uuid) (name : String) (args : Json) (context : AuditContext) :
    Anchors (dispatch out accountId name args context) := by
  have hpure : ∀ {α β : Type} {m : Work α} {f : α → β}, Anchors m → Anchors (do
      let a ← m
      pure (f a)) := fun h => Tx.Guards.bind h fun _ => .pure _
  have hchecked : ∀ {α β : Type} {r : Except Exc α} {f : α → Work β}, (∀ a, Anchors (f a)) →
      Anchors (Tx.ofExcept r >>= f) :=
    fun h => Tx.Guards.bind (Anchors.of_keeps (Tx.Keeps.ofExcept _)) h
  have hsetting : ∀ {β : Type} {area key : String} {fallback : Json} {f : Json → Work β},
      (∀ a, Anchors (f a)) → Anchors (setting area key fallback >>= f) :=
    fun h => Tx.Guards.bind (Anchors.of_keeps (setting_keeps _ _ _)) h
  unfold dispatch
  split
  · exact hchecked fun _ => hpure (Anchors.of_keeps (MemoryService.create_keeps hidden_anchors _ _ _))
  split
  · exact hchecked fun _ => hpure (Anchors.of_keeps (MemoryService.update_keeps hidden_anchors _ _ _ _))
  split
  · exact hsetting fun _ => hchecked fun _ => hchecked fun _ =>
      hpure (Anchors.of_keeps (MemoryService.softDelete_keeps hidden_anchors _ _ _ _ _))
  split
  · exact hchecked fun _ => hpure (Anchors.of_keeps (MemoryService.restore_keeps hidden_anchors _ _ _ _))
  split
  · exact Tx.Guards.bind (Anchors.of_keeps (mergeArguments_keeps _ _)) fun _ =>
      hpure (Anchors.of_keeps (MemoryService.merge_keeps hidden_anchors _ _ _ _))
  split
  · exact hchecked fun _ => hpure continueFrom_anchors
  split
  · exact hsetting fun _ => hchecked fun _ => hchecked fun _ => hpure (softDelete_anchors _ _)
  split
  · exact hchecked fun _ => hpure (restore_anchors _)
  · exact Tx.Guards.raise trivial

theorem updateAction_anchors (actionId : Uuid) (f : ToolAction → ToolAction) :
    Anchors (updateAction out actionId f) :=
  Anchors.of_keeps (updateAction_keeps (fun _ _ => rfl) _ _)

theorem completeRun_anchors (action : ToolAction) : Anchors (completeRun out action) := by
  refine Tx.Leads.guards ?_
  unfold completeRun
  refine Tx.Leads.bind (Q := fun row s => Anchored s.db ∧ ∀ run, row = some run →
    run ∈ s.db.orchestrationRuns)
    (Tx.Leads.gets fun s hinv => ⟨hinv, fun run h => Table.mem_of_find? h⟩) fun row => ?_
  cases row with
  | none => exact Tx.Leads.pure fun s hP => hP.1
  | some run =>
      refine Tx.Leads.bind (Q := fun _ s => Anchored s.db ∧ run ∈ s.db.orchestrationRuns)
        (Tx.Leads.gets fun s hP => ⟨hP.1, hP.2 run rfl⟩) fun remaining => ?_
      split
      · rintro s ⟨hinv, hrun⟩
        constructor
        · intro u s' h
          obtain rfl := Relation.save_eq_ok h
          exact hinv.put_run hrun rfl le_rfl rfl rfl
        · intro e s' h
          exact ⟨(Relation.save_error h).1 ▸ hinv, trivial⟩
      · exact Tx.Leads.pure fun s hP => hP.1

theorem confirmAction_anchors (accountId actionId : Uuid) (expectedActionVersion : ℤ)
    (context : AuditContext) :
    Anchors (confirmAction out accountId actionId expectedActionVersion context) := by
  have hnow : Anchors (utcNow out.toRuntime) := Anchors.of_keeps (Same.utcNow _)
  unfold confirmAction lockAction expireAction runAction
  refine Tx.Guards.bind (Tx.Guards.bind (.gets _) fun _ => .orRaise trivial) fun action => ?_
  split
  · exact .pure _
  refine Tx.Guards.bind (.raiseIf trivial) fun _ => Tx.Guards.bind (.raiseIf trivial) fun _ => ?_
  refine Tx.Guards.bind hnow fun now => ?_
  split
  · exact Tx.Guards.bind (updateAction_anchors _ _) fun _ => .raise trivial
  · refine Tx.Guards.bind hnow fun confirmedAt => Tx.Guards.bind (updateAction_anchors _ _) fun action => ?_
    refine Tx.Guards.handle ?_ fun e _ => ?_
    · unfold executeConfirmed executeStateAction
      refine Tx.Guards.bind (Tx.Guards.bind (.raiseIf trivial) fun _ => dispatch_anchors _ _ _ _)
        fun result => ?_
      refine Tx.Guards.bind hnow fun now => Tx.Guards.bind (updateAction_anchors _ _) fun action => ?_
      refine Tx.Guards.bind (completeRun_anchors _) fun _ => ?_
      exact Tx.Guards.bind (Anchors.of_keeps append_anchors) fun _ => .pure _
    · unfold failAction
      refine Tx.Guards.bind (Tx.Guards.bind (updateAction_anchors _ _) fun action => ?_) fun _ =>
        .raise trivial
      exact Tx.Guards.bind (Anchors.of_keeps append_anchors) fun _ => .pure _

theorem cancelRun_anchors (accountId runId : Uuid) (context : AuditContext) :
    Anchors (cancelRun out accountId runId context) := by
  unfold cancelRun
  refine Tx.Guards.bind (.gets _) fun rows => Tx.Guards.bind (.orRaise trivial) fun run => ?_
  split
  · exact .pure _
  refine Tx.Guards.bind (Anchors.of_keeps (Same.utcNow _)) fun now => ?_
  refine Tx.Guards.bind ?_ fun run => Tx.Guards.bind (.gets _) fun actions => ?_
  · exact updateRun_guards (by intro r; exact le_rfl) (by intro r; rfl) (by intro r; rfl) _ fun _ => trivial
  refine Tx.Guards.bind (.forEach fun a => updateAction_anchors _ _) fun _ => ?_
  exact Tx.Guards.bind (Anchors.of_keeps append_anchors) fun _ => .pure _

end KajovoDagmar.OrchestrationService
