import KajovoDagmar.Worker.Retention

/-! # The deadlines of deleted rows

Over every sequence of operations on memory items and conversations, the deadline of a deleted row
changes only by a restoration before it, a row whose deadline has been reached stays deleted until a
purge removes it, and a purge does remove it: provided that no conversation is deleted that is deleted
already. -/

namespace KajovoDagmar

namespace Retention

open ConversationService HistoryService

variable {rt : Runtime}

/-- An operation on the rows that are retained. -/
inductive Operation where
  | memory (call : MemoryService.Call)
  | conversation (call : Closing.Call)
  | updateMetadata (accountId conversationId : Uuid) (request : MetadataUpdate) (context : AuditContext)
      (began : DateTime)
  | purge (began : DateTime)

namespace Operation

def work (rt : Runtime) (storage : Storage) : Operation → Work PUnit
  | memory call => do
    let _ ← call.work rt
    pure ⟨⟩
  | conversation call => call.work rt
  | updateMetadata accountId conversationId request context _ => do
    let _ ← HistoryService.updateMetadata rt accountId conversationId request context
    pure ⟨⟩
  | purge _ => Worker.purgeExpired rt storage

def began : Operation → DateTime
  | memory call => call.began
  | conversation call => call.began
  | updateMetadata _ _ _ _ began => began
  | purge began => began

/-- The operation asks for the restoration of the row. -/
def AsksToRestore : Operation → Owner → Uuid → Prop
  | memory call, .memory, id => ∃ expectedVersion, call.operation = .restore id expectedVersion
  | conversation call, .conversation, id =>
    ∃ accountId expectedVersion, call.operation = .restore accountId id expectedVersion
  | _, _, _ => False

/-- The operation deletes a conversation that has a deadline already. -/
def Redeletes (db : Db) : Operation → Prop
  | conversation ⟨.softDelete accountId conversationId expectedVersion _, _, _⟩ =>
    ∃ row ∈ conversation? db accountId conversationId, row.version = expectedVersion ∧
      row.purgeAfter ≠ none
  | _ => False

/-- Why the operation takes the deadline away from a row. -/
def Causes (operation : Operation) (db : Db) (owner : Owner) (id : Uuid) : Tenure.Cause → Prop
  | .restoration => operation.AsksToRestore owner id
  | .redeletion => operation.Redeletes db

/-! #### The other rows -/

/-- The memory items stay as they are. -/
abbrev Spares {α : Type} (m : Work α) : Prop := Tx.Keeps (Same Db.memoryItems) m

theorem items_hidden : HistoryService.Hidden Db.memoryItems := ⟨fun _ _ => rfl, fun _ _ => rfl, fun _ _ => rfl⟩

theorem append_spares {context : AuditContext} {eventType result : String}
    {targetType : Option String} {targetId : Option Uuid} {details : List (String × Json)} :
    Spares (AuditService.append rt context eventType result targetType targetId details) :=
  AuditService.append_keeps fun _ _ => rfl

theorem publish_spares (aggregateId : Uuid) (eventType : String) (payload : Json) (q : ℤ) :
    Spares (publish rt aggregateId eventType payload q) :=
  (Same.newUuid rt).bind fun _ => (Tx.Keeps.gets _).bind fun _ => Relation.add_keeps (fun _ _ => rfl) _

theorem appendMessage_spares (c : Conversation) (message : ConversationMessage) :
    Spares (appendMessage rt c message) := by
  refine (Relation.add_keeps (fun _ _ => rfl) _).bind fun _ => (Same.utcNow rt).bind fun now => ?_
  exact (Relation.save_keeps fun _ => rfl).bind fun _ => Tx.Keeps.pure _

theorem start_spares (accountId : Uuid) (request : ConversationStart) (context : AuditContext) :
    Spares (ConversationService.start rt accountId request context) := by
  unfold ConversationService.start
  refine (Relation.select_keeps _).bind fun originals => (Tx.Keeps.raiseIf _ _).bind fun _ => ?_
  refine (Same.newUuid rt).bind fun id => (Tx.Keeps.gets _).bind fun began => ?_
  refine (Relation.add_keeps (fun _ _ => rfl) _).bind fun _ => ?_
  cases request.continuationOfId with
  | none => exact append_spares.bind fun _ => Tx.Keeps.pure _
  | some source =>
      refine (Same.newUuid rt).bind fun _ => (Relation.add_keeps (fun _ _ => rfl) _).bind fun _ => ?_
      exact append_spares.bind fun _ => Tx.Keeps.pure _

theorem byIdempotencyKey_spares (conversationId : Uuid) (key : String) :
    Spares (byIdempotencyKey conversationId key) :=
  (Relation.select_keeps _).bind fun _ => Tx.Keeps.pure _

theorem addUserTurn_spares (accountId conversationId : Uuid) (request : UserTurn) (context : AuditContext) :
    Spares (addUserTurn rt accountId conversationId request context) := by
  unfold addUserTurn
  refine (lockConversation_keeps _ _).bind fun c => (Tx.Keeps.raiseIf _ _).bind fun _ => ?_
  refine (byIdempotencyKey_spares _ _).bind fun existing => ?_
  cases existing with
  | some message => exact (Tx.Keeps.raiseIf _ _).bind fun _ => Tx.Keeps.pure _
  | none =>
      refine (Tx.Keeps.gets _).bind fun sequence => (Same.newUuid rt).bind fun id => ?_
      refine (Same.utcNow rt).bind fun now => (appendMessage_spares _ _).bind fun updated => ?_
      exact (publish_spares _ _ _ _).bind fun _ => append_spares.bind fun _ => Tx.Keeps.pure _

theorem addAssistantTurn_spares (conversationId : Uuid) (content idempotencyKey : String) (runId : Uuid)
    (interrupted : Bool) :
    Spares (addAssistantTurn rt conversationId content idempotencyKey runId interrupted) := by
  unfold addAssistantTurn
  refine (Tx.Keeps.gets _).bind fun row => (Tx.Keeps.orRaise _ _).bind fun c => ?_
  refine (byIdempotencyKey_spares _ _).bind fun existing => ?_
  cases existing with
  | some message => exact Tx.Keeps.pure _
  | none =>
      refine (Tx.Keeps.gets _).bind fun sequence => (Same.newUuid rt).bind fun id => ?_
      refine (Same.utcNow rt).bind fun now => (appendMessage_spares _ _).bind fun updated => ?_
      exact Tx.Keeps.pure _

theorem finish_spares (accountId conversationId : Uuid) (reason : String) (context : AuditContext) :
    Spares (finish rt accountId conversationId reason context) := by
  unfold finish
  refine (lockConversation_keeps _ _).bind fun row => ?_
  split
  · refine (Same.utcNow rt).bind fun endedAt => (Same.utcNow rt).bind fun lastActivityAt => ?_
    refine (Relation.save_keeps fun _ => rfl).bind fun _ => (publish_spares _ _ _ _).bind fun _ => ?_
    exact append_spares.bind fun _ => Tx.Keeps.pure _
  · exact Tx.Keeps.pure _

theorem updateMetadata_spares (accountId conversationId : Uuid) (request : MetadataUpdate)
    (context : AuditContext) :
    Spares (HistoryService.updateMetadata rt accountId conversationId request context) := by
  unfold HistoryService.updateMetadata
  refine (lockConversation_keeps _ _).bind fun row => (Tx.Keeps.raiseIf _ _).bind fun _ => ?_
  refine (Relation.save_keeps fun _ => rfl).bind fun _ => (Same.newUuid rt).bind fun id => ?_
  exact (Relation.add_keeps (fun _ _ => rfl) _).bind fun _ => append_spares.bind fun _ => Tx.Keeps.pure _

theorem conversation_spares (call : Closing.Call) : Spares (call.work rt) := by
  unfold Closing.Call.work
  split
  · exact (start_spares _ _ _).bind fun _ => Tx.Keeps.pure _
  · exact (addUserTurn_spares _ _ _ _).bind fun _ => Tx.Keeps.pure _
  · exact (addAssistantTurn_spares _ _ _ _ _).bind fun _ => Tx.Keeps.pure _
  · exact (finish_spares _ _ _ _).bind fun _ => Tx.Keeps.pure _
  · exact (softDelete_keeps items_hidden _ _ _ _ _).bind fun _ => Tx.Keeps.pure _
  · exact (restore_keeps items_hidden _ _ _ _).bind fun _ => Tx.Keeps.pure _
  · exact (continueFrom_keeps items_hidden _ _ _).bind fun _ => Tx.Keeps.pure _

/-! #### The step of an operation -/

theorem conversation_steps {call : Closing.Call} {s s' : Session} {u : PUnit}
    (h : call.work rt s = (.ok u, s')) :
    Steps (fun n => .utc (rt.clock n)) s.tick ((conversation call).Causes s.db .conversation)
      .conversation s.db s'.db := by
  obtain ⟨operation, context, began⟩ := call
  cases operation with
  | start accountId request =>
      obtain ⟨c, h⟩ := discard_ok h
      exact (start_touches h).steps
  | addUserTurn accountId conversationId request =>
      obtain ⟨m, h⟩ := discard_ok h
      exact (addUserTurn_touches h).steps
  | addAssistantTurn conversationId content idempotencyKey runId interrupted =>
      obtain ⟨m, h⟩ := discard_ok h
      exact (addAssistantTurn_touches h).steps
  | finish accountId conversationId reason =>
      obtain ⟨c, h⟩ := discard_ok h
      exact (finish_touches h).steps
  | softDelete accountId conversationId expectedVersion retentionDays =>
      obtain ⟨c, h⟩ := discard_ok h
      exact softDelete_steps h fun row hrow hversion hset => ⟨row, hrow, hversion, hset⟩
  | restore accountId conversationId expectedVersion =>
      obtain ⟨c, h⟩ := discard_ok h
      exact restore_steps h ⟨accountId, expectedVersion, rfl⟩
  | continueFrom accountId conversationId =>
      obtain ⟨c, h⟩ := discard_ok h
      exact (continueFrom_touches h).steps

/-- **Step lemma**: an operation that returns makes a step of the tenure of every row. -/
theorem work_steps {storage : Storage} {operation : Operation} {s s' : Session} {u : PUnit}
    (h : operation.work rt storage s = (.ok u, s')) (owner : Owner) :
    Steps (fun n => .utc (rt.clock n)) s.tick (operation.Causes s.db owner) owner s.db s'.db := by
  cases operation with
  | memory call =>
      obtain ⟨a, h⟩ := discard_ok h
      cases owner with
      | memory =>
          refine (MemoryService.Call.work_steps h).mono ?_
          rintro id cause ⟨rfl, expectedVersion, hrestore⟩
          exact ⟨expectedVersion, hrestore⟩
      | conversation =>
          have hsame : Same Db.conversations s s' :=
            (MemoryService.Call.work_keeps MemoryService.conversations_hidden call).of_apply h
          exact (Calm.of_conversations hsame).steps
  | conversation call =>
      cases owner with
      | memory =>
          have hsame : Same Db.memoryItems s s' := (conversation_spares call).of_apply h
          exact (Calm.of_items hsame).steps
      | conversation => exact conversation_steps h
  | updateMetadata accountId conversationId request context began =>
      obtain ⟨c, h⟩ := discard_ok h
      cases owner with
      | memory =>
          have hsame : Same Db.memoryItems s s' := (updateMetadata_spares _ _ _ _).of_apply h
          exact (Calm.of_items hsame).steps
      | conversation => exact (updateMetadata_touches h).steps
  | purge began => exact purgeExpired_steps owner h

end Operation

/-! ### Runs -/

/-- An operation in a session of its own, from a reading of the clock on. -/
structure Action where
  operation : Operation
  reading : ℕ

/-- The outcome of an action and the session after it. -/
def Action.perform (rt : Runtime) (storage : Storage) (a : Action) (s : Session) :
    Except Exc PUnit × Session :=
  Database.session (a.operation.work rt storage) { s with began := a.operation.began, tick := a.reading }

def step (rt : Runtime) (storage : Storage) (s : Session) (a : Action) : Option Session :=
  some (a.perform rt storage s).2

/-- The action restores the row. -/
def Restores (rt : Runtime) (storage : Storage) (owner : Owner) (id : Uuid) (s : Session) (a : Action) :
    Prop :=
  a.operation.AsksToRestore owner id ∧ (a.perform rt storage s).1 = .ok ⟨⟩

/-- The action deletes a conversation that has a deadline already. -/
def Redeletes (s : Session) (a : Action) : Prop := a.operation.Redeletes s.db

/-- Why the action takes the deadline away from a row. -/
def Causes (rt : Runtime) (storage : Storage) (owner : Owner) (s : Session) (a : Action) (id : Uuid) :
    Tenure.Cause → Prop
  | .restoration => Restores rt storage owner id s a
  | .redeletion => Redeletes s a

section runs

variable {storage : Storage} {owner : Owner} {id : Uuid} {deadline : DateTime}

theorem change_noDomain (op : FileOp) : NoDomain (storage.change op) := by
  intro s e h
  unfold Storage.change at h
  split at h
  · obtain rfl := Except.error.inj h
    exact Exc.not_isDomain_other _
  · simp at h

theorem purgeExpired_noDomain : NoDomain (Worker.purgeExpired rt storage) := by
  refine Tx.RaisesOnly.bind ?_ fun _ => ?_
  · refine (utcNow_noDomain rt).bind fun _ => (Tx.RaisesOnly.gets _).bind fun memories => ?_
    refine (utcNow_noDomain rt).bind fun _ => (Tx.RaisesOnly.gets _).bind fun conversations => ?_
    dsimp only
    split
    · exact Tx.RaisesOnly.pure _
    · exact Tx.RaisesOnly.modify _
  · refine (utcNow_noDomain rt).bind fun _ => (Tx.RaisesOnly.modify _).bind fun _ => ?_
    refine (utcNow_noDomain rt).bind fun _ => (Tx.RaisesOnly.modify _).bind fun _ => ?_
    refine (utcNow_noDomain rt).bind fun _ => (Tx.RaisesOnly.gets _).bind fun rows => ?_
    refine Tx.RaisesOnly.bind (Tx.RaisesOnly.forEach fun record => ?_) fun _ => Tx.RaisesOnly.pure _
    refine Tx.RaisesOnly.bind ?_ fun _ => Relation.save_noDomain _
    refine (Tx.RaisesOnly.gets _).bind fun files => ?_
    split
    · exact Tx.RaisesOnly.pure _
    · dsimp only
      split
      · exact change_noDomain _
      · exact Tx.RaisesOnly.pure _

theorem updateMetadata_notDurable (accountId conversationId : Uuid) (request : MetadataUpdate)
    (context : AuditContext) :
    NotDurable (HistoryService.updateMetadata rt accountId conversationId request context) := by
  refine (Closing.lockConversation_notDurable _ _).bind fun row => ?_
  refine Tx.RaisesOnly.bind (Tx.RaisesOnly.raiseIf fun _ => Bool.false_ne_true) fun _ => ?_
  apply NoDomain.notDurable
  refine (Relation.save_noDomain _).bind fun _ => (newUuid_noDomain rt).bind fun id => ?_
  refine (Relation.add_noDomain _).bind fun _ => ?_
  exact AuditService.append_noDomain.bind fun _ => Tx.RaisesOnly.pure _

theorem work_notDurable (operation : Operation) : NotDurable (operation.work rt storage) := by
  cases operation with
  | memory call => exact call.work_notDurable.bind fun _ => Tx.RaisesOnly.pure _
  | conversation call => exact call.work_notDurable
  | updateMetadata accountId conversationId request context began =>
      exact (updateMetadata_notDurable _ _ _ _).bind fun _ => Tx.RaisesOnly.pure _
  | purge began => exact purgeExpired_noDomain.notDurable

/-- **Step lemma**: every action makes a step of the tenure of every row. -/
theorem step_steps {s s' : Session} {a : Action} (h : step rt storage s a = some s') (owner : Owner) :
    Steps (fun n => .utc (rt.clock n)) a.reading (Causes rt storage owner s a) owner s.db s'.db := by
  obtain rfl := Option.some.inj h
  rcases hr : a.perform rt storage s with ⟨r, s₁⟩
  rcases Database.session_cases (work_notDurable _) hr with ⟨u, hu, hwork⟩ | hdb
  · refine (Operation.work_steps hwork owner).mono ?_
    rintro id (_ | _) hcause
    · refine ⟨hcause, ?_⟩
      rw [hr, hu]
    · exact hcause
  · change s₁.db = s.db at hdb
    change Steps _ _ _ owner s.db s₁.db
    rw [hdb]
    exact Calm.steps fun _ => rfl

theorem step_retained {s s' : Session} {a : Action} (hs : Retained s.db)
    (h : step rt storage s a = some s') : Retained s'.db := by
  intro id owner
  obtain ⟨tenure, htenure⟩ := Option.ne_none_iff_exists'.mp (hs id owner)
  obtain ⟨tenure', htenure', -⟩ := step_steps h owner id tenure htenure
  rw [htenure']
  exact Option.some_ne_none _

/-- An action of the run has removed the row, when the clock had reached its deadline. -/
def Removed (rt : Runtime) (storage : Storage) (owner : Owner) (id : Uuid) (deadline : DateTime)
    (s : Session) (actions : List Action) : Prop :=
  ∃ before a after u, actions = before ++ a :: after ∧
    Runs.run (step rt storage) s (before ++ [a]) = some u ∧ tenure? u.db id owner = some .absent ∧
    ∃ reading, a.reading ≤ reading ∧ deadline.le (.utc (rt.clock reading)) = true

theorem Removed.cons {s s' : Session} {a : Action} {actions : List Action}
    (hs : step rt storage s a = some s') (h : Removed rt storage owner id deadline s' actions) :
    Removed rt storage owner id deadline s (a :: actions) := by
  obtain ⟨before, b, after, u, rfl, hu, habsent⟩ := h
  exact ⟨a :: before, b, after, u, rfl, Runs.run_cons_eq_some.mpr ⟨s', hs, hu⟩, habsent⟩

/-- **Run lemma**: a row that every step keeps or removes is kept or removed by the run. -/
theorem kept_of_run {C : Session → Action → Prop}
    (hstep : ∀ s a tenure, C s a → Tenure.Step (fun n => .utc (rt.clock n)) a.reading
      (Causes rt storage owner s a id) (.kept deadline) tenure →
      tenure = .kept deadline ∨ tenure.RemovedAt (fun n => .utc (rt.clock n)) a.reading deadline)
    {s t : Session} {actions : List Action} (hkept : tenure? s.db id owner = some (.kept deadline))
    (hC : Runs.Along (step rt storage) C s actions)
    (hrun : Runs.run (step rt storage) s actions = some t) :
    Removed rt storage owner id deadline s actions ∨
      tenure? t.db id owner = some (.kept deadline) := by
  induction actions generalizing s with
  | nil =>
      obtain rfl := Option.some.inj hrun
      exact .inr hkept
  | cons a actions ih =>
      obtain ⟨s', hs, hrun'⟩ := Runs.run_cons_eq_some.mp hrun
      obtain ⟨tenure', htenure', hmove⟩ := step_steps hs owner id _ hkept
      rcases hstep s a tenure' hC.1 hmove with rfl | ⟨rfl, hdue⟩
      · exact (ih htenure' (hC.2 s' hs) hrun').imp_left (Removed.cons hs)
      · refine .inl ⟨[], a, actions, s', rfl, ?_, htenure', hdue⟩
        exact Runs.run_cons_eq_some.mpr ⟨s', hs, rfl⟩

/-- There are no memory items and no conversations. -/
structure NoRows (db : Db) : Prop where
  items : db.memoryItems.rows = []
  conversations : db.conversations.rows = []

theorem NoRows.retained {db : Db} (h : NoRows db) : Retained db := by
  intro id owner
  cases owner with
  | memory =>
      unfold tenure? Table.find?
      rw [h.items]
      exact Option.some_ne_none _
  | conversation =>
      unfold tenure? Table.find?
      rw [h.conversations]
      exact Option.some_ne_none _

/-- The `purge_after` of a row. -/
def purgeAfter? (db : Db) (id : Uuid) : Owner → Option DateTime
  | .memory => (db.memoryItems.find? id).bind MemoryItem.purgeAfter
  | .conversation => (db.conversations.find? id).bind Conversation.purgeAfter

/-- The row would be restored at the given time. -/
def Restorable (db : Db) (id : Uuid) (now : DateTime) : Owner → Prop
  | .memory => ∃ item ∈ db.memoryItems.find? id, MemoryService.unrestorable item now = false
  | .conversation => ∃ row ∈ db.conversations.find? id, HistoryService.unrestorable row now = false

/-- A row with a deadline is kept for it. -/
theorem tenure?_of_purgeAfter? {db : Db} (hr : Retained db) (h : purgeAfter? db id owner = some deadline) :
    tenure? db id owner = some (.kept deadline) := by
  obtain ⟨tenure, htenure⟩ := Option.ne_none_iff_exists'.mp (hr id owner)
  cases owner with
  | memory =>
      obtain ⟨item, hfind, hpurge⟩ := Option.bind_eq_some_iff.mp h
      rw [htenure]
      rw [tenure?, hfind] at htenure
      rcases memoryTenure?_cases htenure with ⟨-, hnone, -⟩ | ⟨deadline', -, hsome, rfl⟩
      · rw [hnone] at hpurge
        exact absurd hpurge (by simp)
      · rw [hsome] at hpurge
        rw [Option.some.inj hpurge]
  | conversation =>
      obtain ⟨row, hfind, hpurge⟩ := Option.bind_eq_some_iff.mp h
      rw [htenure]
      rw [tenure?, hfind] at htenure
      rcases conversationTenure?_cases htenure with ⟨-, -, hnone, -⟩ | ⟨deadline', -, -, hsome, rfl⟩
      · rw [hnone] at hpurge
        exact absurd hpurge (by simp)
      · rw [hsome] at hpurge
        rw [Option.some.inj hpurge]

/-- A row that is kept has its deadline. -/
theorem purgeAfter?_of_tenure? {db : Db} (h : tenure? db id owner = some (.kept deadline)) :
    purgeAfter? db id owner = some deadline := by
  cases owner with
  | memory =>
      unfold tenure? at h
      rw [purgeAfter?]
      cases hfind : db.memoryItems.find? id with
      | none =>
          rw [hfind] at h
          exact absurd (Option.some.inj h) (by simp)
      | some item =>
          rw [hfind] at h
          rcases memoryTenure?_cases h with ⟨-, -, hne⟩ | ⟨deadline', -, hpurge, heq⟩
          · exact absurd hne (by simp)
          · rw [Tenure.kept.inj heq]
            exact hpurge
  | conversation =>
      unfold tenure? at h
      rw [purgeAfter?]
      cases hfind : db.conversations.find? id with
      | none =>
          rw [hfind] at h
          exact absurd (Option.some.inj h) (by simp)
      | some row =>
          rw [hfind] at h
          rcases conversationTenure?_cases h with ⟨-, -, -, hne⟩ | ⟨deadline', -, -, hpurge, heq⟩
          · exact absurd hne (by simp)
          · rw [Tenure.kept.inj heq]
            exact hpurge

theorem purgeAfter?_of_absent {db : Db} (h : tenure? db id owner = some .absent) :
    purgeAfter? db id owner = none := by
  cases owner with
  | memory =>
      unfold tenure? at h
      rw [purgeAfter?]
      cases hfind : db.memoryItems.find? id with
      | none => rfl
      | some item =>
          rw [hfind] at h
          rcases memoryTenure?_cases h with ⟨-, -, hne⟩ | ⟨deadline', -, -, hne⟩ <;>
            exact absurd hne (by simp)
  | conversation =>
      unfold tenure? at h
      rw [purgeAfter?]
      cases hfind : db.conversations.find? id with
      | none => rfl
      | some row =>
          rw [hfind] at h
          rcases conversationTenure?_cases h with ⟨-, -, -, hne⟩ | ⟨deadline', -, -, -, hne⟩ <;>
            exact absurd hne (by simp)

/-- A row whose deadline has been reached is not restored. -/
theorem not_restorable {db : Db} {now : DateTime} (h : tenure? db id owner = some (.kept deadline))
    (hdue : deadline.le now = true) : ¬Restorable db id now owner := by
  have hpurge := purgeAfter?_of_tenure? h
  cases owner with
  | memory =>
      rintro ⟨item, hfind, hrestorable⟩
      rw [purgeAfter?, hfind, Option.bind_some] at hpurge
      rw [MemoryService.unrestorable, hpurge, decide_eq_false_iff_not] at hrestorable
      exact hrestorable (.inr hdue)
  | conversation =>
      rintro ⟨row, hfind, hrestorable⟩
      rw [purgeAfter?, hfind, Option.bind_some] at hpurge
      rw [HistoryService.unrestorable, hpurge, decide_eq_false_iff_not] at hrestorable
      exact hrestorable (.inr hdue)

/-- The row is deleted, with its deadline: it is neither active nor shown. -/
def Kept (db : Db) (id : Uuid) (deadline : DateTime) (owner : Owner) : Prop :=
  tenure? db id owner = some (.kept deadline)

/-- The deadline of a row is final in a run from `s` to `t`. -/
structure Final (rt : Runtime) (storage : Storage) (owner : Owner) (id : Uuid) (deadline : DateTime)
    (s : Session) (actions : List Action) (t : Session) : Prop where
  /-- It changes only by a restoration. -/
  kept : Runs.Along (step rt storage) (fun s a => ¬Restores rt storage owner id s a) s actions →
    Removed rt storage owner id deadline s actions ∨ Kept t.db id deadline owner
  /-- Once the clock has reached it, the row stays deleted and cannot be restored any more. -/
  reached : ∀ reading, deadline.le (.utc (rt.clock reading)) = true →
    (∀ a ∈ actions, reading ≤ a.reading) → Removed rt storage owner id deadline s actions ∨
      Kept t.db id deadline owner ∧
        ∀ later, reading ≤ later → ¬Restorable t.db id (.utc (rt.clock later)) owner
  /-- A purge then removes it. -/
  purged : Kept t.db id deadline owner → ∀ began reading,
    deadline.le (.utc (rt.clock reading)) = true →
    (Action.perform rt storage ⟨.purge began, reading⟩ t).1 = .ok ⟨⟩ →
    tenure? (Action.perform rt storage ⟨.purge began, reading⟩ t).2.db id owner = some .absent

/-- A purge that returns removes a row whose deadline has been reached. -/
theorem perform_purge_removes {t : Session} {began : DateTime} {reading : ℕ} (hclock : Monotone rt.clock)
    (ht : Kept t.db id deadline owner) (hdue : deadline.le (.utc (rt.clock reading)) = true)
    (hok : (Action.perform rt storage ⟨.purge began, reading⟩ t).1 = .ok ⟨⟩) :
    tenure? (Action.perform rt storage ⟨.purge began, reading⟩ t).2.db id owner = some .absent := by
  unfold Action.perform at hok ⊢
  change (Database.session (Worker.purgeExpired rt storage) { t with began := began, tick := reading }).1 = _
    at hok
  change tenure? (Database.session (Worker.purgeExpired rt storage)
    { t with began := began, tick := reading }).2.db id owner = _
  rcases hm : Worker.purgeExpired rt storage { t with began := began, tick := reading } with ⟨e | u, t'⟩
  · rw [Database.session, Tx.session_fst, hm] at hok
    exact absurd hok (by simp)
  · rw [Database.session_of_ok hm]
    exact purgeExpired_removes hclock hm ht hdue

/-- **Deadlines are final** in every run that deletes no conversation which is deleted already. -/
theorem deadline_final {s₀ s t : Session} {made actions : List Action} (hclock : Monotone rt.clock)
    (h₀ : NoRows s₀.db) (hmade : Runs.run (step rt storage) s₀ made = some s)
    (hset : purgeAfter? s.db id owner = some deadline)
    (hcond : Runs.Along (step rt storage) (fun s a => ¬Redeletes s a) s actions)
    (hrun : Runs.run (step rt storage) s actions = some t) :
    Final rt storage owner id deadline s actions t := by
  have hretained : Retained s.db :=
    Runs.inv_of_run (I := fun s => Retained s.db) (fun _ _ _ hs h => step_retained hs h) h₀.retained hmade
  have hkept := tenure?_of_purgeAfter? hretained hset
  constructor
  · intro hnone
    refine kept_of_run ?_ hkept (hcond.and hnone) hrun
    rintro s a tenure ⟨hredeletes, hrestores⟩ hmove
    exact hmove.kept hredeletes hrestores
  · intro reading hdue hlater
    have hreadings : Runs.Along (step rt storage) (fun _ a => reading ≤ a.reading) s actions :=
      Runs.Along.of_mem hlater
    have hend : Removed rt storage owner id deadline s actions ∨
        tenure? t.db id owner = some (.kept deadline) := by
      refine kept_of_run ?_ hkept (hcond.and hreadings) hrun
      rintro s a tenure ⟨hredeletes, hle⟩ hmove
      exact hmove.reached hredeletes (le_utc_mono hdue (hclock hle))
    refine hend.imp_right fun ht => ⟨ht, fun later hle => not_restorable ht ?_⟩
    exact le_utc_mono hdue (hclock hle)
  · intro ht began reading hdue hok
    exact perform_purge_removes hclock ht hdue hok

end runs

/-! ### A conversation that is deleted once more -/

/-- Exports below `/exports`, on a file system without faults. -/
def plainStorage : Storage := ⟨["exports"], id, fun _ => none⟩

theorem freshRuntime_clock : Monotone freshRuntime.clock := by
  intro m n hmn
  change (1767268800000000 : ℤ) + 1000000 * m ≤ 1767268800000000 + 1000000 * n
  omega

def conversationAction (operation : Closing.Operation) (reading : ℕ) : Action :=
  ⟨.conversation (Closing.callOf operation), reading⟩

/-- A conversation is started and deleted. -/
def startedAndDeleted : List Action :=
  [conversationAction (.start 1 {}) 0, conversationAction (.softDelete 1 (2 ^ 64) 1 30) 10]

/-- The conversation is deleted once more when its deadline has passed. -/
def deletedOnceMore : List Action := [conversationAction (.softDelete 1 (2 ^ 64) 2 30) 2592100]

/-- The deadline of a deletion that reads the clock at the given reading. -/
def deadlineFrom (reading : ℕ) : DateTime :=
  (DateTime.utc (freshRuntime.clock reading)).addMicros (DateTime.days 30)

theorem emptySession_noRows : NoRows Closing.emptySession.db := ⟨rfl, rfl⟩

/-- A deadline that has passed is moved by another deletion of the conversation. -/
theorem deadline_moved : ¬∀ (rt : Runtime) (storage : Storage) (owner : Owner) (id : Uuid)
    (deadline : DateTime) (s₀ s t : Session) (made actions : List Action), Monotone rt.clock →
    NoRows s₀.db → Runs.run (step rt storage) s₀ made = some s →
    purgeAfter? s.db id owner = some deadline → Runs.run (step rt storage) s actions = some t →
    Final rt storage owner id deadline s actions t := by
  intro h
  have hrun : (match Runs.run (step freshRuntime plainStorage) Closing.emptySession startedAndDeleted with
      | some s => match Runs.run (step freshRuntime plainStorage) s deletedOnceMore with
        | some t => decide (purgeAfter? s.db (2 ^ 64) .conversation = some (deadlineFrom 11) ∧
            purgeAfter? t.db (2 ^ 64) .conversation = some (deadlineFrom 2592101))
        | none => false
      | none => false) = true := by
    decide +kernel
  rcases hs : Runs.run (step freshRuntime plainStorage) Closing.emptySession startedAndDeleted with _ | s <;>
    simp only [hs] at hrun
  · simp at hrun
  rcases ht : Runs.run (step freshRuntime plainStorage) s deletedOnceMore with _ | t <;>
    simp only [ht] at hrun
  · simp at hrun
  obtain ⟨hset, hmoved⟩ := of_decide_eq_true hrun
  have hfinal := h freshRuntime plainStorage .conversation (2 ^ 64) (deadlineFrom 11) _ s t _ _
    freshRuntime_clock emptySession_noRows hs hset ht
  have hdue : (deadlineFrom 11).le (.utc (freshRuntime.clock 2592100)) = true := by decide
  have hreading : ∀ a ∈ deletedOnceMore, 2592100 ≤ a.reading := by
    intro a ha
    obtain rfl := List.mem_singleton.mp ha
    exact Nat.le_refl _
  rcases hfinal.reached 2592100 hdue hreading with ⟨before, a, after, u, hsplit, hu, habsent, -⟩ | ⟨hkept, -⟩
  · -- the only action of the run leaves the row where it is
    have hbefore : before = [] := by
      have hlength := congrArg List.length hsplit
      simp only [deletedOnceMore, List.length_cons, List.length_nil, List.length_append] at hlength
      exact List.eq_nil_of_length_eq_zero (by omega)
    subst hbefore
    obtain ⟨rfl, -⟩ := List.cons.inj hsplit
    change Runs.run (step freshRuntime plainStorage) s deletedOnceMore = some u at hu
    obtain rfl : t = u := Option.some.inj (ht.symm.trans hu)
    rw [purgeAfter?_of_absent habsent] at hmoved
    exact absurd hmoved (by simp)
  · rw [purgeAfter?_of_tenure? hkept] at hmoved
    exact absurd hmoved (by decide)

/-- A deleted conversation is asked for after its deadline. -/
theorem deadline_final_restoring : ∃ s t,
    Runs.run (step freshRuntime plainStorage) Closing.emptySession startedAndDeleted = some s ∧
    Runs.run (step freshRuntime plainStorage) s
      [conversationAction (.restore 1 (2 ^ 64) 2) 2592100] = some t ∧
    Final freshRuntime plainStorage .conversation (2 ^ 64) (deadlineFrom 11) s
      [conversationAction (.restore 1 (2 ^ 64) 2) 2592100] t := by
  have hrun : (match Runs.run (step freshRuntime plainStorage) Closing.emptySession startedAndDeleted with
      | some s => decide (purgeAfter? s.db (2 ^ 64) .conversation = some (deadlineFrom 11))
      | none => false) = true := by
    decide +kernel
  rcases hs : Runs.run (step freshRuntime plainStorage) Closing.emptySession startedAndDeleted with _ | s <;>
    simp only [hs] at hrun
  · simp at hrun
  refine ⟨s, _, rfl, rfl, deadline_final freshRuntime_clock emptySession_noRows hs
    (of_decide_eq_true hrun) ?_ rfl⟩
  exact ⟨id, fun _ _ => trivial⟩

end Retention

end KajovoDagmar
