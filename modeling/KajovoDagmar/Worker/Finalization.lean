import KajovoDagmar.Library.ReadCommitted
import KajovoDagmar.Orchestration.Context

/-! # Finalisation of conversations

The job `conversation_finalize` of the worker, interleaved with `HistoryService.update_metadata`
under READ COMMITTED.  A job may run at any time and any number of times: it is created when the
conversation is closed, and after a failure it is queued again with a delay.  The jobs of one
session are modelled by a transaction each, and their rows in `background_job` are left out.

A finalisation writes title and summary in three of its exits.  It never reads where the ones
that stand come from, and two of the exits do not raise the version. -/

namespace KajovoDagmar

open ReadCommitted HistoryService

/-! ### The answer of the model -/

structure SummaryDecision where
  title : { t : String // 1 ≤ t.length ∧ t.length ≤ 240 }
  summary : { t : String // 1 ≤ t.length ∧ t.length ≤ 10000 }

/-- `Field(min_length=1, max_length=…)` of type `str`. -/
def validateBounded (maxLength : ℕ) :
    Json → Option { t : String // 1 ≤ t.length ∧ t.length ≤ maxLength }
  | .str s => if h : 1 ≤ s.length ∧ s.length ≤ maxLength then some ⟨s, h⟩ else none
  | _ => none

def SummaryDecision.modelValidate (j : Json) : Option SummaryDecision := do
  let title ← (j.get? "title").bind (validateBounded 240)
  let summary ← (j.get? "summary").bind (validateBounded 10000)
  pure ⟨title, summary⟩

/-- `SummaryDecision.model_json_schema()`. -/
def SummaryDecision.modelJsonSchema : Json :=
  let field (title : String) (maxLength : ℤ) : Json := .obj
    [("maxLength", .int maxLength), ("minLength", .int 1), ("title", .str title), ("type", .str "string")]
  .obj
    [("properties", .obj [("title", field "Title" 240), ("summary", field "Summary" 10000)]),
     ("required", .arr [.str "title", .str "summary"]), ("title", .str "SummaryDecision"),
     ("type", .str "object")]

/-! ### What a finalisation writes -/

/-- The exits of a finalisation that write. -/
inductive Finalization where
  /-- There are no messages. -/
  | empty
  /-- Automatic summaries are switched off. -/
  | system (messageCount : ℕ)
  | automatic (decision : SummaryDecision)

namespace Finalization

def title : Finalization → String
  | empty => "Prázdný rozhovor"
  | system _ => "Rozhovor"
  | automatic decision => decision.title.val

def summary : Finalization → String
  | empty => "Rozhovor byl ukončen bez potvrzených replik."
  | system messageCount => "Ukončený rozhovor (" ++ toString messageCount ++ " replik)."
  | automatic decision => decision.summary.val

def source : Finalization → TextSource
  | empty | automatic _ => .automatic
  | system _ => .system

/-- The exit raises the version. -/
def Raises : Finalization → Prop
  | automatic _ => True
  | empty | system _ => False

instance : DecidablePred Raises
  | automatic _ => isTrue trivial
  | empty | system _ => isFalse id

/-- The finalised row. -/
def finalized (f : Finalization) (row : Conversation) : Conversation :=
  { row with
    title := some f.title
    summary := some f.summary
    titleSource := f.source
    summarySource := f.source
    version := if f.Raises then row.version + 1 else row.version }

@[simp] theorem id_finalized (f : Finalization) (row : Conversation) : (f.finalized row).id = row.id := rfl

/-- The writes of the exit. -/
def work (rt : Runtime) (f : Finalization) (row : Conversation) : Work PUnit := do
  Db.conversation.save rt (f.finalized row)
  match f with
  | automatic decision => do
    let id ← newUuid rt
    Db.conversationSummary.add rt
      { id := id
        conversationId := row.id
        revisionNumber := (f.finalized row).version
        title := decision.title.val
        summary := decision.summary.val
        source := .automatic }
  | empty | system _ => pure ⟨⟩

end Finalization

namespace Worker

variable (out : Outside)

/-- The transcript in the request for a summary. -/
def summaryTranscript (messages : List ConversationMessage) : String :=
  String.intercalate "\n" (messages.map fun message =>
    (if message.role = .user then "Administrátor" else "KájovoDagmar") ++ ": " ++ message.content)

/-- The request for a title and a summary. -/
def summaryRequest (model : ModelCatalogEntry) (messages : List ConversationMessage) : ChatRequest where
  model := model.externalId
  messages :=
    [⟨"system", "Vytvoř krátký pravdivý český název a stručné shrnutí " ++
        "pouze z doloženého přepisu. " ++
        "Neodvozuj nevyřčená fakta, zachovej nejistotu a otevřené body."⟩,
     ⟨"user", String.ofList ((summaryTranscript messages).toList.take 120000)⟩]
  responseSchema := SummaryDecision.modelJsonSchema
  temperature := "0.0"
  timeoutSeconds := "45.0"
  capabilities := model.capabilities

/-- The value of a setting, `setting.value.get("value")`. -/
def settingValue (db : Db) (area key : String) : Json :=
  (db.setting? area key).elim .null fun row => row.value.getD "value" .null

/-- The available model of `resolve_model`. -/
def availableModel? (db : Db) (modelId : Uuid) : Option ModelCatalogEntry :=
  (db.modelCatalogEntries.find? modelId).filter (·.available)

/-- The verified provider of `resolve_model`. -/
def verifiedProvider? (db : Db) (model : ModelCatalogEntry) : Option ProviderConfiguration :=
  (db.providerConfigurations.find? model.providerId).filter fun p =>
    p.enabled ∧ p.verificationState = "verified"

end Worker

/-! ### The program -/

namespace Finalizations

/-- A run of the job `conversation_finalize`, with the start of its transaction and the first
reading of its clock. -/
structure FinalizeJob where
  conversationId : Uuid
  began : DateTime
  tick : ℕ

structure MetadataRequest where
  accountId : Uuid
  conversationId : Uuid
  request : MetadataUpdate
  context : AuditContext
  began : DateTime
  tick : ℕ

/-- Where a transaction stands: its next statement, with what it has read. -/
inductive Stage where
  | update (d : MetadataRequest)
  | edit (d : MetadataRequest) (row : Conversation)
  | finalize (j : FinalizeJob)
  | readMessages (j : FinalizeJob) (row : Conversation)
  | readSetting (j : FinalizeJob) (row : Conversation) (messages : List ConversationMessage)
  | readAutomatic (j : FinalizeJob) (row : Conversation) (messages : List ConversationMessage)
      (model : Json)
  | readModel (j : FinalizeJob) (row : Conversation) (messages : List ConversationMessage)
      (modelId : Uuid)
  | readProvider (j : FinalizeJob) (row : Conversation) (messages : List ConversationMessage)
      (model : ModelCatalogEntry)
  | write (j : FinalizeJob) (row : Conversation) (f : Finalization)
  /-- The session is rolled back, or the job has nothing to write. -/
  | refused

section program

variable (out : Outside)

/-- What the commit of an update publishes. -/
def publishEdit (d : MetadataRequest) (row : Conversation) (db : Db) : Db :=
  (Database.session (updateMetadataRow out.toRuntime row d.request d.context)
    { db := db, began := d.began, tick := d.tick }).2.db

/-- What the commit of a finalisation publishes: its writes are in a savepoint. -/
def publishFinalization (j : FinalizeJob) (row : Conversation) (f : Finalization) (db : Db) : Db :=
  match f.work out.toRuntime row { db := db, began := j.began, tick := j.tick } with
  | (.ok _, s) => s.db
  | (.error _, _) => db

/-- The answer of the model, with the provider that has been read. -/
def answered (j : FinalizeJob) (row : Conversation) (messages : List ConversationMessage)
    (model : ModelCatalogEntry) (db : Db) : Stage :=
  match Worker.verifiedProvider? db model with
  | none => .refused
  | some provider =>
    if (out.providerRuntime db provider).isSome then .refused
    else match out.chat j.tick (Worker.summaryRequest model messages) with
      | .error _ => .refused
      | .ok result =>
        match SummaryDecision.modelValidate result.structured with
        | none => .refused
        | some decision => .write j row (.automatic decision)

/-- The next statement of a transaction. -/
def stmt : Stage → Stmt Uuid Db Stage
  | .update d => .lock d.conversationId fun db =>
    match conversation? db d.accountId d.conversationId with
    | none => .refused
    | some row => if row.version ≠ d.request.expectedVersion.val then .refused else .edit d row
  | .edit d row => .commit fun db => some (publishEdit out d row db)
  | .finalize j => .lock j.conversationId fun db =>
    match db.conversations.find? j.conversationId with
    | none => .refused
    | some row => .readMessages j row
  | .readMessages j row => .read fun db =>
    if db.messagesOf row.id = [] then .write j row .empty else .readSetting j row (db.messagesOf row.id)
  | .readSetting j row messages => .read fun db =>
    if (Worker.settingValue db "models" "summary_model").truthy = false then .refused
    else .readAutomatic j row messages (Worker.settingValue db "models" "summary_model")
  | .readAutomatic j row messages model => .read fun db =>
    match Worker.settingValue db "history" "automatic_summary" with
    | .bool false => .write j row (.system messages.length)
    | _ =>
      match out.parseUuid (OrchestrationService.pyStr out model) with
      | none => .refused
      | some modelId => .readModel j row messages modelId
  | .readModel j row messages modelId => .read fun db =>
    match Worker.availableModel? db modelId with
    | none => .refused
    | some model => .readProvider j row messages model
  | .readProvider j row messages model => .read (answered out j row messages model)
  | .write j row f => .commit fun db => some (publishFinalization out j row f db)
  | .refused => .commit some

/-- A transaction begins with a request or with a job. -/
def initial : Stage → Bool
  | .update _ | .finalize _ => true
  | _ => false

/-- Updates of metadata and finalisations, interleaved. -/
abbrev step := ReadCommitted.step (stmt out) initial

end program

/-! ### The row of a transaction -/

variable {out : Outside}

/-- The row that a transaction has locked. -/
def row? : Stage → Option Conversation
  | .edit _ row | .readMessages _ row | .readSetting _ row _ | .readAutomatic _ row _ _
  | .readModel _ row _ _ | .readProvider _ row _ _ | .write _ row _ => some row
  | .update _ | .finalize _ | .refused => none

def Holds (t : Stage) (k : Uuid) : Prop := ∃ row, row? t = some row ∧ row.id = k

/-- The locked row is the stored one. -/
def Knows (db : Db) (t : Stage) : Prop :=
  ∀ row, row? t = some row → db.conversations.find? row.id = some row

theorem row?_answered (j : FinalizeJob) (row : Conversation) (messages : List ConversationMessage)
    (model : ModelCatalogEntry) (db : Db) :
    row? (answered out j row messages model db) = some row ∨
      row? (answered out j row messages model db) = none := by
  unfold answered
  split
  · exact .inr rfl
  split
  · exact .inr rfl
  split
  · exact .inr rfl
  split
  · exact .inr rfl
  · exact .inl rfl

/-- A statement that reads keeps the row, or it is the end. -/
theorem row?_of_read {t : Stage} {next : Db → Stage} (h : stmt out t = .read next) (db : Db) :
    row? (next db) = row? t ∨ row? (next db) = none := by
  cases t with
  | readMessages j row =>
      obtain rfl := Stmt.read.inj h
      dsimp only
      split
      · exact .inl rfl
      · exact .inl rfl
  | readSetting j row messages =>
      obtain rfl := Stmt.read.inj h
      dsimp only
      split
      · exact .inr rfl
      · exact .inl rfl
  | readAutomatic j row messages model =>
      obtain rfl := Stmt.read.inj h
      dsimp only
      split
      · exact .inl rfl
      split
      · exact .inr rfl
      · exact .inl rfl
  | readModel j row messages modelId =>
      obtain rfl := Stmt.read.inj h
      dsimp only
      split
      · exact .inr rfl
      · exact .inl rfl
  | readProvider j row messages model =>
      obtain rfl := Stmt.read.inj h
      exact row?_answered j row messages model db
  | _ => simp [stmt] at h

/-- A statement that locks a row goes on with the stored row, or it is the end. -/
theorem row?_of_lock {t : Stage} {k : Uuid} {next : Db → Stage} (h : stmt out t = .lock k next)
    (db : Db) : row? (next db) = none ∨
      ∃ row, row? (next db) = some row ∧ db.conversations.find? k = some row := by
  cases t with
  | update d =>
      obtain ⟨rfl, rfl⟩ := Stmt.lock.inj h
      dsimp only
      split
      · exact .inl rfl
      · next row hrow =>
        split
        · exact .inl rfl
        · exact .inr ⟨row, rfl, (Option.filter_eq_some_iff.mp hrow).1⟩
  | finalize j =>
      obtain ⟨rfl, rfl⟩ := Stmt.lock.inj h
      dsimp only
      split
      · exact .inl rfl
      · next row hrow => exact .inr ⟨row, rfl, hrow⟩
  | _ => simp [stmt] at h

/-- The row ownership of the program. -/
theorem discipline : Discipline (stmt out) initial Holds where
  start := by
    rintro t k ht ⟨row, hrow, -⟩
    cases t with
    | update d => simp [row?] at hrow
    | finalize j => simp [row?] at hrow
    | _ => simp [initial] at ht
  lock := by
    rintro t k next db k' hstmt ⟨row, hrow, rfl⟩
    rcases row?_of_lock hstmt db with hnone | ⟨row', hrow', hfind⟩
    · rw [hnone] at hrow
      simp at hrow
    · obtain rfl : row' = row := Option.some.inj (hrow'.symm.trans hrow)
      exact .inl (Table.key_of_find? hfind)
  read := by
    rintro t next db k hstmt ⟨row, hrow, rfl⟩
    rcases row?_of_read hstmt db with hsame | hnone
    · exact ⟨row, hsame.symm.trans hrow, rfl⟩
    · rw [hnone] at hrow
      simp at hrow

/-- The rows that are locked. -/
def rowOf (db : Db) (k : Uuid) : Option Conversation := db.conversations.find? k

theorem knows_stable : Stable Holds rowOf Knows := by
  intro t db db' hsame h row hrow
  have hrow' : rowOf db' row.id = rowOf db row.id := hsame row.id ⟨row, hrow, rfl⟩
  exact hrow'.trans (h row hrow)

/-! ### What a commit does -/

theorem updateMetadataRow_conversations (rt : Runtime) {row : Conversation} {request : MetadataUpdate}
    {context : AuditContext} {s s' : Session} {c : Conversation}
    (h : updateMetadataRow rt row request context s = (.ok c, s')) :
    s'.db.conversations = s.db.conversations.put (retitle row request) := by
  obtain ⟨u, s₁, hsave, h₁⟩ := Tx.bind_eq_ok h
  have hput : s₁.db.conversations = s.db.conversations.put (retitle row request) := by
    rw [Relation.save_eq_ok hsave]
    rfl
  rw [← hput]
  refine Tx.Keeps.of_apply (R := Same Db.conversations) ?_ h₁
  refine (Same.newUuid rt).bind fun id => (Relation.add_keeps (fun _ _ => rfl) _).bind fun _ => ?_
  exact (AuditService.append_keeps fun _ _ => rfl).bind fun _ => Tx.Keeps.pure _

theorem updateMetadataRow_notDurable (rt : Runtime) (row : Conversation) (request : MetadataUpdate)
    (context : AuditContext) : NotDurable (updateMetadataRow rt row request context) := by
  apply NoDomain.notDurable
  refine (Relation.save_noDomain _).bind fun _ => (newUuid_noDomain rt).bind fun id => ?_
  refine (Relation.add_noDomain _).bind fun _ => ?_
  exact AuditService.append_noDomain.bind fun _ => Tx.RaisesOnly.pure _

theorem work_conversations (rt : Runtime) {f : Finalization} {row : Conversation} {s s' : Session}
    {u : PUnit} (h : f.work rt row s = (.ok u, s')) :
    s'.db.conversations = s.db.conversations.put (f.finalized row) := by
  obtain ⟨u, s₁, hsave, h₁⟩ := Tx.bind_eq_ok h
  have hput : s₁.db.conversations = s.db.conversations.put (f.finalized row) := by
    rw [Relation.save_eq_ok hsave]
    rfl
  rw [← hput]
  cases f with
  | automatic decision =>
      refine Tx.Keeps.of_apply (R := Same Db.conversations) ?_ h₁
      exact (Same.newUuid rt).bind fun id => Relation.add_keeps (fun _ _ => rfl) _
  | empty => rw [(Prod.mk.inj h₁).2]
  | system messageCount => rw [(Prod.mk.inj h₁).2]

/-- **What a commit does to the conversations.** -/
theorem conversations_of_commit {t : Stage} {publish : Db → Option Db} {db db' : Db}
    (hstmt : stmt out t = .commit publish) (hpublish : publish db = some db') :
    db'.conversations = db.conversations ∨
      (∃ d row, t = .edit d row ∧
        db'.conversations = db.conversations.put (retitle row d.request)) ∨
      ∃ j row f, t = .write j row f ∧ db'.conversations = db.conversations.put (f.finalized row) := by
  cases t with
  | edit d row =>
      obtain rfl := Stmt.commit.inj hstmt
      obtain rfl := Option.some.inj hpublish
      unfold publishEdit
      rcases hs : Database.session (updateMetadataRow out.toRuntime row d.request d.context)
        { db := db, began := d.began, tick := d.tick } with ⟨r, s'⟩
      rcases Database.session_cases (updateMetadataRow_notDurable _ _ _ _) hs with
        ⟨c, -, hwork⟩ | hdb
      · exact .inr (.inl ⟨d, row, rfl, updateMetadataRow_conversations _ hwork⟩)
      · exact .inl (congrArg Db.conversations hdb)
  | write j row f =>
      obtain rfl := Stmt.commit.inj hstmt
      obtain rfl := Option.some.inj hpublish
      unfold publishFinalization
      split
      · next u s hwork => exact .inr (.inr ⟨j, row, f, rfl, work_conversations _ hwork⟩)
      · exact .inl rfl
  | refused =>
      obtain rfl := Stmt.commit.inj hstmt
      obtain rfl := Option.some.inj hpublish
      exact .inl rfl
  | _ => simp [stmt] at hstmt

/-- A commit changes no row but the one that its transaction has locked. -/
theorem knows_local : Local (stmt out) Holds rowOf Knows := by
  intro t publish db db' k hstmt _ hpublish hnot
  unfold rowOf
  rcases conversations_of_commit hstmt hpublish with
    hsame | ⟨d, row, rfl, hput⟩ | ⟨j, row, f, rfl, hput⟩
  · rw [hsame]
  · rw [hput]
    exact Table.find?_put_of_ne fun hk => hnot ⟨row, rfl, hk.symm⟩
  · rw [hput]
    exact Table.find?_put_of_ne fun hk => hnot ⟨row, rfl, hk.symm⟩

/-! ### Runs -/

section runs

/-- What holds between two events. -/
structure Inv (s : State Uuid Db Stage) : Prop where
  held : Held Holds s
  knows : Asserted Knows s

variable {s s' : State Uuid Db Stage} {e : Event Stage}

theorem Inv.of_quiet (hs : s.Quiet) : Inv s := ⟨Held.of_quiet hs, Asserted.of_quiet hs⟩

/-- **Step lemma**. -/
theorem Inv.of_step (h : Inv s) (hs : step out s e = some s') : Inv s' where
  held := h.held.of_step discipline hs
  knows := by
    refine Asserted.of_local knows_local knows_stable ?_ ?_ ?_ h.held h.knows hs
    · intro db t ht row hrow
      cases t with
      | update d => simp [row?] at hrow
      | finalize j => simp [row?] at hrow
      | _ => simp [initial] at ht
    · intro db t k next hstmt _ row hrow
      rcases row?_of_lock hstmt db with hnone | ⟨row', hrow', hfind⟩
      · rw [hnone] at hrow
        simp at hrow
      · obtain rfl : row' = row := Option.some.inj (hrow'.symm.trans hrow)
        rw [Table.key_of_find? hfind]
        exact hfind
    · intro db t next hstmt hknows row hrow
      rcases row?_of_read hstmt db with hsame | hnone
      · exact hknows row (hsame.symm.trans hrow)
      · rw [hnone] at hrow
        simp at hrow

theorem Inv.of_run {events : List (Event Stage)} (h : Inv s)
    (hrun : Runs.run (step out) s events = some s') : Inv s' :=
  Runs.inv_of_run (fun _ _ _ hinv hs => hinv.of_step hs) h hrun

/-- The stored rows after a row has been written. -/
theorem row_of_put {t : Table Conversation.id} {row row' c : Conversation} {id : Uuid}
    (hrow : t.find? row.id = some row) (hid : row'.id = row.id) (hc : t.find? id = some c) :
    (t.put row').find? id = some c ∨ (row = c ∧ (t.put row').find? id = some row') := by
  by_cases hrowid : id = row'.id
  · subst hrowid
    rw [← hid] at hrow
    exact .inr ⟨Option.some.inj (hrow.symm.trans hc), Table.find?_put_self hrow⟩
  · rw [Table.find?_put_of_ne hrowid]
    exact .inl hc

/-- What an event does to a row: it is edited by an update that has found it, or finalised by a
job that has found it, or it stays. -/
theorem Inv.row_of_step (h : Inv s) (hs : step out s e = some s') {id : Uuid} {c : Conversation}
    (hc : s.store.conversations.find? id = some c) :
    ∃ c', s'.store.conversations.find? id = some c' ∧ (c' = c ∨
      (∃ i d, e = .exec i ∧ s.txn i = some (.edit d c) ∧ c' = retitle c d.request) ∨
      ∃ i j f, e = .exec i ∧ s.txn i = some (.write j c f) ∧ c' = f.finalized c) := by
  rcases store_eq_or_commit hs with hsame | ⟨i, t, publish, rfl, ht, hstmt, hpublish⟩
  · exact ⟨c, by rw [hsame]; exact hc, .inl rfl⟩
  have hknows := h.knows i t ht
  rcases conversations_of_commit hstmt hpublish with
    hsame | ⟨d, row, rfl, hput⟩ | ⟨j, row, f, rfl, hput⟩
  · exact ⟨c, by rw [hsame]; exact hc, .inl rfl⟩
  · rcases row_of_put (hknows row rfl) (id_retitle row d.request) hc with hstays | ⟨rfl, hrow⟩
    · exact ⟨c, by rw [hput]; exact hstays, .inl rfl⟩
    · exact ⟨_, by rw [hput]; exact hrow, .inr (.inl ⟨i, d, rfl, ht, rfl⟩)⟩
  · rcases row_of_put (hknows row rfl) (f.id_finalized row) hc with hstays | ⟨rfl, hrow⟩
    · exact ⟨c, by rw [hput]; exact hstays, .inl rfl⟩
    · exact ⟨_, by rw [hput]; exact hrow, .inr (.inr ⟨i, j, f, rfl, ht, rfl⟩)⟩

end runs

/-! ### Manual metadata -/

/-- The two texts of a conversation. -/
inductive Field where
  | title | summary

namespace Field

/-- The text of a conversation and who wrote it. -/
def stored (c : Conversation) : Field → Option String × TextSource
  | title => (c.title, c.titleSource)
  | summary => (c.summary, c.summarySource)

/-- The text that a request enters. -/
def entered (request : MetadataUpdate) : Field → Option String
  | title => request.title.map fun t => PythonText.strip t.val
  | summary => request.summary.map fun t => PythonText.strip t.val

theorem stored_retitle (field : Field) (c : Conversation) (request : MetadataUpdate) :
    field.stored (retitle c request) =
      (field.entered request).elim (field.stored c) fun t => (some t, .manual) := by
  cases field with
  | title => cases h : request.title <;> simp [stored, entered, retitle, h]
  | summary => cases h : request.summary <;> simp [stored, entered, retitle, h]

end Field

section statement

variable (out : Outside)

/-- The event commits an update of the metadata of the conversation. -/
def Edits (s : State Uuid Db Stage) (e : Event Stage) (id : Uuid) (request : MetadataUpdate) : Prop :=
  ∃ i d row s', e = .exec i ∧ s.txn i = some (.edit d row) ∧ d.request = request ∧ row.id = id ∧
    step out s e = some s' ∧ s'.store.conversations.find? id ≠ s.store.conversations.find? id

/-- Along the events from `s`, a text that an update has committed stays, with the source manual,
until another update of it is committed, and every change of a title or a summary raises the
version. -/
structure ManualWins (s : State Uuid Db Stage) (events : List (Event Stage)) : Prop where
  stays : ∀ before e between after u u' v id request (field : Field) text,
    events = before ++ e :: (between ++ after) →
    Runs.run (step out) s before = some u → step out u e = some u' → Edits out u e id request →
    field.entered request = some text → Runs.run (step out) u' between = some v →
    Runs.Along (step out)
      (fun w e' => ∀ request', Edits out w e' id request' → field.entered request' = none) u' between →
    ∃ c, v.store.conversations.find? id = some c ∧ field.stored c = (some text, .manual)
  raises : ∀ before e after u u' id c, events = before ++ e :: after →
    Runs.run (step out) s before = some u → step out u e = some u' →
    u.store.conversations.find? id = some c →
    ∃ c', u'.store.conversations.find? id = some c' ∧
      (c'.title ≠ c.title ∨ c'.summary ≠ c.summary → c.version < c'.version)

end statement

/-- The finalisation overwrites a manual text, or it writes another text without raising the
version. -/
def Overwrites (row : Conversation) (f : Finalization) : Prop :=
  row.titleSource = .manual ∨ row.summarySource = .manual ∨
    (¬f.Raises ∧ (row.title ≠ some f.title ∨ row.summary ≠ some f.summary))

instance (row : Conversation) (f : Finalization) : Decidable (Overwrites row f) :=
  inferInstanceAs (Decidable (_ ∨ _ ∨ _))

/-- The event commits a finalisation that overwrites. -/
def Spoils (s : State Uuid Db Stage) (e : Event Stage) : Prop :=
  ∃ i j row f, e = .exec i ∧ s.txn i = some (.write j row f) ∧ Overwrites row f

section manual

variable {s s' : State Uuid Db Stage} {e : Event Stage}

/-- An event that spoils nothing raises the version of what it changes. -/
theorem Inv.raises_of_step (h : Inv s) (hnot : ¬Spoils s e) (hs : step out s e = some s') {id : Uuid}
    {c : Conversation} (hc : s.store.conversations.find? id = some c) :
    ∃ c', s'.store.conversations.find? id = some c' ∧
      (c'.title ≠ c.title ∨ c'.summary ≠ c.summary → c.version < c'.version) := by
  obtain ⟨c', hc', hchange⟩ := h.row_of_step hs hc
  refine ⟨c', hc', fun hdiffers => ?_⟩
  rcases hchange with rfl | ⟨i, d, rfl, ht, rfl⟩ | ⟨i, j, f, rfl, ht, rfl⟩
  · simp at hdiffers
  · simp [retitle]
  · have hkept : ¬Overwrites c f := fun ho => hnot ⟨i, j, c, f, rfl, ht, ho⟩
    by_cases hraises : f.Raises
    · simp [Finalization.finalized, hraises]
    · refine absurd (.inr (.inr ⟨hraises, ?_⟩)) hkept
      exact hdiffers.imp Ne.symm Ne.symm

/-- An edit that has been committed is stored. -/
theorem Inv.stored_of_edits (h : Inv s) {id : Uuid} {request : MetadataUpdate}
    (he : Edits out s e id request) (hs : step out s e = some s') {field : Field} {text : String}
    (hentered : field.entered request = some text) :
    ∃ c, s'.store.conversations.find? id = some c ∧ field.stored c = (some text, .manual) := by
  obtain ⟨i, d, row, s₁, rfl, ht, rfl, rfl, hs₁, hchanged⟩ := he
  obtain rfl : s' = s₁ := Option.some.inj (hs.symm.trans hs₁)
  have hrow : s.store.conversations.find? row.id = some row := h.knows i _ ht row rfl
  obtain ⟨c', hc', hchange⟩ := h.row_of_step hs hrow
  rcases hchange with rfl | ⟨i', d', he', ht', rfl⟩ | ⟨i', j, f, he', ht', rfl⟩
  · exact absurd (hc'.trans hrow.symm) hchanged
  · obtain rfl := Event.exec.inj he'
    obtain ⟨rfl, -⟩ := Stage.edit.inj (Option.some.inj (ht.symm.trans ht'))
    refine ⟨_, hc', ?_⟩
    rw [Field.stored_retitle, hentered, Option.elim_some]
  · obtain rfl := Event.exec.inj he'
    simp [ht] at ht'

/-- A manual text stays over an event that neither spoils it nor edits it. -/
theorem Inv.stored_of_step (h : Inv s) (hnot : ¬Spoils s e) (hs : step out s e = some s') {id : Uuid}
    {field : Field} {text : String}
    (hedit : ∀ request, Edits out s e id request → field.entered request = none)
    (hc : ∃ c, s.store.conversations.find? id = some c ∧ field.stored c = (some text, .manual)) :
    ∃ c, s'.store.conversations.find? id = some c ∧ field.stored c = (some text, .manual) := by
  obtain ⟨c, hc, hstored⟩ := hc
  obtain ⟨c', hc', hchange⟩ := h.row_of_step hs hc
  refine ⟨c', hc', ?_⟩
  rcases hchange with rfl | ⟨i, d, rfl, ht, rfl⟩ | ⟨i, j, f, rfl, ht, rfl⟩
  · exact hstored
  · have hid : c.id = id := Table.key_of_find? hc
    have hchanged : s'.store.conversations.find? id ≠ s.store.conversations.find? id := by
      rw [hc, hc']
      intro hsame
      have hversion := congrArg Conversation.version (Option.some.inj hsame)
      simp [retitle] at hversion
    have hnone := hedit d.request ⟨i, d, c, s', rfl, ht, rfl, hid, hs, hchanged⟩
    rw [Field.stored_retitle, hnone]
    exact hstored
  · have hmanual : c.titleSource = .manual ∨ c.summarySource = .manual := by
      cases field with
      | title => exact .inl (Prod.mk.inj hstored).2
      | summary => exact .inr (Prod.mk.inj hstored).2
    refine absurd ⟨i, j, c, f, rfl, ht, ?_⟩ hnot
    exact hmanual.imp_right .inl

end manual

/-- **Manual metadata wins** in a run in which no finalisation comes to write over a manual title
or summary, or other texts in an exit that does not raise the version. -/
theorem manual_wins {s : State Uuid Db Stage} {events : List (Event Stage)} (hs : s.Quiet)
    (hcond : Runs.Along (step out) (fun s e => ¬Spoils s e) s events) : ManualWins out s events := by
  have hinv : Inv s := .of_quiet hs
  constructor
  · rintro before e between after u u' v id request field text rfl hrun hstep hedits hentered hrun' halong
    obtain ⟨-, hcond'⟩ := (hcond.append.2 u hrun)
    have hbetween := (hcond' u' hstep).append.1
    have hu : Inv u := hinv.of_run hrun
    have hstored := hu.stored_of_edits hedits hstep hentered
    have hboth := hbetween.and halong
    exact (Runs.inv_of_along (I := fun w => Inv w ∧ ∃ c, w.store.conversations.find? id = some c ∧
      field.stored c = (some text, .manual))
      (fun w e' w' hw hC hs' => ⟨hw.1.of_step hs', hw.1.stored_of_step hC.1 hs' hC.2 hw.2⟩)
      ⟨hu.of_step hstep, hstored⟩ hboth hrun').2
  · rintro before e after u u' id c rfl hrun hstep hc
    exact (hinv.of_run hrun).raises_of_step (hcond.append.2 u hrun).1 hstep hc

/-! ### A finalisation after a manual edit -/

/-- The runtime on the first of January 2026, with a model that summarises. -/
def summarizing : Outside := .sample (.sample 1767268800000000 [])
  (fun _ _ => .ok ⟨"r", "", .obj [("title", .str "O Praze"), ("summary", .str "Plánování cesty.")],
    none, none⟩)
  (fun _ => .error .null)

/-- The sample conversation with a model for summaries, before any transaction. -/
def conversationState (messages : Table ConversationMessage.id) : State Uuid Db Stage where
  store := { Db.sample messages with
    applicationSettings := .singleton
      { id := 6, area := "models", key := "summary_model"
        value := .obj [("value", .str "00000000-0000-0000-0000-000000000004")] } }
  owner _ := none
  txn _ := none

/-- The user enters a title on the given version. -/
def rename (expectedVersion : { n : ℤ // 1 ≤ n }) : Stage := .update
  { accountId := 1
    conversationId := 2
    request := { expectedVersion := expectedVersion, title := some ⟨"Moje cesta", by decide⟩ }
    context := { actorType := "user", actorId := some 1 }
    began := .utc 1767268800000000
    tick := 10 }

def finalize : Stage := .finalize ⟨2, .utc 1767268800000000, 20⟩

/-- No update is about to commit. -/
def editless (s : State Uuid Db Stage) : Event Stage → Bool
  | .exec i => (s.txn i).all fun t => match t with
    | .edit _ _ => false
    | _ => true
  | _ => true

/-- The edit that a transaction is about to commit. -/
def editIn (u : State Uuid Db Stage) (i : ℕ) : Option (MetadataRequest × Conversation) :=
  match u.txn i with
  | some (.edit d row) => some (d, row)
  | _ => none

theorem editIn_eq_some {u : State Uuid Db Stage} {i : ℕ} {d : MetadataRequest} {row : Conversation}
    (h : editIn u i = some (d, row)) : u.txn i = some (.edit d row) := by
  unfold editIn at h
  split at h
  · next d' row' hedit =>
    obtain ⟨rfl, rfl⟩ := Prod.mk.inj (Option.some.inj h)
    exact hedit
  · simp at h

/-- A manual title can be overwritten: the conversation is renamed before the job runs. -/
theorem manual_title_lost : ¬∀ (out : Outside) (s : State Uuid Db Stage) (events : List (Event Stage)),
    s.Quiet → ManualWins out s events := by
  intro h
  have hrun : ((Runs.run (step summarizing) (conversationState .empty)
      [.start 1 (rename ⟨1, by decide⟩), .exec 1]).any fun u => (editIn u 1).any fun edit =>
        (step summarizing u (.exec 1)).any fun u' =>
          decide (edit.2.id = 2 ∧ Field.title.entered edit.1.request = some "Moje cesta" ∧
            u'.store.conversations.find? 2 ≠ u.store.conversations.find? 2) &&
          Runs.alongB (step summarizing) editless u' (whole 2 finalize 2) &&
          (Runs.run (step summarizing) u' (whole 2 finalize 2)).any fun v =>
            decide ((v.store.conversations.find? 2).map Conversation.title =
              some (some "Prázdný rozhovor"))) = true := by
    decide +kernel
  obtain ⟨u, hu, hedits⟩ := (Option.any_eq_true _ _).mp hrun
  obtain ⟨⟨d, row⟩, hd, hstep⟩ := (Option.any_eq_true _ _).mp hedits
  obtain ⟨u', hu', hcheck⟩ := (Option.any_eq_true _ _).mp hstep
  have ht := editIn_eq_some hd
  rw [Bool.and_eq_true, Bool.and_eq_true] at hcheck
  obtain ⟨⟨hedit, halong⟩, hlast⟩ := hcheck
  obtain ⟨hid, hentered, hchanged⟩ := of_decide_eq_true hedit
  obtain ⟨v, hv, hlast⟩ := (Option.any_eq_true _ _).mp hlast
  have hwins := h summarizing (conversationState .empty)
    ([.start 1 (rename ⟨1, by decide⟩), .exec 1] ++ .exec 1 :: whole 2 finalize 2) fun _ => rfl
  obtain ⟨c, hc, hstored⟩ := hwins.stays _ _ (whole 2 finalize 2) [] u u' v 2 d.request .title
    "Moje cesta" (by rw [List.append_nil]) hu hu' ⟨1, d, row, u', rfl, ht, rfl, hid, hu', hchanged⟩
    hentered hv (Runs.Along.of_alongB (c := editless) (fun w e hw request hedits => by
      obtain ⟨i, d, row, -, rfl, ht, -⟩ := hedits
      simp [editless, ht] at hw) halong)
  rw [hc] at hlast
  have htitle : c.title = some "Moje cesta" := (Prod.mk.inj hstored).1
  simp [htitle] at hlast

/-- A conversation is renamed after the model has summarised it. -/
theorem manual_wins_renamed : ∃ t, Runs.run (step summarizing)
      (conversationState (.singleton (.sample "Pojedeme do Prahy.")))
      (whole 2 finalize 6 ++ whole 1 (rename ⟨2, by decide⟩) 1) = some t ∧
    t.store.conversations.rows.map (fun c => (c.title, c.summary, c.titleSource)) =
      [(some "Moje cesta", some "Plánování cesty.", .manual)] ∧
    ManualWins summarizing (conversationState (.singleton (.sample "Pojedeme do Prahy.")))
      (whole 2 finalize 6 ++ whole 1 (rename ⟨2, by decide⟩) 1) := by
  have hrun : (match Runs.run (step summarizing)
        (conversationState (.singleton (.sample "Pojedeme do Prahy.")))
        (whole 2 finalize 6 ++ whole 1 (rename ⟨2, by decide⟩) 1) with
      | some t => decide (t.store.conversations.rows.map
          (fun c => (c.title, c.summary, c.titleSource)) =
            [(some "Moje cesta", some "Plánování cesty.", .manual)])
      | none => false) = true := by
    decide +kernel
  rcases ht : Runs.run (step summarizing)
      (conversationState (.singleton (.sample "Pojedeme do Prahy.")))
      (whole 2 finalize 6 ++ whole 1 (rename ⟨2, by decide⟩) 1) with _ | t <;> simp only [ht] at hrun
  · simp at hrun
  refine ⟨t, rfl, of_decide_eq_true hrun, manual_wins (fun _ => rfl) ?_⟩
  refine Runs.Along.of_alongB (c := fun s e => match e with
    | .exec i => (s.txn i).all fun t => match t with
      | .write _ row f => decide ¬Overwrites row f
      | _ => true
    | _ => true) ?_ (by decide +kernel)
  rintro s e he ⟨i, j, row, f, rfl, ht, hoverwrites⟩
  simp [ht, hoverwrites] at he

end Finalizations

end KajovoDagmar
