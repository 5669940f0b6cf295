import KajovoDagmar.Db.Models
import KajovoDagmar.Library.Transaction
import KajovoDagmar.Providers.Contracts

/-! # Database sessions

A `Session` is what one unit of work sees: the rows as it has read and changed them, the
time at which its transaction began, the number of times it has asked for the clock or for
randomness, and the provider calls made and what was done to files so far, which no rollback
takes back.

A flush is folded into the change it writes: an added row that violates a constraint raises
where it is added, and not at the next flush.  Either way the exception is not a
`DomainError`, so it is never durable and the session ends in a rollback. -/

namespace KajovoDagmar

/-- The functions that the program takes from its runtime: the clock, randomness, Unicode and
hash functions, the text forms of the standard types, and the values and rows that the
database driver accepts. -/
structure Runtime where
  /-- `datetime.now(UTC)` at each reading. -/
  clock : ℕ → ℤ
  uuid4 : ℕ → Uuid
  /-- `unicodedata.normalize("NFC", s)`. -/
  nfc : String → String
  casefold : String → String
  /-- `hashlib.sha256(s.encode()).hexdigest()`. -/
  sha256 : String → String
  strUuid : Uuid → String
  /-- `UUID(s)`, or `none` for a `ValueError`. -/
  parseUuid : String → Option Uuid
  isoformat : DateTime → String
  /-- The text that pydantic's JSON serialisation gives a `datetime`. -/
  dumpDatetime : DateTime → String
  /-- `int(x)`, or the class of the exception it raises. -/
  pyInt : Json → Except String ℤ
  /-- `str(x)` of a list or a dictionary. -/
  pyRepr : Json → String
  /-- `f == n` of a float, given by its `repr`, and an integer. -/
  floatEqInt : String → ℤ → Bool
  /-- The validation of a `datetime`, a `UUID` and a `bool` field by pydantic. -/
  validateDatetime : Json → Option DateTime
  validateUuid : Json → Option Uuid
  validateBool : Json → Option Bool
  /-- The UTC offset that the server's time zone gives to a naive wall clock reading. -/
  localOffset : ℤ → ℤ
  /-- `lower(text)`, `text LIKE pattern` and `text ILIKE pattern` of the database. -/
  lower : String → String
  like : String → String → Bool
  ilike : String → String → Bool
  /-- Which of the rows that it selects a query with `LIMIT 1` and without an order gives, the memory items being
  as they are. -/
  limitOne : List MemoryItem → ℕ
  /-- Why the driver refuses to insert a row for a reason other than a unique constraint: an
  over-long or unrepresentable value, a reference to a missing row. -/
  rejectsInsert : Db → Row → Option String
  /-- Why the driver refuses to update a row: an over-long or unrepresentable value. -/
  rejectsUpdate : Row → Option String

/-- What is done to the files of the server. -/
inductive FileOp where
  | write (path text : String)
  | replace (source target : String)
  | unlink (path : String)

structure Session where
  db : Db
  began : DateTime
  tick : ℕ := 0
  chats : List ChatCall := []
  files : List FileOp := []

/-- Work in a session. -/
abbrev Work := Tx Exc Session

namespace Session

/-- The session after its changes have been abandoned. -/
def rollback (s s' : Session) : Session := { s' with db := s.db }

end Session

/-- `Database.session`: commit on success and on a durable exception, otherwise roll back. -/
def Database.session {α : Type} (m : Work α) : Work α := Tx.session Exc.Durable Session.rollback m

/-! ### Tables as relations of the database -/

/-- A table of the database with the unique constraints that an insertion checks: `clash r x`
names the constraint that the new row `r` violates together with the row `x`. -/
structure Relation {R : Type} (key : R → ℕ) where
  get : Db → Table key
  set : Table key → Db → Db
  row : R → Row
  pkey : String
  clash : R → R → Option String := fun _ _ => none

namespace Relation

variable {R : Type} {key : R → ℕ} (rt : Runtime) (rel : Relation key)

/-- The table after the insertion of `r`, or the violated constraint. -/
def insertRow (t : Table key) (r : R) : Except Exc (Table key) :=
  match t.rows.findSome? (rel.clash r) with
  | some c => .error (.integrity c)
  | none =>
    match t.insert? r with
    | some t' => .ok t'
    | none => .error (.integrity rel.pkey)

/-- `session.add(r)`. -/
def add (r : R) : Work PUnit := fun s =>
  match rt.rejectsInsert s.db (rel.row r) with
  | some c => (.error (.other c), s)
  | none =>
    match rel.insertRow (rel.get s.db) r with
    | .ok t => (.ok ⟨⟩, { s with db := rel.set t s.db })
    | .error e => (.error e, s)

/-- The changed columns of a loaded row, written back. -/
def save (r : R) : Work PUnit := fun s =>
  match rt.rejectsUpdate (rel.row r) with
  | some c => (.error (.other c), s)
  | none => (.ok ⟨⟩, { s with db := rel.set ((rel.get s.db).put r) s.db })

/-- `session.get(R, k)`. -/
def find (k : ℕ) : Work (Option R) := Tx.gets fun s => (rel.get s.db).find? k

/-- `session.scalars(select(R).where(p))`. -/
def select (p : R → Bool) : Work (List R) := Tx.gets fun s => (rel.get s.db).select p

end Relation

namespace Db

def conversation : Relation Conversation.id where
  get := conversations
  set t db := { db with conversations := t }
  row := .conversation
  pkey := "conversation_pkey"

def conversationMessage : Relation ConversationMessage.id where
  get := conversationMessages
  set t db := { db with conversationMessages := t }
  row := .conversationMessage
  pkey := "conversation_message_pkey"
  clash r x :=
    if x.conversationId = r.conversationId ∧ x.sequence = r.sequence then
      some "uq_conversation_message_conversation_sequence"
    else if x.conversationId = r.conversationId ∧ x.idempotencyKey = r.idempotencyKey then
      some "uq_conversation_message_conversation_idempotency"
    else none

def orchestrationRun : Relation OrchestrationRun.id where
  get := orchestrationRuns
  set t db := { db with orchestrationRuns := t }
  row := .orchestrationRun
  pkey := "orchestration_run_pkey"
  clash r x :=
    if x.sourceMessageId = r.sourceMessageId then some "orchestration_run_source_message_id_key"
    else none

def orchestrationAttempt : Relation OrchestrationAttempt.id where
  get := orchestrationAttempts
  set t db := { db with orchestrationAttempts := t }
  row := .orchestrationAttempt
  pkey := "orchestration_attempt_pkey"
  clash r x :=
    if x.runId = r.runId ∧ x.attemptNumber = r.attemptNumber then
      some "orchestration_attempt_run_id_attempt_number_key"
    else none

def toolAction : Relation ToolAction.id where
  get := toolActions
  set t db := { db with toolActions := t }
  row := .toolAction
  pkey := "tool_action_pkey"
  clash r x :=
    if x.idempotencyKey = r.idempotencyKey then some "tool_action_idempotency_key_key" else none

def messageRevision : Relation MessageRevision.id where
  get := messageRevisions
  set t db := { db with messageRevisions := t }
  row := .messageRevision
  pkey := "message_revision_pkey"
  clash r x :=
    if x.messageId = r.messageId ∧ x.revisionNumber = r.revisionNumber then
      some "message_revision_message_id_revision_number_key"
    else none

def conversationLink : Relation ConversationLink.id where
  get := conversationLinks
  set t db := { db with conversationLinks := t }
  row := .conversationLink
  pkey := "conversation_link_pkey"
  clash r x :=
    if x.sourceId = r.sourceId ∧ x.targetId = r.targetId ∧ x.relation = r.relation then
      some "conversation_link_source_id_target_id_relation_key"
    else none

def conversationSummary : Relation ConversationSummary.id where
  get := conversationSummaries
  set t db := { db with conversationSummaries := t }
  row := .conversationSummary
  pkey := "conversation_summary_pkey"
  clash r x :=
    if x.conversationId = r.conversationId ∧ x.revisionNumber = r.revisionNumber then
      some "conversation_summary_conversation_id_revision_number_key"
    else none

def memoryItem : Relation MemoryItem.id where
  get := memoryItems
  set t db := { db with memoryItems := t }
  row := .memoryItem
  pkey := "memory_item_pkey"

def memoryVersion : Relation MemoryVersion.id where
  get := memoryVersions
  set t db := { db with memoryVersions := t }
  row := .memoryVersion
  pkey := "memory_version_pkey"
  clash r x :=
    if x.memoryId = r.memoryId ∧ x.versionNumber = r.versionNumber then
      some "memory_version_memory_id_version_number_key"
    else none

def memorySource : Relation MemorySource.id where
  get := memorySources
  set t db := { db with memorySources := t }
  row := .memorySource
  pkey := "memory_source_pkey"

def searchDocument : Relation SearchDocument.id where
  get := searchDocuments
  set t db := { db with searchDocuments := t }
  row := .searchDocument
  pkey := "search_document_pkey"
  clash r x :=
    if x.ownerType = r.ownerType ∧ x.ownerId = r.ownerId then
      some "search_document_owner_type_owner_id_key"
    else none

def searchEmbedding : Relation SearchEmbedding.id where
  get := searchEmbeddings
  set t db := { db with searchEmbeddings := t }
  row := .searchEmbedding
  pkey := "search_embedding_pkey"
  clash r x :=
    if x.documentId = r.documentId ∧ x.modelId = r.modelId then
      some "search_embedding_document_id_model_id_key"
    else none

def outboxEvent : Relation OutboxEvent.id where
  get := outboxEvents
  set t db := { db with outboxEvents := t }
  row := .outboxEvent
  pkey := "outbox_event_pkey"
  clash r x :=
    if x.aggregateType = r.aggregateType ∧ x.aggregateId = r.aggregateId ∧
        x.sequence = r.sequence then
      some "outbox_event_aggregate_type_aggregate_id_sequence_key"
    else none

def backgroundJob : Relation BackgroundJob.id where
  get := backgroundJobs
  set t db := { db with backgroundJobs := t }
  row := .backgroundJob
  pkey := "background_job_pkey"

def auditEvent : Relation AuditEvent.id where
  get := auditEvents
  set t db := { db with auditEvents := t }
  row := .auditEvent
  pkey := "audit_event_pkey"

def backupRecord : Relation BackupRecord.id where
  get := backupRecords
  set t db := { db with backupRecords := t }
  row := .backupRecord
  pkey := "backup_record_pkey"

def exportRecord : Relation ExportRecord.id where
  get := exportRecords
  set t db := { db with exportRecords := t }
  row := .exportRecord
  pkey := "export_record_pkey"

def applicationSetting : Relation ApplicationSetting.id where
  get := applicationSettings
  set t db := { db with applicationSettings := t }
  row := .applicationSetting
  pkey := "application_setting_pkey"
  clash r x :=
    if x.area = r.area ∧ x.key = r.key then some "application_setting_area_key_key" else none

def applicationSettingRevision : Relation ApplicationSettingRevision.id where
  get := applicationSettingRevisions
  set t db := { db with applicationSettingRevisions := t }
  row := .applicationSettingRevision
  pkey := "application_setting_revision_pkey"
  clash r x :=
    if x.settingId = r.settingId ∧ x.revisionNumber = r.revisionNumber then
      some "application_setting_revision_setting_id_revision_number_key"
    else none

def modelCatalogEntry : Relation ModelCatalogEntry.id where
  get := modelCatalogEntries
  set t db := { db with modelCatalogEntries := t }
  row := .modelCatalogEntry
  pkey := "model_catalog_entry_pkey"
  clash r x :=
    if x.providerId = r.providerId ∧ x.externalId = r.externalId ∧ x.role = r.role then
      some "model_catalog_entry_provider_id_external_id_role_key"
    else none

def providerConfiguration : Relation ProviderConfiguration.id where
  get := providerConfigurations
  set t db := { db with providerConfigurations := t }
  row := .providerConfiguration
  pkey := "provider_configuration_pkey"
  clash r x :=
    if x.providerType = r.providerType ∧ x.displayName = r.displayName then
      some "provider_configuration_provider_type_display_name_key"
    else none

def encryptedSecret : Relation EncryptedSecret.id where
  get := encryptedSecrets
  set t db := { db with encryptedSecrets := t }
  row := .encryptedSecret
  pkey := "encrypted_secret_pkey"

def voiceServiceApiKey : Relation VoiceServiceApiKey.id where
  get := voiceServiceApiKeys
  set t db := { db with voiceServiceApiKeys := t }
  row := .voiceServiceApiKey
  pkey := "voice_service_api_key_pkey"
  clash r x :=
    if x.keyPrefix = r.keyPrefix then some "voice_service_api_key_key_prefix_key"
    else if x.secretDigest = r.secretDigest then some "voice_service_api_key_secret_digest_key"
    else none

def serviceAccessNotice : Relation ServiceAccessNotice.id where
  get := serviceAccessNotices
  set t db := { db with serviceAccessNotices := t }
  row := .serviceAccessNotice
  pkey := "service_access_notice_pkey"

/-- `_setting`: the stored value of a setting, or the fallback. -/
def setting? (db : Db) (area key : String) : Option ApplicationSetting :=
  (db.applicationSettings.select fun r => r.area = area ∧ r.key = key).head?

end Db

/-! ### The clock and randomness -/

section environment

variable (rt : Runtime)

def utcNow : Work DateTime :=
  Tx.modifyGet fun s => (DateTime.utc (rt.clock s.tick), { s with tick := s.tick + 1 })

def newUuid : Work Uuid := Tx.modifyGet fun s => (rt.uuid4 s.tick, { s with tick := s.tick + 1 })

end environment

/-! ### What the primitives keep and raise -/

/-- Two sessions with the same rows as far as `view` shows them. -/
def Same {γ : Type} (view : Db → γ) (s s' : Session) : Prop := view s'.db = view s.db

namespace Same

variable {γ : Type} {view : Db → γ}

instance : Std.Refl (Same view) := ⟨fun _ => rfl⟩

instance : IsTrans Session (Same view) := ⟨fun _ _ _ h h' => h'.trans h⟩

theorem utcNow (rt : Runtime) : Tx.Keeps (Same view) (utcNow rt) := fun _ => rfl

theorem newUuid (rt : Runtime) : Tx.Keeps (Same view) (newUuid rt) := fun _ => rfl

end Same

/-- No domain error is raised. -/
abbrev NoDomain {α : Type} (m : Work α) : Prop := Tx.RaisesOnly (fun e => ¬e.IsDomain) m

/-- No exception raised makes its session commit. -/
abbrev NotDurable {α : Type} (m : Work α) : Prop := Tx.RaisesOnly (fun e => ¬e.Durable) m

theorem NoDomain.notDurable {α : Type} {m : Work α} (h : NoDomain m) : NotDurable m :=
  fun s e he hd => h s e he hd.isDomain

theorem utcNow_noDomain (rt : Runtime) : NoDomain (utcNow rt) := Tx.RaisesOnly.modifyGet _

theorem newUuid_noDomain (rt : Runtime) : NoDomain (newUuid rt) := Tx.RaisesOnly.modifyGet _

theorem orRaise_noDomain {α : Type} (o : Option α) (code : String) :
    NoDomain (Tx.orRaise o (.other code)) :=
  Tx.RaisesOnly.orRaise (Exc.not_isDomain_other code)

namespace Relation

variable {R : Type} {key : R → ℕ} {rt : Runtime} {rel : Relation key}

theorem insertRow_eq_ok {t t' : Table key} {r : R} (h : rel.insertRow t r = .ok t') :
    t.insert? r = some t' ∧ ∀ x ∈ t, rel.clash r x = none := by
  unfold insertRow at h
  split at h
  · simp at h
  · next hc =>
    refine ⟨?_, fun x hx => List.findSome?_eq_none_iff.mp hc x hx⟩
    split at h
    · next hi =>
      obtain rfl : _ = t' := by simpa using h
      exact hi
    · simp at h

theorem insertRow_error {t : Table key} {r : R} {e : Exc} (h : rel.insertRow t r = .error e) :
    ¬e.IsDomain := by
  unfold insertRow at h
  split at h
  · obtain rfl : _ = e := by simpa using h
    exact id
  · split at h
    · simp at h
    · obtain rfl : _ = e := by simpa using h
      exact id

theorem add_eq_ok {r : R} {s s' : Session} {u : PUnit} (h : rel.add rt r s = (.ok u, s')) :
    ∃ t, rel.insertRow (rel.get s.db) r = .ok t ∧ s' = { s with db := rel.set t s.db } := by
  unfold add at h
  split at h
  · simp at h
  · split at h
    · next t ht => exact ⟨t, ht, (Prod.mk.inj h).2.symm⟩
    · simp at h

/-- A row that the driver accepts and that violates no constraint is inserted. -/
theorem add_of_accepted {r : R} {s : Session} {t : Table key} (haccepted : rt.rejectsInsert s.db (rel.row r) = none)
    (hclash : ∀ x ∈ rel.get s.db, rel.clash r x = none) (hinsert : (rel.get s.db).insert? r = some t) :
    rel.add rt r s = (.ok ⟨⟩, { s with db := rel.set t s.db }) := by
  have hrow : rel.insertRow (rel.get s.db) r = .ok t := by
    unfold insertRow
    rw [List.findSome?_eq_none_iff.mpr fun x hx => hclash x hx, hinsert]
  unfold add
  rw [haccepted, hrow]

theorem add_error {r : R} {s s' : Session} {e : Exc} (h : rel.add rt r s = (.error e, s')) :
    s' = s ∧ ¬e.IsDomain := by
  unfold add at h
  split at h
  · obtain ⟨h₁, rfl⟩ := Prod.mk.inj h
    obtain rfl : _ = e := by simpa using h₁
    exact ⟨rfl, id⟩
  · split at h
    · simp at h
    · next e' he =>
      obtain ⟨h₁, rfl⟩ := Prod.mk.inj h
      obtain rfl : e' = e := by simpa using h₁
      exact ⟨rfl, insertRow_error he⟩

theorem save_of_accepted {r : R} {s : Session} (h : rt.rejectsUpdate (rel.row r) = none) :
    rel.save rt r s = (.ok ⟨⟩, { s with db := rel.set ((rel.get s.db).put r) s.db }) := by
  unfold save
  rw [h]

theorem save_of_rejected {r : R} {s : Session} {c : String}
    (h : rt.rejectsUpdate (rel.row r) = some c) : rel.save rt r s = (.error (.other c), s) := by
  unfold save
  rw [h]

theorem save_eq_ok {r : R} {s s' : Session} {u : PUnit} (h : rel.save rt r s = (.ok u, s')) :
    s' = { s with db := rel.set ((rel.get s.db).put r) s.db } := by
  cases hr : rt.rejectsUpdate (rel.row r) with
  | none =>
      rw [save_of_accepted hr] at h
      exact (Prod.mk.inj h).2.symm
  | some c =>
      rw [save_of_rejected hr] at h
      simp at h

theorem save_error {r : R} {s s' : Session} {e : Exc} (h : rel.save rt r s = (.error e, s')) :
    s' = s ∧ ∃ c, e = .other c := by
  cases hr : rt.rejectsUpdate (rel.row r) with
  | none =>
      rw [save_of_accepted hr] at h
      simp at h
  | some c =>
      rw [save_of_rejected hr] at h
      obtain ⟨he, rfl⟩ := Prod.mk.inj h
      exact ⟨rfl, c, (Except.error.inj he).symm⟩

/-- A row that is loaded, changed and written back is the one that was stored. -/
theorem update_ok {k : ℕ} {e : Exc} {f g : R → R} {a : R} {s s' : Session}
    (h : (do
      let row ← rel.find k
      let x ← Tx.orRaise row e
      rel.save rt (g x)
      pure (f x) : Work R) s = (.ok a, s')) :
    ∃ x, (rel.get s.db).find? k = some x ∧ a = f x ∧
      s' = { s with db := rel.set ((rel.get s.db).put (g x)) s.db } := by
  rw [find, Tx.gets_bind_apply] at h
  cases hf : (rel.get s.db).find? k with
  | none => simp [hf, Tx.bind_apply] at h
  | some x =>
      rw [hf, Tx.orRaise_some, Tx.pure_bind] at h
      refine ⟨x, rfl, ?_⟩
      obtain ⟨u, s₁, hs, hp⟩ := Tx.bind_eq_ok h
      obtain ⟨h₁, rfl⟩ := Prod.mk.inj hp
      exact ⟨(Except.ok.inj h₁).symm, save_eq_ok hs⟩

/-- An update that fails has written nothing. -/
theorem update_error {k : ℕ} {e e' : Exc} {f g : R → R} {s s' : Session}
    (h : (do
      let row ← rel.find k
      let x ← Tx.orRaise row e
      rel.save rt (g x)
      pure (f x) : Work R) s = (.error e', s')) : s' = s ∧ (e' = e ∨ ∃ c, e' = .other c) := by
  rw [find, Tx.gets_bind_apply] at h
  cases hf : (rel.get s.db).find? k with
  | none =>
      rw [hf, Tx.orRaise_none, Tx.raise_bind] at h
      obtain ⟨he, rfl⟩ := Prod.mk.inj h
      exact ⟨rfl, .inl (Except.error.inj he).symm⟩
  | some x =>
      rw [hf, Tx.orRaise_some, Tx.pure_bind] at h
      rcases Tx.bind_eq_error h with hs | ⟨u, s₁, -, hp⟩
      · exact ⟨(save_error hs).1, .inr (save_error hs).2⟩
      · simp at hp

theorem add_noDomain (r : R) : NoDomain (rel.add rt r) := by
  intro s e h
  rcases hs : rel.add rt r s with ⟨e' | u, s'⟩
  · obtain rfl : e' = e := by simpa [hs] using h
    exact (add_error hs).2
  · simp [hs] at h

theorem save_noDomain (r : R) : NoDomain (rel.save rt r) := by
  intro s e h
  cases hr : rt.rejectsUpdate (rel.row r) with
  | none => simp [save_of_accepted hr] at h
  | some c =>
      rw [save_of_rejected hr] at h
      obtain rfl : _ = e := by simpa using h
      exact id

/-- An insertion is invisible to a view in which the inserted row does not show up. -/
theorem insert_keeps {γ : Type} {view : Db → γ} {r : R}
    (hv : ∀ t db, rel.insertRow (rel.get db) r = .ok t → view (rel.set t db) = view db) :
    Tx.Keeps (Same view) (rel.add rt r) := by
  intro s
  rcases hs : rel.add rt r s with ⟨e | u, s'⟩
  · exact congrArg (fun x => view x.db) (add_error hs).1
  · obtain ⟨t, ht, rfl⟩ := add_eq_ok hs
    exact hv t s.db ht

/-- An insertion is invisible to a view that the table does not show up in. -/
theorem add_keeps {γ : Type} {view : Db → γ} (hv : ∀ t db, view (rel.set t db) = view db) (r : R) :
    Tx.Keeps (Same view) (rel.add rt r) :=
  insert_keeps fun t db _ => hv t db

/-- An update is invisible to a view that the replaced row does not show up in. -/
theorem save_keeps {γ : Type} {view : Db → γ} {r : R}
    (hv : ∀ db, view (rel.set ((rel.get db).put r) db) = view db) :
    Tx.Keeps (Same view) (rel.save rt r) := by
  intro s
  cases hr : rt.rejectsUpdate (rel.row r) with
  | none => rw [save_of_accepted hr]; exact hv s.db
  | some c => rw [save_of_rejected hr]; rfl

theorem find_keeps {γ : Type} {view : Db → γ} (k : ℕ) : Tx.Keeps (Same view) (rel.find k) :=
  Tx.Keeps.gets _

theorem select_keeps {γ : Type} {view : Db → γ} (p : R → Bool) :
    Tx.Keeps (Same view) (rel.select p) :=
  Tx.Keeps.gets _

/-- An insertion is refused by the driver, for its primary key or by a unique constraint. -/
theorem add_error_cases {r : R} {s s' : Session} {e : Exc} (h : rel.add rt r s = (.error e, s')) :
    (∃ c, e = .other c) ∨ e = .integrity rel.pkey ∨
      ∃ x ∈ rel.get s.db, ∃ c, rel.clash r x = some c ∧ e = .integrity c := by
  unfold add at h
  split at h
  · next c _ => exact .inl ⟨c, (Except.error.inj (Prod.mk.inj h).1).symm⟩
  · split at h
    · simp at h
    · next e' he =>
      obtain rfl := Except.error.inj (Prod.mk.inj h).1
      right
      unfold insertRow at he
      split at he
      · next c hc =>
        obtain ⟨x, hx, hclash⟩ := List.exists_of_findSome?_eq_some hc
        exact .inr ⟨x, hx, c, hclash, (Except.error.inj he).symm⟩
      · split at he
        · simp at he
        · exact .inl (Except.error.inj he).symm

theorem add_leads {P : Session → Prop} {Q : PUnit → Session → Prop} {E : Exc → Session → Prop} {r : R}
    (hok : ∀ s t, P s → rel.insertRow (rel.get s.db) r = .ok t → Q ⟨⟩ { s with db := rel.set t s.db })
    (hother : ∀ s c, P s → E (.other c) s) (hpkey : ∀ s, P s → E (.integrity rel.pkey) s)
    (hclash : ∀ s, P s → ∀ x ∈ rel.get s.db, ∀ c, rel.clash r x = some c → E (.integrity c) s) :
    Tx.Leads P Q E (rel.add rt r) := by
  intro s hP
  constructor
  · intro u s' hs
    obtain ⟨t, ht, rfl⟩ := add_eq_ok hs
    exact hok s t hP ht
  · intro e s' hs
    obtain rfl := (add_error hs).1
    rcases add_error_cases hs with ⟨c, rfl⟩ | rfl | ⟨x, hx, c, hc, rfl⟩
    · exact hother s' c hP
    · exact hpkey s' hP
    · exact hclash s' hP x hx c hc

theorem add_guards {P : Session → Prop} {F : Exc → Prop} {r : R}
    (hok : ∀ s t, P s → rel.insertRow (rel.get s.db) r = .ok t → P { s with db := rel.set t s.db })
    (hother : ∀ c, F (.other c)) (hpkey : F (.integrity rel.pkey))
    (hclash : ∀ s, P s → ∀ x ∈ rel.get s.db, ∀ c, rel.clash r x = some c → F (.integrity c)) :
    Tx.Guards P F (rel.add rt r) :=
  (add_leads hok (fun _ c hP => ⟨hP, hother c⟩) (fun _ hP => ⟨hP, hpkey⟩)
    fun s hP x hx c hc => ⟨hP, hclash s hP x hx c hc⟩).guards

theorem save_guards {P : Session → Prop} {F : Exc → Prop} {r : R}
    (hok : ∀ s, P s → P { s with db := rel.set ((rel.get s.db).put r) s.db })
    (hother : ∀ c, F (.other c)) : Tx.Guards P F (rel.save rt r) := by
  refine Tx.Leads.guards ?_
  intro s hP
  constructor
  · intro u s' hs
    obtain rfl := save_eq_ok hs
    exact hok s hP
  · intro e s' hs
    obtain ⟨rfl, c, rfl⟩ := save_error hs
    exact ⟨hP, hother c⟩

theorem add_yields {P : Session → Prop} {Q : PUnit → Session → Prop} {r : R}
    (h : ∀ s t, P s → (rel.get s.db).insert? r = some t → (∀ x ∈ rel.get s.db, rel.clash r x = none) →
      Q ⟨⟩ { s with db := rel.set t s.db }) : Tx.Yields P Q (rel.add rt r) := by
  intro s hP u s' hs
  obtain ⟨t, ht, rfl⟩ := add_eq_ok hs
  obtain ⟨hinsert, hclash⟩ := insertRow_eq_ok ht
  exact h s t hP hinsert hclash

theorem save_yields {P : Session → Prop} {Q : PUnit → Session → Prop} {r : R}
    (h : ∀ s, P s → Q ⟨⟩ { s with db := rel.set ((rel.get s.db).put r) s.db }) :
    Tx.Yields P Q (rel.save rt r) := by
  intro s hP u s' hs
  obtain rfl := save_eq_ok hs
  exact h s hP

end Relation

/-! ### The end of a session -/

namespace Database

variable {α : Type} {m : Work α} {s s' : Session}

theorem session_of_ok {a : α} (h : m s = (.ok a, s')) : session m s = (.ok a, s') :=
  Tx.session_of_ok h

theorem session_of_durable {e : Exc} (h : m s = (.error e, s')) (hd : e.Durable) :
    session m s = (.error e, s') :=
  Tx.session_of_durable h hd

theorem session_of_rollback {e : Exc} (h : m s = (.error e, s')) (hd : ¬e.Durable) :
    session m s = (.error e, s.rollback s') :=
  Tx.session_of_rollback h hd

/-- A session that returns has run its work to the end. -/
theorem session_eq_ok {a : α} (h : session m s = (.ok a, s')) : m s = (.ok a, s') := by
  unfold session Tx.session at h
  split at h
  · next a' s₁ hm =>
    obtain ⟨ha, rfl⟩ := Prod.mk.inj h
    obtain rfl : a' = a := by simpa using ha
    exact hm
  · simp at h

/-- A session whose exceptions are not durable either commits a value or leaves the rows as they
were. -/
theorem session_cases (hm : NotDurable m) {r : Except Exc α} (h : session m s = (r, s')) :
    (∃ a, r = .ok a ∧ m s = (.ok a, s')) ∨ s'.db = s.db := by
  rcases hs : m s with ⟨e | a, s₁⟩
  · rw [session_of_rollback hs (hm s e (congrArg Prod.fst hs))] at h
    obtain ⟨-, rfl⟩ := Prod.mk.inj h
    exact .inr rfl
  · rw [session_of_ok hs] at h
    obtain ⟨rfl, rfl⟩ := Prod.mk.inj h
    exact .inl ⟨a, rfl, rfl⟩

/-- A session that raises has either committed what was written or rolled it back. -/
theorem session_eq_error {e : Exc} (h : session m s = (.error e, s')) :
    ∃ s₁, m s = (.error e, s₁) ∧ s' = if e.Durable then s₁ else s.rollback s₁ := by
  unfold session Tx.session at h
  split at h
  · simp at h
  · next e' s₁ hm =>
    obtain ⟨he, rfl⟩ := Prod.mk.inj h
    obtain rfl : e' = e := by simpa using he
    exact ⟨s₁, hm, rfl⟩

end Database

end KajovoDagmar
