import KajovoDagmar.Audit.Transactions
import KajovoDagmar.Settings.Invalidation
import KajovoDagmar.Settings.Ledger

/-! # Restoring a setting and setting it again

`restore_revision` and `update_area` with the value of the revision make the same checks, but for one:
`restore_revision` asks for a selected model even if none is selected.  So the two agree unless a revision
is restored in which no model was selected (`restore_agrees_iff`). -/

namespace KajovoDagmar.SettingsService

open SettingsCatalog

/-! ### The two calls -/

/-- A revision that is restored, and the request of `update_area` with its value. -/
structure Reset where
  area : String
  key : String
  revisionNumber : ℤ
  expectedVersion : ℤ
  request : Json
  accountId : Uuid
  context : AuditContext

namespace Reset

variable (rt : Runtime) (deps : SettingsDeps) (r : Reset)

def restore : Work ApplicationSetting :=
  restoreRevision rt deps r.area r.key r.revisionNumber r.expectedVersion r.accountId r.context

def update : Work Json := updateArea rt deps r.area [(r.key, r.request)] r.accountId r.context

/-- The revision is one of the setting, and the request has its value and the expected version. -/
structure Of (db : Db) (row : ApplicationSetting) (revision : ApplicationSettingRevision) : Prop where
  setting : db.setting? r.area r.key = some row
  mem : revision ∈ db.applicationSettingRevisions
  owner : revision.settingId = row.id
  number : revision.revisionNumber = r.revisionNumber
  value : r.request.getD "value" .null = revision.value.getD "value" .null
  version : pyInt rt (r.request.getD "version" (.int 0)) = .ok r.expectedVersion

/-- A revision in which no model was selected is to replace the setting as it stands. -/
def Unselects (row : ApplicationSetting) (revision : ApplicationSettingRevision) : Prop :=
  (r.area = "models" ∧ (byKey r.area r.key).isSome = true ∧ deps.providers = true) ∧
    revision.value.getD "value" .null = .str "" ∧ row.version = r.expectedVersion

end Reset

/-! ### What they leave -/

/-- The value and the version of a setting, and the value of its last revision. -/
def settingAt (area key : String) (db : Db) : Option (Json × ℤ × Option Json) :=
  (db.setting? area key).map fun row =>
    (row.value, row.version, ((settingLedger db).recordsOf row.id).getLast?.map ApplicationSettingRevision.value)

/-- A job without its identifier, its time and the reason that it was enqueued for. -/
def unlabelled (job : BackgroundJob) : BackgroundJob :=
  { job with id := 0, availableAt := .utc 0, payload := .null }

/-- The same marks of the documents, and the same new jobs. -/
structure SameReindex (db db₁ db₂ : Db) : Prop where
  documents : db₁.searchDocuments = db₂.searchDocuments
  jobs : ∃ new₁ new₂, db₁.backgroundJobs.rows = db.backgroundJobs.rows ++ new₁ ∧
    db₂.backgroundJobs.rows = db.backgroundJobs.rows ++ new₂ ∧ new₁.map unlabelled = new₂.map unlabelled

/-- Both calls succeed or none, and then they leave the same. -/
structure Reset.Agree (rt : Runtime) (deps : SettingsDeps) (r : Reset) (s : Session) (row : ApplicationSetting)
    (revision : ApplicationSettingRevision) : Prop where
  succeeds : (Database.session (r.restore rt deps) s).1.isOk = (Database.session (r.update rt deps) s).1.isOk
  setting : ∀ row' s₁ outcome s₂, Database.session (r.restore rt deps) s = (.ok row', s₁) →
    Database.session (r.update rt deps) s = (.ok outcome, s₂) →
    settingAt r.area r.key s₁.db = settingAt r.area r.key s₂.db
  reindex : ∀ row' s₁ outcome s₂, Database.session (r.restore rt deps) s = (.ok row', s₁) →
    Database.session (r.update rt deps) s = (.ok outcome, s₂) →
    EmbeddingChanged r.area r.key (some row) (revision.value.getD "value" .null) → SameReindex s.db s₁.db s₂.db

/-! ### What is written can be stored -/

/-- The driver accepts what the two calls write. -/
structure Reset.Storable (rt : Runtime) (r : Reset) (row : ApplicationSetting) (value : Json) : Prop where
  setting : ∀ row' : ApplicationSetting, row'.id = row.id → row'.value = stored value →
    row'.changedBy = some r.accountId → rt.rejectsUpdate (.applicationSetting row') = none
  revision : ∀ (db : Db) (x : ApplicationSettingRevision), db.applicationSettings.find? row.id ≠ none →
    x.settingId = row.id → x.value = stored value → x.changedBy = some r.accountId →
    rt.rejectsInsert db (.applicationSettingRevision x) = none
  job : ∀ (db : Db) (job : BackgroundJob), job.kind = "search_reindex_all" →
    rt.rejectsInsert db (.backgroundJob job) = none
  audited : ∀ (db : Db) (e : AuditEvent), e.actorType = r.context.actorType →
    e.networkContext = r.context.networkContext → e.correlationId = r.context.correlationId →
    e.eventType ∈ ["settings.changed", "settings.restored", "memory.reindex_requested"] →
    rt.rejectsInsert db (.auditEvent e) = none

/-- The identifiers that are made from now on are new. -/
structure NewIds (rt : Runtime) (s : Session) : Prop where
  revisions : ∀ n, s.tick ≤ n → ∀ x ∈ s.db.applicationSettingRevisions, x.id ≠ rt.uuid4 n
  jobs : ∀ n, s.tick ≤ n → ∀ job ∈ s.db.backgroundJobs, job.id ≠ rt.uuid4 n

variable {rt : Runtime} {deps : SettingsDeps}

/-! ### Writing a setting -/

/-- The setting has been replaced and its revision has been added; the documents and the jobs are as they were. -/
structure Replaced (row' : ApplicationSetting) (db db' : Db) : Prop where
  settings : db'.applicationSettings = db.applicationSettings.put row'
  revisions : ∃ x, db'.applicationSettingRevisions.rows = db.applicationSettingRevisions.rows ++ [x] ∧
    x.settingId = row'.id ∧ x.value = row'.value
  documents : db'.searchDocuments = db.searchDocuments
  jobs : db'.backgroundJobs = db.backgroundJobs

theorem addRevision_of_accepted {row : ApplicationSetting} {value : Json} {effectBoundary kind : String}
    {accountId : Uuid} {s : Session}
    (haccepted : rt.rejectsInsert s.db
      (.applicationSettingRevision (revisionOf (rt.uuid4 s.tick) row value effectBoundary kind accountId)) = none)
    (hnew : ∀ x ∈ s.db.applicationSettingRevisions, x.id ≠ rt.uuid4 s.tick)
    (hfree : ∀ x ∈ s.db.applicationSettingRevisions, x.settingId = row.id → x.revisionNumber ≠ row.version) :
    ∃ t, t.rows = s.db.applicationSettingRevisions.rows ++
        [revisionOf (rt.uuid4 s.tick) row value effectBoundary kind accountId] ∧
      addRevision rt row value effectBoundary kind accountId s =
        (.ok ⟨⟩, { s with tick := s.tick + 1, db := { s.db with applicationSettingRevisions := t } }) := by
  have hid : (revisionOf (rt.uuid4 s.tick) row value effectBoundary kind accountId).id ∉
      s.db.applicationSettingRevisions.rows.map ApplicationSettingRevision.id := by
    intro hmem
    obtain ⟨x, hx, hsame⟩ := List.mem_map.mp hmem
    exact hnew x hx hsame
  refine ⟨s.db.applicationSettingRevisions.insert _ hid, rfl, ?_⟩
  have hmade : newUuid rt s = (.ok (rt.uuid4 s.tick), { s with tick := s.tick + 1 }) := rfl
  unfold addRevision
  rw [Tx.bind_of_ok hmade]
  refine Relation.add_of_accepted haccepted (fun x hx => if_neg ?_) (dif_neg hid)
  rintro ⟨howner, hnumber⟩
  exact hfree x hx howner hnumber

section accepted

variable {r : Reset} {row : ApplicationSetting} {value : Json} {s : Session}

/-- The next version of a setting and its revision are stored. -/
theorem replace_of_accepted (row' : ApplicationSetting) (effectBoundary kind : String)
    (hstorable : r.Storable rt row value)
    (hids : NewIds rt s) (hledger : (settingLedger s.db).Complete) (hmem : row ∈ s.db.applicationSettings)
    (hid : row'.id = row.id) (hvalue : row'.value = stored value) (hby : row'.changedBy = some r.accountId)
    (hversion : row'.version = row.version + 1) :
    ∃ s₁ s₂, Db.applicationSetting.save rt row' s = (.ok ⟨⟩, s₁) ∧
      addRevision rt row' value effectBoundary kind r.accountId s₁ = (.ok ⟨⟩, s₂) ∧
      Replaced row' s.db s₂.db ∧ s₂.tick = s.tick + 1 := by
  have hstands : (s.db.applicationSettings.put row').find? row.id ≠ none := by
    have hfind : s.db.applicationSettings.find? row'.id = some row := hid ▸ Table.find?_of_mem hmem
    rw [← hid, Table.find?_put_self hfind]
    exact Option.some_ne_none _
  have hfree : ∀ x ∈ s.db.applicationSettingRevisions, x.settingId = row'.id → x.revisionNumber ≠ row'.version := by
    intro x hx howner hnumber
    have hrecord : x ∈ (settingLedger s.db).recordsOf row.id :=
      List.mem_filter.mpr ⟨hx, decide_eq_true (howner.trans hid)⟩
    have hnumbers := hledger.numbers row hmem
    have hle : x.revisionNumber ∈ Ledger.upTo row.version := by
      have hmap := List.mem_map_of_mem (f := ApplicationSettingRevision.revisionNumber) hrecord
      exact hnumbers ▸ hmap
    have hbound := (Ledger.mem_upTo.mp hle).2
    omega
  let s₁ : Session := { s with db := { s.db with applicationSettings := s.db.applicationSettings.put row' } }
  obtain ⟨t, ht, hadd⟩ : ∃ t, t.rows = s₁.db.applicationSettingRevisions.rows ++
      [revisionOf (rt.uuid4 s₁.tick) row' value effectBoundary kind r.accountId] ∧
      addRevision rt row' value effectBoundary kind r.accountId s₁ =
        (.ok ⟨⟩, { s₁ with tick := s₁.tick + 1, db := { s₁.db with applicationSettingRevisions := t } }) :=
    addRevision_of_accepted (s := s₁) (hstorable.revision _ _ hstands hid rfl rfl) (hids.revisions s.tick le_rfl) hfree
  exact ⟨s₁, _, Relation.save_of_accepted (hstorable.setting row' hid hvalue hby), hadd,
    ⟨rfl, ⟨_, ht, rfl, hvalue.symm⟩, rfl, rfl⟩, rfl⟩

/-- The job that indexes every document, without its identifier, its time and its reason. -/
def reindexJob : BackgroundJob :=
  { id := 0, kind := "search_reindex_all", priority := 50, payload := .null, availableAt := .utc 0 }

/-- The documents have become stale, and their indexing is enqueued if the service has jobs. -/
structure Reindexed (deps : SettingsDeps) (db db' : Db) : Prop where
  settings : db'.applicationSettings = db.applicationSettings
  revisions : db'.applicationSettingRevisions = db.applicationSettingRevisions
  documents : db'.searchDocuments = db.searchDocuments.mapRows (fun d => { d with stale := true }) fun _ => rfl
  jobs : ∃ new, db'.backgroundJobs.rows = db.backgroundJobs.rows ++ new ∧
    new.map unlabelled = if deps.jobs then [reindexJob] else []

theorem enqueue_of_accepted (kind : String) (payload : Json) (priority : ℤ)
    (haccepted : ∀ job : BackgroundJob, job.kind = kind → rt.rejectsInsert s.db (.backgroundJob job) = none)
    (hnew : ∀ job ∈ s.db.backgroundJobs, job.id ≠ rt.uuid4 s.tick) :
    ∃ job t, job.kind = kind ∧ unlabelled job =
        { id := 0, kind := kind, priority := priority, payload := .null, availableAt := .utc 0 } ∧
      t.rows = s.db.backgroundJobs.rows ++ [job] ∧ JobService.enqueue rt kind payload priority 0 none none s =
        (.ok job, { s with tick := s.tick + 2, db := { s.db with backgroundJobs := t } }) := by
  let job : BackgroundJob :=
    { id := rt.uuid4 s.tick, kind := kind, payload := payload, priority := priority
      availableAt := (DateTime.utc (rt.clock (s.tick + 1))).addMicros (0 * 1000000) }
  have hid : job.id ∉ s.db.backgroundJobs.rows.map BackgroundJob.id := by
    intro hmem
    obtain ⟨x, hx, hsame⟩ := List.mem_map.mp hmem
    exact hnew x hx hsame
  refine ⟨job, s.db.backgroundJobs.insert job hid, rfl, rfl, rfl, ?_⟩
  have hmade : newUuid rt s = (.ok (rt.uuid4 s.tick), { s with tick := s.tick + 1 }) := rfl
  have hnow : utcNow rt { s with tick := s.tick + 1 } =
    (.ok (.utc (rt.clock (s.tick + 1))), { s with tick := s.tick + 2 }) := rfl
  unfold JobService.enqueue
  rw [Option.elim_none, Tx.bind_of_ok hmade, Tx.bind_of_ok hnow]
  refine (Tx.bind_of_ok (a := PUnit.unit) ?_).trans rfl
  exact Relation.add_of_accepted (haccepted job rfl) (fun _ _ => rfl) (dif_neg hid)

variable (deps) in
theorem reindex_of_accepted (hstorable : r.Storable rt row value) (reason : String)
    (hnew : ∀ job ∈ s.db.backgroundJobs, job.id ≠ rt.uuid4 s.tick) :
    ∃ s₁ s₂, staleDocuments s = (.ok ⟨⟩, s₁) ∧ enqueueReindex rt deps reason s₁ = (.ok ⟨⟩, s₂) ∧
      Reindexed deps s.db s₂.db := by
  let s₁ : Session := { s with db := { s.db with
    searchDocuments := s.db.searchDocuments.mapRows (fun d => { d with stale := true }) fun _ => rfl } }
  by_cases hjobs : deps.jobs = true
  · obtain ⟨job, t, -, hjob, hrows, henqueue⟩ := enqueue_of_accepted (s := s₁) "search_reindex_all"
      (.obj [("reason", .str reason)]) 50 (fun job hkind => hstorable.job _ job hkind) hnew
    have hrun : enqueueReindex rt deps reason s₁ =
        (.ok ⟨⟩, { s₁ with tick := s₁.tick + 2, db := { s₁.db with backgroundJobs := t } }) := by
      rw [enqueueReindex, if_pos hjobs, Tx.bind_of_ok henqueue]
      rfl
    refine ⟨s₁, _, rfl, hrun, rfl, rfl, rfl, [job], hrows, ?_⟩
    rw [if_pos hjobs, List.map_singleton, hjob]
    rfl
  · have hrun : enqueueReindex rt deps reason s₁ = (.ok ⟨⟩, s₁) := by
      rw [enqueueReindex, if_neg hjobs]
      rfl
    refine ⟨s₁, s₁, rfl, hrun, rfl, rfl, rfl, [], (List.append_nil _).symm, ?_⟩
    rw [if_neg hjobs]
    rfl

end accepted

/-! ### What a call that passes its checks leaves -/

/-- The tables that the calls are compared in. -/
def resetView (db : Db) : Table ApplicationSetting.id × Table ApplicationSettingRevision.id ×
    Table SearchDocument.id × Table BackgroundJob.id :=
  (db.applicationSettings, db.applicationSettingRevisions, db.searchDocuments, db.backgroundJobs)

/-- The setting is the given one with its revision, and the index has been asked for if `reindexed`. -/
structure Leaves (deps : SettingsDeps) (row' : ApplicationSetting) (reindexed : Prop) (db db' : Db) : Prop where
  settings : db'.applicationSettings = db.applicationSettings.put row'
  revisions : ∃ x, db'.applicationSettingRevisions.rows = db.applicationSettingRevisions.rows ++ [x] ∧
    x.settingId = row'.id ∧ x.value = row'.value
  documents : reindexed →
    db'.searchDocuments = db.searchDocuments.mapRows (fun d => { d with stale := true }) fun _ => rfl
  jobs : reindexed → ∃ new, db'.backgroundJobs.rows = db.backgroundJobs.rows ++ new ∧
    new.map unlabelled = if deps.jobs then [reindexJob] else []
  quiet : ¬reindexed → db'.searchDocuments = db.searchDocuments ∧ db'.backgroundJobs = db.backgroundJobs

theorem Replaced.leaves {row' : ApplicationSetting} {reindexed : Prop} {db db₁ db₂ : Db} (h : Replaced row' db db₁)
    (hsame : resetView db₂ = resetView db₁) (hnot : ¬reindexed) : Leaves deps row' reindexed db db₂ := by
  obtain ⟨hsettings, hrest⟩ := Prod.mk.inj hsame
  obtain ⟨hrevisions, hrest⟩ := Prod.mk.inj hrest
  obtain ⟨hdocuments, hjobs⟩ := Prod.mk.inj hrest
  refine ⟨hsettings.trans h.settings, ?_, fun h => absurd h hnot, fun h => absurd h hnot, fun _ => ?_⟩
  · rw [hrevisions]
    exact h.revisions
  · exact ⟨hdocuments.trans h.documents, hjobs.trans h.jobs⟩

theorem Replaced.leaves_reindexed {row' : ApplicationSetting} {reindexed : Prop} {db db₁ db₂ db₃ db₄ : Db}
    (h : Replaced row' db db₁) (hbefore : resetView db₂ = resetView db₁) (hreindexed : Reindexed deps db₂ db₃)
    (hafter : resetView db₄ = resetView db₃) (hasked : reindexed) : Leaves deps row' reindexed db db₄ := by
  obtain ⟨hsettings, hrest⟩ := Prod.mk.inj hbefore
  obtain ⟨hrevisions, hrest⟩ := Prod.mk.inj hrest
  obtain ⟨hdocuments, hjobs⟩ := Prod.mk.inj hrest
  obtain ⟨hsettings', hrest'⟩ := Prod.mk.inj hafter
  obtain ⟨hrevisions', hrest'⟩ := Prod.mk.inj hrest'
  obtain ⟨hdocuments', hjobs'⟩ := Prod.mk.inj hrest'
  refine ⟨?_, ?_, fun _ => ?_, fun _ => ?_, fun hnot => absurd hasked hnot⟩
  · rw [hsettings', hreindexed.settings, hsettings, h.settings]
  · rw [hrevisions', hreindexed.revisions, hrevisions]
    exact h.revisions
  · rw [hdocuments', hreindexed.documents, hdocuments, h.documents]
  · obtain ⟨new, hnew, hmap⟩ := hreindexed.jobs
    refine ⟨new, ?_, hmap⟩
    rw [hjobs', hnew, hjobs, h.jobs]

section lands

variable {r : Reset} {row : ApplicationSetting} {revision : ApplicationSettingRevision} {d : SettingDefinition}
  {value : Json} {s : Session}

theorem audit_of_accepted (hstorable : r.Storable rt row value) (eventType : String)
    (htype : eventType ∈ ["settings.changed", "settings.restored", "memory.reindex_requested"])
    (targetType : Option String) (targetId : Option Uuid) (details : List (String × Json)) (s : Session) :
    ∃ e s', AuditService.append rt r.context eventType "success" targetType targetId details s = (.ok e, s') ∧
      resetView s'.db = resetView s.db ∧ s.tick ≤ s'.tick := by
  obtain ⟨e, t, happend⟩ : ∃ e t, AuditService.append rt r.context eventType "success" targetType targetId details s =
      (.ok e, { s with tick := s.tick + 1, db := { s.db with auditEvents := t } }) :=
    AuditService.append_of_accepted rt fun e hactor hnetwork hcorrelation hevent =>
      hstorable.audited s.db e hactor hnetwork hcorrelation (hevent ▸ htype)
  exact ⟨e, _, happend, rfl, Nat.le_succ _⟩

theorem Reset.Of.row_mem (h : r.Of rt s.db row revision) :
    row ∈ s.db.applicationSettings ∧ row.area = r.area ∧ row.key = r.key := by
  have hfound := List.mem_filter.mp (List.mem_of_mem_head? (Option.mem_def.mpr h.setting))
  exact ⟨hfound.1, of_decide_eq_true hfound.2⟩

/-- The revision is the only one of the setting with its number. -/
theorem Reset.Of.findRevision (h : r.Of rt s.db row revision) (hledger : (settingLedger s.db).Complete) :
    SettingsService.findRevision row.id r.revisionNumber s = (.ok (some revision), s) := by
  have hmem : revision ∈ (s.db.applicationSettingRevisions.select fun x =>
      x.settingId = row.id ∧ x.revisionNumber = r.revisionNumber) :=
    List.mem_filter.mpr ⟨h.mem, decide_eq_true ⟨h.owner, h.number⟩⟩
  have hhead : (s.db.applicationSettingRevisions.select fun x =>
      x.settingId = row.id ∧ x.revisionNumber = r.revisionNumber).head? = some revision := by
    obtain ⟨x, hx⟩ := Option.isSome_iff_exists.mp (List.isSome_head?.mpr (List.ne_nil_of_mem hmem))
    obtain ⟨hxmem, hxplace⟩ := List.mem_filter.mp (List.mem_of_mem_head? (Option.mem_def.mpr hx))
    obtain ⟨hxowner, hxnumber⟩ := of_decide_eq_true hxplace
    have hnodup : (((settingLedger s.db).recordsOf row.id).map ApplicationSettingRevision.revisionNumber).Nodup := by
      have hnumbers := hledger.numbers row h.row_mem.1
      exact hnumbers ▸ Ledger.nodup_upTo _
    have hxrecord : x ∈ (settingLedger s.db).recordsOf row.id := List.mem_filter.mpr ⟨hxmem, decide_eq_true hxowner⟩
    have hrecord : revision ∈ (settingLedger s.db).recordsOf row.id :=
      List.mem_filter.mpr ⟨h.mem, decide_eq_true h.owner⟩
    rw [hx, List.inj_on_of_nodup_map hnodup hxrecord hrecord (hxnumber.trans h.number.symm)]
  unfold SettingsService.findRevision Relation.select
  rw [Tx.gets_bind_apply]
  exact congrArg (fun x => (Except.ok x, s)) hhead

/-- A restoration that passes its checks. -/
theorem restore_lands (h : r.Of rt s.db row revision) (hd : byKey r.area r.key = some d)
    (hversion : row.version = r.expectedVersion)
    (hvalid : validateValue d (revision.value.getD "value" .null) = .ok value)
    (hcheck : checkRestored rt deps r.area r.key value s = (.ok ⟨⟩, s)) (hstorable : r.Storable rt row value)
    (hids : NewIds rt s) (hledger : (settingLedger s.db).Complete) :
    ∃ row' s', r.restore rt deps s = (.ok row', s') ∧
      Leaves deps (restored row d value r.accountId) (r.area = "models" ∧ r.key = "embedding_model") s.db s'.db := by
  obtain ⟨s₁, s₂, hsave, hadd, hreplaced, htick⟩ := replace_of_accepted
    (restored row d value r.accountId) d.effectBoundary "restored" hstorable hids hledger h.row_mem.1 rfl rfl rfl rfl
  obtain ⟨s₃, hreindex, hleaves⟩ : ∃ s₃, reindexRestored rt deps r.area r.key s₂ = (.ok ⟨⟩, s₃) ∧
      ∀ db₄, resetView db₄ = resetView s₃.db → Leaves deps (restored row d value r.accountId)
        (r.area = "models" ∧ r.key = "embedding_model") s.db db₄ := by
    by_cases hembedding : r.area = "models" ∧ r.key = "embedding_model"
    · obtain ⟨s', s₃, hstale, henqueue, hreindexed⟩ := reindex_of_accepted deps hstorable
        "embedding_model_restored" (s := s₂) (by
          rw [hreplaced.jobs, htick]
          exact hids.jobs _ (Nat.le_succ _))
      refine ⟨s₃, ?_, fun db₄ hafter => hreplaced.leaves_reindexed rfl hreindexed hafter hembedding⟩
      unfold reindexRestored
      rw [if_pos hembedding, Tx.bind_of_ok hstale, henqueue]
    · refine ⟨s₂, ?_, fun db₄ hafter => hreplaced.leaves hafter hembedding⟩
      unfold reindexRestored
      rw [if_neg hembedding]
      rfl
  obtain ⟨e, s₄, haudit, hview, -⟩ := audit_of_accepted hstorable "settings.restored" (by simp)
    (some "application_setting") (some (restored row d value r.accountId).id) [("area", .str r.area),
      ("key", .str r.key), ("from_revision", .int r.revisionNumber),
      ("version", .int (restored row d value r.accountId).version)] s₃
  refine ⟨restored row d value r.accountId, s₄, ?_, hleaves s₄.db hview⟩
  unfold Reset.restore restoreRevision
  rw [hd, Tx.orRaise_some, Tx.pure_bind, findSetting, Tx.gets_bind_apply, h.setting, Tx.orRaise_some, Tx.pure_bind]
  refine (Tx.raiseIf_bind_of_not (not_not.mpr hversion) _ _ s).trans ?_
  rw [Tx.bind_of_ok (h.findRevision hledger), Tx.orRaise_some, Tx.pure_bind, hvalid,
    Tx.bind_of_ok (Tx.ofExcept_apply _ s), Tx.bind_of_ok hcheck]
  refine (Tx.bind_of_ok hsave).trans ((Tx.bind_of_ok hadd).trans ?_)
  exact (Tx.bind_of_ok hreindex).trans (Tx.bind_of_ok haudit)

/-- A change that passes its checks. -/
theorem update_lands (h : r.Of rt s.db row revision) (hd : byKey r.area r.key = some d)
    (hversion : row.version = r.expectedVersion)
    (hvalid : validateValue d (revision.value.getD "value" .null) = .ok value)
    (hcheck : checkSelection rt deps r.area r.key value s = (.ok ⟨⟩, s)) (hstorable : r.Storable rt row value)
    (hids : NewIds rt s) (hledger : (settingLedger s.db).Complete) :
    ∃ outcome s', r.update rt deps s = (.ok outcome, s') ∧
      Leaves deps (changed row value r.accountId) (EmbeddingChanged r.area r.key (some row) value) s.db s'.db := by
  obtain ⟨s₁, s₂, hsave, hadd, hreplaced, htick⟩ := replace_of_accepted
    (changed row value r.accountId) d.effectBoundary "changed" hstorable hids hledger h.row_mem.1 rfl rfl rfl rfl
  obtain ⟨e, s₃, haudit, hview, htick'⟩ := audit_of_accepted hstorable "settings.changed" (by simp)
    (some "application_setting") (some (changed row value r.accountId).id) [("area", .str r.area),
      ("key", .str r.key), ("version", .int (changed row value r.accountId).version)] s₂
  obtain ⟨s₄, hreindex, hleaves⟩ : ∃ s₄, reindexIfChanged rt deps r.area r.key (some row) value r.context s₃ =
      (.ok ⟨⟩, s₄) ∧ Leaves deps (changed row value r.accountId)
        (EmbeddingChanged r.area r.key (some row) value) s.db s₄.db := by
    unfold reindexIfChanged
    by_cases hchanged : EmbeddingChanged r.area r.key (some row) value
    · have hjobs : s₃.db.backgroundJobs = s.db.backgroundJobs :=
        (congrArg (fun v => v.2.2.2) hview).trans hreplaced.jobs
      have hlater : s.tick ≤ s₃.tick := by omega
      obtain ⟨s', s₄, hstale, henqueue, hreindexed⟩ := reindex_of_accepted deps hstorable
        "embedding_model_changed" (s := s₃) (by
          rw [hjobs]
          exact hids.jobs _ hlater)
      obtain ⟨e', s₅, haudit', hview', -⟩ := audit_of_accepted hstorable "memory.reindex_requested" (by simp)
        none none [("reason", .str "embedding_model_changed"),
          ("stale_documents", .int s₃.db.searchDocuments.rows.length)] s₄
      refine ⟨s₅, ?_, hreplaced.leaves_reindexed hview hreindexed hview' hchanged⟩
      rw [if_pos hchanged, requestReindex, Tx.gets_bind_apply, Tx.bind_of_ok hstale, Tx.bind_of_ok henqueue,
        Tx.bind_of_ok haudit']
      rfl
    · refine ⟨s₃, ?_, hreplaced.leaves hview hchanged⟩
      rw [if_neg hchanged]
      rfl
  have hstore : storeSetting rt d value r.accountId (some row) s = (.ok (changed row value r.accountId), s₁) :=
    (Tx.bind_of_ok hsave).trans rfl
  let outcome : Json := .obj [("value", value), ("version", .int (changed row value r.accountId).version),
    ("effect_boundary", .str d.effectBoundary)]
  have hupdate : updateSetting rt deps r.area r.accountId r.context (r.key, r.request) s =
      (.ok (r.key, outcome), s₄) := by
    unfold updateSetting
    rw [hd, Tx.orRaise_some, Tx.pure_bind, h.value, hvalid, Tx.bind_of_ok (Tx.ofExcept_apply _ s),
      Tx.bind_of_ok hcheck, h.version, Tx.bind_of_ok (Tx.ofExcept_apply _ s), findSetting, Tx.gets_bind_apply,
      h.setting]
    refine (Tx.raiseIf_bind_of_not (not_not.mpr hversion) _ _ s).trans ?_
    refine (Tx.bind_of_ok hstore).trans ((Tx.bind_of_ok hadd).trans ?_)
    exact (Tx.bind_of_ok haudit).trans (Tx.bind_of_ok hreindex)
  refine ⟨.obj [(r.key, outcome)], s₄, ?_, hleaves⟩
  unfold Reset.update updateArea Tx.forEach Tx.forEach
  exact Tx.bind_of_ok ((Tx.bind_of_ok hupdate).trans rfl)

end lands

/-! ### Which checks are passed -/

theorem validateModelSelection_keeps (role text : String) :
    Tx.Keeps Eq (validateModelSelection rt role text) := by
  refine (Tx.Keeps.orRaise _ _).bind fun modelId => (Tx.Keeps.gets _).bind fun found => ?_
  refine (Tx.Keeps.orRaise _ _).bind fun model => (Tx.Keeps.gets _).bind fun provider => ?_
  exact (Tx.Keeps.orRaise _ _).bind fun _ => Tx.Keeps.pure _

theorem checkRestored_keeps (area key : String) (value : Json) :
    Tx.Keeps Eq (checkRestored rt deps area key value) := by
  unfold checkRestored
  split
  · exact validateModelSelection_keeps _ _
  · exact Tx.Keeps.pure _

theorem checkSelection_keeps (area key : String) (value : Json) :
    Tx.Keeps Eq (checkSelection rt deps area key value) := by
  unfold checkSelection
  split
  · exact validateModelSelection_keeps _ _
  · exact Tx.Keeps.pure _

section checks

variable {r : Reset} {row : ApplicationSetting} {revision : ApplicationSettingRevision} {s : Session}

/-- A restoration that succeeds has passed its checks. -/
theorem restore_passed {row' : ApplicationSetting} {s' : Session} (h : r.Of rt s.db row revision)
    (hledger : (settingLedger s.db).Complete) (hrun : r.restore rt deps s = (.ok row', s')) :
    ∃ d, byKey r.area r.key = some d ∧ row.version = r.expectedVersion ∧
      ∃ value, validateValue d (revision.value.getD "value" .null) = .ok value ∧
        checkRestored rt deps r.area r.key value s = (.ok ⟨⟩, s) := by
  obtain ⟨d, hd, h₁⟩ := Tx.orRaise_bind_eq_ok hrun
  rw [findSetting, Tx.gets_bind_apply, h.setting, Tx.orRaise_some, Tx.pure_bind] at h₁
  obtain ⟨hversion, h₂⟩ := Tx.raiseIf_bind_eq_ok h₁
  rw [Tx.bind_of_ok (h.findRevision hledger), Tx.orRaise_some, Tx.pure_bind] at h₂
  obtain ⟨value, s₁, hvalue, h₃⟩ := Tx.bind_eq_ok h₂
  obtain ⟨hvalid, rfl⟩ := Prod.mk.inj hvalue
  obtain ⟨u, s₂, hcheck, -⟩ := Tx.bind_eq_ok h₃
  obtain rfl : s = s₂ := (checkRestored_keeps r.area r.key value).of_apply hcheck
  exact ⟨d, hd, not_not.mp hversion, value, hvalid, hcheck⟩

/-- A change that succeeds has passed its checks. -/
theorem update_passed {outcome : Json} {s' : Session} (h : r.Of rt s.db row revision)
    (hrun : r.update rt deps s = (.ok outcome, s')) :
    ∃ d, byKey r.area r.key = some d ∧ row.version = r.expectedVersion ∧
      ∃ value, validateValue d (revision.value.getD "value" .null) = .ok value ∧
        checkSelection rt deps r.area r.key value s = (.ok ⟨⟩, s) := by
  obtain ⟨outcomes, s₁, hall, -⟩ := Tx.bind_eq_ok hrun
  obtain ⟨entry, s₂, hupdate, -⟩ := Tx.bind_eq_ok hall
  obtain ⟨d, hd, h₁⟩ := Tx.orRaise_bind_eq_ok hupdate
  obtain ⟨value, s₃, hvalue, h₂⟩ := Tx.bind_eq_ok h₁
  obtain ⟨hvalid, rfl⟩ := Prod.mk.inj hvalue
  obtain ⟨u, s₄, hcheck, h₃⟩ := Tx.bind_eq_ok h₂
  obtain rfl : s = s₄ := (checkSelection_keeps r.area r.key value).of_apply hcheck
  rw [h.version, Tx.bind_of_ok (Tx.ofExcept_apply _ s), findSetting, Tx.gets_bind_apply, h.setting] at h₃
  obtain ⟨hversion, -⟩ := Tx.raiseIf_bind_eq_ok h₃
  rw [h.value] at hvalid
  exact ⟨d, hd, not_not.mp hversion, value, hvalid, hcheck⟩

end checks

/-- The check of a restored model is at least as strict. -/
theorem checkSelection_of_restored {area key : String} {value : Json} {s : Session}
    (h : checkRestored rt deps area key value s = (.ok ⟨⟩, s)) :
    checkSelection rt deps area key value s = (.ok ⟨⟩, s) := by
  unfold checkSelection
  split
  · next hcond =>
    unfold checkRestored at h
    rwa [if_pos ⟨hcond.1, hcond.2.2⟩] at h
  · rfl

/-- The checks differ on an empty selection alone. -/
theorem checkRestored_of_selection {area key : String} {value : Json} {s : Session}
    (hselected : area = "models" → deps.providers = true → value.truthy = true)
    (h : checkSelection rt deps area key value s = (.ok ⟨⟩, s)) :
    checkRestored rt deps area key value s = (.ok ⟨⟩, s) := by
  unfold checkRestored
  split
  · next hcond =>
    unfold checkSelection at h
    rwa [if_pos ⟨hcond.1, hselected hcond.1 hcond.2, hcond.2⟩] at h
  · rfl

/-- No model is not a model. -/
theorem checkRestored_empty {key : String} {s : Session} (hempty : rt.parseUuid "" = none)
    (hproviders : deps.providers = true) : checkRestored rt deps "models" key (.str "") s ≠ (.ok ⟨⟩, s) := by
  unfold checkRestored validateModelSelection
  rw [if_pos ⟨rfl, hproviders⟩, modelValue, hempty, Tx.orRaise_none, Tx.raise_bind]
  simp

/-- Every text is a value of a model setting. -/
theorem validateValue_models {key : String} {d : SettingDefinition} (hd : byKey "models" key = some d)
    (text : String) : validateValue d (.str text) = .ok (.str text) := by
  have hall : ∀ d ∈ definitions, d.area = "models" → d.valueType = .string ∧ d.choices = [] := by decide
  have hfind := List.find?_some hd
  obtain ⟨harea, -⟩ := of_decide_eq_true hfind
  obtain ⟨htype, hchoices⟩ := hall d (List.mem_of_find?_eq_some hd) harea
  have htyped : typed d (.str text) = true := by
    unfold typed
    rw [htype]
  have hchosen : outOfChoices d (.str text) = false := by
    unfold outOfChoices
    rw [hchoices]
    rfl
  unfold validateValue
  rw [if_neg (by rw [htyped]; exact Bool.noConfusion), if_neg (by rw [hchosen]; exact Bool.noConfusion)]

/-! ### When the calls agree -/

section agree

variable {r : Reset} {row : ApplicationSetting} {revision : ApplicationSettingRevision} {s : Session}

theorem Leaves.settingAt {row' : ApplicationSetting} {reindexed : Prop} {db' : Db} (h : r.Of rt s.db row revision)
    (hleaves : Leaves deps row' reindexed s.db db') (hid : row'.id = row.id) (harea : row'.area = row.area)
    (hkey : row'.key = row.key) :
    SettingsService.settingAt r.area r.key db' = some (row'.value, row'.version, some row'.value) := by
  have hsetting : db'.setting? r.area r.key = some row' := by
    have hput := Invalidation.setting?_put h.row_mem.1 hid harea hkey r.area r.key
    rw [h.setting, Option.map_some, Table.overwrite, if_pos hid.symm] at hput
    rw [← hput, Db.setting?, Db.setting?, hleaves.settings]
  obtain ⟨x, hrows, howner, hvalue⟩ := hleaves.revisions
  have hlast : ((settingLedger db').recordsOf row'.id).getLast? = some x := by
    have hrecords : (settingLedger db').records = (settingLedger s.db).records ++ [x] := hrows
    have hown : decide (settingVersioning.owner x = row'.id) = true := decide_eq_true howner
    unfold Ledger.recordsOf
    rw [hrecords, List.filter_append, List.filter_singleton, hown]
    exact List.getLast?_concat
  rw [SettingsService.settingAt, hsetting, Option.map_some, hlast, Option.map_some, hvalue]

theorem session_isOk_iff {α : Type} {m : Work α} {s : Session} :
    (Database.session m s).1.isOk = true ↔ ∃ a s', m s = (.ok a, s') := by
  have hfst : (Database.session m s).1 = (m s).1 := Tx.session_fst m s
  rw [hfst]
  rcases m s with ⟨e | a, s'⟩
  · simp [Except.isOk, Except.toBool]
  · simp [Except.isOk, Except.toBool]

/-- The two calls succeed together unless an empty selection is restored. -/
theorem restore_isOk_iff (h : r.Of rt s.db row revision)
    (hstorable : r.Storable rt row (revision.value.getD "value" .null)) (hids : NewIds rt s)
    (hledger : (settingLedger s.db).Complete) (hselects : ¬r.Unselects deps row revision) :
    (∃ row' s', r.restore rt deps s = (.ok row', s')) ↔ ∃ outcome s', r.update rt deps s = (.ok outcome, s') := by
  constructor
  · rintro ⟨row', s', hrun⟩
    obtain ⟨d, hd, hversion, value, hvalid, hcheck⟩ := restore_passed h hledger hrun
    obtain ⟨rfl, -⟩ := validateValue_eq_ok hvalid
    obtain ⟨outcome, s₂, hrun₂, -⟩ := update_lands h hd hversion hvalid (checkSelection_of_restored hcheck)
      hstorable hids hledger
    exact ⟨outcome, s₂, hrun₂⟩
  · rintro ⟨outcome, s', hrun⟩
    obtain ⟨d, hd, hversion, value, hvalid, hcheck⟩ := update_passed h hrun
    obtain ⟨rfl, htyped⟩ := validateValue_eq_ok hvalid
    have hselected : r.area = "models" → deps.providers = true →
        (revision.value.getD "value" .null).truthy = true := by
      intro harea hproviders
      rw [harea] at hd
      obtain ⟨text, htext⟩ := typed_models hd htyped
      rw [htext, Json.truthy, decide_eq_true_iff]
      rintro rfl
      refine hselects ⟨⟨harea, ?_, hproviders⟩, htext, hversion⟩
      rw [harea, hd]
      rfl
    obtain ⟨row', s₁, hrun₁, -⟩ := restore_lands h hd hversion hvalid (checkRestored_of_selection hselected hcheck)
      hstorable hids hledger
    exact ⟨row', s₁, hrun₁⟩

/-- What the two calls leave if they succeed. -/
theorem restore_and_update_leave (h : r.Of rt s.db row revision)
    (hstorable : r.Storable rt row (revision.value.getD "value" .null)) (hids : NewIds rt s)
    (hledger : (settingLedger s.db).Complete) {row' : ApplicationSetting} {outcome : Json} {s₁ s₂ : Session}
    (hrestore : Database.session (r.restore rt deps) s = (.ok row', s₁))
    (hupdate : Database.session (r.update rt deps) s = (.ok outcome, s₂)) : ∃ d,
    Leaves deps (restored row d (revision.value.getD "value" .null) r.accountId)
      (r.area = "models" ∧ r.key = "embedding_model") s.db s₁.db ∧
    Leaves deps (changed row (revision.value.getD "value" .null) r.accountId)
      (EmbeddingChanged r.area r.key (some row) (revision.value.getD "value" .null)) s.db s₂.db := by
  have hrun₁ := Database.session_eq_ok hrestore
  have hrun₂ := Database.session_eq_ok hupdate
  obtain ⟨d, hd, hversion, value, hvalid, hcheck⟩ := restore_passed h hledger hrun₁
  obtain ⟨rfl, -⟩ := validateValue_eq_ok hvalid
  obtain ⟨row₁, t₁, hland₁, hleaves₁⟩ := restore_lands h hd hversion hvalid hcheck hstorable hids hledger
  obtain ⟨outcome₂, t₂, hland₂, hleaves₂⟩ := update_lands h hd hversion hvalid (checkSelection_of_restored hcheck)
    hstorable hids hledger
  obtain ⟨-, rfl⟩ := Prod.mk.inj (hrun₁.symm.trans hland₁)
  obtain ⟨-, rfl⟩ := Prod.mk.inj (hrun₂.symm.trans hland₂)
  exact ⟨d, hleaves₁, hleaves₂⟩

/-- An embedding model that is restored as it stands is indexed again; one that is set again is not. -/
theorem restore_reindexes_unchanged (h : r.Of rt s.db row revision)
    (hstorable : r.Storable rt row (revision.value.getD "value" .null)) (hids : NewIds rt s)
    (hledger : (settingLedger s.db).Complete) {row' : ApplicationSetting} {outcome : Json} {s₁ s₂ : Session}
    (hrestore : Database.session (r.restore rt deps) s = (.ok row', s₁))
    (hupdate : Database.session (r.update rt deps) s = (.ok outcome, s₂))
    (hembedding : r.area = "models" ∧ r.key = "embedding_model")
    (hsame : ¬EmbeddingChanged r.area r.key (some row) (revision.value.getD "value" .null)) :
    (∀ document ∈ s₁.db.searchDocuments, document.stale = true) ∧
      s₂.db.searchDocuments = s.db.searchDocuments ∧ s₂.db.backgroundJobs = s.db.backgroundJobs := by
  obtain ⟨d, hleaves₁, hleaves₂⟩ := restore_and_update_leave h hstorable hids hledger hrestore hupdate
  refine ⟨fun document hmem => ?_, hleaves₂.quiet hsame⟩
  rw [hleaves₁.documents hembedding] at hmem
  obtain ⟨before, -, rfl⟩ := List.mem_map.mp hmem
  rfl

/-- Two calls that pass their checks leave the same. -/
theorem agree_of_selected (h : r.Of rt s.db row revision)
    (hstorable : r.Storable rt row (revision.value.getD "value" .null)) (hids : NewIds rt s)
    (hledger : (settingLedger s.db).Complete) (hselects : ¬r.Unselects deps row revision) :
    r.Agree rt deps s row revision := by
  refine ⟨?_, ?_, ?_⟩
  · rw [Bool.eq_iff_iff, session_isOk_iff, session_isOk_iff]
    exact restore_isOk_iff h hstorable hids hledger hselects
  · intro row' s₁ outcome s₂ hrestore hupdate
    obtain ⟨d, hleaves₁, hleaves₂⟩ := restore_and_update_leave h hstorable hids hledger hrestore hupdate
    rw [hleaves₁.settingAt h rfl rfl rfl, hleaves₂.settingAt h rfl rfl rfl]
    rfl
  · intro row' s₁ outcome s₂ hrestore hupdate hchanged
    obtain ⟨d, hleaves₁, hleaves₂⟩ := restore_and_update_leave h hstorable hids hledger hrestore hupdate
    have hembedding : r.area = "models" ∧ r.key = "embedding_model" := ⟨hchanged.1, hchanged.2.1⟩
    obtain ⟨new₁, hnew₁, hmap₁⟩ := hleaves₁.jobs hembedding
    obtain ⟨new₂, hnew₂, hmap₂⟩ := hleaves₂.jobs hchanged
    exact ⟨(hleaves₁.documents hembedding).trans (hleaves₂.documents hchanged).symm, new₁, new₂, hnew₁, hnew₂,
      hmap₁.trans hmap₂.symm⟩

/-- **Restoring a revision and setting its value again agree** unless a selection of no model is restored. -/
theorem restore_agrees_iff (hempty : rt.parseUuid "" = none) (h : r.Of rt s.db row revision)
    (hstorable : r.Storable rt row (revision.value.getD "value" .null)) (hids : NewIds rt s)
    (hledger : (settingLedger s.db).Complete) :
    r.Agree rt deps s row revision ↔ ¬r.Unselects deps row revision := by
  refine ⟨?_, agree_of_selected h hstorable hids hledger⟩
  rintro hagree ⟨⟨harea, hknown, hproviders⟩, hvalue, hversion⟩
  obtain ⟨d, hd⟩ := Option.isSome_iff_exists.mp hknown
  have hvalid : validateValue d (revision.value.getD "value" .null) = .ok (revision.value.getD "value" .null) := by
    rw [hvalue]
    exact validateValue_models (harea ▸ hd) ""
  have hcheck : checkSelection rt deps r.area r.key (revision.value.getD "value" .null) s = (.ok ⟨⟩, s) := by
    have hfalsy : ¬(r.area = "models" ∧ (revision.value.getD "value" .null).truthy ∧ deps.providers) := by
      rintro ⟨-, htruthy, -⟩
      rw [hvalue] at htruthy
      simp [Json.truthy] at htruthy
    unfold checkSelection
    rw [if_neg hfalsy]
    rfl
  obtain ⟨outcome, s₂, hrun₂, -⟩ := update_lands h hd hversion hvalid hcheck hstorable hids hledger
  have hok : (Database.session (r.restore rt deps) s).1.isOk = true :=
    hagree.succeeds.trans (session_isOk_iff.mpr ⟨outcome, s₂, hrun₂⟩)
  obtain ⟨row', s₁, hrun₁⟩ := session_isOk_iff.mp hok
  obtain ⟨d', hd', -, value, hvalid', hcheck'⟩ := restore_passed h hledger hrun₁
  obtain ⟨rfl, -⟩ := validateValue_eq_ok hvalid'
  rw [harea, hvalue] at hcheck'
  exact checkRestored_empty hempty hproviders hcheck'

end agree

/-! ### A model that was not selected at first -/

def firstRevision : ApplicationSettingRevision :=
  { id := 11, settingId := 6, revisionNumber := 1, value := stored (.str ""), effectBoundary := "next_turn"
    changedBy := some 1, changeKind := "changed" }

def secondRevision : ApplicationSettingRevision :=
  { id := 12, settingId := 6, revisionNumber := 2, value := stored (.str (Runtime.uuidText 4))
    effectBoundary := "next_turn", changedBy := some 1, changeKind := "changed" }

def selectedSetting : ApplicationSetting :=
  { id := 6, area := "models", key := "conversation_model", value := stored (.str (Runtime.uuidText 4))
    effectBoundary := "next_turn", changedBy := some 1, version := 2 }

/-- A model for conversations was selected after none had been. -/
def selectedLater : Session where
  began := .utc 1767268800000000
  db := {
    applicationSettings := .singleton selectedSetting
    applicationSettingRevisions := ⟨[firstRevision, secondRevision], by decide⟩
    modelCatalogEntries := .singleton
      { id := 4, providerId := 5, externalId := "gpt-5-mini", displayName := "GPT-5 mini"
        role := "conversation_model", lastSeenAt := .utc 1767268800000000, capabilities := .obj [] }
    providerConfigurations := .singleton
      { id := 5, providerType := "openai", displayName := "OpenAI", baseUrl := "https://api.openai.com/v1"
        enabled := true, verificationState := "verified" } }

def resetTo (revision : ApplicationSettingRevision) : Reset where
  area := "models"
  key := "conversation_model"
  revisionNumber := revision.revisionNumber
  expectedVersion := 2
  request := .obj [("value", revision.value.getD "value" .null), ("version", .int 2)]
  accountId := 1
  context := { actorType := "user", actorId := some 1 }

def settingsRuntime : Runtime := .sample 1767268800000000 []

theorem selectedLater_of {revision : ApplicationSettingRevision}
    (h : revision ∈ selectedLater.db.applicationSettingRevisions) (howner : revision.settingId = 6) :
    (resetTo revision).Of settingsRuntime selectedLater.db selectedSetting revision :=
  ⟨rfl, h, howner, rfl, rfl, rfl⟩

theorem selectedLater_storable (revision : ApplicationSettingRevision) :
    (resetTo revision).Storable settingsRuntime selectedSetting (revision.value.getD "value" .null) :=
  ⟨fun _ _ _ _ => rfl, fun _ _ _ _ _ _ => rfl, fun _ _ _ => rfl, fun _ _ _ _ _ _ => rfl⟩

theorem selectedLater_newIds : NewIds settingsRuntime selectedLater where
  revisions n _ x hx := by
    have hsmall : x.id ≤ 12 := by
      rcases List.mem_pair.mp hx with rfl | rfl
      · decide
      · decide
    have hlarge : ∀ k : ℕ, k ≤ 12 → k ≠ 2 ^ 64 + n := fun k hk => by omega
    exact hlarge x.id hsmall
  jobs _ _ _ hjob := absurd hjob List.not_mem_nil

theorem selectedLater_complete : (settingLedger selectedLater.db).Complete where
  numbers row hrow := by
    obtain rfl := List.mem_singleton.mp hrow
    decide
  latest row hrow := by
    obtain rfl := List.mem_singleton.mp hrow
    exact ⟨secondRevision, rfl, rfl, rfl, rfl⟩
  owned x hx := by
    rcases List.mem_pair.mp hx with rfl | rfl
    · exact ⟨selectedSetting, List.mem_singleton_self _, rfl⟩
    · exact ⟨selectedSetting, List.mem_singleton_self _, rfl⟩

/-- The revision in which no model was selected can be set again, but not restored. -/
theorem restore_differs : ¬∀ (rt : Runtime) (deps : SettingsDeps) (r : Reset) (s : Session)
    (row : ApplicationSetting) (revision : ApplicationSettingRevision), rt.parseUuid "" = none →
    r.Of rt s.db row revision → r.Storable rt row (revision.value.getD "value" .null) → NewIds rt s →
    (settingLedger s.db).Complete → r.Agree rt deps s row revision := by
  intro h
  have hagree := h settingsRuntime {} (resetTo firstRevision) selectedLater selectedSetting firstRevision
    (by decide) (selectedLater_of List.mem_cons_self rfl) (selectedLater_storable _) selectedLater_newIds
    selectedLater_complete
  exact absurd hagree.succeeds (by decide +kernel)

/-- The revision in which the model was selected is restored as it is set again. -/
theorem restore_agrees_selected :
    (resetTo secondRevision).Agree settingsRuntime {} selectedLater selectedSetting secondRevision := by
  refine (restore_agrees_iff (by decide) (selectedLater_of ?_ rfl) (selectedLater_storable _) selectedLater_newIds
    selectedLater_complete).mpr ?_
  · exact List.mem_cons_of_mem _ (List.mem_singleton_self _)
  · rintro ⟨-, hvalue, -⟩
    exact absurd (Json.str.inj hvalue) (by decide)

end KajovoDagmar.SettingsService
