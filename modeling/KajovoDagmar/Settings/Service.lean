import KajovoDagmar.Audit.Service
import KajovoDagmar.Jobs.Service
import KajovoDagmar.Settings.Catalog

/-! # The settings

`SettingsService`: changing the settings of an area and restoring an earlier value.  Each change bumps the
version of the setting and appends its revision. -/

namespace KajovoDagmar

/-- Whether the service has the services of providers and jobs. -/
structure SettingsDeps where
  providers : Bool := true
  jobs : Bool := true

namespace SettingsService

open SettingsCatalog

variable (rt : Runtime) (deps : SettingsDeps)

/-! ### Rows -/

/-- `{"value": value}`. -/
def stored (value : Json) : Json := .obj [("value", value)]

def created (id : Uuid) (d : SettingDefinition) (value : Json) (accountId : Uuid) : ApplicationSetting :=
  { id := id, area := d.area, key := d.key, value := stored value, effectBoundary := d.effectBoundary
    changedBy := some accountId }

def changed (row : ApplicationSetting) (value : Json) (accountId : Uuid) : ApplicationSetting :=
  { row with value := stored value, version := row.version + 1, changedBy := some accountId }

/-- The revision of a setting as it has been written. -/
def revisionOf (id : Uuid) (row : ApplicationSetting) (value : Json) (effectBoundary changeKind : String)
    (accountId : Uuid) : ApplicationSettingRevision :=
  { id := id, settingId := row.id, revisionNumber := row.version, value := stored value
    effectBoundary := effectBoundary, changedBy := some accountId, changeKind := changeKind }

def findSetting (area key : String) : Work (Option ApplicationSetting) :=
  Tx.gets fun s => s.db.setting? area key

/-- The setting with the value, new or changed. -/
def storeSetting (d : SettingDefinition) (value : Json) (accountId : Uuid)
    (found : Option ApplicationSetting) : Work ApplicationSetting :=
  match found with
  | none => do
    let id ← newUuid rt
    Db.applicationSetting.add rt (created id d value accountId)
    pure (created id d value accountId)
  | some row => do
    Db.applicationSetting.save rt (changed row value accountId)
    pure (changed row value accountId)

def addRevision (row : ApplicationSetting) (value : Json) (effectBoundary changeKind : String)
    (accountId : Uuid) : Work PUnit := do
  let id ← newUuid rt
  Db.applicationSettingRevision.add rt (revisionOf id row value effectBoundary changeKind accountId)

/-! ### The search index -/

/-- `update(SearchDocument).values(stale=True)`. -/
def staleDocuments : Work PUnit := Tx.modify fun s => { s with db := { s.db with
  searchDocuments := s.db.searchDocuments.mapRows (fun d => { d with stale := true }) fun _ => rfl } }

def enqueueReindex (reason : String) : Work PUnit :=
  if deps.jobs then do
    let _ ← JobService.enqueue rt "search_reindex_all" (.obj [("reason", .str reason)]) 50
    pure ⟨⟩
  else pure ⟨⟩

/-- The effects of a changed embedding model. -/
def requestReindex (context : AuditContext) : Work PUnit := do
  let count ← Tx.gets fun s => s.db.searchDocuments.rows.length
  staleDocuments
  enqueueReindex rt deps "embedding_model_changed"
  let _ ← AuditService.append rt context "memory.reindex_requested" "success" none none
    [("reason", .str "embedding_model_changed"), ("stale_documents", .int count)]
  pure ⟨⟩

/-! ### Changing settings -/

/-- `str(value)` of the value of a model setting, which is a text. -/
def modelValue (value : Json) : String :=
  match value with
  | .str s => s
  | _ => rt.pyRepr value

def selectionIncompatible (role : String) : Exc := .domain
  { code := "model_selection_incompatible"
    message := "Tento model není dostupný nebo není vhodný pro vybranou roli."
    statusCode := 422
    details := some (.obj [("role", .str role)]) }

/-- `_validate_model_selection`. -/
def validateModelSelection (role modelValue : String) : Work PUnit := do
  let modelId ← Tx.orRaise (rt.parseUuid modelValue) (.domain
    { code := "model_selection_invalid", message := "Vybraný model není platný.", statusCode := 422 })
  let found ← Db.modelCatalogEntry.find modelId
  let model ← Tx.orRaise (found.filter fun m => m.available ∧ m.role = role) (selectionIncompatible role)
  let provider ← Db.providerConfiguration.find model.providerId
  let _ ← Tx.orRaise (provider.filter fun p => p.verificationState = "verified" ∧ p.enabled) (.domain
    { code := "model_provider_unverified", message := "Model patří neověřenému poskytovateli."
      statusCode := 422 })
  pure ⟨⟩

/-- The check of a model that is selected. -/
def checkSelection (area key : String) (value : Json) : Work PUnit :=
  if area = "models" ∧ value.truthy ∧ deps.providers then
    validateModelSelection rt key (modelValue rt value)
  else pure ⟨⟩

def settingUnknown (area key : String) : Exc := .domain
  { code := "setting_unknown", message := "Nastavení " ++ area ++ "." ++ key ++ " není podporováno."
    statusCode := 422 }

/-- `int(value)`. -/
def pyInt (value : Json) : Except Exc ℤ :=
  match rt.pyInt value with
  | .ok n => .ok n
  | .error code => .error (.other code)

/-- `row.version if row else 0`. -/
def versionOf (found : Option ApplicationSetting) : ℤ := found.elim 0 ApplicationSetting.version

/-- `row.value.get("value")` of a setting that was there. -/
def previousValue (found : Option ApplicationSetting) : Json :=
  found.elim .null fun row => row.value.getD "value" .null

/-- `previous_value == value` for a text. -/
def sameText (previous value : Json) : Bool :=
  match previous, value with
  | .str a, .str b => a = b
  | _, _ => false

/-- The embedding model has got another value. -/
def EmbeddingChanged (area key : String) (found : Option ApplicationSetting) (value : Json) : Prop :=
  area = "models" ∧ key = "embedding_model" ∧ sameText (previousValue found) value = false

instance (area key : String) (found : Option ApplicationSetting) (value : Json) :
    Decidable (EmbeddingChanged area key found value) :=
  inferInstanceAs (Decidable (_ ∧ _ ∧ _))

def reindexIfChanged (area key : String) (found : Option ApplicationSetting) (value : Json)
    (context : AuditContext) : Work PUnit :=
  if EmbeddingChanged area key found value then requestReindex rt deps context else pure ⟨⟩

/-- One setting of `update_area`. -/
def updateSetting (area : String) (accountId : Uuid) (context : AuditContext) (change : String × Json) :
    Work (String × Json) := do
  let key := change.1
  let d ← Tx.orRaise (byKey area key) (settingUnknown area key)
  let value ← Tx.ofExcept (validateValue d (change.2.getD "value" .null))
  checkSelection rt deps area key value
  let expected ← Tx.ofExcept (pyInt rt (change.2.getD "version" (.int 0)))
  let found ← findSetting area key
  Tx.raiseIf (versionOf found ≠ expected) (.domain (.conflict "Nastavení bylo mezitím změněno v jiné relaci."
    (some (.obj [("key", .str key), ("expected_version", .int expected),
      ("actual_version", .int (versionOf found))]))))
  let row ← storeSetting rt d value accountId found
  addRevision rt row value d.effectBoundary "changed" accountId
  let _ ← AuditService.append rt context "settings.changed" "success" (some "application_setting") (some row.id)
    [("area", .str area), ("key", .str key), ("version", .int row.version)]
  reindexIfChanged rt deps area key found value context
  pure (key, .obj [("value", value), ("version", .int row.version), ("effect_boundary", .str d.effectBoundary)])

def updateArea (area : String) (changes : List (String × Json)) (accountId : Uuid) (context : AuditContext) :
    Work Json := do
  let outcomes ← Tx.forEach (updateSetting rt deps area accountId context) changes
  pure (.obj outcomes)

/-! ### Restoring a revision -/

def restored (row : ApplicationSetting) (d : SettingDefinition) (value : Json) (accountId : Uuid) :
    ApplicationSetting :=
  { row with
    value := stored value
    effectBoundary := d.effectBoundary
    changedBy := some accountId
    version := row.version + 1 }

def findRevision (settingId : Uuid) (revisionNumber : ℤ) : Work (Option ApplicationSettingRevision) := do
  let rows ← Db.applicationSettingRevision.select fun r =>
    r.settingId = settingId ∧ r.revisionNumber = revisionNumber
  pure rows.head?

/-- The check of the model that is restored, even if it is none. -/
def checkRestored (area key : String) (value : Json) : Work PUnit :=
  if area = "models" ∧ deps.providers then validateModelSelection rt key (modelValue rt value) else pure ⟨⟩

def reindexRestored (area key : String) : Work PUnit :=
  if area = "models" ∧ key = "embedding_model" then do
    staleDocuments
    enqueueReindex rt deps "embedding_model_restored"
  else pure ⟨⟩

def restoreRevision (area key : String) (revisionNumber expectedVersion : ℤ) (accountId : Uuid)
    (context : AuditContext) : Work ApplicationSetting := do
  let d ← Tx.orRaise (byKey area key) (settingUnknown area key)
  let found ← findSetting area key
  let row ← Tx.orRaise found (.domain (.notFound "Nastavení dosud nemá uloženou historii."))
  Tx.raiseIf (row.version ≠ expectedVersion) (.domain (.conflict "Nastavení bylo mezitím změněno."
    (some (.obj [("expected_version", .int expectedVersion), ("actual_version", .int row.version)]))))
  let revision ← findRevision row.id revisionNumber
  let revision ← Tx.orRaise revision (.domain (.notFound "Požadovaná verze nastavení nebyla nalezena."))
  let value ← Tx.ofExcept (validateValue d (revision.value.getD "value" .null))
  checkRestored rt deps area key value
  let row := restored row d value accountId
  Db.applicationSetting.save rt row
  addRevision rt row value row.effectBoundary "restored" accountId
  reindexRestored rt deps area key
  let _ ← AuditService.append rt context "settings.restored" "success" (some "application_setting") (some row.id)
    [("area", .str area), ("key", .str key), ("from_revision", .int revisionNumber),
      ("version", .int row.version)]
  pure row

end SettingsService

end KajovoDagmar
