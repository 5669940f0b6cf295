import KajovoDagmar.Providers.ModelRoles
import KajovoDagmar.Settings.Service

/-! # Recommended models

`ModelRecommendationService`: the models of a provider for each role, the best of them first, and the
selection of the best ones.  The selection writes the settings itself. -/

namespace KajovoDagmar

structure ModelOption where
  id : String
  displayName : String
  externalId : String
  recommended : Bool
  recommendationReason : String

structure RoleOptions where
  role : String
  recommendedModelId : Option String
  selectedModelId : Json
  status : String
  options : List ModelOption

structure ModelOptions where
  providerId : String
  providerVerified : Bool
  catalogRefreshedAt : Option String
  catalogState : String
  roles : List RoleOptions

namespace ModelRecommendationService

open ModelRoles SettingsCatalog SettingsService

variable (rt : Runtime)

/-- The comparison of texts by their characters. -/
def textBefore (a b : String) : Bool := a.toList < b.toList

/-- `a <= b` for the sort keys `(recommendation_rank(role, external_id), external_id)`. -/
def ranked (role : String) (a b : ModelCatalogEntry) : Bool :=
  let (i, x) := recommendationRank rt.casefold role a.externalId
  let (j, y) := recommendationRank rt.casefold role b.externalId
  i < j || i = j && (textBefore x y || x = y && !textBefore b.externalId a.externalId)

/-- The entries of a role, the best first. -/
def relevant (entries : List ModelCatalogEntry) (role : String) : List ModelCatalogEntry :=
  (entries.filter fun e => e.role = role).insertionSort fun a b => ranked rt role a b = true

def reason (role modelId : String) : String :=
  if (preferences role).head? = some modelId then
    if role = "conversation_model" then "Vyvážená rychlost a kvalita pro živý rozhovor."
    else if role = "transcription_model" then "Přesný převod řeči pro běžný hlasový rozhovor."
    else if role = "speech_model" then "Přirozená a rychlá hlasová syntéza."
    else if role = "embedding_model" then "Nejlepší dostupná přesnost významového hledání."
    else "Rychlý a úsporný model pro názvy a shrnutí."
  else "Kompatibilní záložní volba podle doporučovací politiky."

def optionOf (role : String) (recommended : Option ModelCatalogEntry) (e : ModelCatalogEntry) : ModelOption :=
  { id := rt.strUuid e.id
    displayName := e.displayName
    externalId := e.externalId
    recommended := recommended.any fun r => r.id = e.id
    recommendationReason := reason role e.externalId }

/-- The options for a role. -/
def roleOptions (entries : List ModelCatalogEntry) (role : String) : Work RoleOptions := do
  let models := relevant rt entries role
  let recommended := models.head?
  let selected ← findSetting "models" role
  pure
    { role := role
      recommendedModelId := recommended.map fun e => rt.strUuid e.id
      selectedModelId := previousValue selected
      status := if models = [] then "missing_supported_model" else "ready"
      options := models.map (optionOf rt role recommended) }

def notFound : Exc := .domain { code := "not_found", message := "Poskytovatel nebyl nalezen.", statusCode := 404 }

def modelOptions (providerId : Uuid) : Work ModelOptions := do
  let found ← Db.providerConfiguration.find providerId
  let provider ← Tx.orRaise found notFound
  let entries ← Db.modelCatalogEntry.select fun e => e.providerId = providerId ∧ e.available
  let roles ← Tx.forEach (roleOptions rt entries) roleOrder
  pure
    { providerId := rt.strUuid provider.id
      providerVerified := provider.verificationState = "verified"
      catalogRefreshedAt := provider.catalogRefreshedAt.map rt.isoformat
      catalogState := provider.catalogState
      roles := roles }

/-- `_set_setting`. -/
def setSetting (accountId : Uuid) (key value : String) : Work PUnit := do
  let d ← Tx.orRaise (byKey "models" key) (.other "KeyError")
  let found ← findSetting "models" key
  let row ← storeSetting rt d (.str value) accountId found
  addRevision rt row (.str value) d.effectBoundary "automatic_recommendation" accountId

/-- The recommended model of a role is selected, if there is one. -/
def applyRole (accountId : Uuid) (role : RoleOptions) : Work (List (String × String)) :=
  match role.recommendedModelId with
  | none => pure []
  | some modelId => do
    setSetting rt accountId role.role modelId
    pure [(role.role, modelId)]

def applyRecommended (providerId accountId : Uuid) (context : AuditContext) :
    Work (List (String × String) × ModelOptions) := do
  let options ← modelOptions rt providerId
  let changes ← Tx.forEach (applyRole rt accountId) options.roles
  let changes := changes.flatten
  let _ ← AuditService.append rt context "models.recommendations_applied" "success"
    (some "provider_configuration") (some providerId)
    [("policy_version", .str policyVersion),
      ("roles_changed", .arr ((PythonText.sortedSet (changes.map Prod.fst)).map .str))]
  pure (changes, options)

end ModelRecommendationService

end KajovoDagmar
