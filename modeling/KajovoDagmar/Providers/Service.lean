import KajovoDagmar.Audit.Service
import KajovoDagmar.Providers.ModelRoles
import KajovoDagmar.Security.Crypto

/-! # Provider configurations

`ProviderService`: saving a configuration with its secret, revoking and revealing the secret, and refreshing
the catalogue of models.  The session does not flush before a query, so the queries of `verify` do not see
the entries that it has added; they are flushed together by the audit event at its end. -/

namespace KajovoDagmar

/-- `OpenAICompatibleProvider` or `DeterministicProvider`. -/
inductive AIProvider where
  | openaiCompatible (baseUrl apiKey : String)
  | deterministic

/-- What the services of providers depend on: the cipher, `get_settings().environment` and the models that a
provider lists. -/
structure ProviderDeps where
  cipher : SecretCipher
  environment : String
  listModels : AIProvider → Except Exc (List ProviderModel)

namespace ProviderService

variable (rt : Runtime) (deps : ProviderDeps)

/-! ### Secrets -/

/-- `value[-4:]`. -/
def lastFour (value : String) : String := String.ofList (value.toList.drop (value.length - 4))

/-- `_mask`. -/
def mask (value : String) : String := if 4 ≤ value.length then "••••" ++ lastFour value else "••••"

def newNonce : Work (List UInt8) :=
  Tx.modifyGet fun s => (deps.cipher.tokenBytes s.tick, { s with tick := s.tick + 1 })

/-- A configuration written back, with the unique constraint checked. -/
def putProvider (row : ProviderConfiguration) : Work PUnit := do
  let others ← Db.providerConfiguration.select fun x => x.id ≠ row.id
  Tx.raiseSome ((others.findSome? (Db.providerConfiguration.clash row)).map .integrity)
  Db.providerConfiguration.save rt row

/-- The purpose of the secrets of a configuration. -/
def secretPurpose (service : String) (providerId : Uuid) : String := service ++ ":" ++ rt.strUuid providerId

/-- The new secret of a configuration, encrypted for it and stored in its row. -/
def addSecret (cipherPurpose service hint value : String) (row : ProviderConfiguration) :
    Work ProviderConfiguration := do
  let nonce ← newNonce deps
  let encrypted := deps.cipher.encrypt nonce value cipherPurpose (rt.strUuid row.id)
  let secretId ← newUuid rt
  Db.encryptedSecret.add rt
    { id := secretId
      purpose := secretPurpose rt service row.id
      ciphertext := encrypted.toJson
      keyVersion := deps.cipher.keyVersion
      maskedHint := hint }
  putProvider rt { row with secretId := some secretId }
  pure { row with secretId := some secretId }

/-- `revoked_at` of a secret that is still there. -/
def revokeSecret (secretId : Uuid) : Work PUnit := do
  let secret ← Db.encryptedSecret.find secretId
  match secret with
  | none => pure ⟨⟩
  | some secret => do
    let now ← utcNow rt
    Db.encryptedSecret.save rt { secret with revokedAt := some now }

def revokeOptional (secretId : Option Uuid) : Work PUnit :=
  match secretId with
  | none => pure ⟨⟩
  | some secretId => revokeSecret rt secretId

/-! ### Saving -/

structure SaveProvider where
  providerId : Option Uuid
  providerType : String
  displayName : String
  baseUrl : String
  apiKey : Option String
  expectedVersion : ℤ
  context : AuditContext

/-- A text that is given and not empty. -/
def given (value : Option String) : Option String := value.filter (· ≠ "")

/-- `session.get(ProviderConfiguration, provider_id)` if there is an identifier. -/
def findProvider (providerId : Option Uuid) : Work (Option ProviderConfiguration) :=
  match providerId with
  | none => pure none
  | some providerId => Db.providerConfiguration.find providerId

/-- The configuration with the values of the request, new or changed. -/
def saveRow (a : SaveProvider) (found : Option ProviderConfiguration) : Work ProviderConfiguration :=
  match found with
  | none => do
    let id ← newUuid rt
    let row : ProviderConfiguration :=
      { id := id, providerType := a.providerType, displayName := a.displayName, baseUrl := a.baseUrl
        enabled := false }
    Db.providerConfiguration.add rt row
    pure row
  | some row => do
    let row := { row with
      providerType := a.providerType
      displayName := a.displayName
      baseUrl := a.baseUrl
      version := row.version + 1
      verificationState := "not_verified" }
    putProvider rt row
    pure row

/-- The given key replaces the old secret, which is revoked. -/
def replaceKey (apiKey : Option String) (oldSecretId : Option Uuid) (row : ProviderConfiguration) :
    Work ProviderConfiguration :=
  match given apiKey with
  | none => pure row
  | some key => do
    let row ← addSecret rt deps "provider_api_key" "provider" (mask key) key row
    revokeOptional rt oldSecretId
    pure row

def save (a : SaveProvider) : Work ProviderConfiguration := do
  let found ← findProvider a.providerId
  Tx.raiseIf (found.any (fun row => row.version ≠ a.expectedVersion) = true)
    (.domain (.conflict "Konfigurace poskytovatele byla mezitím změněna."))
  let row ← saveRow rt a found
  let row ← replaceKey rt deps a.apiKey (found.bind ProviderConfiguration.secretId) row
  let _ ← AuditService.append rt a.context "provider.configuration_saved" "success" none (some row.id)
    [("provider_type", .str a.providerType), ("secret_replaced", .bool (given a.apiKey).isSome)]
  pure row

def revokeKey (providerId : Uuid) (context : AuditContext) : Work PUnit := do
  let found ← Db.providerConfiguration.find providerId
  let row ← Tx.orRaise found (.domain (.notFound "Poskytovatel nebyl nalezen."))
  revokeOptional rt row.secretId
  putProvider rt { row with
    secretId := none
    enabled := false
    verificationState := "not_verified"
    version := row.version + 1 }
  let _ ← AuditService.append rt context "provider.secret_revoked" "success" none (some row.id)
    [("provider_type", .str row.providerType)]
  pure ⟨⟩

/-! ### Using the secret -/

/-- The decrypted text of a secret. -/
def decryptSecret (secret : EncryptedSecret) : Except Exc String :=
  match deps.cipher.decryptStored secret.ciphertext with
  | .ok text => .ok text
  | .error code => .error (.other code)

/-- The secret of a configuration that is there and not revoked. -/
def liveSecret (secretId : Uuid) (reason : String) : Work EncryptedSecret := do
  let secret ← Db.encryptedSecret.find secretId
  Tx.orRaise (secret.filter fun s => s.revokedAt.isNone) (.domain (.capabilityUnavailable "provider" reason))

def openaiTypes : List String := ["openai", "openai_compatible"]

def revealKey (providerId : Uuid) (context : AuditContext) : Work String := do
  let found ← Db.providerConfiguration.find providerId
  let row ← Tx.orRaise (found.filter fun row => row.providerType ∈ openaiTypes)
    (.domain (.notFound "Poskytovatel nebyl nalezen."))
  let secretId ← Tx.orRaise row.secretId
    (.domain (.capabilityUnavailable "provider" "API klíč není uložen."))
  let secret ← liveSecret secretId "API klíč není dostupný."
  let key ← Tx.ofExcept (decryptSecret deps secret)
  let _ ← AuditService.append rt context "provider.secret_revealed" "success" none (some row.id)
    [("provider_type", .str row.providerType)]
  pure key

/-- `runtime`. -/
def runtime (row : ProviderConfiguration) : Work AIProvider :=
  if row.providerType = "deterministic" then do
    Tx.raiseIf (deps.environment ≠ "test") (.domain (.capabilityUnavailable "provider"
      "Deterministický provider je povolen pouze v testovacím prostředí."))
    pure .deterministic
  else do
    let secretId ← Tx.orRaise row.secretId
      (.domain (.capabilityUnavailable "provider" "Poskytovatel nemá uložený přístupový klíč."))
    let secret ← liveSecret secretId "Přístupové tajemství poskytovatele není dostupné."
    let key ← Tx.ofExcept (decryptSecret deps secret)
    Tx.raiseIf (row.providerType ∉ openaiTypes) (.domain (.capabilityUnavailable "provider"
      "Typ poskytovatele není podporován touto verzí."))
    pure (.openaiCompatible row.baseUrl key)

/-! ### The catalogue -/

/-- A role of a listed model, with what its classification says. -/
structure Listed where
  externalId : String
  displayName : String
  role : String
  capabilities : List (String × Bool)

/-- The roles of a listed model, in the order of `sorted`. -/
def listedRoles (model : ProviderModel) : List Listed :=
  let classified := ModelRoles.classifyModel rt.casefold model.externalId model.displayName model.capabilities
  (PythonText.sortedSet classified.roles).map fun role =>
    ⟨model.externalId, model.displayName, role, classified.capabilities⟩

/-- The classification of the listed models. -/
def classification (models : List ProviderModel) : List Listed := models.flatMap (listedRoles rt)

/-- The capabilities as they are stored. -/
def capabilitiesJson (capabilities : List (String × Bool)) : Json :=
  .obj (capabilities.map fun kv => (kv.1, .bool kv.2))

/-- The query for an entry of the catalogue. -/
def isEntry (providerId : Uuid) (x : Listed) (e : ModelCatalogEntry) : Bool :=
  e.providerId = providerId ∧ e.externalId = x.externalId ∧ e.role = x.role

/-- The changes of an entry that is found. -/
def relisted (x : Listed) (now : DateTime) (e : ModelCatalogEntry) : ModelCatalogEntry :=
  { e with
    displayName := x.displayName
    capabilities := capabilitiesJson x.capabilities
    available := true
    lastSeenAt := now }

def newEntry (providerId id : Uuid) (x : Listed) (now : DateTime) : ModelCatalogEntry :=
  { id := id
    providerId := providerId
    externalId := x.externalId
    displayName := x.displayName
    role := x.role
    capabilities := capabilitiesJson x.capabilities
    available := true
    lastSeenAt := now }

/-- What the loop over the classified models has collected: the entries that it has added to the session, and
the catalogue. -/
structure Collected where
  pending : List ModelCatalogEntry := []
  catalog : List ModelCatalogEntry := []

/-- One turn of the loop; the rows in the database do not hold what is pending. -/
def listEntry (providerId : Uuid) (collected : Collected) (x : Listed) : Work Collected := do
  let found ← Db.modelCatalogEntry.select (isEntry providerId x)
  match found.head? with
  | none => do
    let id ← newUuid rt
    let began ← Tx.gets Session.began
    let entry := newEntry providerId id x began
    pure ⟨collected.pending ++ [entry], collected.catalog ++ [entry]⟩
  | some entry => do
    let now ← utcNow rt
    Db.modelCatalogEntry.save rt (relisted x now entry)
    pure ⟨collected.pending, collected.catalog ++ [relisted x now entry]⟩

def listEntries (providerId : Uuid) : Collected → List Listed → Work Collected
  | collected, [] => pure collected
  | collected, x :: rest => do
    let collected ← listEntry rt providerId collected x
    listEntries providerId collected rest

/-- `existing.available = False`. -/
def hideEntry (entry : ModelCatalogEntry) : Work PUnit :=
  Db.modelCatalogEntry.save rt { entry with available := false }

/-- The flush of the added entries. -/
def flushEntries (pending : List ModelCatalogEntry) : Work PUnit := do
  let _ ← Tx.forEach (Db.modelCatalogEntry.add rt) pending
  pure ⟨⟩

/-- The record of a failed verification. -/
def recordFailure (row : ProviderConfiguration) (catalogState reason : String) (context : AuditContext) :
    Work PUnit := do
  putProvider rt { row with catalogState := catalogState }
  let _ ← AuditService.append rt context "provider.verification_failed" "failure" none (some row.id)
    [("reason", .str reason)]
  pure ⟨⟩

/-- The models that the provider lists; a failure to list them is recorded and raised. -/
def fetchModels (row : ProviderConfiguration) (provider : AIProvider) (context : AuditContext) :
    Work (List ProviderModel) :=
  Tx.handle (Tx.ofExcept (deps.listModels provider)) fun e => do
    recordFailure rt row "stale_error" "catalog_refresh_failed" context
    Tx.raise e

/-- An empty list is recorded and refused. -/
def requireModels (row : ProviderConfiguration) (models : List ProviderModel) (context : AuditContext) :
    Work PUnit :=
  if models = [] then do
    recordFailure rt row "empty" "empty_catalog" context
    Tx.raise (.domain
      { code := "empty_model_catalog", message := "Poskytovatel vrátil prázdnou nabídku modelů."
        statusCode := 503 })
  else pure ⟨⟩

/-- The configuration of a verified provider. -/
def markVerified (row : ProviderConfiguration) : Work ProviderConfiguration := do
  let verifiedAt ← utcNow rt
  let refreshedAt ← utcNow rt
  let row := { row with
    verificationState := "verified"
    verifiedAt := some verifiedAt
    enabled := true
    catalogRefreshedAt := some refreshedAt
    catalogState := "ready" }
  putProvider rt row
  pure row

def verify (providerId : Uuid) (context : AuditContext) : Work (List ModelCatalogEntry) := do
  let found ← Db.providerConfiguration.find providerId
  let row ← Tx.orRaise found (.domain (.notFound "Poskytovatel nebyl nalezen."))
  let provider ← runtime deps row
  let models ← fetchModels rt deps row provider context
  requireModels rt row models context
  let row ← markVerified rt row
  let previous ← Db.modelCatalogEntry.select fun e => e.providerId = row.id
  let _ ← Tx.forEach (hideEntry rt) previous
  let collected ← listEntries rt row.id {} (classification rt models)
  flushEntries rt collected.pending
  let _ ← AuditService.append rt context "provider.verified" "success" none (some row.id)
    [("model_count", .int models.length), ("role_option_count", .int collected.catalog.length)]
  pure collected.catalog

end ProviderService

end KajovoDagmar
