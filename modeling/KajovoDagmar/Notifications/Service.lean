import KajovoDagmar.Providers.Service

/-! # The mail service

The part of `NotificationService` that keeps the configuration of the outgoing mail and its password: saving
it, deleting it, and reading the password for a delivery. -/

namespace KajovoDagmar

structure SMTPConfiguration where
  host : String
  port : ℤ
  username : Json
  password : Option String
  sender : String
  useStarttls : Bool

namespace NotificationService

open ProviderService (given mask addSecret revokeOptional putProvider decryptSecret)

variable (rt : Runtime) (deps : ProviderDeps)

/-- `session.scalar(select(ProviderConfiguration).where(provider_type == "smtp"))`, where `choice` tells which
of several rows the database returns first. -/
def smtpRow (choice : ℕ) : Work (Option ProviderConfiguration) := do
  let rows ← Db.providerConfiguration.select fun row => row.providerType = "smtp"
  pure rows[choice % rows.length]?

structure SaveSmtp where
  displayName : String
  host : String
  port : ℤ
  username : Option String
  password : Option String
  sender : String
  useStarttls : Bool
  context : AuditContext
  choice : ℕ := 0

def smtpUrl (a : SaveSmtp) : String := "smtp://" ++ a.host ++ ":" ++ toString a.port

def smtpCapabilities (a : SaveSmtp) : Json :=
  .obj [("username", .ofStr? a.username), ("sender", .str a.sender), ("use_starttls", .bool a.useStarttls)]

/-- The configuration with the values of the request, new or changed. -/
def smtpSaved (a : SaveSmtp) (found : Option ProviderConfiguration) : Work ProviderConfiguration :=
  match found with
  | none => do
    let id ← newUuid rt
    let row : ProviderConfiguration :=
      { id := id, providerType := "smtp", displayName := a.displayName, baseUrl := smtpUrl a
        enabled := false, verificationState := "not_verified", capabilities := smtpCapabilities a }
    Db.providerConfiguration.add rt row
    pure row
  | some row => do
    let row := { row with
      displayName := a.displayName
      baseUrl := smtpUrl a
      version := row.version + 1
      enabled := false
      verificationState := "not_verified"
      capabilities := smtpCapabilities a }
    putProvider rt row
    pure row

/-- The given password is encrypted for the row; the secret that it had before is left as it is. -/
def replacePassword (password : Option String) (row : ProviderConfiguration) : Work ProviderConfiguration :=
  match given password with
  | none => pure row
  | some password => addSecret rt deps "smtp_password" "smtp" (mask password) password row

def saveSmtp (a : SaveSmtp) : Work ProviderConfiguration := do
  Tx.raiseIf (¬(1 ≤ a.port ∧ a.port ≤ 65535))
    (.domain { code := "smtp_port_invalid", message := "Port SMTP není platný.", statusCode := 422 })
  let found ← smtpRow a.choice
  let row ← smtpSaved rt a found
  let row ← replacePassword rt deps a.password row
  let _ ← AuditService.append rt a.context "notifications.smtp_saved" "success" none (some row.id)
    [("host", .str a.host), ("port", .int a.port), ("password_replaced", .bool (given a.password).isSome)]
  pure row

/-- `session.delete(row)`, with the rows that the database deletes with it. -/
def deleteProvider (row : ProviderConfiguration) : Work PUnit :=
  Tx.modify fun s => { s with db := { s.db with
    providerConfigurations := s.db.providerConfigurations.filter fun x => x.id ≠ row.id
    modelCatalogEntries := s.db.modelCatalogEntries.filter fun e => e.providerId ≠ row.id } }

def deleteSmtp (choice : ℕ) (context : AuditContext) : Work PUnit := do
  let found ← smtpRow choice
  match found with
  | none => pure ⟨⟩
  | some row => do
    deleteProvider row
    revokeOptional rt row.secretId
    let _ ← AuditService.append rt context "notifications.smtp_deleted" "success"
      (some "provider_configuration") (some row.id) [("secret_removed", .bool row.secretId.isSome)]
    pure ⟨⟩

/-- The password of a row, if its secret is there and not revoked. -/
def readPassword (row : ProviderConfiguration) : Work (Option String) :=
  match row.secretId with
  | none => pure none
  | some secretId => do
    let secret ← Db.encryptedSecret.find secretId
    match secret.filter fun s => s.revokedAt.isNone with
    | none => pure none
    | some secret => do
      let password ← Tx.ofExcept (decryptSecret deps secret)
      pure (some password)

/-- `_mailer`; `urlparse` gives the host name and the port of a URL. -/
def mailer (urlparse : String → Except Exc (Option String × Option ℕ)) (choice : ℕ) :
    Work (ProviderConfiguration × SMTPConfiguration) := do
  let found ← smtpRow choice
  let row ← Tx.orRaise found
    (.domain (.capabilityUnavailable "email" "Odchozí e-mailová služba není nastavena."))
  let password ← readPassword deps row
  let (hostname, port) ← Tx.ofExcept (urlparse row.baseUrl)
  let useStarttls := (row.capabilities.getD "use_starttls" (.bool true)).truthy && port != some 465
  let cfg : SMTPConfiguration :=
    { host := hostname.getD ""
      port := ((port.filter (· ≠ 0)).getD 587 : ℕ)
      username := row.capabilities.getD "username" .null
      password := password
      sender := match row.capabilities.getD "sender" (.str "") with
        | .str sender => sender
        | _ => ""
      useStarttls := useStarttls }
  Tx.raiseIf (cfg.host = "" ∨ cfg.sender = "")
    (.domain (.capabilityUnavailable "email" "Konfigurace odchozí pošty není úplná."))
  pure (row, cfg)

end NotificationService

end KajovoDagmar
