import KajovoDagmar.Providers.Catalogue

/-! # Secrets and their records

The encryption of a secret binds its purpose and its record into the associated data.  `decrypt` takes the
associated data from the stored value, so a value that was copied from another row is decrypted as well, and
the services do not compare the record.  With an ideal cipher, a secret that they obtain for a row was
encrypted for that row just when the stored value carries the associated data of the row. -/

namespace KajovoDagmar

/-- A call of `SecretCipher.encrypt`, with the nonce that it has drawn. -/
structure EncryptCall where
  nonce : List UInt8
  plaintext : String
  purpose : String
  recordId : String

namespace EncryptCall

variable (cipher : SecretCipher) (call : EncryptCall)

def aad : List UInt8 := cipher.associatedData call.purpose call.recordId

def ciphertext : List UInt8 := cipher.aes.encrypt call.nonce (utf8 call.plaintext) (call.aad cipher)

/-- What the call returns. -/
def value : EncryptedValue := cipher.encrypt call.nonce call.plaintext call.purpose call.recordId

/-- The value holds the nonce, the ciphertext and the associated data of the call together. -/
def Made (value : EncryptedValue) : Prop :=
  decodeField value.nonce = .ok call.nonce ∧ decodeField value.ciphertext = .ok (call.ciphertext cipher) ∧
  decodeField value.associatedData = .ok (call.aad cipher)

end EncryptCall

/-! ### The associated data -/

/-- The purposes that the services encrypt for. -/
def cipherPurposes : List String := ["provider_api_key", "smtp_password"]

namespace SecretCipher

variable {cipher : SecretCipher}

theorem associatedData_toList {purpose recordId purpose' recordId' : String}
    (h : cipher.associatedData purpose recordId = cipher.associatedData purpose' recordId') :
    purpose.toList ++ (':' :: recordId.toList) = purpose'.toList ++ (':' :: recordId'.toList) := by
  have htext := congrArg String.toList (utf8_injective h)
  simp only [String.toList_append, List.append_assoc] at htext
  have hrest := List.append_cancel_left htext
  have hcolon : ":".toList = [':'] := rfl
  simp only [hcolon, List.singleton_append] at hrest
  have hsplit : ∀ p r w : List Char, p ++ ':' :: (r ++ w) = (p ++ ':' :: r) ++ w := by
    intro p r w
    rw [List.append_assoc, List.cons_append]
  rw [hsplit, hsplit] at hrest
  exact List.append_cancel_right hrest

/-- The associated data determine the purpose and the record. -/
theorem associatedData_injective {purpose recordId purpose' recordId' : String}
    (hp : purpose ∈ cipherPurposes) (hp' : purpose' ∈ cipherPurposes)
    (h : cipher.associatedData purpose recordId = cipher.associatedData purpose' recordId') :
    purpose = purpose' ∧ recordId = recordId' := by
  have hlist := associatedData_toList h
  have hpurpose : purpose = purpose' := by
    have hhead : ∀ p ∈ cipherPurposes, ∀ q ∈ cipherPurposes, p.toList.head? = q.toList.head? → p = q := by
      decide
    have hsome : ∀ p ∈ cipherPurposes, ∀ rest, (p.toList ++ rest).head? = p.toList.head? := by
      intro p hpm rest
      have hne : ∀ p ∈ cipherPurposes, p.toList.head? ≠ none := by decide
      rw [List.head?_append]
      cases hcase : p.toList.head? with
      | none => exact absurd hcase (hne p hpm)
      | some c => rfl
    refine hhead purpose hp purpose' hp' ?_
    calc purpose.toList.head? = (purpose.toList ++ ':' :: recordId.toList).head? := (hsome _ hp _).symm
      _ = (purpose'.toList ++ ':' :: recordId'.toList).head? := by rw [hlist]
      _ = purpose'.toList.head? := hsome _ hp' _
  subst hpurpose
  have hrecord := List.cons.inj (List.append_cancel_left hlist)
  exact ⟨rfl, String.toList_injective hrecord.2⟩

end SecretCipher

/-! ### The ideal cipher -/

/-- The cipher under one key after the calls of `encrypt` that are `calls`: it decrypts what they have made,
and nothing else. -/
structure IdealCipher (cipher : SecretCipher) (calls : EncryptCall → Prop) : Prop where
  works : ∀ call, calls call →
    cipher.aes.decrypt call.nonce (call.ciphertext cipher) (call.aad cipher) = some (utf8 call.plaintext)
  only : ∀ nonce ciphertext aad plaintext, cipher.aes.decrypt nonce ciphertext aad = some plaintext →
    ∃ call, calls call ∧ call.nonce = nonce ∧ call.ciphertext cipher = ciphertext ∧
      call.aad cipher = aad ∧ utf8 call.plaintext = plaintext
  purposes : ∀ call, calls call → call.purpose ∈ cipherPurposes

namespace IdealCipher

variable {cipher : SecretCipher} {calls : EncryptCall → Prop}

/-- What a call has encrypted is read back from its JSON text. -/
theorem decryptStored_value (h : IdealCipher cipher calls) {call : EncryptCall} (hcall : calls call) :
    cipher.decryptStored (call.value cipher).toJson = .ok call.plaintext :=
  cipher.decryptStored_encrypt (h.works call hcall)

/-- Every text that is decrypted was encrypted by the call that made the value. -/
theorem exists_call (h : IdealCipher cipher calls) {value : EncryptedValue} {text : String}
    (hdecrypt : cipher.decrypt value = .ok text) :
    ∃ call, calls call ∧ call.Made cipher value ∧ call.plaintext = text := by
  obtain ⟨nonce, ciphertext, aad, plaintext, hnonce, hcipher, haad, hplain, htext⟩ :=
    SecretCipher.decrypt_eq_ok hdecrypt
  obtain ⟨call, hcall, rfl, rfl, rfl, rfl⟩ := h.only nonce ciphertext aad plaintext hplain
  refine ⟨call, hcall, ⟨hnonce, hcipher, haad⟩, ?_⟩
  rw [fromUtf8_utf8] at htext
  exact Option.some.inj htext

end IdealCipher

/-! ### The secrets that the services obtain -/

namespace Binding

open Catalogue (plainRuntime sampleRow)
open ProviderService (secretPurpose runtime revealKey decryptSecret liveSecret openaiTypes)
open NotificationService (mailer readPassword)

variable {rt : Runtime} {deps : ProviderDeps} {urlparse : String → Except Exc (Option String × Option ℕ)}
variable {calls : EncryptCall → Prop} {s s' : Session} {row : ProviderConfiguration} {purpose text : String}

/-- A call that succeeds obtains a text for a row: `runtime` and `reveal_key` a key, the mail service a
password. -/
inductive Obtains (rt : Runtime) (deps : ProviderDeps)
    (urlparse : String → Except Exc (Option String × Option ℕ)) (s : Session) :
    (purpose : String) → ProviderConfiguration → (text : String) → Prop
  | runtime {row : ProviderConfiguration} {baseUrl key : String} {s' : Session}
      (h : runtime deps row s = (.ok (.openaiCompatible baseUrl key), s')) :
      Obtains rt deps urlparse s "provider_api_key" row key
  | revealKey {providerId : Uuid} {context : AuditContext} {row : ProviderConfiguration} {key : String}
      {s' : Session} (hrow : s.db.providerConfigurations.find? providerId = some row)
      (h : revealKey rt deps providerId context s = (.ok key, s')) :
      Obtains rt deps urlparse s "provider_api_key" row key
  | mailer {choice : ℕ} {row : ProviderConfiguration} {cfg : SMTPConfiguration} {password : String} {s' : Session}
      (h : mailer deps urlparse choice s = (.ok (row, cfg), s')) (hpassword : cfg.password = some password) :
      Obtains rt deps urlparse s "smtp_password" row password

/-- The value that is stored for a row. -/
def Holds (db : Db) (row : ProviderConfiguration) (value : EncryptedValue) : Prop :=
  ∃ secretId secret, row.secretId = some secretId ∧ db.encryptedSecrets.find? secretId = some secret ∧
    EncryptedValue.fromJson secret.ciphertext = .ok value

/-- The text was encrypted for the row: the value stored for it was made by a call of `encrypt` with this
purpose and this record. -/
def EncryptedFor (rt : Runtime) (cipher : SecretCipher) (calls : EncryptCall → Prop) (db : Db) (purpose : String)
    (row : ProviderConfiguration) (text : String) : Prop :=
  ∃ call value, calls call ∧ Holds db row value ∧ call.Made cipher value ∧ call.plaintext = text ∧
    call.purpose = purpose ∧ call.recordId = rt.strUuid row.id

/-- The value stored for the row carries the associated data of the row. -/
def CarriesOwn (rt : Runtime) (cipher : SecretCipher) (db : Db) (purpose : String)
    (row : ProviderConfiguration) : Prop :=
  ∃ value, Holds db row value ∧
    decodeField value.associatedData = .ok (cipher.associatedData purpose (rt.strUuid row.id))

theorem Holds.unique {db : Db} {value value' : EncryptedValue} (h : Holds db row value)
    (h' : Holds db row value') : value = value' := by
  obtain ⟨secretId, secret, hid, hfind, hvalue⟩ := h
  obtain ⟨secretId', secret', hid', hfind', hvalue'⟩ := h'
  obtain rfl := Option.some.inj (hid.symm.trans hid')
  obtain rfl := Option.some.inj (hfind.symm.trans hfind')
  exact Except.ok.inj (hvalue.symm.trans hvalue')

theorem decryptSecret_eq_ok {secret : EncryptedSecret} (h : decryptSecret deps secret = .ok text) :
    deps.cipher.decryptStored secret.ciphertext = .ok text := by
  rw [decryptSecret] at h
  cases hstored : deps.cipher.decryptStored secret.ciphertext with
  | error code =>
    rw [hstored] at h
    cases h
  | ok key =>
    rw [hstored] at h
    cases h
    rfl

/-- What is decrypted from the secret of a row is the value that the row holds. -/
theorem holds_of_decryptSecret {secretId : Uuid} {secret : EncryptedSecret} (hid : row.secretId = some secretId)
    (hfind : s.db.encryptedSecrets.find? secretId = some secret) (h : decryptSecret deps secret = .ok text) :
    ∃ value, Holds s.db row value ∧ deps.cipher.decrypt value = .ok text := by
  obtain ⟨value, hvalue, hdecrypt⟩ := SecretCipher.decryptStored_eq_ok (decryptSecret_eq_ok h)
  exact ⟨value, ⟨secretId, secret, hid, hfind, hvalue⟩, hdecrypt⟩

theorem liveSecret_eq_ok {secretId : Uuid} {reason : String} {secret : EncryptedSecret}
    (h : liveSecret secretId reason s = (.ok secret, s')) :
    s.db.encryptedSecrets.find? secretId = some secret ∧ s' = s := by
  rw [liveSecret, Relation.find, Tx.gets_bind_apply] at h
  obtain ⟨hsome, rfl⟩ := Tx.orRaise_eq_ok h
  exact ⟨(Option.filter_eq_some_iff.mp hsome).1, rfl⟩

theorem runtime_obtains {baseUrl : String} (h : runtime deps row s = (.ok (.openaiCompatible baseUrl text), s')) :
    ∃ value, Holds s.db row value ∧ deps.cipher.decrypt value = .ok text := by
  rw [runtime] at h
  split at h
  · obtain ⟨-, hpure⟩ := Tx.raiseIf_bind_eq_ok h
    cases hpure
  · obtain ⟨secretId, hid, hrest⟩ := Tx.orRaise_bind_eq_ok h
    obtain ⟨secret, s₁, hlive, hrest⟩ := Tx.bind_eq_ok hrest
    obtain ⟨hfind, hstate⟩ := liveSecret_eq_ok hlive
    obtain ⟨key, s₂, hkey, hrest⟩ := Tx.bind_eq_ok hrest
    obtain ⟨hdecrypt, -⟩ := Prod.mk.inj hkey
    obtain ⟨-, hpure⟩ := Tx.raiseIf_bind_eq_ok hrest
    cases hpure
    exact holds_of_decryptSecret hid hfind hdecrypt

theorem revealKey_obtains {providerId : Uuid} {context : AuditContext}
    (hrow : s.db.providerConfigurations.find? providerId = some row)
    (h : revealKey rt deps providerId context s = (.ok text, s')) :
    ∃ value, Holds s.db row value ∧ deps.cipher.decrypt value = .ok text := by
  rw [revealKey, Relation.find, Tx.gets_bind_apply] at h
  obtain ⟨found, hfound, hrest⟩ := Tx.orRaise_bind_eq_ok h
  obtain rfl : row = found := Option.some.inj (hrow.symm.trans (Option.filter_eq_some_iff.mp hfound).1)
  obtain ⟨secretId, hid, hrest⟩ := Tx.orRaise_bind_eq_ok hrest
  obtain ⟨secret, s₁, hlive, hrest⟩ := Tx.bind_eq_ok hrest
  obtain ⟨hfind, -⟩ := liveSecret_eq_ok hlive
  obtain ⟨key, s₂, hkey, hrest⟩ := Tx.bind_eq_ok hrest
  obtain ⟨hdecrypt, -⟩ := Prod.mk.inj hkey
  obtain ⟨-, s₃, -, hpure⟩ := Tx.bind_eq_ok hrest
  cases hpure
  exact holds_of_decryptSecret hid hfind hdecrypt

theorem readPassword_obtains (h : readPassword deps row s = (.ok (some text), s')) :
    ∃ value, Holds s.db row value ∧ deps.cipher.decrypt value = .ok text := by
  rw [readPassword] at h
  cases hid : row.secretId with
  | none =>
    rw [hid] at h
    cases h
  | some secretId =>
    simp only [hid, Relation.find, Tx.gets_bind_apply] at h
    cases hlive : (s.db.encryptedSecrets.find? secretId).filter (fun x => x.revokedAt.isNone) with
    | none =>
      rw [show (Db.encryptedSecret.get s.db) = s.db.encryptedSecrets from rfl, hlive] at h
      cases h
    | some secret =>
      rw [show (Db.encryptedSecret.get s.db) = s.db.encryptedSecrets from rfl, hlive] at h
      obtain ⟨password, s₁, hpassword, hpure⟩ := Tx.bind_eq_ok h
      obtain ⟨hdecrypt, rfl⟩ := Prod.mk.inj hpassword
      cases hpure
      exact holds_of_decryptSecret hid (Option.filter_eq_some_iff.mp hlive).1 hdecrypt

theorem mailer_obtains {choice : ℕ} {cfg : SMTPConfiguration}
    (h : mailer deps urlparse choice s = (.ok (row, cfg), s')) (hpassword : cfg.password = some text) :
    ∃ value, Holds s.db row value ∧ deps.cipher.decrypt value = .ok text := by
  rw [mailer, NotificationService.smtpRow] at h
  obtain ⟨found, s₁, hfound, hrest⟩ := Tx.bind_eq_ok h
  obtain ⟨-, rfl⟩ := Prod.mk.inj hfound
  obtain ⟨row', -, hrest⟩ := Tx.orRaise_bind_eq_ok hrest
  obtain ⟨password, s₂, hread, hrest⟩ := Tx.bind_eq_ok hrest
  obtain ⟨url, s₃, hurl, hrest⟩ := Tx.bind_eq_ok hrest
  obtain ⟨-, hpure⟩ := Tx.raiseIf_bind_eq_ok hrest
  cases hpure
  obtain rfl : password = some text := hpassword
  exact readPassword_obtains hread

/-- A text that is obtained for a row is decrypted from the value that the row holds. -/
theorem Obtains.exists_value (h : Obtains rt deps urlparse s purpose row text) :
    purpose ∈ cipherPurposes ∧ ∃ value, Holds s.db row value ∧ deps.cipher.decrypt value = .ok text := by
  cases h with
  | runtime h => exact ⟨List.mem_cons_self, runtime_obtains h⟩
  | revealKey hrow h => exact ⟨List.mem_cons_self, revealKey_obtains hrow h⟩
  | mailer h hpassword => exact ⟨List.mem_cons_of_mem _ List.mem_cons_self, mailer_obtains h hpassword⟩

/-- **What is obtained for a row was encrypted for it just when the stored value carries the associated data of
the row**, whatever the tables hold; and what is encrypted is decrypted from its JSON text. -/
theorem obtained_encryptedFor_iff (rt : Runtime) (deps : ProviderDeps)
    (urlparse : String → Except Exc (Option String × Option ℕ)) (hideal : IdealCipher deps.cipher calls) :
    (∀ call, calls call → deps.cipher.decryptStored (call.value deps.cipher).toJson = .ok call.plaintext) ∧
    ∀ s purpose row text, Obtains rt deps urlparse s purpose row text →
      (EncryptedFor rt deps.cipher calls s.db purpose row text ↔ CarriesOwn rt deps.cipher s.db purpose row) := by
  refine ⟨fun call hcall => hideal.decryptStored_value hcall, fun s purpose row text hobtains => ?_⟩
  obtain ⟨hpurpose, value, hholds, hdecrypt⟩ := hobtains.exists_value
  constructor
  · rintro ⟨call, value', -, hholds', ⟨-, -, haad⟩, -, rfl, hrecord⟩
    refine ⟨value', hholds', ?_⟩
    rw [haad, EncryptCall.aad, hrecord]
  · rintro ⟨value', hholds', hown⟩
    obtain rfl := hholds.unique hholds'
    obtain ⟨call, hcall, hmade, htext⟩ := hideal.exists_call hdecrypt
    have haad := Except.ok.inj (hmade.2.2.symm.trans hown)
    obtain ⟨hpurposes, hrecord⟩ :=
      SecretCipher.associatedData_injective (hideal.purposes call hcall) hpurpose haad
    exact ⟨call, value, hcall, hholds, hmade, htext, hpurposes, hrecord⟩

/-! ### A copied secret -/

/-- The cipher whose one call was `call`. -/
def recording (call : EncryptCall) : SecretCipher where
  aes :=
    { encrypt := fun _ plaintext _ => plaintext
      decrypt := fun nonce ciphertext aad =>
        if nonce = call.nonce ∧ ciphertext = utf8 call.plaintext ∧
            aad = Secrets.plainCipher.associatedData call.purpose call.recordId then some ciphertext else none }
  tokenBytes _ := call.nonce

theorem recording_ideal {call : EncryptCall} (hpurpose : call.purpose ∈ cipherPurposes) :
    IdealCipher (recording call) (fun c => c = call) where
  works := by
    rintro c rfl
    exact if_pos ⟨rfl, rfl, rfl⟩
  only := by
    intro nonce ciphertext aad plaintext h
    have hcond := Option.ite_none_right_eq_some.mp h
    obtain ⟨⟨rfl, rfl, rfl⟩, hplain⟩ := hcond
    exact ⟨call, rfl, rfl, rfl, rfl, Option.some.inj hplain⟩
  purposes := by
    rintro c rfl
    exact hpurpose

/-- The key of a provider, encrypted for its configuration. -/
def keyOf (providerId : Uuid) : EncryptCall where
  nonce := List.replicate 12 0
  plaintext := "key"
  purpose := "provider_api_key"
  recordId := plainRuntime.strUuid providerId

/-- The configuration 5 with the secret that `call` has made. -/
def holding (call : EncryptCall) : Session where
  began := .utc 1767268800000000
  db :=
    { providerConfigurations := .singleton sampleRow
      encryptedSecrets := .singleton
        { id := 7, purpose := secretPurpose plainRuntime "provider" 5, keyVersion := 1, maskedHint := "••••"
          ciphertext := (call.value (recording call)).toJson } }

def recordingDeps (call : EncryptCall) : ProviderDeps := ⟨recording call, "production", fun _ => .ok []⟩

/-- `runtime` obtains the key from the secret, for whichever record it was encrypted. -/
theorem holding_obtains (urlparse : String → Except Exc (Option String × Option ℕ)) {call : EncryptCall}
    (hpurpose : call.purpose ∈ cipherPurposes) :
    Obtains plainRuntime (recordingDeps call) urlparse (holding call) "provider_api_key" sampleRow
      call.plaintext := by
  have hstored : (recordingDeps call).cipher.decryptStored (call.value (recording call)).toJson =
      .ok call.plaintext := (recording_ideal hpurpose).decryptStored_value rfl
  have htype : ¬sampleRow.providerType = "deterministic" := by decide
  have hsecret : sampleRow.secretId = some 7 := rfl
  have hlive : liveSecret 7 "Přístupové tajemství poskytovatele není dostupné." (holding call) =
      (.ok { id := 7, purpose := secretPurpose plainRuntime "provider" 5, keyVersion := 1, maskedHint := "••••"
             ciphertext := (call.value (recording call)).toJson }, holding call) := rfl
  have hruntime : runtime (recordingDeps call) sampleRow (holding call) =
      (.ok (.openaiCompatible sampleRow.baseUrl call.plaintext), holding call) := by
    rw [runtime, if_neg htype, hsecret, Tx.orRaise_some, Tx.pure_bind, Tx.bind_of_ok hlive, decryptSecret, hstored]
    rfl
  exact .runtime hruntime

theorem strUuid_ne : plainRuntime.strUuid 8 ≠ plainRuntime.strUuid 5 := by
  intro h
  have hread : ∀ n : ℕ, n < 16 ^ 32 → Runtime.parseUuidText (Runtime.uuidText n) = some n :=
    fun n hn => Runtime.parseUuidText_of_lt hn
  have htext : Runtime.uuidText 8 = Runtime.uuidText 5 := h
  have hparse := congrArg Runtime.parseUuidText htext
  rw [hread 8 (by omega), hread 5 (by omega)] at hparse
  exact absurd hparse (by decide)

/-- The secret of the configuration 8 is copied to the configuration 5, which then obtains its key. -/
theorem obtained_copied : ¬∀ (rt : Runtime) (deps : ProviderDeps)
    (urlparse : String → Except Exc (Option String × Option ℕ)) (calls : EncryptCall → Prop) (s : Session)
    (purpose : String) (row : ProviderConfiguration) (text : String), IdealCipher deps.cipher calls →
    Obtains rt deps urlparse s purpose row text →
    ∃ call, calls call ∧ call.plaintext = text ∧ call.purpose = purpose ∧ call.recordId = rt.strUuid row.id := by
  intro h
  have hpurpose : (keyOf 8).purpose ∈ cipherPurposes := List.mem_cons_self
  obtain ⟨call, rfl, -, -, hrecord⟩ := h plainRuntime (recordingDeps (keyOf 8)) (fun _ => .ok (none, none)) _
    (holding (keyOf 8)) _ _ _ (recording_ideal hpurpose) (holding_obtains _ hpurpose)
  exact strUuid_ne hrecord

/-- The configuration 5 obtains the key that was encrypted for it. -/
theorem obtained_encryptedFor_own :
    Obtains plainRuntime (recordingDeps (keyOf 5)) (fun _ => .ok (none, none)) (holding (keyOf 5))
      "provider_api_key" sampleRow "key" ∧
    EncryptedFor plainRuntime (recording (keyOf 5)) (fun call => call = keyOf 5) (holding (keyOf 5)).db
      "provider_api_key" sampleRow "key" := by
  have hpurpose : (keyOf 5).purpose ∈ cipherPurposes := List.mem_cons_self
  have hobtains := holding_obtains (fun _ => .ok (none, none)) hpurpose
  have hbound := (obtained_encryptedFor_iff plainRuntime (recordingDeps (keyOf 5)) (fun _ => .ok (none, none))
    (recording_ideal hpurpose)).2 _ _ _ _ hobtains
  refine ⟨hobtains, hbound.mpr ⟨(keyOf 5).value (recording (keyOf 5)), ⟨7, _, rfl, rfl, ?_⟩, ?_⟩⟩
  · exact fromJson_toJson _ _ _ _
  · exact decodeField_encodeField _

end Binding

end KajovoDagmar
