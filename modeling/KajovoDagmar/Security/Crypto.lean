import KajovoDagmar.Library.Base64
import KajovoDagmar.Library.JsonParser

/-! # Encrypted values

A secret is stored as the JSON text of an `EncryptedValue`: nonce, ciphertext and associated data, each in
base64.  `encrypt` binds the purpose and the record of the secret into the associated data; `decrypt` takes
the associated data from the value itself.

An exception of `from_json` or `decrypt` is given by the name of its class. -/

namespace KajovoDagmar

/-! ### Bytes of texts -/

/-- `s.encode()`. -/
def utf8 (s : String) : List UInt8 := s.toUTF8.data.toList

/-- `bs.decode()`, or `none` for a `UnicodeDecodeError`. -/
def fromUtf8 (bs : List UInt8) : Option String := String.fromUTF8? ⟨bs.toArray⟩

theorem fromUtf8_utf8 (s : String) : fromUtf8 (utf8 s) = some s := by
  have hbytes : (⟨(utf8 s).toArray⟩ : ByteArray) = s.toUTF8 := by
    rw [utf8, Array.toArray_toList]
  rw [fromUtf8, hbytes]
  exact dif_pos s.isValidUTF8

/-- A text is determined by its bytes. -/
theorem utf8_injective {s t : String} (h : utf8 s = utf8 t) : s = t := by
  have hread := congrArg fromUtf8 h
  rw [fromUtf8_utf8, fromUtf8_utf8] at hread
  exact Option.some.inj hread

/-! ### The cipher -/

/-- `AESGCM` with a key. -/
structure AesGcm where
  encrypt : (nonce plaintext associatedData : List UInt8) → List UInt8
  /-- `none` for `InvalidTag`. -/
  decrypt : (nonce ciphertext associatedData : List UInt8) → Option (List UInt8)

/-- The fields are not checked when a value is read from JSON. -/
structure EncryptedValue where
  keyVersion : Json
  nonce : Json
  ciphertext : Json
  associatedData : Json

namespace EncryptedValue

def toJson (value : EncryptedValue) : String :=
  Json.dumpsAscii (.obj
    [("key_version", value.keyVersion), ("nonce", value.nonce), ("ciphertext", value.ciphertext),
      ("associated_data", value.associatedData)])

/-- `cls(**data)`. -/
def ofData (data : Json) : Except String EncryptedValue :=
  match data with
  | .obj kvs =>
    match data.get? "key_version", data.get? "nonce", data.get? "ciphertext", data.get? "associated_data" with
    | some keyVersion, some nonce, some ciphertext, some associatedData =>
      if kvs.length = 4 then .ok ⟨keyVersion, nonce, ciphertext, associatedData⟩ else .error "TypeError"
    | _, _, _, _ => .error "TypeError"
  | _ => .error "TypeError"

def fromJson (value : String) : Except String EncryptedValue :=
  match Json.loads value with
  | some data => ofData data
  | none => .error "JSONDecodeError"

end EncryptedValue

/-- `base64.urlsafe_b64decode` of a field. -/
def decodeField (field : Json) : Except String (List UInt8) :=
  match field with
  | .str s =>
    match Base64.decode s with
    | some bs => .ok bs
    | none => if s.toList.all (fun c => c.toNat < 128) then .error "Error" else .error "ValueError"
  | _ => .error "TypeError"

def encodeField (bs : List UInt8) : Json := .str (String.ofList (Base64.encode bs))

structure SecretCipher where
  aes : AesGcm
  keyVersion : ℤ := 1
  /-- `secrets.token_bytes(12)` at each call. -/
  tokenBytes : ℕ → List UInt8

namespace SecretCipher

variable (cipher : SecretCipher)

/-- The associated data of a secret with a purpose and a record. -/
def associatedData (purpose recordId : String) : List UInt8 :=
  utf8 ("kajovodagmar:" ++ purpose ++ ":" ++ recordId ++ ":v" ++ toString cipher.keyVersion)

def encrypt (nonce : List UInt8) (plaintext purpose recordId : String) : EncryptedValue :=
  let aad := cipher.associatedData purpose recordId
  { keyVersion := .int cipher.keyVersion
    nonce := encodeField nonce
    ciphertext := encodeField (cipher.aes.encrypt nonce (utf8 plaintext) aad)
    associatedData := encodeField aad }

def decrypt (value : EncryptedValue) : Except String String := do
  let nonce ← decodeField value.nonce
  let ciphertext ← decodeField value.ciphertext
  let aad ← decodeField value.associatedData
  match cipher.aes.decrypt nonce ciphertext aad with
  | none => .error "InvalidTag"
  | some plaintext =>
    match fromUtf8 plaintext with
    | none => .error "UnicodeDecodeError"
    | some s => .ok s

/-- `decrypt(EncryptedValue.from_json(stored))`. -/
def decryptStored (stored : String) : Except String String := do
  let value ← EncryptedValue.fromJson stored
  cipher.decrypt value

end SecretCipher

/-! ### What is stored is read back -/

theorem decodeField_encodeField (bs : List UInt8) : decodeField (encodeField bs) = .ok bs := by
  rw [encodeField, decodeField, Base64.decode_encode]

theorem printable_encode (bs : List UInt8) :
    ∀ c ∈ Json.quote (String.ofList (Base64.encode bs)), Json.Printable c := by
  refine Json.printable_quote fun c hc => ?_
  rw [String.toList_ofList] at hc
  exact Base64.encode_ascii bs c hc

/-- The JSON text of an encrypted value is read back. -/
theorem fromJson_toJson (keyVersion : ℤ) (nonce ciphertext aad : List UInt8) :
    let value : EncryptedValue :=
      ⟨.int keyVersion, encodeField nonce, encodeField ciphertext, encodeField aad⟩
    EncryptedValue.fromJson value.toJson = .ok value := by
  intro value
  let data : Json := .obj
    [("key_version", value.keyVersion), ("nonce", value.nonce), ("ciphertext", value.ciphertext),
      ("associated_data", value.associatedData)]
  have hprintable : ∀ c ∈ data.chars, Json.Printable c := by
    have hplain : ∀ c ∈ ['\x7b', '\x7d', ':', ','], Json.Printable c := by
      intro c hc
      simp only [List.mem_cons, List.not_mem_nil, or_false] at hc
      rcases hc with rfl | rfl | rfl | rfl <;> exact ⟨by decide, by decide⟩
    have hkeys : ∀ k ∈ ["key_version", "nonce", "ciphertext", "associated_data"], ∀ c ∈ Json.quote k,
        Json.Printable c := by
      have hall : ∀ k ∈ ["key_version", "nonce", "ciphertext", "associated_data"], ∀ c ∈ k.toList,
          Json.Printable c := by
        intro k hk
        simp only [List.mem_cons, List.not_mem_nil, or_false] at hk
        rcases hk with rfl | rfl | rfl | rfl <;> exact List.all_iff_forall_prop.mp (by decide)
      exact fun k hk => Json.printable_quote (hall k hk)
    intro c hc
    simp only [data, value, encodeField, Json.chars, Json.charsEntries, List.mem_cons, List.mem_append,
      List.not_mem_nil, or_false] at hc
    rcases hc with rfl | ((hc | rfl | hc | rfl | hc | rfl | hc | rfl | hc | rfl | hc | rfl | hc | rfl | hc) | rfl)
    all_goals first
      | exact hplain _ (by decide)
      | exact hkeys _ (by decide) c hc
      | exact Json.printable_int keyVersion c hc
      | exact printable_encode _ c hc
  have hexact : data.Exact := by
    have hkeys : ["key_version", "nonce", "ciphertext", "associated_data"].Nodup := by decide
    refine ⟨hkeys, ?_⟩
    exact ⟨trivial, trivial, trivial, trivial, trivial⟩
  have htext : value.toJson = Json.dumps data := Json.dumpsAscii_eq hprintable
  rw [EncryptedValue.fromJson, htext, Json.loads_dumps hexact]
  rfl

/-- What a successful decryption has read and decoded. -/
theorem SecretCipher.decrypt_eq_ok {cipher : SecretCipher} {value : EncryptedValue} {text : String}
    (h : cipher.decrypt value = .ok text) : ∃ nonce ciphertext aad plaintext,
      decodeField value.nonce = .ok nonce ∧ decodeField value.ciphertext = .ok ciphertext ∧
      decodeField value.associatedData = .ok aad ∧
      cipher.aes.decrypt nonce ciphertext aad = some plaintext ∧ fromUtf8 plaintext = some text := by
  rw [decrypt] at h
  rcases hnonce : decodeField value.nonce with e | nonce <;> simp only [hnonce, bind, Except.bind] at h
  · cases h
  rcases hcipher : decodeField value.ciphertext with e | ciphertext <;> simp only [hcipher] at h
  · cases h
  rcases haad : decodeField value.associatedData with e | aad <;> simp only [haad] at h
  · cases h
  cases hplain : cipher.aes.decrypt nonce ciphertext aad with
  | none =>
    rw [hplain] at h
    cases h
  | some plaintext =>
    rw [hplain] at h
    cases htext : fromUtf8 plaintext with
    | none =>
      simp only [htext] at h
      cases h
    | some s =>
      simp only [htext] at h
      cases h
      exact ⟨nonce, ciphertext, aad, plaintext, rfl, rfl, rfl, hplain, htext⟩

theorem SecretCipher.decryptStored_eq_ok {cipher : SecretCipher} {stored text : String}
    (h : cipher.decryptStored stored = .ok text) :
    ∃ value, EncryptedValue.fromJson stored = .ok value ∧ cipher.decrypt value = .ok text := by
  rw [decryptStored] at h
  rcases hvalue : EncryptedValue.fromJson stored with e | value <;> rw [hvalue] at h
  · cases h
  · exact ⟨value, rfl, h⟩

/-- **A stored secret is decrypted to the text that was encrypted**, if the cipher decrypts what it has
encrypted for it. -/
theorem SecretCipher.decryptStored_encrypt (cipher : SecretCipher) {nonce : List UInt8}
    {plaintext purpose recordId : String}
    (hdecrypts : cipher.aes.decrypt nonce
      (cipher.aes.encrypt nonce (utf8 plaintext) (cipher.associatedData purpose recordId))
      (cipher.associatedData purpose recordId) = some (utf8 plaintext)) :
    cipher.decryptStored (cipher.encrypt nonce plaintext purpose recordId).toJson = .ok plaintext := by
  have hread := fromJson_toJson cipher.keyVersion nonce
    (cipher.aes.encrypt nonce (utf8 plaintext) (cipher.associatedData purpose recordId))
    (cipher.associatedData purpose recordId)
  have hdecrypt : cipher.decrypt (cipher.encrypt nonce plaintext purpose recordId) = .ok plaintext := by
    simp only [decrypt, encrypt, decodeField_encodeField, bind, Except.bind, hdecrypts, fromUtf8_utf8]
  rw [decryptStored]
  show (EncryptedValue.fromJson (cipher.encrypt nonce plaintext purpose recordId).toJson >>= _) = _
  rw [encrypt, hread]
  exact hdecrypt

end KajovoDagmar
