import KajovoDagmar.Audit.Transactions
import KajovoDagmar.Db.Sample

/-! # The key of the voice service

The key is the content of a file; the database keeps its metadata.  `sync_key_metadata` revokes the rows of
other keys and adds a row for a key that has none.  A row that has been revoked stays revoked, and the
column of the first twelve characters is unique, so the metadata follows the file as long as no key returns
and no two keys begin alike (`follows_iff`). -/

namespace KajovoDagmar.VoiceService

/-! ### The service -/

section service

variable (rt : Runtime)

def scope : String := "voice.realtime.test"

/-- `token_digest`. -/
def tokenDigest (token purpose : String) : String :=
  rt.sha256 ("kajovodagmar:" ++ purpose ++ ":" ++ token)

def keyDigest (value : String) : String := tokenDigest rt value "voice_service_api"

/-- `value[:12]`. -/
def keyPrefix (value : String) : String := PythonText.take value 12

/-- `read_key` of a file with the given text, or of none that can be read. -/
def readKey (file : Option String) : Option String := (file.map PythonText.strip).filter (· ≠ "")

/-- The row after the bulk update that revokes. -/
def revokeRow (p : VoiceServiceApiKey → Bool) (now : DateTime) (reason : String) (r : VoiceServiceApiKey) :
    VoiceServiceApiKey :=
  if r.scope = scope ∧ p r ∧ r.revokedAt = none then { r with revokedAt := some now, revokeReason := some reason }
  else r

theorem revokeRow_id (p : VoiceServiceApiKey → Bool) (now : DateTime) (reason : String) (r : VoiceServiceApiKey) :
    (revokeRow p now reason r).id = r.id := by
  unfold revokeRow
  split <;> rfl

/-- `update(VoiceServiceApiKey).where(…).values(revoked_at=…, revoke_reason=…)`. -/
def revoke (p : VoiceServiceApiKey → Bool) (reason : String) : Work PUnit := do
  let now ← utcNow rt
  Tx.modify fun s => { s with db := { s.db with
    voiceServiceApiKeys := s.db.voiceServiceApiKeys.mapRows (revokeRow p now reason) (revokeRow_id p now reason) } }

/-- The row of a key that has none. -/
def addKey (value : String) : Option VoiceServiceApiKey → Work PUnit
  | some _ => pure ⟨⟩
  | none => do
    let id ← newUuid rt
    Db.voiceServiceApiKey.add rt
      { id := id, keyPrefix := keyPrefix value, secretDigest := keyDigest rt value, scope := scope }

/-- `sync_key_metadata` with a key in the file. -/
def syncKey (value : String) : Work PUnit := do
  revoke rt (fun r => r.secretDigest ≠ keyDigest rt value) "rotated"
  let rows ← Db.voiceServiceApiKey.select fun r => r.secretDigest = keyDigest rt value
  addKey rt value rows.head?

def syncKeyMetadata (file : Option String) : Work PUnit :=
  match readKey file with
  | none => revoke rt (fun _ => true) "secret_file_missing"
  | some value => syncKey rt value

structure VoiceServiceIdentity where
  key : VoiceServiceApiKey
  auditContext : AuditContext

/-- Where a request comes from. -/
structure RequestOrigin where
  networkContext : String
  correlationId : Option String

def RequestOrigin.audit (o : RequestOrigin) (keyId : Option Uuid) : AuditContext :=
  { actorType := "voice_service", actorId := keyId, networkContext := some o.networkContext
    correlationId := o.correlationId }

/-- The notice for the primary account, if there is one. -/
def notify (o : RequestOrigin) (now : DateTime) (keyId : Uuid) : Option AccountRow → Work PUnit
  | none => pure ⟨⟩
  | some primary => do
    let id ← newUuid rt
    Db.serviceAccessNotice.add rt
      { id := id
        accountId := primary.id
        apiKeyId := some keyId
        occurredAt := now
        result := "accepted"
        endpoint := "realtime.ticket"
        networkContext := some o.networkContext
        correlationId := o.correlationId }

/-- The row of the presented key is there. -/
def acceptRow (o : RequestOrigin) (row : VoiceServiceApiKey) : Work VoiceServiceIdentity := do
  let now ← utcNow rt
  Db.voiceServiceApiKey.save rt { row with lastUsedAt := some now }
  let accounts ← Tx.gets fun s => s.db.administratorAccounts.select fun a => a.username = "Karmar78"
  notify rt o now row.id accounts.head?
  let _ ← AuditService.append rt (o.audit (some row.id)) "voice_service.access" "success"
    (some "voice_service_api_key") (some row.id)
    [("scope", .str scope), ("key_prefix", .str row.keyPrefix), ("endpoint", .str "realtime.ticket")]
  pure ⟨{ row with lastUsedAt := some now }, o.audit (some row.id)⟩

def invalid : Exc := .domain (.unauthorized "Servisní hlasový přístup není platný.")

/-- The row of the presented key, or the refusal. -/
def admitRow (o : RequestOrigin) : Option VoiceServiceApiKey → Work VoiceServiceIdentity
  | some row => acceptRow rt o row
  | none => do
    let _ ← AuditService.append rt (o.audit none) "voice_service.access_denied" "denied" none none
      [("scope", .str scope)]
    Tx.raise invalid

/-- The valid row of a digest. -/
def validRow? (db : Db) (digest : String) : Option VoiceServiceApiKey :=
  (db.voiceServiceApiKeys.select fun r =>
    r.secretDigest = digest ∧ r.scope = scope ∧ r.revokedAt = none).head?

def authenticate (file : Option String) (o : RequestOrigin) (presented : Option String) :
    Work VoiceServiceIdentity := do
  Tx.raiseIf (presented.getD "" = "") (.domain (.unauthorized "Servisní hlasový přístup nebyl předán."))
  Tx.raiseIf (readKey file ≠ presented) invalid
  let row ← Tx.gets fun s => validRow? s.db (keyDigest rt (presented.getD ""))
  admitRow rt o row

end service

/-! ### Histories of the file -/

/-- The file changes and the metadata is brought up to date, or a key is presented. -/
inductive KeyEvent where
  | change (file : Option String)
  | request (presented : Option String)

/-- Exactly the current key is accepted. -/
def Serves (rt : Runtime) (o : RequestOrigin) (file : Option String) (s : Session) : Prop :=
  ∀ presented, (Database.session (authenticate rt file o (some presented)) s).1.isOk = true ↔
    readKey file = some presented

/-- Every synchronisation of the history succeeds, and from then on exactly the current key is accepted. -/
def Follows (rt : Runtime) (o : RequestOrigin) : Option String → Session → List KeyEvent → Prop
  | _, _, [] => True
  | _, s, .change file :: es =>
    (Database.session (syncKeyMetadata rt file) s).1.isOk = true ∧
    Serves rt o file (Database.session (syncKeyMetadata rt file) s).2 ∧
    Follows rt o file (Database.session (syncKeyMetadata rt file) s).2 es
  | file, s, .request presented :: es =>
    Serves rt o file (Database.session (authenticate rt file o presented) s).2 ∧
    Follows rt o file (Database.session (authenticate rt file o presented) s).2 es

/-- A key that begins like none of the earlier ones, is none of them and can be stored. -/
def New (rt : Runtime) (earlier : List String) (value : String) : Prop :=
  '\x00' ∉ (keyPrefix value).toList ∧
    ∀ k ∈ earlier, keyDigest rt k ≠ keyDigest rt value ∧ keyPrefix k ≠ keyPrefix value

/-- Every key that comes into force in the history is new. -/
def NewKeys (rt : Runtime) : List String → Option String → List KeyEvent → Prop
  | _, _, [] => True
  | earlier, current, .request _ :: es => NewKeys rt earlier current es
  | earlier, current, .change file :: es =>
    match readKey file with
    | none => NewKeys rt earlier none es
    | some value =>
      if current.map (keyDigest rt) = some (keyDigest rt value) then NewKeys rt earlier (some value) es
      else New rt earlier value ∧ NewKeys rt (value :: earlier) (some value) es

/-! ### The rows -/

/-- What the driver accepts: the column of a key's first characters takes no NUL. -/
structure Stores (rt : Runtime) (o : RequestOrigin) : Prop where
  digest : ∀ text, (rt.sha256 text).length = 64
  added : ∀ (db : Db) (r : VoiceServiceApiKey), r.keyPrefix.length ≤ 24 → r.secretDigest.length ≤ 128 →
    r.scope = scope → (rt.rejectsInsert db (.voiceServiceApiKey r) = none ↔ '\x00' ∉ r.keyPrefix.toList)
  used : ∀ r : VoiceServiceApiKey, r.keyPrefix.length ≤ 24 → r.secretDigest.length ≤ 128 → r.scope = scope →
    '\x00' ∉ r.keyPrefix.toList → rt.rejectsUpdate (.voiceServiceApiKey r) = none
  noticed : ∀ (db : Db) (n : ServiceAccessNotice), db.administratorAccounts.find? n.accountId ≠ none →
    n.networkContext = some o.networkContext → n.correlationId = o.correlationId →
    rt.rejectsInsert db (.serviceAccessNotice n) = none
  audited : ∀ (db : Db) (e : AuditEvent), e.actorType = "voice_service" →
    e.networkContext = some o.networkContext → e.correlationId = o.correlationId →
    e.eventType = "voice_service.access" → rt.rejectsInsert db (.auditEvent e) = none

/-- The rows of the keys that have been in force, made by this runtime. -/
structure Keyed (rt : Runtime) (earlier : List String) (s : Session) : Prop where
  known : ∀ r ∈ s.db.voiceServiceApiKeys, r.scope = scope ∧ '\x00' ∉ r.keyPrefix.toList ∧
    ∃ k ∈ earlier, r.secretDigest = keyDigest rt k ∧ r.keyPrefix = keyPrefix k
  covered : ∀ k ∈ earlier, ∃ r ∈ s.db.voiceServiceApiKeys,
    r.secretDigest = keyDigest rt k ∧ r.keyPrefix = keyPrefix k
  ids : ∀ r ∈ s.db.voiceServiceApiKeys, ∃ n < s.tick, r.id = rt.uuid4 n
  notices : ∀ n ∈ s.db.serviceAccessNotices, ∃ k < s.tick, n.id = rt.uuid4 k

/-- Exactly the row of the current key is not revoked. -/
structure InForce (rt : Runtime) (current : Option String) (s : Session) : Prop where
  valid : ∀ r ∈ s.db.voiceServiceApiKeys,
    r.revokedAt = none ↔ current.map (keyDigest rt) = some r.secretDigest
  held : ∀ value, current = some value → ∃ r ∈ s.db.voiceServiceApiKeys, r.secretDigest = keyDigest rt value

variable {rt : Runtime} {o : RequestOrigin} {earlier : List String} {current : Option String} {s : Session}

theorem keyPrefix_length (value : String) : (keyPrefix value).length ≤ 12 := by
  unfold keyPrefix PythonText.take
  rw [String.length_ofList, List.length_take]
  omega

theorem keyDigest_length (h : Stores rt o) (value : String) : (keyDigest rt value).length = 64 := h.digest _

/-! ### A request -/

/-- The columns that a request leaves. -/
def keyColumns (r : VoiceServiceApiKey) : Uuid × String × String × String × Option DateTime :=
  (r.id, r.keyPrefix, r.secretDigest, r.scope, r.revokedAt)

/-- What a request that began in `s₀` has done: it has used a key and made a notice. -/
structure Touched (rt : Runtime) (s₀ s : Session) : Prop where
  keys : s.db.voiceServiceApiKeys.rows.map keyColumns = s₀.db.voiceServiceApiKeys.rows.map keyColumns
  later : s₀.tick ≤ s.tick
  accounts : s.db.administratorAccounts = s₀.db.administratorAccounts
  notices : ∀ n ∈ s.db.serviceAccessNotices, n ∈ s₀.db.serviceAccessNotices ∨
    ∃ k, s₀.tick ≤ k ∧ k < s.tick ∧ n.id = rt.uuid4 k

theorem Touched.refl (s : Session) : Touched rt s s := ⟨rfl, le_refl _, rfl, fun _ hn => .inl hn⟩

theorem Touched.tick {s₀ : Session} (h : Touched rt s₀ s) : Touched rt s₀ { s with tick := s.tick + 1 } where
  keys := h.keys
  later := h.later.trans (Nat.le_succ _)
  accounts := h.accounts
  notices n hn := by
    rcases h.notices n hn with hold | ⟨k, hfirst, hlt, hid⟩
    · exact .inl hold
    · exact .inr ⟨k, hfirst, by simp only; omega, hid⟩

/-- A row of the one session has its columns in the other. -/
theorem Touched.row {s₀ : Session} (h : Touched rt s₀ s) {r : VoiceServiceApiKey}
    (hr : r ∈ s₀.db.voiceServiceApiKeys) : ∃ x ∈ s.db.voiceServiceApiKeys, keyColumns x = keyColumns r := by
  have hmem : keyColumns r ∈ s.db.voiceServiceApiKeys.rows.map keyColumns := by
    rw [h.keys]
    exact List.mem_map_of_mem hr
  obtain ⟨x, hx, heq⟩ := List.mem_map.mp hmem
  exact ⟨x, hx, heq⟩

theorem Touched.row' {s₀ : Session} (h : Touched rt s₀ s) {r : VoiceServiceApiKey}
    (hr : r ∈ s.db.voiceServiceApiKeys) : ∃ x ∈ s₀.db.voiceServiceApiKeys, keyColumns x = keyColumns r := by
  have hmem : keyColumns r ∈ s₀.db.voiceServiceApiKeys.rows.map keyColumns := by
    rw [← h.keys]
    exact List.mem_map_of_mem hr
  obtain ⟨x, hx, heq⟩ := List.mem_map.mp hmem
  exact ⟨x, hx, heq⟩

theorem Keyed.touched {s₀ : Session} (hk : Keyed rt earlier s₀) (h : Touched rt s₀ s) : Keyed rt earlier s where
  known r hr := by
    obtain ⟨x, hx, heq⟩ := h.row' hr
    simp only [keyColumns, Prod.mk.injEq] at heq
    obtain ⟨-, hstart, hdigest, hscope, -⟩ := heq
    rw [← hstart, ← hdigest, ← hscope]
    exact hk.known x hx
  covered k hmem := by
    obtain ⟨r, hr, hdigest, hstart⟩ := hk.covered k hmem
    obtain ⟨x, hx, heq⟩ := h.row hr
    simp only [keyColumns, Prod.mk.injEq] at heq
    exact ⟨x, hx, heq.2.2.1.trans hdigest, heq.2.1.trans hstart⟩
  ids r hr := by
    obtain ⟨x, hx, heq⟩ := h.row' hr
    simp only [keyColumns, Prod.mk.injEq] at heq
    obtain ⟨n, hlt, hid⟩ := hk.ids x hx
    exact ⟨n, hlt.trans_le h.later, heq.1.symm.trans hid⟩
  notices n hn := by
    rcases h.notices n hn with hold | ⟨k, -, hlt, hid⟩
    · obtain ⟨k, hlt, hid⟩ := hk.notices n hold
      exact ⟨k, hlt.trans_le h.later, hid⟩
    · exact ⟨k, hlt, hid⟩

theorem InForce.touched {s₀ : Session} (hf : InForce rt current s₀) (h : Touched rt s₀ s) :
    InForce rt current s where
  valid r hr := by
    obtain ⟨x, hx, heq⟩ := h.row' hr
    simp only [keyColumns, Prod.mk.injEq] at heq
    obtain ⟨-, -, hdigest, -, hrevoked⟩ := heq
    rw [← hdigest, ← hrevoked]
    exact hf.valid x hx
  held value hvalue := by
    obtain ⟨r, hr, hdigest⟩ := hf.held value hvalue
    obtain ⟨x, hx, heq⟩ := h.row hr
    simp only [keyColumns, Prod.mk.injEq] at heq
    exact ⟨x, hx, heq.2.2.1.trans hdigest⟩

/-- The audit event touches neither keys nor notices. -/
theorem append_touched {s₀ : Session} (context : AuditContext) (eventType result : String)
    (targetType : Option String) (targetId : Option Uuid) (details : List (String × Json)) :
    Tx.Guards (Touched rt s₀) (fun _ => True)
      (AuditService.append rt context eventType result targetType targetId details) := by
  unfold AuditService.append
  refine (Tx.Guards.gets _).bind fun previous => ?_
  have hclock : Tx.Guards (Touched rt s₀) (fun _ => True) (utcNow rt) := by
    intro s hs
    exact ⟨hs.tick, fun e he => by cases he⟩
  refine hclock.bind fun occurredAt => ?_
  refine Tx.Guards.bind ?_ fun _ => Tx.Guards.pure _
  exact Relation.add_guards (fun s t hs _ => ⟨hs.keys, hs.later, hs.accounts, hs.notices⟩)
    (fun _ => trivial) trivial fun _ _ _ _ _ _ => trivial

theorem notify_touched {s₀ : Session} (now : DateTime) (keyId : Uuid) (primary : Option AccountRow) :
    Tx.Guards (Touched rt s₀) (fun _ => True) (notify rt o now keyId primary) := by
  cases primary with
  | none => exact Tx.Guards.pure _
  | some primary =>
    intro s hs
    refine ⟨?_, fun _ _ => trivial⟩
    show Touched rt s₀ (Db.serviceAccessNotice.add rt _ { s with tick := s.tick + 1 }).2
    rcases hadd : Db.serviceAccessNotice.add rt _ { s with tick := s.tick + 1 } with ⟨e | u, s'⟩
    · rw [(Relation.add_error hadd).1]
      exact hs.tick
    · obtain ⟨t, ht, rfl⟩ := Relation.add_eq_ok hadd
      refine ⟨hs.keys, hs.tick.later, hs.accounts, fun n hn => ?_⟩
      rcases (Table.mem_insert? (Relation.insertRow_eq_ok ht).1).mp hn with hold | rfl
      · exact hs.tick.notices n hold
      · exact .inr ⟨s.tick, hs.later, Nat.lt_succ_self _, rfl⟩

theorem admit_touched {s₀ : Session} {row : VoiceServiceApiKey} (hrow : row ∈ s₀.db.voiceServiceApiKeys) :
    Tx.Guards (Touched rt s₀) (fun _ => True) (acceptRow rt o row) := by
  unfold acceptRow
  have hclock : Tx.Guards (Touched rt s₀) (fun _ => True) (utcNow rt) := by
    intro s hs
    exact ⟨hs.tick, fun e he => by cases he⟩
  refine hclock.bind fun now => ?_
  refine Tx.Guards.bind ?_ fun _ => ?_
  · refine Relation.save_guards (fun s hs => ?_) fun _ => trivial
    obtain ⟨x, hx, heq⟩ := hs.row hrow
    simp only [keyColumns, Prod.mk.injEq] at heq
    refine ⟨?_, hs.later, hs.accounts, hs.notices⟩
    refine Eq.trans (Table.map_put hx heq.1.symm ?_) hs.keys
    simp only [keyColumns, Prod.mk.injEq]
    exact ⟨heq.1.symm, heq.2.1.symm, heq.2.2.1.symm, heq.2.2.2.1.symm, heq.2.2.2.2.symm⟩
  · refine (Tx.Guards.gets _).bind fun accounts => (notify_touched _ _ _).bind fun _ => ?_
    exact (append_touched _ _ _ _ _ _).bind fun _ => Tx.Guards.pure _

theorem validRow?_mem {db : Db} {digest : String} {row : VoiceServiceApiKey}
    (h : validRow? db digest = some row) :
    row ∈ db.voiceServiceApiKeys ∧ row.secretDigest = digest ∧ row.scope = scope ∧ row.revokedAt = none := by
  have hmem := List.mem_of_head? h
  exact ⟨List.mem_of_mem_filter hmem, of_decide_eq_true (List.mem_filter.mp hmem).2⟩

theorem admitRow_touched {s₀ : Session} {found : Option VoiceServiceApiKey}
    (hfound : ∀ row, found = some row → row ∈ s₀.db.voiceServiceApiKeys) :
    Tx.Guards (Touched rt s₀) (fun _ => True) (admitRow rt o found) := by
  cases found with
  | some row => exact admit_touched (hfound row rfl)
  | none => exact (append_touched _ _ _ _ _ _).bind fun _ => Tx.Guards.raise trivial

theorem authenticate_touched (file presented : Option String) (s : Session) :
    Touched rt s (authenticate rt file o presented s).2 := by
  unfold authenticate
  by_cases hblank : presented.getD "" = ""
  · rw [Tx.raiseIf_bind_of_pos hblank]
    exact .refl s
  rw [Tx.raiseIf_bind_of_not hblank]
  by_cases hother : readKey file ≠ presented
  · rw [Tx.raiseIf_bind_of_pos hother]
    exact .refl s
  rw [Tx.raiseIf_bind_of_not hother, Tx.gets_bind_apply]
  exact (admitRow_touched (fun row hrow => (validRow?_mem hrow).1) s (.refl s)).1

/-- A request changes nothing that matters, whether it is committed or rolled back. -/
theorem session_touched (file presented : Option String) (s : Session) :
    Touched rt s (Database.session (authenticate rt file o presented) s).2 := by
  have htouched : Touched rt s (authenticate rt file o presented s).2 := authenticate_touched file presented s
  unfold Database.session Tx.session
  split
  · next a s' hm => rwa [hm] at htouched
  · next e s' hm =>
    rw [hm] at htouched
    split
    · exact htouched
    · exact ⟨rfl, htouched.later, rfl, fun _ hn => .inl hn⟩

/-! ### Who is accepted -/

theorem readKey_ne_empty {file : Option String} {value : String} (h : readKey file = some value) : value ≠ "" :=
  of_decide_eq_true (Option.filter_eq_some_iff.mp h).2

theorem notify_ok (hs : Stores rt o) (hinj : Function.Injective rt.uuid4) (now : DateTime) (keyId : Uuid)
    {primary : Option AccountRow} (hprimary : ∀ a, primary = some a → a ∈ s.db.administratorAccounts)
    (hnotices : ∀ n ∈ s.db.serviceAccessNotices, ∃ k < s.tick, n.id = rt.uuid4 k) :
    ∃ s', notify rt o now keyId primary s = (.ok ⟨⟩, s') := by
  cases primary with
  | none => exact ⟨s, rfl⟩
  | some a =>
    let notice : ServiceAccessNotice :=
      { id := rt.uuid4 s.tick
        accountId := a.id
        apiKeyId := some keyId
        occurredAt := now
        result := "accepted"
        endpoint := "realtime.ticket"
        networkContext := some o.networkContext
        correlationId := o.correlationId }
    have hnew : notice.id ∉ s.db.serviceAccessNotices.rows.map ServiceAccessNotice.id := by
      intro hmem
      obtain ⟨n, hn, hid⟩ := List.mem_map.mp hmem
      obtain ⟨k, hlt, hk⟩ := hnotices n hn
      have htick : k = s.tick := hinj (hk.symm.trans hid)
      omega
    have hinsert : s.db.serviceAccessNotices.insert? notice = some (s.db.serviceAccessNotices.insert notice hnew) :=
      dif_neg hnew
    have haccount : s.db.administratorAccounts.find? a.id ≠ none := by
      rw [Table.find?_of_mem (hprimary a rfl)]
      exact Option.some_ne_none _
    have hadd : Db.serviceAccessNotice.add rt notice { s with tick := s.tick + 1 } = (.ok ⟨⟩, { s with
        tick := s.tick + 1
        db := { s.db with serviceAccessNotices := s.db.serviceAccessNotices.insert notice hnew } }) :=
      Relation.add_of_accepted (hs.noticed s.db notice haccount rfl rfl) (fun _ _ => rfl) hinsert
    exact ⟨_, hadd⟩

/-- A row that is there is admitted. -/
theorem acceptRow_ok (hs : Stores rt o) (hinj : Function.Injective rt.uuid4) (hk : Keyed rt earlier s)
    {row : VoiceServiceApiKey} (hrow : row ∈ s.db.voiceServiceApiKeys) :
    ∃ identity s', acceptRow rt o row s = (.ok identity, s') := by
  obtain ⟨hscope, hnul, k, -, hdigest, hstart⟩ := hk.known row hrow
  have hlength : row.keyPrefix.length ≤ 24 := by
    have hle := keyPrefix_length k
    rw [hstart]
    omega
  have hdigestLength : row.secretDigest.length ≤ 128 := by
    have hle := keyDigest_length hs k
    rw [hdigest]
    omega
  let now := DateTime.utc (rt.clock s.tick)
  let s₁ : Session := { s with
    tick := s.tick + 1
    db := { s.db with voiceServiceApiKeys := s.db.voiceServiceApiKeys.put { row with lastUsedAt := some now } } }
  have hsave : Db.voiceServiceApiKey.save rt { row with lastUsedAt := some now } { s with tick := s.tick + 1 } =
      (.ok ⟨⟩, s₁) :=
    Relation.save_of_accepted (hs.used _ hlength hdigestLength hscope hnul)
  have hnotices : ∀ n ∈ s₁.db.serviceAccessNotices, ∃ k < s₁.tick, n.id = rt.uuid4 k := by
    intro n hn
    obtain ⟨m, hlt, hid⟩ := hk.notices n hn
    exact ⟨m, Nat.lt_succ_of_lt hlt, hid⟩
  let accounts := s₁.db.administratorAccounts.select fun a => a.username = "Karmar78"
  obtain ⟨s₂, hnotify⟩ : ∃ s₂, notify rt o now row.id accounts.head? s₁ = (.ok ⟨⟩, s₂) :=
    notify_ok hs hinj now row.id (fun a ha => List.mem_of_mem_filter (List.mem_of_head? ha)) hnotices
  obtain ⟨e, t, happend⟩ : ∃ e t, AuditService.append rt (o.audit (some row.id)) "voice_service.access" "success"
      (some "voice_service_api_key") (some row.id)
      [("scope", .str scope), ("key_prefix", .str row.keyPrefix), ("endpoint", .str "realtime.ticket")] s₂ =
        (.ok e, { s₂ with tick := s₂.tick + 1, db := { s₂.db with auditEvents := t } }) :=
    AuditService.append_of_accepted rt (hs.audited s₂.db)
  have hnow : utcNow rt s = (.ok now, { s with tick := s.tick + 1 }) := rfl
  refine ⟨⟨{ row with lastUsedAt := some now }, o.audit (some row.id)⟩,
    { s₂ with tick := s₂.tick + 1, db := { s₂.db with auditEvents := t } }, ?_⟩
  unfold acceptRow
  rw [Tx.bind_of_ok hnow, Tx.bind_of_ok hsave, Tx.gets_bind_apply, Tx.bind_of_ok hnotify, Tx.bind_of_ok happend]
  rfl

/-- A refusal is never a success. -/
theorem refused_isOk {α β : Type} (m : Work α) (e : Exc) (s : Session) :
    ((m >>= fun _ => (Tx.raise e : Work β)) s).1.isOk = false := by
  rw [Tx.bind_apply]
  rcases m s with ⟨e' | a, s'⟩ <;> rfl

/-- A key is accepted if it is in the file and its row is valid. -/
theorem authenticate_isOk_iff (hs : Stores rt o) (hinj : Function.Injective rt.uuid4) (hk : Keyed rt earlier s)
    (file : Option String) (presented : String) :
    (Database.session (authenticate rt file o (some presented)) s).1.isOk = true ↔
      readKey file = some presented ∧
      ∃ r ∈ s.db.voiceServiceApiKeys, r.secretDigest = keyDigest rt presented ∧ r.revokedAt = none := by
  rw [Database.session, Tx.session_fst]
  unfold authenticate
  by_cases hblank : (some presented).getD "" = ""
  · rw [Tx.raiseIf_bind_of_pos hblank]
    exact ⟨fun h => (Bool.false_ne_true h).elim, fun h => absurd hblank (readKey_ne_empty h.1)⟩
  rw [Tx.raiseIf_bind_of_not hblank]
  by_cases hother : readKey file ≠ some presented
  · rw [Tx.raiseIf_bind_of_pos hother]
    exact ⟨fun h => (Bool.false_ne_true h).elim, fun h => absurd h.1 hother⟩
  rw [Tx.raiseIf_bind_of_not hother, Tx.gets_bind_apply]
  have hfile : readKey file = some presented := not_not.mp hother
  cases hrow : validRow? s.db (keyDigest rt ((some presented).getD "")) with
  | some row =>
    obtain ⟨hmem, hdigest, -, hvalid⟩ := validRow?_mem hrow
    obtain ⟨identity, s', haccepts⟩ := acceptRow_ok hs hinj hk hmem
    have hok : (admitRow rt o (some row) s).1.isOk = true := by
      show (acceptRow rt o row s).1.isOk = true
      rw [haccepts]
      rfl
    exact ⟨fun _ => ⟨hfile, row, hmem, hdigest, hvalid⟩, fun _ => hok⟩
  | none =>
    have hrefused : (admitRow rt o none s).1.isOk = false := refused_isOk _ _ _
    rw [hrefused]
    refine ⟨fun h => (Bool.false_ne_true h).elim, fun ⟨_, r, hr, hdigest, hvalid⟩ => ?_⟩
    have hempty := List.filter_eq_nil_iff.mp (List.head?_eq_none_iff.mp hrow) r hr
    exact absurd (decide_eq_true ⟨hdigest, (hk.known r hr).1, hvalid⟩) hempty

theorem Keyed.serves_iff (hs : Stores rt o) (hinj : Function.Injective rt.uuid4) (hk : Keyed rt earlier s)
    (file : Option String) : Serves rt o file s ↔ ∀ value, readKey file = some value →
      ∃ r ∈ s.db.voiceServiceApiKeys, r.secretDigest = keyDigest rt value ∧ r.revokedAt = none := by
  unfold Serves
  constructor
  · intro h value hvalue
    exact ((authenticate_isOk_iff hs hinj hk file value).mp ((h value).mpr hvalue)).2
  · intro h presented
    rw [authenticate_isOk_iff hs hinj hk file presented]
    exact ⟨fun hboth => hboth.1, fun hfile => ⟨hfile, h presented hfile⟩⟩

/-- The row in force makes its key accepted. -/
theorem InForce.serves (hf : InForce rt current s) (hs : Stores rt o) (hinj : Function.Injective rt.uuid4)
    (hk : Keyed rt earlier s) {file : Option String} (hfile : readKey file = current) : Serves rt o file s := by
  rw [hk.serves_iff hs hinj]
  intro value hvalue
  obtain ⟨r, hr, hdigest⟩ := hf.held value (hfile.symm.trans hvalue)
  refine ⟨r, hr, hdigest, (hf.valid r hr).mpr ?_⟩
  rw [hdigest, ← hfile, hvalue]
  rfl

/-! ### A synchronisation -/

/-- The session after the bulk update. -/
def revoked (rt : Runtime) (p : VoiceServiceApiKey → Bool) (reason : String) (s : Session) : Session :=
  let now := DateTime.utc (rt.clock s.tick)
  { s with
    tick := s.tick + 1
    db := { s.db with
      voiceServiceApiKeys := s.db.voiceServiceApiKeys.mapRows (revokeRow p now reason) (revokeRow_id p now reason) } }

theorem mem_revoked {p : VoiceServiceApiKey → Bool} {reason : String} {r : VoiceServiceApiKey} :
    r ∈ (revoked rt p reason s).db.voiceServiceApiKeys ↔
      ∃ x ∈ s.db.voiceServiceApiKeys, revokeRow p (.utc (rt.clock s.tick)) reason x = r :=
  List.mem_map

theorem revokeRow_columns (p : VoiceServiceApiKey → Bool) (now : DateTime) (reason : String)
    (r : VoiceServiceApiKey) : (revokeRow p now reason r).keyPrefix = r.keyPrefix ∧
      (revokeRow p now reason r).secretDigest = r.secretDigest ∧ (revokeRow p now reason r).scope = r.scope := by
  unfold revokeRow
  split <;> exact ⟨rfl, rfl, rfl⟩

theorem revokeRow_valid_iff {p : VoiceServiceApiKey → Bool} {now : DateTime} {reason : String}
    {r : VoiceServiceApiKey} (hscope : r.scope = scope) :
    (revokeRow p now reason r).revokedAt = none ↔ r.revokedAt = none ∧ p r = false := by
  unfold revokeRow
  by_cases hvalid : r.revokedAt = none
  · cases hp : p r <;> simp [hscope, hvalid]
  · simp [hvalid]

theorem Keyed.of_revoke (hk : Keyed rt earlier s) (p : VoiceServiceApiKey → Bool) (reason : String) :
    Keyed rt earlier (revoked rt p reason s) where
  known r hr := by
    obtain ⟨x, hx, rfl⟩ := mem_revoked.mp hr
    obtain ⟨hstart, hdigest, hscope⟩ := revokeRow_columns p (.utc (rt.clock s.tick)) reason x
    rw [hstart, hdigest, hscope]
    exact hk.known x hx
  covered k hmem := by
    obtain ⟨x, hx, hdigest, hstart⟩ := hk.covered k hmem
    obtain ⟨hstart', hdigest', -⟩ := revokeRow_columns p (.utc (rt.clock s.tick)) reason x
    exact ⟨_, mem_revoked.mpr ⟨x, hx, rfl⟩, hdigest'.trans hdigest, hstart'.trans hstart⟩
  ids r hr := by
    obtain ⟨x, hx, rfl⟩ := mem_revoked.mp hr
    obtain ⟨n, hlt, hid⟩ := hk.ids x hx
    exact ⟨n, Nat.lt_succ_of_lt hlt, (revokeRow_id _ _ _ x).trans hid⟩
  notices n hn := by
    obtain ⟨k, hlt, hid⟩ := hk.notices n hn
    exact ⟨k, Nat.lt_succ_of_lt hlt, hid⟩

/-- Without a key in the file nothing stays in force. -/
theorem sync_missing (hk : Keyed rt earlier s) : InForce rt none (revoked rt (fun _ => true) "secret_file_missing" s)
    where
  valid r hr := by
    obtain ⟨x, hx, rfl⟩ := mem_revoked.mp hr
    rw [revokeRow_valid_iff (hk.known x hx).1]
    simp
  held value hvalue := by cases hvalue

/-- After the revocation of the other keys, the valid rows are those of the key if it was in force. -/
theorem revoked_valid_iff (hk : Keyed rt earlier s) (hf : InForce rt current s) (value : String)
    {r : VoiceServiceApiKey}
    (hr : r ∈ (revoked rt (fun r => r.secretDigest ≠ keyDigest rt value) "rotated" s).db.voiceServiceApiKeys) :
    r.revokedAt = none ↔
      current.map (keyDigest rt) = some r.secretDigest ∧ r.secretDigest = keyDigest rt value := by
  obtain ⟨x, hx, rfl⟩ := mem_revoked.mp hr
  rw [revokeRow_valid_iff (hk.known x hx).1, hf.valid x hx, (revokeRow_columns _ _ _ x).2.1]
  simp

/-- The row of a digest, as the synchronisation looks it up. -/
def rowOf? (db : Db) (digest : String) : Option VoiceServiceApiKey :=
  (db.voiceServiceApiKeys.select fun r => r.secretDigest = digest).head?

theorem rowOf?_eq_none_iff {db : Db} {digest : String} :
    rowOf? db digest = none ↔ ∀ r ∈ db.voiceServiceApiKeys, r.secretDigest ≠ digest := by
  unfold rowOf? Table.select
  rw [List.head?_eq_none_iff, List.filter_eq_nil_iff]
  simp only [decide_eq_true_eq]
  rfl

theorem syncKey_apply (value : String) (s : Session) : syncKey rt value s =
    addKey rt value (rowOf? (revoked rt (fun r => r.secretDigest ≠ keyDigest rt value) "rotated" s).db
      (keyDigest rt value)) (revoked rt (fun r => r.secretDigest ≠ keyDigest rt value) "rotated" s) := rfl

/-- A key that is in force stays in force. -/
theorem sync_same (hk : Keyed rt earlier s) (hf : InForce rt current s) {value : String}
    (hsame : current.map (keyDigest rt) = some (keyDigest rt value)) :
    ∃ s', syncKey rt value s = (.ok ⟨⟩, s') ∧ Keyed rt earlier s' ∧ InForce rt (some value) s' := by
  let s₁ := revoked rt (fun r => r.secretDigest ≠ keyDigest rt value) "rotated" s
  have hheld : ∃ r ∈ s₁.db.voiceServiceApiKeys, r.secretDigest = keyDigest rt value := by
    obtain ⟨k, hk', hdigest⟩ := Option.map_eq_some_iff.mp hsame
    obtain ⟨x, hx, hx'⟩ := hf.held k hk'
    exact ⟨_, mem_revoked.mpr ⟨x, hx, rfl⟩, (revokeRow_columns _ _ _ x).2.1.trans (hx'.trans hdigest)⟩
  have hinForce : InForce rt (some value) s₁ := by
    refine ⟨fun r hr => (revoked_valid_iff hk hf value hr).trans ?_, fun v hv => ?_⟩
    · rw [hsame, Option.map_some]
      constructor
      · exact fun h => h.1
      · exact fun h => ⟨h, (Option.some.inj h).symm⟩
    · rw [← Option.some.inj hv]
      exact hheld
  cases hrow : rowOf? s₁.db (keyDigest rt value) with
  | none =>
    obtain ⟨r, hr, hdigest⟩ := hheld
    exact absurd hdigest (rowOf?_eq_none_iff.mp hrow r hr)
  | some row =>
    refine ⟨s₁, ?_, hk.of_revoke _ _, hinForce⟩
    rw [syncKey_apply, hrow]
    rfl

/-- The row of a key that comes into force. -/
def newKey (rt : Runtime) (id : Uuid) (value : String) : VoiceServiceApiKey :=
  { id := id, keyPrefix := keyPrefix value, secretDigest := keyDigest rt value, scope := scope }

theorem newKey_stored_iff (hs : Stores rt o) (db : Db) (id : Uuid) (value : String) :
    rt.rejectsInsert db (.voiceServiceApiKey (newKey rt id value)) = none ↔ '\x00' ∉ (keyPrefix value).toList := by
  have hstart : (keyPrefix value).length ≤ 24 := by
    have hle := keyPrefix_length value
    omega
  have hdigest : (keyDigest rt value).length ≤ 128 := by
    have hle := keyDigest_length hs value
    omega
  exact hs.added db (newKey rt id value) hstart hdigest rfl

/-- A new key comes into force. -/
theorem sync_new (hs : Stores rt o) (hinj : Function.Injective rt.uuid4) (hk : Keyed rt earlier s)
    (hf : InForce rt current s) {value : String}
    (hother : current.map (keyDigest rt) ≠ some (keyDigest rt value)) (hnew : New rt earlier value) :
    ∃ s', syncKey rt value s = (.ok ⟨⟩, s') ∧ Keyed rt (value :: earlier) s' ∧ InForce rt (some value) s' := by
  let s₁ := revoked rt (fun r => r.secretDigest ≠ keyDigest rt value) "rotated" s
  have hk₁ : Keyed rt earlier s₁ := hk.of_revoke _ _
  have hdigests : ∀ r ∈ s₁.db.voiceServiceApiKeys, r.secretDigest ≠ keyDigest rt value ∧
      r.keyPrefix ≠ keyPrefix value := by
    intro r hr
    obtain ⟨-, -, k, hearlier, hdigest, hstart⟩ := hk₁.known r hr
    rw [hdigest, hstart]
    exact hnew.2 k hearlier
  let row := newKey rt (rt.uuid4 s₁.tick) value
  have hfresh : row.id ∉ s₁.db.voiceServiceApiKeys.rows.map VoiceServiceApiKey.id := by
    intro hmem
    obtain ⟨r, hr, hid⟩ := List.mem_map.mp hmem
    obtain ⟨n, hlt, hn⟩ := hk₁.ids r hr
    have htick : n = s₁.tick := hinj (hn.symm.trans hid)
    omega
  have hadd : Db.voiceServiceApiKey.add rt row { s₁ with tick := s₁.tick + 1 } = (.ok ⟨⟩, { s₁ with
      tick := s₁.tick + 1
      db := { s₁.db with voiceServiceApiKeys := s₁.db.voiceServiceApiKeys.insert row hfresh } }) := by
    refine Relation.add_of_accepted ((newKey_stored_iff hs s₁.db _ value).mpr hnew.1) (fun r hr => ?_)
      (dif_neg hfresh)
    obtain ⟨hdigest, hstart⟩ := hdigests r hr
    simp only [Db.voiceServiceApiKey, row, newKey, hdigest, hstart, if_false]
  have hmem : ∀ r, r ∈ s₁.db.voiceServiceApiKeys.insert row hfresh ↔ r ∈ s₁.db.voiceServiceApiKeys ∨ r = row := by
    intro r
    rw [Table.mem_def]
    show r ∈ s₁.db.voiceServiceApiKeys.rows ++ [row] ↔ _
    rw [List.mem_append, List.mem_singleton]
    rfl
  refine ⟨{ s₁ with
    tick := s₁.tick + 1
    db := { s₁.db with voiceServiceApiKeys := s₁.db.voiceServiceApiKeys.insert row hfresh } },
    ?_, ⟨?_, ?_, ?_, ?_⟩, ⟨?_, ?_⟩⟩
  · rw [syncKey_apply, rowOf?_eq_none_iff.mpr fun r hr => (hdigests r hr).1]
    exact hadd
  · intro r hr
    rcases (hmem r).mp hr with hr | rfl
    · obtain ⟨hscope, hnul, k, hearlier, hrow⟩ := hk₁.known r hr
      exact ⟨hscope, hnul, k, List.mem_cons_of_mem _ hearlier, hrow⟩
    · exact ⟨rfl, hnew.1, value, List.mem_cons_self, rfl, rfl⟩
  · intro k hearlier
    rcases List.mem_cons.mp hearlier with rfl | hearlier
    · exact ⟨row, (hmem row).mpr (.inr rfl), rfl, rfl⟩
    · obtain ⟨r, hr, hrow⟩ := hk₁.covered k hearlier
      exact ⟨r, (hmem r).mpr (.inl hr), hrow⟩
  · intro r hr
    rcases (hmem r).mp hr with hr | rfl
    · obtain ⟨n, hlt, hid⟩ := hk₁.ids r hr
      exact ⟨n, Nat.lt_succ_of_lt hlt, hid⟩
    · exact ⟨s₁.tick, Nat.lt_succ_self _, rfl⟩
  · intro n hn
    obtain ⟨k, hlt, hid⟩ := hk₁.notices n hn
    exact ⟨k, Nat.lt_succ_of_lt hlt, hid⟩
  · intro r hr
    rcases (hmem r).mp hr with hr | rfl
    · rw [revoked_valid_iff hk hf value hr, Option.map_some]
      have hdigest := (hdigests r hr).1
      constructor
      · exact fun h => absurd h.2 hdigest
      · exact fun h => absurd (Option.some.inj h).symm hdigest
    · exact ⟨fun _ => rfl, fun _ => rfl⟩
  · intro v hv
    rw [← Option.some.inj hv]
    exact ⟨row, (hmem row).mpr (.inr rfl), rfl⟩

/-- A key that is not new is not synchronised, or is not accepted. -/
theorem sync_old (hs : Stores rt o) (hinj : Function.Injective rt.uuid4) (hk : Keyed rt earlier s)
    (hf : InForce rt current s) {file : Option String} {value : String} (hfile : readKey file = some value)
    (hother : current.map (keyDigest rt) ≠ some (keyDigest rt value)) (hold : ¬New rt earlier value) :
    ¬((Database.session (syncKey rt value) s).1.isOk = true ∧
      Serves rt o file (Database.session (syncKey rt value) s).2) := by
  rintro ⟨hok, hserves⟩
  let s₁ := revoked rt (fun r => r.secretDigest ≠ keyDigest rt value) "rotated" s
  have hk₁ : Keyed rt earlier s₁ := hk.of_revoke _ _
  cases hrow : rowOf? s₁.db (keyDigest rt value) with
  | some row =>
    -- The row is there, and revoked.
    have hsync : syncKey rt value s = (.ok ⟨⟩, s₁) := by
      rw [syncKey_apply, hrow]
      rfl
    rw [Database.session_of_ok hsync] at hserves
    obtain ⟨r, hr, hdigest, hvalid⟩ := (hk₁.serves_iff hs hinj file).mp hserves value hfile
    have hboth := (revoked_valid_iff hk hf value hr).mp hvalid
    exact hother (hboth.1.trans (congrArg some hboth.2))
  | none =>
    rw [Database.session, Tx.session_fst, syncKey_apply, hrow] at hok
    rcases hadd : addKey rt value none s₁ with ⟨e | u, s₂⟩
    · rw [hadd] at hok
      exact Bool.false_ne_true hok
    have hadd' : Db.voiceServiceApiKey.add rt (newKey rt (rt.uuid4 s₁.tick) value)
        { s₁ with tick := s₁.tick + 1 } = (.ok u, s₂) := hadd
    refine hold ⟨?_, fun k hearlier => ?_⟩
    · rw [← newKey_stored_iff hs s₁.db (rt.uuid4 s₁.tick) value]
      cases hreject : rt.rejectsInsert s₁.db (.voiceServiceApiKey (newKey rt (rt.uuid4 s₁.tick) value)) with
      | none => rfl
      | some c =>
        unfold Relation.add at hadd'
        simp only [Db.voiceServiceApiKey, hreject] at hadd'
        cases hadd'
    · obtain ⟨r, hr, hdigest, hstart⟩ := hk₁.covered k hearlier
      obtain ⟨t, ht, -⟩ := Relation.add_eq_ok hadd'
      have hclash := (Relation.insertRow_eq_ok ht).2 r hr
      refine ⟨fun heq => rowOf?_eq_none_iff.mp hrow r hr (hdigest.trans heq), fun heq => ?_⟩
      simp only [Db.voiceServiceApiKey, newKey, hstart, heq, if_true] at hclash
      cases hclash

/-! ### Every history -/

/-- **The key of the voice service follows its file** exactly in the histories in which every key that comes
into force begins unlike all the earlier ones. -/
theorem Keyed.follows_iff (hs : Stores rt o) (hinj : Function.Injective rt.uuid4) (es : List KeyEvent) :
    ∀ {earlier : List String} {current : Option String} {s : Session} {file : Option String},
      Keyed rt earlier s → InForce rt current s → readKey file = current →
      (Follows rt o file s es ↔ NewKeys rt earlier current es) := by
  induction es with
  | nil => exact fun _ _ _ => ⟨fun _ => trivial, fun _ => trivial⟩
  | cons e es ih =>
    intro earlier current s file hk hf hfile
    cases e with
    | request presented =>
      have htouched : Touched rt s (Database.session (authenticate rt file o presented) s).2 :=
        session_touched file presented s
      have hk' := hk.touched htouched
      have hf' := hf.touched htouched
      exact (and_iff_right (hf'.serves hs hinj hk' hfile)).trans (ih hk' hf' hfile)
    | change file =>
      unfold Follows NewKeys
      cases hvalue : readKey file with
      | none =>
        have hsync : syncKeyMetadata rt file s = (.ok ⟨⟩, revoked rt (fun _ => true) "secret_file_missing" s) := by
          unfold syncKeyMetadata
          rw [hvalue]
          rfl
        rw [Database.session_of_ok hsync]
        have hk' : Keyed rt earlier (revoked rt (fun _ => true) "secret_file_missing" s) := hk.of_revoke _ _
        have hf' := sync_missing hk
        refine (and_iff_right rfl).trans ((and_iff_right (hf'.serves hs hinj hk' hvalue)).trans ?_)
        exact ih hk' hf' hvalue
      | some value =>
        have hsyncs : syncKeyMetadata rt file = syncKey rt value := by
          unfold syncKeyMetadata
          rw [hvalue]
        rw [hsyncs]
        simp only
        by_cases hsame : current.map (keyDigest rt) = some (keyDigest rt value)
        · rw [if_pos hsame]
          obtain ⟨s', hsync, hk', hf'⟩ := sync_same hk hf hsame
          rw [Database.session_of_ok hsync]
          refine (and_iff_right rfl).trans ((and_iff_right (hf'.serves hs hinj hk' hvalue)).trans ?_)
          exact ih hk' hf' hvalue
        · rw [if_neg hsame]
          by_cases hnew : New rt earlier value
          · obtain ⟨s', hsync, hk', hf'⟩ := sync_new hs hinj hk hf hsame hnew
            rw [Database.session_of_ok hsync]
            refine (and_iff_right rfl).trans ((and_iff_right (hf'.serves hs hinj hk' hvalue)).trans ?_)
            exact (ih hk' hf' hvalue).trans (and_iff_right hnew).symm
          · have hnot := sync_old hs hinj hk hf hvalue hsame hnew
            exact ⟨fun h => absurd ⟨h.1, h.2.1⟩ hnot, fun h => absurd h.1 hnew⟩

/-- No key has been in force and none has been used. -/
structure Unused (s : Session) : Prop where
  keys : s.db.voiceServiceApiKeys = .empty
  notices : s.db.serviceAccessNotices = .empty

theorem Unused.keyed (h : Unused s) : Keyed rt [] s where
  known r hr := by
    rw [h.keys] at hr
    exact absurd hr List.not_mem_nil
  covered k hk := absurd hk List.not_mem_nil
  ids r hr := by
    rw [h.keys] at hr
    exact absurd hr List.not_mem_nil
  notices n hn := by
    rw [h.notices] at hn
    exact absurd hn List.not_mem_nil

theorem Unused.inForce (h : Unused s) : InForce rt none s where
  valid r hr := by
    rw [h.keys] at hr
    exact absurd hr List.not_mem_nil
  held value hvalue := by cases hvalue

/-- **The key of the voice service follows its file** exactly in the histories in which every key that comes
into force is new and begins like none of the earlier ones. -/
theorem key_follows_iff {es : List KeyEvent} (hs : Stores rt o) (hinj : Function.Injective rt.uuid4)
    (h : Unused s) : Follows rt o none s es ↔ NewKeys rt [] none es :=
  h.keyed.follows_iff hs hinj es h.inForce rfl

/-! ### A key that returns -/

/-- The sample runtime with a driver that takes no NUL. -/
def keyRuntime : Runtime :=
  { Runtime.sample 1767268800000000 [] with
    rejectsInsert := fun _ row => match row with
      | .voiceServiceApiKey r =>
        if '\x00' ∈ r.keyPrefix.toList then some "CharacterNotInRepertoireError" else none
      | _ => none }

def localOrigin : RequestOrigin := ⟨"10.0.0.0/24", none⟩

theorem keyRuntime_stores : Stores keyRuntime localOrigin where
  digest := Sha256.length_sha256Hex
  added db r _ _ _ := by
    show (if '\x00' ∈ r.keyPrefix.toList then some "CharacterNotInRepertoireError" else none) = none ↔ _
    split <;> simp [*]
  used _ _ _ _ _ := rfl
  noticed _ _ _ _ _ := rfl
  audited _ _ _ _ _ _ := rfl

theorem keyRuntime_uuid4 : Function.Injective keyRuntime.uuid4 := fun _ _ h => Nat.add_left_cancel h

def noKeys : Session := { began := .utc 1767268800000000, db := {} }

theorem noKeys_unused : Unused noKeys := ⟨rfl, rfl⟩

/-- A key is replaced by another one and then put back. -/
def putBack : List KeyEvent :=
  [.change (some "first-voice-key\n"), .change (some "second-voice-key\n"), .change (some "first-voice-key\n")]

/-- The key that is put back is refused. -/
theorem key_refused : ¬∀ (rt : Runtime) (o : RequestOrigin) (s : Session) (es : List KeyEvent),
    Stores rt o → Function.Injective rt.uuid4 → Unused s → Follows rt o none s es := by
  intro h
  have hfollows := h keyRuntime localOrigin noKeys putBack keyRuntime_stores keyRuntime_uuid4 noKeys_unused
  have hkeys := (noKeys_unused.keyed.follows_iff keyRuntime_stores keyRuntime_uuid4 putBack
    noKeys_unused.inForce rfl).mp hfollows
  have hfirst : readKey (some "first-voice-key\n") = some "first-voice-key" := by decide
  have hsecond : readKey (some "second-voice-key\n") = some "second-voice-key" := by decide
  have hdigest : keyDigest keyRuntime "second-voice-key" ≠ keyDigest keyRuntime "first-voice-key" := by
    decide +kernel
  simp only [putBack, NewKeys, hfirst, hsecond, Option.map_none, Option.map_some, Option.some.injEq, reduceCtorEq,
    if_false, hdigest, hdigest.symm] at hkeys
  obtain ⟨-, -, hnew, -⟩ := hkeys
  exact (hnew.2 "first-voice-key" (by simp)).1 rfl

/-- A key that is replaced by one that begins otherwise. -/
theorem key_follows_replaced : Follows keyRuntime localOrigin none noKeys (putBack.take 2) := by
  refine (key_follows_iff keyRuntime_stores keyRuntime_uuid4 noKeys_unused).mpr ?_
  have hfirst : readKey (some "first-voice-key\n") = some "first-voice-key" := by decide
  have hsecond : readKey (some "second-voice-key\n") = some "second-voice-key" := by decide
  have hdigest : keyDigest keyRuntime "first-voice-key" ≠ keyDigest keyRuntime "second-voice-key" := by
    decide +kernel
  have hnew : New keyRuntime [] "first-voice-key" := ⟨by decide, fun _ hk => absurd hk List.not_mem_nil⟩
  have hnext : New keyRuntime ["first-voice-key"] "second-voice-key" := by
    refine ⟨by decide, fun k hk => ?_⟩
    rw [List.mem_singleton.mp hk]
    exact ⟨hdigest, by decide⟩
  simp only [putBack, List.take_succ_cons, List.take_zero, NewKeys, hfirst, hsecond, Option.map_none, Option.map_some,
    Option.some.injEq, reduceCtorEq, if_false, hdigest]
  exact ⟨hnew, hnext, trivial⟩

end KajovoDagmar.VoiceService
