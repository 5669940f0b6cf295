import KajovoDagmar.Db.Sample
import KajovoDagmar.Library.Runs
import KajovoDagmar.Notifications.Service

/-! # The live secrets of the configurations

The four operations that store or remove secrets.  Between them every live secret is the one of a
configuration that its purpose names (`Owned`); within an operation the secret that is being replaced may be
left over (`OwnedBut`), until it is revoked.  `saveSmtp` is the operation that does not revoke it. -/

namespace KajovoDagmar

open ProviderService NotificationService

namespace Secrets

variable (rt : Runtime) (deps : ProviderDeps)

/-! ### What is said of the secrets -/

/-- The purpose of a secret names a configuration. -/
def Names (purpose : String) (providerId : Uuid) : Prop :=
  purpose = secretPurpose rt "provider" providerId ∨ purpose = secretPurpose rt "smtp" providerId

/-- A secret for a configuration that is not revoked. -/
def LiveFor (db : Db) (providerId : Uuid) (x : EncryptedSecret) : Prop :=
  x ∈ db.encryptedSecrets ∧ x.revokedAt = none ∧ Names rt x.purpose providerId

/-- A configuration has at most one live secret, the one in its row, and what no row refers to is revoked. -/
structure OneLive (db : Db) : Prop where
  unique : ∀ providerId x y, LiveFor rt db providerId x → LiveFor rt db providerId y → x = y
  current : ∀ row ∈ db.providerConfigurations, ∀ x, LiveFor rt db row.id x → row.secretId = some x.id
  revoked : ∀ x ∈ db.encryptedSecrets,
    (∀ row ∈ db.providerConfigurations, row.secretId ≠ some x.id) → x.revokedAt ≠ none

/-- The identifiers that the program makes have different texts. -/
def DistinctTexts : Prop :=
  ∀ m n, rt.strUuid (rt.uuid4 m) = rt.strUuid (rt.uuid4 n) → rt.uuid4 m = rt.uuid4 n

/-- A row refers to a secret whose purpose names it. -/
def Owns (row : ProviderConfiguration) (x : EncryptedSecret) : Prop :=
  row.secretId = some x.id ∧ Names rt x.purpose row.id

/-- Every live secret, but possibly one, is owned by a configuration. -/
structure OwnedBut (left : Option Uuid) (db : Db) : Prop where
  owned : ∀ x ∈ db.encryptedSecrets, x.revokedAt = none → left ≠ some x.id →
    ∃ row ∈ db.providerConfigurations, Owns rt row x
  made : ∀ row ∈ db.providerConfigurations, ∃ n, row.id = rt.uuid4 n

/-- Every live secret is owned by a configuration. -/
abbrev Owned (db : Db) : Prop := OwnedBut rt none db

/-- An identifier is not the one of a live secret. -/
def Dead (secretId : Option Uuid) (secrets : Table EncryptedSecret.id) : Prop :=
  ∀ x ∈ secrets, x.revokedAt = none → secretId ≠ some x.id

variable {rt deps}

theorem OwnedBut.mono {left left' : Option Uuid} {db : Db} (h : OwnedBut rt left db)
    (hleft : ∀ x ∈ db.encryptedSecrets, x.revokedAt = none → left = some x.id → left' = some x.id) :
    OwnedBut rt left' db :=
  ⟨fun x hx hlive hne => h.owned x hx hlive fun he => hne (hleft x hx hlive he), h.made⟩

theorem OwnedBut.done {left : Option Uuid} {db : Db} (h : OwnedBut rt left db)
    (hdead : Dead left db.encryptedSecrets) : Owned rt db :=
  h.mono fun x hx hlive he => absurd he (hdead x hx hlive)

theorem secretPurpose_injective {service : String} {p q : Uuid}
    (h : secretPurpose rt service p = secretPurpose rt service q) : rt.strUuid p = rt.strUuid q := by
  have hchars := congrArg String.toList h
  simp only [secretPurpose, String.toList_append] at hchars
  exact String.toList_inj.mp (List.append_cancel_left hchars)

/-- The purposes of the two services are different. -/
theorem secretPurpose_ne (p q : Uuid) : secretPurpose rt "provider" p ≠ secretPurpose rt "smtp" q := by
  intro h
  have hchars := congrArg (fun s : String => s.toList.head?) h
  simp [secretPurpose, String.toList_append] at hchars

/-- A purpose names configurations with one text only. -/
theorem Names.text {purpose : String} {p q : Uuid} (hp : Names rt purpose p) (hq : Names rt purpose q) :
    rt.strUuid p = rt.strUuid q := by
  rcases hp with rfl | rfl <;> rcases hq with h | h
  · exact secretPurpose_injective h
  · exact absurd h (secretPurpose_ne p q)
  · exact absurd h.symm (secretPurpose_ne q p)
  · exact secretPurpose_injective h

/-- Between the operations there is one live secret at most, and it is the current one. -/
theorem Owned.oneLive {db : Db} (htexts : DistinctTexts rt) (h : Owned rt db) : OneLive rt db := by
  have hrow : ∀ r ∈ db.providerConfigurations, ∀ r' ∈ db.providerConfigurations,
      rt.strUuid r.id = rt.strUuid r'.id → r = r' := by
    intro r hr r' hr' htext
    obtain ⟨m, hm⟩ := h.made r hr
    obtain ⟨n, hn⟩ := h.made r' hr'
    refine Table.eq_of_key hr hr' ?_
    rw [hm, hn] at htext ⊢
    exact htexts m n htext
  have howner : ∀ {providerId x}, LiveFor rt db providerId x →
      ∃ row ∈ db.providerConfigurations, row.secretId = some x.id ∧ rt.strUuid row.id = rt.strUuid providerId := by
    rintro providerId x ⟨hx, hlive, hnames⟩
    obtain ⟨row, hmem, hsecret, hnames'⟩ := h.owned x hx hlive (Option.some_ne_none _).symm
    exact ⟨row, hmem, hsecret, hnames'.text hnames⟩
  constructor
  · intro providerId x y hx hy
    obtain ⟨r, hr, hrx, hrtext⟩ := howner hx
    obtain ⟨r', hr', hry, hrtext'⟩ := howner hy
    obtain rfl := hrow r hr r' hr' (hrtext.trans hrtext'.symm)
    refine Table.eq_of_key hx.1 hy.1 ?_
    rw [hrx] at hry
    exact Option.some.inj hry
  · intro row hmem x hx
    obtain ⟨r, hr, hrx, hrtext⟩ := howner hx
    obtain rfl := hrow r hr row hmem hrtext
    exact hrx
  · intro x hx hunused hlive
    obtain ⟨row, hmem, hsecret, -⟩ := h.owned x hx hlive (Option.some_ne_none _).symm
    exact hunused row hmem hsecret

/-! ### The changes of the rows -/

/-- A new row without a secret. -/
theorem OwnedBut.insertRow {left : Option Uuid} {db : Db} {row : ProviderConfiguration}
    {t : Table ProviderConfiguration.id} (h : OwnedBut rt left db)
    (hinsert : db.providerConfigurations.insert? row = some t) (hmade : ∃ n, row.id = rt.uuid4 n) :
    OwnedBut rt left { db with providerConfigurations := t } := by
  constructor
  · intro x hx hlive hne
    obtain ⟨r, hr, howns⟩ := h.owned x hx hlive hne
    exact ⟨r, (Table.mem_insert? hinsert).mpr (.inl hr), howns⟩
  · intro r hr
    rcases (Table.mem_insert? hinsert).mp hr with hold | rfl
    · exact h.made r hold
    · exact hmade

/-- A row written back may give up a secret that is left over then. -/
theorem OwnedBut.putRow {left left' : Option Uuid} {db : Db} {old row : ProviderConfiguration}
    (h : OwnedBut rt left db) (hold : old ∈ db.providerConfigurations) (hid : row.id = old.id)
    (hleft : ∀ x ∈ db.encryptedSecrets, x.revokedAt = none →
      left = some x.id ∨ Owns rt old x → left' = some x.id ∨ Owns rt row x) :
    OwnedBut rt left' { db with providerConfigurations := db.providerConfigurations.put row } := by
  have hput : row ∈ db.providerConfigurations.put row :=
    Table.mem_put_iff.mpr (.inr ⟨rfl, old, hold, hid.symm⟩)
  constructor
  · intro x hx hlive hne
    have hnew : left = some x.id ∨ Owns rt old x → ∃ r ∈ db.providerConfigurations.put row, Owns rt r x :=
      fun hor => ⟨row, hput, (hleft x hx hlive hor).resolve_left hne⟩
    by_cases hl : left = some x.id
    · exact hnew (.inl hl)
    · obtain ⟨r, hr, howns⟩ := h.owned x hx hlive hl
      by_cases hr' : r.id = row.id
      · obtain rfl : r = old := Table.eq_of_key hr hold (hr'.trans hid)
        exact hnew (.inr howns)
      · exact ⟨r, Table.mem_put_iff.mpr (.inl ⟨hr, hr'⟩), howns⟩
  · intro r hr
    rcases Table.mem_put_iff.mp hr with ⟨hmem, -⟩ | ⟨rfl, -⟩
    · exact h.made r hmem
    · obtain ⟨n, hn⟩ := h.made old hold
      exact ⟨n, hid.trans hn⟩

/-- A deleted row leaves its secret. -/
theorem OwnedBut.deleteRow {db : Db} {row : ProviderConfiguration} (h : Owned rt db)
    (hrow : row ∈ db.providerConfigurations) (entries : Table ModelCatalogEntry.id) :
    OwnedBut rt row.secretId { db with
      providerConfigurations := db.providerConfigurations.filter fun x => x.id ≠ row.id
      modelCatalogEntries := entries } := by
  constructor
  · intro x hx hlive hne
    obtain ⟨r, hr, howns⟩ := h.owned x hx hlive (Option.some_ne_none _).symm
    refine ⟨r, Table.mem_filter.mpr ⟨hr, decide_eq_true ?_⟩, howns⟩
    intro hid
    obtain rfl : r = row := Table.eq_of_key hr hrow hid
    exact hne howns.1
  · intro r hr
    exact h.made r (Table.mem_filter.mp hr).1

/-- A new secret is left over until a row refers to it. -/
theorem OwnedBut.insertSecret {db : Db} {secret : EncryptedSecret} {t : Table EncryptedSecret.id}
    (h : Owned rt db) (hinsert : db.encryptedSecrets.insert? secret = some t) :
    OwnedBut rt (some secret.id) { db with encryptedSecrets := t } := by
  constructor
  · intro x hx hlive hne
    rcases (Table.mem_insert? hinsert).mp hx with hold | rfl
    · exact h.owned x hold hlive (Option.some_ne_none _).symm
    · exact absurd rfl hne
  · exact h.made

/-- A secret that is revoked needs no owner. -/
theorem OwnedBut.revoke {left : Option Uuid} {db : Db} {secret : EncryptedSecret} {now : DateTime}
    (h : OwnedBut rt left db) :
    OwnedBut rt left { db with
      encryptedSecrets := db.encryptedSecrets.put { secret with revokedAt := some now } } := by
  constructor
  · intro x hx hlive hne
    rcases Table.mem_put_iff.mp hx with ⟨hold, -⟩ | ⟨rfl, -⟩
    · exact h.owned x hold hlive hne
    · exact absurd hlive (Option.some_ne_none _)
  · exact h.made

/-! ### The parts of the operations -/

section parts

variable {α : Type}

theorem newUuid_yields {P : Session → Prop} (hP : ∀ s tick, P s → P { s with tick := tick }) :
    Tx.Yields P (fun id s => P s ∧ ∃ n, id = rt.uuid4 n) (newUuid rt) :=
  Tx.Yields.modifyGet fun s hs => ⟨hP s _ hs, s.tick, rfl⟩

theorem utcNow_yields {P : Session → Prop} (hP : ∀ s tick, P s → P { s with tick := tick }) :
    Tx.Yields P (fun _ => P) (utcNow rt) :=
  Tx.Yields.modifyGet fun s hs => hP s _ hs

/-- The rows of secrets and configurations. -/
def secretRows (db : Db) : Table EncryptedSecret.id × Table ProviderConfiguration.id :=
  (db.encryptedSecrets, db.providerConfigurations)

theorem OwnedBut.of_rows {left : Option Uuid} {db db' : Db} (h : OwnedBut rt left db)
    (hrows : secretRows db' = secretRows db) : OwnedBut rt left db' := by
  obtain ⟨hsecrets, hconfigurations⟩ := Prod.mk.inj hrows
  constructor
  · rw [hsecrets, hconfigurations]
    exact h.owned
  · rw [hconfigurations]
    exact h.made

theorem append_owned {left : Option Uuid} {context : AuditContext} {eventType result : String}
    {targetType : Option String} {targetId : Option Uuid} {details : List (String × Json)} :
    Tx.Yields (fun s => OwnedBut rt left s.db) (fun _ s => OwnedBut rt left s.db)
      (AuditService.append rt context eventType result targetType targetId details) := by
  have hkeeps : Tx.Keeps (Same secretRows)
      (AuditService.append rt context eventType result targetType targetId details) :=
    AuditService.append_keeps fun _ _ => rfl
  exact hkeeps.yields fun _ _ hrows h => h.of_rows hrows

theorem putProvider_yields {P : Session → Prop} {Q : PUnit → Session → Prop} {row : ProviderConfiguration}
    (h : ∀ s, P s → Q ⟨⟩ { s with db := { s.db with
      providerConfigurations := s.db.providerConfigurations.put row } }) :
    Tx.Yields P Q (putProvider rt row) := by
  refine (Tx.Yields.gets (Q := fun _ => P) fun s hs => hs).bind fun others => ?_
  refine (Tx.Yields.raiseSome (Q := fun _ => P) fun _ s hs => hs).bind fun _ => ?_
  exact Relation.save_yields h

/-- **The new secret of a row**; the one that the row had before is left over. -/
theorem addSecret_yields {left : Option Uuid} {cipherPurpose service hint value : String}
    {row : ProviderConfiguration} (hservice : service = "provider" ∨ service = "smtp") :
    Tx.Yields
      (fun s => Owned rt s.db ∧ row ∈ s.db.providerConfigurations ∧
        ∀ x ∈ s.db.encryptedSecrets, x.revokedAt = none → row.secretId = some x.id → left = some x.id)
      (fun _ s => OwnedBut rt left s.db) (addSecret rt deps cipherPurpose service hint value row) := by
  let P : Session → Prop := fun s => Owned rt s.db ∧ row ∈ s.db.providerConfigurations ∧
    ∀ x ∈ s.db.encryptedSecrets, x.revokedAt = none → row.secretId = some x.id → left = some x.id
  let Q : Uuid → Session → Prop := fun secretId s => OwnedBut rt (some secretId) s.db ∧
    row ∈ s.db.providerConfigurations ∧ ∀ x ∈ s.db.encryptedSecrets, x.revokedAt = none →
      (x.id = secretId ∧ x.purpose = secretPurpose rt service row.id) ∨
      (x.id ≠ secretId ∧ (row.secretId = some x.id → left = some x.id))
  have hnew : ∀ {α : Type} (f : ℕ → α), Tx.Yields P (fun _ => P)
      (Tx.modifyGet fun s => (f s.tick, { s with tick := s.tick + 1 }) : Work α) :=
    fun f => Tx.Yields.modifyGet fun s hs => hs
  refine (hnew deps.cipher.tokenBytes).bind fun nonce => (hnew rt.uuid4).bind fun secretId => ?_
  refine Tx.Yields.bind (Q := fun _ => Q secretId) ?_ fun _ => ?_
  · refine Relation.add_yields fun s t hs hinsert _ => ?_
    obtain ⟨howned, hrow, hleft⟩ := hs
    refine ⟨howned.insertSecret hinsert, hrow, fun x hx hlive => ?_⟩
    rcases (Table.mem_insert? hinsert).mp hx with hold | rfl
    · refine .inr ⟨fun hid => ?_, hleft x hold hlive⟩
      exact (Table.insert?_eq_some hinsert).2 (List.mem_map.mpr ⟨x, hold, hid⟩)
    · exact .inl ⟨rfl, rfl⟩
  · refine (putProvider_yields fun s hs => ?_).bind fun _ => Tx.Yields.pure fun s hs => hs
    obtain ⟨howned, hrow, hsecrets⟩ := hs
    refine howned.putRow hrow rfl fun x hx hlive hor => ?_
    rcases hsecrets x hx hlive with ⟨hid, hpurpose⟩ | ⟨hne, hleft⟩
    · right
      refine ⟨congrArg some hid.symm, ?_⟩
      rw [hpurpose]
      rcases hservice with rfl | rfl
      · exact .inl rfl
      · exact .inr rfl
    · left
      rcases hor with hnew | howns
      · exact absurd (Option.some.inj hnew).symm hne
      · exact hleft howns.1

/-- **The left over secret is revoked**; the configurations do not change. -/
theorem revokeOptional_yields {left secretId : Option Uuid} {F : Table ProviderConfiguration.id → Prop} :
    Tx.Yields (fun s => OwnedBut rt left s.db ∧ F s.db.providerConfigurations)
      (fun _ s => OwnedBut rt left s.db ∧ F s.db.providerConfigurations ∧ Dead secretId s.db.encryptedSecrets)
      (revokeOptional rt secretId) := by
  cases secretId with
  | none =>
      refine Tx.Yields.pure fun s hs => ⟨hs.1, hs.2, fun x _ _ => ?_⟩
      exact (Option.some_ne_none _).symm
  | some secretId =>
      refine Tx.Yields.bind (Q := fun found (s : Session) => (OwnedBut rt left s.db ∧ F s.db.providerConfigurations) ∧
        s.db.encryptedSecrets.find? secretId = found) (Tx.Yields.gets fun s hs => ⟨hs, rfl⟩) fun found => ?_
      cases found with
      | none =>
          refine Tx.Yields.pure fun s hs => ⟨hs.1.1, hs.1.2, fun x hx _ he => ?_⟩
          exact Table.find?_eq_none.mp hs.2 x hx (Option.some.inj he).symm
      | some secret =>
          refine (utcNow_yields fun s tick hs => hs).bind fun now => ?_
          refine Relation.save_yields fun s hs => ⟨hs.1.1.revoke, hs.1.2, fun x hx hlive he => ?_⟩
          rcases Table.mem_put_iff.mp hx with ⟨-, hne⟩ | ⟨rfl, -⟩
          · exact hne ((Option.some.inj he).symm.trans (Table.key_of_find? hs.2).symm)
          · exact absurd hlive (Option.some_ne_none now)

end parts

/-! ### The operations -/

/-- Among configurations, a row that has the secret of the one that was found. -/
def Holds (found : Option ProviderConfiguration) (row : ProviderConfiguration) (db : Db) : Prop :=
  row ∈ db.providerConfigurations ∧ row.secretId = found.bind ProviderConfiguration.secretId

/-- A row that was found is written back with its secret, and a new row has none. -/
theorem saveRow_yields {a : SaveProvider} {found : Option ProviderConfiguration}
    {F : Table EncryptedSecret.id → Prop} :
    Tx.Yields (fun s => Owned rt s.db ∧ F s.db.encryptedSecrets ∧
        ∀ row, found = some row → row ∈ s.db.providerConfigurations)
      (fun row s => Owned rt s.db ∧ F s.db.encryptedSecrets ∧ Holds found row s.db)
      (saveRow rt a found) := by
  cases found with
  | none =>
      refine (newUuid_yields fun s tick hs => hs).bind fun id => ?_
      refine Tx.Yields.bind (Relation.add_yields fun s t hs hinsert _ => ?_) fun _ =>
        Tx.Yields.pure fun s hs => hs
      obtain ⟨⟨howned, hF, -⟩, hmade⟩ := hs
      exact ⟨howned.insertRow hinsert hmade, hF, (Table.mem_insert? hinsert).mpr (.inr rfl), rfl⟩
  | some row =>
      refine Tx.Yields.bind (putProvider_yields fun s hs => ?_) fun _ => Tx.Yields.pure fun s hs => hs
      obtain ⟨howned, hF, hfound⟩ := hs
      have hrow := hfound row rfl
      refine ⟨howned.putRow hrow rfl fun x _ _ hor => hor, hF, ?_, rfl⟩
      exact Table.mem_put_iff.mpr (.inr ⟨rfl, row, hrow, rfl⟩)

theorem smtpSaved_yields {a : SaveSmtp} {found : Option ProviderConfiguration}
    {F : Table EncryptedSecret.id → Prop} :
    Tx.Yields (fun s => Owned rt s.db ∧ F s.db.encryptedSecrets ∧
        ∀ row, found = some row → row ∈ s.db.providerConfigurations)
      (fun row s => Owned rt s.db ∧ F s.db.encryptedSecrets ∧ Holds found row s.db)
      (smtpSaved rt a found) := by
  cases found with
  | none =>
      refine (newUuid_yields fun s tick hs => hs).bind fun id => ?_
      refine Tx.Yields.bind (Relation.add_yields fun s t hs hinsert _ => ?_) fun _ =>
        Tx.Yields.pure fun s hs => hs
      obtain ⟨⟨howned, hF, -⟩, hmade⟩ := hs
      exact ⟨howned.insertRow hinsert hmade, hF, (Table.mem_insert? hinsert).mpr (.inr rfl), rfl⟩
  | some row =>
      refine Tx.Yields.bind (putProvider_yields fun s hs => ?_) fun _ => Tx.Yields.pure fun s hs => hs
      obtain ⟨howned, hF, hfound⟩ := hs
      have hrow := hfound row rfl
      refine ⟨howned.putRow hrow rfl fun x _ _ hor => hor, hF, ?_, rfl⟩
      exact Table.mem_put_iff.mpr (.inr ⟨rfl, row, hrow, rfl⟩)

/-- The old secret of the configuration is revoked when a key is given. -/
theorem replaceKey_yields {apiKey : Option String} {found : Option ProviderConfiguration}
    {row : ProviderConfiguration} :
    Tx.Yields (fun s => Owned rt s.db ∧ Holds found row s.db) (fun _ s => Owned rt s.db)
      (replaceKey rt deps apiKey (found.bind ProviderConfiguration.secretId) row) := by
  unfold replaceKey
  split
  · exact Tx.Yields.pure fun s hs => hs.1
  · next key _ =>
    refine Tx.Yields.bind (Q := fun _ s => OwnedBut rt row.secretId s.db ∧ True ∧
      row.secretId = found.bind ProviderConfiguration.secretId) ?_ fun row' => ?_
    · intro s hs row' s' hadd
      obtain ⟨howned, hrow, hsecret⟩ := hs
      exact ⟨addSecret_yields (.inl rfl) s ⟨howned, hrow, fun x _ _ hx => hx⟩ row' s' hadd, trivial, hsecret⟩
    · refine Tx.Yields.bind (Q := fun _ s => Owned rt s.db) ?_ fun _ => Tx.Yields.pure fun s hs => hs
      intro s hs u s' hrevoke
      obtain ⟨howned, -, hsecret⟩ := hs
      rw [← hsecret] at hrevoke
      obtain ⟨hleft, -, hdead⟩ := revokeOptional_yields (F := fun _ => True) s ⟨howned, trivial⟩ u s' hrevoke
      exact hleft.done hdead

theorem save_yields {a : SaveProvider} :
    Tx.Yields (fun s => Owned rt s.db) (fun _ s => Owned rt s.db) (save rt deps a) := by
  refine Tx.Yields.bind (Q := fun found s => Owned rt s.db ∧ True ∧
    ∀ row, found = some row → row ∈ s.db.providerConfigurations) ?_ fun found => ?_
  · unfold findProvider
    split
    · exact Tx.Yields.pure fun s hs => ⟨hs, trivial, fun row h => by simp at h⟩
    · exact Tx.Yields.gets fun s hs => ⟨hs, trivial, fun row h => Table.mem_of_find? h⟩
  · refine Tx.Yields.bind (Q := fun _ s => Owned rt s.db ∧ True ∧
      ∀ row, found = some row → row ∈ s.db.providerConfigurations) ?_ fun _ => ?_
    · exact Tx.Yields.raiseIf fun _ s hs => hs
    refine (saveRow_yields (F := fun _ => True)).bind fun row => ?_
    refine (replaceKey_yields.conseq (fun s hs => ⟨hs.1, hs.2.2⟩) fun _ _ hs => hs).bind fun row' => ?_
    exact append_owned.bind fun _ => Tx.Yields.pure fun s hs => hs

theorem revokeKey_yields {providerId : Uuid} {context : AuditContext} :
    Tx.Yields (fun s => Owned rt s.db) (fun _ s => Owned rt s.db) (revokeKey rt providerId context) := by
  refine Tx.Yields.bind (Q := fun found s => Owned rt s.db ∧
    ∀ row, found = some row → row ∈ s.db.providerConfigurations)
    (Tx.Yields.gets fun s hs => ⟨hs, fun row h => Table.mem_of_find? h⟩) fun found => ?_
  refine Tx.Yields.bind (Q := fun row s => Owned rt s.db ∧ row ∈ s.db.providerConfigurations)
    (Tx.Yields.orRaise fun row h s hs => ⟨hs.1, hs.2 row h⟩) fun row => ?_
  refine Tx.Yields.bind (revokeOptional_yields (F := fun t => row ∈ t)) fun _ => ?_
  refine Tx.Yields.bind (Q := fun _ s => Owned rt s.db) (putProvider_yields fun s hs => ?_) fun _ => ?_
  · obtain ⟨howned, hrow, hdead⟩ := hs
    refine howned.putRow hrow rfl fun x hx hlive hor => ?_
    rcases hor with hnone | howns
    · exact .inl hnone
    · exact absurd howns.1 (hdead x hx hlive)
  · exact append_owned.bind fun _ => Tx.Yields.pure fun s hs => hs

/-- The configuration that `smtpRow` finds. -/
def smtpChosen (choice : ℕ) (db : Db) : Option ProviderConfiguration :=
  let rows := db.providerConfigurations.select fun row => row.providerType = "smtp"
  rows[choice % rows.length]?

theorem smtpRow_eq (choice : ℕ) : smtpRow choice = Tx.gets fun s => smtpChosen choice s.db := rfl

theorem mem_of_smtpChosen {choice : ℕ} {db : Db} {row : ProviderConfiguration}
    (h : smtpChosen choice db = some row) : row ∈ db.providerConfigurations :=
  List.mem_of_mem_filter (List.mem_of_getElem? h)

/-- A password is given while the one that the row has is live. -/
def LeavesLive (a : SaveSmtp) (db : Db) : Prop :=
  given a.password ≠ none ∧ ∃ row, smtpChosen a.choice db = some row ∧ ¬Dead row.secretId db.encryptedSecrets

theorem saveSmtp_yields {a : SaveSmtp} :
    Tx.Yields (fun s => Owned rt s.db ∧ ¬LeavesLive a s.db) (fun _ s => Owned rt s.db)
      (saveSmtp rt deps a) := by
  refine Tx.Yields.bind (Q := fun _ s => Owned rt s.db ∧ ¬LeavesLive a s.db) ?_ fun _ => ?_
  · exact Tx.Yields.raiseIf fun _ s hs => hs
  rw [smtpRow_eq]
  refine Tx.Yields.bind (Q := fun found s => Owned rt s.db ∧
    (given a.password ≠ none → Dead (found.bind ProviderConfiguration.secretId) s.db.encryptedSecrets) ∧
    ∀ row, found = some row → row ∈ s.db.providerConfigurations) (Tx.Yields.gets fun s hs => ?_) fun found => ?_
  · refine ⟨hs.1, fun hgiven => ?_, fun row => mem_of_smtpChosen⟩
    cases hfound : smtpChosen a.choice s.db with
    | none => exact fun x _ _ => (Option.some_ne_none _).symm
    | some row =>
        by_contra hlive
        exact hs.2 ⟨hgiven, row, hfound, hlive⟩
  refine (smtpSaved_yields (F := fun t => given a.password ≠ none →
    Dead (found.bind ProviderConfiguration.secretId) t)).bind fun row => ?_
  refine Tx.Yields.bind (Q := fun _ s => Owned rt s.db) ?_ fun row' => ?_
  · unfold replacePassword
    split
    · exact Tx.Yields.pure fun s hs => hs.1
    · next password hgiven =>
      refine (addSecret_yields (.inr rfl)).conseq (fun s hs => ?_) fun _ _ hs => hs
      obtain ⟨howned, hdead, hrow, hsecret⟩ := hs
      refine ⟨howned, hrow, fun x hx hlive he => absurd (hsecret.symm.trans he) ?_⟩
      exact hdead (by rw [hgiven]; exact Option.some_ne_none password) x hx hlive
  · exact append_owned.bind fun _ => Tx.Yields.pure fun s hs => hs

theorem deleteSmtp_yields {choice : ℕ} {context : AuditContext} :
    Tx.Yields (fun s => Owned rt s.db) (fun _ s => Owned rt s.db) (deleteSmtp rt choice context) := by
  rw [deleteSmtp, smtpRow_eq]
  refine Tx.Yields.bind (Q := fun found s => Owned rt s.db ∧
    ∀ row, found = some row → row ∈ s.db.providerConfigurations)
    (Tx.Yields.gets fun s hs => ⟨hs, fun row => mem_of_smtpChosen⟩) fun found => ?_
  cases found with
  | none => exact Tx.Yields.pure fun s hs => hs.1
  | some row =>
      refine Tx.Yields.bind (Q := fun _ (s : Session) => OwnedBut rt row.secretId s.db ∧ True)
        (Tx.Yields.modify fun s hs => ⟨hs.1.deleteRow (hs.2 row rfl) _, trivial⟩) fun _ => ?_
      refine Tx.Yields.bind (Q := fun _ s => Owned rt s.db) ?_ fun _ =>
        append_owned.bind fun _ => Tx.Yields.pure fun s hs => hs
      exact (revokeOptional_yields (F := fun _ => True)).conseq (fun s hs => hs) fun _ s hs => hs.1.done hs.2.2

/-! ### What the operations raise -/

section raises

variable (rt deps)

theorem putProvider_noDomain (row : ProviderConfiguration) : NoDomain (putProvider rt row) := by
  refine Tx.RaisesOnly.bind (Tx.RaisesOnly.gets _) fun others => ?_
  refine Tx.RaisesOnly.bind (Tx.RaisesOnly.raiseSome fun e he => ?_) fun _ => Relation.save_noDomain row
  obtain ⟨c, -, rfl⟩ := Option.map_eq_some_iff.mp he
  exact Exc.not_isDomain_integrity c

theorem addSecret_noDomain (cipherPurpose service hint value : String) (row : ProviderConfiguration) :
    NoDomain (addSecret rt deps cipherPurpose service hint value row) := by
  refine Tx.RaisesOnly.bind (Tx.RaisesOnly.modifyGet _) fun nonce => ?_
  refine (newUuid_noDomain rt).bind fun secretId => (Relation.add_noDomain _).bind fun _ => ?_
  exact (putProvider_noDomain rt _).bind fun _ => Tx.RaisesOnly.pure _

theorem revokeOptional_noDomain (secretId : Option Uuid) : NoDomain (revokeOptional rt secretId) := by
  cases secretId with
  | none => exact Tx.RaisesOnly.pure _
  | some secretId =>
      refine Tx.RaisesOnly.bind (Tx.RaisesOnly.gets _) fun found => ?_
      cases found with
      | none => exact Tx.RaisesOnly.pure _
      | some secret => exact (utcNow_noDomain rt).bind fun now => Relation.save_noDomain _

theorem saveRow_noDomain (a : SaveProvider) (found : Option ProviderConfiguration) :
    NoDomain (saveRow rt a found) := by
  cases found with
  | none =>
      refine (newUuid_noDomain rt).bind fun id => ?_
      exact (Relation.add_noDomain _).bind fun _ => Tx.RaisesOnly.pure _
  | some row => exact (putProvider_noDomain rt _).bind fun _ => Tx.RaisesOnly.pure _

theorem replaceKey_noDomain (apiKey : Option String) (oldSecretId : Option Uuid)
    (row : ProviderConfiguration) : NoDomain (replaceKey rt deps apiKey oldSecretId row) := by
  unfold replaceKey
  split
  · exact Tx.RaisesOnly.pure _
  · refine (addSecret_noDomain rt deps _ _ _ _ _).bind fun row => ?_
    exact (revokeOptional_noDomain rt _).bind fun _ => Tx.RaisesOnly.pure _

theorem save_notDurable (a : SaveProvider) : NotDurable (save rt deps a) := by
  refine Tx.RaisesOnly.bind ?_ fun found => ?_
  · unfold findProvider
    split
    · exact Tx.RaisesOnly.pure _
    · exact Tx.RaisesOnly.gets _
  · refine Tx.RaisesOnly.bind (Tx.RaisesOnly.raiseIf fun _ => Bool.false_ne_true) fun _ => ?_
    refine NoDomain.notDurable ?_
    refine (saveRow_noDomain rt a found).bind fun row => (replaceKey_noDomain rt deps _ _ _).bind fun row => ?_
    exact AuditService.append_noDomain.bind fun _ => Tx.RaisesOnly.pure _

theorem revokeKey_notDurable (providerId : Uuid) (context : AuditContext) :
    NotDurable (revokeKey rt providerId context) := by
  refine Tx.RaisesOnly.bind (Tx.RaisesOnly.gets _) fun found => ?_
  refine Tx.RaisesOnly.bind (Tx.RaisesOnly.orRaise Bool.false_ne_true) fun row => ?_
  refine NoDomain.notDurable ?_
  refine (revokeOptional_noDomain rt _).bind fun _ => (putProvider_noDomain rt _).bind fun _ => ?_
  exact AuditService.append_noDomain.bind fun _ => Tx.RaisesOnly.pure _

theorem saveSmtp_notDurable (a : SaveSmtp) : NotDurable (saveSmtp rt deps a) := by
  refine Tx.RaisesOnly.bind (Tx.RaisesOnly.raiseIf fun _ => Bool.false_ne_true) fun _ => ?_
  rw [smtpRow_eq]
  refine NoDomain.notDurable ?_
  refine Tx.RaisesOnly.bind (Tx.RaisesOnly.gets _) fun found => Tx.RaisesOnly.bind ?_ fun row => ?_
  · cases found with
    | none =>
        refine (newUuid_noDomain rt).bind fun id => ?_
        exact (Relation.add_noDomain _).bind fun _ => Tx.RaisesOnly.pure _
    | some row => exact (putProvider_noDomain rt _).bind fun _ => Tx.RaisesOnly.pure _
  · refine Tx.RaisesOnly.bind ?_ fun row => AuditService.append_noDomain.bind fun _ => Tx.RaisesOnly.pure _
    unfold replacePassword
    split
    · exact Tx.RaisesOnly.pure _
    · exact addSecret_noDomain rt deps _ _ _ _ _

theorem deleteSmtp_notDurable (choice : ℕ) (context : AuditContext) :
    NotDurable (deleteSmtp rt choice context) := by
  rw [deleteSmtp, smtpRow_eq]
  refine NoDomain.notDurable ?_
  refine Tx.RaisesOnly.bind (Tx.RaisesOnly.gets _) fun found => ?_
  cases found with
  | none => exact Tx.RaisesOnly.pure _
  | some row =>
      refine Tx.RaisesOnly.bind (Tx.RaisesOnly.modify _) fun _ => ?_
      refine (revokeOptional_noDomain rt _).bind fun _ => ?_
      exact AuditService.append_noDomain.bind fun _ => Tx.RaisesOnly.pure _

end raises

/-! ### Every sequence of operations -/

inductive Operation where
  | save (a : SaveProvider)
  | revokeKey (providerId : Uuid) (context : AuditContext)
  | saveSmtp (a : SaveSmtp)
  | deleteSmtp (choice : ℕ) (context : AuditContext)

variable (rt deps) in
def Operation.work : Operation → Work PUnit
  | .save a => do
    let _ ← ProviderService.save rt deps a
    pure ⟨⟩
  | .revokeKey providerId context => ProviderService.revokeKey rt providerId context
  | .saveSmtp a => do
    let _ ← NotificationService.saveSmtp rt deps a
    pure ⟨⟩
  | .deleteSmtp choice context => NotificationService.deleteSmtp rt choice context

/-- The operation leaves a live secret behind. -/
def Operation.Leaves (s : Session) : Operation → Prop
  | .saveSmtp a => LeavesLive a s.db
  | _ => False

variable (rt deps) in
/-- Each operation is a session of its own. -/
def step (s : Session) (operation : Operation) : Option Session :=
  some (Database.session (operation.work rt deps) s).2

/-- **Step lemma**: an operation that leaves no live secret behind. -/
theorem Operation.work_yields (operation : Operation) :
    Tx.Yields (fun s => Owned rt s.db ∧ ¬operation.Leaves s) (fun _ s => Owned rt s.db)
      (operation.work rt deps) := by
  cases operation with
  | save a =>
      refine (save_yields.conseq (fun s hs => hs.1) fun _ _ hs => hs).bind fun _ => ?_
      exact Tx.Yields.pure fun s hs => hs
  | revokeKey providerId context => exact revokeKey_yields.conseq (fun s hs => hs.1) fun _ _ hs => hs
  | saveSmtp a => exact saveSmtp_yields.bind fun _ => Tx.Yields.pure fun s hs => hs
  | deleteSmtp choice context => exact deleteSmtp_yields.conseq (fun s hs => hs.1) fun _ _ hs => hs

theorem Operation.work_notDurable (operation : Operation) : NotDurable (operation.work rt deps) := by
  cases operation with
  | save a => exact (save_notDurable rt deps a).bind fun _ => Tx.RaisesOnly.pure _
  | revokeKey providerId context => exact revokeKey_notDurable rt providerId context
  | saveSmtp a => exact (saveSmtp_notDurable rt deps a).bind fun _ => Tx.RaisesOnly.pure _
  | deleteSmtp choice context => exact deleteSmtp_notDurable rt choice context

/-- There are no configurations and no secrets. -/
def NoSecrets (db : Db) : Prop := db.providerConfigurations.rows = [] ∧ db.encryptedSecrets.rows = []

/-- **One live secret per configuration** after every sequence of operations that gives no new password to a
mail service whose password is live. -/
theorem one_live_secret {s t : Session} {operations : List Operation} (htexts : DistinctTexts rt)
    (h₀ : NoSecrets s.db)
    (hcond : Runs.Along (step rt deps) (fun s operation => ¬operation.Leaves s) s operations)
    (hrun : Runs.run (step rt deps) s operations = some t) : OneLive rt t.db := by
  apply Owned.oneLive htexts
  refine Runs.inv_of_along (I := fun s => Owned rt s.db) ?_ ?_ hcond hrun
  · intro s operation s' howned hleaves hstep
    obtain rfl := Option.some.inj hstep
    rcases hr : Database.session (operation.work rt deps) s with ⟨r, s₁⟩
    rcases Database.session_cases operation.work_notDurable hr with ⟨u, -, hwork⟩ | hdb
    · exact operation.work_yields s ⟨howned, hleaves⟩ u s₁ hwork
    · exact howned.of_rows (congrArg secretRows hdb)
  · obtain ⟨hconfigurations, hsecrets⟩ := h₀
    constructor
    · intro x hx
      rw [Table.mem_def, hsecrets] at hx
      exact absurd hx List.not_mem_nil
    · intro row hrow
      rw [Table.mem_def, hconfigurations] at hrow
      exact absurd hrow List.not_mem_nil

/-! ### A password that is replaced -/

def shortId (reading : ℕ) : Uuid := 2 ^ 64 + reading % 2 ^ 64

/-- The sample runtime, with identifiers of 128 bits at every reading. -/
def secretsRuntime : Runtime := { Runtime.sample 1767268800000000 [] with uuid4 := shortId }

theorem secretsRuntime_distinctTexts : DistinctTexts secretsRuntime := by
  have hids : secretsRuntime.strUuid = Runtime.uuidText ∧ secretsRuntime.uuid4 = shortId := ⟨rfl, rfl⟩
  have hread : ∀ n, Runtime.parseUuidText (Runtime.uuidText (shortId n)) = some (shortId n) := by
    intro n
    have hlt : 2 ^ 64 + n % 2 ^ 64 < 16 ^ 32 := by omega
    exact Runtime.parseUuidText_of_lt hlt
  intro m n htext
  rw [hids.1, hids.2] at htext
  rw [hids.2]
  have hparse := congrArg Runtime.parseUuidText htext
  rw [hread, hread] at hparse
  exact Option.some.inj hparse

/-- A cipher that does not hide anything. -/
def plainCipher : SecretCipher where
  aes := ⟨fun _ plaintext _ => plaintext, fun _ ciphertext _ => some ciphertext⟩
  tokenBytes _ := []

def plainDeps : ProviderDeps := ⟨plainCipher, "production", fun _ => .ok []⟩

def noSecrets : Session where
  began := .utc 1767268800000000
  db := {}

/-- The mail service is saved with a password. -/
def mailSaved : Operation :=
  .saveSmtp
    { displayName := "mail", host := "mail.example", port := 587, username := none, password := some "password"
      sender := "dagmar@mail.example", useStarttls := true
      context := { actorType := "user", actorId := some 1 } }

/-- The mail service is saved, a key is saved for a provider, and revoked. -/
def keyRevoked : List Operation :=
  [mailSaved,
   .save { providerId := none, providerType := "openai", displayName := "OpenAI"
           baseUrl := "https://api.openai.com/v1", apiKey := some "key", expectedVersion := 1
           context := { actorType := "user", actorId := some 1 } },
   .revokeKey (shortId 4) { actorType := "user", actorId := some 1 }]

/-- A replaced password of the mail service stays live. -/
theorem two_live_secrets : ¬∀ (rt : Runtime) (deps : ProviderDeps) (s t : Session) (operations : List Operation),
    DistinctTexts rt → NoSecrets s.db → Runs.run (step rt deps) s operations = some t → OneLive rt t.db := by
  intro h
  have hrun : (match Runs.run (step secretsRuntime plainDeps) noSecrets [mailSaved, mailSaved] with
      | some t => t.db.encryptedSecrets.rows.any fun x => decide (x.revokedAt = none ∧
          ∀ row ∈ t.db.providerConfigurations.rows, row.secretId ≠ some x.id)
      | none => false) = true := by
    decide +kernel
  rcases ht : Runs.run (step secretsRuntime plainDeps) noSecrets [mailSaved, mailSaved] with _ | t <;>
    simp only [ht] at hrun
  · simp at hrun
  obtain ⟨x, hx, hbad⟩ := List.any_eq_true.mp hrun
  obtain ⟨hlive, hunused⟩ := of_decide_eq_true hbad
  have hone := h secretsRuntime plainDeps noSecrets t _ secretsRuntime_distinctTexts ⟨rfl, rfl⟩ ht
  exact hone.revoked x hx hunused hlive

/-- The password stays live, and the revoked key does not. -/
theorem one_live_secret_keyRevoked : ∃ t,
    Runs.run (step secretsRuntime plainDeps) noSecrets keyRevoked = some t ∧
    t.db.encryptedSecrets.rows.map (fun x => x.revokedAt.isSome) = [false, true] ∧
    OneLive secretsRuntime t.db := by
  have hrun : (match Runs.run (step secretsRuntime plainDeps) noSecrets keyRevoked with
      | some t => decide (t.db.encryptedSecrets.rows.map (fun x => x.revokedAt.isSome) = [false, true])
      | none => false) = true := by
    decide +kernel
  rcases ht : Runs.run (step secretsRuntime plainDeps) noSecrets keyRevoked with _ | t <;>
    simp only [ht] at hrun
  · simp at hrun
  refine ⟨t, rfl, of_decide_eq_true hrun, ?_⟩
  refine one_live_secret secretsRuntime_distinctTexts ⟨rfl, rfl⟩ ?_ ht
  refine ⟨?_, fun s hs => ⟨fun h => h, fun s' _ => ⟨fun h => h, fun _ _ => trivial⟩⟩⟩
  rintro ⟨-, row, hrow, -⟩
  have hnone : smtpChosen 0 noSecrets.db = none := rfl
  exact Option.some_ne_none row (hrow.symm.trans hnone)

end Secrets

end KajovoDagmar
