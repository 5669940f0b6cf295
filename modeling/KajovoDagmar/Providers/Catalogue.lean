import KajovoDagmar.Audit.Transactions
import KajovoDagmar.Db.Sample
import KajovoDagmar.Providers.Secrets

/-! # The refresh of the catalogue

`verify` hides the entries of the configuration, then changes the ones that are listed again and adds the
others.  The loop looks for entries in the database only, where the ones that it has added are not yet, so a
pair of a model and a role that is listed twice and has no entry is added twice, and the unique constraint
refuses the flush.  With that exception the catalogue is the classified list (`verify_refreshes_iff`). -/

namespace KajovoDagmar

namespace Catalogue

open ProviderService

variable {rt : Runtime} {deps : ProviderDeps}

/-! ### Entries and listed roles -/

/-- What the unique constraint of an entry is about. -/
def keyOf (e : ModelCatalogEntry) : Uuid × String × String := (e.providerId, e.externalId, e.role)

/-- The key of the entry for a listed role. -/
def keyAt (providerId : Uuid) (l : Listed) : Uuid × String × String := (providerId, l.externalId, l.role)

/-- What no update of an entry changes. -/
def ident (e : ModelCatalogEntry) : Uuid × Uuid × String × String := (e.id, keyOf e)

theorem isEntry_iff {providerId : Uuid} {l : Listed} {e : ModelCatalogEntry} :
    isEntry providerId l e = true ↔ keyOf e = keyAt providerId l := by
  simp [isEntry, keyOf, keyAt]

/-- The last listing of a key. -/
def lastListed (providerId : Uuid) (listed : List Listed) (key : Uuid × String × String) : Option Listed :=
  listed.reverse.find? fun l => keyAt providerId l = key

theorem lastListed_concat (providerId : Uuid) (listed : List Listed) (l : Listed)
    (key : Uuid × String × String) :
    lastListed providerId (listed ++ [l]) key =
      if keyAt providerId l = key then some l else lastListed providerId listed key := by
  unfold lastListed
  rw [List.reverse_concat, List.find?_cons]
  by_cases h : keyAt providerId l = key
  · simp [h]
  · simp [h]

/-- The catalogue of a configuration is the classified list: an entry for each pair ever seen, available if it
is listed, with the capabilities of its last listing. -/
structure Refreshed (rt : Runtime) (providerId : Uuid) (models : List ProviderModel) (db db' : Db) : Prop where
  seen : ∀ externalId role, (∃ e ∈ db'.modelCatalogEntries, keyOf e = (providerId, externalId, role)) ↔
    (∃ e ∈ db.modelCatalogEntries, keyOf e = (providerId, externalId, role)) ∨
      ∃ l ∈ classification rt models, l.externalId = externalId ∧ l.role = role
  once : ∀ e ∈ db'.modelCatalogEntries, ∀ e' ∈ db'.modelCatalogEntries, keyOf e = keyOf e' → e = e'
  available : ∀ e ∈ db'.modelCatalogEntries, e.providerId = providerId →
    (e.available = true ↔ ∃ l ∈ classification rt models, l.externalId = e.externalId ∧ l.role = e.role)
  capabilities : ∀ e ∈ db'.modelCatalogEntries, e.providerId = providerId →
    ∀ l, lastListed providerId (classification rt models) (keyOf e) = some l →
      e.capabilities = capabilitiesJson l.capabilities

/-- A listed role without an entry. -/
def IsNew (entries : List ModelCatalogEntry) (providerId : Uuid) (l : Listed) : Prop :=
  ∀ e ∈ entries, keyOf e ≠ keyAt providerId l

instance (entries : List ModelCatalogEntry) (providerId : Uuid) : DecidablePred (IsNew entries providerId) :=
  fun l => inferInstanceAs (Decidable (∀ e ∈ entries, keyOf e ≠ keyAt providerId l))

/-- No pair of a model and a role without an entry is listed more than once. -/
def NewOnce (rt : Runtime) (providerId : Uuid) (models : List ProviderModel) (db : Db) : Prop :=
  (((classification rt models).filter fun l => IsNew db.modelCatalogEntries.rows providerId l).map
    fun l => (l.externalId, l.role)).Nodup

instance (providerId : Uuid) (models : List ProviderModel) (db : Db) :
    Decidable (NewOnce rt providerId models db) :=
  inferInstanceAs (Decidable (List.Nodup _))

/-! ### What is given -/

/-- The configuration is there, and its provider lists the models. -/
def Lists (deps : ProviderDeps) (providerId : Uuid) (row : ProviderConfiguration)
    (models : List ProviderModel) (s : Session) : Prop :=
  s.db.providerConfigurations.find? providerId = some row ∧
  ∃ provider, (runtime deps row s).1 = .ok provider ∧ deps.listModels provider = .ok models

/-- The unique constraints hold in the database. -/
structure Constrained (row : ProviderConfiguration) (db : Db) : Prop where
  configuration : ∀ r ∈ db.providerConfigurations, r.id ≠ row.id → Db.providerConfiguration.clash row r = none
  entries : (db.modelCatalogEntries.rows.map keyOf).Nodup

/-- The identifiers that are made from now on are new. -/
def Fresh (rt : Runtime) (s : Session) : Prop :=
  Function.Injective rt.uuid4 ∧ ∀ n, s.tick ≤ n → ∀ e ∈ s.db.modelCatalogEntries, e.id ≠ rt.uuid4 n

/-- The configuration as a verification leaves it. -/
def verified (row : ProviderConfiguration) (verifiedAt refreshedAt : DateTime) : ProviderConfiguration :=
  { row with
    verificationState := "verified"
    verifiedAt := some verifiedAt
    enabled := true
    catalogRefreshedAt := some refreshedAt
    catalogState := "ready" }

/-- The values that are written fit their columns. -/
structure Storable (rt : Runtime) (context : AuditContext) (row : ProviderConfiguration)
    (models : List ProviderModel) (entries : List ModelCatalogEntry) : Prop where
  configuration : ∀ verifiedAt refreshedAt,
    rt.rejectsUpdate (.providerConfiguration (verified row verifiedAt refreshedAt)) = none
  hidden : ∀ e ∈ entries, e.providerId = row.id →
    rt.rejectsUpdate (.modelCatalogEntry { e with available := false }) = none
  listed : ∀ l ∈ classification rt models, ∀ now (e : ModelCatalogEntry), keyOf e = keyAt row.id l →
    rt.rejectsUpdate (.modelCatalogEntry (relisted l now e)) = none
  added : ∀ l ∈ classification rt models, ∀ id now (db : Db), db.providerConfigurations.find? row.id ≠ none →
    rt.rejectsInsert db (.modelCatalogEntry (newEntry row.id id l now)) = none
  audited : ∀ (db : Db) (e : AuditEvent), e.actorType = context.actorType →
    e.networkContext = context.networkContext → e.correlationId = context.correlationId →
    e.eventType = "provider.verified" → rt.rejectsInsert db (.auditEvent e) = none

/-! ### Hiding the entries -/

/-- The entries while the ones of the configuration are hidden: the first of them are. -/
structure Hiding (base : Table ModelCatalogEntry.id) (done : List ModelCatalogEntry)
    (t : Table ModelCatalogEntry.id) : Prop where
  idents : t.rows.map ident = base.rows.map ident
  hidden : ∀ e ∈ t, e.id ∈ done.map ModelCatalogEntry.id → e.available = false

/-- The update of an entry that is there, with its key. -/
theorem map_ident_put {base t : Table ModelCatalogEntry.id} {e old : ModelCatalogEntry}
    (hidents : t.rows.map ident = base.rows.map ident) (hold : old ∈ base) (hident : ident e = ident old) :
    (t.put e).rows.map ident = base.rows.map ident := by
  have hmem : ident old ∈ t.rows.map ident := by
    rw [hidents]
    exact List.mem_map_of_mem hold
  obtain ⟨x, hx, hxold⟩ := List.mem_map.mp hmem
  have hid : ident e = ident x := hident.trans hxold.symm
  rw [Table.map_put (show x ∈ t from hx) (congrArg Prod.fst hid) hid, hidents]

theorem Hiding.step {base t : Table ModelCatalogEntry.id} {done : List ModelCatalogEntry}
    {e : ModelCatalogEntry} (h : Hiding base done t) (he : e ∈ base) :
    Hiding base (done ++ [e]) (t.put { e with available := false }) := by
  constructor
  · exact map_ident_put h.idents he rfl
  · intro x hx hid
    rcases Table.mem_put_iff.mp hx with ⟨hold, hne⟩ | ⟨rfl, -⟩
    · refine h.hidden x hold ?_
      rw [List.map_append, List.mem_append] at hid
      exact hid.resolve_right fun hlast => hne (List.mem_singleton.mp hlast)
    · rfl

/-- The tables that the audit event and the driver's checks need are as they were. -/
structure Elsewhere (s s' : Session) : Prop where
  configurations : s'.db.providerConfigurations = s.db.providerConfigurations
  tick : s.tick ≤ s'.tick

theorem Elsewhere.refl (s : Session) : Elsewhere s s := ⟨rfl, le_refl _⟩

theorem Elsewhere.trans {s s' s'' : Session} (h : Elsewhere s s') (h' : Elsewhere s' s'') : Elsewhere s s'' :=
  ⟨h'.configurations.trans h.configurations, h.tick.trans h'.tick⟩

/-- **The hiding loop**, by induction on the entries that are left. -/
theorem hideEntries_ok {base : Table ModelCatalogEntry.id} {providerId : Uuid}
    (hdriver : ∀ e ∈ base, e.providerId = providerId →
      rt.rejectsUpdate (.modelCatalogEntry { e with available := false }) = none) :
    ∀ (left done : List ModelCatalogEntry) (s : Session), Hiding base done s.db.modelCatalogEntries →
      (∀ e ∈ left, e ∈ base ∧ e.providerId = providerId) →
      ∃ us s', Tx.forEach (hideEntry rt) left s = (.ok us, s') ∧
        Hiding base (done ++ left) s'.db.modelCatalogEntries ∧ Elsewhere s s'
  | [], done, s, h, _ => ⟨[], s, rfl, by rwa [List.append_nil], .refl s⟩
  | e :: left, done, s, h, hleft => by
      obtain ⟨he, hid⟩ := hleft e List.mem_cons_self
      have hsave : hideEntry rt e s = (.ok ⟨⟩, { s with db := { s.db with
          modelCatalogEntries := s.db.modelCatalogEntries.put { e with available := false } } }) :=
        Relation.save_of_accepted (hdriver e he hid)
      obtain ⟨us, s', hrest, hhiding, helse⟩ := hideEntries_ok hdriver left (done ++ [e])
        { s with db := { s.db with
          modelCatalogEntries := s.db.modelCatalogEntries.put { e with available := false } } }
        (h.step he) fun x hx => hleft x (List.mem_cons_of_mem e hx)
      refine ⟨PUnit.unit :: us, s', ?_, ?_, ⟨helse.configurations, helse.tick⟩⟩
      · show (hideEntry rt e >>= _) s = _
        rw [Tx.bind_of_ok hsave, Tx.bind_of_ok hrest]
        rfl
      · rwa [List.append_assoc] at hhiding

/-! ### Listing the models -/

/-- The entries after some of the classified models: no key has changed, and the entries that were there
before are as they are listed. -/
structure Listing (base : Table ModelCatalogEntry.id) (providerId : Uuid) (done : List Listed)
    (t : Table ModelCatalogEntry.id) : Prop where
  idents : t.rows.map ident = base.rows.map ident
  available : ∀ e ∈ t, e.providerId = providerId →
    (e.available = true ↔ ∃ l ∈ done, keyAt providerId l = keyOf e)
  capabilities : ∀ e ∈ t, e.providerId = providerId → ∀ l, lastListed providerId done (keyOf e) = some l →
    e.capabilities = capabilitiesJson l.capabilities

theorem keys_eq {base t : Table ModelCatalogEntry.id} (h : t.rows.map ident = base.rows.map ident) :
    t.rows.map keyOf = base.rows.map keyOf := by
  have hkeys := congrArg (List.map Prod.snd) h
  rwa [List.map_map, List.map_map] at hkeys

theorem ids_eq {base t : Table ModelCatalogEntry.id} (h : t.rows.map ident = base.rows.map ident) :
    t.rows.map ModelCatalogEntry.id = base.rows.map ModelCatalogEntry.id := by
  have hids := congrArg (List.map Prod.fst) h
  rwa [List.map_map, List.map_map] at hids

/-- Hidden entries, before the first model. -/
theorem Hiding.listing {base t : Table ModelCatalogEntry.id} {providerId : Uuid}
    (h : Hiding base (base.select fun e => e.providerId = providerId) t) : Listing base providerId [] t := by
  constructor
  · exact h.idents
  · intro e he hp
    have hident : ident e ∈ base.rows.map ident := by
      rw [← h.idents]
      exact List.mem_map_of_mem he
    obtain ⟨x, hx, hxe⟩ := List.mem_map.mp hident
    have hxp : x.providerId = providerId := (congrArg (fun k => k.2.1) hxe).trans hp
    have hselected : e.id ∈ (base.select fun e => e.providerId = providerId).map ModelCatalogEntry.id :=
      List.mem_map.mpr ⟨x, List.mem_filter.mpr ⟨hx, decide_eq_true hxp⟩, congrArg Prod.fst hxe⟩
    rw [h.hidden e he hselected]
    simp
  · intro e _ _ l hl
    simp [lastListed] at hl

/-- **A model that has an entry.** -/
theorem Listing.change {base t : Table ModelCatalogEntry.id} {providerId : Uuid} {done : List Listed}
    {l : Listed} {e : ModelCatalogEntry} {now : DateTime} (h : Listing base providerId done t)
    (hkeys : (base.rows.map keyOf).Nodup) (he : e ∈ t) (hkey : keyOf e = keyAt providerId l) :
    Listing base providerId (done ++ [l]) (t.put (relisted l now e)) := by
  have hne : ∀ x ∈ t, x.id ≠ e.id → keyAt providerId l ≠ keyOf x := by
    intro x hx hid heq
    rw [← keys_eq h.idents] at hkeys
    exact hid (congrArg ModelCatalogEntry.id (List.inj_on_of_nodup_map hkeys hx he (heq.symm.trans hkey.symm)))
  have hmem : ident e ∈ base.rows.map ident := by
    rw [← h.idents]
    exact List.mem_map_of_mem he
  obtain ⟨old, hold, hident⟩ := List.mem_map.mp hmem
  constructor
  · exact map_ident_put h.idents hold hident.symm
  · intro x hx hp
    rcases Table.mem_put_iff.mp hx with ⟨hold, hid⟩ | ⟨rfl, -⟩
    · rw [h.available x hold hp]
      simp [List.mem_append, or_and_right, exists_or, hne x hold hid]
    · refine iff_of_true rfl ⟨l, ?_, hkey.symm⟩
      exact List.mem_append_right done (List.mem_singleton.mpr rfl)
  · intro x hx hp l' hlast
    rw [lastListed_concat] at hlast
    rcases Table.mem_put_iff.mp hx with ⟨hold, hid⟩ | ⟨rfl, -⟩
    · rw [if_neg (hne x hold hid)] at hlast
      exact h.capabilities x hold hp l' hlast
    · have hsame : keyAt providerId l = keyOf (relisted l now e) := hkey.symm
      rw [if_pos hsame] at hlast
      obtain rfl := Option.some.inj hlast
      rfl

/-- A model that has no entry changes none. -/
theorem Listing.skip {base t : Table ModelCatalogEntry.id} {providerId : Uuid} {done : List Listed}
    {l : Listed} (h : Listing base providerId done t) (hnew : ∀ x ∈ t, keyOf x ≠ keyAt providerId l) :
    Listing base providerId (done ++ [l]) t := by
  constructor
  · exact h.idents
  · intro x hx hp
    rw [h.available x hx hp]
    simp [List.mem_append, or_and_right, exists_or, Ne.symm (hnew x hx)]
  · intro x hx hp l' hlast
    rw [lastListed_concat, if_neg (Ne.symm (hnew x hx))] at hlast
    exact h.capabilities x hx hp l' hlast

/-- New entries, one for each listing. -/
def AddedFor (providerId : Uuid) (new : List Listed) (pending : List ModelCatalogEntry) : Prop :=
  List.Forall₂ (fun l e => ∃ id now, e = newEntry providerId id l now) new pending

/-- The entries that the loop has added: one for each listing of a key without an entry. -/
structure Adds (rt : Runtime) (base : Table ModelCatalogEntry.id) (providerId : Uuid) (done : List Listed)
    (first tick : ℕ) (pending : List ModelCatalogEntry) : Prop where
  entries : AddedFor providerId (done.filter fun l => IsNew base.rows providerId l) pending
  made : ∀ e ∈ pending, ∃ n, first ≤ n ∧ n < tick ∧ e.id = rt.uuid4 n
  ids : (pending.map ModelCatalogEntry.id).Nodup

/-- A turn of the loop. -/
structure Turn (rt : Runtime) (base : Table ModelCatalogEntry.id) (providerId : Uuid) (first : ℕ)
    (done : List Listed) (collected : Collected) (s : Session) : Prop where
  listing : Listing base providerId done s.db.modelCatalogEntries
  adds : Adds rt base providerId done first s.tick collected.pending
  later : first ≤ s.tick

theorem isNew_iff {base t : Table ModelCatalogEntry.id} {providerId : Uuid} {l : Listed}
    (hidents : t.rows.map ident = base.rows.map ident) :
    IsNew base.rows providerId l ↔ ∀ e ∈ t, keyOf e ≠ keyAt providerId l := by
  have hkeys := keys_eq hidents
  constructor
  · intro h e he heq
    have hmem : keyOf e ∈ base.rows.map keyOf := hkeys ▸ List.mem_map_of_mem he
    obtain ⟨x, hx, hxe⟩ := List.mem_map.mp hmem
    exact h x hx (hxe.trans heq)
  · intro h e he heq
    have hmem : keyOf e ∈ t.rows.map keyOf := hkeys ▸ List.mem_map_of_mem he
    obtain ⟨x, hx, hxe⟩ := List.mem_map.mp hmem
    exact h x hx (hxe.trans heq)

theorem filter_concat_pos {base : Table ModelCatalogEntry.id} {providerId : Uuid} {done : List Listed}
    {l : Listed} (h : IsNew base.rows providerId l) :
    (done ++ [l]).filter (fun l => IsNew base.rows providerId l) =
      done.filter (fun l => IsNew base.rows providerId l) ++ [l] := by
  simp [List.filter_append, h]

theorem filter_concat_neg {base : Table ModelCatalogEntry.id} {providerId : Uuid} {done : List Listed}
    {l : Listed} (h : ¬IsNew base.rows providerId l) :
    (done ++ [l]).filter (fun l => IsNew base.rows providerId l) =
      done.filter (fun l => IsNew base.rows providerId l) := by
  simp [List.filter_append, h]

/-- **A turn of the loop** changes the entry of the listed role, or adds one to the session. -/
theorem listEntry_ok {base : Table ModelCatalogEntry.id} {providerId : Uuid} {first : ℕ} {done : List Listed}
    {collected : Collected} {s : Session} {l : Listed} (hinjective : Function.Injective rt.uuid4)
    (hkeys : (base.rows.map keyOf).Nodup)
    (hdriver : ∀ now (e : ModelCatalogEntry), keyOf e = keyAt providerId l →
      rt.rejectsUpdate (.modelCatalogEntry (relisted l now e)) = none)
    (h : Turn rt base providerId first done collected s) :
    ∃ collected' s', listEntry rt providerId collected l s = (.ok collected', s') ∧
      Turn rt base providerId first (done ++ [l]) collected' s' ∧ Elsewhere s s' := by
  obtain ⟨hlisting, hadds, hlater⟩ := h
  have hselect : Db.modelCatalogEntry.select (isEntry providerId l) s =
      (.ok (s.db.modelCatalogEntries.select (isEntry providerId l)), s) := rfl
  cases hfound : (s.db.modelCatalogEntries.select (isEntry providerId l)).head? with
  | none =>
      have hnew : ∀ e ∈ s.db.modelCatalogEntries, keyOf e ≠ keyAt providerId l := by
        intro e he heq
        have hnil := List.head?_eq_none_iff.mp hfound
        exact List.filter_eq_nil_iff.mp hnil e he (isEntry_iff.mpr heq)
      let entry := newEntry providerId (rt.uuid4 s.tick) l s.began
      have hadded : listEntry rt providerId collected l s =
          (.ok ⟨collected.pending ++ [entry], collected.catalog ++ [entry]⟩,
            { s with tick := s.tick + 1 }) := by
        rw [listEntry, Tx.bind_of_ok hselect, hfound]
        rfl
      refine ⟨_, _, hadded, ⟨hlisting.skip hnew, ?_, hlater.trans (Nat.le_succ _)⟩, rfl, Nat.le_succ _⟩
      constructor
      · rw [filter_concat_pos ((isNew_iff hlisting.idents).mpr hnew)]
        exact List.rel_append hadds.entries (.cons ⟨_, _, rfl⟩ .nil)
      · intro e he
        rcases List.mem_append.mp he with hold | hlast
        · obtain ⟨n, hle, hlt, hid⟩ := hadds.made e hold
          exact ⟨n, hle, hlt.trans (Nat.lt_succ_self _), hid⟩
        · obtain rfl := List.mem_singleton.mp hlast
          exact ⟨s.tick, hlater, Nat.lt_succ_self _, rfl⟩
      · rw [List.map_append, List.nodup_append]
        refine ⟨hadds.ids, List.nodup_singleton _, fun a ha b hb hab => ?_⟩
        obtain ⟨e, he, rfl⟩ := List.mem_map.mp ha
        obtain ⟨n, -, hlt, hid⟩ := hadds.made e he
        obtain rfl := List.mem_singleton.mp hb
        have htick : n = s.tick := hinjective (hid.symm.trans hab)
        omega
  | some e =>
      have hselected := List.mem_of_head? hfound
      have he : e ∈ s.db.modelCatalogEntries := List.mem_of_mem_filter hselected
      have hkey : keyOf e = keyAt providerId l := isEntry_iff.mp (List.of_mem_filter hselected)
      have hold : ¬IsNew base.rows providerId l := fun hnew => (isNew_iff hlisting.idents).mp hnew e he hkey
      let now := DateTime.utc (rt.clock s.tick)
      have hsave : Db.modelCatalogEntry.save rt (relisted l now e) { s with tick := s.tick + 1 } =
          (.ok ⟨⟩, { s with
            tick := s.tick + 1
            db := { s.db with modelCatalogEntries := s.db.modelCatalogEntries.put (relisted l now e) } }) :=
        Relation.save_of_accepted (hdriver now e hkey)
      refine ⟨⟨collected.pending, collected.catalog ++ [relisted l now e]⟩, { s with
        tick := s.tick + 1
        db := { s.db with modelCatalogEntries := s.db.modelCatalogEntries.put (relisted l now e) } },
        ?_, ⟨hlisting.change hkeys he hkey, ?_, hlater.trans (Nat.le_succ _)⟩, rfl, Nat.le_succ _⟩
      · have hnow : utcNow rt s = (.ok now, { s with tick := s.tick + 1 }) := rfl
        rw [listEntry, Tx.bind_of_ok hselect, hfound]
        show (utcNow rt >>= _) s = _
        rw [Tx.bind_of_ok hnow, Tx.bind_of_ok hsave]
        rfl
      · refine ⟨?_, fun x hx => ?_, hadds.ids⟩
        · rw [filter_concat_neg hold]
          exact hadds.entries
        · obtain ⟨n, hle, hlt, hid⟩ := hadds.made x hx
          exact ⟨n, hle, hlt.trans (Nat.lt_succ_self _), hid⟩

/-- **The loop**, by induction on the classified models that are left. -/
theorem listEntries_ok {base : Table ModelCatalogEntry.id} {providerId : Uuid} {first : ℕ}
    (hinjective : Function.Injective rt.uuid4) (hkeys : (base.rows.map keyOf).Nodup) :
    ∀ (left done : List Listed) (collected : Collected) (s : Session),
      (∀ l ∈ left, ∀ now (e : ModelCatalogEntry), keyOf e = keyAt providerId l →
        rt.rejectsUpdate (.modelCatalogEntry (relisted l now e)) = none) →
      Turn rt base providerId first done collected s →
      ∃ collected' s', listEntries rt providerId collected left s = (.ok collected', s') ∧
        Turn rt base providerId first (done ++ left) collected' s' ∧ Elsewhere s s'
  | [], done, collected, s, _, h => ⟨collected, s, rfl, by rwa [List.append_nil], .refl s⟩
  | l :: left, done, collected, s, hdriver, h => by
      obtain ⟨collected₁, s₁, hturn, h₁, helse₁⟩ :=
        listEntry_ok hinjective hkeys (hdriver l List.mem_cons_self) h
      obtain ⟨collected₂, s₂, hrest, h₂, helse₂⟩ := listEntries_ok hinjective hkeys left (done ++ [l])
        collected₁ s₁ (fun x hx => hdriver x (List.mem_cons_of_mem l hx)) h₁
      refine ⟨collected₂, s₂, ?_, ?_, helse₁.trans helse₂⟩
      · rw [listEntries, Tx.bind_of_ok hturn, hrest]
      · rwa [List.append_assoc] at h₂

/-! ### The flush -/

/-- The unique constraint of the entries. -/
theorem clash_eq_none {e x : ModelCatalogEntry} : Db.modelCatalogEntry.clash e x = none ↔ keyOf x ≠ keyOf e := by
  show (if x.providerId = e.providerId ∧ x.externalId = e.externalId ∧ x.role = e.role then _ else none) = none ↔ _
  split
  · next h => simp [keyOf, h]
  · next h =>
    refine iff_of_true rfl fun hkey => h ?_
    simpa [keyOf] using hkey

/-- Entries that are flushed come after the others, and no key is there twice. -/
theorem flush_rows : ∀ (pending : List ModelCatalogEntry) {s s' : Session} {us : List PUnit},
    Tx.forEach (Db.modelCatalogEntry.add rt) pending s = (.ok us, s') →
    s'.db.modelCatalogEntries.rows = s.db.modelCatalogEntries.rows ++ pending ∧
    ((s.db.modelCatalogEntries.rows.map keyOf).Nodup → (s'.db.modelCatalogEntries.rows.map keyOf).Nodup)
  | [], s, s', us, h => by
      obtain ⟨-, rfl⟩ := Prod.mk.inj h
      exact ⟨(List.append_nil _).symm, id⟩
  | e :: pending, s, s', us, h => by
      obtain ⟨u, s₁, hadd, h₁⟩ := Tx.bind_eq_ok h
      obtain ⟨us', s₂, hrest, h₂⟩ := Tx.bind_eq_ok h₁
      obtain ⟨-, rfl⟩ := Prod.mk.inj h₂
      obtain ⟨t, ht, rfl⟩ := Relation.add_eq_ok hadd
      obtain ⟨hinsert, hclash⟩ := Relation.insertRow_eq_ok ht
      obtain ⟨hrows, hnodup⟩ := flush_rows pending hrest
      have htable : t.rows = s.db.modelCatalogEntries.rows ++ [e] := (Table.insert?_eq_some hinsert).1
      refine ⟨?_, fun hkeys => hnodup ?_⟩
      · rw [hrows]
        show t.rows ++ pending = _
        rw [htable, List.append_assoc]
        rfl
      · show (t.rows.map keyOf).Nodup
        rw [htable, List.map_append, List.nodup_append]
        refine ⟨hkeys, List.nodup_singleton _, fun a ha b hb hab => ?_⟩
        obtain ⟨x, hx, rfl⟩ := List.mem_map.mp ha
        obtain rfl := List.mem_singleton.mp hb
        exact clash_eq_none.mp (hclash x hx) hab

/-- Entries with new keys and new identifiers are flushed. -/
theorem flush_ok : ∀ (pending : List ModelCatalogEntry) (s : Session),
    (∀ e ∈ pending, ∀ db : Db, db.providerConfigurations = s.db.providerConfigurations →
      rt.rejectsInsert db (.modelCatalogEntry e) = none) →
    (s.db.modelCatalogEntries.rows.map keyOf ++ pending.map keyOf).Nodup →
    (s.db.modelCatalogEntries.rows.map ModelCatalogEntry.id ++ pending.map ModelCatalogEntry.id).Nodup →
    ∃ us s', Tx.forEach (Db.modelCatalogEntry.add rt) pending s = (.ok us, s')
  | [], s, _, _, _ => ⟨[], s, rfl⟩
  | e :: pending, s, hdriver, hkeys, hids => by
      have hfresh : e.id ∉ s.db.modelCatalogEntries.rows.map ModelCatalogEntry.id := fun hmem =>
        (List.nodup_append.mp hids).2.2 e.id hmem e.id List.mem_cons_self rfl
      have hinsert : s.db.modelCatalogEntries.insert? e = some (s.db.modelCatalogEntries.insert e hfresh) :=
        dif_neg hfresh
      have hadd : Db.modelCatalogEntry.add rt e s = (.ok ⟨⟩, { s with
          db := { s.db with modelCatalogEntries := s.db.modelCatalogEntries.insert e hfresh } }) :=
        Relation.add_of_accepted (hdriver e List.mem_cons_self s.db rfl)
        (fun x hx => clash_eq_none.mpr fun heq => (List.nodup_append.mp hkeys).2.2 (keyOf x)
          (List.mem_map_of_mem hx) (keyOf e) List.mem_cons_self heq) hinsert
      obtain ⟨us, s', hrest⟩ := flush_ok pending
        { s with db := { s.db with modelCatalogEntries := s.db.modelCatalogEntries.insert e hfresh } }
        (fun x hx db hdb => hdriver x (List.mem_cons_of_mem e hx) db hdb)
        (by
          show ((s.db.modelCatalogEntries.rows ++ [e]).map keyOf ++ pending.map keyOf).Nodup
          rw [List.map_append, List.append_assoc]
          exact hkeys)
        (by
          show ((s.db.modelCatalogEntries.rows ++ [e]).map ModelCatalogEntry.id ++
            pending.map ModelCatalogEntry.id).Nodup
          rw [List.map_append, List.append_assoc]
          exact hids)
      refine ⟨PUnit.unit :: us, s', ?_⟩
      show (Db.modelCatalogEntry.add rt e >>= _) s = _
      rw [Tx.bind_of_ok hadd]
      exact (Tx.bind_of_ok hrest).trans rfl

/-! ### The whole refresh -/

theorem runtime_reads (row : ProviderConfiguration) : Tx.Reads Eq (runtime deps row) := by
  have hlive : ∀ secretId reason, Tx.Reads Eq (liveSecret secretId reason) := fun secretId reason =>
    (Tx.Reads.gets fun s s' h => by rw [h]).bind fun _ => Tx.Reads.orRaise _ _
  unfold runtime
  split
  · exact (Tx.Reads.raiseIf _ _).bind fun _ => Tx.Reads.pure _
  · refine (Tx.Reads.orRaise _ _).bind fun secretId => (hlive _ _).bind fun secret => ?_
    refine (Tx.Reads.of_const _).bind fun key => (Tx.Reads.raiseIf _ _).bind fun _ => Tx.Reads.pure _

/-- `Elsewhere` and the configurations but for the verified one. -/
theorem markVerified_ok {row : ProviderConfiguration} {s : Session}
    (hdriver : ∀ verifiedAt refreshedAt,
      rt.rejectsUpdate (.providerConfiguration (verified row verifiedAt refreshedAt)) = none)
    (hunique : ∀ r ∈ s.db.providerConfigurations, r.id ≠ row.id → Db.providerConfiguration.clash row r = none) :
    ∃ verifiedAt refreshedAt, markVerified rt row s = (.ok (verified row verifiedAt refreshedAt),
      { s with
        tick := s.tick + 1 + 1
        db := { s.db with providerConfigurations :=
          s.db.providerConfigurations.put (verified row verifiedAt refreshedAt) } }) := by
  let verifiedAt := DateTime.utc (rt.clock s.tick)
  let refreshedAt := DateTime.utc (rt.clock (s.tick + 1))
  let s₂ : Session := { s with tick := s.tick + 1 + 1 }
  refine ⟨verifiedAt, refreshedAt, ?_⟩
  have hclash : (s₂.db.providerConfigurations.select fun x => x.id ≠ row.id).findSome?
      (Db.providerConfiguration.clash (verified row verifiedAt refreshedAt)) = none := by
    refine List.findSome?_eq_none_iff.mpr fun x hx => ?_
    obtain ⟨hmem, hne⟩ := List.mem_filter.mp hx
    exact hunique x hmem (of_decide_eq_true hne)
  have hput : putProvider rt (verified row verifiedAt refreshedAt) s₂ = (.ok ⟨⟩, { s₂ with db := { s₂.db with
      providerConfigurations := s₂.db.providerConfigurations.put (verified row verifiedAt refreshedAt) } }) := by
    show (do
      Tx.raiseSome (((s₂.db.providerConfigurations.select fun x => x.id ≠ row.id).findSome?
        (Db.providerConfiguration.clash (verified row verifiedAt refreshedAt))).map .integrity)
      Db.providerConfiguration.save rt (verified row verifiedAt refreshedAt) : Work PUnit) s₂ = _
    rw [hclash]
    exact Relation.save_of_accepted (hdriver _ _)
  show (putProvider rt (verified row verifiedAt refreshedAt) >>= _) s₂ = _
  rw [Tx.bind_of_ok hput]
  rfl

/-- What is left of `verify` after the loop. -/
def finish (rt : Runtime) (context : AuditContext) (row : ProviderConfiguration) (models : List ProviderModel)
    (collected : Collected) : Work (List ModelCatalogEntry) := do
  flushEntries rt collected.pending
  let _ ← AuditService.append rt context "provider.verified" "success" none (some row.id)
    [("model_count", .int models.length), ("role_option_count", .int collected.catalog.length)]
  pure collected.catalog

/-- **Up to the flush**, `verify` does what the loops say. -/
theorem verify_eq_finish {s : Session} {providerId : Uuid} {row : ProviderConfiguration}
    {models : List ProviderModel} {context : AuditContext} (hlists : Lists deps providerId row models s)
    (hmodels : models ≠ []) (hdb : Constrained row s.db)
    (hstorable : Storable rt context row models s.db.modelCatalogEntries.rows) (hfresh : Fresh rt s) :
    ∃ row' collected s₁, verify rt deps providerId context s = finish rt context row' models collected s₁ ∧
      row'.id = row.id ∧
      Turn rt s.db.modelCatalogEntries providerId s.tick (classification rt models) collected s₁ ∧
      s₁.db.providerConfigurations.find? row.id ≠ none := by
  obtain ⟨hfind, provider, hruntime, hlist⟩ := hlists
  have hid : row.id = providerId := Table.key_of_find? hfind
  have hread : runtime deps row s = (.ok provider, s) := Prod.ext hruntime (runtime_reads row s).1
  have hfetch : fetchModels rt deps row provider context s = (.ok models, s) :=
    Tx.handle_of_ok (by rw [hlist]; rfl)
  have hrequire : requireModels rt row models context = pure ⟨⟩ := if_neg hmodels
  obtain ⟨verifiedAt, refreshedAt, hmark⟩ := markVerified_ok hstorable.configuration hdb.configuration
  let row' := verified row verifiedAt refreshedAt
  let s₁ : Session := { s with
    tick := s.tick + 1 + 1
    db := { s.db with providerConfigurations := s.db.providerConfigurations.put row' } }
  let previous := s.db.modelCatalogEntries.select fun e => e.providerId = providerId
  have hhidden : ∀ e ∈ s.db.modelCatalogEntries, e.providerId = providerId →
      rt.rejectsUpdate (.modelCatalogEntry { e with available := false }) = none :=
    fun e he hp => hstorable.hidden e he (hp.trans hid.symm)
  obtain ⟨us, s₂, hhide, hhiding, helse₂⟩ := hideEntries_ok hhidden previous [] s₁
    ⟨rfl, fun e _ hnil => absurd hnil List.not_mem_nil⟩
    fun e he => ⟨List.mem_of_mem_filter he, of_decide_eq_true (List.mem_filter.mp he).2⟩
  have hturn : Turn rt s.db.modelCatalogEntries providerId s.tick [] {} s₂ := by
    have hstart : s.tick ≤ s₁.tick := (Nat.le_succ _).trans (Nat.le_succ _)
    refine ⟨hhiding.listing, ⟨.nil, fun e he => absurd he List.not_mem_nil, List.nodup_nil⟩, ?_⟩
    exact hstart.trans helse₂.tick
  obtain ⟨collected, s₃, hloop, hturn', helse₃⟩ := listEntries_ok hfresh.1 hdb.entries (classification rt models) []
    {} s₂ (fun l hl now e hkey => hstorable.listed l hl now e (by rw [hkey, hid])) hturn
  refine ⟨row', collected, s₃, ?_, rfl, hturn', ?_⟩
  · have hselect : Db.modelCatalogEntry.select (fun e => e.providerId = row'.id) s₁ = (.ok previous, s₁) := by
      show (Except.ok (s.db.modelCatalogEntries.select fun e => e.providerId = row.id), s₁) = _
      rw [hid]
    have hfound : Db.providerConfiguration.find providerId s = (.ok (some row), s) := by
      show (Except.ok (s.db.providerConfigurations.find? providerId), s) = _
      rw [hfind]
    have hloop' : listEntries rt row'.id {} (classification rt models) s₂ = (.ok collected, s₃) := by
      show listEntries rt row.id {} (classification rt models) s₂ = _
      rw [hid]
      exact hloop
    rw [verify, Tx.bind_of_ok hfound, Tx.orRaise_some, Tx.pure_bind, Tx.bind_of_ok hread, Tx.bind_of_ok hfetch,
      hrequire, Tx.pure_bind, Tx.bind_of_ok hmark, Tx.bind_of_ok hselect, Tx.bind_of_ok hhide,
      Tx.bind_of_ok hloop']
    rfl
  · rw [helse₃.configurations, helse₂.configurations]
    have hput := Table.find?_put_self (r := row') (hid ▸ hfind : s.db.providerConfigurations.find? row'.id = some row)
    show (s.db.providerConfigurations.put row').find? row'.id ≠ none
    rw [hput]
    exact Option.some_ne_none row'

theorem AddedFor.keys {providerId : Uuid} {new : List Listed} {pending : List ModelCatalogEntry}
    (h : AddedFor providerId new pending) : pending.map keyOf = new.map (keyAt providerId) := by
  induction h with
  | nil => rfl
  | cons hentry _ ih =>
      obtain ⟨id, now, rfl⟩ := hentry
      rw [List.map_cons, List.map_cons, ih]
      rfl

theorem AddedFor.of_mem {providerId : Uuid} {new : List Listed} {pending : List ModelCatalogEntry}
    (h : AddedFor providerId new pending) {e : ModelCatalogEntry} (he : e ∈ pending) :
    ∃ l ∈ new, ∃ id now, e = newEntry providerId id l now := by
  induction h with
  | nil => exact absurd he List.not_mem_nil
  | cons hentry _ ih =>
      rcases List.mem_cons.mp he with rfl | hrest
      · exact ⟨_, List.mem_cons_self, hentry⟩
      · obtain ⟨l, hl, heq⟩ := ih hrest
        exact ⟨l, List.mem_cons_of_mem _ hl, heq⟩

/-- An added entry is the one for a listed role without an entry. -/
theorem Adds.of_mem {base : Table ModelCatalogEntry.id} {providerId : Uuid} {done : List Listed}
    {first tick : ℕ} {pending : List ModelCatalogEntry} (h : Adds rt base providerId done first tick pending)
    {e : ModelCatalogEntry} (he : e ∈ pending) :
    ∃ l ∈ done, IsNew base.rows providerId l ∧ ∃ id now, e = newEntry providerId id l now := by
  obtain ⟨l, hl, heq⟩ := h.entries.of_mem he
  obtain ⟨hdone, hnew⟩ := List.mem_filter.mp hl
  exact ⟨l, hdone, of_decide_eq_true hnew, heq⟩

/-- The keys of the added entries are different exactly if no pair without an entry is listed twice. -/
theorem newOnce_iff {providerId : Uuid} {models : List ProviderModel} {db : Db} :
    NewOnce rt providerId models db ↔
      (((classification rt models).filter fun l => IsNew db.modelCatalogEntries.rows providerId l).map
        (keyAt providerId)).Nodup := by
  have hinjective : Function.Injective fun k : String × String => (providerId, k) :=
    fun _ _ h => (Prod.mk.inj h).2
  rw [NewOnce, ← List.nodup_map_iff hinjective, List.map_map]
  rfl

/-- The last listing of a key is a listing of it. -/
theorem mem_of_lastListed {providerId : Uuid} {listed : List Listed} {key : Uuid × String × String} {l : Listed}
    (h : lastListed providerId listed key = some l) : l ∈ listed ∧ keyAt providerId l = key :=
  ⟨List.mem_reverse.mp (List.mem_of_find?_eq_some h), by simpa using List.find?_some h⟩

/-- **After the flush** the catalogue is the classified list. -/
theorem Turn.refreshed {db db' : Db} {providerId : Uuid} {models : List ProviderModel} {collected : Collected}
    {first : ℕ} {s : Session}
    (h : Turn rt db.modelCatalogEntries providerId first (classification rt models) collected s)
    (hrows : db'.modelCatalogEntries.rows = s.db.modelCatalogEntries.rows ++ collected.pending)
    (hnodup : (db'.modelCatalogEntries.rows.map keyOf).Nodup) : Refreshed rt providerId models db db' := by
  have hmem : ∀ e, e ∈ db'.modelCatalogEntries ↔ e ∈ s.db.modelCatalogEntries ∨ e ∈ collected.pending := by
    intro e
    rw [Table.mem_def, hrows, List.mem_append]
    rfl
  have hkeys := keys_eq h.listing.idents
  have hpair : ∀ l (e : ModelCatalogEntry), e.providerId = providerId →
      (keyAt providerId l = keyOf e ↔ l.externalId = e.externalId ∧ l.role = e.role) := by
    intro l e hp
    simp [keyAt, keyOf, hp]
  constructor
  · intro externalId role
    have hbase : (∃ e ∈ db.modelCatalogEntries, keyOf e = (providerId, externalId, role)) ↔
        ∃ e ∈ s.db.modelCatalogEntries, keyOf e = (providerId, externalId, role) := by
      simp only [Table.mem_def, ← List.mem_map, hkeys]
    rw [hbase]
    constructor
    · rintro ⟨e, he, hkey⟩
      rcases (hmem e).mp he with hold | hadded
      · exact .inl ⟨e, hold, hkey⟩
      · obtain ⟨l, hl, -, id, now, rfl⟩ := h.adds.of_mem hadded
        obtain ⟨-, hpair'⟩ := Prod.mk.inj hkey
        exact .inr ⟨l, hl, (Prod.mk.inj hpair').1, (Prod.mk.inj hpair').2⟩
    · rintro (⟨e, he, hkey⟩ | ⟨l, hl, rfl, rfl⟩)
      · exact ⟨e, (hmem e).mpr (.inl he), hkey⟩
      · by_cases hnew : IsNew db.modelCatalogEntries.rows providerId l
        · have hadded : keyAt providerId l ∈ collected.pending.map keyOf := by
            rw [h.adds.entries.keys]
            exact List.mem_map_of_mem (List.mem_filter.mpr ⟨hl, decide_eq_true hnew⟩)
          obtain ⟨e, he, hkey⟩ := List.mem_map.mp hadded
          exact ⟨e, (hmem e).mpr (.inr he), hkey⟩
        · have hold := (not_congr (isNew_iff h.listing.idents)).mp hnew
          push Not at hold
          obtain ⟨e, he, hkey⟩ := hold
          exact ⟨e, (hmem e).mpr (.inl he), hkey⟩
  · intro e he e' he' hkey
    exact List.inj_on_of_nodup_map hnodup he he' hkey
  · intro e he hp
    simp only [← hpair _ e hp]
    rcases (hmem e).mp he with hold | hadded
    · exact h.listing.available e hold hp
    · obtain ⟨l, hl, -, id, now, rfl⟩ := h.adds.of_mem hadded
      exact iff_of_true rfl ⟨l, hl, rfl⟩
  · intro e he hp l hlast
    rcases (hmem e).mp he with hold | hadded
    · exact h.listing.capabilities e hold hp l hlast
    · obtain ⟨l', hl', hnew', id, now, rfl⟩ := h.adds.of_mem hadded
      obtain ⟨hl, hkey⟩ := mem_of_lastListed hlast
      have hkey' : keyAt providerId l = keyAt providerId l' := hkey
      have hnew : IsNew db.modelCatalogEntries.rows providerId l := by
        unfold IsNew
        rw [hkey']
        exact hnew'
      have honce : ((collected.pending).map keyOf).Nodup := by
        rw [hrows, List.map_append] at hnodup
        exact (List.nodup_append.mp hnodup).2.1
      rw [h.adds.entries.keys] at honce
      obtain rfl : l = l' := List.inj_on_of_nodup_map honce
        (List.mem_filter.mpr ⟨hl, decide_eq_true hnew⟩) (List.mem_filter.mpr ⟨hl', decide_eq_true hnew'⟩) hkey'
      rfl

/-- A refresh that succeeds has flushed entries with different keys. -/
theorem newOnce_of_verify {s : Session} {providerId : Uuid} {row : ProviderConfiguration}
    {models : List ProviderModel} {context : AuditContext} (hlists : Lists deps providerId row models s)
    (hmodels : models ≠ []) (hdb : Constrained row s.db)
    (hstorable : Storable rt context row models s.db.modelCatalogEntries.rows) (hfresh : Fresh rt s)
    {catalog : List ModelCatalogEntry} {s' : Session}
    (h : Database.session (verify rt deps providerId context) s = (.ok catalog, s')) :
    NewOnce rt providerId models s.db := by
  obtain ⟨row', collected, s₁, heq, -, hturn, -⟩ := verify_eq_finish hlists hmodels hdb hstorable hfresh
  rw [newOnce_iff, ← hturn.adds.entries.keys]
  rcases hverify : verify rt deps providerId context s with ⟨e | catalog', s₂⟩
  · exact absurd (congrArg Prod.fst h) (by rw [Database.session, Tx.session_fst, hverify]; simp)
  · rw [heq] at hverify
    obtain ⟨u, s₃, hflush, -⟩ := Tx.bind_eq_ok hverify
    obtain ⟨us, s₄, hadded, -⟩ := Tx.bind_eq_ok hflush
    obtain ⟨hrows, hnodup⟩ := flush_rows collected.pending hadded
    have hall := hnodup (by rw [keys_eq hturn.listing.idents]; exact hdb.entries)
    rw [hrows, List.map_append] at hall
    exact (List.nodup_append.mp hall).2.1

def plainRuntime : Runtime := .sample 1767268800000000 []

def sampleRow : ProviderConfiguration :=
  { id := 5, providerType := "openai", displayName := "OpenAI", baseUrl := "https://api.openai.com/v1"
    secretId := some 7 }

def sampleSecret : EncryptedSecret :=
  { id := 7, purpose := secretPurpose plainRuntime "provider" 5, keyVersion := 1, maskedHint := "••••"
    ciphertext := (Secrets.plainCipher.encrypt [] "key" "provider_api_key" (plainRuntime.strUuid 5)).toJson }

/-- The configuration with its key, and an empty catalogue. -/
def emptyCatalogue : Session where
  began := .utc 1767268800000000
  db := { providerConfigurations := .singleton sampleRow, encryptedSecrets := .singleton sampleSecret }

def listing (models : List ProviderModel) : ProviderDeps := ⟨Secrets.plainCipher, "production", fun _ => .ok models⟩

def gptMini : ProviderModel := ⟨"gpt-5-mini", "GPT-5 mini", [("responses", true), ("structured_outputs", true)]⟩

def embedding : ProviderModel := ⟨"text-embedding-3-small", "text-embedding-3-small", []⟩

def verifying : AuditContext := { actorType := "user", actorId := some 1 }

theorem emptyCatalogue_lists (models : List ProviderModel) :
    Lists (listing models) 5 sampleRow models emptyCatalogue := by
  refine ⟨rfl, .openaiCompatible "https://api.openai.com/v1" "key", ?_, rfl⟩
  have hplain : Secrets.plainCipher.decryptStored (Secrets.plainCipher.encrypt [] "key" "provider_api_key"
      (plainRuntime.strUuid 5)).toJson = .ok "key" := Secrets.plainCipher.decryptStored_encrypt rfl
  have hstored : (listing models).cipher.decryptStored sampleSecret.ciphertext = .ok "key" := hplain
  have hdecrypt : decryptSecret (listing models) sampleSecret = .ok "key" := by
    rw [decryptSecret, hstored]
  have hlive : liveSecret 7 "Přístupové tajemství poskytovatele není dostupné." emptyCatalogue =
      (.ok sampleSecret, emptyCatalogue) := rfl
  have htype : ¬sampleRow.providerType = "deterministic" := by decide
  have hsecret : sampleRow.secretId = some 7 := rfl
  rw [runtime, if_neg htype, hsecret, Tx.orRaise_some, Tx.pure_bind, Tx.bind_of_ok hlive, hdecrypt]
  rfl

theorem emptyCatalogue_constrained : Constrained sampleRow emptyCatalogue.db :=
  ⟨fun _ hr hne => absurd (congrArg ProviderConfiguration.id (List.mem_singleton.mp hr)) hne, List.nodup_nil⟩

theorem emptyCatalogue_storable (models : List ProviderModel) :
    Storable plainRuntime verifying sampleRow models emptyCatalogue.db.modelCatalogEntries.rows :=
  ⟨fun _ _ => rfl, fun _ _ _ => rfl, fun _ _ _ _ _ => rfl, fun _ _ _ _ _ _ => rfl, fun _ _ _ _ _ _ => rfl⟩

theorem emptyCatalogue_fresh : Fresh plainRuntime emptyCatalogue :=
  ⟨fun m n h => Nat.add_left_cancel (show 2 ^ 64 + m = 2 ^ 64 + n from h),
    fun _ _ _ he => absurd he List.not_mem_nil⟩

end Catalogue

end KajovoDagmar
