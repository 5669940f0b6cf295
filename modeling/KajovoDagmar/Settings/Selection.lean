import KajovoDagmar.Orchestration.Context
import KajovoDagmar.Providers.Catalogue
import KajovoDagmar.Providers.Recommendations
import Mathlib.Data.List.Dedup

/-! # Selected models that can converse

The role of a model may come from its name; the capabilities that a conversation needs only from what the
provider advertises.  A selection of the conversation model is checked by the role and the provider, and
`primaryModel` then asks for the capabilities as well. -/

namespace KajovoDagmar

namespace Selection

open ModelRoles ModelRecommendationService OrchestrationService ProviderService SettingsService

/-! ### The catalogue -/

/-- The entry is what the classification of a listed model gives. -/
structure ListedAs (rt : Runtime) (e : ModelCatalogEntry) (m : ProviderModel) : Prop where
  externalId : e.externalId = m.externalId
  role : e.role ∈ (classifyModel rt.casefold m.externalId m.displayName m.capabilities).roles
  capabilities : e.capabilities =
    capabilitiesJson (classifyModel rt.casefold m.externalId m.displayName m.capabilities).capabilities

/-- The available entries are those of listed models. -/
def Classified (rt : Runtime) (db : Db) : Prop :=
  ∀ e ∈ db.modelCatalogEntries, e.available = true → ∃ m, ListedAs rt e m

/-- What a conversation needs is advertised. -/
def Advertises (rt : Runtime) (m : ProviderModel) : Prop :=
  "responses" ∈ advertisedLower rt.casefold m.capabilities ∧
    "structured_outputs" ∈ advertisedLower rt.casefold m.capabilities

variable {rt : Runtime}

/-- The entries of a refreshed catalogue are those of listed models. -/
theorem listedAs_of_refreshed {providerId : Uuid} {models : List ProviderModel} {db db' : Db}
    (h : Catalogue.Refreshed rt providerId models db db') {e : ModelCatalogEntry}
    (he : e ∈ db'.modelCatalogEntries) (hp : e.providerId = providerId) (havailable : e.available = true) :
    ∃ m ∈ models, ListedAs rt e m := by
  obtain ⟨l, hl, hid, hrole⟩ := (h.available e he hp).mp havailable
  have hkey : Catalogue.keyAt providerId l = Catalogue.keyOf e := by
    simp [Catalogue.keyAt, Catalogue.keyOf, hid, hrole, hp]
  obtain ⟨last, hlast⟩ : ∃ last,
      Catalogue.lastListed providerId (classification rt models) (Catalogue.keyOf e) = some last := by
    refine Option.isSome_iff_exists.mp (List.find?_isSome.mpr ⟨l, List.mem_reverse.mpr hl, ?_⟩)
    exact decide_eq_true hkey
  obtain ⟨hmem, hlastkey⟩ := Catalogue.mem_of_lastListed hlast
  obtain ⟨m, hm, hroles⟩ := List.mem_flatMap.mp hmem
  obtain ⟨role, hsorted, rfl⟩ := List.mem_map.mp hroles
  have hpair : m.externalId = e.externalId ∧ role = e.role := by
    simpa [Catalogue.keyAt, Catalogue.keyOf, hp] using hlastkey
  refine ⟨m, hm, hpair.1.symm, ?_, h.capabilities e he hp _ hlast⟩
  rw [← hpair.2]
  exact List.mem_dedup.mp ((List.perm_insertionSort _ _).mem_iff.mp hsorted)

/-! ### Accepted selections -/

/-- A usable provider. -/
def Usable (provider : ProviderConfiguration) : Prop :=
  provider.enabled = true ∧ provider.verificationState = "verified"

/-- The selection of a conversation model: accepted by the check of the settings, or set as recommended from a
usable provider. -/
inductive Selects (rt : Runtime) (s : Session) (text : String) : Prop
  | accepted (h : (validateModelSelection rt "conversation_model" text s).1 = .ok ⟨⟩)
  | recommended {providerId accountId : Uuid} {context : AuditContext} {changes : List (String × String)}
      {options : ModelOptions} {s' : Session} {provider : ProviderConfiguration}
      (h : applyRecommended rt providerId accountId context s = (.ok (changes, options), s'))
      (hmem : ("conversation_model", text) ∈ changes)
      (hfind : s.db.providerConfigurations.find? providerId = some provider) (husable : Usable provider)

/-- The identifiers of the entries are read back from their texts, and the empty text is none. -/
structure ReadableIds (rt : Runtime) (db : Db) : Prop where
  back : ∀ e ∈ db.modelCatalogEntries, rt.parseUuid (rt.strUuid e.id) = some e.id
  empty : rt.parseUuid "" = none

/-- What is selected: an available entry for conversations of a usable provider. -/
structure Chosen (rt : Runtime) (db : Db) (text : String) (e : ModelCatalogEntry)
    (provider : ProviderConfiguration) : Prop where
  text : rt.parseUuid text = some e.id
  mem : e ∈ db.modelCatalogEntries
  available : e.available = true
  role : e.role = "conversation_model"
  find : db.providerConfigurations.find? e.providerId = some provider
  usable : Usable provider

/-- A recommended model is an available entry of the provider for the role. -/
theorem recommended_entry {s s' : Session} {providerId accountId : Uuid} {context : AuditContext}
    {changes : List (String × String)} {options : ModelOptions} {role text : String}
    (h : applyRecommended rt providerId accountId context s = (.ok (changes, options), s'))
    (hmem : (role, text) ∈ changes) :
    ∃ e ∈ s.db.modelCatalogEntries, e.providerId = providerId ∧ e.available = true ∧ e.role = role ∧
      text = rt.strUuid e.id := by
  obtain ⟨options', s₁, hoptions, h⟩ := Tx.bind_eq_ok h
  obtain ⟨applied, s₂, happlied, h⟩ := Tx.bind_eq_ok h
  obtain ⟨event, s₃, -, h⟩ := Tx.bind_eq_ok h
  obtain ⟨rfl, rfl⟩ := Prod.mk.inj (Except.ok.inj (Prod.mk.inj h).1)
  obtain ⟨pairs, hpairs, hpair⟩ := List.mem_flatten.mp hmem
  obtain ⟨roleOption, hrole, t₁, t₂, hturn⟩ := Tx.mem_of_forEach_eq_ok happlied pairs hpairs
  have hrecommended : roleOption.recommendedModelId = some text ∧ roleOption.role = role := by
    unfold applyRole at hturn
    cases hmodel : roleOption.recommendedModelId with
    | none =>
        rw [hmodel] at hturn
        obtain rfl := Except.ok.inj (Prod.mk.inj hturn).1
        exact absurd hpair List.not_mem_nil
    | some modelId =>
        rw [hmodel] at hturn
        obtain ⟨u, t₃, -, hpure⟩ := Tx.bind_eq_ok hturn
        obtain rfl := Except.ok.inj (Prod.mk.inj hpure).1
        obtain ⟨rfl, rfl⟩ := Prod.mk.inj (List.mem_singleton.mp hpair)
        exact ⟨rfl, rfl⟩
  unfold modelOptions at hoptions
  rw [Relation.find, Tx.gets_bind_apply] at hoptions
  obtain ⟨provider, -, hoptions⟩ := Tx.orRaise_bind_eq_ok hoptions
  rw [Relation.select, Tx.gets_bind_apply] at hoptions
  obtain ⟨roles, s₄, hroles, hpure⟩ := Tx.bind_eq_ok hoptions
  obtain rfl := Except.ok.inj (Prod.mk.inj hpure).1
  obtain ⟨role', -, t₄, t₅, hoption⟩ := Tx.mem_of_forEach_eq_ok hroles roleOption hrole
  obtain rfl := Except.ok.inj (Prod.mk.inj hoption).1
  obtain ⟨hhead, rfl⟩ := hrecommended
  obtain ⟨e, he, rfl⟩ := Option.map_eq_some_iff.mp hhead
  have hrelevant := (List.perm_insertionSort _ _).mem_iff.mp (List.mem_of_head? he)
  obtain ⟨hentry, hrole'⟩ := List.mem_filter.mp hrelevant
  obtain ⟨hmem', hlisted⟩ := List.mem_filter.mp hentry
  obtain ⟨hprovider, havailable⟩ := of_decide_eq_true hlisted
  exact ⟨e, hmem', hprovider, havailable, of_decide_eq_true hrole', rfl⟩

/-- **Every selection is of an entry** for conversations of a usable provider. -/
theorem Selects.chosen {s : Session} {text : String} (hids : ReadableIds rt s.db)
    (h : Selects rt s text) : ∃ e provider, Chosen rt s.db text e provider := by
  cases h with
  | accepted h =>
      rcases hs : validateModelSelection rt "conversation_model" text s with ⟨r, s'⟩
      rw [hs] at h
      obtain rfl : r = .ok ⟨⟩ := h
      obtain ⟨modelId, hparse, hs⟩ := Tx.orRaise_bind_eq_ok hs
      rw [Relation.find, Tx.gets_bind_apply] at hs
      obtain ⟨e, hfound, hs⟩ := Tx.orRaise_bind_eq_ok hs
      rw [Relation.find, Tx.gets_bind_apply] at hs
      obtain ⟨provider, hprovider, -⟩ := Tx.orRaise_bind_eq_ok hs
      obtain ⟨hfind, hentry⟩ := Option.filter_eq_some_iff.mp hfound
      obtain ⟨hfindp, hverified⟩ := Option.filter_eq_some_iff.mp hprovider
      obtain ⟨havailable, hrole⟩ := of_decide_eq_true hentry
      obtain ⟨hstate, henabled⟩ := of_decide_eq_true hverified
      refine ⟨e, provider, ?_, Table.mem_of_find? hfind, havailable, hrole, hfindp, henabled, hstate⟩
      rw [hparse, Table.key_of_find? hfind]
  | recommended h hmem hfind husable =>
      obtain ⟨e, he, hprovider, havailable, hrole, rfl⟩ := recommended_entry h hmem
      exact ⟨e, _, hids.back e he, he, havailable, hrole, hprovider ▸ hfind, husable⟩

/-! ### The use of a selection -/

/-- The capabilities that are enabled. -/
def enabledOf (capabilities : Json) : List String := capabilities.entries.filterMap fun kv =>
  match kv.2 with
  | .bool true => some kv.1
  | _ => none

theorem mem_enabledOf_capabilitiesJson {capabilities : List (String × Bool)} {name : String} :
    name ∈ enabledOf (capabilitiesJson capabilities) ↔ (name, true) ∈ capabilities := by
  unfold enabledOf capabilitiesJson Json.entries
  rw [List.mem_filterMap]
  constructor
  · rintro ⟨kv, hkv, hname⟩
    obtain ⟨⟨key, enabled⟩, hmem, rfl⟩ := List.mem_map.mp hkv
    cases enabled with
    | false => simp at hname
    | true =>
        obtain rfl : key = name := by simpa using hname
        exact hmem
  · intro hmem
    exact ⟨(name, .bool true), List.mem_map.mpr ⟨(name, true), hmem, rfl⟩, rfl⟩

/-- The entry of a listed model has the capabilities for a conversation exactly if they are advertised. -/
theorem enabled_iff_advertises {e : ModelCatalogEntry} {m : ProviderModel} (h : ListedAs rt e m) :
    ("responses" ∈ enabledOf e.capabilities ∧ "structured_outputs" ∈ enabledOf e.capabilities) ↔
      Advertises rt m := by
  rw [h.capabilities, mem_enabledOf_capabilitiesJson, mem_enabledOf_capabilitiesJson, Advertises]
  simp [classifyModel]

/-- The stored selection of the conversation model. -/
def Stores (db : Db) (text : String) : Prop :=
  ∃ row, db.setting? "models" "conversation_model" = some row ∧ row.value = stored (.str text)

variable {out : Outside}

/-- A chosen model is used if its entry has the capabilities for a conversation, and refused otherwise. -/
theorem primaryModel_chosen {t : Session} {text : String} {e : ModelCatalogEntry}
    {provider : ProviderConfiguration} (hempty : out.parseUuid "" = none)
    (hchosen : Chosen out.toRuntime t.db text e provider) (hstores : Stores t.db text) :
    primaryModel out t =
      if "responses" ∈ enabledOf e.capabilities ∧ "structured_outputs" ∈ enabledOf e.capabilities then
        (.ok (provider, e), t)
      else (.error (unavailable
        "Vybraný model nemá ověřenou schopnost strukturované konverzační odpovědi."), t) := by
  obtain ⟨row, hsetting, hvalue⟩ := hstores
  have htext : text ≠ "" := by
    rintro rfl
    exact Option.some_ne_none _ (hchosen.text.symm.trans hempty)
  have hselected : (row.value.getD "value" .null) = .str text := by
    rw [hvalue]
    rfl
  have htruthy : ¬((row.value.getD "value" .null).truthy = false) := by
    rw [hselected]
    simp [Json.truthy, htext]
  have hentry : (t.db.modelCatalogEntries.find? e.id).filter (·.available) = some e := by
    rw [Table.find?_of_mem hchosen.mem]
    exact Option.filter_some_pos hchosen.available
  have hprovider : (t.db.providerConfigurations.find? e.providerId).filter
      (fun p => p.enabled ∧ p.verificationState = "verified") = some provider := by
    rw [hchosen.find]
    exact Option.filter_some_pos (decide_eq_true hchosen.usable)
  unfold primaryModel
  rw [Tx.gets_bind_apply, hsetting]
  simp only [Option.elim_some]
  refine (Tx.raiseIf_bind_of_not htruthy _ _ t).trans ?_
  rw [hselected]
  show (Tx.orRaise (out.parseUuid text) _ >>= _) t = _
  rw [hchosen.text, Tx.orRaise_some, Tx.pure_bind, Tx.gets_bind_apply, hentry, Tx.orRaise_some, Tx.pure_bind]
  by_cases hcapable : "responses" ∈ enabledOf e.capabilities ∧ "structured_outputs" ∈ enabledOf e.capabilities
  · rw [if_pos hcapable]
    refine (Tx.raiseIf_bind_of_not (not_not.mpr hcapable) _ _ t).trans ?_
    rw [Tx.gets_bind_apply, hprovider]
    rfl
  · rw [if_neg hcapable]
    exact Tx.raiseIf_bind_of_pos hcapable _ _ t

/-- The selected model is used if its provider advertises what a conversation needs, and otherwise the conversation
model is unavailable. -/
def UsedIfAdvertised (out : Outside) (s t : Session) (text : String) : Prop :=
  ∃ e provider m, Chosen out.toRuntime s.db text e provider ∧ ListedAs out.toRuntime e m ∧
    (Advertises out.toRuntime m ↔ primaryModel out t = (.ok (provider, e), t)) ∧
    (¬Advertises out.toRuntime m ↔ ∃ reason, primaryModel out t =
      (.error (.domain (.capabilityUnavailable "conversation_model" reason)), t))

/-- **A selected model converses exactly if its provider advertises what a conversation needs**, as long as the
catalogue and the providers stay as they were; otherwise the conversation model is unavailable. -/
theorem selection_converses_iff {s t : Session} {text : String} (hids : ReadableIds out.toRuntime s.db)
    (hclassified : Classified out.toRuntime s.db) (hselects : Selects out.toRuntime s text)
    (hentries : t.db.modelCatalogEntries = s.db.modelCatalogEntries)
    (hproviders : t.db.providerConfigurations = s.db.providerConfigurations) (hstores : Stores t.db text) :
    UsedIfAdvertised out s t text := by
  obtain ⟨e, provider, hchosen⟩ := hselects.chosen hids
  obtain ⟨m, hlisted⟩ := hclassified e hchosen.mem hchosen.available
  have hchosen' : Chosen out.toRuntime t.db text e provider :=
    ⟨hchosen.text, hentries ▸ hchosen.mem, hchosen.available, hchosen.role, hproviders ▸ hchosen.find,
      hchosen.usable⟩
  have heval := primaryModel_chosen hids.empty hchosen' hstores
  refine ⟨e, provider, m, hchosen, hlisted, ?_, ?_⟩
  · rw [heval, ← enabled_iff_advertises hlisted]
    constructor
    · exact fun h => if_pos h
    · intro h
      by_contra hnot
      rw [if_neg hnot] at h
      simp at h
  · rw [heval, ← enabled_iff_advertises hlisted]
    constructor
    · exact fun h => ⟨_, if_neg h⟩
    · rintro ⟨reason, h⟩ hcapable
      rw [if_pos hcapable] at h
      simp at h

/-! ### A model that is known by its name only -/

/-- The sample runtime outside of a provider. -/
def namedOutside : Outside :=
  .sample (.sample 1767268800000000 []) (fun _ _ => .error (.other "ConnectError")) fun _ => .error .null

/-- What the model advertises: nothing, or what is needed. -/
def advertised (named : Bool) : List (String × Bool) :=
  if named then [] else [("Responses", true), ("structured_outputs", true)]

def namedModel (named : Bool) : ProviderModel := ⟨"gpt-5-mini", "GPT-5 mini", advertised named⟩

/-- Its entry in the catalogue. -/
def namedEntry (named : Bool) : ModelCatalogEntry :=
  { id := 4, providerId := 5, externalId := "gpt-5-mini", displayName := "GPT-5 mini"
    role := "conversation_model", lastSeenAt := .utc 1767268800000000
    capabilities := capabilitiesJson
      (classifyModel namedOutside.casefold "gpt-5-mini" "GPT-5 mini" (advertised named)).capabilities }

def usableProvider : ProviderConfiguration :=
  { id := 5, providerType := "openai", displayName := "OpenAI", baseUrl := "https://api.openai.com/v1"
    enabled := true, verificationState := "verified" }

/-- The model is selected. -/
def namedSelected (named : Bool) : Session where
  began := .utc 1767268800000000
  db := {
    modelCatalogEntries := .singleton (namedEntry named)
    providerConfigurations := .singleton usableProvider
    applicationSettings := .singleton
      { id := 6, area := "models", key := "conversation_model"
        value := stored (.str (Runtime.uuidText 4)) } }

theorem namedOutside_texts : namedOutside.parseUuid = Runtime.parseUuidText ∧
    namedOutside.strUuid = Runtime.uuidText := ⟨rfl, rfl⟩

theorem parse_namedEntry : namedOutside.parseUuid (Runtime.uuidText 4) = some 4 := by
  rw [namedOutside_texts.1]
  exact Runtime.parseUuidText_of_lt (by decide)

theorem namedSelected_ids (named : Bool) : ReadableIds namedOutside.toRuntime (namedSelected named).db := by
  constructor
  · intro e he
    obtain rfl := List.mem_singleton.mp he
    rw [namedOutside_texts.2]
    exact parse_namedEntry
  · rw [namedOutside_texts.1]
    decide

theorem namedSelected_classified (named : Bool) :
    Classified namedOutside.toRuntime (namedSelected named).db := by
  intro e he _
  obtain rfl := List.mem_singleton.mp he
  refine ⟨namedModel named, rfl, ?_, rfl⟩
  cases named <;> decide +kernel

theorem namedSelected_selects (named : Bool) :
    Selects namedOutside.toRuntime (namedSelected named) (Runtime.uuidText 4) := by
  refine .accepted ?_
  unfold validateModelSelection
  rw [parse_namedEntry]
  rfl

/-- A model that is selected by its name cannot converse when nothing is advertised. -/
theorem selection_unavailable : ¬∀ (out : Outside) (s t : Session) (text : String),
    ReadableIds out.toRuntime s.db → Classified out.toRuntime s.db → Selects out.toRuntime s text →
    t.db.modelCatalogEntries = s.db.modelCatalogEntries →
    t.db.providerConfigurations = s.db.providerConfigurations → Stores t.db text →
    ∃ provider model, (primaryModel out t).1 = .ok (provider, model) := by
  intro h
  obtain ⟨provider, model, hok⟩ := h namedOutside (namedSelected true) (namedSelected true)
    (Runtime.uuidText 4) (namedSelected_ids _) (namedSelected_classified _) (namedSelected_selects _) rfl rfl
    ⟨_, rfl, rfl⟩
  have hrefused : (match (primaryModel namedOutside (namedSelected true)).1 with
      | .ok _ => true
      | .error _ => false) = false := by
    decide +kernel
  rw [hok] at hrefused
  simp at hrefused

/-- The same model converses when the provider advertises what is needed. -/
theorem selection_converses_named :
    UsedIfAdvertised namedOutside (namedSelected false) (namedSelected false) (Runtime.uuidText 4) :=
  selection_converses_iff (namedSelected_ids _) (namedSelected_classified _) (namedSelected_selects _) rfl rfl
    ⟨_, rfl, rfl⟩

end Selection

end KajovoDagmar
