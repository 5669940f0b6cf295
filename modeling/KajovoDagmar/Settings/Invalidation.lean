import KajovoDagmar.Db.Sample
import KajovoDagmar.Providers.Catalogue
import KajovoDagmar.Providers.Recommendations
import KajovoDagmar.Worker.Indexing

/-! # The embedding model and the search index

The settings that write `models.embedding_model` and the jobs of the index, each in a session of its own.
`update_area` and `restore_revision` make every document stale and queue a job that indexes them again;
`apply_recommended` writes the setting without it.  A document ceases to be stale only when a job has indexed it
under the model that is selected then. -/

namespace KajovoDagmar.Invalidation

open SettingsService ModelRecommendationService Worker

/-! ### What is said of a state -/

/-- The stored value of the setting. -/
def embeddingValue (db : Db) : Json := previousValue (db.setting? "models" "embedding_model")

/-- Every document is stale, and the job that indexes them again is queued. -/
structure Invalidated (db : Db) : Prop where
  stale : ∀ d ∈ db.searchDocuments, d.stale = true
  queued : ∃ job ∈ db.backgroundJobs, job.kind = "search_reindex_all" ∧ job.state = "queued"

/-- The text of a document that its vector is made of. -/
def vectorText (d : SearchDocument) : String :=
  if d.ownerType = "memory" then d.searchableText else embeddedText d.searchableText

/-- The document has a vector of its text under the model that the setting names. -/
def HasVector (rt : Runtime) (db : Db) (value : Json) (d : SearchDocument) : Prop :=
  ∃ modelId e, rt.parseUuid (modelValue rt value) = some modelId ∧
    db.modelCatalogEntries.find? modelId = some e ∧ ∃ x ∈ db.searchEmbeddings,
      x.documentId = d.id ∧ x.modelId = e.externalId ∧ x.embeddingText = vectorText d

/-- The document is indexed under the selected model.  Without a model, and for a conversation without a text,
there is no vector to be made. -/
def IndexedUnder (rt : Runtime) (db : Db) (d : SearchDocument) : Prop :=
  ∀ value, selectedEmbedding db = some value →
    (d.ownerType = "conversation" ∧ d.searchableText = "") ∨ HasVector rt db value d

/-- The documents are those of memory items and conversations. -/
def Documented (db : Db) : Prop :=
  ∀ d ∈ db.searchDocuments, d.ownerType = "memory" ∨ d.ownerType = "conversation"

/-! ### Jobs of the index -/

variable {rt : Runtime} {deps : IndexDeps}

/-- What an index job does: a document that is not stale is as it was, or is indexed under the selected
model. -/
structure Reindexes (rt : Runtime) (db db' : Db) : Prop where
  settings : db'.applicationSettings = db.applicationSettings
  catalogue : db'.modelCatalogEntries = db.modelCatalogEntries
  documented : Documented db → Documented db'
  fresh : ∀ d ∈ db'.searchDocuments, d.stale = false → IndexedUnder rt db' d ∨
    d ∈ db.searchDocuments ∧ (IndexedUnder rt db d → IndexedUnder rt db' d)

theorem Reindexes.refl (db : Db) : Reindexes rt db db :=
  ⟨rfl, rfl, id, fun _ hd _ => .inr ⟨hd, id⟩⟩

theorem Reindexes.trans {db db' db'' : Db} (h : Reindexes rt db db') (h' : Reindexes rt db' db'') :
    Reindexes rt db db'' where
  settings := h'.settings.trans h.settings
  catalogue := h'.catalogue.trans h.catalogue
  documented hd := h'.documented (h.documented hd)
  fresh d hd hfresh := by
    rcases h'.fresh d hd hfresh with hindexed | ⟨hmem, himp⟩
    · exact .inl hindexed
    · rcases h.fresh d hmem hfresh with hindexed | ⟨hmem', himp'⟩
      · exact .inl (himp hindexed)
      · exact .inr ⟨hmem', fun hindexed => himp (himp' hindexed)⟩

/-- The settings, the catalogue and the documents. -/
def indexView (db : Db) :
    Table ApplicationSetting.id × Table ModelCatalogEntry.id × Table SearchDocument.id :=
  (db.applicationSettings, db.modelCatalogEntries, db.searchDocuments)

/-- A stored vector is of its document, its model and its text, and the vectors of other documents stay. -/
theorem storeEmbedding_ok {documentId : Uuid} {modelId text : String} {vector : SearchVector} {s s' : Session}
    {u : PUnit} (h : storeEmbedding rt documentId modelId text vector s = (.ok u, s')) :
    indexView s'.db = indexView s.db ∧
    (∃ x ∈ s'.db.searchEmbeddings, x.documentId = documentId ∧ x.modelId = modelId ∧ x.embeddingText = text) ∧
    ∀ x ∈ s.db.searchEmbeddings, x.documentId ≠ documentId → x ∈ s'.db.searchEmbeddings := by
  rw [storeEmbedding, Tx.gets_bind_apply] at h
  cases hhead : embedding? s.db documentId modelId with
  | none =>
    rw [hhead] at h
    obtain ⟨id, s₁, hid, hadd⟩ := Tx.bind_eq_ok h
    obtain ⟨-, rfl⟩ := Prod.mk.inj hid
    obtain ⟨t, ht, rfl⟩ := Relation.add_eq_ok hadd
    have hmem : ∀ x, x ∈ t ↔
        x ∈ s.db.searchEmbeddings ∨ x = newEmbedding rt _ documentId modelId text vector :=
      fun x => Table.mem_insert? (Relation.insertRow_eq_ok ht).1
    exact ⟨rfl, ⟨_, (hmem _).mpr (.inr rfl), rfl, rfl, rfl⟩, fun x hx _ => (hmem x).mpr (.inl hx)⟩
  | some x =>
    rw [hhead] at h
    have hx := List.mem_filter.mp (List.mem_of_mem_head? (Option.mem_def.mpr hhead))
    obtain ⟨hdocument, hmodel⟩ := of_decide_eq_true hx.2
    obtain rfl := Relation.save_eq_ok h
    have hmem : ∀ y, y ∈ s.db.searchEmbeddings.put (reembedded rt x text vector) ↔ _ :=
      fun y => Table.mem_put_iff
    refine ⟨rfl, ⟨_, (hmem _).mpr (.inr ⟨rfl, x, hx.1, rfl⟩), hdocument, hmodel, rfl⟩, fun y hy hne => ?_⟩
    refine (hmem y).mpr (.inl ⟨hy, fun hid => hne ?_⟩)
    obtain rfl : y = x := Table.eq_of_key hy hx.1 hid
    exact hdocument

theorem resolveModel_ok {modelId : Uuid} {s s' : Session} {model : ModelCatalogEntry}
    {provider : ProviderConfiguration} (h : resolveModel modelId s = (.ok (model, provider), s')) :
    s.db.modelCatalogEntries.find? modelId = some model ∧ s' = s := by
  rw [resolveModel, Relation.find, Tx.gets_bind_apply] at h
  obtain ⟨model', hmodel, h⟩ := Tx.orRaise_bind_eq_ok h
  rw [Relation.find, Tx.gets_bind_apply] at h
  obtain ⟨provider', -, hpure⟩ := Tx.orRaise_bind_eq_ok h
  obtain ⟨hpair, rfl⟩ := Prod.mk.inj hpure
  obtain ⟨rfl, -⟩ := Prod.mk.inj (Except.ok.inj hpair)
  exact ⟨(Option.filter_eq_some_iff.mp hmodel).1, rfl⟩

/-- What one document's vector changes: nothing but vectors, and those of other documents stay. -/
structure Embeds (documentId : Uuid) (db db' : Db) : Prop where
  view : indexView db' = indexView db
  others : ∀ x ∈ db.searchEmbeddings, x.documentId ≠ documentId → x ∈ db'.searchEmbeddings

theorem embedDocument_ok {documentId : Uuid} {text : String} {value : Json} {s s' : Session} {u : PUnit}
    (h : embedDocument rt deps documentId text value s = (.ok u, s')) :
    Embeds documentId s.db s'.db ∧ ∃ modelId e, rt.parseUuid (modelValue rt value) = some modelId ∧
      s'.db.modelCatalogEntries.find? modelId = some e ∧ ∃ x ∈ s'.db.searchEmbeddings,
        x.documentId = documentId ∧ x.modelId = e.externalId ∧ x.embeddingText = text := by
  obtain ⟨modelId, hparse, h₁⟩ := Tx.orRaise_bind_eq_ok h
  obtain ⟨⟨model, provider⟩, s₁, hresolve, h₂⟩ := Tx.bind_eq_ok h₁
  obtain ⟨hfind, rfl⟩ := resolveModel_ok hresolve
  obtain ⟨runtime, s₂, hruntime, h₃⟩ := Tx.bind_eq_ok h₂
  have hreads : Tx.Reads Eq (ProviderService.runtime deps.providers provider) := Catalogue.runtime_reads provider
  have hstate := (hreads s₁).1
  rw [hruntime] at hstate
  obtain rfl : s₂ = s₁ := hstate
  obtain ⟨vectors, s₃, hvectors, h₄⟩ := Tx.bind_eq_ok h₃
  obtain ⟨-, rfl⟩ := Prod.mk.inj hvectors
  obtain ⟨vector, s₄, hvector, h₅⟩ := Tx.bind_eq_ok h₄
  obtain ⟨-, rfl⟩ := Prod.mk.inj hvector
  obtain ⟨hview, hx, hothers⟩ := storeEmbedding_ok h₅
  have hcatalogue : s'.db.modelCatalogEntries = s₂.db.modelCatalogEntries := congrArg (fun v => v.2.1) hview
  refine ⟨⟨hview, hothers⟩, modelId, model, hparse, ?_, hx⟩
  rw [hcatalogue]
  exact hfind

theorem Embeds.refl (documentId : Uuid) (db : Db) : Embeds documentId db db := ⟨rfl, fun _ hx _ => hx⟩

theorem selectedEmbedding_congr {db db' : Db} (h : db'.applicationSettings = db.applicationSettings) :
    selectedEmbedding db' = selectedEmbedding db := by
  rw [selectedEmbedding, selectedEmbedding, Db.setting?, Db.setting?, h]

/-- After the vector of a document has been made, the document is indexed. -/
theorem embedIfSelected_ok {d : SearchDocument} {text : String} {empty : Bool} {s s' : Session} {u : PUnit}
    (htext : text = vectorText d) (hempty : empty = true → d.ownerType = "conversation" ∧ d.searchableText = "")
    (h : embedIfSelected rt deps d.id text empty s = (.ok u, s')) :
    Embeds d.id s.db s'.db ∧ IndexedUnder rt s'.db d := by
  rw [embedIfSelected, Tx.gets_bind_apply] at h
  cases hselected : selectedEmbedding s.db with
  | none =>
    rw [hselected] at h
    obtain ⟨-, rfl⟩ := Prod.mk.inj h
    refine ⟨.refl _ _, fun value hvalue => ?_⟩
    rw [hselected] at hvalue
    cases hvalue
  | some value =>
    rw [hselected] at h
    cases empty with
    | true =>
      obtain ⟨-, rfl⟩ := Prod.mk.inj h
      exact ⟨.refl _ _, fun _ _ => .inl (hempty rfl)⟩
    | false =>
      obtain ⟨hembeds, modelId, e, hparse, hfind, x, hx, hdocument, hmodel, hof⟩ := embedDocument_ok h
      refine ⟨hembeds, fun value' hvalue' => .inr ?_⟩
      rw [selectedEmbedding_congr (congrArg Prod.fst hembeds.view :), hselected] at hvalue'
      obtain rfl := Option.some.inj hvalue'
      exact ⟨modelId, e, hparse, hfind, x, hx, hdocument, hmodel, hof.trans htext⟩

/-- The document of a text is there, and the others are as they were. -/
theorem storeDocument_ok {ownerType text : String} {ownerId accountId documentId : Uuid} {sourceVersion : ℤ}
    {found : Option SearchDocument} {s s' : Session}
    (hfound : ∀ d, found = some d → d ∈ s.db.searchDocuments ∧ d.ownerType = ownerType)
    (h : storeDocument rt ownerType ownerId accountId text sourceVersion found s = (.ok documentId, s')) :
    s'.db = { s.db with searchDocuments := s'.db.searchDocuments } ∧
    (∃ d ∈ s'.db.searchDocuments, d.id = documentId ∧ d.ownerType = ownerType ∧ d.searchableText = text) ∧
    ∀ d ∈ s'.db.searchDocuments, d.id ≠ documentId → d ∈ s.db.searchDocuments := by
  cases found with
  | none =>
    obtain ⟨id, s₁, hid, h₁⟩ := Tx.bind_eq_ok h
    obtain ⟨-, rfl⟩ := Prod.mk.inj hid
    obtain ⟨v, s₂, hadd, hpure⟩ := Tx.bind_eq_ok h₁
    obtain ⟨hdocument, rfl⟩ := Prod.mk.inj hpure
    obtain rfl := Except.ok.inj hdocument
    obtain ⟨t, ht, rfl⟩ := Relation.add_eq_ok hadd
    have hmem := fun d => Table.mem_insert? (x := d) (Relation.insertRow_eq_ok ht).1
    refine ⟨rfl, ⟨_, (hmem _).mpr (.inr rfl), rfl, rfl, rfl⟩, fun d hd hne => ?_⟩
    rcases (hmem d).mp hd with hd | rfl
    · exact hd
    · exact absurd rfl hne
  | some document =>
    obtain ⟨hold, howner⟩ := hfound document rfl
    obtain ⟨v, s₂, hsave, hpure⟩ := Tx.bind_eq_ok h
    obtain ⟨hdocument, rfl⟩ := Prod.mk.inj hpure
    obtain rfl := Except.ok.inj hdocument
    obtain rfl := Relation.save_eq_ok hsave
    have hmem : ∀ d, d ∈ s.db.searchDocuments.put (redocumented document text sourceVersion) ↔ _ :=
      fun d => Table.mem_put_iff
    refine ⟨rfl, ⟨_, (hmem _).mpr (.inr ⟨rfl, document, hold, rfl⟩), rfl, howner, rfl⟩, fun d hd hne => ?_⟩
    rcases (hmem d).mp hd with ⟨hd, -⟩ | ⟨rfl, -⟩
    · exact hd
    · exact absurd rfl hne

/-- A document that is stored and given its vector is indexed; the others are as they were. -/
theorem indexText_ok {ownerType text embedded : String} {ownerId accountId : Uuid} {sourceVersion : ℤ}
    {empty : Bool} {found : Option SearchDocument} {s s' : Session} {u : PUnit}
    (howner : ownerType = "memory" ∨ ownerType = "conversation")
    (hfound : ∀ d, found = some d → d ∈ s.db.searchDocuments ∧ d.ownerType = ownerType)
    (hembedded : embedded = if ownerType = "memory" then text else embeddedText text)
    (hempty : empty = true → ownerType = "conversation" ∧ text = "")
    (h : (do
      let documentId ← storeDocument rt ownerType ownerId accountId text sourceVersion found
      embedIfSelected rt deps documentId embedded empty : Work PUnit) s = (.ok u, s')) :
    Reindexes rt s.db s'.db := by
  obtain ⟨documentId, s₁, hstore, hembed⟩ := Tx.bind_eq_ok h
  obtain ⟨hdb, ⟨d, hd, rfl, hof, htext⟩, hothers⟩ := storeDocument_ok hfound hstore
  obtain ⟨hembeds, hindexed⟩ := embedIfSelected_ok (d := d) (by rw [vectorText, hof, htext, hembedded])
    (by rw [hof, htext]; exact hempty) hembed
  have hsettings : s'.db.applicationSettings = s.db.applicationSettings := by
    have hsame : s₁.db.applicationSettings = s.db.applicationSettings := by rw [hdb]
    exact (congrArg Prod.fst hembeds.view :).trans hsame
  have hcatalogue : s'.db.modelCatalogEntries = s.db.modelCatalogEntries := by
    have hsame : s₁.db.modelCatalogEntries = s.db.modelCatalogEntries := by rw [hdb]
    exact (congrArg (fun v => v.2.1) hembeds.view :).trans hsame
  have hdocuments : s'.db.searchDocuments = s₁.db.searchDocuments := congrArg (fun v => v.2.2) hembeds.view
  have hrows : ∀ d' ∈ s'.db.searchDocuments, d' = d ∨ d'.id ≠ d.id ∧ d' ∈ s.db.searchDocuments := by
    intro d' hd'
    rw [hdocuments] at hd'
    by_cases hid : d'.id = d.id
    · exact .inl (Table.eq_of_key hd' hd hid)
    · exact .inr ⟨hid, hothers d' hd' hid⟩
  refine ⟨hsettings, hcatalogue, fun hdocumented d' hd' => ?_, fun d' hd' hfresh => ?_⟩
  · rcases hrows d' hd' with rfl | ⟨-, hmem⟩
    · rw [hof]
      exact howner
    · exact hdocumented d' hmem
  · rcases hrows d' hd' with rfl | ⟨hne, hmem⟩
    · exact .inl hindexed
    · refine .inr ⟨hmem, fun hunder value hvalue => ?_⟩
      rw [selectedEmbedding_congr hsettings] at hvalue
      rcases hunder value hvalue with hnone | ⟨modelId, e, hparse, hfind, x, hx, hdocument, hmodel, hxtext⟩
      · exact .inl hnone
      · have hstays : x ∈ s₁.db.searchEmbeddings := by
          rw [hdb]
          exact hx
        refine .inr ⟨modelId, e, hparse, ?_, x, hembeds.others x hstays ?_, hdocument, hmodel, hxtext⟩
        · rw [hcatalogue]
          exact hfind
        · rw [hdocument]
          exact hne

/-- A document that is removed takes its own vectors with it. -/
theorem deleteDocument_ok {document : SearchDocument} {s s' : Session} {u : PUnit}
    (h : deleteDocument document s = (.ok u, s')) : Reindexes rt s.db s'.db := by
  obtain ⟨-, rfl⟩ := Prod.mk.inj h
  refine ⟨rfl, rfl, fun hdocumented d hd => hdocumented d (Table.mem_filter.mp hd).1, fun d hd _ => ?_⟩
  obtain ⟨hmem, hne⟩ := Table.mem_filter.mp hd
  refine .inr ⟨hmem, fun hunder value hvalue => ?_⟩
  rcases hunder value hvalue with hnone | ⟨modelId, e, hparse, hfind, x, hx, hdocument, hmodel, hxtext⟩
  · exact .inl hnone
  · have hstays : x ∈ s.db.searchEmbeddings.filter fun x => x.documentId ≠ document.id := by
      refine Table.mem_filter.mpr ⟨hx, decide_eq_true ?_⟩
      rw [hdocument]
      exact of_decide_eq_true hne
    exact .inr ⟨modelId, e, hparse, hfind, x, hstays, hdocument, hmodel, hxtext⟩

theorem mem_of_document? {db : Db} {ownerType : String} {ownerId : Uuid} {d : SearchDocument}
    (h : document? db ownerType ownerId = some d) : d ∈ db.searchDocuments ∧ d.ownerType = ownerType := by
  have hmem := List.mem_filter.mp (List.mem_of_mem_head? (Option.mem_def.mpr h))
  have howner := of_decide_eq_true hmem.2
  exact ⟨hmem.1, howner.1⟩

theorem indexMemory_ok {memory : MemoryItem} {s s' : Session} {u : PUnit}
    (h : indexMemory rt deps memory s = (.ok u, s')) : Reindexes rt s.db s'.db := by
  have hgo : indexMemoryFound rt deps memory (document? s.db "memory" memory.id) s = (.ok u, s') := h
  unfold indexMemoryFound at hgo
  cases hgone : (document? s.db "memory" memory.id).filter
      (fun _ => memory.state = .deleted ∨ memory.state = .merged) with
  | some document =>
    rw [hgone] at hgo
    exact deleteDocument_ok hgo
  | none =>
    rw [hgone] at hgo
    exact indexText_ok (.inl rfl) (fun d hd => mem_of_document? hd) rfl (fun h => by cases h) hgo

theorem memoryIndex_ok {payload : Json} {s s' : Session} {u : PUnit}
    (h : memoryIndex rt deps payload s = (.ok u, s')) : Reindexes rt s.db s'.db := by
  obtain ⟨memoryId, s₁, hid, h₁⟩ := Tx.bind_eq_ok h
  obtain ⟨-, rfl⟩ := Prod.mk.inj hid
  obtain ⟨memory, s₂, hmemory, h₂⟩ := Tx.bind_eq_ok h₁
  obtain ⟨-, rfl⟩ := Prod.mk.inj hmemory
  cases memory with
  | none =>
    obtain ⟨-, rfl⟩ := Prod.mk.inj h₂
    exact .refl _
  | some memory => exact indexMemory_ok h₂

theorem indexConversation_ok {conversation : Conversation} {s s' : Session} {u : PUnit}
    (h : indexConversation rt deps conversation s = (.ok u, s')) : Reindexes rt s.db s'.db := by
  obtain ⟨messages, s₁, hmessages, h₁⟩ := Tx.bind_eq_ok h
  obtain ⟨-, rfl⟩ := Prod.mk.inj hmessages
  obtain ⟨found, s₂, hfound, h₂⟩ := Tx.bind_eq_ok h₁
  obtain ⟨hdocument, rfl⟩ := Prod.mk.inj hfound
  have hdocument : found = document? s.db "conversation" conversation.id := (Except.ok.inj hdocument).symm
  unfold indexConversationFound at h₂
  by_cases hdeleted : conversation.state = .deleted
  · rw [if_pos hdeleted] at h₂
    cases found with
    | none =>
      obtain ⟨-, rfl⟩ := Prod.mk.inj h₂
      exact .refl _
    | some document => exact deleteDocument_ok h₂
  · rw [if_neg hdeleted] at h₂
    refine indexText_ok (.inr rfl) (fun d hd => ?_) rfl (fun h => ⟨rfl, of_decide_eq_true h⟩) h₂
    rw [hdocument] at hd
    exact mem_of_document? hd

theorem conversationIndex_ok {payload : Json} {s s' : Session} {u : PUnit}
    (h : conversationIndex rt deps payload s = (.ok u, s')) : Reindexes rt s.db s'.db := by
  obtain ⟨conversationId, s₁, hid, h₁⟩ := Tx.bind_eq_ok h
  obtain ⟨-, rfl⟩ := Prod.mk.inj hid
  obtain ⟨conversation, s₂, hconversation, h₂⟩ := Tx.bind_eq_ok h₁
  obtain ⟨-, rfl⟩ := Prod.mk.inj hconversation
  cases conversation with
  | none =>
    obtain ⟨-, rfl⟩ := Prod.mk.inj h₂
    exact .refl _
  | some conversation => exact indexConversation_ok h₂

/-- The stale documents are indexed one after the other. -/
theorem forEach_reindexDocument_ok {documents : List SearchDocument} {s s' : Session} {us : List PUnit}
    (hdocumented : ∀ d ∈ documents, d.ownerType = "memory" ∨ d.ownerType = "conversation")
    (h : Tx.forEach (reindexDocument rt deps) documents s = (.ok us, s')) : Reindexes rt s.db s'.db := by
  induction documents generalizing s us with
  | nil =>
    obtain ⟨-, rfl⟩ := Prod.mk.inj h
    exact .refl _
  | cons d rest ih =>
    obtain ⟨u, s₁, hfirst, h₁⟩ := Tx.bind_eq_ok h
    obtain ⟨us', s₂, hrest, hpure⟩ := Tx.bind_eq_ok h₁
    obtain ⟨-, rfl⟩ := Prod.mk.inj hpure
    have hone : Reindexes rt s.db s₁.db := by
      unfold reindexDocument at hfirst
      split at hfirst
      · exact memoryIndex_ok hfirst
      · next hmemory =>
        have hconversation := (hdocumented d List.mem_cons_self).resolve_left hmemory
        rw [if_pos hconversation] at hfirst
        exact conversationIndex_ok hfirst
    exact hone.trans (ih (fun d' hd' => hdocumented d' (List.mem_cons_of_mem _ hd')) hrest)

theorem searchReindexAll_ok {locked : SearchDocument → Bool} {s s' : Session} {u : PUnit}
    (hdocumented : Documented s.db) (h : searchReindexAll rt deps locked s = (.ok u, s')) :
    Reindexes rt s.db s'.db := by
  rw [searchReindexAll, Tx.gets_bind_apply] at h
  obtain ⟨us, s₁, hall, hpure⟩ := Tx.bind_eq_ok h
  obtain ⟨-, rfl⟩ := Prod.mk.inj hpure
  refine forEach_reindexDocument_ok (fun d hd => ?_) hall
  have hmem := (List.perm_insertionSort _ _).mem_iff.mp hd
  exact hdocumented d (List.mem_filter.mp hmem).1

/-! ### Writing a setting -/

/-- The settings, the documents and the jobs. -/
def settingsView (db : Db) :
    Table ApplicationSetting.id × Table SearchDocument.id × Table BackgroundJob.id :=
  (db.applicationSettings, db.searchDocuments, db.backgroundJobs)

/-- One setting has got the value; the other settings, the documents and the jobs are as they were. -/
structure Stores (area key : String) (value : Json) (db db' : Db) : Prop where
  documents : db'.searchDocuments = db.searchDocuments
  jobs : db'.backgroundJobs = db.backgroundJobs
  value : previousValue (db'.setting? area key) = value
  others : ∀ area' key', ¬(area' = area ∧ key' = key) → db'.setting? area' key' = db.setting? area' key'

theorem previousValue_stored {row : ApplicationSetting} {value : Json} (h : row.value = stored value) :
    previousValue (some row) = value := by
  rw [previousValue, Option.elim_some, h]
  rfl

/-- The rows of a place after the row of the setting has been replaced. -/
theorem setting?_put {db : Db} {row row' : ApplicationSetting} (hrow : row ∈ db.applicationSettings)
    (hid : row'.id = row.id) (harea : row'.area = row.area) (hkey : row'.key = row.key) (area key : String) :
    ({ db with applicationSettings := db.applicationSettings.put row' } : Db).setting? area key =
      (db.setting? area key).map (Table.overwrite ApplicationSetting.id row') := by
  have hplace : ∀ x ∈ db.applicationSettings.rows,
      decide ((Table.overwrite ApplicationSetting.id row' x).area = area ∧
        (Table.overwrite ApplicationSetting.id row' x).key = key) = decide (x.area = area ∧ x.key = key) := by
    intro x hx
    unfold Table.overwrite
    split
    · next hsame =>
      obtain rfl : x = row := Table.eq_of_key hx hrow (hsame.trans hid)
      rw [harea, hkey]
    · rfl
  unfold Db.setting? Table.select
  rw [Table.rows_put, List.filter_map, List.head?_map]
  congr 2
  exact List.filter_congr hplace

theorem stores_of_save {row row' : ApplicationSetting} {value : Json} {s s' : Session} {u : PUnit}
    (hfound : s.db.setting? row.area row.key = some row) (hid : row'.id = row.id) (harea : row'.area = row.area)
    (hkey : row'.key = row.key) (hvalue : row'.value = stored value)
    (h : Db.applicationSetting.save rt row' s = (.ok u, s')) : Stores row.area row.key value s.db s'.db := by
  obtain rfl := Relation.save_eq_ok h
  have hrow : row ∈ s.db.applicationSettings :=
    (List.mem_filter.mp (List.mem_of_mem_head? (Option.mem_def.mpr hfound))).1
  have hput := setting?_put hrow hid harea hkey
  refine ⟨rfl, rfl, ?_, fun area' key' hne => (hput area' key').trans ?_⟩
  · refine (congrArg previousValue ((hput row.area row.key).trans ?_)).trans (previousValue_stored hvalue)
    rw [hfound, Option.map_some, Table.overwrite, if_pos hid.symm]
  · cases hother : s.db.setting? area' key' with
    | none => rfl
    | some x =>
      have hx := List.mem_filter.mp (List.mem_of_mem_head? (Option.mem_def.mpr hother))
      have hplace := of_decide_eq_true hx.2
      rw [Option.map_some, Table.overwrite, if_neg]
      rintro hsame
      obtain rfl : x = row := Table.eq_of_key hx.1 hrow (hsame.trans hid)
      exact hne ⟨hplace.1.symm, hplace.2.symm⟩

theorem stores_of_add {row : ApplicationSetting} {value : Json} {s s' : Session} {u : PUnit}
    (hfound : s.db.setting? row.area row.key = none) (hvalue : row.value = stored value)
    (h : Db.applicationSetting.add rt row s = (.ok u, s')) : Stores row.area row.key value s.db s'.db := by
  obtain ⟨t, ht, rfl⟩ := Relation.add_eq_ok h
  have hrows : t.rows = s.db.applicationSettings.rows ++ [row] :=
    (Table.insert?_eq_some (Relation.insertRow_eq_ok ht).1).1
  have hsetting : ∀ area key, ({ s.db with applicationSettings := t } : Db).setting? area key =
      (s.db.setting? area key).or (if row.area = area ∧ row.key = key then some row else none) := by
    intro area key
    unfold Db.setting? Table.select
    rw [hrows, List.filter_append, List.head?_append]
    congr 1
    by_cases hplace : row.area = area ∧ row.key = key <;> simp [hplace]
  refine ⟨rfl, rfl, ?_, fun area' key' hne => (hsetting area' key').trans ?_⟩
  · refine (congrArg previousValue ((hsetting row.area row.key).trans ?_)).trans (previousValue_stored hvalue)
    rw [hfound, if_pos ⟨rfl, rfl⟩]
    rfl
  · rw [if_neg fun h => hne ⟨h.1.symm, h.2.symm⟩, Option.or_none]

theorem storeSetting_ok {d : SettingDefinition} {value : Json} {accountId : Uuid} {row : ApplicationSetting}
    {s s' : Session}
    (h : storeSetting rt d value accountId (s.db.setting? d.area d.key) s = (.ok row, s')) :
    Stores d.area d.key value s.db s'.db := by
  cases hfound : s.db.setting? d.area d.key with
  | none =>
    rw [hfound] at h
    obtain ⟨id, s₁, hid, h₁⟩ := Tx.bind_eq_ok h
    obtain ⟨-, rfl⟩ := Prod.mk.inj hid
    obtain ⟨u, s₂, hadd, hpure⟩ := Tx.bind_eq_ok h₁
    obtain ⟨-, rfl⟩ := Prod.mk.inj hpure
    refine stores_of_add (s := { s with tick := s.tick + 1 }) hfound ?_ hadd
    rfl
  | some x =>
    rw [hfound] at h
    obtain ⟨u, s₂, hsave, hpure⟩ := Tx.bind_eq_ok h
    obtain ⟨-, rfl⟩ := Prod.mk.inj hpure
    have hx := List.mem_filter.mp (List.mem_of_mem_head? (Option.mem_def.mpr hfound))
    obtain ⟨harea, hkey⟩ := of_decide_eq_true hx.2
    have hfound' : s.db.setting? x.area x.key = some x := by
      rw [harea, hkey]
      exact hfound
    have hstores : Stores x.area x.key value s.db s₂.db := by
      refine stores_of_save hfound' ?_ ?_ ?_ ?_ hsave <;> rfl
    rw [harea, hkey] at hstores
    exact hstores

/-! ### The settings service -/

/-- The service as the application makes it, with its services of providers and jobs. -/
def settingsDeps : SettingsDeps := { providers := true, jobs := true }

/-- What the recommendations leave as it is: the documents and the jobs. -/
def quietView (db : Db) : Table SearchDocument.id × Table BackgroundJob.id := (db.searchDocuments, db.backgroundJobs)

theorem Invalidated.congr {db db' : Db} (h : Invalidated db) (hquiet : quietView db' = quietView db) :
    Invalidated db' := by
  obtain ⟨hdocuments, hjobs⟩ := Prod.mk.inj hquiet
  constructor
  · rw [hdocuments]
    exact h.stale
  · rw [hjobs]
    exact h.queued

theorem Documented.congr {db db' : Db} (h : Documented db) (hdocuments : db'.searchDocuments = db.searchDocuments) :
    Documented db' := by
  rw [Documented, hdocuments]
  exact h

/-- The index has been invalidated. -/
structure Invalidates (db db' : Db) : Prop where
  invalidated : Invalidated db'
  documented : Documented db → Documented db'

/-- The index has been invalidated, or the value, the documents and the jobs are what they were. -/
def Moves (db db' : Db) : Prop :=
  Invalidates db db' ∨ embeddingValue db' = embeddingValue db ∧ quietView db' = quietView db

theorem Moves.refl (db : Db) : Moves db db := .inr ⟨rfl, rfl⟩

theorem Moves.documented {db db' : Db} (h : Moves db db') (hd : Documented db) : Documented db' := by
  rcases h with hinvalidates | ⟨-, hquiet⟩
  · exact hinvalidates.documented hd
  · exact hd.congr (congrArg Prod.fst hquiet)

theorem Moves.trans {db db' db'' : Db} (h : Moves db db') (h' : Moves db' db'') : Moves db db'' := by
  rcases h' with hinvalidates | ⟨hvalue', hquiet'⟩
  · exact .inl ⟨hinvalidates.invalidated, fun hd => hinvalidates.documented (h.documented hd)⟩
  · rcases h with hinvalidates | ⟨hvalue, hquiet⟩
    · refine .inl ⟨hinvalidates.invalidated.congr hquiet', fun hd => ?_⟩
      exact (hinvalidates.documented hd).congr (congrArg Prod.fst hquiet')
    · exact .inr ⟨hvalue'.trans hvalue, hquiet'.trans hquiet⟩

theorem embeddingValue_congr {db db' : Db} (h : db'.applicationSettings = db.applicationSettings) :
    embeddingValue db' = embeddingValue db := by
  rw [embeddingValue, embeddingValue, Db.setting?, Db.setting?, h]

theorem Moves.of_same {db db' : Db} (h : settingsView db' = settingsView db) : Moves db db' :=
  .inr ⟨embeddingValue_congr (congrArg Prod.fst h), congrArg Prod.snd h⟩

/-- A setting that is written and is not the embedding model, or keeps its value. -/
theorem Stores.moves {area key : String} {value : Json} {db db' : Db} (h : Stores area key value db db')
    (hsame : area = "models" → key = "embedding_model" → value = embeddingValue db) : Moves db db' := by
  refine .inr ⟨?_, Prod.ext h.documents h.jobs⟩
  by_cases hplace : "models" = area ∧ "embedding_model" = key
  · obtain ⟨rfl, rfl⟩ := hplace
    exact h.value.trans (hsame rfl rfl)
  · exact congrArg previousValue (h.others "models" "embedding_model" hplace)

theorem addRevision_view (row : ApplicationSetting) (value : Json) (effectBoundary changeKind : String)
    (accountId : Uuid) : Tx.Keeps (Same settingsView) (addRevision rt row value effectBoundary changeKind accountId) :=
  (Same.newUuid rt).bind fun _ => Relation.add_keeps (fun _ _ => rfl) _

theorem audit_view {context : AuditContext} {eventType result : String} {targetType : Option String}
    {targetId : Option Uuid} {details : List (String × Json)} :
    Tx.Keeps (Same settingsView) (AuditService.append rt context eventType result targetType targetId details) :=
  AuditService.append_keeps fun _ _ => rfl

theorem validateModelSelection_view (role text : String) :
    Tx.Keeps (Same settingsView) (validateModelSelection rt role text) := by
  refine (Tx.Keeps.orRaise _ _).bind fun modelId => (Relation.find_keeps _).bind fun found => ?_
  refine (Tx.Keeps.orRaise _ _).bind fun model => (Relation.find_keeps _).bind fun provider => ?_
  exact (Tx.Keeps.orRaise _ _).bind fun _ => Tx.Keeps.pure _

/-- The job that indexes every document is queued. -/
theorem enqueueReindex_ok {reason : String} {s s' : Session} {u : PUnit}
    (h : enqueueReindex rt settingsDeps reason s = (.ok u, s')) :
    s'.db.searchDocuments = s.db.searchDocuments ∧
    ∃ job ∈ s'.db.backgroundJobs, job.kind = "search_reindex_all" ∧ job.state = "queued" := by
  have hjobs : settingsDeps.jobs = true := rfl
  rw [enqueueReindex, if_pos hjobs] at h
  obtain ⟨job, s₁, henqueue, hpure⟩ := Tx.bind_eq_ok h
  obtain ⟨-, rfl⟩ := Prod.mk.inj hpure
  obtain ⟨hkind, -, hstate, hinsert, hdb, -⟩ := JobService.enqueue_ok henqueue
  refine ⟨?_, job, (Table.mem_insert? hinsert).mpr (.inr rfl), hkind, hstate⟩
  rw [hdb]

/-- The documents become stale and the job is queued. -/
theorem stale_and_enqueue_ok {reason : String} {s s₁ s' : Session} {u v : PUnit}
    (hstale : staleDocuments s = (.ok v, s₁)) (henqueue : enqueueReindex rt settingsDeps reason s₁ = (.ok u, s')) :
    Invalidates s.db s'.db := by
  obtain ⟨-, rfl⟩ := Prod.mk.inj hstale
  obtain ⟨hdocuments, hqueued⟩ := enqueueReindex_ok henqueue
  have hrows : ∀ d ∈ s'.db.searchDocuments, ∃ d₀ ∈ s.db.searchDocuments, d = { d₀ with stale := true } := by
    intro d hd
    rw [hdocuments] at hd
    obtain ⟨d₀, hd₀, rfl⟩ := List.mem_map.mp hd
    exact ⟨d₀, hd₀, rfl⟩
  refine ⟨⟨fun d hd => ?_, hqueued⟩, fun hdocumented d hd => ?_⟩
  · obtain ⟨d₀, -, rfl⟩ := hrows d hd
    rfl
  · obtain ⟨d₀, hd₀, rfl⟩ := hrows d hd
    exact hdocumented d₀ hd₀

theorem Invalidates.after {db db₁ db₂ db₃ : Db} (h : Invalidates db₁ db₂)
    (hbefore : db₁.searchDocuments = db.searchDocuments) (hafter : quietView db₃ = quietView db₂) :
    Invalidates db db₃ where
  invalidated := h.invalidated.congr hafter
  documented hd := (h.documented (hd.congr hbefore)).congr (congrArg Prod.fst hafter)

theorem requestReindex_ok {context : AuditContext} {s s' : Session} {u : PUnit}
    (h : requestReindex rt settingsDeps context s = (.ok u, s')) : Invalidates s.db s'.db := by
  rw [requestReindex, Tx.gets_bind_apply] at h
  obtain ⟨v, s₁, hstale, h₁⟩ := Tx.bind_eq_ok h
  obtain ⟨w, s₂, henqueue, h₂⟩ := Tx.bind_eq_ok h₁
  obtain ⟨event, s₃, haudit, hpure⟩ := Tx.bind_eq_ok h₂
  obtain ⟨-, rfl⟩ := Prod.mk.inj hpure
  have hview : settingsView s₃.db = settingsView s₂.db := audit_view.of_apply haudit
  exact (stale_and_enqueue_ok hstale henqueue).after rfl (congrArg Prod.snd hview)

theorem sameText_eq {previous value : Json} (h : sameText previous value = true) : value = previous := by
  cases previous <;> cases value <;> simp only [sameText, decide_eq_true_eq, Bool.false_eq_true] at h
  exact congrArg Json.str h.symm

/-- **One setting of `update_area`**: a changed embedding model invalidates the index. -/
theorem updateSetting_ok {area : String} {accountId : Uuid} {context : AuditContext} {change : String × Json}
    {outcome : String × Json} {s s' : Session}
    (h : updateSetting rt settingsDeps area accountId context change s = (.ok outcome, s')) :
    Moves s.db s'.db := by
  obtain ⟨d, hd, h₁⟩ := Tx.orRaise_bind_eq_ok h
  have hfind := List.find?_some hd
  obtain ⟨rfl, hkey⟩ := of_decide_eq_true hfind
  obtain ⟨value, s₁, hvalue, h₂⟩ := Tx.bind_eq_ok h₁
  obtain ⟨-, rfl⟩ := Prod.mk.inj hvalue
  obtain ⟨u, s₂, hcheck, h₃⟩ := Tx.bind_eq_ok h₂
  obtain ⟨expected, s₃, hexpected, h₄⟩ := Tx.bind_eq_ok h₃
  obtain ⟨-, rfl⟩ := Prod.mk.inj hexpected
  obtain ⟨found, s₄, hfound, h₅⟩ := Tx.bind_eq_ok h₄
  obtain ⟨hsetting, rfl⟩ := Prod.mk.inj hfound
  obtain ⟨-, h₆⟩ := Tx.raiseIf_bind_eq_ok h₅
  obtain ⟨row, s₅, hstore, h₇⟩ := Tx.bind_eq_ok h₆
  obtain ⟨v, s₆, hrevision, h₈⟩ := Tx.bind_eq_ok h₇
  obtain ⟨event, s₇, haudit, h₉⟩ := Tx.bind_eq_ok h₈
  obtain ⟨w, s₈, hreindex, hpure⟩ := Tx.bind_eq_ok h₉
  obtain ⟨-, rfl⟩ := Prod.mk.inj hpure
  have hplace : found = s₂.db.setting? d.area d.key := by
    rw [hkey]
    exact (Except.ok.inj hsetting).symm
  rw [hplace] at hstore
  have hstores := storeSetting_ok hstore
  have hbefore : Same settingsView s s₂ := by
    have hkeeps : Tx.Keeps (Same settingsView) (checkSelection rt settingsDeps d.area change.1 value) := by
      unfold checkSelection
      split
      · exact validateModelSelection_view _ _
      · exact Tx.Keeps.pure _
    exact hkeeps.of_apply hcheck
  have hafter : Same settingsView s₅ s₇ :=
    (audit_view.of_apply haudit).trans
      ((addRevision_view row value d.effectBoundary "changed" accountId).of_apply hrevision)
  unfold reindexIfChanged at hreindex
  by_cases hchanged : EmbeddingChanged d.area change.1 found value
  · rw [if_pos hchanged] at hreindex
    refine .inl ((requestReindex_ok hreindex).after ?_ rfl)
    calc s₇.db.searchDocuments = s₅.db.searchDocuments := congrArg (fun v => v.2.1) hafter
      _ = s₂.db.searchDocuments := hstores.documents
      _ = s.db.searchDocuments := congrArg (fun v => v.2.1) hbefore
  · rw [if_neg hchanged] at hreindex
    obtain ⟨-, rfl⟩ := Prod.mk.inj hreindex
    refine (Moves.of_same hbefore).trans ((hstores.moves fun harea hmodel => ?_).trans (Moves.of_same hafter))
    have hsame : sameText (previousValue found) value = true := by
      by_contra hne
      exact hchanged ⟨harea, hkey.symm.trans hmodel, Bool.eq_false_iff.mpr hne⟩
    rw [embeddingValue, sameText_eq hsame, hplace, harea, hmodel]

theorem updateArea_ok {area : String} {changes : List (String × Json)} {accountId : Uuid} {context : AuditContext}
    {outcomes : Json} {s s' : Session}
    (h : updateArea rt settingsDeps area changes accountId context s = (.ok outcomes, s')) : Moves s.db s'.db := by
  obtain ⟨results, s₁, hall, hpure⟩ := Tx.bind_eq_ok h
  obtain ⟨-, rfl⟩ := Prod.mk.inj hpure
  clear h hpure
  induction changes generalizing s results with
  | nil =>
    obtain ⟨-, rfl⟩ := Prod.mk.inj hall
    exact .refl _
  | cons change rest ih =>
    obtain ⟨outcome, s₂, hfirst, h₁⟩ := Tx.bind_eq_ok hall
    obtain ⟨results', s₃, hrest, hpure⟩ := Tx.bind_eq_ok h₁
    obtain ⟨-, rfl⟩ := Prod.mk.inj hpure
    exact (updateSetting_ok hfirst).trans (ih results' hrest)

/-- **A restored embedding model** invalidates the index, whatever its value was. -/
theorem restoreRevision_ok {area key : String} {revisionNumber expectedVersion : ℤ} {accountId : Uuid}
    {context : AuditContext} {row : ApplicationSetting} {s s' : Session}
    (h : restoreRevision rt settingsDeps area key revisionNumber expectedVersion accountId context s =
      (.ok row, s')) : Moves s.db s'.db := by
  obtain ⟨d, hd, h₁⟩ := Tx.orRaise_bind_eq_ok h
  obtain ⟨found, s₁, hfound, h₂⟩ := Tx.bind_eq_ok h₁
  obtain ⟨hsetting, rfl⟩ := Prod.mk.inj hfound
  obtain ⟨x, hx, h₃⟩ := Tx.orRaise_bind_eq_ok h₂
  obtain ⟨-, h₄⟩ := Tx.raiseIf_bind_eq_ok h₃
  obtain ⟨revision, s₂, hrevision, h₅⟩ := Tx.bind_eq_ok h₄
  obtain ⟨-, rfl⟩ := Prod.mk.inj hrevision
  obtain ⟨r, -, h₆⟩ := Tx.orRaise_bind_eq_ok h₅
  obtain ⟨value, s₃, hvalue, h₇⟩ := Tx.bind_eq_ok h₆
  obtain ⟨-, rfl⟩ := Prod.mk.inj hvalue
  obtain ⟨u, s₄, hcheck, h₈⟩ := Tx.bind_eq_ok h₇
  obtain ⟨v, s₅, hsave, h₉⟩ := Tx.bind_eq_ok h₈
  obtain ⟨w, s₆, hadd, h₁₀⟩ := Tx.bind_eq_ok h₉
  obtain ⟨z, s₇, hreindex, h₁₁⟩ := Tx.bind_eq_ok h₁₀
  obtain ⟨event, s₈, haudit, hpure⟩ := Tx.bind_eq_ok h₁₁
  obtain ⟨-, rfl⟩ := Prod.mk.inj hpure
  have hafter : Same settingsView s₇ s₈ := audit_view.of_apply haudit
  have hbefore : Same settingsView s s₄ := by
    have hkeeps : Tx.Keeps (Same settingsView) (checkRestored rt settingsDeps area key value) := by
      unfold checkRestored
      split
      · exact validateModelSelection_view _ _
      · exact Tx.Keeps.pure _
    exact hkeeps.of_apply hcheck
  have hfind : s.db.setting? area key = some x := (Except.ok.inj hsetting).trans hx
  have hmem := List.mem_filter.mp (List.mem_of_mem_head? (Option.mem_def.mpr hfind))
  obtain ⟨rfl, rfl⟩ := of_decide_eq_true hmem.2
  have hsettings : s₄.db.applicationSettings = s.db.applicationSettings := congrArg Prod.fst hbefore
  have hfind' : s₄.db.setting? x.area x.key = some x := by
    rw [← hfind, Db.setting?, Db.setting?, hsettings]
  have hstores : Stores x.area x.key value s₄.db s₅.db := by
    refine stores_of_save hfind' ?_ ?_ ?_ ?_ hsave <;> rfl
  have hwritten : Same settingsView s₅ s₆ := (addRevision_view _ _ _ _ _).of_apply hadd
  unfold reindexRestored at hreindex
  by_cases hembedding : x.area = "models" ∧ x.key = "embedding_model"
  · rw [if_pos hembedding] at hreindex
    obtain ⟨v', s₉, hstale, henqueue⟩ := Tx.bind_eq_ok hreindex
    refine .inl ((stale_and_enqueue_ok hstale henqueue).after ?_ (congrArg Prod.snd hafter))
    calc s₆.db.searchDocuments = s₅.db.searchDocuments := congrArg (fun v => v.2.1) hwritten
      _ = s₄.db.searchDocuments := hstores.documents
      _ = s.db.searchDocuments := congrArg (fun v => v.2.1) hbefore
  · rw [if_neg hembedding] at hreindex
    obtain ⟨-, rfl⟩ := Prod.mk.inj hreindex
    refine (Moves.of_same hbefore).trans ((hstores.moves fun harea hmodel => ?_).trans
      (Moves.of_same (hafter.trans hwritten)))
    exact absurd ⟨harea, hmodel⟩ hembedding

/-! ### Recommended models -/

/-- The embedding model that is recommended of a provider. -/
def recommendedEmbedding (rt : Runtime) (db : Db) (providerId : Uuid) : Option String :=
  ((relevant rt (db.modelCatalogEntries.select fun e => e.providerId = providerId ∧ e.available)
    "embedding_model").head?).map fun e => rt.strUuid e.id

theorem setSetting_ok {accountId : Uuid} {key modelId : String} {s s' : Session} {u : PUnit}
    (h : setSetting rt accountId key modelId s = (.ok u, s')) :
    quietView s'.db = quietView s.db ∧
    (key = "embedding_model" → embeddingValue s'.db = .str modelId) ∧
    (key ≠ "embedding_model" → embeddingValue s'.db = embeddingValue s.db) := by
  obtain ⟨d, hd, h₁⟩ := Tx.orRaise_bind_eq_ok h
  have hfind := List.find?_some hd
  obtain ⟨harea, hkey⟩ := of_decide_eq_true hfind
  obtain ⟨found, s₁, hfound, h₂⟩ := Tx.bind_eq_ok h₁
  obtain ⟨hsetting, rfl⟩ := Prod.mk.inj hfound
  obtain ⟨row, s₂, hstore, hadd⟩ := Tx.bind_eq_ok h₂
  have hplace : found = s.db.setting? d.area d.key := by
    rw [harea, hkey]
    exact (Except.ok.inj hsetting).symm
  rw [hplace] at hstore
  have hstores := storeSetting_ok hstore
  have hafter : Same settingsView s₂ s' := (addRevision_view _ _ _ _ _).of_apply hadd
  have hvalue : embeddingValue s'.db = embeddingValue s₂.db := embeddingValue_congr (congrArg Prod.fst hafter)
  have hquiet : quietView s₂.db = quietView s.db := Prod.ext hstores.documents hstores.jobs
  refine ⟨(congrArg Prod.snd hafter :).trans hquiet, fun hmodel => hvalue.trans ?_, fun hother => hvalue.trans ?_⟩
  · rw [embeddingValue, ← hmodel, ← hkey, ← harea]
    exact hstores.value
  · refine congrArg previousValue (hstores.others "models" "embedding_model" fun hsame => hother ?_)
    exact hkey.symm.trans hsame.2.symm

theorem applyRole_ok {accountId : Uuid} {role : RoleOptions} {changes : List (String × String)} {s s' : Session}
    (h : applyRole rt accountId role s = (.ok changes, s')) :
    quietView s'.db = quietView s.db ∧
    (embeddingValue s'.db = embeddingValue s.db ∨
      role.role = "embedding_model" ∧ ∃ modelId, role.recommendedModelId = some modelId ∧
        embeddingValue s'.db = .str modelId) ∧
    (role.role = "embedding_model" → ∀ modelId, role.recommendedModelId = some modelId →
      embeddingValue s'.db = .str modelId) := by
  unfold applyRole at h
  cases hmodel : role.recommendedModelId with
  | none =>
    rw [hmodel] at h
    obtain ⟨-, rfl⟩ := Prod.mk.inj h
    exact ⟨rfl, .inl rfl, fun _ modelId hsome => by cases hsome⟩
  | some modelId =>
    rw [hmodel] at h
    obtain ⟨u, s₁, hset, hpure⟩ := Tx.bind_eq_ok h
    obtain ⟨-, rfl⟩ := Prod.mk.inj hpure
    obtain ⟨hquiet, hsame, hother⟩ := setSetting_ok hset
    refine ⟨hquiet, ?_, fun hrole modelId' hsome => ?_⟩
    · by_cases hrole : role.role = "embedding_model"
      · exact .inr ⟨hrole, modelId, rfl, hsame hrole⟩
      · exact .inl (hother hrole)
    · obtain rfl := Option.some.inj hsome
      exact hsame hrole

/-- The roles one after the other; `recommended` is what is recommended for embeddings. -/
theorem forEach_applyRole_ok {accountId : Uuid} {recommended : Option String} {roles : List RoleOptions}
    {changes : List (List (String × String))} {s s' : Session}
    (hroles : ∀ role ∈ roles, role.role = "embedding_model" → role.recommendedModelId = recommended)
    (h : Tx.forEach (applyRole rt accountId) roles s = (.ok changes, s')) :
    quietView s'.db = quietView s.db ∧
    (embeddingValue s'.db = embeddingValue s.db ∨
      ∃ modelId, recommended = some modelId ∧ embeddingValue s'.db = .str modelId) ∧
    ((∃ role ∈ roles, role.role = "embedding_model") → ∀ modelId, recommended = some modelId →
      embeddingValue s'.db = .str modelId) := by
  induction roles generalizing s changes with
  | nil =>
    obtain ⟨-, rfl⟩ := Prod.mk.inj h
    exact ⟨rfl, .inl rfl, fun ⟨_, hrole, _⟩ => absurd hrole List.not_mem_nil⟩
  | cons role rest ih =>
    obtain ⟨change, s₁, hfirst, h₁⟩ := Tx.bind_eq_ok h
    obtain ⟨changes', s₂, hrest, hpure⟩ := Tx.bind_eq_ok h₁
    obtain ⟨-, rfl⟩ := Prod.mk.inj hpure
    obtain ⟨hquiet, hvalue, hset⟩ := applyRole_ok hfirst
    obtain ⟨hquiet', hvalue', hset'⟩ := ih (fun r hr => hroles r (List.mem_cons_of_mem _ hr)) hrest
    have hhead : role.role = "embedding_model" → role.recommendedModelId = recommended :=
      hroles role List.mem_cons_self
    refine ⟨hquiet'.trans hquiet, ?_, ?_⟩
    · rcases hvalue' with hsame | hmodel
      · rcases hvalue with hsame₁ | ⟨hrole, modelId, hsome, hmodel⟩
        · exact .inl (hsame.trans hsame₁)
        · exact .inr ⟨modelId, (hhead hrole).symm.trans hsome, hsame.trans hmodel⟩
      · exact .inr hmodel
    · rintro ⟨r, hr, hrole⟩ modelId hsome
      rcases List.mem_cons.mp hr with rfl | hr
      · rcases hvalue' with hsame | ⟨modelId', hsome', hmodel⟩
        · exact hsame.trans (hset hrole modelId ((hhead hrole).trans hsome))
        · obtain rfl := Option.some.inj (hsome.symm.trans hsome')
          exact hmodel
      · exact hset' ⟨r, hr, hrole⟩ modelId hsome

theorem modelOptions_keeps (providerId : Uuid) : Tx.Keeps Eq (modelOptions rt providerId) := by
  refine (Tx.Keeps.gets _).bind fun found => (Tx.Keeps.orRaise _ _).bind fun provider => ?_
  refine (Tx.Keeps.gets _).bind fun entries => Tx.Keeps.bind ?_ fun roles => Tx.Keeps.pure _
  exact Tx.Keeps.forEach fun role => (Tx.Keeps.gets _).bind fun selected => Tx.Keeps.pure _

/-- The options for embeddings recommend the best model of the provider. -/
theorem modelOptions_ok {providerId : Uuid} {options : ModelOptions} {s s' : Session}
    (h : modelOptions rt providerId s = (.ok options, s')) :
    (∀ role ∈ options.roles, role.role = "embedding_model" →
      role.recommendedModelId = recommendedEmbedding rt s.db providerId) ∧
    ∃ role ∈ options.roles, role.role = "embedding_model" := by
  rw [modelOptions, Relation.find, Tx.gets_bind_apply] at h
  obtain ⟨provider, -, h₁⟩ := Tx.orRaise_bind_eq_ok h
  rw [Relation.select, Tx.gets_bind_apply] at h₁
  obtain ⟨roles, s₁, hroles, hpure⟩ := Tx.bind_eq_ok h₁
  obtain rfl := Except.ok.inj (Prod.mk.inj hpure).1
  constructor
  · intro role hrole hembedding
    obtain ⟨name, -, t₁, t₂, hoption⟩ := Tx.mem_of_forEach_eq_ok hroles role hrole
    obtain rfl := Except.ok.inj (Prod.mk.inj hoption).1
    obtain rfl : name = "embedding_model" := hembedding
    rfl
  · have hlisted : "embedding_model" ∈ ModelRoles.roleOrder := by decide
    obtain ⟨role, hrole, t₁, t₂, hoption⟩ := Tx.exists_of_forEach_eq_ok hroles _ hlisted
    obtain rfl := Except.ok.inj (Prod.mk.inj hoption).1
    exact ⟨_, hrole, rfl⟩

/-- **`apply_recommended`** leaves the documents and the jobs as they are, whatever it does to the value. -/
theorem applyRecommended_ok {providerId accountId : Uuid} {context : AuditContext}
    {result : List (String × String) × ModelOptions} {s s' : Session}
    (h : applyRecommended rt providerId accountId context s = (.ok result, s')) :
    quietView s'.db = quietView s.db ∧
    (embeddingValue s'.db = embeddingValue s.db ∨ ∃ modelId,
      recommendedEmbedding rt s.db providerId = some modelId ∧ embeddingValue s'.db = .str modelId) ∧
    ∀ modelId, recommendedEmbedding rt s.db providerId = some modelId →
      embeddingValue s'.db = .str modelId := by
  obtain ⟨options, s₁, hoptions, h₁⟩ := Tx.bind_eq_ok h
  obtain ⟨applied, s₂, happlied, h₂⟩ := Tx.bind_eq_ok h₁
  obtain ⟨event, s₃, haudit, hpure⟩ := Tx.bind_eq_ok h₂
  obtain ⟨-, rfl⟩ := Prod.mk.inj hpure
  have hafter : Same settingsView s₂ s₃ := audit_view.of_apply haudit
  obtain ⟨hroles, hexists⟩ := modelOptions_ok hoptions
  obtain rfl : s = s₁ := (modelOptions_keeps providerId).of_apply hoptions
  obtain ⟨hquiet, hvalue, hset⟩ := forEach_applyRole_ok hroles happlied
  have hfinal : embeddingValue s₃.db = embeddingValue s₂.db := embeddingValue_congr (congrArg Prod.fst hafter)
  refine ⟨(congrArg Prod.snd hafter :).trans hquiet, ?_, fun modelId hsome => ?_⟩
  · rw [hfinal]
    exact hvalue
  · rw [hfinal]
    exact hset hexists modelId hsome

/-! ### Operations -/

/-- The kinds of the index jobs; `locked` are the documents that other transactions have locked. -/
inductive IndexJob where
  | memoryIndex
  | conversationIndex
  | searchReindexAll (locked : SearchDocument → Bool)

def IndexJob.handler (rt : Runtime) (deps : IndexDeps) (payload : Json) : IndexJob → Work PUnit
  | memoryIndex => Worker.memoryIndex rt deps payload
  | conversationIndex => Worker.conversationIndex rt deps payload
  | searchReindexAll locked => Worker.searchReindexAll rt deps locked

inductive Operation where
  | updateArea (area : String) (changes : List (String × Json)) (accountId : Uuid) (context : AuditContext)
  | restoreRevision (area key : String) (revisionNumber expectedVersion : ℤ) (accountId : Uuid)
      (context : AuditContext)
  | applyRecommended (providerId accountId : Uuid) (context : AuditContext)
  | indexing (kind : IndexJob) (job : BackgroundJob)

def Operation.work (rt : Runtime) (deps : IndexDeps) : Operation → Work PUnit
  | updateArea area changes accountId context => do
    let _ ← SettingsService.updateArea rt settingsDeps area changes accountId context
    pure ⟨⟩
  | restoreRevision area key revisionNumber expectedVersion accountId context => do
    let _ ← SettingsService.restoreRevision rt settingsDeps area key revisionNumber expectedVersion accountId context
    pure ⟨⟩
  | applyRecommended providerId accountId context => do
    let _ ← ModelRecommendationService.applyRecommended rt providerId accountId context
    pure ⟨⟩
  | indexing kind job => runJob rt (kind.handler rt deps job.payload) job

variable (rt deps) in
/-- Each operation is a session of its own. -/
def step (s : Session) (operation : Operation) : Option Session :=
  some (Database.session (operation.work rt deps) s).2

/-- The recommendation changes the embedding model while the index is in use. -/
def Operation.Slips (rt : Runtime) (db : Db) : Operation → Prop
  | applyRecommended providerId _ _ => ∃ modelId, recommendedEmbedding rt db providerId = some modelId ∧
      embeddingValue db ≠ .str modelId ∧ ¬Invalidated db
  | _ => False

/-- What the commit of an operation is to do: a changed value invalidates the index, and a document is no longer
stale only if a job has indexed it under the model that is selected. -/
structure Refreshes (rt : Runtime) (operation : Operation) (db db' : Db) : Prop where
  changed : embeddingValue db' ≠ embeddingValue db → Invalidated db'
  fresh : ∀ d ∈ db'.searchDocuments, d.stale = false →
    (∀ d₀ ∈ db.searchDocuments, d₀.id = d.id → d₀.stale = true) →
    (∃ kind job, operation = .indexing kind job) ∧ IndexedUnder rt db' d

theorem Moves.refreshes {operation : Operation} {db db' : Db} (h : Moves db db') :
    Refreshes rt operation db db' := by
  rcases h with hinvalidates | ⟨hvalue, hquiet⟩
  · refine ⟨fun _ => hinvalidates.invalidated, fun d hd hfresh => ?_⟩
    rw [hinvalidates.invalidated.stale d hd] at hfresh
    cases hfresh
  · refine ⟨fun hne => absurd hvalue hne, fun d hd hfresh hbefore => ?_⟩
    have hdocuments : db'.searchDocuments = db.searchDocuments := congrArg Prod.fst hquiet
    rw [hbefore d (hdocuments ▸ hd) rfl] at hfresh
    cases hfresh

theorem Reindexes.refreshes {kind : IndexJob} {job : BackgroundJob} {db db' : Db} (h : Reindexes rt db db') :
    Refreshes rt (.indexing kind job) db db' := by
  refine ⟨fun hne => absurd (embeddingValue_congr h.settings) hne, fun d hd hfresh hbefore => ?_⟩
  rcases h.fresh d hd hfresh with hindexed | ⟨hmem, -⟩
  · exact ⟨⟨kind, job, rfl⟩, hindexed⟩
  · rw [hbefore d hmem rfl] at hfresh
    cases hfresh

/-! ### Commits -/

/-- What an index job reads and writes but for its own row. -/
def documentsView (db : Db) :
    (Table ApplicationSetting.id × Table ModelCatalogEntry.id × Table SearchDocument.id) ×
      Table SearchEmbedding.id :=
  (indexView db, db.searchEmbeddings)

theorem Reindexes.of_same {db db' : Db} (h : documentsView db' = documentsView db) :
    Reindexes rt db db' := by
  obtain ⟨hview, hembeddings⟩ := Prod.mk.inj h
  have hsettings : db'.applicationSettings = db.applicationSettings := congrArg Prod.fst hview
  have hcatalogue : db'.modelCatalogEntries = db.modelCatalogEntries := congrArg (fun v => v.2.1) hview
  have hdocuments : db'.searchDocuments = db.searchDocuments := congrArg (fun v => v.2.2) hview
  refine ⟨hsettings, hcatalogue, fun hd => hd.congr hdocuments, fun d hd _ => .inr ⟨hdocuments ▸ hd, ?_⟩⟩
  intro hunder value hvalue
  rw [selectedEmbedding_congr hsettings] at hvalue
  unfold HasVector
  rw [hcatalogue, hembeddings]
  exact hunder value hvalue

theorem runJob_reindexes {kind : IndexJob} {job : BackgroundJob} {s s' : Session} {r : Except Exc PUnit}
    (hdocumented : Documented s.db) (h : runJob rt (kind.handler rt deps job.payload) job s = (r, s')) :
    Reindexes rt s.db s'.db := by
  rcases hattempt : attempt (kind.handler rt deps job.payload) s with ⟨r₁, s₁⟩
  obtain ⟨outcome, rfl, hdone⟩ := attempt_ok hattempt
  have hconclude : conclude rt job outcome s₁ = (r, s') := by
    rw [← h, runJob, Tx.bind_of_ok hattempt]
  have hafter : Reindexes rt s₁.db s'.db := .of_same ((conclude_keeps (fun _ _ => rfl) job outcome).of_apply hconclude)
  refine Reindexes.trans ?_ hafter
  rcases hdone with ⟨u, hhandler⟩ | hsame
  · cases kind with
    | memoryIndex => exact memoryIndex_ok hhandler
    | conversationIndex => exact conversationIndex_ok hhandler
    | searchReindexAll locked => exact searchReindexAll_ok hdocumented hhandler
  · rw [hsame]
    exact .refl _

/-! ### No refusal of a call commits -/

theorem validateModelSelection_notDurable (role text : String) :
    NotDurable (validateModelSelection rt role text) := by
  refine (Tx.RaisesOnly.orRaise (by simp [Exc.Durable])).bind fun modelId => (Tx.RaisesOnly.gets _).bind fun _ => ?_
  refine (Tx.RaisesOnly.orRaise (by simp [selectionIncompatible, Exc.Durable])).bind fun model => ?_
  refine (Tx.RaisesOnly.gets _).bind fun _ => (Tx.RaisesOnly.orRaise (by simp [Exc.Durable])).bind fun _ => ?_
  exact Tx.RaisesOnly.pure _

theorem validateValue_notDurable (d : SettingDefinition) (value : Json) :
    NotDurable (Tx.ofExcept (SettingsCatalog.validateValue d value) : Work Json) := by
  refine Tx.RaisesOnly.ofExcept fun e he => ?_
  unfold SettingsCatalog.validateValue at he
  have hvalueError : ¬SettingsCatalog.valueError.Durable := id
  split at he
  · exact Except.error.inj he ▸ hvalueError
  · split at he
    · exact Except.error.inj he ▸ hvalueError
    · cases he

theorem addRevision_noDomain (row : ApplicationSetting) (value : Json) (effectBoundary changeKind : String)
    (accountId : Uuid) : NoDomain (addRevision rt row value effectBoundary changeKind accountId) :=
  (newUuid_noDomain rt).bind fun _ => Relation.add_noDomain _

theorem storeSetting_noDomain (d : SettingDefinition) (value : Json) (accountId : Uuid)
    (found : Option ApplicationSetting) : NoDomain (storeSetting rt d value accountId found) := by
  cases found with
  | none =>
    refine (newUuid_noDomain rt).bind fun _ => (Relation.add_noDomain _).bind fun _ => ?_
    exact Tx.RaisesOnly.pure _
  | some row => exact (Relation.save_noDomain _).bind fun _ => Tx.RaisesOnly.pure _

theorem enqueueReindex_noDomain (reason : String) : NoDomain (enqueueReindex rt settingsDeps reason) :=
  (JobService.enqueue_noDomain _ _ _ _ _ _).bind fun _ => Tx.RaisesOnly.pure _

theorem reindexIfChanged_noDomain (area key : String) (found : Option ApplicationSetting) (value : Json)
    (context : AuditContext) : NoDomain (reindexIfChanged rt settingsDeps area key found value context) := by
  unfold reindexIfChanged
  split
  · refine (Tx.RaisesOnly.gets _).bind fun _ => (Tx.RaisesOnly.modify _).bind fun _ => ?_
    refine (enqueueReindex_noDomain _).bind fun _ => AuditService.append_noDomain.bind fun _ => ?_
    exact Tx.RaisesOnly.pure _
  · exact Tx.RaisesOnly.pure _

theorem updateSetting_notDurable (area : String) (accountId : Uuid) (context : AuditContext)
    (change : String × Json) : NotDurable (updateSetting rt settingsDeps area accountId context change) := by
  refine (Tx.RaisesOnly.orRaise (by simp [settingUnknown, Exc.Durable])).bind fun d => ?_
  refine (validateValue_notDurable _ _).bind fun value => Tx.RaisesOnly.bind ?_ fun _ => ?_
  · unfold checkSelection
    split
    · exact validateModelSelection_notDurable _ _
    · exact Tx.RaisesOnly.pure _
  refine Tx.RaisesOnly.bind ?_ fun expected => (Tx.RaisesOnly.gets _).bind fun found => ?_
  · refine Tx.RaisesOnly.ofExcept fun e he => ?_
    unfold pyInt at he
    split at he
    · cases he
    · exact Except.error.inj he ▸ id
  refine (Tx.RaisesOnly.raiseIf fun _ => by simp [Exc.Durable, DomainError.conflict]).bind fun _ => ?_
  refine NoDomain.notDurable ((storeSetting_noDomain _ _ _ _).bind fun row => ?_)
  refine (addRevision_noDomain _ _ _ _ _).bind fun _ => AuditService.append_noDomain.bind fun _ => ?_
  exact (reindexIfChanged_noDomain _ _ _ _ _).bind fun _ => Tx.RaisesOnly.pure _

theorem restoreRevision_notDurable (area key : String) (revisionNumber expectedVersion : ℤ) (accountId : Uuid)
    (context : AuditContext) :
    NotDurable (restoreRevision rt settingsDeps area key revisionNumber expectedVersion accountId context) := by
  refine (Tx.RaisesOnly.orRaise (by simp [settingUnknown, Exc.Durable])).bind fun d => ?_
  refine (Tx.RaisesOnly.gets _).bind fun found => ?_
  refine (Tx.RaisesOnly.orRaise (by simp [Exc.Durable, DomainError.notFound])).bind fun row => ?_
  refine (Tx.RaisesOnly.raiseIf fun _ => by simp [Exc.Durable, DomainError.conflict]).bind fun _ => ?_
  refine ((Tx.RaisesOnly.gets _).bind fun _ => Tx.RaisesOnly.pure _).bind fun revision => ?_
  refine (Tx.RaisesOnly.orRaise (by simp [Exc.Durable, DomainError.notFound])).bind fun revision => ?_
  refine (validateValue_notDurable _ _).bind fun value => Tx.RaisesOnly.bind ?_ fun _ => ?_
  · unfold checkRestored
    split
    · exact validateModelSelection_notDurable _ _
    · exact Tx.RaisesOnly.pure _
  refine NoDomain.notDurable ((Relation.save_noDomain _).bind fun _ => (addRevision_noDomain _ _ _ _ _).bind ?_)
  refine fun _ => Tx.RaisesOnly.bind ?_ fun _ => AuditService.append_noDomain.bind fun _ => Tx.RaisesOnly.pure _
  unfold reindexRestored
  split
  · exact (Tx.RaisesOnly.modify _).bind fun _ => enqueueReindex_noDomain _
  · exact Tx.RaisesOnly.pure _

theorem applyRecommended_notDurable (providerId accountId : Uuid) (context : AuditContext) :
    NotDurable (applyRecommended rt providerId accountId context) := by
  refine Tx.RaisesOnly.bind ?_ fun options => NoDomain.notDurable (Tx.RaisesOnly.bind ?_ fun changes => ?_)
  · refine (Tx.RaisesOnly.gets _).bind fun found => ?_
    refine (Tx.RaisesOnly.orRaise (by simp [ModelRecommendationService.notFound, Exc.Durable])).bind fun _ => ?_
    refine (Tx.RaisesOnly.gets _).bind fun entries => Tx.RaisesOnly.bind ?_ fun _ => Tx.RaisesOnly.pure _
    exact Tx.RaisesOnly.forEach fun role => (Tx.RaisesOnly.gets _).bind fun _ => Tx.RaisesOnly.pure _
  · refine Tx.RaisesOnly.forEach fun role => ?_
    unfold applyRole
    split
    · exact Tx.RaisesOnly.pure _
    · refine Tx.RaisesOnly.bind ?_ fun _ => Tx.RaisesOnly.pure _
      refine (orRaise_noDomain _ _).bind fun d => (Tx.RaisesOnly.gets _).bind fun found => ?_
      exact (storeSetting_noDomain _ _ _ _).bind fun _ => addRevision_noDomain _ _ _ _ _
  · exact AuditService.append_noDomain.bind fun _ => Tx.RaisesOnly.pure _

theorem Operation.work_notDurable (operation : Operation) : NotDurable (operation.work rt deps) := by
  cases operation with
  | updateArea area changes accountId context =>
    refine Tx.RaisesOnly.bind ?_ fun _ => Tx.RaisesOnly.pure _
    refine Tx.RaisesOnly.bind ?_ fun _ => Tx.RaisesOnly.pure _
    exact Tx.RaisesOnly.forEach fun change => updateSetting_notDurable _ _ _ _
  | restoreRevision area key revisionNumber expectedVersion accountId context =>
    exact (restoreRevision_notDurable _ _ _ _ _ _).bind fun _ => Tx.RaisesOnly.pure _
  | applyRecommended providerId accountId context =>
    exact (applyRecommended_notDurable _ _ _).bind fun _ => Tx.RaisesOnly.pure _
  | indexing kind job =>
    exact NoDomain.notDurable ((attempt_noDomain _).bind fun _ => conclude_noDomain _ _)

/-! ### Every sequence of operations -/

/-- **Step lemma**: every operation but a recommendation that slips does what its commit is to do, and the
documents stay those of memory items and conversations. -/
theorem Operation.step_refreshes {operation : Operation} {s s' : Session} (hdocumented : Documented s.db)
    (h : step rt deps s operation = some s') :
    Documented s'.db ∧ (¬operation.Slips rt s.db → Refreshes rt operation s.db s'.db) := by
  have hstay : ∀ {db' : Db}, Moves s.db db' → Documented db' ∧
      (¬operation.Slips rt s.db → Refreshes rt operation s.db db') :=
    fun hmoves => ⟨hmoves.documented hdocumented, fun _ => hmoves.refreshes⟩
  rcases hs : Database.session (operation.work rt deps) s with ⟨r, s₁⟩
  obtain rfl : s₁ = s' := by
    rw [step, hs] at h
    exact Option.some.inj h
  rcases Database.session_cases operation.work_notDurable hs with ⟨a, -, hwork⟩ | hrollback
  · cases operation with
    | updateArea area changes accountId context =>
      obtain ⟨outcomes, s₂, hupdate, hpure⟩ := Tx.bind_eq_ok hwork
      obtain ⟨-, rfl⟩ := Prod.mk.inj hpure
      exact hstay (updateArea_ok hupdate)
    | restoreRevision area key revisionNumber expectedVersion accountId context =>
      obtain ⟨row, s₂, hrestore, hpure⟩ := Tx.bind_eq_ok hwork
      obtain ⟨-, rfl⟩ := Prod.mk.inj hpure
      exact hstay (restoreRevision_ok hrestore)
    | applyRecommended providerId accountId context =>
      obtain ⟨result, s₂, happly, hpure⟩ := Tx.bind_eq_ok hwork
      obtain ⟨-, rfl⟩ := Prod.mk.inj hpure
      obtain ⟨hquiet, hvalue, -⟩ := applyRecommended_ok happly
      refine ⟨hdocumented.congr (congrArg Prod.fst hquiet), fun hslips => ?_⟩
      rcases hvalue with hsame | ⟨modelId, hsome, hmodel⟩
      · exact Moves.refreshes (.inr ⟨hsame, hquiet⟩)
      · by_cases hinvalidated : Invalidated s.db
        · refine Moves.refreshes (.inl ⟨hinvalidated.congr hquiet, fun hd => ?_⟩)
          exact hd.congr (congrArg Prod.fst hquiet)
        · have hsame : embeddingValue s.db = .str modelId := by
            by_contra hne
            exact hslips ⟨modelId, hsome, hne, hinvalidated⟩
          exact Moves.refreshes (.inr ⟨hmodel.trans hsame.symm, hquiet⟩)
    | indexing kind job =>
      have hreindexes := runJob_reindexes hdocumented hwork
      exact ⟨hreindexes.documented hdocumented, fun _ => hreindexes.refreshes⟩
  · rw [hrollback]
    exact hstay (.refl _)

/-- A recommendation that slips and commits has changed the value and left the index in use. -/
theorem Operation.slips_fails {operation : Operation} {s s' : Session} {u : PUnit}
    (hslips : operation.Slips rt s.db) (h : Database.session (operation.work rt deps) s = (.ok u, s')) :
    ¬Refreshes rt operation s.db s'.db := by
  cases operation with
  | applyRecommended providerId accountId context =>
    obtain ⟨modelId, hsome, hne, hinvalidated⟩ := hslips
    rcases hwork : (Operation.applyRecommended providerId accountId context).work rt deps s with ⟨e | a, s₁⟩
    · rw [Database.session_of_rollback hwork (Operation.work_notDurable _ s e (congrArg Prod.fst hwork))] at h
      cases h
    · rw [Database.session_of_ok hwork] at h
      obtain ⟨-, rfl⟩ := Prod.mk.inj h
      obtain ⟨result, s₂, happly, hpure⟩ := Tx.bind_eq_ok hwork
      obtain ⟨-, rfl⟩ := Prod.mk.inj hpure
      obtain ⟨hquiet, -, hset⟩ := applyRecommended_ok happly
      intro hrefreshes
      have hchanged := hrefreshes.changed fun hsame => hne (hsame.symm.trans (hset modelId hsome))
      exact hinvalidated (hchanged.congr hquiet.symm)
  | updateArea area changes accountId context => exact hslips.elim
  | restoreRevision area key revisionNumber expectedVersion accountId context => exact hslips.elim
  | indexing kind job => exact hslips.elim

/-- **The index after every sequence of operations** whose recommendations do not slip: whatever changes the
embedding model invalidates the index, and a document is no longer stale only by being indexed under the model
that is selected then.  A recommendation that slips and commits does not do so. -/
theorem index_refreshed {s : Session} {operations : List Operation} (hdocumented : Documented s.db)
    (hcond : Runs.Along (step rt deps) (fun s operation => ¬operation.Slips rt s.db) s operations) :
    Runs.Along (step rt deps) (fun s operation => ∀ s', step rt deps s operation = some s' →
      Refreshes rt operation s.db s'.db) s operations ∧
    ∀ s operation u s', operation.Slips rt s.db →
      Database.session (operation.work rt deps) s = (.ok u, s') → ¬Refreshes rt operation s.db s'.db := by
  refine ⟨?_, fun s operation u s' hslips h => operation.slips_fails hslips h⟩
  refine Runs.Along.of_inv (I := fun s => Documented s.db) ?_ ?_ hdocumented hcond
  · intro s operation s' hd _ hstep
    exact (operation.step_refreshes hd hstep).1
  · intro s operation hd hslips s' hstep
    exact (operation.step_refreshes hd hstep).2 hslips

/-! ### A recommendation while the index is in use -/

open Catalogue (plainRuntime)

def indexDeps : IndexDeps := ⟨Secrets.plainDeps, fun _ _ _ => .ok []⟩

/-- No model is selected, and a document is in use. -/
def indexInUse : Session where
  began := .utc 1767268800000000
  db :=
    { providerConfigurations := .singleton
        { id := 5, providerType := "openai", displayName := "OpenAI", baseUrl := "https://api.openai.com/v1"
          verificationState := "verified" }
      modelCatalogEntries := .singleton
        { id := 9, providerId := 5, externalId := "text-embedding-3-large", displayName := "large"
          role := "embedding_model", capabilities := .obj [], lastSeenAt := .utc 1767268800000000 }
      searchDocuments := .singleton
        { id := 11, ownerType := "memory", ownerId := 12, accountId := 1, searchableText := "Jana"
          sourceVersion := 1 } }

def recommending : Operation := .applyRecommended 5 1 { actorType := "user", actorId := some 1 }

theorem indexInUse_documented : Documented indexInUse.db := by
  intro d hd
  obtain rfl := List.mem_singleton.mp hd
  exact .inl rfl

/-- The recommendation selects another model and leaves the document in use. -/
theorem index_left : ¬∀ (rt : Runtime) (deps : IndexDeps) (s : Session) (operations : List Operation),
    Documented s.db → Runs.Along (step rt deps) (fun s operation => ∀ s', step rt deps s operation = some s' →
      Refreshes rt operation s.db s'.db) s operations := by
  intro h
  have hcommits : (Database.session (recommending.work plainRuntime indexDeps) indexInUse).1.isOk = true := by
    decide +kernel
  rcases hs : Database.session (recommending.work plainRuntime indexDeps) indexInUse with ⟨e | u, s'⟩
  · rw [hs] at hcommits
    cases hcommits
  have hslips : recommending.Slips plainRuntime indexInUse.db := by
    refine ⟨plainRuntime.strUuid 9, rfl, fun hsame => ?_, fun hinvalidated => ?_⟩
    · have hnull : embeddingValue indexInUse.db = .null := rfl
      rw [hnull] at hsame
      cases hsame
    · have hstale := hinvalidated.stale _ (List.mem_singleton.mpr rfl)
      cases hstale
  have hstep : step plainRuntime indexDeps indexInUse recommending = some s' := by
    rw [step, hs]
  have hrefreshes := (h plainRuntime indexDeps indexInUse [recommending] indexInUse_documented).1 s' hstep
  exact Operation.slips_fails hslips hs hrefreshes

/-- The setting is emptied first. -/
def emptying : Operation :=
  .updateArea "models" [("embedding_model", .obj [("value", .str ""), ("version", .int 0)])] 1
    { actorType := "user", actorId := some 1 }

/-- The documents are stale and the job is queued. -/
def isInvalidated (db : Db) : Bool :=
  db.searchDocuments.rows.all SearchDocument.stale &&
    db.backgroundJobs.rows.any fun job => job.kind = "search_reindex_all" ∧ job.state = "queued"

theorem Invalidated.of_isInvalidated {db : Db} (h : isInvalidated db = true) : Invalidated db := by
  obtain ⟨hstale, hqueued⟩ := (Bool.and_eq_true _ _).mp h
  obtain ⟨job, hjob, hkind⟩ := List.any_eq_true.mp hqueued
  exact ⟨fun d hd => List.all_eq_true.mp hstale d hd, job, hjob, of_decide_eq_true hkind⟩

/-- A recommendation does not slip while the index is being made again. -/
theorem index_refreshed_emptied :
    Runs.Along (step plainRuntime indexDeps) (fun s operation => ∀ s',
      step plainRuntime indexDeps s operation = some s' → Refreshes plainRuntime operation s.db s'.db)
      indexInUse [emptying, recommending] ∧
    ∀ s operation u s', operation.Slips plainRuntime s.db →
      Database.session (operation.work plainRuntime indexDeps) s = (.ok u, s') →
        ¬Refreshes plainRuntime operation s.db s'.db := by
  refine index_refreshed indexInUse_documented ⟨fun hslips => hslips, fun s' hs' => ⟨?_, fun _ _ => trivial⟩⟩
  rintro ⟨modelId, -, -, hnot⟩
  have hemptied :
      isInvalidated (Database.session (emptying.work plainRuntime indexDeps) indexInUse).2.db = true := by
    decide +kernel
  rw [step] at hs'
  obtain rfl := Option.some.inj hs'
  exact hnot (.of_isInvalidated hemptied)

end KajovoDagmar.Invalidation
