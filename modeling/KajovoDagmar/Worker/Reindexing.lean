import KajovoDagmar.Providers.Secrets
import KajovoDagmar.Worker.Indexing

/-! # Reindexing the stale documents

The attempts of a job `search_reindex_all`.  What an attempt does with a document depends on its owner and on the
vector of its text (`sourceOf`, `vectorIn`), not on the other documents.  But all the documents of an attempt share
the savepoint of the job: where the indexing of one of them raises, the work on the others is rolled back with it, in
this attempt and in the next.  And a document whose owner does not exist is passed over and stays stale.

The jobs of other kinds, and the rows that other transactions write meanwhile, are left out. -/

namespace KajovoDagmar

namespace Worker

open SettingsService (modelValue)

/-! ### The sources of the documents -/

/-- What an index job finds for a document. -/
inductive IndexSource where
  /-- The owner does not exist. -/
  | missing
  /-- The owner is deleted or merged. -/
  | removed
  /-- The current text of the owner, the part of it that is embedded, and the version of the owner. -/
  | text (searchable embedded : String) (version : ℤ) (empty : Bool)
  /-- There is no job for the type of the document. -/
  | unknown

def memorySource : Option MemoryItem → IndexSource
  | none => .missing
  | some memory =>
    if memory.state = .deleted ∨ memory.state = .merged then .removed
    else .text memory.content memory.content memory.version false

/-- The text of a conversation with its messages in order. -/
def conversationText (db : Db) (conversation : Conversation) : String :=
  searchableText conversation ((db.conversationMessages.select fun m =>
    m.conversationId = conversation.id).insertionSort fun a b => a.sequence ≤ b.sequence)

def conversationSource (db : Db) : Option Conversation → IndexSource
  | none => .missing
  | some conversation =>
    if conversation.state = .deleted then .removed
    else .text (conversationText db conversation) (embeddedText (conversationText db conversation))
      conversation.version (conversationText db conversation = "")

def sourceOf (db : Db) (document : SearchDocument) : IndexSource :=
  if document.ownerType = "memory" then memorySource (db.memoryItems.find? document.ownerId)
  else if document.ownerType = "conversation" then
    conversationSource db (db.conversations.find? document.ownerId)
  else .unknown

section indexing

variable (rt : Runtime) (deps : IndexDeps)

/-- The vector of a text, under the name of its model. -/
def vectorFor (text : String) (value : Json) : Work (String × SearchVector) := do
  let modelId ← Tx.orRaise (rt.parseUuid (modelValue rt value)) (.other "ValueError")
  let (model, provider) ← resolveModel modelId
  let runtime ← ProviderService.runtime deps.providers provider
  let vectors ← Tx.ofExcept (deps.embed runtime [text] model.externalId)
  let vector ← Tx.ofExcept (vectorOf vectors)
  pure (model.externalId, vector)

/-- The vector of a text under the selected model, if there is one. -/
def vectorIn (db : Db) (text : String) : Option (Except Exc (String × SearchVector)) :=
  (selectedEmbedding db).map fun value => (vectorFor rt deps text value { db := db, began := .utc 0 }).1

/-- The vector of the text cannot be made: the provider fails, or the vector is of a wrong dimension. -/
def IndexSource.Raises (db : Db) : IndexSource → Prop
  | .text _ embedded _ empty => empty = false ∧ ∃ e, vectorIn rt deps db embedded = some (.error e)
  | _ => False

/-- The indexing of the document raises. -/
def Raises (db : Db) (document : SearchDocument) : Prop := (sourceOf db document).Raises rt deps db

/-- The work on a document, given its source. -/
def indexSource (document : SearchDocument) : IndexSource → Work PUnit
  | .missing => pure ⟨⟩
  | .removed => deleteDocument document
  | .text searchable embedded version empty => do
    Db.searchDocument.save rt (redocumented document searchable version)
    embedIfSelected rt deps document.id embedded empty
  | .unknown => Db.searchDocument.save rt { document with stale := false }

/-- What becomes of the document. -/
def IndexSource.leaves (document : SearchDocument) : IndexSource → Option SearchDocument
  | .missing => some document
  | .removed => none
  | .text searchable _ version _ => some (redocumented document searchable version)
  | .unknown => some { document with stale := false }

/-- The vector of the source is stored for the document. -/
def IndexSource.Embedded (db db' : Db) (documentId : Uuid) : IndexSource → Prop
  | .text _ embedded _ empty =>
    empty = false → ∀ model vector, vectorIn rt deps db embedded = some (.ok (model, vector)) →
      ∃ x ∈ db'.searchEmbeddings, x.documentId = documentId ∧ x.modelId = model ∧ x.embeddingText = embedded ∧
        x.vectorData = serialized vector
  | _ => True

end indexing

variable {rt : Runtime} {deps : IndexDeps}

/-! ### What the sources depend on -/

/-- The database without its index and its jobs. -/
def owners (db : Db) : Db :=
  { db with searchDocuments := .empty, searchEmbeddings := .empty, backgroundJobs := .empty }

theorem sourceOf_congr {db db' : Db} (h : owners db' = owners db) (document : SearchDocument) :
    sourceOf db' document = sourceOf db document :=
  (congrArg (fun db => sourceOf db document) h :)

theorem resolveModel_reads (modelId : Uuid) : Tx.Reads (Same owners) (resolveModel modelId) := by
  have hmodels : ∀ s s' : Session, Same owners s s' →
      s'.db.modelCatalogEntries.find? modelId = s.db.modelCatalogEntries.find? modelId :=
    fun s s' h => (congrArg (fun db : Db => db.modelCatalogEntries.find? modelId) h :)
  have hproviders : ∀ id, ∀ s s' : Session, Same owners s s' →
      s'.db.providerConfigurations.find? id = s.db.providerConfigurations.find? id :=
    fun id s s' h => (congrArg (fun db : Db => db.providerConfigurations.find? id) h :)
  unfold resolveModel
  refine (Tx.Reads.gets hmodels).bind fun found => (Tx.Reads.orRaise _ _).bind fun model => ?_
  exact (Tx.Reads.gets (hproviders _)).bind fun provider => (Tx.Reads.orRaise _ _).bind fun _ => Tx.Reads.pure _

theorem runtime_reads {deps : ProviderDeps} (row : ProviderConfiguration) :
    Tx.Reads (Same owners) (ProviderService.runtime deps row) := by
  have hlive : ∀ secretId reason, Tx.Reads (Same owners) (ProviderService.liveSecret secretId reason) := by
    intro secretId reason
    refine Tx.Reads.bind (Tx.Reads.gets fun s s' h => ?_) fun _ => Tx.Reads.orRaise _ _
    exact (congrArg (fun db : Db => db.encryptedSecrets.find? secretId) h :)
  unfold ProviderService.runtime
  split
  · exact (Tx.Reads.raiseIf _ _).bind fun _ => Tx.Reads.pure _
  · refine (Tx.Reads.orRaise _ _).bind fun secretId => (hlive _ _).bind fun secret => ?_
    exact (Tx.Reads.of_const _).bind fun key => (Tx.Reads.raiseIf _ _).bind fun _ => Tx.Reads.pure _

theorem vectorFor_reads (text : String) (value : Json) :
    Tx.Reads (Same owners) (vectorFor rt deps text value) := by
  unfold vectorFor
  refine (Tx.Reads.orRaise _ _).bind fun modelId => (resolveModel_reads modelId).bind fun found => ?_
  exact (runtime_reads _).bind fun runtime => (Tx.Reads.of_const _).bind fun vectors =>
    (Tx.Reads.of_const _).bind fun vector => Tx.Reads.pure _

theorem selectedEmbedding_congr {db db' : Db} (h : owners db' = owners db) :
    selectedEmbedding db' = selectedEmbedding db :=
  (congrArg selectedEmbedding h :)

theorem vectorIn_congr {db db' : Db} (h : owners db' = owners db) (text : String) :
    vectorIn rt deps db' text = vectorIn rt deps db text := by
  unfold vectorIn
  rw [selectedEmbedding_congr h]
  congr 1
  funext value
  exact (vectorFor_reads text value _).2 _ h

theorem IndexSource.raises_congr {db db' : Db} (h : owners db' = owners db) (source : IndexSource) :
    source.Raises rt deps db' ↔ source.Raises rt deps db := by
  cases source with
  | text searchable embedded version empty => rw [Raises, Raises, vectorIn_congr h]
  | _ => exact Iff.rfl

theorem raises_congr {db db' : Db} (h : owners db' = owners db) (document : SearchDocument) :
    Raises rt deps db' document ↔ Raises rt deps db document := by
  rw [Raises, Raises, sourceOf_congr h]
  exact IndexSource.raises_congr h _

/-! ### One document -/

theorem embedDocument_eq (documentId : Uuid) (text : String) (value : Json) :
    embedDocument rt deps documentId text value = (do
      let v ← vectorFor rt deps text value
      storeEmbedding rt documentId v.1 text v.2) := by
  simp only [embedDocument, vectorFor, Tx.bind_assoc, Tx.pure_bind]

/-- The vector of a text is made before it is stored. -/
theorem embedIfSelected_apply (documentId : Uuid) (text : String) (s : Session) :
    embedIfSelected rt deps documentId text false s =
      match vectorIn rt deps s.db text with
      | none => (.ok ⟨⟩, s)
      | some (.error e) => (.error e, s)
      | some (.ok v) => storeEmbedding rt documentId v.1 text v.2 s := by
  rw [embedIfSelected, Tx.gets_bind_apply]
  unfold vectorIn
  cases selectedEmbedding s.db with
  | none => rfl
  | some value =>
      have hreads : Tx.Reads (Same owners) (vectorFor rt deps text value) := vectorFor_reads text value
      have hsame := (hreads { db := s.db, began := .utc 0 }).2 s rfl
      have hstays := (hreads s).1
      change embedDocument rt deps documentId text value s = _
      rw [embedDocument_eq, Tx.bind_apply, Option.map_some, ← hsame]
      rcases hv : vectorFor rt deps text value s with ⟨e | v, s'⟩
      · rw [hv] at hstays
        obtain rfl : s' = s := hstays
        rfl
      · rw [hv] at hstays
        obtain rfl : s' = s := hstays
        rfl

theorem embedIfSelected_empty (documentId : Uuid) (text : String) (s : Session) :
    embedIfSelected rt deps documentId text true s = (.ok ⟨⟩, s) := by
  rw [embedIfSelected, Tx.gets_bind_apply]
  cases selectedEmbedding s.db with
  | none => rfl
  | some value => rfl

/-- The document of the owner is this one, and its id is read back from the payload. -/
structure Owned (rt : Runtime) (db : Db) (document : SearchDocument) : Prop where
  only : document? db document.ownerType document.ownerId = some document
  back : rt.parseUuid (rt.strUuid document.ownerId) = some document.ownerId

theorem storeDocument_some (ownerType text : String) (ownerId accountId : Uuid) (version : ℤ)
    (document : SearchDocument) (empty : Bool) (embedded : String) :
    (do
      let documentId ← storeDocument rt ownerType ownerId accountId text version (some document)
      embedIfSelected rt deps documentId embedded empty : Work PUnit) =
    indexSource rt deps document (.text text embedded version empty) := by
  simp only [storeDocument, indexSource, Tx.bind_assoc, Tx.pure_bind]

theorem indexMemoryFound_some (memory : MemoryItem) (document : SearchDocument) :
    indexMemoryFound rt deps memory (some document) =
      indexSource rt deps document (memorySource (some memory)) := by
  unfold indexMemoryFound
  by_cases hgone : memory.state = .deleted ∨ memory.state = .merged
  · have hsource : memorySource (some memory) = .removed := if_pos hgone
    rw [hsource, Option.filter_some, if_pos (decide_eq_true hgone)]
    rfl
  · have hsource : memorySource (some memory) = .text memory.content memory.content memory.version false :=
      if_neg hgone
    rw [hsource, Option.filter_some, if_neg (by simpa using hgone)]
    exact storeDocument_some ..

theorem indexConversationFound_some (db : Db) (conversation : Conversation) (document : SearchDocument) :
    indexConversationFound rt deps conversation (conversationText db conversation) (some document) =
      indexSource rt deps document (conversationSource db (some conversation)) := by
  unfold indexConversationFound
  by_cases hdeleted : conversation.state = .deleted
  · have hsource : conversationSource db (some conversation) = .removed := if_pos hdeleted
    rw [hsource, if_pos hdeleted]
    rfl
  · have hsource : conversationSource db (some conversation) = .text (conversationText db conversation)
        (embeddedText (conversationText db conversation)) conversation.version
        (conversationText db conversation = "") := if_neg hdeleted
    rw [hsource, if_neg hdeleted]
    exact storeDocument_some ..

theorem payloadUuid_self {key : String} {id : Uuid} (hback : rt.parseUuid (rt.strUuid id) = some id) :
    JobService.payloadUuid rt key (.obj [(key, .str (rt.strUuid id))]) = .ok id := by
  have hget : (Json.obj [(key, .str (rt.strUuid id))]).get? key = some (.str (rt.strUuid id)) := by
    simp [Json.get?, Json.entries]
  simp only [JobService.payloadUuid, hget, hback]

/-- A document is indexed from its source. -/
theorem reindexDocument_apply {document : SearchDocument} {s : Session} (h : Owned rt s.db document) :
    reindexDocument rt deps document s = indexSource rt deps document (sourceOf s.db document) s := by
  obtain ⟨honly, hback⟩ := h
  unfold reindexDocument sourceOf
  by_cases hmemory : document.ownerType = "memory"
  · rw [if_pos hmemory, if_pos hmemory, memoryIndex, payloadUuid_self hback]
    rw [hmemory] at honly
    cases hfind : s.db.memoryItems.find? document.ownerId with
    | none =>
        have hrow : Db.memoryItem.find document.ownerId s = (.ok none, s) := congrArg (fun r => (Except.ok r, s)) hfind
        exact (Tx.bind_of_ok (Tx.ofExcept_apply _ _)).trans (Tx.bind_of_ok hrow)
    | some memory =>
        have hrow : Db.memoryItem.find document.ownerId s = (.ok (some memory), s) :=
          congrArg (fun r => (Except.ok r, s)) hfind
        have hid : memory.id = document.ownerId := Table.key_of_find? hfind
        refine ((Tx.bind_of_ok (Tx.ofExcept_apply _ _)).trans (Tx.bind_of_ok hrow)).trans ?_
        change indexMemoryFound rt deps memory (document? s.db "memory" memory.id) s = _
        rw [hid, honly, indexMemoryFound_some]
  · rw [if_neg hmemory, if_neg hmemory]
    by_cases hconversation : document.ownerType = "conversation"
    · rw [if_pos hconversation, if_pos hconversation, conversationIndex, payloadUuid_self hback]
      rw [hconversation] at honly
      cases hfind : s.db.conversations.find? document.ownerId with
      | none =>
          have hrow : Db.conversation.find document.ownerId s = (.ok none, s) :=
            congrArg (fun r => (Except.ok r, s)) hfind
          exact (Tx.bind_of_ok (Tx.ofExcept_apply _ _)).trans (Tx.bind_of_ok hrow)
      | some conversation =>
          have hrow : Db.conversation.find document.ownerId s = (.ok (some conversation), s) :=
            congrArg (fun r => (Except.ok r, s)) hfind
          have hid : conversation.id = document.ownerId := Table.key_of_find? hfind
          refine ((Tx.bind_of_ok (Tx.ofExcept_apply _ _)).trans (Tx.bind_of_ok hrow)).trans ?_
          change indexConversationFound rt deps conversation (conversationText s.db conversation)
            (document? s.db "conversation" conversation.id) s = _
          rw [hid, honly, indexConversationFound_some]
    · rw [if_neg hconversation, if_neg hconversation]
      rfl

/-- The database accepts what the indexing writes, and no identifier is drawn twice. -/
structure Accepts (rt : Runtime) : Prop where
  document : ∀ document, rt.rejectsUpdate (.searchDocument document) = none
  embedding : ∀ db x, rt.rejectsInsert db (.searchEmbedding x) = none
  reembedding : ∀ x, rt.rejectsUpdate (.searchEmbedding x) = none
  job : ∀ job, rt.rejectsUpdate (.backgroundJob job) = none
  drawn : Function.Injective rt.uuid4

/-- The owner of a document, which no two documents share. -/
def ownerOf (document : SearchDocument) : String × Uuid := (document.ownerType, document.ownerId)

/-- The identifiers that are still to be drawn are new, and no two documents share an owner. -/
structure Ready (rt : Runtime) (s : Session) : Prop where
  fresh : ∀ n, s.tick ≤ n → ∀ x ∈ s.db.searchEmbeddings, x.id ≠ rt.uuid4 n
  owned : (s.db.searchDocuments.rows.map ownerOf).Nodup

/-- The work on one document leaves the owners and the index of the others. -/
structure Beside (documentId : Uuid) (s s' : Session) : Prop where
  owners : owners s'.db = owners s.db
  jobs : s'.db.backgroundJobs = s.db.backgroundJobs
  documents : ∀ id, id ≠ documentId → s'.db.searchDocuments.find? id = s.db.searchDocuments.find? id
  embeddings : ∀ x ∈ s.db.searchEmbeddings, x.documentId ≠ documentId → x ∈ s'.db.searchEmbeddings

theorem Ready.document? {s : Session} (h : Ready rt s) {document : SearchDocument}
    (hfind : s.db.searchDocuments.find? document.id = some document) :
    document? s.db document.ownerType document.ownerId = some document := by
  have hmem : document ∈ s.db.searchDocuments := Table.mem_of_find? hfind
  cases hhead : Worker.document? s.db document.ownerType document.ownerId with
  | none =>
      have hnone := List.head?_eq_none_iff.mp hhead
      have hselected : document ∈ s.db.searchDocuments.select fun d =>
          d.ownerType = document.ownerType ∧ d.ownerId = document.ownerId :=
        List.mem_filter.mpr ⟨hmem, by simp⟩
      rw [hnone] at hselected
      exact absurd hselected List.not_mem_nil
  | some other =>
      obtain ⟨hother, howner⟩ := List.mem_filter.mp (List.mem_of_mem_head? (Option.mem_def.mpr hhead))
      obtain ⟨htype, hid⟩ := of_decide_eq_true howner
      exact congrArg some (List.inj_on_of_nodup_map h.owned hother hmem (Prod.ext htype hid))

/-- The vector of a document is stored. -/
theorem storeEmbedding_stored (ha : Accepts rt) {s : Session} (hr : Ready rt s) (documentId : Uuid)
    (modelId text : String) (vector : SearchVector) :
    ∃ s', storeEmbedding rt documentId modelId text vector s = (.ok ⟨⟩, s') ∧ Beside documentId s s' ∧ Ready rt s' ∧
      s'.db.searchDocuments = s.db.searchDocuments ∧
      ∃ x ∈ s'.db.searchEmbeddings, x.documentId = documentId ∧ x.modelId = modelId ∧ x.embeddingText = text ∧
        x.vectorData = serialized vector := by
  rw [storeEmbedding, Tx.gets_bind_apply]
  cases hhead : embedding? s.db documentId modelId with
  | none =>
      let x := newEmbedding rt (rt.uuid4 s.tick) documentId modelId text vector
      have hclash : ∀ y ∈ s.db.searchEmbeddings, Db.searchEmbedding.clash x y = none := by
        intro y hy
        refine if_neg fun hsame => ?_
        have hselected : y ∈ s.db.searchEmbeddings.select fun x => x.documentId = documentId ∧ x.modelId = modelId :=
          List.mem_filter.mpr ⟨hy, decide_eq_true hsame⟩
        rw [List.head?_eq_none_iff.mp hhead] at hselected
        exact absurd hselected List.not_mem_nil
      obtain ⟨t, ht⟩ : ∃ t, s.db.searchEmbeddings.insert? x = some t := by
        cases hinsert : s.db.searchEmbeddings.insert? x with
        | some t => exact ⟨t, rfl⟩
        | none =>
            obtain ⟨y, hy, hid⟩ := Table.insert?_eq_none_iff.mp hinsert
            exact absurd hid (hr.fresh s.tick (Nat.le_refl _) y hy)
      have hadd : Db.searchEmbedding.add rt x { s with tick := s.tick + 1 } =
          (.ok ⟨⟩, { s with tick := s.tick + 1, db := { s.db with searchEmbeddings := t } }) :=
        Relation.add_of_accepted (ha.embedding s.db x) hclash ht
      have hmem : ∀ y, y ∈ t ↔ y ∈ s.db.searchEmbeddings ∨ y = x := fun y => Table.mem_insert? ht
      refine ⟨_, hadd, ⟨rfl, rfl, fun _ _ => rfl, fun y hy _ => (hmem y).mpr (.inl hy)⟩, ⟨?_, hr.owned⟩, rfl, ?_⟩
      · intro n hn y hy
        rcases (hmem y).mp hy with hold | rfl
        · exact hr.fresh n ((Nat.le_succ _).trans hn) y hold
        · intro hid
          have hsame := ha.drawn hid
          exact absurd hn (by rw [hsame]; exact Nat.not_succ_le_self n)
      · exact ⟨x, (hmem x).mpr (.inr rfl), rfl, rfl, rfl, rfl⟩
  | some x =>
      obtain ⟨hx, hof⟩ := List.mem_filter.mp (List.mem_of_mem_head? (Option.mem_def.mpr hhead))
      obtain ⟨hdocument, hmodel⟩ := of_decide_eq_true hof
      have hsave : Db.searchEmbedding.save rt (reembedded rt x text vector) s = (.ok ⟨⟩, { s with db := { s.db with
          searchEmbeddings := s.db.searchEmbeddings.put (reembedded rt x text vector) } }) :=
        Relation.save_of_accepted (ha.reembedding _)
      have hmem : ∀ y, y ∈ s.db.searchEmbeddings.put (reembedded rt x text vector) ↔ _ :=
        fun y => Table.mem_put_iff
      refine ⟨_, hsave, ⟨rfl, rfl, fun _ _ => rfl, fun y hy hne => ?_⟩, ⟨?_, hr.owned⟩, rfl, ?_⟩
      · refine (hmem y).mpr (.inl ⟨hy, fun hid => hne ?_⟩)
        rw [Table.eq_of_key hy hx hid]
        exact hdocument
      · intro n hn y hy
        rcases (hmem y).mp hy with ⟨hold, -⟩ | ⟨rfl, -⟩
        · exact hr.fresh n hn y hold
        · exact hr.fresh n hn x hx
      · exact ⟨_, (hmem _).mpr (.inr ⟨rfl, x, hx, rfl⟩), hdocument, hmodel, rfl, rfl⟩

theorem Beside.refl (documentId : Uuid) (s : Session) : Beside documentId s s :=
  ⟨rfl, rfl, fun _ _ => rfl, fun _ hx _ => hx⟩

theorem Beside.trans {documentId : Uuid} {s s' s'' : Session} (h : Beside documentId s s')
    (h' : Beside documentId s' s'') : Beside documentId s s'' where
  owners := h'.owners.trans h.owners
  jobs := h'.jobs.trans h.jobs
  documents id hid := (h'.documents id hid).trans (h.documents id hid)
  embeddings x hx hne := h'.embeddings x (h.embeddings x hx hne) hne

/-- A document that is written again keeps its owner. -/
theorem save_beside (ha : Accepts rt) {s : Session} (hr : Ready rt s) {document : SearchDocument}
    (document' : SearchDocument) (hfind : s.db.searchDocuments.find? document.id = some document)
    (hid : document'.id = document.id)
    (howner : ownerOf document' = ownerOf document) :
    ∃ s', Db.searchDocument.save rt document' s = (.ok ⟨⟩, s') ∧ Beside document.id s s' ∧ Ready rt s' ∧
      s'.db.searchDocuments.find? document.id = some document' := by
  refine ⟨_, Relation.save_of_accepted (ha.document document'), ⟨rfl, rfl, ?_, fun _ hx _ => hx⟩, ⟨hr.fresh, ?_⟩, ?_⟩
  · intro id hne
    exact Table.find?_put_of_ne (by rw [hid]; exact hne)
  · change ((s.db.searchDocuments.put document').rows.map ownerOf).Nodup
    rw [Table.map_put (Table.mem_of_find? hfind) hid howner]
    exact hr.owned
  · rw [← hid] at hfind ⊢
    exact Table.find?_put_self hfind

/-- **Step lemma**: a document is indexed from its source unless this raises. -/
theorem indexSource_indexed (ha : Accepts rt) {s : Session} (hr : Ready rt s) {document : SearchDocument}
    (hfind : s.db.searchDocuments.find? document.id = some document) {source : IndexSource}
    (hnot : ¬source.Raises rt deps s.db) :
    ∃ s', indexSource rt deps document source s = (.ok ⟨⟩, s') ∧ Beside document.id s s' ∧ Ready rt s' ∧
      s'.db.searchDocuments.find? document.id = source.leaves document ∧
      source.Embedded rt deps s.db s'.db document.id := by
  cases source with
  | missing => exact ⟨s, rfl, .refl _ _, hr, hfind, trivial⟩
  | removed =>
      refine ⟨_, rfl, ⟨rfl, rfl, fun id hid => ?_, fun x hx hne => ?_⟩, ⟨fun n hn x hx => ?_, ?_⟩, ?_, trivial⟩
      · change (s.db.searchDocuments.filter _).find? id = _
        rw [Table.find?_filter]
        cases hother : s.db.searchDocuments.find? id with
        | none => rfl
        | some other =>
            refine Option.filter_eq_some_iff.mpr ⟨rfl, decide_eq_true ?_⟩
            rw [Table.key_of_find? hother]
            exact hid
      · exact Table.mem_filter.mpr ⟨hx, decide_eq_true hne⟩
      · exact hr.fresh n hn x (Table.mem_filter.mp hx).1
      · exact hr.owned.sublist (List.filter_sublist.map _)
      · change (s.db.searchDocuments.filter _).find? document.id = none
        rw [Table.find?_filter, hfind]
        simp
  | unknown =>
      obtain ⟨s', hsave, hbeside, hready, hleft⟩ :=
        save_beside ha hr { document with stale := false } hfind rfl rfl
      exact ⟨s', hsave, hbeside, hready, hleft, trivial⟩
  | text searchable embedded version empty =>
      obtain ⟨s₁, hsave, hbeside, hready, hleft⟩ :=
        save_beside ha hr (redocumented document searchable version) hfind rfl rfl
      have hvector : vectorIn rt deps s₁.db embedded = vectorIn rt deps s.db embedded :=
        vectorIn_congr hbeside.owners embedded
      have hwork : indexSource rt deps document (.text searchable embedded version empty) s =
          embedIfSelected rt deps document.id embedded empty s₁ := Tx.bind_of_ok hsave
      rw [hwork]
      cases empty with
      | true => exact ⟨s₁, embedIfSelected_empty _ _ _, hbeside, hready, hleft, fun h => by cases h⟩
      | false =>
          rw [embedIfSelected_apply, hvector]
          cases hmade : vectorIn rt deps s.db embedded with
          | none =>
              refine ⟨s₁, rfl, hbeside, hready, hleft, fun _ model vector h => ?_⟩
              rw [hmade] at h
              cases h
          | some made =>
              cases made with
              | error e => exact absurd ⟨rfl, e, hmade⟩ hnot
              | ok v =>
                  obtain ⟨s', hstore, hbeside', hready', hdocuments, hx⟩ :=
                    storeEmbedding_stored ha hready document.id v.1 embedded v.2
                  refine ⟨s', hstore, hbeside.trans hbeside', hready', ?_, fun _ model vector h => ?_⟩
                  · rw [hdocuments]
                    exact hleft
                  · rw [hmade] at h
                    obtain rfl := Except.ok.inj (Option.some.inj h)
                    exact hx

/-- The indexing of a document raises where its vector cannot be made. -/
theorem indexSource_raises (ha : Accepts rt) {s : Session} (hr : Ready rt s) {document : SearchDocument}
    (hfind : s.db.searchDocuments.find? document.id = some document) {source : IndexSource}
    (hraises : source.Raises rt deps s.db) :
    ∃ e s', indexSource rt deps document source s = (.error e, s') := by
  cases source with
  | text searchable embedded version empty =>
      obtain ⟨rfl, e, hvector⟩ := hraises
      obtain ⟨s₁, hsave, hbeside, -, -⟩ :=
        save_beside ha hr (redocumented document searchable version) hfind rfl rfl
      refine ⟨e, s₁, (Tx.bind_of_ok hsave).trans ?_⟩
      rw [embedIfSelected_apply, vectorIn_congr hbeside.owners, hvector]
  | _ => exact hraises.elim

/-! ### All the documents of an attempt -/

/-- What is needed to index each of the documents. -/
structure Indexable (rt : Runtime) (db : Db) (documents : List SearchDocument) : Prop where
  nodup : (documents.map SearchDocument.id).Nodup
  found : ∀ d ∈ documents, db.searchDocuments.find? d.id = some d
  back : ∀ d ∈ documents, rt.parseUuid (rt.strUuid d.ownerId) = some d.ownerId

/-- The rest of the documents after the work on the first. -/
theorem Indexable.tail {s s' : Session} {document : SearchDocument} {documents : List SearchDocument}
    (h : Indexable rt s.db (document :: documents)) (hbeside : Beside document.id s s') :
    Indexable rt s'.db documents where
  nodup := (List.nodup_cons.mp h.nodup).2
  found d hd := by
    have hne : d.id ≠ document.id := by
      intro hid
      exact (List.nodup_cons.mp h.nodup).1 (hid ▸ List.mem_map_of_mem hd)
    rw [hbeside.documents d.id hne]
    exact h.found d (List.mem_cons_of_mem _ hd)
  back d hd := h.back d (List.mem_cons_of_mem _ hd)

theorem Indexable.first (deps : IndexDeps) {s : Session} {document : SearchDocument}
    {documents : List SearchDocument} (h : Indexable rt s.db (document :: documents)) (hr : Ready rt s) :
    s.db.searchDocuments.find? document.id = some document ∧
      reindexDocument rt deps document s = indexSource rt deps document (sourceOf s.db document) s := by
  have hfind := h.found document List.mem_cons_self
  exact ⟨hfind, reindexDocument_apply ⟨hr.document? hfind, h.back document List.mem_cons_self⟩⟩

/-- What the index holds after the documents have been worked on. -/
structure IndexedAll (rt : Runtime) (deps : IndexDeps) (documents : List SearchDocument) (db db' : Db) : Prop where
  owners : owners db' = owners db
  others : ∀ id ∉ documents.map SearchDocument.id, db'.searchDocuments.find? id = db.searchDocuments.find? id
  embeddings : ∀ x ∈ db.searchEmbeddings, x.documentId ∉ documents.map SearchDocument.id → x ∈ db'.searchEmbeddings
  left : ∀ d ∈ documents, db'.searchDocuments.find? d.id = (sourceOf db d).leaves d
  embedded : ∀ d ∈ documents, (sourceOf db d).Embedded rt deps db db' d.id

theorem IndexSource.Embedded.mono {db db₁ db₂ db' : Db} {documentId : Uuid} {source : IndexSource}
    (h : source.Embedded rt deps db db₁ documentId) (howners : Worker.owners db' = Worker.owners db)
    (hkept : ∀ x ∈ db₁.searchEmbeddings, x.documentId = documentId → x ∈ db₂.searchEmbeddings) :
    source.Embedded rt deps db' db₂ documentId := by
  cases source with
  | text searchable embedded version empty =>
      intro hempty model vector hvector
      rw [vectorIn_congr howners] at hvector
      obtain ⟨x, hx, hdocument, hrest⟩ := h hempty model vector hvector
      exact ⟨x, hkept x hx hdocument, hdocument, hrest⟩
  | _ => trivial

/-- Documents none of which raises are all indexed. -/
theorem forEach_indexed (ha : Accepts rt) {documents : List SearchDocument} {s : Session} (hr : Ready rt s)
    (hi : Indexable rt s.db documents) (hnot : ∀ d ∈ documents, ¬Raises rt deps s.db d) :
    ∃ us s', Tx.forEach (reindexDocument rt deps) documents s = (.ok us, s') ∧
      IndexedAll rt deps documents s.db s'.db ∧ s'.db.backgroundJobs = s.db.backgroundJobs := by
  induction documents generalizing s with
  | nil =>
      refine ⟨[], s, rfl, ⟨rfl, fun _ _ => rfl, fun _ hx _ => hx, ?_, ?_⟩, rfl⟩
      · exact fun d hd => absurd hd List.not_mem_nil
      · exact fun d hd => absurd hd List.not_mem_nil
  | cons document documents ih =>
      obtain ⟨hfind, happly⟩ := hi.first deps hr
      obtain ⟨s₁, hindex, hbeside, hr₁, hleft, hembedded⟩ :=
        indexSource_indexed ha hr hfind (hnot document List.mem_cons_self)
      have hnot₁ : ∀ d ∈ documents, ¬Raises rt deps s₁.db d := by
        intro d hd
        rw [raises_congr hbeside.owners]
        exact hnot d (List.mem_cons_of_mem _ hd)
      obtain ⟨us, s', hrest, hall, hjobs⟩ := ih hr₁ (hi.tail hbeside) hnot₁
      have hfresh : document.id ∉ documents.map SearchDocument.id := (List.nodup_cons.mp hi.nodup).1
      have hloop : Tx.forEach (reindexDocument rt deps) (document :: documents) s = (.ok (⟨⟩ :: us), s') := by
        refine (Tx.bind_of_ok (happly.trans hindex)).trans ?_
        exact Tx.bind_of_ok hrest
      refine ⟨_, s', hloop, ⟨hall.owners.trans hbeside.owners, ?_, ?_, ?_, ?_⟩, hjobs.trans hbeside.jobs⟩
      · intro id hid
        obtain ⟨hne, hrest'⟩ := List.ne_and_not_mem_of_not_mem_cons hid
        exact (hall.others id hrest').trans (hbeside.documents id hne)
      · intro x hx hid
        obtain ⟨hne, hrest'⟩ := List.ne_and_not_mem_of_not_mem_cons hid
        exact hall.embeddings x (hbeside.embeddings x hx hne) hrest'
      · intro d hd
        rcases List.mem_cons.mp hd with rfl | hd
        · exact (hall.others d.id hfresh).trans hleft
        · rw [hall.left d hd, sourceOf_congr hbeside.owners]
      · intro d hd
        rcases List.mem_cons.mp hd with rfl | hd
        · exact hembedded.mono rfl fun x hx hdocument => hall.embeddings x hx (hdocument ▸ hfresh)
        · have hlater := hall.embedded d hd
          rw [sourceOf_congr hbeside.owners] at hlater
          exact hlater.mono hbeside.owners.symm fun x hx _ => hx

/-- One document that raises stops the loop. -/
theorem forEach_raises (ha : Accepts rt) {documents : List SearchDocument} {s : Session} (hr : Ready rt s)
    (hi : Indexable rt s.db documents) (hbad : ∃ d ∈ documents, Raises rt deps s.db d) :
    ∃ e s', Tx.forEach (reindexDocument rt deps) documents s = (.error e, s') := by
  induction documents generalizing s with
  | nil =>
      obtain ⟨d, hd, -⟩ := hbad
      exact absurd hd List.not_mem_nil
  | cons document documents ih =>
      obtain ⟨hfind, happly⟩ := hi.first deps hr
      by_cases hraises : Raises rt deps s.db document
      · obtain ⟨e, s', hindex⟩ := indexSource_raises ha hr hfind hraises
        exact ⟨e, s', Tx.bind_of_error (happly.trans hindex)⟩
      · obtain ⟨s₁, hindex, hbeside, hr₁, -, -⟩ := indexSource_indexed ha hr hfind hraises
        obtain ⟨d, hd, hd'⟩ := hbad
        have hbad₁ : ∃ d ∈ documents, Raises rt deps s₁.db d := by
          rcases List.mem_cons.mp hd with rfl | hd
          · exact absurd hd' hraises
          · exact ⟨d, hd, (raises_congr hbeside.owners d).mpr hd'⟩
        obtain ⟨e, s', hrest⟩ := ih hr₁ (hi.tail hbeside) hbad₁
        exact ⟨e, s', (Tx.bind_of_ok (happly.trans hindex)).trans (Tx.bind_of_error hrest)⟩

/-! ### The attempts of a job -/

/-- An attempt: its worker, the time of its claim and the start of its transaction. -/
structure Attempt where
  workerId : String
  claimedAt : DateTime
  began : DateTime
  tick : ℕ

section attempts

variable (rt : Runtime) (deps : IndexDeps) (locked : SearchDocument → Bool)

/-- What a turn of the worker does with the job: it is claimed, and its handler runs. -/
def reindexAttempt (attempt : Attempt) (job : BackgroundJob) : Work PUnit := do
  let job ← JobService.claimRow rt attempt.workerId job
  runJob rt (searchReindexAll rt deps locked) job

/-- The next attempt of the job, as long as it can be claimed. -/
def reindexStep (jobId : Uuid) (db : Db) (attempt : Attempt) : Option Db :=
  (db.backgroundJobs.find? jobId).bind fun job =>
    if JobService.claimable attempt.claimedAt ["search_reindex_all"] job then
      some (Database.session (reindexAttempt rt deps locked attempt job)
        { db := db, began := attempt.began, tick := attempt.tick }).2.db
    else none

end attempts

theorem saveJob (ha : Accepts rt) (job : BackgroundJob) (s : Session) : Db.backgroundJob.save rt job s =
    (.ok ⟨⟩, { s with db := { s.db with backgroundJobs := s.db.backgroundJobs.put job } }) :=
  Relation.save_of_accepted (ha.job job)

theorem runJob_completes (ha : Accepts rt) (job : BackgroundJob) {handler : Work PUnit} {s s' : Session}
    (h : handler s = (.ok ⟨⟩, s')) :
    ∃ now s'', runJob rt handler job s = (.ok ⟨⟩, s'') ∧
      s''.db = { s'.db with backgroundJobs := s'.db.backgroundJobs.put (JobService.completed job now) } := by
  have hnested : nested handler s = (.ok ⟨⟩, s') := Tx.session_of_ok h
  have hattempt : attempt handler s = (.ok none, s') := Tx.handle_of_ok (Tx.bind_of_ok hnested)
  let now := DateTime.utc (rt.clock s'.tick)
  have hsave := saveJob ha (JobService.completed job now) { s' with tick := s'.tick + 1 }
  exact ⟨now, _, (Tx.bind_of_ok hattempt).trans hsave, rfl⟩

theorem runJob_fails (ha : Accepts rt) {handler : Work PUnit} {job : BackgroundJob} {s s' : Session} {e : Exc}
    (h : handler s = (.error e, s')) (hjob : s.db.backgroundJobs.find? job.id = some job) :
    ∃ now s'', runJob rt handler job s = (.ok ⟨⟩, s'') ∧ s''.db = { s.db with
      backgroundJobs := s.db.backgroundJobs.put (JobService.failed job (className e) now) } := by
  have hnested : nested handler s = (.error e, s.rollback s') := Tx.session_of_rollback h id
  have hattempt : attempt handler s = (.ok (some e), s.rollback s') :=
    Tx.handle_of_error (Tx.bind_of_error hnested)
  have hfind : Db.backgroundJob.find job.id (s.rollback s') = (.ok (some job), s.rollback s') :=
    congrArg (fun row => (Except.ok row, s.rollback s')) hjob
  let now := DateTime.utc (rt.clock s'.tick)
  have hsave := saveJob ha (JobService.failed job (className e) now) { s.rollback s' with tick := s'.tick + 1 }
  exact ⟨now, _, (Tx.bind_of_ok hattempt).trans ((Tx.bind_of_ok hfind).trans hsave), rfl⟩

/-- The database with other jobs. -/
def withJobs (db : Db) (jobs : Table BackgroundJob.id) : Db := { db with backgroundJobs := jobs }

/-- The index as it is when the job starts. -/
structure Startable (rt : Runtime) (db : Db) : Prop where
  back : ∀ d ∈ db.searchDocuments, rt.parseUuid (rt.strUuid d.ownerId) = some d.ownerId
  owned : (db.searchDocuments.rows.map ownerOf).Nodup
  fresh : ∀ n, ∀ x ∈ db.searchEmbeddings, x.id ≠ rt.uuid4 n

theorem mem_staleRows {locked : SearchDocument → Bool} {db : Db} {d : SearchDocument} :
    d ∈ staleRows locked db ↔ d ∈ db.searchDocuments ∧ d.stale = true ∧ locked d = false := by
  unfold staleRows
  rw [(List.perm_insertionSort _ _).mem_iff, Table.select, List.mem_filter, decide_eq_true_eq]
  exact Iff.rfl

theorem Startable.indexable {db : Db} (h : Startable rt db) (locked : SearchDocument → Bool) :
    Indexable rt db (staleRows locked db) where
  nodup := by
    have hperm := (List.perm_insertionSort (fun a b : SearchDocument => a.id ≤ b.id)
      (db.searchDocuments.select fun d => d.stale ∧ locked d = false)).map SearchDocument.id
    exact hperm.nodup_iff.mpr (db.searchDocuments.nodup.sublist (List.filter_sublist.map _))
  found d hd := Table.find?_of_mem (mem_staleRows.mp hd).1
  back d hd := h.back d (mem_staleRows.mp hd).1

theorem searchReindexAll_apply {locked : SearchDocument → Bool} {s s' : Session} {r : Except Exc (List PUnit)}
    (h : Tx.forEach (reindexDocument rt deps) (staleRows locked s.db) s = (r, s')) :
    searchReindexAll rt deps locked s = (r.map fun _ => ⟨⟩, s') := by
  rw [searchReindexAll, Tx.gets_bind_apply, Tx.bind_apply, h]
  cases r with
  | error e => rfl
  | ok us => rfl

variable {locked : SearchDocument → Bool} {jobId : Uuid} {db db' : Db} {attempt : Attempt}

/-- An attempt starts from the index as it is, with the job claimed. -/
theorem reindexStep_cases (ha : Accepts rt) (h : reindexStep rt deps locked jobId db attempt = some db') :
    ∃ job s, job.id = jobId ∧ db.backgroundJobs.find? jobId ≠ none ∧
      s.db = withJobs db (db.backgroundJobs.put job) ∧ s.tick = attempt.tick + 1 ∧
      s.db.backgroundJobs.find? job.id = some job ∧
      ∀ s', runJob rt (searchReindexAll rt deps locked) job s = (.ok ⟨⟩, s') → db' = s'.db := by
  obtain ⟨row, hrow, h⟩ := Option.bind_eq_some_iff.mp h
  split at h
  · let start : Session := { db := db, began := attempt.began, tick := attempt.tick }
    let job := JobService.claimed attempt.workerId (.utc (rt.clock attempt.tick)) row
    let s : Session := { start with
      tick := attempt.tick + 1, db := { db with backgroundJobs := db.backgroundJobs.put job } }
    have hid : row.id = jobId := Table.key_of_find? hrow
    have hclaim : JobService.claimRow rt attempt.workerId row start = (.ok job, s) :=
      Tx.bind_of_ok (saveJob ha job { start with tick := attempt.tick + 1 })
    refine ⟨job, s, hid, ?_, rfl, rfl, ?_, fun s' hrun => ?_⟩
    · rw [hrow]
      exact Option.some_ne_none row
    · have hold : db.backgroundJobs.find? job.id = some row := hid ▸ hrow
      exact Table.find?_put_self hold
    · have hwork : reindexAttempt rt deps locked attempt row start = (.ok ⟨⟩, s') := (Tx.bind_of_ok hclaim).trans hrun
      rw [Database.session_of_ok hwork] at h
      exact (Option.some.inj h).symm
  · cases h

theorem Startable.withJobs (h : Startable rt db) (jobs : Table BackgroundJob.id) :
    Startable rt (Worker.withJobs db jobs) :=
  ⟨h.back, h.owned, h.fresh⟩

theorem Startable.ready {jobs : Table BackgroundJob.id} (h : Startable rt db) {s : Session}
    (hs : s.db = Worker.withJobs db jobs) : Ready rt s := by
  constructor
  · intro n _ x hx
    rw [hs] at hx
    exact h.fresh n x hx
  · rw [hs]
    exact h.owned

theorem IndexedAll.of_jobs {documents : List SearchDocument} {jobs jobs' : Table BackgroundJob.id}
    (h : IndexedAll rt deps documents (withJobs db jobs) db') :
    IndexedAll rt deps documents db (withJobs db' jobs') where
  owners := h.owners
  others := h.others
  embeddings := h.embeddings
  left := h.left
  embedded d hd := (h.embedded d hd).mono rfl fun _ hx _ => hx

/-- **Step lemma**: where no document raises, the attempt indexes all of them and completes the job. -/
theorem reindexStep_indexes (ha : Accepts rt) (hstart : Startable rt db)
    (hnot : ∀ d ∈ staleRows locked db, ¬Raises rt deps db d)
    (h : reindexStep rt deps locked jobId db attempt = some db') :
    IndexedAll rt deps (staleRows locked db) db db' ∧
      ∃ job, db'.backgroundJobs.find? jobId = some job ∧ job.state = "completed" := by
  obtain ⟨job, s, rfl, -, hs, -, hjob, hends⟩ := reindexStep_cases ha h
  have hrows : staleRows locked s.db = staleRows locked db := by rw [hs]; rfl
  have hindexable : Indexable rt s.db (staleRows locked s.db) := by
    rw [hs]
    exact (hstart.withJobs _).indexable locked
  have hnot' : ∀ d ∈ staleRows locked s.db, ¬Raises rt deps s.db d := by
    intro d hd
    have howners : owners s.db = owners db := by rw [hs]; rfl
    rw [raises_congr howners]
    exact hnot d (hrows ▸ hd)
  obtain ⟨us, s₁, hloop, hall, hjobs⟩ := forEach_indexed ha (hstart.ready hs) hindexable hnot'
  obtain ⟨now, s₂, hrun, hdb⟩ := runJob_completes ha job (searchReindexAll_apply hloop)
  obtain rfl := hends s₂ hrun
  have hclaimed : s₁.db.backgroundJobs.find? (JobService.completed job now).id = some job := by
    rw [hjobs]
    exact hjob
  rw [hdb]
  rw [hrows, hs] at hall
  exact ⟨hall.of_jobs, JobService.completed job now, Table.find?_put_self hclaimed, rfl⟩

/-- **Step lemma**: where a document raises, the attempt leaves the index as it is. -/
theorem reindexStep_fails (ha : Accepts rt) (hstart : Startable rt db)
    (hbad : ∃ d ∈ staleRows locked db, Raises rt deps db d)
    (h : reindexStep rt deps locked jobId db attempt = some db') : ∃ jobs, db' = withJobs db jobs := by
  obtain ⟨job, s, rfl, -, hs, -, hjob, hends⟩ := reindexStep_cases ha h
  have hindexable : Indexable rt s.db (staleRows locked s.db) := by
    rw [hs]
    exact (hstart.withJobs _).indexable locked
  have hbad' : ∃ d ∈ staleRows locked s.db, Raises rt deps s.db d := by
    obtain ⟨d, hd, hraises⟩ := hbad
    have howners : owners s.db = owners db := by rw [hs]; rfl
    have hrows : staleRows locked s.db = staleRows locked db := by rw [hs]; rfl
    exact ⟨d, hrows ▸ hd, (raises_congr howners d).mpr hraises⟩
  obtain ⟨e, s₁, hloop⟩ := forEach_raises ha (hstart.ready hs) hindexable hbad'
  obtain ⟨now, s₂, hrun, hdb⟩ := runJob_fails ha (searchReindexAll_apply hloop) hjob
  obtain rfl := hends s₂ hrun
  rw [hdb, hs]
  exact ⟨_, rfl⟩

/-! ### The end of the job -/

/-- Every document that the job has selected and whose indexing does not raise is no longer stale, and is indexed
from the current content of its owner. -/
structure Reindexed (rt : Runtime) (deps : IndexDeps) (locked : SearchDocument → Bool) (db db' : Db) : Prop where
  fresh : ∀ d ∈ staleRows locked db, ¬Raises rt deps db d → ∀ d', db'.searchDocuments.find? d.id = some d' →
    d'.stale = false
  indexed : ∀ d ∈ staleRows locked db, ¬Raises rt deps db d → ∀ searchable embedded version empty,
    sourceOf db d = .text searchable embedded version empty →
      (∃ d', db'.searchDocuments.find? d.id = some d' ∧ d'.searchableText = searchable ∧ d'.sourceVersion = version) ∧
      (sourceOf db d).Embedded rt deps db db' d.id

/-- The job has been completed, or has failed for good. -/
def Ended (jobId : Uuid) (db : Db) : Prop :=
  ∃ job, db.backgroundJobs.find? jobId = some job ∧ (job.state = "completed" ∨ job.state = "failed")

/-- The job is queued. -/
def Queued (jobId : Uuid) (db : Db) : Prop :=
  ∃ job, db.backgroundJobs.find? jobId = some job ∧ job.state = "queued"

theorem Queued.not_ended (h : Queued jobId db) : ¬Ended jobId db := by
  obtain ⟨job, hjob, hqueued⟩ := h
  rintro ⟨job', hjob', hended⟩
  obtain rfl := Option.some.inj (hjob.symm.trans hjob')
  rw [hqueued] at hended
  exact absurd hended (by decide)

/-- A completed job is not attempted again. -/
theorem not_reindexStep_of_completed {job : BackgroundJob} (hjob : db.backgroundJobs.find? jobId = some job)
    (hcompleted : job.state = "completed") : reindexStep rt deps locked jobId db attempt = none := by
  have hclaimable : JobService.claimable attempt.claimedAt ["search_reindex_all"] job = false := by
    simp [JobService.claimable, hcompleted]
  rw [reindexStep, hjob, Option.bind_some, hclaimable]
  rfl

/-- **Run lemma**: where no document raises, the job ends with all of them indexed. -/
theorem indexed_of_run (ha : Accepts rt) (hstart : Startable rt db) (hqueued : Queued jobId db)
    (hnot : ∀ d ∈ staleRows locked db, ¬Raises rt deps db d) {attempts : List Attempt}
    (hrun : Runs.run (reindexStep rt deps locked jobId) db attempts = some db') (hended : Ended jobId db') :
    IndexedAll rt deps (staleRows locked db) db db' := by
  have hinv : db' = db ∨ (IndexedAll rt deps (staleRows locked db) db db' ∧
      ∃ job, db'.backgroundJobs.find? jobId = some job ∧ job.state = "completed") := by
    refine Runs.inv_of_run (I := fun db' => db' = db ∨ (IndexedAll rt deps (staleRows locked db) db db' ∧
      ∃ job, db'.backgroundJobs.find? jobId = some job ∧ job.state = "completed")) ?_ (.inl rfl) hrun
    rintro db₁ attempt db₂ (rfl | ⟨-, job, hjob, hcompleted⟩) hstep
    · exact .inr (reindexStep_indexes ha hstart hnot hstep)
    · rw [not_reindexStep_of_completed hjob hcompleted] at hstep
      cases hstep
  rcases hinv with rfl | ⟨hall, -⟩
  · exact absurd hended hqueued.not_ended
  · exact hall

/-- **Run lemma**: where a document raises, the index stays as it is. -/
theorem unchanged_of_run (ha : Accepts rt) (hstart : Startable rt db)
    (hbad : ∃ d ∈ staleRows locked db, Raises rt deps db d) {attempts : List Attempt}
    (hrun : Runs.run (reindexStep rt deps locked jobId) db attempts = some db') : ∃ jobs, db' = withJobs db jobs := by
  refine Runs.inv_of_run (I := fun db' => ∃ jobs, db' = withJobs db jobs) ?_ ⟨db.backgroundJobs, rfl⟩ hrun
  rintro db₁ attempt db₂ ⟨jobs, rfl⟩ hstep
  obtain ⟨d, hd, hraises⟩ := hbad
  have howners : owners (withJobs db jobs) = owners db := rfl
  have hraises' : Raises rt deps (withJobs db jobs) d := (raises_congr howners d).mpr hraises
  obtain ⟨jobs', rfl⟩ := reindexStep_fails ha (hstart.withJobs jobs) ⟨d, hd, hraises'⟩ hstep
  exact ⟨jobs', rfl⟩

theorem IndexedAll.reindexed (h : IndexedAll rt deps (staleRows locked db) db db')
    (howned : ∀ d ∈ staleRows locked db, sourceOf db d ≠ .missing) : Reindexed rt deps locked db db' := by
  constructor
  · intro d hd _ d' hd'
    rw [h.left d hd] at hd'
    cases hsource : sourceOf db d with
    | missing => exact absurd hsource (howned d hd)
    | removed =>
        rw [hsource] at hd'
        cases hd'
    | unknown =>
        rw [hsource] at hd'
        obtain rfl := Option.some.inj hd'
        rfl
    | text searchable embedded version empty =>
        rw [hsource] at hd'
        obtain rfl := Option.some.inj hd'
        rfl
  · intro d hd _ searchable embedded version empty hsource
    refine ⟨⟨redocumented d searchable version, ?_, rfl, rfl⟩, h.embedded d hd⟩
    rw [h.left d hd, hsource]
    rfl

/-- A stale document that is left as it is has not been reindexed. -/
theorem not_reindexed_of_left {d : SearchDocument} (hd : d ∈ staleRows locked db) (hnot : ¬Raises rt deps db d)
    (hleft : db'.searchDocuments.find? d.id = some d) : ¬Reindexed rt deps locked db db' := by
  intro h
  have hfresh := h.fresh d hd hnot d hleft
  rw [(mem_staleRows.mp hd).2.1] at hfresh
  cases hfresh

/-- **The end of a reindexing job**: the documents whose indexing does not raise are indexed if none raises and
every owner exists, or if there are none of them. -/
theorem reindexed_iff {attempts : List Attempt} (ha : Accepts rt) (hstart : Startable rt db)
    (hqueued : Queued jobId db) (hrun : Runs.run (reindexStep rt deps locked jobId) db attempts = some db')
    (hended : Ended jobId db') :
    Reindexed rt deps locked db db' ↔
      (∀ d ∈ staleRows locked db, ¬Raises rt deps db d ∧ sourceOf db d ≠ .missing) ∨
        ∀ d ∈ staleRows locked db, Raises rt deps db d := by
  constructor
  · intro h
    by_cases hbad : ∃ d ∈ staleRows locked db, Raises rt deps db d
    · refine .inr fun d hd => by_contra fun hnot => ?_
      obtain ⟨jobs, rfl⟩ := unchanged_of_run ha hstart hbad hrun
      have hleft : (withJobs db jobs).searchDocuments.find? d.id = some d :=
        Table.find?_of_mem (mem_staleRows.mp hd).1
      exact not_reindexed_of_left hd hnot hleft h
    · have hnot : ∀ d ∈ staleRows locked db, ¬Raises rt deps db d := fun d hd hraises => hbad ⟨d, hd, hraises⟩
      have hall := indexed_of_run ha hstart hqueued hnot hrun hended
      refine .inl fun d hd => ⟨hnot d hd, fun hmissing => ?_⟩
      refine not_reindexed_of_left hd (hnot d hd) ?_ h
      rw [hall.left d hd, hmissing]
      rfl
  · rintro (hgood | hbad)
    · have hall := indexed_of_run ha hstart hqueued (fun d hd => (hgood d hd).1) hrun hended
      exact hall.reindexed fun d hd => (hgood d hd).2
    · exact ⟨fun d hd hnot => absurd (hbad d hd) hnot, fun d hd hnot => absurd (hbad d hd) hnot⟩

/-! ### A text that the provider refuses -/

def reindexRuntime : Runtime := .sample 1767268800000000 []

theorem reindexRuntime_accepts : Accepts reindexRuntime where
  document _ := rfl
  embedding _ _ := rfl
  reembedding _ := rfl
  job _ := rfl
  drawn _ _ h := Nat.add_left_cancel h

/-- A provider that embeds every text but one. -/
def refusing (refused : String) : IndexDeps where
  providers := Secrets.plainDeps
  embed _ texts _ :=
    if texts = [refused] then .error (.other "BadRequestError")
    else .ok [List.replicate searchVectorDimensions "0"]

def note (id : Uuid) (content : String) : MemoryItem :=
  { id := id, accountId := 1, content := content, category := .note, state := .active, originType := .manual
    updatedAt := .utc 1767265200000000 }

def staleNote (id ownerId : Uuid) : SearchDocument :=
  { id := id, ownerType := "memory", ownerId := ownerId, accountId := 1, searchableText := "", sourceVersion := 1
    stale := true }

/-- Two notes whose documents are stale, and the job that indexes them again. -/
def twoStaleNotes : Db where
  memoryItems := ⟨[note 12 "Petr pije čaj", note 13 "Jana pije kávu"], by decide⟩
  searchDocuments := ⟨[staleNote 10 12, staleNote 11 13], by decide⟩
  applicationSettings := .singleton
    { id := 6, area := "models", key := "embedding_model"
      value := .obj [("value", .str "00000000-0000-0000-0000-000000000009")] }
  modelCatalogEntries := .singleton
    { id := 9, providerId := 5, externalId := "text-embedding-3-small", displayName := "small"
      role := "embedding_model", lastSeenAt := .utc 1767265200000000 }
  providerConfigurations := .singleton
    { id := 5, providerType := "openai", displayName := "OpenAI", baseUrl := "https://api.openai.com/v1"
      enabled := true, verificationState := "verified", secretId := some 7 }
  encryptedSecrets := .singleton
    { id := 7, purpose := "provider", keyVersion := 1, maskedHint := "••••"
      ciphertext := (Secrets.plainCipher.encrypt [] "key" "provider_api_key" "5").toJson }
  backgroundJobs := .singleton
    { id := 20, kind := "search_reindex_all", payload := .obj [], availableAt := .utc 1767265200000000 }

def dayLater : Attempt :=
  { workerId := "worker:1", claimedAt := .utc 1767355200000000, began := .utc 1767355200000000, tick := 0 }

theorem twoStaleNotes_startable : Startable reindexRuntime twoStaleNotes where
  back d hd := by
    have hids : twoStaleNotes.searchDocuments.rows.all (fun d =>
        reindexRuntime.parseUuid (reindexRuntime.strUuid d.ownerId) = some d.ownerId) = true := by decide +kernel
    exact of_decide_eq_true (List.all_eq_true.mp hids d hd)
  owned := by decide
  fresh _ _ hx := absurd hx List.not_mem_nil

theorem twoStaleNotes_queued : Queued 20 twoStaleNotes := ⟨_, rfl, rfl⟩

theorem ended_of_any {jobId : Uuid} {db : Db} {state : String}
    (h : ((db.backgroundJobs.find? jobId).any fun job => decide (job.state = state)) = true)
    (hstate : state = "completed" ∨ state = "failed") : Ended jobId db := by
  obtain ⟨job, hjob, hof⟩ := (Option.any_eq_true _ _).mp h
  exact ⟨job, hjob, by rw [of_decide_eq_true hof]; exact hstate⟩

/-- A note whose text the provider embeds does not raise. -/
theorem not_raises_note {refused : String} (text : String) {d : SearchDocument}
    (hsource : sourceOf twoStaleNotes d = .text text text 1 false)
    (hmade : (vectorIn reindexRuntime (refusing refused) twoStaleNotes text).all (fun r => r.isOk) = true) :
    ¬Raises reindexRuntime (refusing refused) twoStaleNotes d := by
  rw [Raises, hsource]
  rintro ⟨-, e, he⟩
  rw [he] at hmade
  cases hmade

/-- The provider refuses the text of one note, and the other note stays stale after all attempts. -/
theorem refused_blocks : ¬∀ (rt : Runtime) (deps : IndexDeps) (locked : SearchDocument → Bool) (jobId : Uuid)
    (db db' : Db) (attempts : List Attempt), Accepts rt → Startable rt db → Queued jobId db →
    Runs.run (reindexStep rt deps locked jobId) db attempts = some db' → Ended jobId db' →
    Reindexed rt deps locked db db' := by
  intro h
  have hrun : ((Runs.run (reindexStep reindexRuntime (refusing "Petr pije čaj") (fun _ => false) 20) twoStaleNotes
      (List.replicate 5 dayLater)).any fun db => (db.backgroundJobs.find? 20).any (fun job =>
        decide (job.state = "failed")) &&
      (db.searchDocuments.find? 11).any fun d => decide (d = staleNote 11 13)) = true := by decide +kernel
  obtain ⟨db', hdb', hany⟩ := (Option.any_eq_true _ _).mp hrun
  obtain ⟨hfailed, hleft⟩ := (Bool.and_eq_true _ _).mp hany
  obtain ⟨d, hd, hof⟩ := (Option.any_eq_true _ _).mp hleft
  obtain rfl := of_decide_eq_true hof
  have hstale : staleNote 11 13 ∈ staleRows (fun _ => false) twoStaleNotes :=
    mem_staleRows.mpr ⟨List.mem_cons_of_mem _ List.mem_cons_self, rfl, rfl⟩
  have hnot : ¬Raises reindexRuntime (refusing "Petr pije čaj") twoStaleNotes (staleNote 11 13) :=
    not_raises_note "Jana pije kávu" rfl (by decide +kernel)
  exact not_reindexed_of_left hstale hnot hd (h _ _ _ 20 twoStaleNotes db' _ reindexRuntime_accepts
    twoStaleNotes_startable twoStaleNotes_queued hdb' (ended_of_any hfailed (.inr rfl)))

/-- The job is completed where the provider embeds both texts. -/
theorem reindexed_iff_accepted : ∃ db',
    Runs.run (reindexStep reindexRuntime (refusing "") (fun _ => false) 20) twoStaleNotes [dayLater] = some db' ∧
    Reindexed reindexRuntime (refusing "") (fun _ => false) twoStaleNotes db' := by
  have hrun : ((Runs.run (reindexStep reindexRuntime (refusing "") (fun _ => false) 20) twoStaleNotes
      [dayLater]).any fun db => (db.backgroundJobs.find? 20).any fun job =>
        decide (job.state = "completed")) = true := by decide +kernel
  obtain ⟨db', hdb', hcompleted⟩ := (Option.any_eq_true _ _).mp hrun
  refine ⟨db', hdb', (reindexed_iff reindexRuntime_accepts twoStaleNotes_startable twoStaleNotes_queued hdb'
    (ended_of_any hcompleted (.inl rfl))).mpr (.inl fun d hd => ?_)⟩
  have hmem : d ∈ [staleNote 10 12, staleNote 11 13] := (mem_staleRows.mp hd).1
  rcases List.mem_pair.mp hmem with rfl | rfl
  · exact ⟨not_raises_note "Petr pije čaj" rfl (by decide +kernel), IndexSource.noConfusion⟩
  · exact ⟨not_raises_note "Jana pije kávu" rfl (by decide +kernel), IndexSource.noConfusion⟩

end Worker

end KajovoDagmar
