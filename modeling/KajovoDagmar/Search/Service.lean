import KajovoDagmar.Db.Models
import KajovoDagmar.Library.PythonText
import KajovoDagmar.Library.RankFusion

/-! # Hybrid search

`HybridSearchService.ranked_owner_ids`: the owners of the documents that match the words of a query and of
those whose embedding is near to the query's, fused by their positions.  The subqueries number all hits, and
then each keeps as many of them as its limit allows without an order, so any of them.  As long as the limit
is not exceeded these are all hits and the result is the fusion of the best; beyond it the best hit of one
list may be missing (`ranked_right_iff`). -/

namespace KajovoDagmar.HybridSearchService

open RankFusion

/-- The search documents and their embeddings. -/
structure SearchIndex where
  documents : List SearchDocument
  embeddings : List SearchEmbedding
  documents_nodup : (documents.map fun d => (d.ownerType, d.ownerId)).Nodup
  embeddings_nodup : (embeddings.map fun e => (e.documentId, e.modelId)).Nodup

/-- What the database computes from a document or an embedding and the query: whether the words match,
`ts_rank_cd`, and the distance of the vectors. -/
structure Scoring (V : Type) where
  matchesText : String → SearchDocument → Bool
  textRank : String → SearchDocument → ℚ
  distance : SearchEmbedding → V → ℚ

structure Request where
  accountId : Uuid
  ownerType : String
  query : String
  limit : ℕ

variable {V : Type} (index : SearchIndex) (scoring : Scoring V) (request : Request)

/-! ### The query -/

def normalized : String := PythonText.strip request.query

/-- `account_id = :account_id AND owner_type = :owner_type AND stale = false`. -/
def searched (d : SearchDocument) : Bool :=
  d.accountId = request.accountId ∧ d.ownerType = request.ownerType ∧ d.stale = false

def textRows : List (ℚ ×ₗ Uuid) :=
  (index.documents.filter fun d => searched request d && scoring.matchesText (normalized request) d).map fun d =>
    toLex (-scoring.textRank (normalized request) d, d.ownerId)

/-- The embeddings of the documents by the model, with the owner of the document. -/
def semanticRows (vector : V) (modelId : String) : List (ℚ ×ₗ Uuid) :=
  (index.documents.filter (searched request)).flatMap fun d =>
    (index.embeddings.filter fun e => e.documentId = d.id ∧ e.modelId = modelId).map fun e =>
      toLex (scoring.distance e vector, d.ownerId)

/-- The owners of the text hits, the highest rank first. -/
def textHits : List Uuid := ranking (textRows index scoring request)

/-- The owners of the semantic hits, the nearest first; none without an embedding of the query. -/
def semanticHits : Option (V × String) → List Uuid
  | none => []
  | some (vector, modelId) => ranking (semanticRows index scoring request vector modelId)

def candidateLimit (limit : ℕ) : ℕ := max (limit * 4) 40

/-- What `ranked_owner_ids` may return, with the embedding of the query and its model, if there is one. -/
def Ranks (embedding : Option (V × String)) (result : List Uuid) : Prop :=
  if normalized request = "" then result = []
  else match embedding with
    | none => result = (textHits index scoring request).take request.limit
    | some embedding => ∃ text semantic,
      Keeps (candidateLimit request.limit) (numbered (textHits index scoring request)) text ∧
      Keeps (candidateLimit request.limit) (numbered (semanticHits index scoring request (some embedding))) semantic ∧
      result = fuse request.limit (text ++ semantic)

/-! ### What is asked for -/

/-- The fusion of the best hits of both kinds. -/
def best (embedding : Option (V × String)) : List Uuid :=
  if normalized request = "" then []
  else fuse request.limit
    ((numbered (textHits index scoring request)).take (candidateLimit request.limit) ++
      (numbered (semanticHits index scoring request embedding)).take (candidateLimit request.limit))

/-- The same rows, perhaps in another physical order. -/
def SameRows (index' : SearchIndex) : Prop :=
  index'.documents.Perm index.documents ∧ index'.embeddings.Perm index.embeddings

/-- Every evaluation, wherever the rows are stored, gives the fusion of the best hits, and no owner twice. -/
def Right (embedding : Option (V × String)) : Prop :=
  ∀ index' result, SameRows index index' → Ranks index' scoring request embedding result →
    result = best index scoring request embedding ∧ result.Nodup

variable {index scoring request}

theorem le_candidateLimit (limit : ℕ) : limit ≤ candidateLimit limit := by
  unfold candidateLimit
  omega

/-! ### Hits do not depend on where the rows are stored -/

theorem textHits_sameRows {index' : SearchIndex} (h : SameRows index index') :
    textHits index' scoring request = textHits index scoring request :=
  ranking_perm ((h.1.filter _).map _)

theorem semanticHits_sameRows {index' : SearchIndex} (h : SameRows index index') (embedding : Option (V × String)) :
    semanticHits index' scoring request embedding = semanticHits index scoring request embedding := by
  cases embedding with
  | none => rfl
  | some embedding => exact ranking_perm ((h.1.filter _).flatMap fun d _ => (h.2.filter _).map _)

/-- An owner has one document of its type. -/
theorem textHits_nodup : (textHits index scoring request).Nodup := by
  have hrows : (index.documents.filter fun d => searched request d &&
      scoring.matchesText (normalized request) d).Pairwise fun d d' => d.ownerId ≠ d'.ownerId := by
    refine ((List.pairwise_map.mp index.documents_nodup).sublist List.filter_sublist).imp_of_mem ?_
    intro d d' hd hd' hne heq
    have htype : ∀ d ∈ index.documents.filter fun d => searched request d &&
        scoring.matchesText (normalized request) d, d.ownerType = request.ownerType := by
      intro d hd
      have hsearched := (Bool.and_eq_true_iff.mp (List.mem_filter.mp hd).2).1
      unfold searched at hsearched
      exact (of_decide_eq_true hsearched).2.1
    exact hne (Prod.ext ((htype d hd).trans (htype d' hd').symm) heq)
  unfold textHits
  rw [(ranking_perm_map _).nodup_iff, textRows, List.map_map]
  exact List.pairwise_map.mpr hrows

/-! ### Evaluations -/

theorem right_of_blank (h : normalized request = "") (embedding : Option (V × String)) :
    Right index scoring request embedding := by
  intro index' result hrows hresult
  unfold Ranks at hresult
  rw [if_pos h] at hresult
  rw [best, if_pos h, hresult]
  exact ⟨rfl, List.nodup_nil⟩

theorem ranks_some_iff (h : normalized request ≠ "") {embedding : V × String} {result : List Uuid} :
    Ranks index scoring request (some embedding) result ↔ ∃ text semantic,
      Keeps (candidateLimit request.limit) (numbered (textHits index scoring request)) text ∧
      Keeps (candidateLimit request.limit) (numbered (semanticHits index scoring request (some embedding))) semantic ∧
      result = fuse request.limit (text ++ semantic) := by
  rw [Ranks, if_neg h]

/-- Without an embedding of the query the text hits come in their order. -/
theorem right_none : Right index scoring request none := by
  by_cases hblank : normalized request = ""
  · exact right_of_blank hblank none
  · intro index' result hrows hresult
    rw [Ranks, if_neg hblank, textHits_sameRows hrows] at hresult
    have hnone : (numbered (semanticHits index scoring request none)).take (candidateLimit request.limit) = [] :=
      List.take_nil
    rw [best, if_neg hblank, hnone, List.append_nil, take_numbered,
      fuse_numbered _ (textHits_nodup.sublist (List.take_sublist _ _)), List.take_take,
      min_eq_left (le_candidateLimit request.limit), hresult]
    exact ⟨rfl, textHits_nodup.sublist (List.take_sublist _ _)⟩

/-- While no limit is exceeded every evaluation fuses all hits. -/
theorem right_of_length_le {embedding : V × String}
    (htext : (textHits index scoring request).length ≤ candidateLimit request.limit)
    (hsemantic : (semanticHits index scoring request (some embedding)).length ≤ candidateLimit request.limit) :
    Right index scoring request (some embedding) := by
  by_cases hblank : normalized request = ""
  · exact right_of_blank hblank _
  · intro index' result hrows hresult
    have hlength : ∀ l : List Uuid, (numbered l).length = l.length := fun l => List.length_zipIdx
    rw [ranks_some_iff hblank, textHits_sameRows hrows, semanticHits_sameRows hrows] at hresult
    obtain ⟨text, semantic, hkept, hkept', rfl⟩ := hresult
    rw [best, if_neg hblank, List.take_of_length_le (by rwa [hlength]), List.take_of_length_le (by rwa [hlength])]
    exact ⟨fuse_perm ((hkept.perm (by rwa [hlength])).append (hkept'.perm (by rwa [hlength]))), fuse_nodup _ _⟩

theorem right_of_limit_zero {embedding : V × String} (h : request.limit = 0) :
    Right index scoring request (some embedding) := by
  by_cases hblank : normalized request = ""
  · exact right_of_blank hblank _
  · intro index' result hrows hresult
    have hfuse : ∀ hits : List (Uuid × ℕ), fuse request.limit hits = [] := fun hits => by
      rw [fuse, h, List.take_zero]
    obtain ⟨text, semantic, -, -, rfl⟩ := (ranks_some_iff hblank).mp hresult
    rw [best, if_neg hblank, hfuse, hfuse]
    exact ⟨rfl, List.nodup_nil⟩

/-- The best text hit or the best semantic hit may be dropped. -/
theorem not_right_of_dropped {embedding : V × String} {owner : Uuid} (hblank : normalized request ≠ "")
    (hbest : owner ∈ best index scoring request (some embedding)) {text semantic : List (Uuid × ℕ)}
    (htext : Keeps (candidateLimit request.limit) (numbered (textHits index scoring request)) text)
    (hsemantic : Keeps (candidateLimit request.limit)
      (numbered (semanticHits index scoring request (some embedding))) semantic)
    (hdropped : ∀ hit ∈ text ++ semantic, hit.1 ≠ owner) : ¬Right index scoring request (some embedding) := by
  intro h
  have hresult := (h index _ ⟨List.Perm.refl _, List.Perm.refl _⟩
    ((ranks_some_iff hblank).mpr ⟨text, semantic, htext, hsemantic, rfl⟩)).1
  rw [← hresult] at hbest
  obtain ⟨hit, hmem, howner⟩ := exists_hit_of_mem_fuse hbest
  exact hdropped hit hmem howner

/-! ### An index with given hits -/

section sample

variable {modelId : String} {texts semantics : List Uuid}

def documentOf (owner : Uuid) : SearchDocument where
  id := owner
  ownerType := "memory"
  ownerId := owner
  accountId := 1
  searchableText := ""
  sourceVersion := 1

def embeddingOf (modelId : String) (owner : Uuid) : SearchEmbedding where
  id := owner
  documentId := owner
  modelId := modelId
  dimensions := 1536
  embeddingText := ""
  sourceHash := ""
  vectorData := ""

/-- Documents of all owners, and embeddings of the second. -/
def indexOf (modelId : String) (texts semantics : List Uuid) (h : (texts ++ semantics).Nodup) : SearchIndex where
  documents := (texts ++ semantics).map documentOf
  embeddings := semantics.map (embeddingOf modelId)
  documents_nodup := by
    rw [List.map_map]
    exact h.map fun _ _ heq => (Prod.mk.inj heq).2
  embeddings_nodup := by
    rw [List.map_map]
    exact (List.nodup_append.mp h).2.1.map fun _ _ heq => (Prod.mk.inj heq).1

/-- The documents of the first owners match, and both kinds of hits are in the order of the owners. -/
def scoringOf (V : Type) (texts : List Uuid) : Scoring V where
  matchesText _ d := d.ownerId ∈ texts
  textRank _ d := -((d.ownerId : ℕ) : ℚ)
  distance e _ := ((e.documentId : ℕ) : ℚ)

def requestOf (query : String) (limit : ℕ) : Request := ⟨1, "memory", query, limit⟩

/-- Owners in their order, as rows. -/
theorem ranking_owners {owners : List Uuid} (h : owners.Pairwise (· < ·)) :
    ranking (owners.map fun owner : Uuid => toLex (((owner : ℕ) : ℚ), owner)) = owners := by
  have hrows : (owners.map fun owner : Uuid => toLex (((owner : ℕ) : ℚ), owner)).Pairwise (· ≤ ·) := by
    rw [List.pairwise_map]
    exact h.imp fun hlt => Prod.Lex.toLex_le_toLex.mpr (.inl (Nat.cast_lt.mpr hlt))
  rw [ranking_of_pairwise hrows, List.map_map]
  exact List.map_id _

variable (V modelId) in
theorem textHits_indexOf (h : (texts ++ semantics).Nodup) (hsorted : texts.Pairwise (· < ·)) (query : String)
    (limit : ℕ) : textHits (indexOf modelId texts semantics h) (scoringOf V texts) (requestOf query limit) = texts := by
  have hdisjoint : ∀ owner ∈ semantics, owner ∉ texts :=
    fun owner hsemantic htext => (List.nodup_append.mp h).2.2 owner htext owner hsemantic rfl
  have hrows : textRows (indexOf modelId texts semantics h) (scoringOf V texts) (requestOf query limit) =
      texts.map fun owner : Uuid => toLex (((owner : ℕ) : ℚ), owner) := by
    have hfilter : (texts ++ semantics).filter (fun owner => searched (requestOf query limit) (documentOf owner) &&
        (scoringOf V texts).matchesText (normalized (requestOf query limit)) (documentOf owner)) = texts := by
      have hall : texts.filter (fun owner => searched (requestOf query limit) (documentOf owner) &&
          (scoringOf V texts).matchesText (normalized (requestOf query limit)) (documentOf owner)) = texts :=
        List.filter_eq_self.mpr fun owner howner => by simp [searched, requestOf, documentOf, scoringOf, howner]
      have hnone : semantics.filter (fun owner => searched (requestOf query limit) (documentOf owner) &&
          (scoringOf V texts).matchesText (normalized (requestOf query limit)) (documentOf owner)) = [] :=
        List.filter_eq_nil_iff.mpr fun owner howner => by
          simp [documentOf, scoringOf, hdisjoint owner howner]
      rw [List.filter_append, hall, hnone, List.append_nil]
    unfold textRows indexOf
    rw [List.filter_map, List.map_map]
    refine (congrArg _ hfilter).trans (List.map_congr_left fun owner _ => ?_)
    simp [scoringOf, documentOf]
  unfold textHits
  rw [hrows, ranking_owners hsorted]

variable (modelId) in
theorem semanticHits_indexOf (h : (texts ++ semantics).Nodup) (hsorted : semantics.Pairwise (· < ·))
    (query : String) (limit : ℕ) (vector : V) :
    semanticHits (indexOf modelId texts semantics h) (scoringOf V texts) (requestOf query limit)
      (some (vector, modelId)) = semantics := by
  have hnodup : semantics.Nodup := (List.nodup_append.mp h).2.1
  have hdisjoint : ∀ owner ∈ texts, owner ∉ semantics :=
    fun owner htext hsemantic => (List.nodup_append.mp h).2.2 owner htext owner hsemantic rfl
  have hrows : semanticRows (indexOf modelId texts semantics h) (scoringOf V texts) (requestOf query limit) vector
      modelId = semantics.map fun owner : Uuid => toLex (((owner : ℕ) : ℚ), owner) := by
    have hnone : ∀ owner ∈ texts, semantics.filter (fun other : Uuid => decide (other = owner)) = [] :=
      fun owner howner => List.filter_eq_nil_iff.mpr fun other hother heq =>
        hdisjoint owner howner (of_decide_eq_true heq ▸ hother)
    have hone : ∀ owner ∈ semantics, semantics.filter (fun other : Uuid => decide (other = owner)) = [owner] := by
      intro owner howner
      rw [List.filter_eq, List.count_eq_one_of_mem hnodup howner]
      rfl
    have hrow : ∀ owner : Uuid, ((semantics.map (embeddingOf modelId)).filter fun e =>
          e.documentId = (documentOf owner).id ∧ e.modelId = modelId).map (fun e =>
            toLex ((scoringOf V texts).distance e vector, (documentOf owner).ownerId)) =
        (semantics.filter fun other : Uuid => decide (other = owner)).map fun other : Uuid =>
          toLex (((other : ℕ) : ℚ), owner) := by
      intro owner
      rw [List.filter_map, List.map_map]
      simp [Function.comp_def, embeddingOf, documentOf, scoringOf]
    have hsearched : ((texts ++ semantics).map documentOf).filter (searched (requestOf query limit)) =
        (texts ++ semantics).map documentOf := by
      refine List.filter_eq_self.mpr fun d hd => ?_
      obtain ⟨owner, -, rfl⟩ := List.mem_map.mp hd
      simp [searched, requestOf, documentOf]
    unfold semanticRows indexOf
    simp only [hsearched, List.flatMap_map, hrow, List.flatMap_append]
    have htexts : (texts.flatMap fun owner : Uuid => (semantics.filter fun other : Uuid =>
        decide (other = owner)).map fun other : Uuid => toLex (((other : ℕ) : ℚ), owner)) = [] :=
      List.flatMap_eq_nil_iff.mpr fun owner howner => by rw [hnone owner howner, List.map_nil]
    rw [htexts, List.nil_append, List.map_eq_flatMap]
    exact List.flatMap_congr fun owner howner => by rw [hone owner howner, List.map_singleton]
  exact (congrArg ranking hrows).trans (ranking_owners hsorted)

theorem ranges_disjoint {count n owner : ℕ} (h : owner ∈ List.range' (count + 1) n) :
    owner ∉ List.range' 0 (count + 1) := by
  simp only [List.mem_range'_1] at h ⊢
  omega

theorem nodup_ranges (count n : ℕ) : (List.range' 0 (count + 1) ++ List.range' (count + 1) n).Nodup :=
  List.nodup_append.mpr ⟨List.nodup_range', List.nodup_range', fun _ ha _ hb heq => ranges_disjoint hb (heq ▸ ha)⟩

/-- The best of more hits than the limit is among the fusion of the best, and may be dropped. -/
theorem exists_dropped {limit count : ℕ} (hlimit : 0 < limit) (hcount : candidateLimit limit ≤ count)
    {others : List Uuid} (hothers : others.Nodup) (hdisjoint : ∀ owner ∈ others, owner ∉ List.range' 0 (count + 1)) :
    (0 : ℕ) ∈ fuse limit (numbered ((List.range' 0 (count + 1)).take (candidateLimit limit)) ++
        numbered (others.take (candidateLimit limit))) ∧
      ∃ kept, Keeps (candidateLimit limit) (numbered (List.range' 0 (count + 1))) kept ∧
        ∀ hit ∈ kept ++ (numbered others).take (candidateLimit limit), hit.1 ≠ 0 := by
  have hcons : List.range' 0 (count + 1) = 0 :: List.range' 1 count := List.range'_succ ..
  have hzero : 0 ∉ List.range' 1 count := by simp
  have hnodup : (0 :: List.range' 1 count).Nodup := hcons ▸ List.nodup_range'
  have hpositive : 0 < candidateLimit limit := hlimit.trans_le (le_candidateLimit limit)
  rw [hcons] at hdisjoint ⊢
  constructor
  · obtain ⟨m, hm⟩ := Nat.exists_eq_succ_of_ne_zero hpositive.ne'
    rw [hm, List.take_succ_cons]
    refine head_mem_fuse hlimit ?_ (hothers.sublist (List.take_sublist _ _)) (fun b hb hmem => ?_)
      fun b _ => Nat.zero_le b
    · exact hnodup.sublist ((List.take_sublist m _).cons_cons 0)
    · exact hdisjoint b (List.mem_of_mem_take hb) ((List.take_sublist m _).cons_cons 0 |>.subset hmem)
  · obtain ⟨kept, hkept, hne⟩ := exists_keeps_without_head (n := candidateLimit limit) (by simpa using hcount) hzero
    refine ⟨kept, hkept, fun hit hmem => ?_⟩
    rcases List.mem_append.mp hmem with hmem | hmem
    · exact hne hit hmem
    · have hother : hit.1 ∈ others := List.fst_mem_of_mem_zipIdx (List.mem_of_mem_take hmem)
      exact fun heq => hdisjoint _ hother (heq ▸ List.mem_cons_self)

/-- With more text hits than the limit the best of them may be missing. -/
theorem not_right_of_many_texts {query : String} (hquery : PythonText.strip query ≠ "") {limit count : ℕ}
    (hlimit : 0 < limit) (hcount : candidateLimit limit ≤ count) (semantics : ℕ) (vector : V) (modelId : String) :
    ¬Right (indexOf modelId _ _ (nodup_ranges count semantics)) (scoringOf V (List.range' 0 (count + 1)))
      (requestOf query limit) (some (vector, modelId)) := by
  have hblank : normalized (requestOf query limit) ≠ "" := hquery
  have htexts := textHits_indexOf V modelId (nodup_ranges count semantics)
    List.pairwise_lt_range' query limit
  have hsemantics := semanticHits_indexOf modelId (nodup_ranges count semantics)
    List.pairwise_lt_range' query limit vector
  have hothers : ∀ owner ∈ List.range' (count + 1) semantics, owner ∉ List.range' 0 (count + 1) :=
    fun owner => ranges_disjoint
  obtain ⟨hbest, kept, hkept, hdropped⟩ := exists_dropped hlimit hcount List.nodup_range' hothers
  refine not_right_of_dropped hblank ?_ ?_ ?_ hdropped
  · rw [best, if_neg hblank, htexts, hsemantics, take_numbered, take_numbered]
    exact hbest
  · rw [htexts]
    exact hkept
  · rw [hsemantics]
    exact keeps_take _ _

/-- With more semantic hits than the limit the best of them may be missing. -/
theorem not_right_of_many_semantics {query : String} (hquery : PythonText.strip query ≠ "") {limit count : ℕ}
    (hlimit : 0 < limit) (hcount : candidateLimit limit ≤ count) (texts : ℕ) (vector : V) (modelId : String) :
    ¬Right (indexOf modelId _ _ (List.perm_append_comm.nodup_iff.mp (nodup_ranges count texts)))
      (scoringOf V (List.range' (count + 1) texts)) (requestOf query limit) (some (vector, modelId)) := by
  have hblank : normalized (requestOf query limit) ≠ "" := hquery
  have hnodup := List.perm_append_comm.nodup_iff.mp (nodup_ranges count texts)
  have htexts := textHits_indexOf V modelId hnodup List.pairwise_lt_range' query limit
  have hsemantics := semanticHits_indexOf modelId hnodup List.pairwise_lt_range' query limit vector
  have hothers : ∀ owner ∈ List.range' (count + 1) texts, owner ∉ List.range' 0 (count + 1) :=
    fun owner => ranges_disjoint
  obtain ⟨hbest, kept, hkept, hdropped⟩ := exists_dropped hlimit hcount List.nodup_range' hothers
  refine not_right_of_dropped hblank ?_ ?_ ?_
    fun hit hmem => hdropped hit (List.perm_append_comm.mem_iff.mp hmem)
  · rw [best, if_neg hblank, htexts, hsemantics, take_numbered, take_numbered, fuse_perm List.perm_append_comm]
    exact hbest
  · rw [htexts]
    exact keeps_take _ _
  · rw [hsemantics]
    exact hkept

end sample

/-- **The ranking is the fusion of the best hits** for all indexes with given numbers of hits exactly if
neither number exceeds the limit of candidates, unless nothing is fused. -/
theorem ranked_right_iff (query : String) (embedding : Option (V × String)) (limit texts semantics : ℕ) :
    (∀ (index : SearchIndex) (scoring : Scoring V) (request : Request), request.query = query →
      request.limit = limit → (textHits index scoring request).length = texts →
      (semanticHits index scoring request embedding).length = semantics →
      Right index scoring request embedding) ↔
    PythonText.strip query = "" ∨ embedding = none ∨ limit = 0 ∨
      texts ≤ candidateLimit limit ∧ semantics ≤ candidateLimit limit := by
  constructor
  · intro h
    by_contra hcond
    simp only [not_or, not_and_or, not_le] at hcond
    obtain ⟨hquery, hsome, hlimit, hmany⟩ := hcond
    obtain ⟨⟨vector, modelId⟩, rfl⟩ := Option.ne_none_iff_exists'.mp hsome
    rcases hmany with hmany | hmany
    · obtain ⟨count, rfl⟩ := Nat.exists_eq_succ_of_ne_zero (Nat.ne_of_gt (Nat.zero_lt_of_lt hmany))
      refine not_right_of_many_texts hquery (Nat.pos_of_ne_zero hlimit) (Nat.le_of_lt_succ hmany) semantics vector
        modelId (h _ _ _ rfl rfl ?_ ?_)
      · rw [textHits_indexOf _ _ _ List.pairwise_lt_range', List.length_range']
      · rw [semanticHits_indexOf _ _ List.pairwise_lt_range', List.length_range']
    · obtain ⟨count, rfl⟩ := Nat.exists_eq_succ_of_ne_zero (Nat.ne_of_gt (Nat.zero_lt_of_lt hmany))
      refine not_right_of_many_semantics hquery (Nat.pos_of_ne_zero hlimit) (Nat.le_of_lt_succ hmany) texts vector
        modelId (h _ _ _ rfl rfl ?_ ?_)
      · rw [textHits_indexOf _ _ _ List.pairwise_lt_range', List.length_range']
      · rw [semanticHits_indexOf _ _ List.pairwise_lt_range', List.length_range']
  · rintro hcond index scoring request rfl rfl rfl rfl
    rcases hcond with hblank | rfl | hlimit | ⟨htext, hsemantic⟩
    · exact right_of_blank hblank embedding
    · exact right_none
    · cases embedding with
      | none => exact right_none
      | some embedding => exact right_of_limit_zero hlimit
    · cases embedding with
      | none => exact right_none
      | some embedding => exact right_of_length_le htext hsemantic

/-- Of 41 documents that match, the best may be missing from a search for the first. -/
theorem best_document_missed : ¬Right (indexOf "text-embedding-3-small" _ _ (nodup_ranges 40 0))
    (scoringOf Unit (List.range' 0 41)) (requestOf "káva" 1) (some ((), "text-embedding-3-small")) :=
  not_right_of_many_texts (by decide +kernel) (by decide) (by decide) 0 () "text-embedding-3-small"

end KajovoDagmar.HybridSearchService
