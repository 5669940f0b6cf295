import Mathlib.Algebra.Order.Field.Rat
import Mathlib.Data.List.Dedup
import Mathlib.Data.List.Sort
import Mathlib.Data.Prod.Lex
import Mathlib.Tactic.Positivity

/-! # Reciprocal rank fusion

Two lists of hits are fused: an owner scores `1 / (60 + position)` for every hit, and the owners with the
highest scores are returned, ties in the order of the owners.  The result depends on which hits are fused
and not on their order (`fuse_perm`), and of one list alone it is the beginning (`fuse_numbered`).  A `LIMIT`
without an order keeps any rows, as many as there are up to the limit (`Keeps`). -/

namespace RankFusion

variable {α : Type} [LinearOrder α]

/-! ### Rankings -/

/-- The owners of the rows, in the order of the keys and then of the owners. -/
def ranking (rows : List (ℚ ×ₗ α)) : List α := (rows.insertionSort (· ≤ ·)).map fun row => (ofLex row).2

theorem ranking_perm {rows rows' : List (ℚ ×ₗ α)} (h : rows.Perm rows') : ranking rows = ranking rows' := by
  have hsorted : rows.insertionSort (· ≤ ·) = rows'.insertionSort (· ≤ ·) :=
    ((List.perm_insertionSort _ rows).trans (h.trans (List.perm_insertionSort _ rows').symm)).eq_of_pairwise'
      (List.pairwise_insertionSort _ rows) (List.pairwise_insertionSort _ rows')
  unfold ranking
  rw [hsorted]

theorem ranking_perm_map (rows : List (ℚ ×ₗ α)) : (ranking rows).Perm (rows.map fun row => (ofLex row).2) :=
  (List.perm_insertionSort _ rows).map _

/-- Rows that come in order are ranked so. -/
theorem ranking_of_pairwise {rows : List (ℚ ×ₗ α)} (h : rows.Pairwise (· ≤ ·)) :
    ranking rows = rows.map fun row => (ofLex row).2 := by
  unfold ranking
  rw [h.insertionSort_eq]

/-- `row_number()` beside every row. -/
def numbered (l : List α) : List (α × ℕ) := l.zipIdx 1

/-- `LIMIT n` of rows in no order. -/
def Keeps {β : Type} (n : ℕ) (rows kept : List β) : Prop := kept.Subperm rows ∧ kept.length = min n rows.length

theorem keeps_take {β : Type} (n : ℕ) (rows : List β) : Keeps n rows (rows.take n) :=
  ⟨(List.take_sublist n rows).subperm, List.length_take⟩

/-- A limit that is not exceeded keeps all rows. -/
theorem Keeps.perm {β : Type} {n : ℕ} {rows kept : List β} (h : Keeps n rows kept) (hn : rows.length ≤ n) :
    kept.Perm rows := by
  refine h.1.perm_of_length_le ?_
  rw [h.2]
  omega

/-- A limit that is exceeded may drop the first row. -/
theorem keeps_tail {β : Type} {n : ℕ} {row : β} {rows : List β} (hn : n ≤ rows.length) :
    Keeps n (row :: rows) (rows.take n) := by
  refine ⟨((List.take_sublist n rows).trans (List.sublist_cons_self row rows)).subperm, ?_⟩
  rw [List.length_take, List.length_cons]
  omega

/-! ### Fusion -/

def weight (position : ℕ) : ℚ := 1 / (60 + position)

theorem weight_pos (position : ℕ) : 0 < weight position := by
  unfold weight
  positivity

theorem weight_lt {m n : ℕ} (h : m < n) : weight n < weight m := by
  unfold weight
  have hcast : (m : ℚ) < n := Nat.cast_lt.mpr h
  exact one_div_lt_one_div_of_lt (by positivity) (add_lt_add_of_le_of_lt (le_refl 60) hcast)

theorem weight_le {m n : ℕ} (h : m ≤ n) : weight n ≤ weight m := by
  rcases h.lt_or_eq with hlt | rfl
  · exact (weight_lt hlt).le
  · exact le_refl _

/-- The sum of the weights of an owner's hits. -/
def score (hits : List (α × ℕ)) (owner : α) : ℚ :=
  ((hits.filter fun hit => hit.1 = owner).map fun hit => weight hit.2).sum

/-- Higher scores first, ties in the order of the owners. -/
def before (hits : List (α × ℕ)) (a b : α) : Prop := score hits b < score hits a ∨ score hits a = score hits b ∧ a ≤ b

instance (hits : List (α × ℕ)) : DecidableRel (before hits) := fun _ _ => inferInstanceAs (Decidable (_ ∨ _))

instance (hits : List (α × ℕ)) : Std.Total (before hits) where
  total a b := by
    unfold before
    rcases lt_trichotomy (score hits a) (score hits b) with hlt | heq | hlt
    · exact .inr (.inl hlt)
    · rcases le_total a b with hab | hba
      · exact .inl (.inr ⟨heq, hab⟩)
      · exact .inr (.inr ⟨heq.symm, hba⟩)
    · exact .inl (.inl hlt)

instance (hits : List (α × ℕ)) : IsTrans α (before hits) where
  trans a b c := by
    rintro (hab | ⟨hab, hle⟩) (hbc | ⟨hbc, hle'⟩)
    · exact .inl (hbc.trans hab)
    · exact .inl (hbc ▸ hab)
    · exact .inl (hab ▸ hbc)
    · exact .inr ⟨hab.trans hbc, hle.trans hle'⟩

instance (hits : List (α × ℕ)) : Std.Antisymm (before hits) where
  antisymm a b := by
    rintro (hab | ⟨hab, hle⟩) (hba | ⟨hba, hle'⟩)
    · exact absurd hab hba.asymm
    · exact absurd hab (by rw [hba]; exact lt_irrefl _)
    · exact absurd hba (by rw [hab]; exact lt_irrefl _)
    · exact le_antisymm hle hle'

def owners (hits : List (α × ℕ)) : List α := (hits.map Prod.fst).dedup

/-- The first owners of the fusion of the hits. -/
def fuse (limit : ℕ) (hits : List (α × ℕ)) : List α :=
  ((owners hits).insertionSort (before hits)).take limit

theorem score_perm {hits hits' : List (α × ℕ)} (h : hits.Perm hits') (owner : α) :
    score hits owner = score hits' owner := ((h.filter _).map _).sum_eq

/-- Only which hits are fused matters. -/
theorem fuse_perm {limit : ℕ} {hits hits' : List (α × ℕ)} (h : hits.Perm hits') :
    fuse limit hits = fuse limit hits' := by
  have hbefore : before hits' = before hits := by
    funext a b
    unfold before
    rw [score_perm h, score_perm h]
  have howners : (owners hits).Perm (owners hits') := (h.map Prod.fst).dedup
  have hsorted' : ((owners hits').insertionSort (before hits')).Pairwise (before hits) :=
    (List.pairwise_insertionSort _ _).imp fun hab => by rwa [hbefore] at hab
  have hsorted : (owners hits).insertionSort (before hits) = (owners hits').insertionSort (before hits') :=
    ((List.perm_insertionSort _ _).trans (howners.trans (List.perm_insertionSort _ _).symm)).eq_of_pairwise'
      (List.pairwise_insertionSort _ _) hsorted'
  unfold fuse
  rw [hsorted]

/-- No owner comes twice. -/
theorem fuse_nodup (limit : ℕ) (hits : List (α × ℕ)) : (fuse limit hits).Nodup :=
  ((List.perm_insertionSort _ _).nodup_iff.mpr (List.nodup_dedup _)).sublist (List.take_sublist _ _)

theorem exists_hit_of_mem_fuse {limit : ℕ} {hits : List (α × ℕ)} {a : α} (h : a ∈ fuse limit hits) :
    ∃ hit ∈ hits, hit.1 = a := by
  have hmem : a ∈ owners hits := (List.perm_insertionSort _ _).mem_iff.mp (List.mem_of_mem_take h)
  exact List.mem_map.mp (List.mem_dedup.mp hmem)

/-- An owner that no other precedes is returned. -/
theorem mem_fuse_of_first {limit : ℕ} (hlimit : 0 < limit) {hits : List (α × ℕ)} {a : α} (ha : a ∈ owners hits)
    (hfirst : ∀ b ∈ owners hits, before hits a b) : a ∈ fuse limit hits := by
  have hperm : ((owners hits).insertionSort (before hits)).Perm (owners hits) := List.perm_insertionSort _ _
  unfold fuse
  cases hl : (owners hits).insertionSort (before hits) with
  | nil =>
      rw [hl] at hperm
      exact absurd (hperm.mem_iff.mpr ha) List.not_mem_nil
  | cons b l =>
      have hsorted : (b :: l).Pairwise (before hits) := hl ▸ List.pairwise_insertionSort _ _
      rw [hl] at hperm
      have hba : before hits b a := by
        rcases List.mem_cons.mp (hperm.mem_iff.mpr ha) with rfl | hmem
        · exact hfirst a ha
        · exact (List.pairwise_cons.mp hsorted).1 a hmem
      obtain rfl : a = b := antisymm (hfirst b (hperm.mem_iff.mp List.mem_cons_self)) hba
      obtain ⟨m, rfl⟩ := Nat.exists_eq_succ_of_ne_zero hlimit.ne'
      exact List.mem_cons_self

/-! ### One list -/

theorem score_zipIdx_of_notMem {l : List α} {a : α} (h : a ∉ l) (n : ℕ) : score (l.zipIdx n) a = 0 := by
  have hnone : (l.zipIdx n).filter (fun hit => hit.1 = a) = [] := by
    rw [List.filter_eq_nil_iff]
    intro hit hmem
    have hin : hit.1 ∈ l := List.fst_mem_of_mem_zipIdx hmem
    simpa using fun heq : hit.1 = a => h (heq ▸ hin)
  unfold score
  rw [hnone]
  rfl

theorem score_zipIdx_cons_self {a : α} {l : List α} (h : a ∉ l) (n : ℕ) : score ((a :: l).zipIdx n) a = weight n := by
  have hrest : score (l.zipIdx (n + 1)) a = 0 := score_zipIdx_of_notMem h _
  unfold score at hrest ⊢
  rw [List.zipIdx_cons, List.filter_cons_of_pos (by simp), List.map_cons, List.sum_cons, hrest, add_zero]

theorem score_zipIdx_cons_of_ne {a b : α} (h : b ≠ a) (l : List α) (n : ℕ) :
    score ((b :: l).zipIdx n) a = score (l.zipIdx (n + 1)) a := by
  unfold score
  rw [List.zipIdx_cons, List.filter_cons_of_neg (by simpa using h)]

/-- In a numbered list without repetition every owner has the weight of its position. -/
theorem exists_score_zipIdx {l : List α} (hl : l.Nodup) {a : α} (h : a ∈ l) (n : ℕ) :
    ∃ m, n ≤ m ∧ score (l.zipIdx n) a = weight m := by
  induction l generalizing n with
  | nil => exact absurd h List.not_mem_nil
  | cons b l ih =>
      obtain ⟨hb, hl⟩ := List.nodup_cons.mp hl
      by_cases hab : b = a
      · subst hab
        exact ⟨n, le_refl n, score_zipIdx_cons_self hb n⟩
      · obtain ⟨m, hm, hscore⟩ := ih hl ((List.mem_cons.mp h).resolve_left (Ne.symm hab)) (n + 1)
        exact ⟨m, by omega, by rw [score_zipIdx_cons_of_ne hab, hscore]⟩

theorem pairwise_score_zipIdx {l : List α} (hl : l.Nodup) (n : ℕ) :
    l.Pairwise fun a b => score (l.zipIdx n) b < score (l.zipIdx n) a := by
  induction l generalizing n with
  | nil => exact List.Pairwise.nil
  | cons a l ih =>
      obtain ⟨ha, hl'⟩ := List.nodup_cons.mp hl
      rw [List.pairwise_cons]
      constructor
      · intro b hb
        have hne : a ≠ b := fun heq => ha (heq ▸ hb)
        obtain ⟨m, hm, hscore⟩ := exists_score_zipIdx hl' hb (n + 1)
        rw [score_zipIdx_cons_of_ne hne, hscore, score_zipIdx_cons_self ha]
        exact weight_lt (by omega)
      · refine (ih hl' (n + 1)).imp_of_mem fun {b c} hb hc hbc => ?_
        have hab : a ≠ b := fun heq => ha (heq ▸ hb)
        have hac : a ≠ c := fun heq => ha (heq ▸ hc)
        rw [score_zipIdx_cons_of_ne hab, score_zipIdx_cons_of_ne hac]
        exact hbc

/-- The fusion of one list is its beginning. -/
theorem fuse_numbered (limit : ℕ) {l : List α} (hl : l.Nodup) : fuse limit (numbered l) = l.take limit := by
  have howners : owners (numbered l) = l := by
    unfold owners numbered
    rw [List.zipIdx_map_fst, hl.dedup]
  have hsorted : l.Pairwise (before (numbered l)) := (pairwise_score_zipIdx hl 1).imp fun h => .inl h
  unfold fuse
  rw [howners, hsorted.insertionSort_eq]

omit [LinearOrder α] in
theorem take_zipIdx (m n : ℕ) (l : List α) : (l.zipIdx m).take n = (l.take n).zipIdx m := by
  induction l generalizing m n with
  | nil => simp
  | cons a l ih =>
      cases n with
      | zero => rfl
      | succ n => rw [List.zipIdx_cons, List.take_succ_cons, List.take_succ_cons, List.zipIdx_cons, ih]

omit [LinearOrder α] in
theorem take_numbered (n : ℕ) (l : List α) : (numbered l).take n = numbered (l.take n) := take_zipIdx 1 n l

/-! ### Two lists -/

theorem score_append (hits hits' : List (α × ℕ)) (owner : α) :
    score (hits ++ hits') owner = score hits owner + score hits' owner := by
  unfold score
  rw [List.filter_append, List.map_append, List.sum_append]

theorem score_numbered_le {l : List α} (hl : l.Nodup) (a : α) : score (numbered l) a ≤ weight 1 := by
  by_cases ha : a ∈ l
  · obtain ⟨m, hm, hscore⟩ := exists_score_zipIdx hl ha 1
    rw [numbered, hscore]
    exact weight_le hm
  · rw [numbered, score_zipIdx_of_notMem ha]
    exact (weight_pos 1).le

theorem mem_owners_numbered_append {l l' : List α} {a : α} (h : a ∈ owners (numbered l ++ numbered l')) :
    a ∈ l ∨ a ∈ l' := by
  unfold owners numbered at h
  rwa [List.map_append, List.zipIdx_map_fst, List.zipIdx_map_fst, List.mem_dedup, List.mem_append] at h

/-- The best hit of a list is returned if no owner is in both lists and it comes before all others. -/
theorem head_mem_fuse {limit : ℕ} (hlimit : 0 < limit) {a : α} {l l' : List α} (hl : (a :: l).Nodup)
    (hl' : l'.Nodup) (hdisjoint : ∀ b ∈ l', b ∉ a :: l) (hfirst : ∀ b ∈ l ++ l', a ≤ b) :
    a ∈ fuse limit (numbered (a :: l) ++ numbered l') := by
  have hscore : score (numbered (a :: l) ++ numbered l') a = weight 1 := by
    have hother : a ∉ l' := fun h => hdisjoint a h List.mem_cons_self
    rw [score_append, numbered, numbered, score_zipIdx_cons_self (List.nodup_cons.mp hl).1,
      score_zipIdx_of_notMem hother, add_zero]
  refine mem_fuse_of_first hlimit (List.mem_dedup.mpr ?_) fun b hb => ?_
  · exact List.mem_map.mpr ⟨(a, 1), List.mem_append_left _ List.mem_cons_self, rfl⟩
  · have hle : score (numbered (a :: l) ++ numbered l') b ≤ weight 1 := by
      rw [score_append]
      by_cases hmem : b ∈ l'
      · rw [numbered, score_zipIdx_of_notMem (hdisjoint b hmem), zero_add]
        exact score_numbered_le hl' b
      · have hzero : score (numbered l') b = 0 := score_zipIdx_of_notMem hmem 1
        rw [hzero, add_zero]
        exact score_numbered_le hl b
    have hab : a ≤ b := by
      rcases mem_owners_numbered_append hb with hmem | hmem
      · rcases List.mem_cons.mp hmem with rfl | hmem
        · exact le_refl b
        · exact hfirst b (List.mem_append_left _ hmem)
      · exact hfirst b (List.mem_append_right _ hmem)
    rcases hle.lt_or_eq with hlt | heq
    · exact .inl (hscore ▸ hlt)
    · exact .inr ⟨hscore.trans heq.symm, hab⟩

omit [LinearOrder α] in
/-- An exceeded limit may drop the best hit. -/
theorem exists_keeps_without_head {n : ℕ} {a : α} {l : List α} (hn : n ≤ l.length) (ha : a ∉ l) :
    ∃ kept, Keeps n (numbered (a :: l)) kept ∧ ∀ hit ∈ kept, hit.1 ≠ a := by
  refine ⟨(l.zipIdx 2).take n, keeps_tail (by rwa [List.length_zipIdx]), fun hit hmem heq => ha ?_⟩
  rw [← heq]
  exact List.fst_mem_of_mem_zipIdx (List.mem_of_mem_take hmem)

end RankFusion
