import Mathlib.Data.List.Sort
import Mathlib.Data.Nat.Notation

/-! # The first rows of a sorted selection

A query selects rows, sorts them and keeps the first `n`.  Selecting and sorting commute
(`filter_insertionSort`), so two selections of one table keep the same first rows exactly if every row on
which they differ comes behind `n` rows that both select (`take_sorted_eq_iff`). -/

namespace TopRows

variable {α : Type}

/-- Two selections begin alike exactly if `n` common rows precede every row on which they differ. -/
theorem take_filter_eq_iff (p q : α → Bool) (l : List α) (n : ℕ) : (l.filter p).take n = (l.filter q).take n ↔
    ∀ l₁ x l₂, l = l₁ ++ x :: l₂ → p x ≠ q x → n ≤ l₁.countP fun y => p y && q y := by
  induction l generalizing n with
  | nil => simp
  | cons y l ih =>
      have hsplit : ∀ P : List α → α → Prop, (∀ l₁ x l₂, y :: l = l₁ ++ x :: l₂ → P l₁ x) ↔
          P [] y ∧ ∀ l₁ x l₂, l = l₁ ++ x :: l₂ → P (y :: l₁) x := by
        intro P
        constructor
        · exact fun h => ⟨h [] y l rfl, fun l₁ x l₂ hl => h (y :: l₁) x l₂ (by rw [hl]; rfl)⟩
        · rintro ⟨hhead, htail⟩ l₁ x l₂ hl
          cases l₁ with
          | nil =>
              obtain ⟨rfl, -⟩ := List.cons.inj hl
              exact hhead
          | cons z l₁ =>
              obtain ⟨rfl, hrest⟩ := List.cons.inj hl
              exact htail l₁ x l₂ hrest
      rw [hsplit fun l₁ x => p x ≠ q x → n ≤ l₁.countP fun y => p y && q y]
      have hdiffer : p y ≠ q y →
          ((List.filter p (y :: l)).take n = (List.filter q (y :: l)).take n ↔ n = 0) := by
        intro hne
        constructor
        · intro heq
          by_contra hn
          obtain ⟨m, rfl⟩ := Nat.exists_eq_succ_of_ne_zero hn
          cases hp : p y with
          | true =>
              have hq : q y = false := by simpa [hp] using hne
              have hmem : y ∈ (List.filter q (y :: l)).take (m + 1) := by
                rw [← heq, List.filter_cons_of_pos hp]
                exact List.mem_cons_self
              exact absurd (List.mem_filter.mp (List.mem_of_mem_take hmem)).2 (by simp [hq])
          | false =>
              have hq : q y = true := by simpa [hp] using hne
              have hmem : y ∈ (List.filter p (y :: l)).take (m + 1) := by
                rw [heq, List.filter_cons_of_pos hq]
                exact List.mem_cons_self
              exact absurd (List.mem_filter.mp (List.mem_of_mem_take hmem)).2 (by simp [hp])
        · rintro rfl
          rfl
      by_cases hy : p y = q y
      · rw [and_iff_right fun h => absurd hy h]
        cases hp : p y with
        | true =>
            have hq : q y = true := hy ▸ hp
            rw [List.filter_cons_of_pos hp, List.filter_cons_of_pos hq]
            cases n with
            | zero => simp
            | succ m =>
                rw [List.take_succ_cons, List.take_succ_cons, List.cons_inj_right, ih m]
                simp only [List.countP_cons, hp, hq, Bool.and_self, if_true, Nat.add_le_add_iff_right]
        | false =>
            have hq : q y = false := hy ▸ hp
            rw [List.filter_cons_of_neg (by simp [hp]), List.filter_cons_of_neg (by simp [hq]), ih n]
            simp only [List.countP_cons, hp, Bool.false_and, Bool.false_eq_true, if_false, Nat.add_zero]
      · rw [hdiffer hy]
        constructor
        · rintro rfl
          exact ⟨fun _ => Nat.zero_le _, fun _ _ _ _ _ => Nat.zero_le _⟩
        · exact fun h => Nat.le_zero.mp (h.1 hy)

section sorting

variable (r : α → α → Prop) [DecidableRel r] [IsTrans α r]

theorem filter_orderedInsert (p : α → Bool) (a : α) {l : List α} (h : l.Pairwise r) :
    (l.orderedInsert r a).filter p = if p a then (l.filter p).orderedInsert r a else l.filter p := by
  induction l with
  | nil => by_cases hp : p a = true <;> simp [hp]
  | cons b l ih =>
      obtain ⟨hb, hl⟩ := List.pairwise_cons.mp h
      by_cases hab : r a b
      · have hfirst : ∀ m : List α, m ⊆ b :: l → m.orderedInsert r a = a :: m := by
          intro m hm
          cases m with
          | nil => rfl
          | cons c m =>
              have hac : r a c := by
                rcases List.mem_cons.mp (hm List.mem_cons_self) with rfl | hc
                · exact hab
                · exact IsTrans.trans a b c hab (hb c hc)
              exact List.orderedInsert_cons_of_le r m hac
        rw [List.orderedInsert_cons_of_le r l hab, hfirst _ (List.filter_subset_self (b :: l)), List.filter_cons]
      · rw [List.orderedInsert_of_not_le r l hab, List.filter_cons, List.filter_cons, ih hl]
        by_cases hpb : p b = true
        · by_cases hpa : p a = true
          · rw [if_pos hpb, if_pos hpa, if_pos hpb, if_pos hpa, List.orderedInsert_of_not_le r _ hab]
          · rw [if_pos hpb, if_neg hpa, if_neg hpa, if_pos hpb]
        · rw [if_neg hpb, if_neg hpb]

variable [Std.Total r]

/-- Selecting and sorting commute. -/
theorem filter_insertionSort (p : α → Bool) (l : List α) :
    (l.insertionSort r).filter p = (l.filter p).insertionSort r := by
  induction l with
  | nil => rfl
  | cons a l ih =>
      rw [List.insertionSort_cons, filter_orderedInsert r p a (List.pairwise_insertionSort r l), ih, List.filter_cons]
      split
      · rw [List.insertionSort_cons]
      · rfl

/-- Two selections of a table without ties keep the same first rows exactly if `n` common rows come before
every row on which they differ. -/
theorem take_sorted_eq_iff (p q : α → Bool) {l : List α} (h : l.Pairwise fun a b => ¬(r a b ∧ r b a)) (n : ℕ) :
    ((l.filter p).insertionSort r).take n = ((l.filter q).insertionSort r).take n ↔
      ∀ x ∈ l, p x ≠ q x → n ≤ l.countP fun y => p y && q y && !decide (r x y) := by
  have hperm : (l.insertionSort r).Perm l := List.perm_insertionSort r l
  have hrefl : ∀ x, r x x := fun x => (Std.Total.total x x).elim id id
  have hsorted : (l.insertionSort r).Pairwise fun a b => r a b ∧ ¬r b a := by
    have hties : (l.insertionSort r).Pairwise fun a b => ¬(r a b ∧ r b a) :=
      (hperm.pairwise_iff fun hab hba => hab ⟨hba.2, hba.1⟩).mpr h
    exact ((List.pairwise_insertionSort r l).and hties).imp fun hab => ⟨hab.1, fun hba => hab.2 ⟨hab.1, hba⟩⟩
  have hcount : ∀ l₁ x l₂, l.insertionSort r = l₁ ++ x :: l₂ →
      l.countP (fun y => p y && q y && !decide (r x y)) = l₁.countP fun y => p y && q y := by
    intro l₁ x l₂ hl
    rw [hl, List.pairwise_append, List.pairwise_cons] at hsorted
    have hbefore : l₁.countP (fun y => p y && q y && !decide (r x y)) = l₁.countP fun y => p y && q y :=
      List.countP_congr fun y hy => by simp [(hsorted.2.2 y hy x List.mem_cons_self).2]
    have hafter : (x :: l₂).countP (fun y => p y && q y && !decide (r x y)) = 0 := by
      rw [List.countP_eq_zero]
      intro y hy
      have hxy : r x y := by
        rcases List.mem_cons.mp hy with rfl | hy
        · exact hrefl y
        · exact (hsorted.2.1.1 y hy).1
      simp [hxy]
    rw [← hperm.countP_eq, hl, List.countP_append, hbefore, hafter, Nat.add_zero]
  rw [← filter_insertionSort, ← filter_insertionSort, take_filter_eq_iff]
  constructor
  · intro hall x hx hne
    obtain ⟨l₁, l₂, hl⟩ := List.append_of_mem (hperm.mem_iff.mpr hx)
    rw [hcount l₁ x l₂ hl]
    exact hall l₁ x l₂ hl hne
  · intro hall l₁ x l₂ hl hne
    rw [← hcount l₁ x l₂ hl]
    exact hall x (hperm.mem_iff.mp (by rw [hl]; simp)) hne

end sorting

end TopRows
