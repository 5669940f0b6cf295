import Mathlib.Algebra.GroupWithZero.Nat
import Mathlib.Algebra.Order.BigOperators.Group.List
import Mathlib.Data.Nat.Notation

/-! # Prefixes within a budget

Every element of a list has a weight.  `within` takes elements from the front as long as their weights fit into a
budget: this is the longest prefix that fits (`length_le_within`). -/

namespace List

universe u

variable {α : Type u} (w : α → ℕ)

/-- The weight of a list. -/
def total (l : List α) : ℕ := (l.map w).sum

/-- The elements at the front whose weights fit into the budget. -/
def within : ℕ → List α → List α
  | _, [] => []
  | budget, x :: xs => if w x ≤ budget then x :: within (budget - w x) xs else []

variable {w}

@[simp] theorem total_nil : total w [] = 0 := rfl

@[simp] theorem total_cons (x : α) (xs : List α) : total w (x :: xs) = w x + total w xs := by
  simp [total]

@[simp] theorem total_reverse (l : List α) : total w l.reverse = total w l := by
  simp [total]

theorem within_prefix (budget : ℕ) (l : List α) : within w budget l <+: l := by
  induction l generalizing budget with
  | nil => exact List.prefix_rfl
  | cons x xs ih =>
      rw [within]
      split
      · exact (List.prefix_cons_inj x).mpr (ih _)
      · exact List.nil_prefix

theorem total_within_le (budget : ℕ) (l : List α) : total w (within w budget l) ≤ budget := by
  induction l generalizing budget with
  | nil => exact Nat.zero_le _
  | cons x xs ih =>
      rw [within]
      split
      · next hfits =>
        have hrest := ih (budget - w x)
        rw [total_cons]
        omega
      · exact Nat.zero_le _

/-- **No longer prefix fits.** -/
theorem length_le_within {budget : ℕ} {p l : List α} (hfront : p <+: l) (hfits : total w p ≤ budget) :
    p.length ≤ (within w budget l).length := by
  induction l generalizing budget p with
  | nil => rw [List.prefix_nil.mp hfront]; exact Nat.zero_le _
  | cons x xs ih =>
      cases p with
      | nil => exact Nat.zero_le _
      | cons y ys =>
          obtain ⟨rfl, hrest⟩ := List.cons_prefix_cons.mp hfront
          rw [total_cons] at hfits
          have hlength := ih hrest (by omega : total w ys ≤ budget - w y)
          rw [within, if_pos (by omega : w y ≤ budget), List.length_cons, List.length_cons]
          omega

end List
