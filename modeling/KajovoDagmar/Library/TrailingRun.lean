import Mathlib.Data.List.DropRight
import Mathlib.Data.Nat.Notation

/-! # Trailing runs

The run of elements at the end of a list that satisfy a condition, and its length.  A counter that goes up with every
element that satisfies the condition and back to zero with every other one is this length (`trailing_concat`), and it
has reached a bound exactly when that many last elements all satisfy the condition (`le_trailing`). -/

namespace List

universe u

variable {α : Type u} (p : α → Bool)

/-- The length of the run at the end. -/
def trailing (l : List α) : ℕ := (l.rtakeWhile p).length

/-- The last `n` elements are there, and all of them satisfy the condition. -/
def EndsWith (n : ℕ) (l : List α) : Prop := n ≤ l.length ∧ ∀ x ∈ l.rtake n, p x = true

variable {p}

@[simp] theorem trailing_nil : trailing p [] = 0 := by
  simp [trailing]

theorem trailing_concat (l : List α) (x : α) :
    trailing p (l ++ [x]) = if p x then trailing p l + 1 else 0 := by
  unfold trailing
  rw [rtakeWhile_concat]
  split
  · rw [length_append, length_singleton]
  · rfl

theorem trailing_concat_of_pos {l : List α} {x : α} (h : p x = true) : trailing p (l ++ [x]) = trailing p l + 1 := by
  rw [trailing_concat, if_pos h]

theorem trailing_concat_of_neg {l : List α} {x : α} (h : p x = false) : trailing p (l ++ [x]) = 0 := by
  rw [trailing_concat, h]
  rfl

theorem endsWith_zero (l : List α) : EndsWith p 0 l := by
  refine ⟨Nat.zero_le _, fun x hx => ?_⟩
  rw [rtake_zero] at hx
  cases hx

theorem endsWith_concat {n : ℕ} {l : List α} {x : α} :
    EndsWith p (n + 1) (l ++ [x]) ↔ p x = true ∧ EndsWith p n l := by
  unfold EndsWith
  rw [rtake_concat_succ, length_append, length_singleton, Nat.add_le_add_iff_right]
  constructor
  · rintro ⟨hlength, hall⟩
    exact ⟨hall x (by simp), hlength, fun y hy => hall y (mem_append_left _ hy)⟩
  · rintro ⟨hx, hlength, hall⟩
    refine ⟨hlength, fun y hy => ?_⟩
    rcases mem_append.mp hy with hy | hy
    · exact hall y hy
    · rwa [mem_singleton.mp hy]

/-- The run has reached a bound exactly when that many last elements satisfy the condition. -/
theorem le_trailing {n : ℕ} {l : List α} : n ≤ trailing p l ↔ EndsWith p n l := by
  induction l using reverseRecOn generalizing n with
  | nil =>
    rw [trailing_nil, Nat.le_zero]
    constructor
    · rintro rfl
      exact endsWith_zero []
    · exact fun h => Nat.le_zero.mp h.1
  | append_singleton l x ih =>
    cases n with
    | zero => exact iff_of_true (Nat.zero_le _) (endsWith_zero _)
    | succ n =>
      rw [endsWith_concat, ← ih, trailing_concat]
      cases hx : p x with
      | true => simp
      | false => simp

end List
