import Mathlib.Data.Int.Notation
import Mathlib.Data.List.Nodup

/-! # Chains of edits

A value with a version number is edited, and a record is kept of every edit: the number of the version that it
has made, and the value before and after it.  The records of the edits that have led from the original, which is
version 1, to the value as it stands form a chain (`EditRecord.Chain`).  A chain says of its records what a reader
of the history relies on: their numbers run from 2 to the version, each of them starts where its predecessor has
stopped, and the last one has made the value as it stands. -/

universe u v

/-- How the record of an edit is read. -/
structure EditRecord (ρ : Type u) (α : Type v) where
  number : ρ → ℤ
  before : ρ → α
  after : ρ → α

namespace EditRecord

variable {ρ : Type u} {α : Type v} (V : EditRecord ρ α)

/-- The records, oldest first, of the edits that have led from the original to the version with this value. -/
inductive Chain (original : α) : List ρ → ℤ → α → Prop
  | unedited : Chain original [] 1 original
  | edit {rs : List ρ} {version : ℤ} {current : α} {r : ρ} (h : Chain original rs version current)
      (hnumber : V.number r = version + 1) (hbefore : V.before r = current) :
      Chain original (rs ++ [r]) (version + 1) (V.after r)

variable {V} {original current : α} {rs : List ρ} {version : ℤ}

theorem Chain.one_le (h : V.Chain original rs version current) : 1 ≤ version := by
  induction h with
  | unedited => exact Int.le_refl 1
  | edit _ _ _ ih => omega

/-- The numbers of the records are those of the versions after the first. -/
theorem Chain.mem_numbers_iff (h : V.Chain original rs version current) (n : ℤ) :
    n ∈ rs.map V.number ↔ 2 ≤ n ∧ n ≤ version := by
  induction h with
  | unedited =>
      rw [List.map_nil, List.mem_nil_iff, false_iff]
      omega
  | @edit rs version current r h hnumber hbefore ih =>
      have hpos := h.one_le
      rw [List.map_append, List.mem_append, ih, List.map_singleton, List.mem_singleton, hnumber]
      omega

theorem Chain.number_le (h : V.Chain original rs version current) {r : ρ} (hr : r ∈ rs) : V.number r ≤ version :=
  ((h.mem_numbers_iff _).mp (List.mem_map_of_mem hr)).2

theorem Chain.nodup (h : V.Chain original rs version current) : (rs.map V.number).Nodup := by
  induction h with
  | unedited => exact List.nodup_nil
  | @edit rs version current r h hnumber hbefore ih =>
      have hfree : V.number r ∉ rs.map V.number := by
        rw [h.mem_numbers_iff, hnumber]
        omega
      rw [List.map_append, List.map_singleton, List.nodup_append_comm]
      exact List.nodup_cons.mpr ⟨hfree, ih⟩

/-- The last record has made the value as it stands. -/
theorem Chain.after_eq (h : V.Chain original rs version current) {r : ρ} (hr : r ∈ rs)
    (hlast : V.number r = version) : V.after r = current := by
  cases h with
  | unedited => exact absurd hr List.not_mem_nil
  | @edit rs version current last h hnumber hbefore =>
      rcases List.mem_append.mp hr with hr | hr
      · have hle := h.number_le hr
        omega
      · rw [List.mem_singleton.mp hr]

/-- The value of version 1 is the original. -/
theorem Chain.current_eq (h : V.Chain original rs version current) (hversion : version = 1) : current = original := by
  cases h with
  | unedited => rfl
  | edit h hnumber hbefore =>
      have hpos := h.one_le
      omega

/-- The first record starts from the original. -/
theorem Chain.before_first (h : V.Chain original rs version current) {r : ρ} (hr : r ∈ rs)
    (hfirst : V.number r = 2) : V.before r = original := by
  induction h with
  | unedited => exact absurd hr List.not_mem_nil
  | @edit rs version current last h hnumber hbefore ih =>
      rcases List.mem_append.mp hr with hr | hr
      · exact ih hr
      · obtain rfl := List.mem_singleton.mp hr
        rw [hbefore]
        exact h.current_eq (by omega)

/-- Every other record starts where its predecessor has stopped. -/
theorem Chain.before_eq (h : V.Chain original rs version current) {r r' : ρ} (hr : r ∈ rs) (hr' : r' ∈ rs)
    (hnext : V.number r' = V.number r + 1) : V.before r' = V.after r := by
  induction h with
  | unedited => exact absurd hr List.not_mem_nil
  | @edit rs version current last h hnumber hbefore ih =>
      rcases List.mem_append.mp hr' with hold' | hnew'
      · -- The predecessor of a record of the shorter chain is not the new one, whose number is higher.
        rcases List.mem_append.mp hr with hold | hnew
        · exact ih hold hold'
        · have hle := h.number_le hold'
          rw [List.mem_singleton.mp hnew] at hnext
          omega
      · rw [List.mem_singleton.mp hnew'] at hnext ⊢
        have hold : r ∈ rs := by
          rcases List.mem_append.mp hr with hold | hnew
          · exact hold
          · rw [List.mem_singleton.mp hnew] at hnext
            omega
        rw [hbefore]
        exact (h.after_eq hold (by omega)).symm

end EditRecord
