import Mathlib.Algebra.Order.Ring.Int
import Mathlib.Tactic.NormNum

/-! # Doubles

A double in its 64 bits: a sign, 11 bits of exponent and 52 bits of mantissa.  The magnitude of a number is counted
in units of the smallest positive double, so it is a natural number.  The comparisons are those of IEEE 754: a NaN is
neither less than nor equal to anything, and the two zeros are equal. -/

/-- A double, as its bits. -/
structure Binary64 where
  bits : BitVec 64
deriving DecidableEq

namespace Binary64

def sign (x : Binary64) : Bool := x.bits.toNat / 2 ^ 63 = 1

def exponent (x : Binary64) : ℕ := x.bits.toNat / 2 ^ 52 % 2 ^ 11

def mantissa (x : Binary64) : ℕ := x.bits.toNat % 2 ^ 52

def isNaN (x : Binary64) : Bool := x.exponent = 2047 ∧ x.mantissa ≠ 0

def isFinite (x : Binary64) : Bool := x.exponent ≠ 2047

/-- The magnitude of a number that is not a NaN, in units of `2 ^ (-1074)`. -/
def magnitude (x : Binary64) : ℕ :=
  if x.exponent = 0 then x.mantissa else (2 ^ 52 + x.mantissa) * 2 ^ (x.exponent - 1)

/-- The number, in units of `2 ^ (-1074)`. -/
def units (x : Binary64) : ℤ := if x.sign then -x.magnitude else x.magnitude

/-- `x < y`. -/
def lt (x y : Binary64) : Bool := !x.isNaN && !y.isNaN && decide (x.units < y.units)

/-- `x <= y`. -/
def le (x y : Binary64) : Bool := !x.isNaN && !y.isNaN && decide (x.units ≤ y.units)

def zero : Binary64 := ⟨0⟩

/-- `-1.0`. -/
def minusOne : Binary64 := ⟨0xBFF0000000000000⟩

/-- `float("nan")`. -/
def nan : Binary64 := ⟨0x7FF8000000000000⟩

theorem isNaN_of_isFinite {x : Binary64} (h : x.isFinite = true) : x.isNaN = false := by
  unfold isFinite at h
  unfold isNaN
  rw [decide_eq_false_iff_not]
  exact fun hnan => of_decide_eq_true h hnan.1

theorem lt_iff {x y : Binary64} : x.lt y = true ↔ x.isNaN = false ∧ y.isNaN = false ∧ x.units < y.units := by
  unfold lt
  rw [Bool.and_eq_true, Bool.and_eq_true, Bool.not_eq_true', Bool.not_eq_true', decide_eq_true_iff, and_assoc]

theorem le_iff {x y : Binary64} : x.le y = true ↔ x.isNaN = false ∧ y.isNaN = false ∧ x.units ≤ y.units := by
  unfold le
  rw [Bool.and_eq_true, Bool.and_eq_true, Bool.not_eq_true', Bool.not_eq_true', decide_eq_true_iff, and_assoc]

/-- Numbers compare as their values do. -/
theorem lt_of_not_le {x y : Binary64} (hx : x.isNaN = false) (hy : y.isNaN = false) (h : x.le y = false) :
    y.lt x = true := by
  refine lt_iff.mpr ⟨hy, hx, ?_⟩
  by_contra hnot
  have hle : x.le y = true := le_iff.mpr ⟨hx, hy, not_lt.mp hnot⟩
  rw [hle] at h
  cases h

theorem lt_trans {x y z : Binary64} (h : x.lt y = true) (h' : y.lt z = true) : x.lt z = true := by
  obtain ⟨hx, -, hxy⟩ := lt_iff.mp h
  obtain ⟨-, hz, hyz⟩ := lt_iff.mp h'
  exact lt_iff.mpr ⟨hx, hz, hxy.trans hyz⟩

theorem le_of_lt {x y : Binary64} (h : x.lt y = true) : y.le x = false := by
  obtain ⟨-, -, hxy⟩ := lt_iff.mp h
  rw [← Bool.not_eq_true, le_iff]
  exact fun hle => absurd hxy (not_lt.mpr hle.2.2)

end Binary64
