import Mathlib.Algebra.Ring.Nat
import Mathlib.Data.List.Induction
import Mathlib.Data.Nat.Notation
import Mathlib.Tactic.Ring

/-! # Big-endian numbers

A number written as `k` bytes, the most significant first, and read back.  Writing keeps the number modulo `256 ^ k`
(`decode_encode`), and every `k` bytes are written by the number that they read as (`encode_decode`). -/

namespace BigEndian

/-- The lowest `k` bytes of a number, the most significant first. -/
def encode : ℕ → ℕ → List UInt8
  | 0, _ => []
  | k + 1, n => encode k (n / 256) ++ [UInt8.ofNat n]

/-- The number that bytes are read as. -/
def decode (bytes : List UInt8) : ℕ := bytes.foldl (fun n b => 256 * n + b.toNat) 0

@[simp] theorem length_encode (k n : ℕ) : (encode k n).length = k := by
  induction k generalizing n with
  | zero => rfl
  | succ k ih => rw [encode, List.length_append, ih, List.length_singleton]

theorem decode_concat (bytes : List UInt8) (b : UInt8) : decode (bytes ++ [b]) = 256 * decode bytes + b.toNat := by
  unfold decode
  rw [List.foldl_append, List.foldl_cons, List.foldl_nil]

theorem toNat_low (n : ℕ) : (UInt8.ofNat n).toNat = n % 256 := by simp

theorem decode_encode (k n : ℕ) : decode (encode k n) = n % 256 ^ k := by
  induction k generalizing n with
  | zero => rw [pow_zero, Nat.mod_one]; rfl
  | succ k ih =>
    rw [encode, decode_concat, ih, toNat_low, pow_succ, Nat.mul_comm (256 ^ k), Nat.mod_mul]
    omega

theorem decode_encode_of_lt {k n : ℕ} (h : n < 256 ^ k) : decode (encode k n) = n := by
  rw [decode_encode, Nat.mod_eq_of_lt h]

theorem decode_lt (bytes : List UInt8) : decode bytes < 256 ^ bytes.length := by
  induction bytes using List.reverseRecOn with
  | nil => decide
  | append_singleton bytes b ih =>
    rw [decode_concat, List.length_append, List.length_singleton, pow_succ]
    have := b.toNat_lt
    omega

theorem encode_decode (bytes : List UInt8) : encode bytes.length (decode bytes) = bytes := by
  induction bytes using List.reverseRecOn with
  | nil => rfl
  | append_singleton bytes b ih =>
    have hb := b.toNat_lt
    have hhigh : (256 * decode bytes + b.toNat) / 256 = decode bytes := by omega
    have hlow : UInt8.ofNat (256 * decode bytes + b.toNat) = b := by
      apply UInt8.toNat_inj.mp
      rw [toNat_low]
      omega
    rw [List.length_append, List.length_singleton, decode_concat, encode, hhigh, hlow, ih]

end BigEndian
