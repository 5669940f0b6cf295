import Mathlib.Data.Nat.Notation
import Mathlib.Algebra.Group.Nat.Defs

/-! # SHA-256

`sha256Hex` is the digest of a text in UTF-8 as a hexadecimal string, on natural numbers
below 2³². -/

namespace Sha256

def word : ℕ := 2 ^ 32

/-- The round constants: the fractions of the cube roots of the first 64 primes. -/
def roundConstants : List ℕ := [
    0x428a2f98, 0x71374491, 0xb5c0fbcf, 0xe9b5dba5, 0x3956c25b, 0x59f111f1,
    0x923f82a4, 0xab1c5ed5, 0xd807aa98, 0x12835b01, 0x243185be, 0x550c7dc3,
    0x72be5d74, 0x80deb1fe, 0x9bdc06a7, 0xc19bf174, 0xe49b69c1, 0xefbe4786,
    0xfc19dc6, 0x240ca1cc, 0x2de92c6f, 0x4a7484aa, 0x5cb0a9dc, 0x76f988da,
    0x983e5152, 0xa831c66d, 0xb00327c8, 0xbf597fc7, 0xc6e00bf3, 0xd5a79147,
    0x6ca6351, 0x14292967, 0x27b70a85, 0x2e1b2138, 0x4d2c6dfc, 0x53380d13,
    0x650a7354, 0x766a0abb, 0x81c2c92e, 0x92722c85, 0xa2bfe8a1, 0xa81a664b,
    0xc24b8b70, 0xc76c51a3, 0xd192e819, 0xd6990624, 0xf40e3585, 0x106aa070,
    0x19a4c116, 0x1e376c08, 0x2748774c, 0x34b0bcb5, 0x391c0cb3, 0x4ed8aa4a,
    0x5b9cca4f, 0x682e6ff3, 0x748f82ee, 0x78a5636f, 0x84c87814, 0x8cc70208,
    0x90befffa, 0xa4506ceb, 0xbef9a3f7, 0xc67178f2]

/-- The initial state: the fractions of the square roots of the first 8 primes. -/
def initial : List ℕ := [
    0x6a09e667, 0xbb67ae85, 0x3c6ef372, 0xa54ff53a, 0x510e527f, 0x9b05688c,
    0x1f83d9ab, 0x5be0cd19]

def rotr (x n : ℕ) : ℕ := (x >>> n) ||| ((x <<< (32 - n)) % word)

/-- The bytes of a character in UTF-8. -/
def utf8 (c : Char) : List ℕ :=
  let n := c.toNat
  if n < 0x80 then [n]
  else if n < 0x800 then [0xC0 + n / 64, 0x80 + n % 64]
  else if n < 0x10000 then [0xE0 + n / 4096, 0x80 + n / 64 % 64, 0x80 + n % 64]
  else [0xF0 + n / 262144, 0x80 + n / 4096 % 64, 0x80 + n / 64 % 64, 0x80 + n % 64]

/-- The message with its padding: a one bit, zeros, and the length in bits. -/
def pad (bytes : List ℕ) : List ℕ :=
  let zeros := (119 - bytes.length % 64) % 64
  bytes ++ [0x80] ++ List.replicate zeros 0 ++
    (List.range 8).map fun i => bytes.length * 8 / 256 ^ (7 - i) % 256

/-- Big-endian words. -/
def words : List ℕ → List ℕ
  | a :: b :: c :: d :: rest => (a * 0x1000000 + b * 0x10000 + c * 0x100 + d) :: words rest
  | _ => []

/-- The next schedule word, from the last sixteen, oldest first. -/
def nextWord (w : List ℕ) : ℕ :=
  let w₀ := w.getD 0 0
  let w₁ := w.getD 1 0
  let w₉ := w.getD 9 0
  let w₁₄ := w.getD 14 0
  (w₀ + (rotr w₁ 7 ^^^ rotr w₁ 18 ^^^ (w₁ >>> 3)) + w₉ +
    (rotr w₁₄ 17 ^^^ rotr w₁₄ 19 ^^^ (w₁₄ >>> 10))) % word

/-- One round on the state `[a, b, c, d, e, f, g, h]`. -/
def round (state : List ℕ) (k w : ℕ) : List ℕ :=
  match state with
  | [a, b, c, d, e, f, g, h] =>
    let t₁ := h + (rotr e 6 ^^^ rotr e 11 ^^^ rotr e 25) + ((e &&& f) ^^^ ((word - 1 - e) &&& g)) + k + w
    let t₂ := (rotr a 2 ^^^ rotr a 13 ^^^ rotr a 22) + ((a &&& b) ^^^ (a &&& c) ^^^ (b &&& c))
    [(t₁ + t₂) % word, a, b, c, (d + t₁) % word, e, f, g]
  | _ => state

/-- The rounds of one block, with the schedule window of the last sixteen words. -/
def rounds : List ℕ → List ℕ → List ℕ → List ℕ
  | state, _, [] => state
  | state, window, k :: ks =>
    rounds (round state k (window.getD 0 0)) (window.drop 1 ++ [nextWord window]) ks

def block (state ws : List ℕ) : List ℕ :=
  List.zipWith (fun x y => (x + y) % word) state (rounds state ws roundConstants)

/-- The blocks of sixteen words, one after the other; the first argument bounds their number. -/
def blocks : ℕ → List ℕ → List ℕ → List ℕ
  | 0, state, _ => state
  | n + 1, state, ws => if ws.isEmpty then state else blocks n (block state (ws.take 16)) (ws.drop 16)

def hexWord (n : ℕ) : List Char := (List.range 8).map fun i => Nat.digitChar (n / 16 ^ (7 - i) % 16)

/-- `hashlib.sha256(s.encode()).hexdigest()`. -/
def sha256Hex (s : String) : String :=
  let ws := words (pad (s.toList.flatMap utf8))
  String.ofList ((blocks ws.length initial ws).flatMap hexWord)

/-! ### The length of a digest -/

theorem length_round {state : List ℕ} (h : state.length = 8) (k w : ℕ) : (round state k w).length = 8 := by
  match state, h with
  | [a, b, c, d, e, f, g, h], _ => rfl

theorem length_rounds {state : List ℕ} (h : state.length = 8) (window ks : List ℕ) :
    (rounds state window ks).length = 8 := by
  induction ks generalizing state window with
  | nil => exact h
  | cons k ks ih => exact ih (length_round h k _) _

theorem length_block {state : List ℕ} (h : state.length = 8) (ws : List ℕ) : (block state ws).length = 8 := by
  rw [block, List.length_zipWith, length_rounds h, h]
  rfl

theorem length_blocks {state : List ℕ} (h : state.length = 8) (n : ℕ) (ws : List ℕ) :
    (blocks n state ws).length = 8 := by
  induction n generalizing state ws with
  | zero => exact h
  | succ n ih =>
    unfold blocks
    split
    · exact h
    · exact ih (length_block h _) _

/-- A digest has 64 hexadecimal digits. -/
theorem length_sha256Hex (s : String) : (sha256Hex s).length = 64 := by
  have hword : ∀ n, (hexWord n).length = 8 := by
    intro n
    rw [hexWord, List.length_map, List.length_range]
  have hdigits : ∀ ns : List ℕ, (ns.flatMap hexWord).length = 8 * ns.length := by
    intro ns
    induction ns with
    | nil => rfl
    | cons n ns ih =>
      rw [List.flatMap_cons, List.length_append, hword, ih, List.length_cons]
      omega
  unfold sha256Hex
  rw [String.length_ofList, hdigits, length_blocks rfl]

example : sha256Hex "abc" = "ba7816bf8f01cfea414140de5dae2223b00361a396177a9cb410ff61f20015ad" := by
  decide +kernel

end Sha256
