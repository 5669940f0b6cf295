import Mathlib.Data.Nat.Notation

/-! # Base64 for URLs

`encode` is `base64.urlsafe_b64encode`.  `decode` is `base64.urlsafe_b64decode`: characters outside of the
alphabet are passed over, a complete padding ends the data, and data that end within a group are
refused, as are texts that are not ASCII.  What is encoded is decoded again (`decode_encode`). -/

namespace Base64

def alphabet : List Char :=
  "ABCDEFGHIJKLMNOPQRSTUVWXYZabcdefghijklmnopqrstuvwxyz0123456789-_".toList

/-- The character of six bits. -/
def digit (v : ℕ) : Char := alphabet.getD v 'A'

/-- The six bits of a character, also in the alphabet that is not for URLs. -/
def value? (c : Char) : Option ℕ :=
  if c = '+' then some 62
  else if c = '/' then some 63
  else if alphabet.idxOf c < 64 then some (alphabet.idxOf c) else none

def byte (n : ℕ) : UInt8 := UInt8.ofNat n

/-- `urlsafe_b64encode`. -/
def encode : List UInt8 → List Char
  | [] => []
  | [a] => [digit (a.toNat / 4), digit (a.toNat % 4 * 16), '=', '=']
  | [a, b] =>
    [digit (a.toNat / 4), digit (a.toNat % 4 * 16 + b.toNat / 16), digit (b.toNat % 16 * 4), '=']
  | a :: b :: c :: rest =>
    digit (a.toNat / 4) :: digit (a.toNat % 4 * 16 + b.toNat / 16) ::
      digit (b.toNat % 16 * 4 + c.toNat / 64) :: digit (c.toNat % 64) :: encode rest

/-- Decoding with `quad` characters of a group read, `left` the bits that they have left over, and `pads`
paddings since. -/
def decodeFrom (quad left pads : ℕ) : List Char → Option (List UInt8)
  | [] => if quad = 0 then some [] else none
  | c :: cs =>
    if c = '=' then
      if 2 ≤ quad then
        if 4 ≤ quad + (pads + 1) then some [] else decodeFrom quad left (pads + 1) cs
      else decodeFrom quad left pads cs
    else
      match value? c with
      | none => decodeFrom quad left pads cs
      | some v =>
        match quad with
        | 0 => decodeFrom 1 v 0 cs
        | 1 => (decodeFrom 2 (v % 16) 0 cs).map (byte (left * 4 + v / 16) :: ·)
        | 2 => (decodeFrom 3 (v % 4) 0 cs).map (byte (left * 16 + v / 4) :: ·)
        | _ => (decodeFrom 0 0 0 cs).map (byte (left * 64 + v) :: ·)

/-- `urlsafe_b64decode`, with `none` for a `ValueError`. -/
def decode (s : String) : Option (List UInt8) :=
  if s.toList.all (fun c => c.toNat < 128) then decodeFrom 0 0 0 s.toList else none

theorem value?_digit : ∀ v < 64, value? (digit v) = some v := by
  decide +kernel

theorem digit_ne_pad : ∀ v < 64, digit v ≠ '=' := by
  decide +kernel

theorem digit_ascii : ∀ v < 64, 32 ≤ (digit v).toNat ∧ (digit v).toNat < 127 := by
  decide +kernel

/-! ### A character of the alphabet, at each place of a group -/

theorem decodeFrom_first {left pads v : ℕ} (hv : v < 64) (cs : List Char) :
    decodeFrom 0 left pads (digit v :: cs) = decodeFrom 1 v 0 cs := by
  rw [decodeFrom, if_neg (digit_ne_pad v hv), value?_digit v hv]
  rfl

theorem decodeFrom_second {left pads v : ℕ} (hv : v < 64) (cs : List Char) :
    decodeFrom 1 left pads (digit v :: cs) =
      (decodeFrom 2 (v % 16) 0 cs).map (byte (left * 4 + v / 16) :: ·) := by
  rw [decodeFrom, if_neg (digit_ne_pad v hv), value?_digit v hv]
  rfl

theorem decodeFrom_third {left pads v : ℕ} (hv : v < 64) (cs : List Char) :
    decodeFrom 2 left pads (digit v :: cs) =
      (decodeFrom 3 (v % 4) 0 cs).map (byte (left * 16 + v / 4) :: ·) := by
  rw [decodeFrom, if_neg (digit_ne_pad v hv), value?_digit v hv]
  rfl

theorem decodeFrom_fourth {left pads v : ℕ} (hv : v < 64) (cs : List Char) :
    decodeFrom 3 left pads (digit v :: cs) = (decodeFrom 0 0 0 cs).map (byte (left * 64 + v) :: ·) := by
  rw [decodeFrom, if_neg (digit_ne_pad v hv), value?_digit v hv]
  rfl

/-! ### What is encoded is decoded again -/

theorem byte_eq {a : UInt8} {n : ℕ} (h : n = a.toNat) : byte n = a := by
  rw [byte, h, UInt8.ofNat_toNat]

/-- A whole group. -/
theorem decodeFrom_group (a b c : UInt8) (cs : List Char) :
    decodeFrom 0 0 0 (digit (a.toNat / 4) :: digit (a.toNat % 4 * 16 + b.toNat / 16) ::
      digit (b.toNat % 16 * 4 + c.toNat / 64) :: digit (c.toNat % 64) :: cs) =
      (decodeFrom 0 0 0 cs).map fun rest => a :: b :: c :: rest := by
  have ha := a.toNat_lt
  have hb := b.toNat_lt
  have hc := c.toNat_lt
  rw [decodeFrom_first (by omega), decodeFrom_second (by omega), decodeFrom_third (by omega),
    decodeFrom_fourth (by omega), Option.map_map, Option.map_map, byte_eq (a := a) (by omega),
    byte_eq (a := b) (by omega),
    byte_eq (a := c) (by omega)]
  rfl

theorem decodeFrom_encode : ∀ bs : List UInt8, decodeFrom 0 0 0 (encode bs) = some bs
  | [] => rfl
  | [a] => by
    have ha := a.toNat_lt
    rw [encode, decodeFrom_first (by omega), decodeFrom_second (by omega), byte_eq (a := a) (by omega)]
    rfl
  | [a, b] => by
    have ha := a.toNat_lt
    have hb := b.toNat_lt
    rw [encode, decodeFrom_first (by omega), decodeFrom_second (by omega), decodeFrom_third (by omega),
      byte_eq (a := a) (by omega), byte_eq (a := b) (by omega)]
    rfl
  | a :: b :: c :: rest => by
    rw [encode, decodeFrom_group, decodeFrom_encode rest]
    rfl

/-- The text of an encoding is printable ASCII. -/
theorem encode_ascii : ∀ (bs : List UInt8), ∀ c ∈ encode bs, 32 ≤ c.toNat ∧ c.toNat < 127
  | [], c, h => absurd h List.not_mem_nil
  | [a], c, h => by
    have ha := a.toNat_lt
    simp only [encode, List.mem_cons, List.not_mem_nil, or_false] at h
    rcases h with rfl | rfl | rfl | rfl
    · exact digit_ascii _ (by omega)
    · exact digit_ascii _ (by omega)
    · decide
    · decide
  | [a, b], c, h => by
    have ha := a.toNat_lt
    have hb := b.toNat_lt
    simp only [encode, List.mem_cons, List.not_mem_nil, or_false] at h
    rcases h with rfl | rfl | rfl | rfl
    · exact digit_ascii _ (by omega)
    · exact digit_ascii _ (by omega)
    · exact digit_ascii _ (by omega)
    · decide
  | a :: b :: c :: rest, d, h => by
    have ha := a.toNat_lt
    have hb := b.toNat_lt
    have hc := c.toNat_lt
    simp only [encode, List.mem_cons] at h
    rcases h with rfl | rfl | rfl | rfl | h
    · exact digit_ascii _ (by omega)
    · exact digit_ascii _ (by omega)
    · exact digit_ascii _ (by omega)
    · exact digit_ascii _ (by omega)
    · exact encode_ascii rest d h

/-- **What is encoded is decoded again.** -/
theorem decode_encode (bs : List UInt8) : decode (String.ofList (encode bs)) = some bs := by
  have hascii : (encode bs).all (fun c => c.toNat < 128) = true := by
    refine List.all_eq_true.mpr fun c hc => decide_eq_true ?_
    have hlt := (encode_ascii bs c hc).2
    omega
  rw [decode, String.toList_ofList, hascii, if_pos rfl, decodeFrom_encode]

example : decode "-_8=" = some [251, 255] ∧ decode "QQ" = none := by decide

end Base64
