import Mathlib.Data.Nat.Notation

/-! # Decoding UTF-8 piece by piece

`decode` reads the next bytes of a stream.  A character whose bytes are not all there yet is kept for the next
call, bytes that are no UTF-8 become U+FFFD, and a byte order mark at the beginning of the stream is dropped.
The text does not depend on how the bytes are cut (`decode_append`). -/

namespace TextDecoder

def replacement : Char := Char.ofNat 0xFFFD

def bom : Char := Char.ofNat 0xFEFF

/-- The bytes of a character that have been read, and the range of the next one. -/
structure Decoder where
  codePoint : ℕ := 0
  bytesSeen : ℕ := 0
  bytesNeeded : ℕ := 0
  lowerBoundary : ℕ := 0x80
  upperBoundary : ℕ := 0xBF

/-- The first byte of a character. -/
def lead (byte : ℕ) : Decoder × List Char :=
  if byte ≤ 0x7F then ({}, [Char.ofNat byte])
  else if 0xC2 ≤ byte ∧ byte ≤ 0xDF then ({ codePoint := byte % 0x20, bytesNeeded := 1 }, [])
  else if 0xE0 ≤ byte ∧ byte ≤ 0xEF then
    ({ codePoint := byte % 0x10
       bytesNeeded := 2
       lowerBoundary := if byte = 0xE0 then 0xA0 else 0x80
       upperBoundary := if byte = 0xED then 0x9F else 0xBF }, [])
  else if 0xF0 ≤ byte ∧ byte ≤ 0xF4 then
    ({ codePoint := byte % 0x08
       bytesNeeded := 3
       lowerBoundary := if byte = 0xF0 then 0x90 else 0x80
       upperBoundary := if byte = 0xF4 then 0x8F else 0xBF }, [])
  else ({}, [replacement])

/-- The next byte, and the characters that it completes. -/
def next (d : Decoder) (byte : ℕ) : Decoder × List Char :=
  if d.bytesNeeded = 0 then lead byte
  else if d.lowerBoundary ≤ byte ∧ byte ≤ d.upperBoundary then
    let codePoint := d.codePoint * 0x40 + byte % 0x40
    if d.bytesSeen + 1 = d.bytesNeeded then ({}, [Char.ofNat codePoint])
    else ({ codePoint := codePoint, bytesSeen := d.bytesSeen + 1, bytesNeeded := d.bytesNeeded }, [])
  else
    -- the byte is read again, as the first one of a character
    ((lead byte).1, replacement :: (lead byte).2)

/-- The next bytes. -/
def feed (d : Decoder) : List UInt8 → Decoder × List Char
  | [] => (d, [])
  | byte :: bytes =>
    ((feed (next d byte.toNat).1 bytes).1, (next d byte.toNat).2 ++ (feed (next d byte.toNat).1 bytes).2)

/-- The end of the bytes. -/
def flush (d : Decoder) : List Char := if d.bytesNeeded = 0 then [] else [replacement]

/-- The characters after a byte order mark at their beginning. -/
def afterBom : List Char → List Char
  | [] => []
  | c :: cs => if c = bom then cs else c :: cs

end TextDecoder

structure TextDecoder where
  decoder : TextDecoder.Decoder := {}
  bomSeen : Bool := false
  doNotFlush : Bool := false

namespace TextDecoder

/-- A stream that was read to its end begins again. -/
def resume (t : TextDecoder) : TextDecoder := if t.doNotFlush then t else {}

def visible (bomSeen : Bool) (cs : List Char) : List Char := if bomSeen then cs else afterBom cs

/-- `decode` with the option `stream`. -/
def decode (t : TextDecoder) (input : List UInt8) (stream : Bool) : TextDecoder × List Char :=
  let fed := feed t.resume.decoder input
  let output := if stream then fed.2 else fed.2 ++ flush fed.1
  ({ decoder := fed.1, bomSeen := t.resume.bomSeen || !output.isEmpty, doNotFlush := stream },
    visible t.resume.bomSeen output)

theorem feed_append (d : Decoder) (xs ys : List UInt8) : feed d (xs ++ ys) =
    ((feed (feed d xs).1 ys).1, (feed d xs).2 ++ (feed (feed d xs).1 ys).2) := by
  induction xs generalizing d with
  | nil => rfl
  | cons x xs ih =>
      rw [List.cons_append, feed, ih, feed]
      simp only [List.append_assoc]

theorem visible_append (bomSeen : Bool) (cs ds : List Char) :
    visible bomSeen (cs ++ ds) = visible bomSeen cs ++ visible (bomSeen || !cs.isEmpty) ds := by
  cases bomSeen with
  | true => rfl
  | false =>
      cases cs with
      | nil => rfl
      | cons c cs =>
          change afterBom (c :: (cs ++ ds)) = afterBom (c :: cs) ++ ds
          rw [afterBom, afterBom]
          split
          · rfl
          · rfl

/-- **The bytes of a stream may come in pieces.** -/
theorem decode_append (t : TextDecoder) (xs ys : List UInt8) (stream : Bool) :
    (t.decode (xs ++ ys) stream).2 = (t.decode xs true).2 ++ ((t.decode xs true).1.decode ys stream).2 := by
  have hfeed := feed_append t.resume.decoder xs ys
  cases stream with
  | true =>
      change visible _ (feed t.resume.decoder (xs ++ ys)).2 = _
      rw [hfeed, visible_append]
      rfl
  | false =>
      change visible _ ((feed t.resume.decoder (xs ++ ys)).2 ++ flush (feed t.resume.decoder (xs ++ ys)).1) = _
      rw [hfeed, List.append_assoc, visible_append]
      rfl

/-- The text of a whole stream. -/
def text (bytes : List UInt8) : List Char := (decode {} bytes false).2

example : text [0xEF, 0xBB, 0xBF, 0x6B, 0xC5, 0xAF, 0xC5] = ['k', 'ů', replacement] := by decide

end TextDecoder
