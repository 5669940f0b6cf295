import KajovoDagmar.Library.BigEndian
import KajovoDagmar.Library.Binary64

/-! # The realtime protocol

A packet of audio is a magic number, the number of the frame, the time of its capture and the samples.  The voice
client writes it through a `DataView`, and the server unpacks it with `struct`.  Both agree on every byte
(`kdv1_codec`). -/

namespace KajovoDagmar.Protocol

def pcmSampleRate : ℕ := 24000

def pcmSampleBytes : ℕ := 2

def frameBytes : ℕ := 960

/-- `b"KDV1"`. -/
def frameMagic : List UInt8 := [0x4b, 0x44, 0x56, 0x31]

def frameHeaderBytes : ℕ := 16

def framePacketBytes : ℕ := frameHeaderBytes + frameBytes

def maxTurnSeconds : ℕ := 120

def maxTurnBytes : ℕ := pcmSampleRate * pcmSampleBytes * maxTurnSeconds

/-! ### The server -/

/-- A decoded packet: the number of the frame, the time of its capture and its samples. -/
structure AudioPacket where
  sequence : ℕ
  capturedMs : Binary64
  pcm : List UInt8
deriving DecidableEq

/-- `validate_audio_frame`. -/
def validateAudioFrame (data : List UInt8) : Except String Unit :=
  if data = [] ∨ data.length % frameBytes ≠ 0 then
    .error s!"Zvukový rámec musí obsahovat násobek {frameBytes} bytů PCM16 24 kHz mono."
  else .ok ()

/-- `struct.unpack(">4sId", …)`. -/
def unpackHeader (header : List UInt8) : List UInt8 × ℕ × Binary64 :=
  (header.take 4, BigEndian.decode ((header.drop 4).take 4),
    ⟨BitVec.ofNat 64 (BigEndian.decode ((header.drop 8).take 8))⟩)

/-- `decode_audio_packet`; an error is a `ValueError`. -/
def decodeAudioPacket (data : List UInt8) : Except String AudioPacket :=
  if data.length ≠ framePacketBytes then
    .error s!"Binární zvukový paket musí mít přesně {framePacketBytes} bajtů."
  else
    let (magic, sequence, capturedMs) := unpackHeader (data.take frameHeaderBytes)
    if magic ≠ frameMagic then .error "Binární zvukový paket nemá platnou verzi KDV1."
    else if sequence < 1 ∨ capturedMs.lt .zero then
      .error "Pořadí a čas zvukového paketu musí být nezáporné."
    else do
      let pcm := data.drop frameHeaderBytes
      validateAudioFrame pcm
      return { sequence := sequence, capturedMs := capturedMs, pcm := pcm }

/-! ### The voice client -/

/-- Bytes written into a buffer at an offset. -/
def setBytes (buffer : List UInt8) (offset : ℕ) (bytes : List UInt8) : List UInt8 :=
  buffer.take offset ++ bytes ++ buffer.drop (offset + bytes.length)

/-- `setUint32` and `setFloat64` write the most significant byte first. -/
def setUint32 (buffer : List UInt8) (offset n : ℕ) : List UInt8 := setBytes buffer offset (BigEndian.encode 4 n)

def setFloat64 (buffer : List UInt8) (offset : ℕ) (x : Binary64) : List UInt8 :=
  setBytes buffer offset (BigEndian.encode 8 x.bits.toNat)

/-- The packet of a frame, or `none` for samples of another length. -/
def clientPacket (frameSequence : ℕ) (now : Binary64) (pcm : List UInt8) : Option (List UInt8) :=
  if pcm.length ≠ frameBytes then none
  else
    let packet := List.replicate framePacketBytes 0
    let packet := setBytes packet 0 [0x4b]
    let packet := setBytes packet 1 [0x44]
    let packet := setBytes packet 2 [0x56]
    let packet := setBytes packet 3 [0x31]
    let packet := setUint32 packet 4 frameSequence
    let packet := setFloat64 packet 8 now
    some (setBytes packet 16 pcm)

/-! ### The layout of a packet -/

/-- A packet, field by field. -/
def layout (sequence : ℕ) (capturedMs : Binary64) (pcm : List UInt8) : List UInt8 :=
  frameMagic ++ BigEndian.encode 4 sequence ++ BigEndian.encode 8 capturedMs.bits.toNat ++ pcm

/-- Bytes written behind a prefix that is as long as the offset. -/
theorem setBytes_append (written : List UInt8) {rest bytes : List UInt8} {offset : ℕ} (h : written.length = offset) :
    setBytes (written ++ rest) offset bytes = (written ++ bytes) ++ rest.drop bytes.length := by
  subst h
  unfold setBytes
  rw [List.take_left, List.drop_append, List.drop_of_length_le (Nat.le_add_right _ _), List.nil_append,
    Nat.add_sub_cancel_left]

theorem clientPacket_eq {sequence : ℕ} {capturedMs : Binary64} {pcm : List UInt8} (h : pcm.length = frameBytes) :
    clientPacket sequence capturedMs pcm = some (layout sequence capturedMs pcm) := by
  unfold clientPacket setUint32 setFloat64
  rw [if_neg (not_not.mpr h), ← List.nil_append (List.replicate framePacketBytes 0)]
  simp only
  rw [setBytes_append [] (by simp), setBytes_append ([] ++ [0x4b]) (by simp),
    setBytes_append ([] ++ [0x4b] ++ [0x44]) (by simp),
    setBytes_append ([] ++ [0x4b] ++ [0x44] ++ [0x56]) (by simp),
    setBytes_append ([] ++ [0x4b] ++ [0x44] ++ [0x56] ++ [0x31]) (by simp),
    setBytes_append ([] ++ [0x4b] ++ [0x44] ++ [0x56] ++ [0x31] ++ BigEndian.encode 4 sequence) (by simp),
    setBytes_append ([] ++ [0x4b] ++ [0x44] ++ [0x56] ++ [0x31] ++ BigEndian.encode 4 sequence ++
      BigEndian.encode 8 capturedMs.bits.toNat) (by simp)]
  have hrest : framePacketBytes - 4 - (BigEndian.encode 4 sequence).length -
      (BigEndian.encode 8 capturedMs.bits.toNat).length - pcm.length = 0 := by
    rw [BigEndian.length_encode, BigEndian.length_encode, h]
    rfl
  simp only [List.drop_replicate]
  rw [show framePacketBytes - [(0x4b : UInt8)].length - [(0x44 : UInt8)].length - [(0x56 : UInt8)].length -
    [(0x31 : UInt8)].length = framePacketBytes - 4 from rfl, hrest, List.replicate_zero, List.append_nil]
  rfl

theorem length_layout {sequence : ℕ} {capturedMs : Binary64} {pcm : List UInt8} (h : pcm.length = frameBytes) :
    (layout sequence capturedMs pcm).length = framePacketBytes := by
  simp [layout, frameMagic, h, framePacketBytes, frameHeaderBytes]
  omega

theorem take_layout (sequence : ℕ) (capturedMs : Binary64) (pcm : List UInt8) :
    (layout sequence capturedMs pcm).take frameHeaderBytes =
      frameMagic ++ BigEndian.encode 4 sequence ++ BigEndian.encode 8 capturedMs.bits.toNat := by
  unfold layout
  exact List.take_left' (by simp [frameMagic, frameHeaderBytes])

theorem drop_layout (sequence : ℕ) (capturedMs : Binary64) (pcm : List UInt8) :
    (layout sequence capturedMs pcm).drop frameHeaderBytes = pcm := by
  unfold layout
  exact List.drop_left' (by simp [frameMagic, frameHeaderBytes])

theorem unpackHeader_append {magic number time : List UInt8} (hmagic : magic.length = 4) (hnumber : number.length = 4)
    (htime : time.length = 8) : unpackHeader (magic ++ number ++ time) =
      (magic, BigEndian.decode number, ⟨BitVec.ofNat 64 (BigEndian.decode time)⟩) := by
  unfold unpackHeader
  rw [List.drop_left' (show (magic ++ number).length = 8 by rw [List.length_append, hmagic, hnumber]),
    List.append_assoc, List.take_left' hmagic, List.drop_left' hmagic, List.take_left' hnumber,
    List.take_of_length_le htime.le]

/-- A double is read as it is written. -/
theorem ofNat_decode_encode (x : Binary64) :
    (⟨BitVec.ofNat 64 (BigEndian.decode (BigEndian.encode 8 x.bits.toNat))⟩ : Binary64) = x := by
  rw [BigEndian.decode_encode_of_lt (lt_of_lt_of_le x.bits.isLt (by norm_num)), BitVec.ofNat_toNat,
    BitVec.setWidth_eq]

/-- Bytes are written as they are read. -/
theorem encode_ofNat_decode {time : List UInt8} (h : time.length = 8) :
    BigEndian.encode 8 (BitVec.ofNat 64 (BigEndian.decode time)).toNat = time := by
  have hlt := BigEndian.decode_lt time
  rw [h] at hlt
  rw [BitVec.toNat_ofNat, Nat.mod_eq_of_lt (lt_of_lt_of_le hlt (by norm_num)), ← h, BigEndian.encode_decode]

/-- The fields of bytes that are as long as a packet. -/
theorem exists_fields {data : List UInt8} (h : data.length = framePacketBytes) :
    ∃ magic number time pcm, magic.length = 4 ∧ number.length = 4 ∧ time.length = 8 ∧ pcm.length = frameBytes ∧
      data = magic ++ number ++ time ++ pcm := by
  have hlength : data.length = 976 := h
  refine ⟨data.take 4, (data.drop 4).take 4, (data.drop 8).take 8, data.drop 16, ?_, ?_, ?_, ?_, ?_⟩
  · rw [List.length_take, hlength]; rfl
  · rw [List.length_take, List.length_drop, hlength]; rfl
  · rw [List.length_take, List.length_drop, hlength]; rfl
  · rw [List.length_drop, hlength]; rfl
  · have h8 : data.drop 8 = (data.drop 4).drop 4 := by rw [List.drop_drop]
    have h16 : data.drop 16 = (data.drop 8).drop 8 := by rw [List.drop_drop]
    rw [List.append_assoc, h16, List.take_append_drop, List.append_assoc, h8, List.take_append_drop,
      List.take_append_drop]

/-! ### Acceptance -/

/-- A packet that is written from a frame is read as this frame. -/
theorem decode_layout {sequence : ℕ} {capturedMs : Binary64} {pcm : List UInt8} (hpos : 1 ≤ sequence)
    (hlt : sequence < 2 ^ 32) (htime : capturedMs.lt .zero = false) (hpcm : pcm.length = frameBytes) :
    decodeAudioPacket (layout sequence capturedMs pcm) = .ok ⟨sequence, capturedMs, pcm⟩ := by
  unfold decodeAudioPacket
  rw [if_neg (not_not.mpr (length_layout hpcm)), take_layout,
    unpackHeader_append rfl (BigEndian.length_encode 4 _) (BigEndian.length_encode 8 _), ofNat_decode_encode,
    BigEndian.decode_encode_of_lt (lt_of_lt_of_le hlt (by norm_num)), drop_layout]
  have hcheck : ¬(sequence < 1 ∨ capturedMs.lt .zero = true) := by
    rw [htime]
    simp only [Bool.false_eq_true, or_false]
    omega
  have hvalid : validateAudioFrame pcm = .ok () := by
    unfold validateAudioFrame
    rw [if_neg]
    rw [hpcm]
    rintro (rfl | hmod)
    · cases hpcm
    · exact hmod rfl
  simp only [ne_eq, not_true_eq_false, if_false, if_neg hcheck, hvalid]
  rfl

/-- An accepted packet is the one that is written from its frame. -/
theorem layout_of_decode {data : List UInt8} {packet : AudioPacket} (h : decodeAudioPacket data = .ok packet) :
    1 ≤ packet.sequence ∧ packet.sequence < 2 ^ 32 ∧ packet.capturedMs.lt .zero = false ∧
      packet.pcm.length = frameBytes ∧ layout packet.sequence packet.capturedMs packet.pcm = data := by
  unfold decodeAudioPacket at h
  split at h
  · cases h
  next hlength =>
  obtain ⟨magic, number, time, pcm, hmagic, hnumber, htime, hpcm, rfl⟩ := exists_fields (not_not.mp hlength)
  have hheader : (magic ++ number ++ time).length = frameHeaderBytes := by
    rw [List.length_append, List.length_append, hmagic, hnumber, htime]
    rfl
  rw [List.take_left' hheader, List.drop_left' hheader, unpackHeader_append hmagic hnumber htime] at h
  simp only at h
  split at h
  · cases h
  next hmagic' =>
  split at h
  · cases h
  next hcheck =>
  obtain rfl := not_not.mp hmagic'
  rw [not_or, Bool.not_eq_true] at hcheck
  have hlt := BigEndian.decode_lt number
  rw [hnumber] at hlt
  cases hvalid : validateAudioFrame pcm with
  | error message =>
    rw [hvalid] at h
    cases h
  | ok _ =>
    rw [hvalid] at h
    obtain rfl := Except.ok.inj h
    refine ⟨Nat.le_of_not_lt hcheck.1, lt_of_lt_of_le hlt (by norm_num), hcheck.2, hpcm, ?_⟩
    unfold layout
    rw [← hnumber, BigEndian.encode_decode, encode_ofNat_decode htime]

/-- **The codec**: what the voice client writes is what the server reads; the server accepts exactly the packets
that can be written from a frame whose time does not compare below zero, writing what it reads gives the same bytes,
and it refuses everything else. -/
theorem kdv1_codec :
    (∀ n t pcm, 1 ≤ n → n < 2 ^ 32 → Binary64.zero.le t = true → pcm.length = frameBytes →
      ∃ data, clientPacket n t pcm = some data ∧ decodeAudioPacket data = .ok ⟨n, t, pcm⟩) ∧
    (∀ data, (∃ packet, decodeAudioPacket data = .ok packet) ↔
      ∃ n t pcm, 1 ≤ n ∧ n < 2 ^ 32 ∧ t.lt .zero = false ∧ pcm.length = frameBytes ∧
        clientPacket n t pcm = some data) ∧
    (∀ data packet, decodeAudioPacket data = .ok packet →
      clientPacket packet.sequence packet.capturedMs packet.pcm = some data) ∧
    ∀ data, (∀ n t pcm, 1 ≤ n → n < 2 ^ 32 → t.lt .zero = false → pcm.length = frameBytes →
      clientPacket n t pcm ≠ some data) → ∃ message, decodeAudioPacket data = .error message := by
  have hwritten : ∀ data packet, decodeAudioPacket data = .ok packet →
      clientPacket packet.sequence packet.capturedMs packet.pcm = some data := by
    intro data packet h
    obtain ⟨-, -, -, hpcm, hlayout⟩ := layout_of_decode h
    rw [clientPacket_eq hpcm, hlayout]
  refine ⟨?_, ?_, hwritten, ?_⟩
  · intro n t pcm hpos hlt htime hpcm
    have hnot : t.lt .zero = false := by
      rw [← Bool.not_eq_true]
      intro hbelow
      rw [Binary64.le_of_lt hbelow] at htime
      cases htime
    exact ⟨_, clientPacket_eq hpcm, decode_layout hpos hlt hnot hpcm⟩
  · intro data
    constructor
    · rintro ⟨packet, h⟩
      obtain ⟨hpos, hlt, htime, hpcm, -⟩ := layout_of_decode h
      exact ⟨packet.sequence, packet.capturedMs, packet.pcm, hpos, hlt, htime, hpcm, hwritten data packet h⟩
    · rintro ⟨n, t, pcm, hpos, hlt, htime, hpcm, hdata⟩
      rw [clientPacket_eq hpcm] at hdata
      obtain rfl := Option.some.inj hdata
      exact ⟨_, decode_layout hpos hlt htime hpcm⟩
  · intro data hnone
    cases h : decodeAudioPacket data with
    | error message => exact ⟨message, rfl⟩
    | ok packet =>
      obtain ⟨hpos, hlt, htime, hpcm, -⟩ := layout_of_decode h
      exact (hnone _ _ _ hpos hlt htime hpcm (hwritten data packet h)).elim

end KajovoDagmar.Protocol
