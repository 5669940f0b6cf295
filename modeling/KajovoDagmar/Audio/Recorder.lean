import Mathlib.Algebra.Order.Floor.Ring
import Mathlib.Data.List.GetD
import Mathlib.Data.Rat.Floor
import Mathlib.Tactic.Linarith
import Mathlib.Tactic.Ring

/-! # The recorder

`KajoRecorderProcessor` resamples the blocks of the microphone to 24 kHz and posts frames of 480 samples, over the
rationals.  An output position between the last sample of a block and the first sample of the next one takes the last
sample as its right neighbour.  The output is the interpolation of the whole stream exactly if this makes no
difference at any block boundary (`resampling_iff`). -/

namespace KajovoDagmar.Recorder

def targetRate : ℚ := 24000

def frameSamples : ℕ := 480

structure KajoRecorderProcessor where
  buffer : List ℚ := []
  sourcePosition : ℚ := 0
  lastSample : ℚ := 0

/-- `Math.max(-1, Math.min(1, sample))`. -/
def limit (sample : ℚ) : ℚ := max (-1) (min 1 sample)

/-- The value in an `Int16Array`, which drops the fraction. -/
def pcmValue (value : ℚ) : ℤ := if value < 0 then -⌊-(value * 0x8000)⌋ else ⌊value * 0x7fff⌋

/-- The linear interpolation between two samples. -/
def interpolate (left right fraction : ℚ) : ℚ := left + (right - left) * fraction

namespace KajoRecorderProcessor

/-- The sample at a position of the block. -/
def sampleAt (p : KajoRecorderProcessor) (channel : List ℚ) (position : ℚ) : ℚ :=
  let leftIndex := ⌊position⌋
  let rightIndex := min (leftIndex + 1) (channel.length - 1)
  let fraction := position - leftIndex
  let left := if 0 ≤ leftIndex then channel.getD leftIndex.toNat 0 else p.lastSample
  let right := channel.getD rightIndex.toNat 0
  interpolate left right fraction

/-- A sample is pushed, and a full frame is posted. -/
def push (p : KajoRecorderProcessor) (value : ℚ) : KajoRecorderProcessor × List (List ℤ) :=
  let buffer := p.buffer ++ [value]
  if frameSamples ≤ buffer.length then
    ({ p with buffer := buffer.drop frameSamples }, [(buffer.take frameSamples).map pcmValue])
  else ({ p with buffer := buffer }, [])

/-- The state of the loop: the processor, the position, the samples that have been pushed and the frames that have
been posted. -/
structure Progress where
  processor : KajoRecorderProcessor
  position : ℚ
  samples : List ℚ := []
  frames : List (List ℤ) := []

/-- One round of the loop. -/
def Progress.next (ratio : ℚ) (channel : List ℚ) (g : Progress) : Progress :=
  let value := limit (g.processor.sampleAt channel g.position)
  { processor := (g.processor.push value).1
    position := g.position + ratio
    samples := g.samples ++ [value]
    frames := g.frames ++ (g.processor.push value).2 }

/-- The loop, for a number of rounds. -/
def loop (ratio : ℚ) (channel : List ℚ) : ℕ → Progress → Progress
  | 0, g => g
  | n + 1, g => if g.position < channel.length then loop ratio channel n (g.next ratio channel) else g

/-- `process`, with the samples that it pushes and the frames that it posts.  A position advances by one sample or
more in a round, so there are no more rounds than samples. -/
def process (sampleRate : ℚ) (p : KajoRecorderProcessor) (channel : List ℚ) : Progress :=
  if channel = [] then { processor := p, position := p.sourcePosition }
  else
    let g := loop (sampleRate / targetRate) channel channel.length { processor := p, position := p.sourcePosition }
    { g with
      processor := { g.processor with
        sourcePosition := g.position - channel.length
        lastSample := channel.getLastD 0 } }

/-- The samples that the blocks push. -/
def outputs (sampleRate : ℚ) : KajoRecorderProcessor → List (List ℚ) → List ℚ
  | _, [] => []
  | p, channel :: blocks =>
    (p.process sampleRate channel).samples ++ outputs sampleRate (p.process sampleRate channel).processor blocks

end KajoRecorderProcessor

open KajoRecorderProcessor

/-! ### Frames -/

/-- The frames and the buffer hold the samples in their order. -/
def Holds (before : List ℚ) (g : Progress) : Prop :=
  g.frames.flatten ++ g.processor.buffer.map pcmValue = (before ++ g.samples).map pcmValue

theorem Holds.next {before : List ℚ} {g : Progress} (h : Holds before g) (ratio : ℚ) (channel : List ℚ) :
    Holds before (g.next ratio channel) := by
  unfold Holds at h ⊢
  unfold Progress.next push
  simp only
  rw [← List.append_assoc before, List.map_append, ← h]
  split
  · simp only [List.flatten_append, List.flatten_singleton, List.append_assoc, ← List.map_append, List.take_append_drop]
  · simp only [List.append_nil, List.map_append, List.append_assoc]

theorem Holds.loop {before : List ℚ} (ratio : ℚ) (channel : List ℚ) (n : ℕ) {g : Progress} (h : Holds before g) :
    Holds before (loop ratio channel n g) := by
  induction n generalizing g with
  | zero => exact h
  | succ n ih =>
    unfold KajoRecorderProcessor.loop
    split
    · exact ih (h.next ratio channel)
    · exact h

/-- Every sample of a call is posted or waits in the buffer, in the order of the samples. -/
theorem frames_process (sampleRate : ℚ) (p : KajoRecorderProcessor) (channel : List ℚ) :
    let g := p.process sampleRate channel
    g.frames.flatten ++ g.processor.buffer.map pcmValue = (p.buffer ++ g.samples).map pcmValue := by
  have hstart : Holds p.buffer { processor := p, position := p.sourcePosition } := by
    unfold Holds
    rw [List.flatten_nil, List.nil_append, List.append_nil]
  unfold process
  split
  · exact hstart
  · exact hstart.loop (sampleRate / targetRate) channel channel.length

/-! ### One block -/

/-- The sample at a position of a block, with the last sample of the block as the neighbour beyond it. -/
def blockSample (channel : List ℚ) (position : ℚ) : ℚ :=
  interpolate (channel.getD ⌊position⌋₊ 0) (channel.getD (min (⌊position⌋₊ + 1) (channel.length - 1)) 0)
    (position - ⌊position⌋₊)

theorem sampleAt_eq (p : KajoRecorderProcessor) {channel : List ℚ} (hne : channel ≠ []) {position : ℚ}
    (h : 0 ≤ position) : p.sampleAt channel position = blockSample channel position := by
  have hlength : 0 < channel.length := List.length_pos_of_ne_nil hne
  have hfloor : ⌊position⌋ = (⌊position⌋₊ : ℤ) := (Int.natCast_floor_eq_floor h).symm
  have hright : (min ((⌊position⌋₊ : ℤ) + 1) (channel.length - 1)).toNat =
      min (⌊position⌋₊ + 1) (channel.length - 1) := by omega
  unfold sampleAt blockSample
  simp only [hfloor, Int.natCast_nonneg, if_true, Int.toNat_natCast, hright, Int.cast_natCast]

/-- The loop runs through the positions within the block. -/
theorem loop_positions {ratio : ℚ} (hratio : 1 ≤ ratio) {channel : List ℚ} (hne : channel ≠ []) (n : ℕ) {g : Progress}
    (hposition : 0 ≤ g.position) (henough : (channel.length : ℚ) ≤ n + g.position) :
    ∃ m : ℕ, (loop ratio channel n g).samples =
        g.samples ++ (List.range m).map (fun j : ℕ => limit (blockSample channel (g.position + j * ratio))) ∧
      (loop ratio channel n g).position = g.position + m * ratio ∧ (channel.length : ℚ) ≤ g.position + m * ratio ∧
      ∀ j < m, g.position + j * ratio < channel.length := by
  induction n generalizing g with
  | zero =>
    refine ⟨0, by simp [loop], by simp [loop], ?_, fun j hj => absurd hj (Nat.not_lt_zero j)⟩
    simpa using henough
  | succ n ih =>
    unfold KajoRecorderProcessor.loop
    split
    · next hinside =>
      have henough' : (channel.length : ℚ) ≤ n + (g.next ratio channel).position := by
        show (channel.length : ℚ) ≤ n + (g.position + ratio)
        push_cast at henough
        linarith
      obtain ⟨m, hsamples, hlast, hdone, hbefore⟩ := ih (by show 0 ≤ g.position + ratio; linarith) henough'
      have hshift : ∀ j : ℕ, (g.next ratio channel).position + j * ratio = g.position + ((j + 1 : ℕ) : ℚ) * ratio := by
        intro j
        show g.position + ratio + j * ratio = _
        push_cast
        ring
      refine ⟨m + 1, ?_, ?_, ?_, ?_⟩
      · rw [hsamples, List.range_succ_eq_map, List.map_cons, List.map_map]
        show g.samples ++ [limit (g.processor.sampleAt channel g.position)] ++ _ = _
        rw [sampleAt_eq g.processor hne hposition, List.append_assoc, List.singleton_append]
        simp only [hshift, Nat.cast_zero, zero_mul, add_zero]
        rfl
      · rw [hlast, hshift]
      · rwa [hshift] at hdone
      · intro j hj
        cases j with
        | zero => simpa using hinside
        | succ j =>
          have := hbefore j (Nat.lt_of_succ_lt_succ hj)
          rwa [hshift] at this
    · next houtside =>
      refine ⟨0, by simp, by simp, ?_, fun j hj => absurd hj (Nat.not_lt_zero j)⟩
      simpa using not_lt.mp houtside

/-! ### The stream -/

/-- What the blocks give at a position of the stream. -/
def valueAt : List (List ℚ) → ℚ → Option ℚ
  | [], _ => none
  | channel :: blocks, position =>
    if position < channel.length then some (limit (blockSample channel position))
    else valueAt blocks (position - channel.length)

/-- The outputs are the values at the positions of the stream. -/
theorem getElem?_outputs {sampleRate : ℚ} (hrate : targetRate ≤ sampleRate) {blocks : List (List ℚ)}
    (hne : ∀ channel ∈ blocks, channel ≠ []) {p : KajoRecorderProcessor} (hposition : 0 ≤ p.sourcePosition) (k : ℕ) :
    (outputs sampleRate p blocks)[k]? = valueAt blocks (p.sourcePosition + k * (sampleRate / targetRate)) := by
  have hratio : 1 ≤ sampleRate / targetRate := (one_le_div (by norm_num [targetRate])).mpr hrate
  induction blocks generalizing p k with
  | nil => rfl
  | cons channel blocks ih =>
    have hchannel : channel ≠ [] := hne channel (List.mem_cons_self ..)
    obtain ⟨m, hsamples, hlast, hdone, hbefore⟩ := loop_positions hratio hchannel channel.length
      (g := { processor := p, position := p.sourcePosition }) hposition (by simpa using hposition)
    have hprocess : (p.process sampleRate channel).samples =
        (List.range m).map fun j : ℕ =>
          limit (blockSample channel (p.sourcePosition + j * (sampleRate / targetRate))) := by
      unfold process
      rw [if_neg hchannel]
      exact hsamples
    have hnext : (p.process sampleRate channel).processor.sourcePosition =
        p.sourcePosition + m * (sampleRate / targetRate) - channel.length := by
      unfold process
      rw [if_neg hchannel]
      exact congrArg (· - (channel.length : ℚ)) hlast
    have hmono : ∀ {i j : ℕ}, i ≤ j → p.sourcePosition + i * (sampleRate / targetRate) ≤
        p.sourcePosition + j * (sampleRate / targetRate) := by
      intro i j hij
      have hcast : (i : ℚ) ≤ j := by exact_mod_cast hij
      have := mul_le_mul_of_nonneg_right hcast (zero_le_one.trans hratio)
      linarith
    unfold outputs valueAt
    rw [List.getElem?_append, hprocess, List.length_map, List.length_range]
    by_cases hk : k < m
    · rw [if_pos hk, if_pos (hbefore k hk), List.getElem?_map, List.getElem?_range hk]
      rfl
    · have hbeyond := hdone.trans (hmono (Nat.le_of_not_lt hk))
      rw [if_neg hk, if_neg (not_lt.mpr hbeyond), ih (fun c hc => hne c (List.mem_cons_of_mem _ hc))]
      · congr 1
        rw [hnext, Nat.cast_sub (Nat.le_of_not_lt hk)]
        ring
      · rw [hnext]
        linarith

/-- The value at a position of a block. -/
theorem valueAt_append (before : List (List ℚ)) {channel : List ℚ} {after : List (List ℚ)} {position : ℚ}
    (hle : (before.flatten.length : ℚ) ≤ position) (hlt : position < before.flatten.length + channel.length) :
    valueAt (before ++ channel :: after) position =
      some (limit (blockSample channel (position - before.flatten.length))) := by
  induction before generalizing position with
  | nil =>
    rw [List.flatten_nil, List.length_nil, Nat.cast_zero, zero_add] at hlt
    rw [List.nil_append, List.flatten_nil, List.length_nil, Nat.cast_zero, sub_zero]
    exact if_pos hlt
  | cons block before ih =>
    rw [List.flatten_cons, List.length_append, Nat.cast_add] at hle hlt
    have hpast : ¬position < block.length := by
      have : (0 : ℚ) ≤ before.flatten.length := Nat.cast_nonneg _
      linarith
    rw [List.cons_append, valueAt, if_neg hpast, ih (by linarith) (by linarith), List.flatten_cons, List.length_append,
      Nat.cast_add, sub_sub]

/-- The block of a position. -/
theorem exists_block {blocks : List (List ℚ)} {position : ℚ} (hposition : 0 ≤ position)
    (hinside : position < blocks.flatten.length) :
    ∃ before channel after, blocks = before ++ channel :: after ∧ (before.flatten.length : ℚ) ≤ position ∧
      position < before.flatten.length + channel.length := by
  induction blocks generalizing position with
  | nil =>
    rw [List.flatten_nil, List.length_nil, Nat.cast_zero] at hinside
    exact absurd hposition (not_le.mpr hinside)
  | cons channel blocks ih =>
    by_cases hfirst : position < channel.length
    · refine ⟨[], channel, blocks, rfl, ?_, ?_⟩
      · simpa using hposition
      · simpa using hfirst
    · rw [List.flatten_cons, List.length_append, Nat.cast_add] at hinside
      obtain ⟨before, channel', after, rfl, hle, hlt⟩ := ih (sub_nonneg.mpr (not_lt.mp hfirst)) (by linarith)
      refine ⟨channel :: before, channel', after, rfl, ?_, ?_⟩
      · rw [List.flatten_cons, List.length_append, Nat.cast_add]
        linarith
      · rw [List.flatten_cons, List.length_append, Nat.cast_add]
        linarith

/-- The interpolation of the whole stream at a position. -/
def streamSample (stream : List ℚ) (position : ℚ) : ℚ :=
  interpolate (stream.getD ⌊position⌋₊ 0) (stream.getD (⌊position⌋₊ + 1) 0) (position - ⌊position⌋₊)

/-- The outputs are the interpolation of the whole stream, as far as their right neighbours have arrived. -/
def Interpolates (sampleRate : ℚ) (blocks : List (List ℚ)) : Prop :=
  ∀ k : ℕ, ⌊k * (sampleRate / targetRate)⌋₊ + 1 < blocks.flatten.length →
    (outputs sampleRate {} blocks)[k]? = some (limit (streamSample blocks.flatten (k * (sampleRate / targetRate))))

/-- At an output position between the last sample of a block and the first sample after it, the interpolation stays
at the last sample. -/
def SmoothAtBoundaries (sampleRate : ℚ) (blocks : List (List ℚ)) : Prop :=
  ∀ before channel after, blocks = before ++ channel :: after → ∀ right ∈ after.flatten.head?, ∀ k : ℕ,
    let gap : ℚ := k * (sampleRate / targetRate) - (before.flatten.length + channel.length - 1)
    0 < gap → gap < 1 → limit (channel.getLastD 0) = limit (interpolate (channel.getLastD 0) right gap)

/-! ### Boundaries -/

section block

variable {before after : List (List ℚ)} {channel : List ℚ} {position : ℚ}

theorem floor_in_block (hle : (before.flatten.length : ℚ) ≤ position) :
    ⌊position⌋₊ = before.flatten.length + ⌊position - before.flatten.length⌋₊ := by
  have h := Nat.floor_add_natCast (sub_nonneg.mpr hle) before.flatten.length
  rw [sub_add_cancel] at h
  rw [h, Nat.add_comm]

theorem getD_flatten_block {i : ℕ} (hi : i < channel.length) :
    (before ++ channel :: after).flatten.getD (before.flatten.length + i) 0 = channel.getD i 0 := by
  rw [List.flatten_append, List.flatten_cons, List.getD_append_right _ _ _ _ (Nat.le_add_right _ _),
    Nat.add_sub_cancel_left, List.getD_append _ _ _ _ hi]

theorem getD_flatten_after :
    (before ++ channel :: after).flatten.getD (before.flatten.length + channel.length) 0 = after.flatten.headD 0 := by
  rw [List.flatten_append, List.flatten_cons, List.getD_append_right _ _ _ _ (Nat.le_add_right _ _),
    Nat.add_sub_cancel_left, List.getD_append_right _ _ _ _ (le_refl _), Nat.sub_self]
  cases after.flatten <;> rfl

/-- Within a block, its sample is that of the stream. -/
theorem blockSample_inner (hle : (before.flatten.length : ℚ) ≤ position)
    (hinner : ⌊position - before.flatten.length⌋₊ + 1 < channel.length) :
    blockSample channel (position - before.flatten.length) =
      streamSample (before ++ channel :: after).flatten position := by
  unfold blockSample streamSample
  rw [floor_in_block hle, min_eq_left (by omega), Nat.add_assoc, getD_flatten_block hinner,
    getD_flatten_block (Nat.lt_of_succ_lt hinner), Nat.cast_add, sub_sub]

variable (after) in
/-- Behind the last sample of a block, its sample is the last one, and that of the stream is an interpolation. -/
theorem blockSample_last (hle : (before.flatten.length : ℚ) ≤ position)
    (hlast : ⌊position - before.flatten.length⌋₊ + 1 = channel.length) :
    blockSample channel (position - before.flatten.length) = channel.getLastD 0 ∧
      streamSample (before ++ channel :: after).flatten position =
        interpolate (channel.getLastD 0) (after.flatten.headD 0)
          (position - (before.flatten.length + channel.length - 1)) := by
  have hfloor : ⌊position - before.flatten.length⌋₊ = channel.length - 1 := by omega
  have hlt : channel.length - 1 < channel.length := by omega
  have hleft : channel.getD (channel.length - 1) 0 = channel.getLastD 0 := by
    rw [List.getLastD_eq_getLast?, List.getLast?_eq_getElem?, List.getD_eq_getElem?_getD]
  constructor
  · unfold blockSample
    rw [hfloor, min_eq_right (by omega), hleft]
    unfold interpolate
    ring
  · have hnext : before.flatten.length + (channel.length - 1) + 1 = before.flatten.length + channel.length := by omega
    have hcast : ((before.flatten.length + (channel.length - 1) : ℕ) : ℚ) =
        before.flatten.length + channel.length - 1 := by
      rw [Nat.cast_add, Nat.cast_sub (by omega), Nat.cast_one]
      ring
    unfold streamSample
    rw [floor_in_block hle, hfloor, hnext, getD_flatten_block hlt, getD_flatten_after, hleft, hcast]

end block

/-- **Boundaries**: the outputs are the interpolation of the stream exactly if it is smooth at the boundaries. -/
theorem interpolates_iff {sampleRate : ℚ} (hrate : targetRate ≤ sampleRate) {blocks : List (List ℚ)}
    (hne : ∀ channel ∈ blocks, channel ≠ []) :
    Interpolates sampleRate blocks ↔ SmoothAtBoundaries sampleRate blocks := by
  have hoperands : ∀ k : ℕ, (outputs sampleRate {} blocks)[k]? = valueAt blocks (k * (sampleRate / targetRate)) := by
    intro k
    rw [getElem?_outputs hrate hne (le_refl _)]
    exact congrArg (valueAt blocks) (zero_add _)
  have hratio : 0 ≤ sampleRate / targetRate :=
    div_nonneg (le_trans (by norm_num [targetRate]) hrate) (by norm_num [targetRate])
  constructor
  · rintro h before channel after rfl right hright k gap hpos hlt
    have hchannel : 0 < channel.length := List.length_pos_of_ne_nil (hne channel (by simp))
    have hgap : (k : ℚ) * (sampleRate / targetRate) = before.flatten.length + channel.length - 1 + gap := by
      simp only [gap]
      ring
    have hone : (1 : ℚ) ≤ channel.length := by exact_mod_cast hchannel
    have hle : (before.flatten.length : ℚ) ≤ k * (sampleRate / targetRate) := by rw [hgap]; linarith
    have hin : k * (sampleRate / targetRate) < before.flatten.length + channel.length := by rw [hgap]; linarith
    have hfloor : ⌊k * (sampleRate / targetRate) - before.flatten.length⌋₊ + 1 = channel.length := by
      have : ⌊k * (sampleRate / targetRate) - (before.flatten.length : ℚ)⌋₊ = channel.length - 1 := by
        rw [Nat.floor_eq_iff (sub_nonneg.mpr hle), Nat.cast_sub hchannel, hgap]
        constructor <;> push_cast <;> linarith
      omega
    have hafter : after.flatten ≠ [] := by
      rintro hempty
      rw [hempty] at hright
      cases hright
    obtain ⟨hblock, hstream⟩ := blockSample_last after hle hfloor
    have harrived : ⌊k * (sampleRate / targetRate)⌋₊ + 1 < (before ++ channel :: after).flatten.length := by
      rw [floor_in_block hle, List.flatten_append, List.flatten_cons, List.length_append, List.length_append]
      have := List.length_pos_of_ne_nil hafter
      omega
    have hvalue := h k harrived
    rw [hoperands, valueAt_append before hle hin, hblock, hstream] at hvalue
    have hhead : after.flatten.headD 0 = right := by
      rw [List.headD_eq_head?_getD, hright]
      rfl
    rw [hhead] at hvalue
    exact Option.some.inj hvalue
  · intro h k harrived
    have hposition : 0 ≤ (k : ℚ) * (sampleRate / targetRate) := mul_nonneg (Nat.cast_nonneg k) hratio
    have hinside : (k : ℚ) * (sampleRate / targetRate) < blocks.flatten.length :=
      (Nat.floor_lt hposition).mp (Nat.lt_of_succ_lt harrived)
    obtain ⟨before, channel, after, rfl, hle, hlt⟩ := exists_block hposition hinside
    rw [hoperands, valueAt_append before hle hlt]
    congr 1
    have hfloor : ⌊k * (sampleRate / targetRate) - (before.flatten.length : ℚ)⌋₊ < channel.length :=
      (Nat.floor_lt (sub_nonneg.mpr hle)).mpr (by linarith)
    rcases Nat.lt_or_ge (⌊k * (sampleRate / targetRate) - (before.flatten.length : ℚ)⌋₊ + 1) channel.length with
      hinner | hlast
    · rw [blockSample_inner hle hinner]
    · have hlast' : ⌊k * (sampleRate / targetRate) - (before.flatten.length : ℚ)⌋₊ + 1 = channel.length := by omega
      obtain ⟨hblock, hstream⟩ := blockSample_last after hle hlast'
      have hafter : ∃ right, after.flatten.head? = some right := by
        rw [← Option.isSome_iff_exists, List.isSome_head?]
        rintro hempty
        rw [floor_in_block hle, List.flatten_append, List.flatten_cons, hempty, List.length_append, List.append_nil]
          at harrived
        omega
      obtain ⟨right, hright⟩ := hafter
      have hhead : after.flatten.headD 0 = right := by
        rw [List.headD_eq_head?_getD, hright]
        rfl
      rw [hblock, hstream, hhead]
      have hge : (channel.length : ℚ) - 1 ≤ k * (sampleRate / targetRate) - before.flatten.length := by
        have := Nat.floor_le (sub_nonneg.mpr hle)
        rw [show ⌊k * (sampleRate / targetRate) - (before.flatten.length : ℚ)⌋₊ = channel.length - 1 by omega,
          Nat.cast_sub (by omega), Nat.cast_one] at this
        exact this
      rcases (show (0 : ℚ) ≤ k * (sampleRate / targetRate) - (before.flatten.length + channel.length - 1) by
        linarith).eq_or_lt with hzero | hpos
      · rw [← hzero]
        unfold interpolate
        rw [mul_zero, add_zero]
      · exact h before channel after rfl right hright k hpos (by linarith)

/-- **Resampling**: two ways of cutting a stream give the same outputs, and these are the interpolation of the
stream, exactly if the stream is smooth at the boundaries of both. -/
theorem resampling_iff {sampleRate : ℚ} (hrate : targetRate ≤ sampleRate) {blocks blocks' : List (List ℚ)}
    (hne : ∀ channel ∈ blocks, channel ≠ []) (hne' : ∀ channel ∈ blocks', channel ≠ [])
    (hsame : blocks.flatten = blocks'.flatten) :
    ((∀ k : ℕ, ⌊k * (sampleRate / targetRate)⌋₊ + 1 < blocks.flatten.length →
        (outputs sampleRate {} blocks)[k]? = (outputs sampleRate {} blocks')[k]?) ∧
      Interpolates sampleRate blocks ∧ Interpolates sampleRate blocks') ↔
    SmoothAtBoundaries sampleRate blocks ∧ SmoothAtBoundaries sampleRate blocks' := by
  rw [interpolates_iff hrate hne, interpolates_iff hrate hne', and_iff_right_iff_imp]
  rintro ⟨hsmooth, hsmooth'⟩ k harrived
  rw [(interpolates_iff hrate hne).mpr hsmooth k harrived,
    (interpolates_iff hrate hne').mpr hsmooth' k (hsame ▸ harrived), hsame]

/-- A microphone at 44.1 kHz: the second output lies between the two blocks, and it is lost. -/
theorem boundary_changes_output :
    outputs 44100 {} [[0, 0], [1]] = [0, 0] ∧ outputs 44100 {} [[0, 0, 1]] = [0, 67 / 80] ∧
      ¬∀ k : ℕ, ⌊k * ((44100 : ℚ) / targetRate)⌋₊ + 1 < ([[0, 0], [1]] : List (List ℚ)).flatten.length →
        (outputs 44100 {} [[0, 0], [1]])[k]? = (outputs 44100 {} [[0, 0, 1]])[k]? := by
  have hcut : outputs 44100 {} [[0, 0], [1]] = [0, 0] := by decide +kernel
  have hwhole : outputs 44100 {} [[0, 0, 1]] = [0, 67 / 80] := by decide +kernel
  refine ⟨hcut, hwhole, fun h => ?_⟩
  have hfloor : ⌊((1 : ℕ) : ℚ) * (44100 / targetRate)⌋₊ + 1 < ([[0, 0], [1]] : List (List ℚ)).flatten.length := by
    have : ⌊((1 : ℕ) : ℚ) * (44100 / targetRate)⌋₊ < 2 := (Nat.floor_lt' (by norm_num)).mpr (by norm_num [targetRate])
    exact Nat.succ_lt_succ this
  have hsecond := h 1 hfloor
  rw [hcut, hwhole] at hsecond
  exact absurd (Option.some.inj hsecond) (by norm_num)

/-- Within the limits, the interpolation stays at the left sample only if the right one is equal. -/
theorem limit_interpolate_eq_iff {left right fraction : ℚ} (hleft : -1 ≤ left ∧ left ≤ 1)
    (hright : -1 ≤ right ∧ right ≤ 1) (hpos : 0 < fraction) (hlt : fraction < 1) :
    limit left = limit (interpolate left right fraction) ↔ left = right := by
  have hvalue : interpolate left right fraction = (1 - fraction) * left + fraction * right := by
    unfold interpolate
    ring
  have hlow : -1 ≤ interpolate left right fraction := by rw [hvalue]; nlinarith
  have hhigh : interpolate left right fraction ≤ 1 := by rw [hvalue]; nlinarith
  unfold limit
  rw [min_eq_right hleft.2, max_eq_right hleft.1, min_eq_right hhigh, max_eq_right hlow]
  unfold interpolate
  constructor
  · intro h
    have hzero : (right - left) * fraction = 0 := by linarith
    rcases mul_eq_zero.mp hzero with h' | h'
    · linarith
    · exact absurd h' hpos.ne'
  · rintro rfl
    ring

/-- In a stream within the limits the samples around a boundary have to be equal, where an output lies between them. -/
theorem smoothAtBoundaries_iff {sampleRate : ℚ} {blocks : List (List ℚ)}
    (hlimited : ∀ x ∈ blocks.flatten, -1 ≤ x ∧ x ≤ 1) : SmoothAtBoundaries sampleRate blocks ↔
      ∀ before channel after, blocks = before ++ channel :: after → ∀ right ∈ after.flatten.head?, ∀ k : ℕ,
        0 < k * (sampleRate / targetRate) - (before.flatten.length + channel.length - 1 : ℚ) →
        k * (sampleRate / targetRate) - (before.flatten.length + channel.length - 1 : ℚ) < 1 →
        channel.getLastD 0 = right := by
  have hlast : ∀ before channel after, blocks = before ++ channel :: after →
      -1 ≤ channel.getLastD 0 ∧ channel.getLastD 0 ≤ 1 := by
    rintro before channel after rfl
    rcases List.eq_nil_or_concat' channel with rfl | ⟨channel, last, rfl⟩
    · norm_num
    · rw [List.getLastD_concat]
      exact hlimited last (by simp)
  have hright : ∀ before channel after, blocks = before ++ channel :: after → ∀ right ∈ after.flatten.head?,
      -1 ≤ right ∧ right ≤ 1 := by
    rintro before channel after rfl right h
    refine hlimited right ?_
    rw [List.flatten_append, List.flatten_cons]
    exact List.mem_append_right _ (List.mem_append_right _ (List.mem_of_mem_head? h))
  unfold SmoothAtBoundaries
  constructor
  · intro h before channel after hblocks right hmem k hpos hlt
    exact (limit_interpolate_eq_iff (hlast before channel after hblocks)
      (hright before channel after hblocks right hmem)
      hpos hlt).mp (h before channel after hblocks right hmem k hpos hlt)
  · intro h before channel after hblocks right hmem k gap hpos hlt
    exact (limit_interpolate_eq_iff (hlast before channel after hblocks)
      (hright before channel after hblocks right hmem)
      hpos hlt).mpr (h before channel after hblocks right hmem k hpos hlt)

/-- A microphone at 44.1 kHz: the samples around the boundary are equal, and the outputs do not depend on it. -/
theorem resampling_iff_44100 :
    (∀ k : ℕ, ⌊k * ((44100 : ℚ) / targetRate)⌋₊ + 1 < ([[0, 1], [1]] : List (List ℚ)).flatten.length →
        (outputs 44100 {} [[0, 1], [1]])[k]? = (outputs 44100 {} [[0, 1, 1]])[k]?) ∧
      Interpolates 44100 [[0, 1], [1]] ∧ Interpolates 44100 [[0, 1, 1]] := by
  have hrate : targetRate ≤ 44100 := by norm_num [targetRate]
  have hne : ∀ channel ∈ ([[0, 1], [1]] : List (List ℚ)), channel ≠ [] := by decide
  have hne' : ∀ channel ∈ ([[0, 1, 1]] : List (List ℚ)), channel ≠ [] := by decide
  refine (resampling_iff hrate hne hne' rfl).mpr ⟨?_, ?_⟩
  · refine (smoothAtBoundaries_iff (by simp)).mpr fun before channel after hblocks right hright k hpos hlt => ?_
    rcases before with _ | ⟨first, _ | ⟨second, before⟩⟩
    · obtain ⟨rfl, rfl⟩ := List.cons.inj hblocks
      exact Option.some.inj hright
    · obtain ⟨-, hrest⟩ := List.cons.inj hblocks
      obtain ⟨-, rfl⟩ := List.cons.inj hrest
      cases hright
    · simp at hblocks
  · refine (smoothAtBoundaries_iff (by simp)).mpr fun before channel after hblocks right hright k hpos hlt => ?_
    rcases before with _ | ⟨first, before⟩
    · obtain ⟨-, rfl⟩ := List.cons.inj hblocks
      cases hright
    · simp at hblocks

end KajovoDagmar.Recorder
