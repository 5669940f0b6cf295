import KajovoDagmar.Library.TrailingRun
import Mathlib.Data.List.Chain
import Mathlib.Algebra.Order.Floor.Ring
import Mathlib.Data.Rat.Floor
import Mathlib.Tactic.NormNum

/-! # Voice activity

`VoiceActivityDetector` reports where speech starts and where it ends.  A level is compared with the threshold over
the rationals, by their squares.  The two counters of the detector are lengths of trailing runs of voiced and of
unvoiced frames, and from this the reports are those of the specification (`vad_meets_specification`). -/

namespace KajovoDagmar.Vad

def frameMilliseconds : ℕ := 20

/-- The settings that the constructor accepts. -/
structure Config where
  threshold : ℤ
  startFrames : ℤ
  endpointSilenceMs : ℤ
  threshold_pos : 0 < threshold
  startFrames_pos : 0 < startFrames
  endpointSilenceMs_ge : (frameMilliseconds : ℤ) ≤ endpointSilenceMs

/-- The check of the constructor; `none` is a `ValueError`. -/
def Config.check (threshold startFrames endpointSilenceMs : ℤ) : Option Config :=
  if h : threshold ≤ 0 ∨ startFrames ≤ 0 ∨ endpointSilenceMs < frameMilliseconds then none
  else some ⟨threshold, startFrames, endpointSilenceMs, by omega, by omega, by omega⟩

theorem Config.check_isSome {threshold startFrames endpointSilenceMs : ℤ} :
    (Config.check threshold startFrames endpointSilenceMs).isSome ↔
      0 < threshold ∧ 0 < startFrames ∧ (frameMilliseconds : ℤ) ≤ endpointSilenceMs := by
  unfold Config.check
  split
  · next h => exact iff_of_false Bool.false_ne_true (by omega)
  · next h => exact iff_of_true rfl (by omega)

structure Detector where
  config : Config
  active : Bool := false
  voicedFrames : ℕ := 0
  silenceMs : ℕ := 0

structure VoiceActivity where
  started : Bool := false
  ended : Bool := false
  /-- The square of the level. -/
  levelSquared : ℚ := 0

def Detector.reset (d : Detector) : Detector := { d with active := false, voicedFrames := 0, silenceMs := 0 }

/-! ### Levels -/

/-- `int.from_bytes(…, "little", signed=True)`. -/
def sample (lo hi : UInt8) : ℤ :=
  if hi.toNat < 128 then 256 * hi.toNat + lo.toNat else 256 * hi.toNat + lo.toNat - 65536

/-- The samples of a frame. -/
def samples : List UInt8 → List ℤ
  | lo :: hi :: rest => sample lo hi :: samples rest
  | _ => []

/-- The square of `_rms`. -/
def meanSquare (pcm16 : List UInt8) : ℚ :=
  if pcm16 = [] ∨ pcm16.length % 2 ≠ 0 then 0
  else (((samples pcm16).map fun s => s * s).sum : ℤ) / (pcm16.length / 2 : ℕ)

/-- The level reaches the threshold. -/
def voiced (c : Config) (pcm16 : List UInt8) : Bool := (c.threshold : ℚ) ^ 2 ≤ meanSquare pcm16

/-- A sample is two bytes in two's complement. -/
theorem sample_eq_toInt (lo hi : UInt8) : sample lo hi = (hi.toBitVec ++ lo.toBitVec).toInt := by
  have hvalue : (hi.toBitVec ++ lo.toBitVec).toNat = 256 * hi.toNat + lo.toNat := by
    rw [BitVec.toNat_append, ← Nat.shiftLeft_add_eq_or_of_lt lo.toBitVec.isLt, Nat.shiftLeft_eq, Nat.mul_comm]
    rfl
  have hlo := lo.toNat_lt
  rw [sample, BitVec.toInt_eq_toNat_cond, hvalue]
  split <;> split <;> push_cast <;> omega

theorem length_samples (pcm16 : List UInt8) : (samples pcm16).length = pcm16.length / 2 := by
  induction pcm16 using samples.induct with
  | case1 lo hi rest ih =>
      rw [samples, List.length_cons, List.length_cons, List.length_cons, ih]
      omega
  | case2 pcm16 hshort =>
      rcases pcm16 with _ | ⟨lo, _ | ⟨hi, rest⟩⟩
      · rfl
      · simp [samples]
      · exact absurd rfl (hshort lo hi rest)

/-- **A frame is voiced** if it is one of whole samples and their squares reach the threshold on average. -/
theorem voiced_iff {c : Config} {pcm16 : List UInt8} : voiced c pcm16 = true ↔
    2 ∣ pcm16.length ∧ samples pcm16 ≠ [] ∧
      c.threshold ^ 2 * (samples pcm16).length ≤ ((samples pcm16).map fun s => s ^ 2).sum := by
  have hsquares : ((samples pcm16).map fun s => s * s) = (samples pcm16).map fun s => s ^ 2 :=
    List.map_congr_left fun s _ => (pow_two s).symm
  have hpositive : ¬(c.threshold : ℚ) ^ 2 ≤ 0 := not_le.mpr (pow_pos (Int.cast_pos.mpr c.threshold_pos) 2)
  have hlength := length_samples pcm16
  rw [voiced, decide_eq_true_eq, meanSquare, hsquares]
  split
  · next h =>
    refine iff_of_false hpositive ?_
    rintro ⟨hwhole, hne, -⟩
    rcases h with rfl | hodd
    · exact hne rfl
    · exact hodd (Nat.mod_eq_zero_of_dvd hwhole)
  · next h =>
    rw [not_or, not_not] at h
    have hcount : 0 < (samples pcm16).length := by
      have := List.length_pos_iff.mpr h.1
      omega
    rw [← hlength, le_div_iff₀ (Nat.cast_pos.mpr hcount), and_iff_right (Nat.dvd_of_mod_eq_zero h.2),
      and_iff_right (List.length_pos_iff.mp hcount)]
    exact_mod_cast Iff.rfl

/-! ### Processing a frame -/

/-- `process`, with the level of the frame. -/
def Detector.process (d : Detector) (pcm16 : List UInt8) : Detector × VoiceActivity :=
  let level := meanSquare pcm16
  if d.active = false then
    let voicedFrames := if voiced d.config pcm16 then d.voicedFrames + 1 else 0
    if d.config.startFrames ≤ voicedFrames then
      ({ d with active := true, voicedFrames := voicedFrames, silenceMs := 0 },
        { started := true, levelSquared := level })
    else ({ d with voicedFrames := voicedFrames }, { levelSquared := level })
  else if voiced d.config pcm16 then ({ d with silenceMs := 0 }, { levelSquared := level })
  else
    let silenceMs := d.silenceMs + frameMilliseconds
    if d.config.endpointSilenceMs ≤ silenceMs then
      ({ d with active := false, voicedFrames := 0, silenceMs := 0 }, { ended := true, levelSquared := level })
    else ({ d with silenceMs := silenceMs }, { levelSquared := level })

/-- A detector with the frames that it has processed and its reports. -/
structure Monitored where
  detector : Detector
  history : List (List UInt8 × VoiceActivity) := []

def Monitored.process (m : Monitored) (pcm16 : List UInt8) : Monitored :=
  { detector := (m.detector.process pcm16).1
    history := m.history ++ [(pcm16, (m.detector.process pcm16).2)] }

/-- The frames since a reset, processed in turn. -/
def Detector.monitor (d : Detector) (frames : List (List UInt8)) : Monitored :=
  frames.foldl Monitored.process { detector := d.reset }

/-! ### The specification -/

/-- The frames after the last end. -/
def sinceEnd (history : List (List UInt8 × VoiceActivity)) : List (List UInt8) :=
  (history.rtakeWhile fun r => !r.2.ended).map Prod.fst

/-- How many unvoiced frames end the speech. -/
def Config.endpointFrames (c : Config) : ℕ := ⌈(c.endpointSilenceMs : ℚ) / frameMilliseconds⌉₊

/-- A report. -/
inductive Report where
  | started
  | ended
deriving DecidableEq

/-- What is reported at a frame. -/
def VoiceActivity.reports (a : VoiceActivity) : List Report :=
  (if a.started then [.started] else []) ++ (if a.ended then [.ended] else [])

/-- The reports of a history. -/
def reports (history : List (List UInt8 × VoiceActivity)) : List Report := history.flatMap fun r => r.2.reports

/-- The reports alternate, beginning with a start. -/
def Alternating (rs : List Report) : Prop := rs.IsChain (· ≠ ·) ∧ ∀ r, rs.head? = some r → r = .started

/-! ### The counters -/

theorem sinceEnd_concat_of_not_ended {history : List (List UInt8 × VoiceActivity)} {frame : List UInt8}
    {a : VoiceActivity} (h : a.ended = false) : sinceEnd (history ++ [(frame, a)]) = sinceEnd history ++ [frame] := by
  unfold sinceEnd
  rw [List.rtakeWhile_concat_pos _ _ _ (by rw [h]; rfl), List.map_append, List.map_singleton]

theorem sinceEnd_concat_of_ended {history : List (List UInt8 × VoiceActivity)} {frame : List UInt8}
    {a : VoiceActivity} (h : a.ended = true) : sinceEnd (history ++ [(frame, a)]) = [] := by
  unfold sinceEnd
  rw [List.rtakeWhile_concat_neg _ _ _ (by rw [h]; exact Bool.false_ne_true), List.map_nil]

/-- The silence reaches the endpoint exactly with that many frames. -/
theorem endpointFrames_le {c : Config} {n : ℕ} :
    c.endpointFrames ≤ n ↔ c.endpointSilenceMs ≤ (frameMilliseconds * n : ℕ) := by
  have hpos : (0 : ℚ) < frameMilliseconds := by norm_num [frameMilliseconds]
  unfold Config.endpointFrames
  rw [Nat.ceil_le, div_le_iff₀ hpos, mul_comm]
  exact_mod_cast Iff.rfl

/-- The counters of a detector are lengths of trailing runs. -/
structure Counted (c : Config) (m : Monitored) : Prop where
  config : m.detector.config = c
  voicedFrames : m.detector.active = false →
    m.detector.voicedFrames = List.trailing (voiced c) (sinceEnd m.history)
  silenceMs : m.detector.active = true →
    m.detector.silenceMs = frameMilliseconds * List.trailing (fun f => !voiced c f) (m.history.map Prod.fst)
  alternating : Alternating (reports m.history)
  last : (reports m.history).getLast? = some .started ↔ m.detector.active = true

/-- What the detector does with a frame. -/
inductive Processes (d : Detector) (frame : List UInt8) : Detector → VoiceActivity → Prop where
  | waits (hactive : d.active = false)
      (hfew : ¬d.config.startFrames ≤ ((if voiced d.config frame then d.voicedFrames + 1 else 0 : ℕ) : ℤ)) :
      Processes d frame { d with voicedFrames := if voiced d.config frame then d.voicedFrames + 1 else 0 }
        { levelSquared := meanSquare frame }
  | starts (hactive : d.active = false)
      (henough : d.config.startFrames ≤ ((if voiced d.config frame then d.voicedFrames + 1 else 0 : ℕ) : ℤ)) :
      Processes d frame
        { d with
          active := true
          voicedFrames := if voiced d.config frame then d.voicedFrames + 1 else 0
          silenceMs := 0 }
        { started := true, levelSquared := meanSquare frame }
  | hears (hactive : d.active = true) (hvoiced : voiced d.config frame = true) :
      Processes d frame { d with silenceMs := 0 } { levelSquared := meanSquare frame }
  | bears (hactive : d.active = true) (hvoiced : voiced d.config frame = false)
      (hshort : ¬d.config.endpointSilenceMs ≤ ((d.silenceMs + frameMilliseconds : ℕ) : ℤ)) :
      Processes d frame { d with silenceMs := d.silenceMs + frameMilliseconds } { levelSquared := meanSquare frame }
  | ends (hactive : d.active = true) (hvoiced : voiced d.config frame = false)
      (hlong : d.config.endpointSilenceMs ≤ ((d.silenceMs + frameMilliseconds : ℕ) : ℤ)) :
      Processes d frame { d with active := false, voicedFrames := 0, silenceMs := 0 }
        { ended := true, levelSquared := meanSquare frame }

theorem processes (d : Detector) (frame : List UInt8) :
    Processes d frame (d.process frame).1 (d.process frame).2 := by
  unfold Detector.process
  by_cases hactive : d.active = false
  · dsimp only
    rw [if_pos hactive]
    by_cases henough : d.config.startFrames ≤ ((if voiced d.config frame then d.voicedFrames + 1 else 0 : ℕ) : ℤ)
    · rw [if_pos henough]
      exact .starts hactive henough
    · rw [if_neg henough]
      exact .waits hactive henough
  · dsimp only
    rw [if_neg hactive]
    rw [Bool.not_eq_false] at hactive
    by_cases hvoiced : voiced d.config frame = true
    · rw [if_pos hvoiced]
      exact .hears hactive hvoiced
    · rw [if_neg hvoiced]
      rw [Bool.not_eq_true] at hvoiced
      by_cases hlong : d.config.endpointSilenceMs ≤ ((d.silenceMs + frameMilliseconds : ℕ) : ℤ)
      · rw [if_pos hlong]
        exact .ends hactive hvoiced hlong
      · rw [if_neg hlong]
        exact .bears hactive hvoiced hlong

/-- The silence at an unvoiced frame. -/
theorem Counted.silence {c : Config} {m : Monitored} (h : Counted c m) (hactive : m.detector.active = true)
    {frame : List UInt8} (hvoiced : voiced c frame = false) :
    m.detector.silenceMs + frameMilliseconds =
      frameMilliseconds * List.trailing (fun f => !voiced c f) (m.history.map Prod.fst ++ [frame]) := by
  rw [h.silenceMs hactive, List.trailing_concat_of_pos (by rw [hvoiced]; rfl), Nat.mul_succ]

/-- What the detector reports at the next frame. -/
theorem Counted.report {c : Config} {m : Monitored} (h : Counted c m) (frame : List UInt8) :
    ((m.detector.process frame).2.started = true ↔ m.detector.active = false ∧
      c.startFrames ≤ List.trailing (voiced c) (sinceEnd m.history ++ [frame])) ∧
    ((m.detector.process frame).2.ended = true ↔ m.detector.active = true ∧
      c.endpointFrames ≤ List.trailing (fun f => !voiced c f) (m.history.map Prod.fst ++ [frame])) := by
  have hprocesses := processes m.detector frame
  rw [endpointFrames_le]
  generalize m.detector.process frame = r at hprocesses ⊢
  obtain ⟨d', a⟩ := r
  have hactiveNot : m.detector.active = false → m.detector.active ≠ true := fun hoff hon =>
    Bool.false_ne_true (hoff.symm.trans hon)
  cases hprocesses with
  | waits hactive hfew =>
    rw [h.config, h.voicedFrames hactive, ← List.trailing_concat] at hfew
    exact ⟨iff_of_false Bool.false_ne_true fun hstart => hfew hstart.2,
      iff_of_false Bool.false_ne_true fun hend => hactiveNot hactive hend.1⟩
  | starts hactive henough =>
    rw [h.config, h.voicedFrames hactive, ← List.trailing_concat] at henough
    exact ⟨iff_of_true rfl ⟨hactive, henough⟩,
      iff_of_false Bool.false_ne_true fun hend => hactiveNot hactive hend.1⟩
  | hears hactive hvoiced =>
    rw [h.config] at hvoiced
    refine ⟨iff_of_false Bool.false_ne_true fun hstart => hactiveNot hstart.1 hactive,
      iff_of_false Bool.false_ne_true fun hend => ?_⟩
    have hlong := hend.2
    rw [List.trailing_concat_of_neg (p := fun f => !voiced c f) (by rw [hvoiced]; rfl)] at hlong
    have := c.endpointSilenceMs_ge
    simp only [frameMilliseconds] at this hlong
    omega
  | bears hactive hvoiced hshort =>
    rw [h.config] at hvoiced hshort
    rw [h.silence hactive hvoiced] at hshort
    exact ⟨iff_of_false Bool.false_ne_true fun hstart => hactiveNot hstart.1 hactive,
      iff_of_false Bool.false_ne_true fun hend => hshort hend.2⟩
  | ends hactive hvoiced hlong =>
    rw [h.config] at hvoiced hlong
    rw [h.silence hactive hvoiced] at hlong
    exact ⟨iff_of_false Bool.false_ne_true fun hstart => hactiveNot hstart.1 hactive,
      iff_of_true rfl ⟨hactive, hlong⟩⟩

/-! ### The reports -/

theorem reports_concat (history : List (List UInt8 × VoiceActivity)) (frame : List UInt8) (a : VoiceActivity) :
    reports (history ++ [(frame, a)]) = reports history ++ a.reports := by
  unfold reports
  rw [List.flatMap_append, List.flatMap_singleton]

/-- A report that differs from the last one goes on alternating. -/
theorem Alternating.concat {rs : List Report} {r : Report} (h : Alternating rs) (hlast : rs.getLast? ≠ some r)
    (hfirst : rs = [] → r = .started) : Alternating (rs ++ [r]) := by
  obtain ⟨hchain, hhead⟩ := h
  constructor
  · refine List.isChain_append.mpr ⟨hchain, List.isChain_singleton r, ?_⟩
    rintro x hx y hy rfl
    obtain rfl := Option.some.inj hy
    exact hlast hx
  · intro x hx
    cases rs with
    | nil => rw [← Option.some.inj hx, hfirst rfl]
    | cons y rs => exact hhead x hx

/-- **Step lemma**: the counters go on being lengths of trailing runs. -/
theorem Counted.process {c : Config} {m : Monitored} (h : Counted c m) (frame : List UInt8) :
    Counted c (m.process frame) := by
  have hprocesses := processes m.detector frame
  unfold Monitored.process
  generalize m.detector.process frame = r at hprocesses ⊢
  obtain ⟨d', a⟩ := r
  have hnone : a.reports = [] → reports (m.history ++ [(frame, a)]) = reports m.history := by
    intro hreports
    rw [reports_concat, hreports, List.append_nil]
  have hnotStarted : m.detector.active = false → (reports m.history).getLast? ≠ some .started := by
    intro hactive hlast
    rw [h.last.mp hlast] at hactive
    cases hactive
  cases hprocesses with
  | waits hactive hfew =>
    refine ⟨h.config, fun _ => ?_, fun hon => absurd (hactive.symm.trans hon) Bool.false_ne_true, ?_, ?_⟩
    · rw [sinceEnd_concat_of_not_ended rfl, List.trailing_concat, h.config, ← h.voicedFrames hactive]
    · rw [hnone rfl]
      exact h.alternating
    · rw [hnone rfl]
      exact h.last
  | starts hactive henough =>
    refine ⟨h.config, fun hoff => Bool.noConfusion hoff, fun _ => ?_, ?_, ?_⟩
    · have hvoiced : voiced c frame = true := by
        by_contra hnot
        rw [h.config, if_neg hnot] at henough
        have := c.startFrames_pos
        omega
      rw [List.map_append, List.map_singleton, List.trailing_concat_of_neg (by rw [hvoiced]; rfl), Nat.mul_zero]
    · rw [reports_concat]
      exact h.alternating.concat (hnotStarted hactive) fun _ => rfl
    · rw [reports_concat]
      exact iff_of_true List.getLast?_concat rfl
  | hears hactive hvoiced =>
    refine ⟨h.config, fun hoff => absurd (hactive.symm.trans hoff) Bool.false_ne_true.symm, fun _ => ?_, ?_, ?_⟩
    · rw [h.config] at hvoiced
      rw [List.map_append, List.map_singleton, List.trailing_concat_of_neg (by rw [hvoiced]; rfl), Nat.mul_zero]
    · rw [hnone rfl]
      exact h.alternating
    · rw [hnone rfl]
      exact h.last
  | bears hactive hvoiced hshort =>
    refine ⟨h.config, fun hoff => absurd (hactive.symm.trans hoff) Bool.false_ne_true.symm, fun _ => ?_, ?_, ?_⟩
    · rw [h.config] at hvoiced
      rw [List.map_append, List.map_singleton]
      exact h.silence hactive hvoiced
    · rw [hnone rfl]
      exact h.alternating
    · rw [hnone rfl]
      exact h.last
  | ends hactive hvoiced hlong =>
    have hlast := h.last.mpr hactive
    refine ⟨h.config, fun _ => ?_, fun hon => Bool.noConfusion hon, ?_, ?_⟩
    · rw [sinceEnd_concat_of_ended rfl, List.trailing_nil]
    · rw [reports_concat]
      refine h.alternating.concat ?_ ?_
      · rw [hlast]
        exact fun hsame => Report.noConfusion (Option.some.inj hsame)
      · intro hempty
        rw [hempty] at hlast
        cases hlast
    · rw [reports_concat]
      refine iff_of_false ?_ Bool.false_ne_true
      rw [show VoiceActivity.reports { ended := true, levelSquared := meanSquare frame } = [.ended] from rfl,
        List.getLast?_concat]
      exact fun hsame => Report.noConfusion (Option.some.inj hsame)

theorem Counted.monitor (d : Detector) (frames : List (List UInt8)) : Counted d.config (d.monitor frames) := by
  have hstart : Counted d.config { detector := d.reset } := by
    refine ⟨rfl, fun _ => rfl, fun hon => Bool.noConfusion hon, ⟨List.IsChain.nil, ?_⟩, ?_⟩
    · intro r hr
      cases hr
    · exact iff_of_false nofun Bool.false_ne_true
  unfold Detector.monitor
  generalize ({ detector := d.reset } : Monitored) = m at hstart ⊢
  induction frames generalizing m with
  | nil => exact hstart
  | cons frame frames ih => exact ih (m.process frame) (hstart.process frame)

theorem monitor_concat (d : Detector) (frames : List (List UInt8)) (frame : List UInt8) :
    d.monitor (frames ++ [frame]) = (d.monitor frames).process frame := List.foldl_concat ..

theorem history_monitor (d : Detector) (frames : List (List UInt8)) :
    (d.monitor frames).history.map Prod.fst = frames := by
  induction frames using List.reverseRecOn with
  | nil => rfl
  | append_singleton frames frame ih =>
    rw [monitor_concat]
    unfold Monitored.process
    rw [List.map_append, ih, List.map_singleton]

/-- **Voice activity**: after any frames since a reset, the next frame reports a start exactly if the detector is
inactive and the last frames after the last end are voiced, it reports an end exactly if the detector is active and
the frame completes a run of unvoiced frames as long as the endpoint, and the reports alternate. -/
theorem vad_meets_specification (d : Detector) (frames : List (List UInt8)) (frame : List UInt8) :
    let m := d.monitor frames
    let a := (m.detector.process frame).2
    (a.started = true ↔ m.detector.active = false ∧
      List.EndsWith (voiced d.config) d.config.startFrames.toNat (sinceEnd m.history ++ [frame])) ∧
    (a.ended = true ↔ m.detector.active = true ∧
      List.EndsWith (fun f => !voiced d.config f) d.config.endpointFrames (frames ++ [frame])) ∧
    Alternating (reports (d.monitor (frames ++ [frame])).history) := by
  intro m a
  have h : Counted d.config m := Counted.monitor d frames
  have hframes : m.history.map Prod.fst = frames := history_monitor d frames
  obtain ⟨hstarted, hended⟩ := h.report frame
  refine ⟨?_, ?_, (Counted.monitor d (frames ++ [frame])).alternating⟩
  · rw [hstarted, ← List.le_trailing, Int.toNat_le]
  · rw [hended, hframes, List.le_trailing]

end KajovoDagmar.Vad
