import KajovoDagmar.Library.Journal
import KajovoDagmar.Realtime.Rounds
import KajovoDagmar.Realtime.Sample

/-! # The clock of the frames

A frame is accepted when the time of its capture does not compare below zero and is not less than or
equal to that of the last frame.  For finite times this makes a clock that only runs forward
(`capture_times_increase`).  A NaN compares with nothing, so it passes both tests, and after it every
time does (`nan_accepted`). -/

namespace KajovoDagmar.Realtime

open Asyncio Protocol Runs

/-! ### The frames of a session -/

/-- The times of the frames that the present session has accepted: a frame is accepted when the last
number advances, and the numbers begin anew with a new session. -/
def noteTime (before after : ConnectionState) (times : List Binary64) : List Binary64 :=
  if after.lastAudioSequence = 0 then []
  else if after.lastAudioSequence = before.lastAudioSequence then times
  else times ++ [after.lastAudioCaptureMs]

/-- The session of the event loop. -/
abbrev session (s : State signature) : ConnectionState := Objects.state s.memory.objects

variable (app : App)

/-- The event loop while its frames are watched. -/
def hear : Watched (State signature) (List Binary64) → Event (server app) →
    Option (Watched (State signature) (List Binary64)) :=
  watch (step (server app)) fun s _ s' => noteTime (session s) (session s')

/-- Before the socket of a session is accepted. -/
def fresh (accountId : Uuid) : State signature := { memory := { objects := { state := .new accountId } } }

/-- The times are finite, none is negative, and each is later than those before it. -/
structure Increasing (times : List Binary64) : Prop where
  finite : ∀ t ∈ times, t.isFinite = true
  nonneg : ∀ t ∈ times, Binary64.zero.le t = true
  later : times.Pairwise fun t t' => t.lt t' = true

/-- If the input is the next frame of the session, its time is finite. -/
def FiniteTime (x : Input) (m : Memory signature) : Prop :=
  (nextFrame? m.objects x).all fun packet => packet.capturedMs.isFinite

/-- The event does not bring the next frame with an infinite time or a NaN. -/
def Timely (s : State signature) : Event (server app) → Prop
  | .input x => FiniteTime x s.memory
  | _ => True

variable {app} in
instance (s : State signature) (e : Event (server app)) : Decidable (Timely app s e) :=
  match e with
  | .input _ => inferInstanceAs (Decidable (_ = true))
  | .start _ | .resume .. | .move _ => .isTrue trivial

/-! ### Who moves the clock -/

/-- What a stretch of the coroutine that reads the socket does to the clock of the frames. -/
def Beats (s s' : ConnectionState) : Prop :=
  (s'.lastAudioSequence = s.lastAudioSequence ∧ s'.lastAudioCaptureMs = s.lastAudioCaptureMs) ∨
  (s'.lastAudioSequence = 0 ∧ s'.lastAudioCaptureMs = .minusOne) ∨
  (s'.lastAudioSequence = s.lastAudioSequence + 1 ∧ s'.lastAudioCaptureMs.isFinite = true ∧
    s'.lastAudioCaptureMs.lt .zero = false ∧ s'.lastAudioCaptureMs.le s.lastAudioCaptureMs = false)

/-- The clock stands still. -/
def Still (s s' : ConnectionState) : Prop :=
  s'.lastAudioSequence = s.lastAudioSequence ∧ s'.lastAudioCaptureMs = s.lastAudioCaptureMs

theorem Beats.still {s s' s'' : ConnectionState} (h : Beats s s') (h' : Still s' s'') : Beats s s'' := by
  unfold Beats
  rw [h'.1, h'.2]
  exact h

theorem Still.trans {s s' s'' : ConnectionState} (h : Still s s') (h' : Still s' s'') : Still s s'' :=
  ⟨h'.1.trans h.1, h'.2.trans h.2⟩

/-- The coroutine that reads the socket moves the clock, the tasks do not. -/
def clockTerms : Terms signature where
  inv _ := True
  keeps
    | none, m, m' => Beats m.objects.state m'.objects.state
    | some _, m, m' => Still m.objects.state m'.objects.state
  rely _ _ _ := True
  replies _ _ := True

/-- Quiet changes leave the clock alone. -/
theorem Quiet.still {o o' : Objects} (h : Quiet o o') : Still o.state o'.state :=
  ⟨(congrArg (fun o : Objects => o.state.lastAudioSequence) h).symm,
    (congrArg (fun o : Objects => o.state.lastAudioCaptureMs) h).symm⟩

theorem deaf_clock : Deaf clockTerms fun m₀ m _ => Beats m₀.objects.state m.objects.state where
  toCalm := Calm.of_quiet
    { handsOver := fun _ _ _ h => ⟨trivial, h⟩
      resumed := fun _ _ _ _ _ _ _ _ => .inl ⟨rfl, rfl⟩
      interrupted := fun _ _ _ _ _ _ _ => .inl ⟨rfl, rfl⟩ }
    fun _ _ _ _ h hquiet => h.still hquiet.still
  cancels _ _ _ _ h := h
  creates _ _ _ _ _ h := h
  minor _ _ _ _ h hminor := h.still
    ⟨(congrArg (fun o : Objects => o.state.lastAudioSequence) hminor).symm,
      (congrArg (fun o : Objects => o.state.lastAudioCaptureMs) hminor).symm⟩
  turns _ _ _ _ h := h
  mutes _ _ _ _ h hminor := h.still
    ⟨(congrArg (fun o : Objects => o.state.lastAudioSequence) hminor).symm,
      (congrArg (fun o : Objects => o.state.lastAudioCaptureMs) hminor).symm⟩

theorem calm_clock (n : ℕ) : Calm clockTerms (some n) fun m₀ m _ => Still m₀.objects.state m.objects.state :=
  Calm.of_quiet
    { handsOver := fun _ _ _ h => ⟨trivial, h⟩
      resumed := fun _ _ _ _ _ _ _ _ => ⟨rfl, rfl⟩
      interrupted := fun _ _ _ _ _ _ _ => ⟨rfl, rfl⟩ }
    fun _ _ _ _ h hquiet => h.trans hquiet.still

/-- A message in flight does not touch the session. -/
theorem state_of_move {x : Move} {o o' : Objects} (h : move x o = some o') : o'.state = o.state := by
  cases x <;> obtain ⟨f, -, rfl⟩ := Option.map_eq_some_iff.mp h <;> rfl

theorem contract_clock : Contract (server app) clockTerms (fun _ => True) FiniteTime fun _ _ => True where
  refl _ _ := trivial
  trans _ _ _ _ _ _ := trivial
  others _ _ _ _ _ _ _ _ := trivial
  moves _ _ _ _ _ _ := ⟨trivial, fun _ => trivial⟩
  idle_rely _ _ _ _ _ := trivial
  main x m _ _ hx := by
    have hstart : Beats m.objects.state m.objects.state := .inl ⟨rfl, rfl⟩
    refine (deaf_clock.main app x hstart (fun _ => .inl ⟨rfl, rfl⟩) ?_
      (fun _ _ => .inl ⟨rfl, rfl⟩) (fun _ _ _ _ _ _ _ => .inr (.inl ⟨rfl, rfl⟩))
      fun _ _ _ _ _ _ _ h => h.still ⟨rfl, rfl⟩).mono fun _ _ _ _ h => ⟨trivial, h, trivial⟩
    rintro packet hframe hlater
    obtain ⟨data, hdecode, hnext⟩ := exists_data_of_nextFrame hframe
    have hfinite : packet.capturedMs.isFinite = true := by
      unfold FiniteTime at hx
      rwa [hframe, Option.all_some] at hx
    exact .inr (.inr ⟨hnext, hfinite, (layout_of_decode hdecode).2.2.1, hlater⟩)
  body n t m _ _ _ _ _ := (calm_clock n).body app t.job ⟨rfl, rfl⟩ (fun _ _ _ _ _ h => ⟨trivial, h⟩)
    (fun _ _ _ _ _ _ _ _ _ _ h => ⟨trivial, h⟩) (fun _ _ _ h => h) fun _ _ _ h => h
  dropped _ _ _ _ _ _ _ _ := ⟨trivial, rfl, rfl⟩

/-! ### Whole runs -/

/-- The notes are those of a clock that only runs forward, and the session keeps the last of them. -/
structure Clocked (s : ConnectionState) (times : List Binary64) : Prop where
  increasing : Increasing times
  last : s.lastAudioCaptureMs = times.getLast?.getD .minusOne
  unheard : s.lastAudioSequence = 0 → times = []

theorem Increasing.append {times : List Binary64} {t : Binary64} (h : Increasing times) (hfinite : t.isFinite = true)
    (hnonneg : t.lt .zero = false) (hlater : t.le (times.getLast?.getD .minusOne) = false) :
    Increasing (times ++ [t]) where
  finite := by
    intro u hu
    rcases List.mem_append.mp hu with hu | hu
    · exact h.finite u hu
    · exact List.mem_singleton.mp hu ▸ hfinite
  nonneg := by
    intro u hu
    rcases List.mem_append.mp hu with hu | hu
    · exact h.nonneg u hu
    · obtain rfl := List.mem_singleton.mp hu
      by_contra hneg
      have hlt := Binary64.lt_of_not_le (by decide) (Binary64.isNaN_of_isFinite hfinite) (Bool.eq_false_iff.mpr hneg)
      exact absurd hlt (by simp [hnonneg])
  later := by
    refine List.pairwise_append.mpr ⟨h.later, List.pairwise_singleton _ _, fun u hu v hv => ?_⟩
    obtain rfl := List.mem_singleton.mp hv
    rcases List.eq_nil_or_concat times with rfl | ⟨init, last, rfl⟩
    · exact absurd hu (by simp)
    rw [List.concat_eq_append] at hu hlater h
    rw [List.getLast?_concat, Option.getD_some] at hlater
    have hlast : last.isFinite = true := h.finite last (by simp)
    have hlt := Binary64.lt_of_not_le (Binary64.isNaN_of_isFinite hfinite) (Binary64.isNaN_of_isFinite hlast) hlater
    rcases List.mem_append.mp hu with hu | hu
    · exact Binary64.lt_trans ((List.pairwise_append.mp h.later).2.2 u hu last (by simp)) hlt
    · exact List.mem_singleton.mp hu ▸ hlt

theorem Clocked.beats {s s' : ConnectionState} {times : List Binary64} (h : Clocked s times) (hbeats : Beats s s') :
    Clocked s' (noteTime s s' times) := by
  unfold noteTime
  rcases hbeats with ⟨hseq, hcap⟩ | ⟨hseq, hcap⟩ | ⟨hseq, hfinite, hnonneg, hlater⟩
  · by_cases hzero : s.lastAudioSequence = 0
    · rw [hseq, if_pos hzero]
      exact ⟨⟨by simp, by simp, .nil⟩, by rw [hcap, h.last, h.unheard hzero], fun _ => rfl⟩
    · rw [hseq, if_neg hzero, if_pos rfl]
      exact ⟨h.increasing, hcap.trans h.last, fun hs => absurd (hseq ▸ hs) hzero⟩
  · rw [if_pos hseq]
    exact ⟨⟨by simp, by simp, .nil⟩, hcap, fun _ => rfl⟩
  · rw [if_neg (by omega), if_neg (by omega)]
    refine ⟨h.increasing.append hfinite hnonneg ?_, by simp, fun hs => absurd hs (by omega)⟩
    rw [← h.last]
    exact hlater

/-- **The clock of the frames**: as long as the next frame of a session always has a finite time, the
times of the accepted frames are finite, non-negative and strictly increasing. -/
theorem capture_times_increase (accountId : Uuid) (events : List (Event (server app)))
    (w : Watched (State signature) (List Binary64))
    (htimely : Along (hear app) (fun w e => Timely app w.state e) ⟨fresh accountId, []⟩ events)
    (hrun : run (hear app) ⟨fresh accountId, []⟩ events = some w) : Increasing w.notes := by
  have hadmits : ∀ s e, Timely app s e → Admits (server app) clockTerms FiniteTime (fun _ _ => True) s e := by
    intro s e he
    cases e with
    | input x => exact he
    | resume who reply => exact fun _ => trivial
    | _ => trivial
  refine (watch_inv (I := Sound clockTerms fun _ => True) (J := fun s times => Clocked (session s) times)
    (fun s e s' hs he hstep => (hs.of_step (contract_clock app) (hadmits s e he) hstep).1)
    (fun s e s' times hs hclocked he hstep => hclocked.beats ?_) ?_ ?_ htimely hrun).2.increasing
  · rcases (hs.of_step (contract_clock app) (hadmits s e he) hstep).2 with ⟨who, hkeeps⟩ | ⟨x, rfl⟩
    · cases who with
      | none => exact hkeeps
      | some n => exact .inl hkeeps
    · obtain ⟨o, ho, rfl⟩ := Option.map_eq_some_iff.mp hstep
      have hstate : o.state = s.memory.objects.state := state_of_move ho
      exact .inl ⟨congrArg ConnectionState.lastAudioSequence hstate,
        congrArg ConnectionState.lastAudioCaptureMs hstate⟩
  · exact Sound.quiet trivial trivial rfl fun _ => rfl
  · exact ⟨⟨by simp, by simp, .nil⟩, rfl, fun _ => rfl⟩

/-- `20.0`. -/
def twenty : Binary64 := ⟨0x4034000000000000⟩

/-- A session with two frames of 20 ms. -/
def twoFrames : List (Event (server sampleApp)) := Sample.opening ++ [Sample.frame 1 .zero, Sample.frame 2 twenty]

theorem capture_times_increase_twoFrames : ∃ w, run (hear sampleApp) ⟨fresh 1, []⟩ twoFrames = some w ∧
    w.notes = [.zero, twenty] ∧ Increasing w.notes := by
  have hrun : ((run (hear sampleApp) ⟨fresh 1, []⟩ twoFrames).any fun w => decide (w.notes = [.zero, twenty])) =
      true := by decide +kernel
  obtain ⟨w, hw, hnotes⟩ := Option.any_eq_true _ _ |>.mp hrun
  have htimely : Along (hear sampleApp) (fun w e => Timely sampleApp w.state e) ⟨fresh 1, []⟩ twoFrames :=
    Along.of_alongB (c := fun (w : Watched (State signature) (List Binary64)) e => decide (Timely sampleApp w.state e))
      (fun _ _ => of_decide_eq_true)
      (by decide +kernel)
  exact ⟨w, hw, of_decide_eq_true hnotes, capture_times_increase sampleApp 1 twoFrames w htimely hw⟩

/-- A frame whose time is a NaN is accepted, and so is every frame after it. -/
theorem nan_accepted : ¬∀ (app : App) (accountId : Uuid) (events : List (Event (server app)))
    (w : Watched (State signature) (List Binary64)),
    run (hear app) ⟨fresh accountId, []⟩ events = some w → Increasing w.notes := by
  intro h
  have hrun : ((run (hear sampleApp) ⟨fresh 1, []⟩
      (Sample.opening ++ [Sample.frame 1 twenty, Sample.frame 2 .nan, Sample.frame 3 .zero])).any
      fun w => decide (w.notes = [twenty, .nan, .zero])) = true := by decide +kernel
  obtain ⟨w, hw, hnotes⟩ := Option.any_eq_true _ _ |>.mp hrun
  have hincreasing := h sampleApp 1 _ w hw
  rw [of_decide_eq_true hnotes] at hincreasing
  exact absurd (hincreasing.finite .nan (by simp)) (by decide)

end KajovoDagmar.Realtime
