import KajovoDagmar.Realtime.CaptureClock

/-! # The audio of a session

Whatever the tasks of a session do, its buffer and every turn that has been made of it hold whole frames, and no more
of them than a turn may have (`audio_whole`). -/

namespace KajovoDagmar.Realtime

open Asyncio Protocol Runs

/-- Whole frames, of at most `MAX_TURN_SECONDS`. -/
structure Whole (audio : List UInt8) : Prop where
  frames : frameBytes ∣ audio.length
  bounded : audio.length ≤ maxTurnBytes

theorem whole_nil : Whole [] where
  frames := ⟨0, rfl⟩
  bounded := Nat.zero_le _

theorem pcm_length {o : Objects} {x : Input} {packet : AudioPacket} (h : nextFrame? o x = some packet) :
    packet.pcm.length = frameBytes := by
  obtain ⟨data, hdecode, -⟩ := exists_data_of_nextFrame h
  obtain ⟨-, -, -, hlength, -⟩ := layout_of_decode hdecode
  exact hlength

theorem Whole.hear {audio pcm : List UInt8} (h : Whole audio) (hpcm : pcm.length = frameBytes)
    (hfits : audio.length + pcm.length ≤ maxTurnBytes) : Whole (audio ++ pcm) where
  frames := by
    rw [List.length_append, hpcm]
    exact Nat.dvd_add h.frames (Nat.dvd_refl _)
  bounded := by
    rw [List.length_append]
    exact hfits

/-! ### Every coroutine keeps the audio whole -/

/-- The buffer, and the turns that have been made of it. -/
structure WholeAudio (m : Memory signature) : Prop where
  buffer : Whole m.objects.state.audio
  turns : ∀ t ∈ m.tasks, ∀ audio, t.job.turn? = some audio → Whole audio

def audioTerms : Terms signature where
  inv := WholeAudio
  keeps _ _ _ := True
  rely _ _ _ := True
  replies _ _ := True

section audio

variable {m m₀ : Memory signature} {b : Bool}

theorem WholeAudio.buffered {o : Objects} (h : WholeAudio m) (ho : Whole o.state.audio) :
    WholeAudio { m with objects := o } :=
  ⟨ho, h.turns⟩

theorem WholeAudio.same {o : Objects} (h : WholeAudio m) (ho : o.state.audio = m.objects.state.audio) :
    WholeAudio { m with objects := o } :=
  h.buffered (ho ▸ h.buffer)

/-- The tasks go on with what they run. -/
theorem WholeAudio.change {n : ℕ} {f : Task signature → Task signature} (h : WholeAudio m)
    (hf : ∀ t, (f t).job = t.job) : WholeAudio (m.change n f) := by
  refine ⟨h.buffer, fun t ht => ?_⟩
  obtain ⟨k, hk⟩ := List.mem_iff_getElem?.mp ht
  by_cases hkn : k = n
  · subst hkn
    cases hold : m.tasks[k]? with
    | none =>
        rw [List.getElem?_eq_none (by rw [Memory.length_change]; exact List.getElem?_eq_none_iff.mp hold)] at hk
        cases hk
    | some u =>
        rw [Memory.getElem?_change_self f hold] at hk
        obtain rfl := Option.some.inj hk
        rw [hf]
        exact h.turns u (List.mem_of_getElem? hold)
  · rw [Memory.getElem?_change_of_ne m f hkn] at hk
    exact h.turns t (List.mem_of_getElem? hk)

theorem WholeAudio.create {job : Job} (h : WholeAudio m) (hjob : ∀ audio, job.turn? = some audio → Whole audio) :
    WholeAudio { m with tasks := m.tasks ++ [{ job := job }] } := by
  refine ⟨h.buffer, fun t ht => ?_⟩
  rcases List.mem_append.mp ht with hold | hnew
  · exact h.turns t hold
  · obtain rfl := List.mem_singleton.mp hnew
    exact hjob

theorem calm_audio (i : Option ℕ) : Calm audioTerms i fun _ m _ => WholeAudio m :=
  Calm.of_quiet
    { handsOver := fun _ _ _ h => ⟨h, trivial⟩
      resumed := fun _ _ _ _ _ _ hi _ => hi
      interrupted := fun _ _ _ _ _ hi _ => hi }
    fun _ _ _ _ h hquiet => h.same (congrArg (fun o : Objects => o.state.audio) hquiet).symm

theorem aloof_audio : Aloof audioTerms fun _ m _ => WholeAudio m where
  toCalm := calm_audio none
  cancels _ _ _ _ h := h.change fun _ => rfl
  creates _ _ _ _ hjob h := h.create fun _ haudio => absurd (hjob.symm.trans haudio) (by simp)
  minor _ _ _ _ h hminor := h.same (congrArg (fun o : Objects => o.state.audio) hminor).symm

/-- A turn is made of the whole buffer. -/
theorem finalizes_audio (websocket : ℕ) (language : String) (ackFor : Uuid) :
    Keeps audioTerms (fun _ m _ => WholeAudio m) (finalizeAudioTurn websocket language ackFor) := by
  have hreplace : ∀ job : Job, (∀ audio, job.turn? = some audio → Whole audio) →
      Keeps audioTerms (fun _ m _ => WholeAudio m) (replaceAssistantTask job) := fun job hjob =>
    aloof_audio.cancelAssistantTask.bind fun _ =>
      Coro.Maintains.bind ⟨fun _ _ _ h => ⟨Coro.ends_ok _, h.create hjob⟩⟩ fun _ => aloof_audio.assign fun _ => rfl
  refine maintains_state.bind fun s => ?_
  split
  · exact Coro.maintains_pure ()
  · refine Coro.Maintains.bind (aloof_audio.assign fun _ => rfl) fun _ => aloof_audio.cancelPartialTask.bind fun _ =>
      ⟨fun m₀ m b h => meets_state ?_⟩
    have hclear : Keeps audioTerms (fun _ m _ => WholeAudio m) (assign fun s =>
        { s with audio := [], vad := s.vad.reset, partialAtBytes := 0 }) :=
      Coro.maintains_modify fun _ _ _ h => h.buffered whole_nil
    have hturn : ∀ audio, Job.turn? (.processAudioTurn websocket m.objects.state.audio language ackFor) = some audio →
        Whole audio := fun audio haudio => Option.some.inj haudio ▸ h.buffer
    exact (Coro.Maintains.bind hclear fun _ => hreplace _ hturn).meets m₀ m b h

end audio

theorem contract_audio (app : App) : Contract (server app) audioTerms (fun _ => True) (fun _ _ => True)
    fun _ _ => True where
  refl _ _ := trivial
  trans _ _ _ _ _ _ := trivial
  others _ _ _ _ _ _ _ _ := trivial
  moves _ _ _ hi _ hmove := ⟨hi.same (congrArg ConnectionState.audio (state_of_move hmove)), fun _ => trivial⟩
  idle_rely _ _ _ _ _ := trivial
  main x m hi _ _ := by
    have hnil : ∀ {m : Memory signature} {f : ConnectionState → ConnectionState}, WholeAudio m →
        (∀ s, (f s).audio = []) → WholeAudio (withState m f) := fun h hf => h.buffered (hf _ ▸ whole_nil)
    exact ((aloof_audio.bustle finalizes_audio).main app x hi (fun _ => hi.same rfl) (fun _ _ _ _ => hi.same rfl)
      (fun packet hx _ hfits => hi.buffered (hi.buffer.hear (pcm_length hx) hfits)) (fun _ _ => hi.same rfl)
      (fun _ _ _ => aloof_audio.silences (hi.same rfl)) (fun _ _ _ => hnil (hi.same rfl) fun _ => rfl)
      (fun _ _ _ => hnil (hi.same rfl) fun _ => rfl) (fun _ _ _ _ _ _ h => hnil h fun _ => rfl)
      fun _ _ _ _ _ _ _ h => h.same rfl).mono fun _ _ _ _ h => ⟨h, trivial, trivial⟩
  body n t m hi _ _ _ _ := by
    have hstart : WholeAudio (m.begin n) := hi.change fun _ => rfl
    exact (calm_audio (some n)).body app t.job hstart (fun _ _ _ _ _ h => ⟨h.change fun _ => rfl, trivial⟩)
      (fun _ _ _ _ _ _ _ m _ _ h => ⟨(h.same (o := finalized m.objects) rfl).change fun _ => rfl, trivial⟩)
      (fun _ _ _ h => h.same rfl) fun _ _ _ h => h.buffered whole_nil
  dropped n _ m hi _ _ _ _ := by
    have hstart : WholeAudio (m.begin n) := hi.change fun _ => rfl
    exact ⟨hstart.change fun _ => rfl, trivial⟩

/-- **The audio stays whole**: in every run, the buffer of the session and the audio of every turn that is run as a
task are whole frames, and no more of them than a turn may have. -/
theorem audio_whole (app : App) (accountId : Uuid) (events : List (Event (server app))) (s : State signature)
    (hrun : run (step (server app)) (fresh accountId) events = some s) :
    Whole (session s).audio ∧ ∀ t ∈ s.memory.tasks, ∀ audio, t.job.turn? = some audio → Whole audio := by
  have hstart : WholeAudio (fresh accountId).memory := ⟨whole_nil, fun _ ht => absurd ht List.not_mem_nil⟩
  have hs := Sound.of_run (contract_audio app) (fun _ _ => trivial) (Sound.quiet hstart trivial rfl fun _ => rfl) hrun
  exact ⟨hs.inv.buffer, hs.inv.turns⟩

/-- Two frames are heard, and the turn is ended. -/
def twoFrameTurn : List (Event (server sampleApp)) :=
  twoFrames ++ [Sample.text .turnAudioEnd 1]

theorem audio_whole_twoFrameTurn : ∃ s, run (step (server sampleApp)) (fresh 1) twoFrameTurn = some s ∧
    ∃ t ∈ s.memory.tasks, ∃ audio, t.job.turn? = some audio ∧ audio.length = 2 * frameBytes ∧ Whole audio := by
  have hrun : ((run (step (server sampleApp)) (fresh 1) twoFrameTurn).any fun s =>
      s.memory.tasks[0]?.any fun t => t.job.turn?.any fun audio =>
        decide (audio.length = 2 * frameBytes)) = true := by
    decide +kernel
  obtain ⟨s, hs, hreached⟩ := Option.any_eq_true _ _ |>.mp hrun
  obtain ⟨t, ht, hturn⟩ := Option.any_eq_true _ _ |>.mp hreached
  obtain ⟨audio, haudio, hlength⟩ := Option.any_eq_true _ _ |>.mp hturn
  have hmem : t ∈ s.memory.tasks := List.mem_of_getElem? ht
  exact ⟨s, hs, t, hmem, audio, haudio, of_decide_eq_true hlength,
    (audio_whole sampleApp 1 twoFrameTurn s hs).2 t hmem audio haudio⟩

end KajovoDagmar.Realtime
