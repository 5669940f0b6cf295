import KajovoDagmar.Realtime.Turns

/-! # What a round of the loop leaves alone

The coroutine that reads the socket changes the bookkeeping of a session in many places: its tasks,
its flags, its voice.  What these places maintain (`Bustle`) is maintained by every input, once it is
known where an input touches the numbers of a session, its audio or its assistant (`Bustle.main`). -/

namespace KajovoDagmar.Realtime

open Asyncio Protocol

/-- The audio of a turn that is run as a task. -/
def Job.turn? : Job → Option (List UInt8)
  | processAudioTurn _ audio _ _ => some audio
  | _ => none

/-- The memory with another state of the session. -/
def withState (m : Memory signature) (f : ConnectionState → ConnectionState) : Memory signature :=
  { m with objects := { m.objects with state := f m.objects.state } }

/-- The coroutine maintains `R`, whatever it raises. -/
abbrev Keeps (T : Terms signature) (R : Memory signature → Memory signature → Bool → Prop) {α : Type}
    (c : Co α) : Prop :=
  c.Maintains T none R fun _ => True

section

variable {T : Terms signature} {R : Memory signature → Memory signature → Bool → Prop} {i : Option ℕ}
  {α : Type} {Q : Post signature α} {m₀ m : Memory signature} {b : Bool}

theorem meets_state {f : ConnectionState → Co α} (h : (f m.objects.state).Meets T i Q m₀ m b) :
    (state >>= f).Meets T i Q m₀ m b := h

theorem meets_objects {f : Objects → Co α} (h : (f m.objects).Meets T i Q m₀ m b) :
    (Coro.objects >>= f).Meets T i Q m₀ m b := h

theorem meets_assign {g : ConnectionState → ConnectionState} {f : Unit → Co α}
    (h : (f ()).Meets T i Q m₀ (withState m g) b) : (assign g >>= f).Meets T i Q m₀ m b := h

theorem meets_modify {g : Objects → Objects} {f : Unit → Co α}
    (h : (f ()).Meets T i Q m₀ { m with objects := g m.objects } b) :
    (Coro.modify (S := signature) g >>= f).Meets T i Q m₀ m b := h

theorem Keeps.upholds {c : Co α} (h : Keeps T R c) (hR : R m₀ m b) :
    c.Meets T none (fun _ m₀ m b => R m₀ m b) m₀ m b :=
  (h.meets m₀ m b hR).mono fun _ _ _ _ hr => hr.2

end

/-! ### Inputs -/

/-- The packet is the next frame of the session and captured later than the last one. -/
structure Accepts (s : ConnectionState) (data : List UInt8) (packet : AudioPacket) : Prop where
  listening : s.paused = false
  started : s.conversationId ≠ none
  decoded : decodeAudioPacket data = .ok packet
  next : packet.sequence = s.lastAudioSequence + 1
  later : packet.capturedMs.le s.lastAudioCaptureMs = false

/-- The next frame in sequence, if the input brings it to a session that is listening. -/
def nextFrame? (o : Objects) : Input → Option AudioPacket
  | .message (.bytes data) =>
    if o.opened = true ∧ o.state.paused = false ∧ o.state.conversationId.isSome = true then
      (decodeAudioPacket data).toOption.filter fun packet => packet.sequence = o.state.lastAudioSequence + 1
    else none
  | _ => none

theorem Accepts.nextFrame {o : Objects} {data : List UInt8} {packet : AudioPacket} (h : Accepts o.state data packet)
    (hopened : o.opened = true) : nextFrame? o (.message (.bytes data)) = some packet := by
  rw [nextFrame?, if_pos ⟨hopened, h.listening, Option.isSome_iff_ne_none.mpr h.started⟩, h.decoded]
  exact Option.filter_eq_some_iff.mpr ⟨rfl, decide_eq_true h.next⟩

theorem exists_data_of_nextFrame {o : Objects} {x : Input} {packet : AudioPacket} (h : nextFrame? o x = some packet) :
    ∃ data, decodeAudioPacket data = .ok packet ∧ packet.sequence = o.state.lastAudioSequence + 1 := by
  unfold nextFrame? at h
  split at h
  next data =>
    split at h
    · obtain ⟨hdecode, hnext⟩ := Option.filter_eq_some_iff.mp h
      cases hpacket : decodeAudioPacket data with
      | error message => simp [hpacket, Except.toOption] at hdecode
      | ok p =>
        rw [hpacket] at hdecode
        exact ⟨data, Option.some.inj hdecode ▸ hpacket, of_decide_eq_true hnext⟩
    · cases h
  · cases h

/-- The frame in the buffer, and what the detector makes of it. -/
def hearFrame (packet : AudioPacket) (s : ConnectionState) : ConnectionState :=
  { acceptFrame packet s with audio := s.audio ++ packet.pcm, vad := (s.vad.process packet.pcm).1 }

/-- The envelope that the input brings, if it is the next one. -/
def nextEnvelope? (o : Objects) : Input → Option ClientEnvelope
  | .message (.text (some envelope)) =>
    if o.opened = true ∧ envelope.sequence = o.state.lastClientSequence + 1 then some envelope else none
  | _ => none

def countEnvelope (envelope : ClientEnvelope) (s : ConnectionState) : ConnectionState :=
  { s with lastClientSequence := envelope.sequence }

def pauseMicrophone (s : ConnectionState) : ConnectionState :=
  { s with paused := true, audio := [], vad := s.vad.reset }

/-- The assistant is interrupted: its task is cancelled if there is one. -/
def Interrupts (s : ConnectionState) : ClientType → Bool
  | .turnText => s.conversationId.isSome
  | .assistantInterrupt => true
  | .assistantAudioRetry => (s.lastAssistantText.filter fun text => text ≠ "").isSome
  | .sessionEnd => true
  | _ => false

/-- The suspended session is resumed. -/
def Resumes (o : Objects) (envelope : ClientEnvelope) : Bool :=
  envelope.type = .sessionResume ∧ o.resumeAvailable = true ∧ o.state.conversationId.isSome = true ∧
    validCursor envelope.resumeCursor o.state = true

/-! ### Bookkeeping -/

/-- The objects without what is written down in passing. -/
def unwritten (o : Objects) : Objects :=
  { o with
    state := { o.state with
      conversationId := none, paused := false, partialAtBytes := 0, vad := defaultDetector, connected := true
      language := "" }
    resumeAvailable := false, opened := false, registered := none, tick := 0 }

/-- What the coroutine that reads the socket maintains with all its bookkeeping. -/
structure Bustle (T : Terms signature) (R : Memory signature → Memory signature → Bool → Prop) : Prop
    extends Calm T none R where
  writes : ∀ m₀ m b o, R m₀ m b → unwritten m.objects = unwritten o → R m₀ { m with objects := o } b
  cancelPartialTask : Keeps T R cancelPartialTask
  transcribes : ∀ websocket audio language, Keeps T R (do
    let task ← Coro.createTask (S := signature) (.emitPartialTranscript websocket audio language)
    assign fun s => { s with partialTask := some task })
  expires : Keeps T R (do
    let task ← Coro.createTask (S := signature) .expireSuspendedSession
    assign fun s => { s with expirationTask := some task })
  unexpires : ∀ m₀ m b task, R m₀ m b → m.objects.state.expirationTask = some task →
    (do Coro.cancel (S := signature) task; joinSuppressed task : Co Unit).Meets T none
      (fun _ m₀ m b => R m₀ m b) m₀ m b
  finalizeAudioTurn : ∀ websocket language ackFor, Keeps T R (finalizeAudioTurn websocket language ackFor)

/-- What is maintained when the assistant is interrupted here, too. -/
structure Silences (T : Terms signature) (R : Memory signature → Memory signature → Bool → Prop)
    (m₀ m : Memory signature) (b : Bool) : Prop where
  cancelAssistantTask : cancelAssistantTask.Meets T none (fun _ m₀ m b => R m₀ m b) m₀ m b
  replaceAssistantTask : ∀ job : Job, job.turn? = none →
    (replaceAssistantTask job).Meets T none (fun _ m₀ m b => R m₀ m b) m₀ m b

variable {T : Terms signature} {R : Memory signature → Memory signature → Bool → Prop}

namespace Bustle

variable (h : Bustle T R) (app : App)
include h

theorem change {f : Objects → Objects} (hf : ∀ o, unwritten o = unwritten (f o)) :
    Keeps T R (Coro.modify (S := signature) f) :=
  Coro.maintains_modify fun m₀ m b hR => h.writes m₀ m b _ hR (hf m.objects)

theorem assign {f : ConnectionState → ConnectionState}
    (hf : ∀ o : Objects, unwritten o = unwritten { o with state := f o.state }) : Keeps T R (Realtime.assign f) :=
  h.change hf

theorem performs (o : Op) : Keeps T R (Coro.perform (S := signature) o) :=
  (h.perform o).mono fun _ _ => trivial

theorem session {α : Type} {c : Co α} (hc : Keeps T R c) : Keeps T R (Realtime.inSession c) := by
  refine Coro.Maintains.handle (X := fun _ => True) ?_ fun e _ => ?_
  · exact hc.bind fun a => (h.performs .commit).bind fun _ => Coro.maintains_pure a
  · have hthrow : Keeps T R (throw e : Co α) := Coro.maintains_throw trivial
    cases e with
    | cancelled => exact hthrow
    | exc exc =>
      by_cases hdurable : exc.Durable
      · simp only [if_pos hdurable]
        exact (h.performs .commit).bind fun _ => hthrow
      · simp only [if_neg hdurable]
        exact (h.performs .rollback).bind fun _ => hthrow

theorem uuid4 : Keeps T R (Realtime.uuid4 app) :=
  Coro.maintains_objects.bind fun _ =>
    (h.change (f := fun o => { o with tick := o.tick + 1 }) fun _ => rfl).bind fun _ => Coro.maintains_pure _

theorem startPartialTranscript (websocket : ℕ) : Keeps T R (Realtime.startPartialTranscript websocket) := by
  have hstart : ∀ (s : ConnectionState) (idle : Bool), Keeps T R (if idle then do
      Realtime.assign fun s => { s with partialAtBytes := s.audio.length }
      let task ← Coro.createTask (S := signature) (.emitPartialTranscript websocket s.audio "cs")
      Realtime.assign fun s => { s with partialTask := some task } else pure ()) := by
    intro s idle
    split
    · exact Coro.Maintains.bind (h.assign fun _ => rfl) fun _ => h.transcribes ..
    · exact Coro.maintains_pure ()
  refine maintains_state.bind fun s => ?_
  split
  · split
    · exact (Coro.maintains_pure true).bind (hstart s)
    · exact (Coro.maintains_isDone _).bind (hstart s)
  · exact Coro.maintains_pure ()

omit h in
theorem ofExcept {α : Type} (x : Except String α) : Keeps T R (Realtime.ofExcept x) := by
  cases x with
  | ok a => exact Coro.maintains_pure a
  | error cls => exact Coro.maintains_throw trivial

theorem startSession (websocket : ℕ) (envelope : ClientEnvelope) :
    Keeps T R (Realtime.startSession app websocket envelope) := by
  refine Coro.Maintains.bind (h.assign fun _ => rfl) fun _ => Coro.Maintains.bind (h.session ?_) fun _ => h.emit ..
  refine Coro.Maintains.bind (h.performs _) fun setting => Coro.Maintains.bind (ofExcept _) fun silence => ?_
  have hstart : Keeps T R (do
      let s ← state
      let continuationOfId ← Realtime.ofExcept
        (continuationOf app (envelope.payload.getD "continuation_of_id" .null))
      let request ← Realtime.ofExcept (conversationStart s.language continuationOfId)
      let id ← Coro.perform (S := signature) (.startConversation s.accountId request envelope.eventId)
      Realtime.assign fun s => { s with conversationId := some id }) :=
    maintains_state.bind fun s => Coro.Maintains.bind (ofExcept _) fun continuationOfId =>
      Coro.Maintains.bind (ofExcept _) fun request => Coro.Maintains.bind (h.performs _) fun id =>
        h.assign fun _ => rfl
  split
  · exact Coro.Maintains.bind (Coro.maintains_throw trivial) fun _ => hstart
  · exact Coro.Maintains.bind (h.assign fun _ => rfl) fun _ => hstart

theorem endTurn (websocket : ℕ) (payload : List (String × Json)) :
    Keeps T R (Realtime.endTurn app websocket payload) :=
  Coro.Maintains.bind (h.emit ..) fun _ => (h.uuid4 app).bind fun _ => h.finalizeAudioTurn ..

theorem endAudioTurn (websocket : ℕ) (envelope : ClientEnvelope) :
    Keeps T R (Realtime.endAudioTurn websocket envelope) := by
  refine maintains_state.bind fun s => ?_
  split
  · exact h.emit ..
  · split
    · exact h.emit ..
    · exact h.finalizeAudioTurn ..

theorem endSession {m₀ m : Memory signature} {b : Bool} (hsilences : Silences T R m₀ m b) (websocket : ℕ)
    (envelope : ClientEnvelope) (hreset : ∀ m₀ m b, R m₀ m b → R m₀ (withState m resetSession) b) :
    (Realtime.endSession websocket envelope).Meets T none (fun _ m₀ m b => R m₀ m b) m₀ m b := by
  have hend : Keeps T R (do
      Realtime.emit none websocket "session.ended" [("state", .str "ended")] (some envelope.eventId)
      Realtime.assign resetSession
      let s ← state
      Realtime.emit none websocket "connection.ready"
        [("resume_supported", .bool true), ("resume_available", .bool false),
         ("generation", .int s.generation), ("last_client_sequence", .int s.lastClientSequence)]) :=
    Coro.Maintains.bind (h.emit ..) fun _ => Coro.Maintains.bind (Coro.maintains_modify hreset) fun _ =>
      maintains_state.bind fun s => h.emit ..
  refine hsilences.cancelAssistantTask.bind (fun _ m₀ m b hR => Keeps.upholds ?_ hR) fun _ _ _ _ hR => hR
  refine maintains_state.bind fun s => ?_
  split
  · exact hend
  · exact (h.session (h.performs _)).bind fun _ => hend

theorem suspend : Keeps T R Realtime.suspend := by
  refine Coro.Maintains.bind (h.change fun _ => rfl) fun _ => Coro.Maintains.bind (h.assign fun _ => rfl) fun _ =>
    h.cancelPartialTask.bind fun _ => maintains_state.bind fun s => ?_
  split
  · exact Coro.maintains_pure ()
  · exact Coro.Maintains.bind (h.assign fun _ => rfl) fun _ => Coro.Maintains.bind (h.change fun _ => rfl) fun _ =>
      h.expires

theorem ready (websocket : ℕ) : Keeps T R (Realtime.ready websocket) :=
  Coro.maintains_objects.bind fun _ => h.emit ..

/-! ### Rounds -/

variable {m₀ m : Memory signature} {b : Bool}

theorem receiveAudio {websocket : ℕ} {data : List UInt8} (hR : R m₀ m b)
    (hfull : ∀ packet, Accepts m.objects.state data packet →
      maxTurnBytes < m.objects.state.audio.length + packet.pcm.length →
      R m₀ (withState m (acceptFrame packet)) b)
    (hhear : ∀ packet, Accepts m.objects.state data packet →
      m.objects.state.audio.length + packet.pcm.length ≤ maxTurnBytes →
      R m₀ (withState m (hearFrame packet)) b) :
    (Realtime.receiveAudio app websocket data).Meets T none (fun _ m₀ m b => R m₀ m b) m₀ m b := by
  refine meets_state ?_
  split
  · exact hR
  next hlistening =>
  simp only [not_or, Bool.not_eq_true] at hlistening
  split
  · exact Keeps.upholds (h.emit ..) hR
  next packet hdecode =>
  dsimp only
  split
  · exact Keeps.upholds (h.emit ..) hR
  next hnew =>
  split
  · exact Keeps.upholds (Coro.Maintains.bind (h.assign fun _ => rfl) fun _ => h.emit ..) hR
  next hnext =>
  simp only [not_or, not_not, Bool.not_eq_true] at hnext
  have haccepts : Accepts m.objects.state data packet :=
    ⟨hlistening.1, hlistening.2, hdecode, hnext.1, hnext.2⟩
  split
  next hlimit => exact meets_assign (Keeps.upholds (h.endTurn app ..) (hfull packet haccepts hlimit))
  next hlimit =>
    refine meets_assign (meets_assign (Keeps.upholds ?_ (hhear packet haccepts (Nat.le_of_not_lt hlimit))))
    refine Coro.Maintains.when (h.emit ..) ((h.startPartialTranscript websocket).bind fun _ => ?_)
    refine Coro.Maintains.when (h.emit ..) ?_
    split
    · exact h.endTurn ..
    · exact Coro.maintains_pure ()

theorem resumeSession (websocket : ℕ) (envelope : ClientEnvelope) (htype : envelope.type = .sessionResume)
    (hR : R m₀ m b) (hresume : Resumes m.objects envelope = true → R m₀ (withState m resumeTurn) b) :
    (Realtime.resumeSession websocket envelope).Meets T none (fun _ m₀ m b => R m₀ m b) m₀ m b := by
  refine meets_objects ?_
  dsimp only
  split
  · exact Keeps.upholds (h.emit ..) hR
  next havailable =>
  split
  · exact Keeps.upholds (h.emit ..) hR
  next hcursor =>
  have hresumes : Resumes m.objects envelope = true := by
    rw [not_or, Bool.not_eq_false, ← ne_eq, ← Option.isSome_iff_ne_none] at havailable
    exact decide_eq_true ⟨htype, havailable.1, havailable.2, Bool.not_eq_false _ ▸ hcursor⟩
  refine meets_assign (Keeps.upholds ?_ (hresume hresumes))
  exact Coro.Maintains.bind (h.emit ..) fun _ => Coro.Maintains.when (h.emit ..) (h.change fun _ => rfl)

theorem handleEnvelope (websocket : ℕ) (envelope : ClientEnvelope) (hR : R m₀ m b)
    (hsilences : Interrupts m.objects.state envelope.type = true → Silences T R m₀ m b)
    (hpause : envelope.type = .microphonePause → R m₀ (withState m pauseMicrophone) b)
    (hresume : Resumes m.objects envelope = true → R m₀ (withState m resumeTurn) b)
    (hreset : envelope.type = .sessionEnd → ∀ m₀ m b, R m₀ m b → R m₀ (withState m resetSession) b) :
    (Realtime.handleEnvelope app websocket envelope).Meets T none (fun _ m₀ m b => R m₀ m b) m₀ m b := by
  unfold Realtime.handleEnvelope
  split
  next => exact Keeps.upholds (h.emit ..) hR
  next =>
    refine meets_objects ?_
    split
    · exact Keeps.upholds (h.emit ..) hR
    · exact Keeps.upholds (h.startSession app ..) hR
  next htype => exact h.resumeSession websocket envelope htype hR hresume
  next htype => exact meets_assign (Keeps.upholds (h.emit ..) (hpause htype))
  next => exact Keeps.upholds (Coro.Maintains.bind (h.assign fun _ => rfl) fun _ => h.emit ..) hR
  next htype =>
    refine meets_state ?_
    split
    · exact Keeps.upholds (h.emit ..) hR
    next hconversation =>
      have hinterrupts : Interrupts m.objects.state envelope.type = true := by
        rw [htype]
        exact Option.isSome_iff_ne_none.mpr hconversation
      exact (hsilences hinterrupts).replaceAssistantTask _ rfl
  next => exact Keeps.upholds (h.endAudioTurn ..) hR
  next htype =>
    exact (hsilences (by rw [htype]; rfl)).cancelAssistantTask.bind
      (fun _ _ _ _ hR => Keeps.upholds (h.emit ..) hR) fun _ _ _ _ hR => hR
  next htype =>
    refine meets_state ?_
    split
    next text hlast =>
      have hinterrupts : Interrupts m.objects.state envelope.type = true := by
        rw [htype, Interrupts, hlast]
        rfl
      exact (hsilences hinterrupts).replaceAssistantTask _ rfl
    · exact Keeps.upholds (h.emit ..) hR
  next htype =>
    exact h.endSession (hsilences (by rw [htype]; rfl)) _ _ (hreset htype)
  next => exact Keeps.upholds (h.emit ..) hR

theorem reconnect (accountId : Uuid) (generation : Option ℤ) (hR : R m₀ m b)
    (htakeOver : ∀ m₀ m b requested, R m₀ m b → R m₀ { m with objects := takeOver requested m.objects } b) :
    (Realtime.reconnect accountId generation).Meets T none (fun _ m₀ m b => R m₀ m b) m₀ m b := by
  have htake : ∀ requested, Keeps T R (do
      Coro.modify (S := signature) (takeOver requested)
      let o ← Coro.objects
      Realtime.ready (Objects.websocket o)) := fun requested =>
    Coro.Maintains.bind (Coro.maintains_modify fun m₀ m b hR => htakeOver m₀ m b requested hR) fun _ =>
      Coro.maintains_objects.bind fun o => h.ready _
  have hpopped : R m₀ { m with objects := { m.objects with registered := none } } b :=
    h.writes m₀ m b _ hR rfl
  refine meets_objects ?_
  split
  · exact hR
  · exact hpopped
  · refine meets_modify (meets_state ?_)
    split
    · split
      · exact Keeps.upholds (htake _) hpopped
      next task htask =>
        have hjoined : (joinSuppressed task).Meets T none (fun _ m₀ m b => R m₀ m b) _ _ _ :=
          h.unexpires m₀ _ b task hpopped htask
        exact hjoined.bind (fun _ _ _ _ hR => Keeps.upholds (htake _) hR) fun _ _ _ _ hR => hR
    · exact h.writes m₀ m b _ hR rfl

/-- **An input** maintains what the bookkeeping maintains, if it is maintained where a socket is accepted
or taken over, where a frame is accepted, where an envelope is counted, and where an envelope pauses,
resumes, silences or resets the session. -/
theorem main (x : Input) (hR : R m₀ m b)
    (hopen : x = .accept → R m₀ { m with objects := { m.objects with websocket := 1, opened := true } } b)
    (hfull : ∀ packet, nextFrame? m.objects x = some packet →
      packet.capturedMs.le m.objects.state.lastAudioCaptureMs = false →
      maxTurnBytes < m.objects.state.audio.length + packet.pcm.length →
      R m₀ (withState m (acceptFrame packet)) b)
    (hhear : ∀ packet, nextFrame? m.objects x = some packet →
      packet.capturedMs.le m.objects.state.lastAudioCaptureMs = false →
      m.objects.state.audio.length + packet.pcm.length ≤ maxTurnBytes →
      R m₀ (withState m (hearFrame packet)) b)
    (hcount : ∀ envelope, nextEnvelope? m.objects x = some envelope → R m₀ (withState m (countEnvelope envelope)) b)
    (hsilences : ∀ envelope, nextEnvelope? m.objects x = some envelope →
      Interrupts m.objects.state envelope.type = true → Silences T R m₀ (withState m (countEnvelope envelope)) b)
    (hpause : ∀ envelope, nextEnvelope? m.objects x = some envelope → envelope.type = .microphonePause →
      R m₀ (withState (withState m (countEnvelope envelope)) pauseMicrophone) b)
    (hresume : ∀ envelope, nextEnvelope? m.objects x = some envelope → Resumes m.objects envelope = true →
      R m₀ (withState (withState m (countEnvelope envelope)) resumeTurn) b)
    (hreset : ∀ envelope, nextEnvelope? m.objects x = some envelope → envelope.type = .sessionEnd →
      ∀ m₀ m b, R m₀ m b → R m₀ (withState m resetSession) b)
    (htakeOver : ∀ accountId generation, x = .reconnect accountId generation →
      ∀ m₀ m b requested, R m₀ m b → R m₀ { m with objects := takeOver requested m.objects } b) :
    (Realtime.main app x).Meets T none (fun _ m₀ m b => R m₀ m b) m₀ m b := by
  cases x with
  | accept =>
    refine meets_objects ?_
    split
    · exact meets_modify (Keeps.upholds (h.ready 1) (hopen rfl))
    · exact hR
  | message x =>
    refine meets_objects ?_
    split
    next hopened =>
      have hreceive : (receive app (Objects.websocket m.objects) x).Meets T none (fun _ m₀ m b => R m₀ m b) m₀ m b := by
        cases x with
        | bytes data =>
          exact h.receiveAudio app hR (fun packet ha => hfull packet (ha.nextFrame hopened) ha.later)
            fun packet ha => hhear packet (ha.nextFrame hopened) ha.later
        | other => exact hR
        | text envelope =>
          cases envelope with
          | none => exact Keeps.upholds (h.emit ..) hR
          | some envelope =>
            refine meets_state ?_
            split
            · exact Keeps.upholds (h.emit ..) hR
            split
            · exact Keeps.upholds (h.emit ..) hR
            next hnext =>
            have hx : nextEnvelope? m.objects (.message (.text (some envelope))) = some envelope :=
              if_pos ⟨hopened, not_not.mp hnext⟩
            exact meets_assign (h.handleEnvelope app _ envelope (hcount envelope hx) (hsilences envelope hx)
              (hpause envelope hx) (hresume envelope hx) (hreset envelope hx))
      refine Coro.meets_andThen.mpr (hreceive.mono fun r m₀ m b hR' => ?_)
      cases r with
      | ok _ => exact hR'
      | error e =>
        cases e with
        | cancelled => exact hR'
        | exc _ => exact Keeps.upholds h.suspend hR'
    · exact hR
  | disconnect =>
    refine meets_objects ?_
    split
    · exact Keeps.upholds h.suspend hR
    · exact hR
  | reconnect accountId generation =>
    exact h.reconnect accountId generation hR (htakeOver accountId generation rfl)

end Bustle

/-- A task is cancelled and waited for. -/
theorem Keeps.cancelTask (hrest : Coro.Resting T none R) (hcancel : ∀ n, Keeps T R (Coro.cancel (S := signature) n))
    (task : Option ℕ) : Keeps T R (Realtime.cancelTask task) := by
  cases task with
  | none => exact Coro.maintains_pure ()
  | some n =>
    refine (Coro.maintains_isDone n).bind fun done => ?_
    cases done with
    | true => exact Coro.maintains_pure ()
    | false =>
      refine (hcancel n).bind fun _ => (Coro.maintains_join hrest n).handle fun e _ => ?_
      cases e with
      | cancelled => exact Coro.maintains_pure ()
      | exc e => exact Coro.maintains_throw trivial

/-! ### What is indifferent to the tasks -/

/-- The objects without the tasks of the session, its flag and its texts. -/
def taskless (o : Objects) : Objects :=
  { o with
    state := { o.state with
      assistantTask := none, partialTask := none, partialText := "", turnFinalizing := false
      expirationTask := none, lastAssistantText := none } }

/-- The objects without the bookkeeping: what is left are the numbers of the session, its audio, its
locks and the wire. -/
def core (o : Objects) : Objects := taskless (unwritten o)

/-- Only the bookkeeping has changed. -/
def Minor (o o' : Objects) : Prop := core o = core o'

/-- What is maintained whatever becomes of the tasks, unless they are turns. -/
structure Aloof (T : Terms signature) (R : Memory signature → Memory signature → Bool → Prop) : Prop
    extends Calm T none R where
  cancels : ∀ m₀ m b n, R m₀ m b →
    R m₀ (m.change n fun t => { t with cancelled := t.outcome.isNone ∨ t.cancelled }) b
  creates : ∀ m₀ m b (job : Job), job.turn? = none → R m₀ m b →
    R m₀ { m with tasks := m.tasks ++ [{ job := job }] } b
  minor : ∀ m₀ m b o, R m₀ m b → Minor m.objects o → R m₀ { m with objects := o } b

namespace Aloof

variable (h : Aloof T R)
include h

theorem assign {f : ConnectionState → ConnectionState}
    (hf : ∀ o : Objects, Minor o { o with state := f o.state }) : Keeps T R (Realtime.assign f) :=
  Coro.maintains_modify fun m₀ m b hR => h.minor m₀ m b _ hR (hf m.objects)

theorem createTask {job : Job} (hjob : job.turn? = none) :
    Keeps T R (Coro.createTask (S := signature) job) :=
  ⟨fun m₀ m b hR => ⟨Coro.ends_ok _, h.creates m₀ m b job hjob hR⟩⟩

theorem cancel (n : ℕ) : Keeps T R (Coro.cancel (S := signature) n) :=
  ⟨fun m₀ m b hR => ⟨Coro.ends_ok (), h.cancels m₀ m b n hR⟩⟩

theorem joinSuppressed (n : ℕ) : Keeps T R (Realtime.joinSuppressed n) := by
  refine (Coro.maintains_join h.toResting n).handle fun e _ => ?_
  cases e with
  | cancelled => exact Coro.maintains_pure ()
  | exc e => exact Coro.maintains_throw trivial

theorem cancelTask (task : Option ℕ) : Keeps T R (Realtime.cancelTask task) := by
  cases task with
  | none => exact Coro.maintains_pure ()
  | some n =>
    refine (Coro.maintains_isDone n).bind fun done => ?_
    cases done with
    | true => exact Coro.maintains_pure ()
    | false => exact (h.cancel n).bind fun _ => h.joinSuppressed n

theorem cancelPartialTask : Keeps T R Realtime.cancelPartialTask :=
  maintains_state.bind fun _ => (h.cancelTask _).bind fun _ => h.assign fun _ => rfl

theorem cancelAssistantTask : Keeps T R Realtime.cancelAssistantTask :=
  maintains_state.bind fun _ => (h.cancelTask _).bind fun _ => h.assign fun _ => rfl

theorem silences {m₀ m : Memory signature} {b : Bool} (hR : R m₀ m b) : Silences T R m₀ m b where
  cancelAssistantTask := Keeps.upholds h.cancelAssistantTask hR
  replaceAssistantTask _ hjob := Keeps.upholds (h.cancelAssistantTask.bind fun _ =>
    Coro.Maintains.bind (h.createTask hjob) fun _ => h.assign fun _ => rfl) hR

theorem bustle (hfinalize : ∀ websocket language ackFor, Keeps T R (finalizeAudioTurn websocket language ackFor)) :
    Bustle T R where
  toCalm := h.toCalm
  writes m₀ m b o hR hwrites := h.minor m₀ m b o hR (congrArg taskless hwrites)
  cancelPartialTask := h.cancelPartialTask
  transcribes _ _ _ := Coro.Maintains.bind (h.createTask rfl) fun _ => h.assign fun _ => rfl
  expires := Coro.Maintains.bind (h.createTask rfl) fun _ => h.assign fun _ => rfl
  unexpires _ _ _ task hR _ := Keeps.upholds ((h.cancel task).bind fun _ => h.joinSuppressed task) hR
  finalizeAudioTurn := hfinalize

end Aloof

/-- The objects without the audio of a session. -/
def mute (o : Objects) : Objects := { o with state := { o.state with audio := [] } }

/-- What is maintained whatever becomes of the audio, too. -/
structure Deaf (T : Terms signature) (R : Memory signature → Memory signature → Bool → Prop) : Prop
    extends Aloof T R where
  turns : ∀ m₀ m b (job : Job), R m₀ m b → R m₀ { m with tasks := m.tasks ++ [{ job := job }] } b
  mutes : ∀ m₀ m b o, R m₀ m b → Minor (mute m.objects) (mute o) → R m₀ { m with objects := o } b

namespace Deaf

variable (h : Deaf T R) (app : App)
include h

theorem finalizeAudioTurn (websocket : ℕ) (language : String) (ackFor : Uuid) :
    Keeps T R (Realtime.finalizeAudioTurn websocket language ackFor) := by
  have hreplace : ∀ job, Keeps T R (Realtime.replaceAssistantTask job) := fun job =>
    h.cancelAssistantTask.bind fun _ =>
      Coro.Maintains.bind ⟨fun m₀ m b hR => ⟨Coro.ends_ok _, h.turns m₀ m b job hR⟩⟩ fun _ =>
        h.assign fun _ => rfl
  refine maintains_state.bind fun s => ?_
  split
  · exact Coro.maintains_pure ()
  · refine Coro.Maintains.bind (h.assign fun _ => rfl) fun _ => h.cancelPartialTask.bind fun _ =>
      maintains_state.bind fun s => Coro.Maintains.bind ?_ fun _ => hreplace _
    exact Coro.maintains_modify fun m₀ m b hR => h.mutes m₀ m b _ hR rfl

/-- **An input** maintains what is indifferent to bookkeeping and audio, if it is maintained where a
socket is accepted or taken over, a frame is accepted, an envelope is counted and the session is reset. -/
theorem main {m₀ m : Memory signature} {b : Bool} (x : Input) (hR : R m₀ m b)
    (hopen : x = .accept → R m₀ { m with objects := { m.objects with websocket := 1, opened := true } } b)
    (haccept : ∀ packet, nextFrame? m.objects x = some packet →
      packet.capturedMs.le m.objects.state.lastAudioCaptureMs = false →
      R m₀ (withState m (acceptFrame packet)) b)
    (hcount : ∀ envelope, nextEnvelope? m.objects x = some envelope → R m₀ (withState m (countEnvelope envelope)) b)
    (hreset : ∀ envelope, nextEnvelope? m.objects x = some envelope → envelope.type = .sessionEnd →
      ∀ m₀ m b, R m₀ m b → R m₀ (withState m resetSession) b)
    (htakeOver : ∀ accountId generation, x = .reconnect accountId generation →
      ∀ m₀ m b requested, R m₀ m b → R m₀ { m with objects := takeOver requested m.objects } b) :
    (Realtime.main app x).Meets T none (fun _ m₀ m b => R m₀ m b) m₀ m b := by
  refine (h.toAloof.bustle h.finalizeAudioTurn).main app x hR hopen (fun packet hx hlater _ => haccept packet hx hlater)
    (fun packet hx hlater _ => ?_) hcount (fun envelope hx _ => h.silences (hcount envelope hx))
    (fun envelope hx _ => ?_)
    (fun envelope hx _ => ?_) hreset htakeOver
  · exact h.mutes m₀ (withState m (acceptFrame packet)) b _ (haccept packet hx hlater) rfl
  · exact h.mutes m₀ (withState m (countEnvelope envelope)) b _ (hcount envelope hx) rfl
  · exact h.mutes m₀ (withState m (countEnvelope envelope)) b _ (hcount envelope hx) rfl

end Deaf

end KajovoDagmar.Realtime
