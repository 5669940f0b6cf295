import KajovoDagmar.Realtime.WebSocket

/-! # The client of a voice session

`VoiceClient`: what it sends to the socket that `start` has made for a new session, or `connectSocket` to resume one,
and what it does with the messages of the server.  What it only shows (the transcript, the microphone, the audio) is
left out.  What follows an `await` in the middle of a call is a call of its own, so that messages come in between. -/

namespace KajovoDagmar

open Realtime Protocol

/-! ### The states of the voice -/

inductive VoiceState where
  | ready | connecting | listening | processing | responding | paused | reconnecting | error | ended
  /-- A value that the type does not have. -/
  | other
deriving DecidableEq

namespace VoiceState

def ofPayload : Option Json → VoiceState
  | some (.str "ready") => ready
  | some (.str "connecting") => connecting
  | some (.str "listening") => listening
  | some (.str "processing") => processing
  | some (.str "responding") => responding
  | some (.str "paused") => paused
  | some (.str "reconnecting") => reconnecting
  | some (.str "error") => error
  | some (.str "ended") => ended
  | _ => other

def allowed : VoiceState → Option (List VoiceState)
  | ready => some [connecting]
  | connecting => some [listening, error, ended]
  | listening => some [processing, paused, reconnecting, error, ended]
  | processing => some [responding, listening, paused, reconnecting, error, ended]
  | responding => some [listening, processing, paused, reconnecting, error, ended]
  | paused => some [listening, reconnecting, error, ended]
  | reconnecting => some [listening, paused, error, ended]
  | error => some [connecting, ready, ended]
  | ended => some [ready, connecting]
  | other => none

/-- `transition`, or `none` where it throws. -/
def transition (current next : VoiceState) : Option VoiceState :=
  if current = next then some current
  else (allowed current).bind fun states => if next ∈ states then some next else none

end VoiceState

/-! ### The socket of the client -/

inductive ReadyState where
  | connecting | opened | closing | closed
deriving DecidableEq

structure Socket where
  readyState : ReadyState := .connecting
  /-- What has been sent, in its order. -/
  sent : List Message := []
  /-- The code with which the client has closed it. -/
  code : Option ℕ := none

/-- `close(code)`. -/
def Socket.close (code : ℕ) (s : Socket) : Socket :=
  match s.readyState with
  | .connecting | .opened => { s with readyState := .closing, code := some code }
  | .closing | .closed => s

/-- Nothing can be sent any more. -/
def Socket.shut (s : Socket) : Prop := s.readyState = .closing ∨ s.readyState = .closed

instance (s : Socket) : Decidable s.shut := inferInstanceAs (Decidable (_ ∨ _))

def Socket.post (m : Message) (s : Socket) : Socket := { s with sent := s.sent ++ [m] }

/-! ### The client -/

def audioHardBackpressureBytes : ℕ := 96000

/-- What `connectSocket` waits to send when the socket is open. -/
inductive Opening where
  | nothing | start | resume
deriving DecidableEq

/-- What has begun and waits. -/
structure Pending where
  resuming : ℕ := 0
  answering : ℕ := 0
  creating : ℕ := 0

structure VoiceClient where
  socket : Socket := {}
  sequence : ℕ := 0
  lastServerSequence : ℕ := 0
  frameSequence : ℕ := 0
  generation : ℕ := 1
  /-- `responseRecoveryTimer` is set. -/
  recovering : Bool := false
  ending : Bool := false
  language : String := "cs"
  lastAssistantText : Option String := none
  state : VoiceState := .ready
  conversationId : Option Uuid := none
  opening : Opening := .nothing
  pending : Pending := {}

namespace VoiceClient

/-- A state that may not follow is taken on all the same. -/
def move (next : VoiceState) (c : VoiceClient) : VoiceClient :=
  { c with state := (VoiceState.transition c.state next).getD next }

def clearResponseRecoveryTimer (c : VoiceClient) : VoiceClient := { c with recovering := false }

def armResponseRecovery (c : VoiceClient) : VoiceClient := { c.clearResponseRecoveryTimer with recovering := true }

def fail (c : VoiceClient) : VoiceClient := c.clearResponseRecoveryTimer.move .error

/-- An envelope for the socket, or `none` where `send` throws. -/
def send (eventId : Uuid) (type : ClientType) (payload : Json) (c : VoiceClient) : Option VoiceClient :=
  if c.socket.readyState = .opened then
    some { c with
      sequence := c.sequence + 1
      socket := c.socket.post (.text (some
        { eventId := eventId, sequence := c.sequence + 1, type := type, payload := payload
          sequence_pos := Nat.succ_pos _ })) }
  else none

/-! ### Calls -/

/-- `start`, up to the socket that `connectSocket` makes.  Nothing is counted from the beginning again. -/
def start (language : String) (c : VoiceClient) : VoiceClient :=
  { c.move .connecting with ending := false, language := language, socket := {}, opening := .start }

/-- `connectSocket(true)`, up to the socket, when the timer of `scheduleReconnect` fires: the socket of before is shut
or has not come in time. -/
def reconnect (c : VoiceClient) : Option VoiceClient :=
  if c.ending = false ∧ c.conversationId.isSome = true ∧ (c.socket.shut ∨ c.opening = .resume) then
    some { c with generation := c.generation + 1, socket := {}, opening := .resume }
  else none

/-- What the user, the recorder, the timers and the socket call. -/
inductive Call where
  /-- The socket is open, and `connectSocket` goes on. -/
  | opened (continuationOfId : Option String)
  | reopened
  /-- `start` throws after the socket has been made. -/
  | startFailed
  | pause
  | resume
  | resumed
  | finishTurn
  | sendText (text : String)
  | answered
  | startAndSendText (text : String)
  /-- The conversation of `startAndSendText` is there. -/
  | created (conversationId : Uuid) (text : String)
  | interrupt
  | retrySpeech
  /-- `end`, up to its first `await`, and its end. -/
  | finish
  | finished
  | frame (bufferedAmount : ℕ) (pcm : List UInt8) (now : Binary64)
  /-- The timer of the response. -/
  | recovered
  | socketError
  | socketClosed

/-- `connectSocket(false)`, from the open socket. -/
def opened (eventId : Uuid) (continuationOfId : Option String) (c : VoiceClient) : Option VoiceClient :=
  if c.socket.readyState = .connecting ∧ c.opening = .start then
    { c with socket := { c.socket with readyState := .opened }, opening := .nothing }.send eventId .sessionStart
      (.obj (("language", .str c.language) :: (continuationOfId.map fun id => ("continuation_of_id",
        Json.str id)).toList))
  else none

/-- `connectSocket(true)`, from the open socket. -/
def reopened (eventId : Uuid) (c : VoiceClient) : Option VoiceClient :=
  if c.socket.readyState = .connecting ∧ c.opening = .resume then
    some { c with
      sequence := c.sequence + 1
      socket := { c.socket with readyState := .opened }.post (.text (some
        { eventId := eventId, sequence := c.sequence + 1, type := .sessionResume
          resumeCursor := some c.lastServerSequence, payload := .obj [("generation", .int c.generation)]
          sequence_pos := Nat.succ_pos _ }))
      opening := .nothing }
  else none

/-- The `catch` of `start`, where the socket or the conversation has not come in time. -/
def startFailed (c : VoiceClient) : Option VoiceClient :=
  if c.opening = .start ∨ c.conversationId = none then
    some ({ c with socket := c.socket.close 1000, opening := .nothing }.move .error)
  else none

def pause (eventId : Uuid) (c : VoiceClient) : VoiceClient :=
  if c.state = .listening then ((c.send eventId .microphonePause (.obj [])).map (move .paused)).getD c else c

def resume (eventId : Uuid) (c : VoiceClient) : VoiceClient :=
  if c.conversationId = none then c
  else
    let c := (c.send eventId .microphoneResume (.obj [])).getD c
    { c with pending := { c.pending with resuming := c.pending.resuming + 1 } }

def resumed (c : VoiceClient) : Option VoiceClient :=
  if c.pending.resuming = 0 then none
  else some ({ c with pending := { c.pending with resuming := c.pending.resuming - 1 } }.move .listening)

def finishTurn (eventId : Uuid) (c : VoiceClient) : VoiceClient :=
  if c.state = .listening then (c.send eventId .turnAudioEnd (.obj [("language", .str c.language)])).getD c else c

/-- A text goes over the socket if it is open, and otherwise in a request. -/
def sendText (eventId : Uuid) (text : String) (c : VoiceClient) : VoiceClient :=
  if c.conversationId = none then c
  else
    (c.send eventId .turnText (.obj [("text", .str text)])).getD
      (({ c with pending := { c.pending with answering := c.pending.answering + 1 } } : VoiceClient).move .processing)

def answered (c : VoiceClient) : Option VoiceClient :=
  if c.pending.answering = 0 then none
  else some ({ c with pending := { c.pending with answering := c.pending.answering - 1 } }.move .ready)

def startAndSendText (eventId : Uuid) (text : String) (c : VoiceClient) : VoiceClient :=
  if c.conversationId = none then { c with pending := { c.pending with creating := c.pending.creating + 1 } }
  else c.sendText eventId text

def created (eventId : Uuid) (conversationId : Uuid) (text : String) (c : VoiceClient) : Option VoiceClient :=
  if c.pending.creating = 0 then none
  else some ({ c with
    conversationId := some conversationId
    pending := { c.pending with creating := c.pending.creating - 1 } }.sendText eventId text)

def interrupt (eventId : Uuid) (c : VoiceClient) : VoiceClient :=
  let c := c.clearResponseRecoveryTimer
  ((c.send eventId .assistantInterrupt (.obj [])).map (move .listening)).getD c

def retrySpeech (eventId : Uuid) (c : VoiceClient) : VoiceClient :=
  if (c.lastAssistantText.filter fun text => text ≠ "") = none then c
  else (c.send eventId .assistantAudioRetry (.obj [])).getD c

/-- `end`, up to its first `await`: without an open socket the server is told in a request. -/
def finish (eventId : Uuid) (c : VoiceClient) : VoiceClient :=
  let c := { c.clearResponseRecoveryTimer with ending := true }
  (c.send eventId .sessionEnd (.obj [])).getD c

def finished (c : VoiceClient) : Option VoiceClient :=
  if c.ending then
    some ({ c with
      socket := c.socket.close 1000
      sequence := 0
      lastServerSequence := 0
      frameSequence := 0
      generation := 1
      lastAssistantText := none
      conversationId := none }.move .ended)
  else none

/-- `recorder.port.onmessage`. -/
def frame (bufferedAmount : ℕ) (pcm : List UInt8) (now : Binary64) (c : VoiceClient) : VoiceClient :=
  if c.socket.readyState ≠ .opened ∨ c.state ≠ .listening then c
  else if audioHardBackpressureBytes ≤ bufferedAmount then c.move .paused
  else
    match clientPacket (c.frameSequence + 1) now pcm with
    | none => c.fail
    | some packet => { c with frameSequence := c.frameSequence + 1, socket := c.socket.post (.bytes packet) }

def recovered (c : VoiceClient) : Option VoiceClient :=
  if c.recovering then some { c with recovering := false, state := .listening } else none

/-- `socket.onclose`. -/
def socketClosed (c : VoiceClient) : VoiceClient :=
  let c := { c with socket := { c.socket with readyState := .closed } }
  if c.ending = true ∨ c.state = .ended ∨ c.state = .ready then c else c.move .reconnecting

/-- A call, or `none` where it cannot be. -/
def perform (eventId : Uuid) (c : VoiceClient) : Call → Option VoiceClient
  | .opened continuationOfId => c.opened eventId continuationOfId
  | .reopened => c.reopened eventId
  | .startFailed => c.startFailed
  | .pause => some (c.pause eventId)
  | .resume => some (c.resume eventId)
  | .resumed => c.resumed
  | .finishTurn => some (c.finishTurn eventId)
  | .sendText text => some (c.sendText eventId text)
  | .answered => c.answered
  | .startAndSendText text => some (c.startAndSendText eventId text)
  | .created conversationId text => c.created eventId conversationId text
  | .interrupt => some (c.interrupt eventId)
  | .retrySpeech => some (c.retrySpeech eventId)
  | .finish => some (c.finish eventId)
  | .finished => c.finished
  | .frame bufferedAmount pcm now => some (c.frame bufferedAmount pcm now)
  | .recovered => c.recovered
  | .socketError => some c.fail
  | .socketClosed => some c.socketClosed

/-! ### Messages -/

/-- An event that is the next one. -/
def handleEvent (message : ServerEnvelope) (c : VoiceClient) : VoiceClient :=
  match message.type with
  | "connection.ready" => c.move .connecting
  | "session.started" => { c with conversationId := message.conversationId }.move .listening
  | "session.resumed" => { c with conversationId := message.conversationId.or c.conversationId }.move .listening
  | "state.changed" => c.move (.ofPayload (message.payload.get? "state"))
  | "assistant.text" =>
    let text := match message.payload.get? "text" with
      | some (.str text) => text
      | _ => ""
    ({ c with lastAssistantText := some text }.move .responding).armResponseRecovery
  | "assistant.audio.end" | "assistant.audio.error" | "assistant.interrupted" =>
    c.clearResponseRecoveryTimer.move .listening
  | "flow_control" =>
    match message.payload.get? "level" with
    | some (.str "hard") => c.move .paused
    | _ => c
  | "session.ended" => c.clearResponseRecoveryTimer.move .ended
  | "resync.required" | "error" => c.fail
  | _ => c

/-- `onMessage`.  A text that has been handled before is left out, and one that is too early closes the socket. -/
def onMessage (message : ServerMessage) (c : VoiceClient) : VoiceClient :=
  match message with
  | .bytes _ => c
  | .text message =>
    if message.sequence ≤ c.lastServerSequence then c
    else if message.sequence ≠ c.lastServerSequence + 1 then { c with socket := c.socket.close 4000 }
    else { c with lastServerSequence := message.sequence }.handleEvent message

/-! ### What is said -/

/-- The number of an envelope. -/
def number? : Message → Option ℕ
  | .text (some envelope) => some envelope.sequence
  | _ => none

/-- The call belongs to `end`. -/
def Call.ends : Call → Bool
  | .finish | .finished => true
  | _ => false

theorem Call.ne_finished {call : Call} (h : call.ends = false) : call ≠ .finished := by
  rintro rfl
  exact absurd h (by decide)

/-- What a call leaves alone. -/
structure Same (c c' : VoiceClient) : Prop where
  sequence : c'.sequence = c.sequence
  lastServerSequence : c'.lastServerSequence = c.lastServerSequence
  sent : c'.socket.sent = c.socket.sent
  code : c'.socket.code = some 4000 → c.socket.code = some 4000
  shut : c.socket.shut → c'.socket.shut
  ending : c.ending = true → c'.ending = true

/-- What a call may say: nothing, or over a socket that is not shut the next envelope or a frame.  Only `end` says
`session.end`. -/
inductive Speaks (ends : Bool) (c c' : VoiceClient) : Prop
  | nothing (same : Same c c')
  | envelope (e : ClientEnvelope) (notShut : ¬c.socket.shut) (next : e.sequence = c.sequence + 1)
      (notEnd : ends = false → e.type ≠ .sessionEnd) (sequence : c'.sequence = c.sequence + 1)
      (lastServerSequence : c'.lastServerSequence = c.lastServerSequence)
      (sent : c'.socket.sent = c.socket.sent ++ [.text (some e)])
      (code : c'.socket.code = some 4000 → c.socket.code = some 4000)
  | frame (packet : List UInt8) (notShut : ¬c.socket.shut) (sequence : c'.sequence = c.sequence)
      (lastServerSequence : c'.lastServerSequence = c.lastServerSequence)
      (sent : c'.socket.sent = c.socket.sent ++ [.bytes packet])
      (code : c'.socket.code = some 4000 → c.socket.code = some 4000)

section speaks

variable {c c' c'' : VoiceClient} {ends : Bool}

theorem Same.refl (c : VoiceClient) : Same c c := ⟨rfl, rfl, rfl, id, id, id⟩

theorem Same.trans (h : Same c c') (h' : Same c' c'') : Same c c'' where
  sequence := h'.sequence.trans h.sequence
  lastServerSequence := h'.lastServerSequence.trans h.lastServerSequence
  sent := h'.sent.trans h.sent
  code hc := h.code (h'.code hc)
  shut hshut := h'.shut (h.shut hshut)
  ending hending := h'.ending (h.ending hending)

theorem move_same (next : VoiceState) (c : VoiceClient) : Same c (c.move next) := ⟨rfl, rfl, rfl, id, id, id⟩

theorem fail_same (c : VoiceClient) : Same c c.fail := ⟨rfl, rfl, rfl, id, id, id⟩

theorem close_sent (code : ℕ) (s : Socket) : (s.close code).sent = s.sent := by
  unfold Socket.close
  split <;> rfl

theorem close_code {code : ℕ} {s : Socket} (hcode : code ≠ 4000) (h : (s.close code).code = some 4000) :
    s.code = some 4000 := by
  unfold Socket.close at h
  split at h
  · exact absurd (Option.some.inj h) hcode
  · exact absurd (Option.some.inj h) hcode
  · exact h
  · exact h

theorem close_shut (code : ℕ) (s : Socket) : (s.close code).shut := by
  unfold Socket.close
  split
  · exact .inl rfl
  · exact .inl rfl
  next h => exact .inl h
  next h => exact .inr h

theorem not_shut {s : Socket} (h : s.readyState = .connecting ∨ s.readyState = .opened) : ¬s.shut := by
  rcases h with h | h
  all_goals
    rintro (hclosing | hclosed)
    · exact absurd (h.symm.trans hclosing) (by decide)
    · exact absurd (h.symm.trans hclosed) (by decide)

theorem Speaks.before (h : Same c c') (h' : Speaks ends c' c'') : Speaks ends c c'' := by
  cases h' with
  | nothing same => exact .nothing (h.trans same)
  | envelope e notShut next notEnd sequence lastServerSequence sent code =>
      exact .envelope e (fun hshut => notShut (h.shut hshut)) (h.sequence ▸ next) notEnd (h.sequence ▸ sequence)
        (lastServerSequence.trans h.lastServerSequence) (h.sent ▸ sent) fun hc => h.code (code hc)
  | frame packet notShut sequence lastServerSequence sent code =>
      exact .frame packet (fun hshut => notShut (h.shut hshut)) (sequence.trans h.sequence)
        (lastServerSequence.trans h.lastServerSequence) (h.sent ▸ sent) fun hc => h.code (code hc)

theorem Speaks.after (h : Speaks ends c c') (h' : Same c' c'') : Speaks ends c c'' := by
  cases h with
  | nothing same => exact .nothing (same.trans h')
  | envelope e notShut next notEnd sequence lastServerSequence sent code =>
      exact .envelope e notShut next notEnd (h'.sequence.trans sequence)
        (h'.lastServerSequence.trans lastServerSequence) (h'.sent.trans sent) fun hc => code (h'.code hc)
  | frame packet notShut sequence lastServerSequence sent code =>
      exact .frame packet notShut (h'.sequence.trans sequence) (h'.lastServerSequence.trans lastServerSequence)
        (h'.sent.trans sent) fun hc => code (h'.code hc)

theorem send_speaks {eventId : Uuid} {type : ClientType} {payload : Json}
    (htype : ends = false → type ≠ .sessionEnd) (h : c.send eventId type payload = some c') : Speaks ends c c' := by
  unfold send at h
  split at h
  next hopened =>
    obtain rfl := Option.some.inj h
    exact .envelope _ (not_shut (.inr hopened)) rfl htype rfl rfl rfl id
  · cases h

/-- A call that sends an envelope if the socket is open. -/
theorem sent_speaks {eventId : Uuid} {type : ClientType} {payload : Json} (htype : ends = false → type ≠ .sessionEnd)
    (otherwise : VoiceClient) (hother : Same c otherwise) :
    Speaks ends c ((c.send eventId type payload).getD otherwise) := by
  cases h : c.send eventId type payload with
  | none => exact .nothing hother
  | some c' => exact send_speaks htype h

/-- A call that goes on if `send` does not throw. -/
theorem sending_speaks {eventId : Uuid} {type : ClientType} {payload : Json} {f : VoiceClient → VoiceClient}
    (htype : ends = false → type ≠ .sessionEnd) (hf : ∀ c, Same c (f c)) :
    Speaks ends c (((c.send eventId type payload).map f).getD c) := by
  cases h : c.send eventId type payload with
  | none => exact .nothing (.refl c)
  | some c' => exact (send_speaks htype h).after (hf c')

theorem sendText_speaks (eventId : Uuid) (text : String) (c : VoiceClient) :
    Speaks ends c (c.sendText eventId text) := by
  have htype : ends = false → ClientType.turnText ≠ .sessionEnd := fun _ => by decide
  unfold sendText
  split
  · exact .nothing (.refl c)
  · exact sent_speaks htype _ ⟨rfl, rfl, rfl, id, id, id⟩

theorem perform_speaks {eventId : Uuid} {call : Call} (hcall : call ≠ .finished)
    (h : c.perform eventId call = some c') : Speaks call.ends c c' := by
  cases call with
  | opened continuationOfId =>
      simp only [perform, opened] at h
      split at h
      next hconnecting =>
        have hnot : ¬c.socket.shut := not_shut (.inl hconnecting.1)
        have hsame : Same c { c with socket := { c.socket with readyState := .opened }, opening := .nothing } :=
          ⟨rfl, rfl, rfl, id, fun hshut => absurd hshut hnot, id⟩
        exact (send_speaks (fun _ => by decide) h).before hsame
      · cases h
  | reopened =>
      simp only [perform, reopened] at h
      split at h
      next hconnecting =>
        have htype : ClientType.sessionResume ≠ .sessionEnd := by decide
        obtain rfl := Option.some.inj h
        exact .envelope _ (not_shut (.inl hconnecting.1)) rfl (fun _ => htype) rfl rfl rfl id
      · cases h
  | startFailed =>
      simp only [perform, startFailed] at h
      split at h
      · obtain rfl := Option.some.inj h
        exact .nothing ⟨rfl, rfl, close_sent .., close_code (by decide), fun _ => close_shut .., id⟩
      · cases h
  | pause =>
      obtain rfl := Option.some.inj h
      unfold pause
      split
      · exact sending_speaks (by decide) (move_same .paused)
      · exact .nothing (.refl c)
  | resume =>
      obtain rfl := Option.some.inj h
      unfold resume
      split
      · exact .nothing (.refl c)
      · exact (sent_speaks (by decide) c (.refl c)).after ⟨rfl, rfl, rfl, id, id, id⟩
  | resumed =>
      simp only [perform, resumed] at h
      split at h
      · cases h
      · obtain rfl := Option.some.inj h
        exact .nothing ⟨rfl, rfl, rfl, id, id, id⟩
  | finishTurn =>
      obtain rfl := Option.some.inj h
      unfold finishTurn
      split
      · exact sent_speaks (by decide) c (.refl c)
      · exact .nothing (.refl c)
  | sendText text =>
      obtain rfl := Option.some.inj h
      exact sendText_speaks eventId text c
  | answered =>
      simp only [perform, answered] at h
      split at h
      · cases h
      · obtain rfl := Option.some.inj h
        exact .nothing ⟨rfl, rfl, rfl, id, id, id⟩
  | startAndSendText text =>
      obtain rfl := Option.some.inj h
      unfold startAndSendText
      split
      · exact .nothing ⟨rfl, rfl, rfl, id, id, id⟩
      · exact sendText_speaks eventId text c
  | created conversationId text =>
      simp only [perform, created] at h
      split at h
      · cases h
      · obtain rfl := Option.some.inj h
        have hsame : Same c { c with
            conversationId := some conversationId
            pending := { c.pending with creating := c.pending.creating - 1 } } := ⟨rfl, rfl, rfl, id, id, id⟩
        exact (sendText_speaks eventId text _).before hsame
  | interrupt =>
      obtain rfl := Option.some.inj h
      have hsame : Same c c.clearResponseRecoveryTimer := ⟨rfl, rfl, rfl, id, id, id⟩
      exact (sending_speaks (by decide) (move_same .listening)).before hsame
  | retrySpeech =>
      obtain rfl := Option.some.inj h
      unfold retrySpeech
      split
      · exact .nothing (.refl c)
      · exact sent_speaks (by decide) c (.refl c)
  | finish =>
      obtain rfl := Option.some.inj h
      have hsame : Same c { c.clearResponseRecoveryTimer with ending := true } :=
        ⟨rfl, rfl, rfl, id, id, fun _ => rfl⟩
      exact (sent_speaks (by decide) _ (.refl _)).before hsame
  | finished => exact absurd rfl hcall
  | frame bufferedAmount pcm now =>
      obtain rfl := Option.some.inj h
      unfold frame
      split
      · exact .nothing (.refl c)
      next hlistening =>
        have hopened : c.socket.readyState = .opened := by
          by_contra hother
          exact hlistening (.inl hother)
        split
        · exact .nothing (move_same .paused c)
        · split
          · exact .nothing (fail_same c)
          · exact .frame _ (not_shut (.inr hopened)) rfl rfl rfl id
  | recovered =>
      simp only [perform, recovered] at h
      split at h
      · obtain rfl := Option.some.inj h
        exact .nothing ⟨rfl, rfl, rfl, id, id, id⟩
      · cases h
  | socketError =>
      obtain rfl := Option.some.inj h
      exact .nothing (fail_same c)
  | socketClosed =>
      obtain rfl := Option.some.inj h
      unfold socketClosed
      dsimp only
      split
      · exact .nothing ⟨rfl, rfl, rfl, id, fun _ => .inr rfl, id⟩
      · exact .nothing ⟨rfl, rfl, rfl, id, fun _ => .inr rfl, id⟩

end speaks

/-! ### What is heard -/

theorem handleEvent_same (message : ServerEnvelope) (c : VoiceClient) : Same c (c.handleEvent message) := by
  unfold handleEvent
  split
  case h_9 =>
    split
    · exact move_same ..
    · exact .refl c
  all_goals exact ⟨rfl, rfl, rfl, id, id, id⟩

/-- An event is handled if it is the next one. -/
theorem onMessage_next {message : ServerMessage} {c : VoiceClient}
    (h : ∀ n, message.sequence? = some n → n = c.lastServerSequence + 1) :
    ((c.onMessage message).socket.code = some 4000 → c.socket.code = some 4000) ∧
      (c.onMessage message).lastServerSequence = c.lastServerSequence + message.sequence?.toList.length := by
  cases message with
  | bytes data => exact ⟨id, rfl⟩
  | text e =>
      have hnext : e.sequence = c.lastServerSequence + 1 := h e.sequence rfl
      have hsame := handleEvent_same e { c with lastServerSequence := e.sequence }
      rw [onMessage, if_neg (by omega), if_neg (not_not.mpr hnext)]
      exact ⟨hsame.code, hsame.lastServerSequence.trans hnext⟩

theorem onMessage_spares (message : ServerMessage) (c : VoiceClient) :
    (c.onMessage message).sequence = c.sequence ∧ (c.onMessage message).socket.sent = c.socket.sent ∧
      (c.socket.shut → (c.onMessage message).socket.shut) ∧
      (c.ending = true → (c.onMessage message).ending = true) := by
  cases message with
  | bytes data => exact ⟨rfl, rfl, id, id⟩
  | text e =>
      unfold onMessage
      dsimp only
      split
      · exact ⟨rfl, rfl, id, id⟩
      · split
        · exact ⟨rfl, close_sent .., fun _ => close_shut .., id⟩
        · have hsame := handleEvent_same e { c with lastServerSequence := e.sequence }
          exact ⟨hsame.sequence, hsame.sent, hsame.shut, hsame.ending⟩

/-- An event that comes after a gap closes the socket. -/
theorem onMessage_gap {message : ServerMessage} {c : VoiceClient}
    (h : ∀ n, message.sequence? = some n → c.lastServerSequence + 1 < n) :
    (c.onMessage message).lastServerSequence = c.lastServerSequence ∧
      (message.sequence?.isSome = true → (c.onMessage message).socket.shut) := by
  cases message with
  | bytes data => exact ⟨rfl, fun hevent => by cases hevent⟩
  | text e =>
      have hgap : c.lastServerSequence + 1 < e.sequence := h e.sequence rfl
      rw [onMessage, if_neg (by omega), if_pos (by omega)]
      exact ⟨rfl, fun _ => close_shut ..⟩

/-! ### Beyond a number -/

/-- What the client has sent, and what it will send over this socket and the next, has greater numbers than the one
after `k`. -/
structure Beyond (k : ℕ) (c : VoiceClient) : Prop where
  sent : ∀ e, .text (some e) ∈ c.socket.sent → k + 1 < e.sequence
  later : k < c.sequence ∨ (c.socket.shut ∧ c.ending = true)

section beyond

variable {k : ℕ} {c c' : VoiceClient}

theorem Beyond.perform {eventId : Uuid} {call : Call} (h : Beyond k c) (hc : c.perform eventId call = some c') :
    Beyond k c' := by
  by_cases hcall : call = .finished
  · subst hcall
    simp only [VoiceClient.perform, finished] at hc
    split at hc
    next hending =>
      obtain rfl := Option.some.inj hc
      refine ⟨fun e he => h.sent e ?_, .inr ⟨close_shut .., hending⟩⟩
      rwa [← close_sent 1000]
    · cases hc
  · cases perform_speaks hcall hc with
    | nothing same =>
        refine ⟨fun e he => h.sent e (same.sent ▸ he), h.later.imp (fun hlt => ?_) fun hover => ?_⟩
        · rwa [same.sequence]
        · exact ⟨same.shut hover.1, same.ending hover.2⟩
    | envelope e notShut next notEnd sequence lastServerSequence sent code =>
        have hlater : k < c.sequence := h.later.resolve_right fun hover => notShut hover.1
        refine ⟨fun e' he' => ?_, .inl (by omega)⟩
        rw [sent] at he'
        rcases List.mem_append.mp he' with hold | hnew
        · exact h.sent e' hold
        · obtain rfl : e' = e := Option.some.inj (Message.text.inj (List.mem_singleton.mp hnew))
          omega
    | frame packet notShut sequence lastServerSequence sent code =>
        have hlater : k < c.sequence := h.later.resolve_right fun hover => notShut hover.1
        refine ⟨fun e he => ?_, .inl (by omega)⟩
        rw [sent] at he
        rcases List.mem_append.mp he with hold | hnew
        · exact h.sent e hold
        · exact absurd (List.mem_singleton.mp hnew) (by simp)

theorem Beyond.onMessage (h : Beyond k c) (message : ServerMessage) : Beyond k (c.onMessage message) := by
  obtain ⟨hsequence, hsent, hshut, hending⟩ := onMessage_spares message c
  refine ⟨fun e he => h.sent e (hsent ▸ he), h.later.imp (fun hlt => ?_) fun hover => ?_⟩
  · rwa [hsequence]
  · exact ⟨hshut hover.1, hending hover.2⟩

/-- A client that has ended makes no other socket. -/
theorem Beyond.reconnect (h : Beyond k c) (hc : c.reconnect = some c') : Beyond k c' := by
  unfold VoiceClient.reconnect at hc
  split at hc
  next hguard =>
    obtain rfl := Option.some.inj hc
    refine ⟨fun e he => absurd he List.not_mem_nil, .inl (h.later.resolve_right fun hover => ?_)⟩
    exact absurd (hover.2.symm.trans hguard.1) (by simp)
  · cases hc

end beyond

end VoiceClient

end KajovoDagmar
