import KajovoDagmar.Realtime.Connection

/-! # The realtime socket

`handle_realtime`: reading a socket, the turns of a session and what becomes of them when the
socket is lost.  Every coroutine is given the task that runs it (`none` for the one that reads)
and the socket that it sends to.  `server` is the whole program. -/

namespace KajovoDagmar.Realtime

open Asyncio Protocol

/-- `PARTIAL_TRANSCRIPT_INTERVAL_BYTES`. -/
def partialTranscriptIntervalBytes : ℕ := pcmSampleRate * pcmSampleBytes

def flowControlAckFrames : ℕ := 10

/-- The detector that `VoiceActivityDetector(endpoint_silence_ms=…)` builds; `none` is a
`ValueError`. -/
def voiceActivityDetector (endpointSilenceMs : ℤ) : Option Vad.Detector :=
  (Vad.Config.check 600 3 endpointSilenceMs).map fun config => { config := config }

/-- The runtime, with the texts of the two kinds of floats that are sent. -/
structure App extends Runtime where
  renderMs : Binary64 → Json
  /-- `round(level, 2)` of the level whose square is given. -/
  renderLevel : ℚ → Json

/-- `str(value)`. -/
def pyStr (app : App) : Json → String
  | .null => "None"
  | .bool true => "True"
  | .bool false => "False"
  | .int n => toString n
  | .float r => r
  | .str s => s
  | j => app.pyRepr j

section

variable (app : App)

/-- `uuid4()`. -/
def uuid4 : Co Uuid := do
  let o ← Coro.objects
  Coro.modify (S := signature) fun o : Objects => { o with tick := o.tick + 1 }
  pure (app.uuid4 (Objects.tick o))

def ofExcept {α : Type} : Except String α → Co α
  | .ok a => pure a
  | .error cls => raising (.other cls)

/-- `async with database.session()`: it is committed unless an exception other than a durable one
is raised. -/
def inSession {α : Type} (body : Co α) : Co α := do
  try
    let a ← body
    Coro.perform (S := signature) .commit
    pure a
  catch e =>
    match e with
    | .exc exc => do
      if exc.Durable then Coro.perform (S := signature) .commit
      else Coro.perform (S := signature) .rollback
      throw e
    | .cancelled => throw e

/-- `with suppress(asyncio.CancelledError): await task`. -/
def joinSuppressed (task : ℕ) : Co Unit := do
  try Coro.join (S := signature) task
  catch e =>
    match e with
    | .cancelled => pure ()
    | .exc _ => throw e

/-! ### Tasks -/

/-- The task, unless there is none, is cancelled and awaited if it is not done. -/
def cancelTask : Option ℕ → Co Unit
  | none => pure ()
  | some task => do
    if !(← Coro.isDone (S := signature) task) then
      Coro.cancel (S := signature) task
      joinSuppressed task

def cancelPartialTask : Co Unit := do
  let s ← state
  cancelTask s.partialTask
  assign fun s => { s with partialTask := none }

def cancelAssistantTask : Co Unit := do
  let s ← state
  cancelTask s.assistantTask
  assign fun s => { s with assistantTask := none }

def replaceAssistantTask (job : Job) : Co Unit := do
  cancelAssistantTask
  let task ← Coro.createTask (S := signature) job
  assign fun s => { s with assistantTask := some task }

/-! ### Turns -/

def transcribe (audio : List UInt8) (language : String) : Co String :=
  inSession (Coro.perform (S := signature) (.transcribe audio language))

/-- The error events of a turn: `except DomainError` and `except Exception`. -/
def emitFailure (self : Option ℕ) (websocket : ℕ) (message : String) (ackFor : Uuid) (e : Exc) : Co Unit :=
  match e with
  | .domain d => emit self websocket "error" [("code", .str d.code), ("message", .str d.message)] (some ackFor)
  | _ => emit self websocket "error"
      [("code", .str "realtime_processing_failed"), ("message", .str message)] (some ackFor)

/-- The speech of an answer, piece by piece. -/
def sendChunks (self : Option ℕ) (websocket : ℕ) : List (List UInt8) → Co Unit
  | [] => Coro.perform (S := signature) .nextChunk
  | chunk :: rest => do
    Coro.perform (S := signature) .nextChunk
    if chunk ≠ [] then sendAudio self websocket chunk
    sendChunks self websocket rest

def emitAudioError (self : Option ℕ) (websocket : ℕ) (code message : String) : Co Unit :=
  emit self websocket "assistant.audio.error"
    [("code", .str code), ("message", .str message), ("text_available", .bool true)]

def synthesize (self : Option ℕ) (websocket : ℕ) (text language : String) : Co Unit := do
  try
    inSession do
      Coro.perform (S := signature) .voice
      emit self websocket "assistant.audio.start"
        [("format", .str "pcm_s16le"), ("sample_rate", .int 24000), ("channels", .int 1)]
      let speech ← Coro.perform (S := signature) (.speak text language)
      sendChunks self websocket (Speech.chunks speech)
      match Speech.failure speech with
      | none => pure ()
      | some e => raising e
      emit self websocket "assistant.audio.end" [("completed", .bool true)]
  catch e =>
    match e with
    | .exc (.domain d) => emitAudioError self websocket d.code d.message
    | .exc (.other "TimeoutError") =>
      emitAudioError self websocket "provider_timeout" "Externí služba neodpověděla včas."
    | e => throw e

/-- The `try` of `process_text_turn`. -/
def answerTurn (self : Option ℕ) (websocket : ℕ) (text idempotencyKey : String) (ackFor : Uuid)
    (inputMode : InputMode) : Co Unit := do
  let answer ← inSession do
    let s ← state
    let messageId ← Coro.perform (S := signature)
      (.addUserTurn s.accountId s.conversationId idempotencyKey text inputMode s.language)
    if inputMode = .text then
      emit self websocket "transcript.final"
        [("text", .str text), ("message_id", .str (app.strUuid messageId))] (some ackFor)
    let s ← state
    Coro.perform (S := signature) (.answer s.accountId s.conversationId messageId)
  emit self websocket "assistant.text"
    [("message_id", .str (app.strUuid (AssistantAnswer.messageId answer))),
     ("run_id", .str (app.strUuid (AssistantAnswer.runId answer))),
     ("text", .str (AssistantAnswer.content answer)),
     ("intent", .str (AssistantAnswer.intent answer)),
     ("sources", AssistantAnswer.sources answer),
     ("memory_proposal", AssistantAnswer.memoryProposal answer),
     ("actions", AssistantAnswer.actions answer)] (some ackFor)
  assign fun s => { s with lastAssistantText := some (AssistantAnswer.content answer) }
  let s ← state
  synthesize self websocket (AssistantAnswer.content answer) s.language

def processTextTurn (self : Option ℕ) (websocket : ℕ) (text idempotencyKey : String) (ackFor : Uuid)
    (inputMode : InputMode := .text) (stateAlreadyProcessing : Bool := false) : Co Unit := do
  if PythonText.strip text = "" then
    emit self websocket "error"
      [("code", .str "empty_turn"), ("message", .str "Replika je prázdná.")] (some ackFor)
  else
    if !stateAlreadyProcessing then
      emit self websocket "state.changed" [("state", .str "processing")] (some ackFor)
    try answerTurn app self websocket text idempotencyKey ackFor inputMode
    catch e =>
      match e with
      | .cancelled => do
        emit self websocket "assistant.interrupted" [("state", .str "listening")] (some ackFor)
        throw e
      | .exc exc => emitFailure self websocket "Textovou repliku se nepodařilo zpracovat." ackFor exc
    finally
      let s ← state
      if s.conversationId.isSome then emit self websocket "state.changed" [("state", .str "listening")]

def processAudioTurn (self : Option ℕ) (websocket : ℕ) (audio : List UInt8) (language : String)
    (ackFor : Uuid) : Co Unit := do
  try
    emit self websocket "state.changed" [("state", .str "processing")] (some ackFor)
    let transcript ← transcribe audio language
    emit self websocket "transcript.final" [("text", .str transcript)] (some ackFor)
    processTextTurn app self websocket transcript (app.strUuid ackFor) ackFor .voice true
  catch e =>
    match e with
    | .cancelled => throw e
    | .exc exc => emitFailure self websocket "Hlasovou repliku se nepodařilo zpracovat." ackFor exc
  finally
    assign fun s => { s with turnFinalizing := false, partialText := "" }

def emitPartialTranscript (self : Option ℕ) (websocket : ℕ) (audio : List UInt8) (language : String) :
    Co Unit := do
  try
    let text ← transcribe audio language
    let text := PythonText.strip text
    let s ← state
    if text ≠ "" ∧ text ≠ s.partialText ∧ s.turnFinalizing = false then
      assign fun s => { s with partialText := text }
      emit self websocket "transcript.partial" [("text", .str text)]
  catch e =>
    match e with
    | .exc (.domain _) => pure ()
    | .exc (.other "TimeoutError") => pure ()
    | e => throw e

/-! ### Audio -/

def finalizeAudioTurn (websocket : ℕ) (language : String) (ackFor : Uuid) : Co Unit := do
  let s ← state
  if s.turnFinalizing = true ∨ s.audio = [] then pure ()
  else
    assign fun s => { s with turnFinalizing := true }
    cancelPartialTask
    let s ← state
    assign fun s => { s with audio := [], vad := s.vad.reset, partialAtBytes := 0 }
    replaceAssistantTask (.processAudioTurn websocket s.audio language ackFor)

/-- The frame that is the next in sequence and captured later than the last one. -/
def acceptFrame (packet : AudioPacket) (s : ConnectionState) : ConnectionState :=
  { s with lastAudioSequence := packet.sequence, lastAudioCaptureMs := packet.capturedMs }

/-- A partial transcript is begun when there is speech, enough of it is new and no other
transcript is under way. -/
def startPartialTranscript (websocket : ℕ) : Co Unit := do
  let s ← state
  if s.vad.active = true ∧ (partialTranscriptIntervalBytes : ℤ) ≤ s.audio.length - s.partialAtBytes then
    let idle ← match s.partialTask with
      | none => pure true
      | some task => Coro.isDone (S := signature) task
    if idle then
      assign fun s => { s with partialAtBytes := s.audio.length }
      let task ← Coro.createTask (S := signature) (.emitPartialTranscript websocket s.audio "cs")
      assign fun s => { s with partialTask := some task }

def endTurn (websocket : ℕ) (payload : List (String × Json)) : Co Unit := do
  emit none websocket "turn.ended" payload
  let ackFor ← uuid4 app
  finalizeAudioTurn websocket "cs" ackFor

def receiveAudio (websocket : ℕ) (data : List UInt8) : Co Unit := do
  let s ← state
  if s.paused = true ∨ s.conversationId = none then pure ()
  else match decodeAudioPacket data with
    | .error message => do
      emit none websocket "error" [("code", .str "invalid_audio_frame"), ("message", .str message)]
    | .ok packet => do
      let frameSequence := ("frame_sequence", Json.int packet.sequence)
      if packet.sequence ≤ s.lastAudioSequence then
        emit none websocket "audio.ack" [frameSequence, ("duplicate", .bool true)]
      else if packet.sequence ≠ s.lastAudioSequence + 1 ∨
          packet.capturedMs.le s.lastAudioCaptureMs = true then
        assign fun s => { s with paused := true }
        emit none websocket "flow_control"
          [("level", .str "hard"), ("reason", .str "audio_sequence_gap"),
           ("expected_frame_sequence", .int (s.lastAudioSequence + 1))]
      else if maxTurnBytes < s.audio.length + packet.pcm.length then
        assign (acceptFrame packet)
        endTurn app websocket
          [frameSequence, ("reason", .str "maximum_duration"),
           ("message", .str "Hlasová replika dosáhla maximální délky 120 sekund.")]
      else
        assign fun s => { acceptFrame packet s with audio := s.audio ++ packet.pcm }
        let activity := (s.vad.process packet.pcm).2
        assign fun s => { s with vad := (s.vad.process packet.pcm).1 }
        if activity.started then
          emit none websocket "turn.started" [frameSequence, ("level", app.renderLevel activity.levelSquared)]
        startPartialTranscript websocket
        if packet.sequence % flowControlAckFrames = 0 then
          emit none websocket "audio.ack" [frameSequence, ("captured_ms", app.renderMs packet.capturedMs)]
        if activity.ended then
          endTurn app websocket [frameSequence, ("reason", .str "server_vad")]

/-! ### Sessions -/

/-- The validation of `ConversationStart`. -/
def conversationStart (language : String) (continuationOfId : Option Uuid) : Except String ConversationStart :=
  if 2 ≤ language.length ∧ language.length ≤ 16 then
    .ok { inputMode := .voice, language := language, continuationOfId := continuationOfId }
  else .error "ValidationError"

/-- `UUID(str(continuation)) if continuation else None`. -/
def continuationOf (continuation : Json) : Except String (Option Uuid) :=
  if continuation.truthy then
    match app.parseUuid (pyStr app continuation) with
    | some id => .ok (some id)
    | none => .error "ValueError"
  else .ok none

def startSession (websocket : ℕ) (envelope : ClientEnvelope) : Co Unit := do
  assign fun s => { s with language := pyStr app (envelope.payload.getD "language" (.str "cs")) }
  let continuation := envelope.payload.getD "continuation_of_id" .null
  inSession do
    let setting ← Coro.perform (S := signature) (.setting "voice" "endpoint_silence_ms" (.int 900))
    let endpointSilenceMs ← ofExcept (app.pyInt setting)
    match voiceActivityDetector endpointSilenceMs with
    | none => raising (.other "ValueError")
    | some detector => assign fun s => { s with vad := detector }
    let s ← state
    let continuationOfId ← ofExcept (continuationOf app continuation)
    let request ← ofExcept (conversationStart s.language continuationOfId)
    let id ← Coro.perform (S := signature) (.startConversation s.accountId request envelope.eventId)
    assign fun s => { s with conversationId := some id }
  emit none websocket "session.started" [("state", .str "listening")] (some envelope.eventId)

/-- What `session.end` resets. -/
def resetSession (s : ConnectionState) : ConnectionState :=
  { s with
    conversationId := none, audio := [], vad := s.vad.reset, lastClientSequence := 0
    lastAudioSequence := 0, lastAudioCaptureMs := .minusOne, partialText := "", partialAtBytes := 0
    generation := 1, sequence := 0 }

def endSession (websocket : ℕ) (envelope : ClientEnvelope) : Co Unit := do
  cancelAssistantTask
  let s ← state
  match s.conversationId with
  | none => pure ()
  | some id => inSession (Coro.perform (S := signature)
      (.endConversation s.accountId id "user_ended" (some envelope.eventId)))
  emit none websocket "session.ended" [("state", .str "ended")] (some envelope.eventId)
  assign resetSession
  let s ← state
  emit none websocket "connection.ready"
    [("resume_supported", .bool true), ("resume_available", .bool false),
     ("generation", .int s.generation), ("last_client_sequence", .int s.lastClientSequence)]

/-- What an accepted `session.resume` resets. -/
def resumeTurn (s : ConnectionState) : ConnectionState :=
  { s with audio := [], vad := s.vad.reset, turnFinalizing := false, partialAtBytes := 0, paused := false }

/-- The resumption is refused. -/
def resyncRequired (websocket : ℕ) (payload : List (String × Json)) (ackFor : Uuid) : Co Unit :=
  emit none websocket "resync.required" payload (some ackFor)

/-- The cursor is one of the events that have been numbered. -/
def validCursor (cursor : Option ℤ) (s : ConnectionState) : Bool := cursor.any fun c => c ≤ (s.sequence : ℤ)

def resumeSession (websocket : ℕ) (envelope : ClientEnvelope) : Co Unit := do
  let o ← Coro.objects
  let s := Objects.state o
  if Objects.resumeAvailable o = false ∨ s.conversationId = none then
    resyncRequired websocket [("reason", .str "resume_unavailable")] envelope.eventId
  else if validCursor envelope.resumeCursor s = false then
    resyncRequired websocket
      [("reason", .str "invalid_resume_cursor"), ("server_sequence", .int s.sequence)] envelope.eventId
  else
    assign resumeTurn
    emit none websocket "session.resumed"
      [("state", .str "listening"), ("generation", .int s.generation),
       ("partial_transcript", .str s.partialText), ("input_incomplete", .bool (s.audio ≠ [])),
       ("last_audio_sequence", .int s.lastAudioSequence)] (some envelope.eventId)
    if s.audio ≠ [] then
      emit none websocket "turn.incomplete"
        [("message", .str "Přerušená hlasová replika nebyla finalizována; zopakujte ji.")]
    Coro.modify (S := signature) fun o : Objects => { o with resumeAvailable := false }

/-- An error event for the client's envelope. -/
def refuse (websocket : ℕ) (type code message : String) (ackFor : Uuid) : Co Unit :=
  emit none websocket type [("code", .str code), ("message", .str message)] (some ackFor)

def endAudioTurn (websocket : ℕ) (envelope : ClientEnvelope) : Co Unit := do
  let s ← state
  if s.turnFinalizing then
    emit none websocket "ack" [("duplicate", .bool true), ("turn_state", .str "finalizing")]
      (some envelope.eventId)
  else if s.conversationId = none ∨ s.audio = [] then
    refuse websocket "error" "audio_empty" "Nebyl přijat žádný zvuk." envelope.eventId
  else finalizeAudioTurn websocket s.language envelope.eventId

def retryAudio (websocket : ℕ) (envelope : ClientEnvelope) : Co Unit := do
  let s ← state
  match s.lastAssistantText.filter fun text => text ≠ "" with
  | some text => replaceAssistantTask (.synthesize websocket text s.language)
  | none => do
    emit none websocket "assistant.audio.error"
      [("code", .str "audio_retry_unavailable"),
       ("message", .str "Hlasovou odpověď již nelze bezpečně zopakovat."), ("text_available", .bool true)]
      (some envelope.eventId)

/-- An accepted envelope. -/
def handleEnvelope (websocket : ℕ) (envelope : ClientEnvelope) : Co Unit := do
  match envelope.type with
  | .ping => emit none websocket "pong" [] (some envelope.eventId)
  | .sessionStart => do
    let o ← Coro.objects
    if Objects.resumeAvailable o then
      refuse websocket "error" "resume_required" "Rozpracovaná relace vyžaduje bezpečné obnovení."
        envelope.eventId
    else startSession app websocket envelope
  | .sessionResume => resumeSession websocket envelope
  | .microphonePause => do
    assign fun s => { s with paused := true, audio := [], vad := s.vad.reset }
    emit none websocket "state.changed" [("state", .str "paused")] (some envelope.eventId)
  | .microphoneResume => do
    assign fun s => { s with paused := false }
    emit none websocket "state.changed" [("state", .str "listening")] (some envelope.eventId)
  | .turnText => do
    let s ← state
    if s.conversationId = none then
      refuse websocket "error" "session_required" "Nejprve zahajte rozhovor." envelope.eventId
    else replaceAssistantTask (.processTextTurn websocket
      (pyStr app (envelope.payload.getD "text" (.str ""))) (app.strUuid envelope.eventId) envelope.eventId)
  | .turnAudioEnd => endAudioTurn websocket envelope
  | .assistantInterrupt => do
    cancelAssistantTask
    emit none websocket "assistant.interrupted" [("state", .str "listening")] (some envelope.eventId)
  | .assistantAudioRetry => retryAudio websocket envelope
  | .sessionEnd => endSession websocket envelope
  | .ack => emit none websocket "ack" [] (some envelope.eventId)

/-! ### Reading the socket -/

/-- What is read from a socket: a text is given by the envelope that it is validated to. -/
inductive Message where
  | bytes (data : List UInt8)
  | text (envelope : Option ClientEnvelope)
  | other

/-- One round of the loop. -/
def receive (websocket : ℕ) : Message → Co Unit
  | .bytes data => receiveAudio app websocket data
  | .other => pure ()
  | .text none => emit none websocket "error"
      [("code", .str "invalid_event"), ("message", .str "Událost neodpovídá realtime kontraktu.")]
  | .text (some envelope) => do
    let s ← state
    if envelope.sequence ≤ s.lastClientSequence then
      emit none websocket "ack" [("duplicate", .bool true)] (some envelope.eventId)
    else if envelope.sequence ≠ s.lastClientSequence + 1 then
      resyncRequired websocket
        [("expected_sequence", .int (s.lastClientSequence + 1)), ("received_sequence", .int envelope.sequence)]
        envelope.eventId
    else
      assign fun s => { s with lastClientSequence := envelope.sequence }
      handleEnvelope app websocket envelope

/-- The loop is left by an exception: a session is kept for a while. -/
def suspend : Co Unit := do
  Coro.modify (S := signature) fun o : Objects => { o with opened := false }
  assign fun s => { s with connected := false }
  cancelPartialTask
  let s ← state
  match s.conversationId with
  | none => pure ()
  | some id =>
    assign fun s => { s with paused := true }
    Coro.modify (S := signature) fun o : Objects => { o with registered := some id }
    let task ← Coro.createTask (S := signature) .expireSuspendedSession
    assign fun s => { s with expirationTask := some task }

def expireSuspendedSession : Co Unit := do
  Coro.perform (S := signature) .sleep
  let o ← Coro.objects
  match (Objects.state o).conversationId with
  | none => pure ()
  | some id =>
    if Objects.registered o = some id then
      Coro.modify (S := signature) fun o : Objects => { o with registered := none }
      let s ← state
      inSession (Coro.perform (S := signature) (.endConversation s.accountId id "connection_lost" none))
      assign fun s => { s with conversationId := none, audio := [], vad := s.vad.reset }

/-- `connection.ready` of a socket that has been accepted. -/
def ready (websocket : ℕ) : Co Unit := do
  let o ← Coro.objects
  let s := Objects.state o
  emit none websocket "connection.ready"
    [("audio", .obj [("format", .str "pcm_s16le"), ("sample_rate", .int 24000), ("channels", .int 1),
        ("frame_ms", .int 20)]),
     ("resume_supported", .bool true), ("resume_available", .bool (Objects.resumeAvailable o)),
     ("generation", .int s.generation), ("last_client_sequence", .int s.lastClientSequence)]

/-- The state of a suspended session is taken over by a new socket. -/
def takeOver (generation : ℕ) (o : Objects) : Objects :=
  { o with
    state := { o.state with
      generation := generation, sendLock := o.nextLock, expirationTask := none, paused := true
      connected := true }
    nextLock := o.nextLock + 1, resumeAvailable := true, websocket := o.websocket + 1, opened := true }

/-- A new socket of an account asks for the suspended session with `generation=…`; `none` is a
`ValueError` of `int`. -/
def reconnect (accountId : Uuid) (generation : Option ℤ) : Co Unit := do
  let o ← Coro.objects
  match Objects.registered o, generation with
  | none, _ => pure ()
  | some _, none => Coro.modify (S := signature) fun o : Objects => { o with registered := none }
  | some _, some requested => do
    Coro.modify (S := signature) fun o : Objects => { o with registered := none }
    let s ← state
    if s.accountId = accountId ∧ requested = s.generation + 1 then
      match s.expirationTask with
      | none => pure ()
      | some task => do
        Coro.cancel (S := signature) task
        joinSuppressed task
      Coro.modify (S := signature) (takeOver requested.toNat)
      let o ← Coro.objects
      ready (Objects.websocket o)
    else Coro.modify (S := signature) fun o : Objects => { o with registered := s.conversationId }

inductive Input where
  /-- The socket of a new session is accepted. -/
  | accept
  | message (m : Message)
  /-- `receive` raises. -/
  | disconnect
  | reconnect (accountId : Uuid) (generation : Option ℤ)

/-- `handle_realtime`, at one input. -/
def main : Input → Co Unit
  | .accept => do
    let o ← Coro.objects
    if Objects.websocket o = 0 then
      Coro.modify (S := signature) fun o : Objects => { o with websocket := 1, opened := true }
      ready 1
  | .message m => do
    let o ← Coro.objects
    if Objects.opened o then
      try receive app (Objects.websocket o) m
      catch e =>
        match e with
        | .cancelled => throw e
        | .exc _ => suspend
  | .disconnect => do
    let o ← Coro.objects
    if Objects.opened o then suspend
  | .reconnect accountId generation => reconnect accountId generation

/-- The coroutine of a task. -/
def body (n : ℕ) : Job → Co Unit
  | .processAudioTurn websocket audio language ackFor =>
    processAudioTurn app (some n) websocket audio language ackFor
  | .processTextTurn websocket text idempotencyKey ackFor =>
    processTextTurn app (some n) websocket text idempotencyKey ackFor
  | .synthesize websocket text language => synthesize (some n) websocket text language
  | .emitPartialTranscript websocket audio language =>
    emitPartialTranscript (some n) websocket audio language
  | .expireSuspendedSession => expireSuspendedSession

/-! ### The sockets -/

/-- A message in flight is taken or refused. -/
inductive Move where
  | deliver (id : ℕ)
  | refuse (id : ℕ) (refusal : Refusal)

/-- What becomes of a message in flight. -/
def move : Move → Objects → Option Objects
  | .deliver id, o => (o.wire.inFlight.find? fun f => f.id = id).map fun f =>
    { withdraw id o with wire := { (withdraw id o).wire with sent := o.wire.sent ++ [f] } }
  | .refuse id refusal, o => (o.wire.inFlight.find? fun f => f.id = id).map fun _ =>
    { withdraw id o with wire := { (withdraw id o).wire with
        refused := o.wire.refused ++ [(id, refusal)] } }

/-- The realtime server, as far as one session is concerned. -/
def server : Program signature where
  Input := Input
  main := main app
  body := body app
  Move := Move
  move := move

end

end KajovoDagmar.Realtime
