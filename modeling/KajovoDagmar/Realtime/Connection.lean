import KajovoDagmar.Conversations.Service
import KajovoDagmar.Library.Asyncio
import KajovoDagmar.Realtime.Protocol
import KajovoDagmar.Realtime.Vad

/-! # A realtime connection

The state that a realtime session keeps from one socket to the next, and the two ways of sending
to a socket.  The state is shared by the coroutine that reads the socket (`none`) and by the tasks
that it creates, which are numbered.  A text is in flight from the call of `send_text` until the
socket has taken it or refused it. -/

namespace KajovoDagmar.Realtime

open Asyncio

/-! ### Envelopes -/

inductive ClientType where
  | sessionStart | sessionResume | microphonePause | microphoneResume | turnAudioEnd | turnText
  | assistantInterrupt | assistantAudioRetry | sessionEnd | ack | ping
deriving DecidableEq

/-- `ClientEnvelope`, as `CLIENT_ADAPTER` accepts it. -/
structure ClientEnvelope where
  eventId : Uuid
  sequence : ℕ
  type : ClientType
  payload : Json := .obj []
  resumeCursor : Option ℤ := none
  sequence_pos : 1 ≤ sequence

structure ServerEnvelope where
  sequence : ℕ
  type : String
  conversationId : Option Uuid
  payload : Json
  ackFor : Option Uuid

/-- What is sent over a socket: an envelope as text, or a piece of speech. -/
inductive ServerMessage where
  | text (envelope : ServerEnvelope)
  | bytes (data : List UInt8)

/-- The number of a text. -/
def ServerMessage.sequence? : ServerMessage → Option ℕ
  | text envelope => some envelope.sequence
  | bytes _ => none

/-! ### The state of a session -/

structure ConnectionState where
  accountId : Uuid
  sequence : ℕ := 0
  lastClientSequence : ℕ := 0
  conversationId : Option Uuid := none
  paused : Bool := false
  audio : List UInt8 := []
  /-- Which of the locks it is. -/
  sendLock : ℕ := 0
  assistantTask : Option ℕ := none
  partialTask : Option ℕ := none
  partialText : String := ""
  partialAtBytes : ℕ := 0
  generation : ℕ := 1
  lastAudioSequence : ℕ := 0
  lastAudioCaptureMs : Binary64 := .minusOne
  turnFinalizing : Bool := false
  vad : Vad.Detector
  expirationTask : Option ℕ := none
  connected : Bool := true
  lastAssistantText : Option String := none
  language : String := "cs"

/-- `VoiceActivityDetector()`. -/
def defaultDetector : Vad.Detector := { config := ⟨600, 3, 900, by decide, by decide, by decide⟩ }

/-- `ConnectionState(account_id)`. -/
def ConnectionState.new (accountId : Uuid) : ConnectionState := { accountId := accountId, vad := defaultDetector }

/-- A message on its way to a socket, with the coroutine that has sent it. -/
structure Flight where
  id : ℕ
  owner : Option ℕ
  websocket : ℕ
  message : ServerMessage

/-- Why a socket does not take a message. -/
inductive Refusal where
  | webSocketDisconnect | runtimeError | osError

def Refusal.exc : Refusal → Exc
  | webSocketDisconnect => .other "WebSocketDisconnect"
  | runtimeError => .other "RuntimeError"
  | osError => .other "OSError"

/-- What has been given to the sockets, taken by them and refused. -/
structure Wire where
  next : ℕ := 0
  inFlight : List Flight := []
  sent : List Flight := []
  refused : List (ℕ × Refusal) := []

def Wire.flying (w : Wire) (id : ℕ) : Bool := w.inFlight.any fun f => f.id = id

/-- A session with the coroutine that reads its present socket. -/
structure Objects where
  state : ConnectionState
  /-- The local variable `resume_available` of `handle_realtime`. -/
  resumeAvailable : Bool := false
  /-- The present socket, whose messages are read while it is open. -/
  websocket : ℕ := 0
  opened : Bool := false
  /-- The conversation under which the state is in `app.state.realtime_sessions`. -/
  registered : Option Uuid := none
  /-- Who holds which lock. -/
  locks : ℕ → Option (Option ℕ) := fun _ => none
  nextLock : ℕ := 1
  wire : Wire := {}
  /-- How many identifiers have been drawn. -/
  tick : ℕ := 0

/-! ### Coroutines -/

inductive Raised where
  | cancelled
  | exc (e : Exc)

/-- What `OrchestrationService.answer` returns, as far as it is sent. -/
structure AssistantAnswer where
  messageId : Uuid
  runId : Uuid
  content : String
  intent : String
  sources : Json
  memoryProposal : Json
  actions : Json

/-- The pieces of speech that a provider yields, and the exception that ends them. -/
structure Speech where
  chunks : List (List UInt8)
  failure : Option Exc := none

/-- Calls of the services and of the database. -/
inductive Op where
  | setting (area key : String) (fallback : Json)
  | startConversation (accountId : Uuid) (request : ConversationStart) (eventId : Uuid)
  | endConversation (accountId conversationId : Uuid) (reason : String) (correlation : Option Uuid)
  /-- The validation of the turn and `ConversationService.add_user_turn`. -/
  | addUserTurn (accountId : Uuid) (conversationId : Option Uuid) (key text : String) (mode : InputMode)
      (language : String)
  | answer (accountId : Uuid) (conversationId : Option Uuid) (messageId : Uuid)
  | transcribe (audio : List UInt8) (language : String)
  | voice
  | speak (text language : String)
  | nextChunk
  | commit
  | rollback
  | sleep

def Op.Answer : Op → Type
  | setting .. => Json
  | startConversation .. => Uuid
  | endConversation .. => Unit
  | addUserTurn .. => Uuid
  | answer .. => AssistantAnswer
  | transcribe .. => String
  | voice => Unit
  | speak .. => Speech
  | nextChunk => Unit
  | commit => Unit
  | rollback => Unit
  | sleep => Unit

/-- What is run as a task. -/
inductive Job where
  | processAudioTurn (websocket : ℕ) (audio : List UInt8) (language : String) (ackFor : Uuid)
  | processTextTurn (websocket : ℕ) (text idempotencyKey : String) (ackFor : Uuid)
  | synthesize (websocket : ℕ) (text language : String)
  | emitPartialTranscript (websocket : ℕ) (audio : List UInt8) (language : String)
  | expireSuspendedSession

abbrev signature : Signature where
  Objects := Objects
  Job := Job
  Exn := Raised
  cancelled := .cancelled
  Failure := Exc
  fail := .exc
  Op := Op
  Answer := Op.Answer

abbrev Co (α : Type) := Coro signature α

/-- The attributes of the session's state. -/
def state : Co ConnectionState := do
  let o ← Coro.objects
  pure o.state

def assign (f : ConnectionState → ConnectionState) : Co Unit :=
  Coro.modify (S := signature) fun o : Objects => { o with state := f o.state }

def raising {α : Type} (e : Exc) : Co α := throw (.exc e)

/-! ### Sending -/

/-- The lock is free. -/
def free (lock : ℕ) (m : Memory signature) : Bool := (Objects.locks m.objects lock).isNone

/-- `async with lock`, at its begin: a free lock is taken at once. -/
def acquire (self : Option ℕ) (lock : ℕ) : Co Unit := do
  let o ← Coro.objects
  if (Objects.locks o lock).isSome then
    Coro.waitFor (S := signature) (free lock)
  Coro.modify (S := signature) fun o : Objects =>
    { o with locks := Function.update o.locks lock (some self) }

def release (lock : ℕ) : Co Unit :=
  Coro.modify (S := signature) fun o : Objects => { o with locks := Function.update o.locks lock none }

/-- A message is given to a socket. -/
def launch (self : Option ℕ) (websocket : ℕ) (message : ServerMessage) (o : Objects) : Objects :=
  { o with wire := { o.wire with
      next := o.wire.next + 1
      inFlight := o.wire.inFlight ++ [⟨o.wire.next, self, websocket, message⟩] } }

def withdraw (id : ℕ) (o : Objects) : Objects :=
  { o with wire := { o.wire with inFlight := o.wire.inFlight.filter fun f => f.id ≠ id } }

/-- `websocket.send_text` and `websocket.send_bytes`: they return when the socket has taken the
message, and raise when it refuses it. -/
def sendOver (self : Option ℕ) (websocket : ℕ) (message : ServerMessage) : Co Unit := do
  let o ← Coro.objects
  let id := Wire.next (Objects.wire o)
  Coro.modify (S := signature) (launch self websocket message)
  try Coro.waitFor (S := signature) fun m => !(Objects.wire m.objects).flying id
  catch e =>
    Coro.modify (S := signature) (withdraw id)
    throw e
  let o ← Coro.objects
  match (Wire.refused (Objects.wire o)).find? fun r => r.1 = id with
  | none => pure ()
  | some r => raising r.2.exc

/-- `except (WebSocketDisconnect, RuntimeError, OSError)`. -/
def Raised.disconnects : Raised → Bool
  | exc (.other cls) => cls ∈ ["WebSocketDisconnect", "RuntimeError", "OSError"]
  | _ => false

/-- `send_text` or `send_bytes` within `emit` and `send_audio`. -/
def trySending (self : Option ℕ) (websocket : ℕ) (message : ServerMessage) : Co Unit := do
  try sendOver self websocket message
  catch e =>
    if e.disconnects then assign fun s => { s with connected := false }
    else throw e

/-- `ConnectionState.event`. -/
def event (type : String) (payload : Json) (ackFor : Option Uuid) : Co ServerEnvelope := do
  assign fun s => { s with sequence := s.sequence + 1 }
  let s ← state
  pure { sequence := s.sequence, type := type, conversationId := s.conversationId, payload := payload
         ackFor := ackFor }

def emit (self : Option ℕ) (websocket : ℕ) (type : String) (payload : List (String × Json))
    (ackFor : Option Uuid := none) : Co Unit := do
  let s ← state
  if s.connected then
    acquire self s.sendLock
    try
      let envelope ← event type (.obj payload) ackFor
      trySending self websocket (.text envelope)
    finally
      release s.sendLock

def sendAudio (self : Option ℕ) (websocket : ℕ) (data : List UInt8) : Co Unit := do
  let s ← state
  if s.connected then
    acquire self s.sendLock
    try trySending self websocket (.bytes data)
    finally
      release s.sendLock

end KajovoDagmar.Realtime
