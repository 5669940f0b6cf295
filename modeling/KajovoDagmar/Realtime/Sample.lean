import KajovoDagmar.Db.Sample
import KajovoDagmar.Realtime.WebSocket

/-! # A sample connection

The events with which a session of account 1 begins, as the examples of the realtime modules use
them. -/

namespace KajovoDagmar.Realtime

open Asyncio Protocol

def sampleApp : App where
  toRuntime := .sample 1767268800000000 []
  renderMs _ := .float "0.0"
  renderLevel _ := .float "0.0"

def sampleAnswer : AssistantAnswer where
  messageId := 5
  runId := 6
  content := "Dobrý den."
  intent := "conversation"
  sources := .arr []
  memoryProposal := .null
  actions := .arr []

/-- Every call succeeds. -/
def sampleReply : (o : Op) → Except Exc o.Answer
  | .setting _ _ fallback => .ok fallback
  | .startConversation .. => .ok (2 : Uuid)
  | .endConversation .. => .ok ()
  | .addUserTurn .. => .ok (3 : Uuid)
  | .answer .. => .ok sampleAnswer
  | .transcribe .. => .ok "Dobrý den"
  | .voice => .ok ()
  | .speak .. => .ok { chunks := [[0, 0]] }
  | .nextChunk => .ok ()
  | .commit => .ok ()
  | .rollback => .ok ()
  | .sleep => .ok ()

namespace Sample

def envelope (type : ClientType) (n : ℕ) (payload : Json := .obj []) : ClientEnvelope :=
  { eventId := 100 + n, sequence := n + 1, type := type, payload := payload, sequence_pos := Nat.succ_pos n }

/-- The next envelope or frame. -/
def text (type : ClientType) (n : ℕ) : Event (server sampleApp) := .input (.message (.text (some (envelope type n))))

/-- A frame of silence. -/
def frame (n : ℕ) (time : Binary64) : Event (server sampleApp) :=
  .input (.message (.bytes (layout n time (List.replicate frameBytes 0))))

/-- A coroutine goes on. -/
def go (who : Option ℕ := none) : Event (server sampleApp) := .resume who sampleReply

/-- The socket has taken a message. -/
def taken (id : ℕ) : Event (server sampleApp) := .move (.deliver id)

/-- The socket is accepted and a conversation is started; two texts have been taken. -/
def opening : List (Event (server sampleApp)) :=
  [.input .accept, taken 0, go, text .sessionStart 0, go, go, go, taken 1, go]

end Sample

end KajovoDagmar.Realtime
