import KajovoDagmar.Library.Json

/-! # Values shared by the services

Identifiers, points in time and the enumerations that the services store in the database.  A
`DateTime` is a Python `datetime`: a wall clock reading in microseconds and the UTC offset, or
no offset for a naive one. -/

namespace KajovoDagmar

/-- A UUID, as its 128-bit integer. -/
abbrev Uuid := ℕ

/-- A Python `datetime`: wall clock in microseconds, and the UTC offset in microseconds unless
it is naive. -/
structure DateTime where
  wall : ℤ
  utcoffset : Option ℤ
deriving DecidableEq, Repr, Inhabited

namespace DateTime

/-- The aware datetime of an instant, in UTC. -/
def utc (instant : ℤ) : DateTime := ⟨instant, some 0⟩

/-- The instant of an aware datetime. -/
def instant? (d : DateTime) : Option ℤ := d.utcoffset.map fun o => d.wall - o

/-- `a == b`: aware datetimes are compared as instants, a naive one never equals an aware
one. -/
def eqPy (a b : DateTime) : Bool :=
  match a.instant?, b.instant? with
  | some x, some y => x == y
  | none, none => a.wall == b.wall
  | _, _ => false

/-- `a < b`, or `none` for the `TypeError` of comparing a naive with an aware datetime. -/
def lt? (a b : DateTime) : Option Bool :=
  match a.instant?, b.instant? with
  | some x, some y => some (decide (x < y))
  | none, none => some (decide (a.wall < b.wall))
  | _, _ => none

def addMicros (d : DateTime) (n : ℤ) : DateTime := { d with wall := d.wall + n }

def minutes (n : ℤ) : ℤ := n * 60 * 1000000

def days (n : ℤ) : ℤ := n * 24 * 60 * 60 * 1000000

/-- `a <= b` for two aware datetimes. -/
def le (a b : DateTime) : Bool := decide (a.wall - a.utcoffset.getD 0 ≤ b.wall - b.utcoffset.getD 0)

/-- `a < b` for two aware datetimes. -/
def before (a b : DateTime) : Bool := decide (a.wall - a.utcoffset.getD 0 < b.wall - b.utcoffset.getD 0)

end DateTime

/-! ### Enumerations -/

/-- The five states of a conversation. -/
inductive ConversationState where
  | active | completed | interrupted | recovered | deleted
deriving DecidableEq, Repr, Inhabited

def ConversationState.text : ConversationState → String
  | active => "active"
  | completed => "completed"
  | interrupted => "interrupted"
  | recovered => "recovered"
  | deleted => "deleted"

inductive MemoryState where
  | pending | active | outdated | merged | deleted
deriving DecidableEq, Repr, Inhabited

def MemoryState.text : MemoryState → String
  | pending => "pending_confirmation"
  | active => "active"
  | outdated => "outdated"
  | merged => "merged"
  | deleted => "deleted"

inductive MemoryCategory where
  | personalFact | preference | rule | decision | commitment | event | note | other
deriving DecidableEq, Repr, Inhabited

namespace MemoryCategory

def text : MemoryCategory → String
  | personalFact => "personal_fact"
  | preference => "preference"
  | rule => "rule"
  | decision => "decision"
  | commitment => "commitment"
  | event => "event"
  | note => "note"
  | other => "other"

def all : List MemoryCategory :=
  [personalFact, preference, rule, decision, commitment, event, note, other]

def ofText? (s : String) : Option MemoryCategory := all.find? fun c => c.text = s

end MemoryCategory

inductive OriginType where
  | explicitCommand | manual | assistantSuggestion
deriving DecidableEq, Repr, Inhabited

namespace OriginType

def text : OriginType → String
  | explicitCommand => "explicit_command"
  | manual => "manual"
  | assistantSuggestion => "assistant_suggestion"

def all : List OriginType := [explicitCommand, manual, assistantSuggestion]

def ofText? (s : String) : Option OriginType := all.find? fun o => o.text = s

end OriginType

inductive MessageRole where
  | user | assistant
deriving DecidableEq, Repr, Inhabited

def MessageRole.text : MessageRole → String
  | user => "user"
  | assistant => "assistant"

inductive InputMode where
  | voice | text | generated
deriving DecidableEq, Repr, Inhabited

def InputMode.name : InputMode → String
  | voice => "voice"
  | text => "text"
  | generated => "generated"

/-- Who wrote a title or a summary. -/
inductive TextSource where
  | automatic | manual | system
deriving DecidableEq, Repr, Inhabited

/-- The states of an orchestration run. -/
inductive RunState where
  | running | awaitingConfirmation | completed | failed | cancelled
deriving DecidableEq, Repr, Inhabited

/-- The states of a tool action. -/
inductive ActionState where
  | pendingConfirmation | running | completed | failed | expired | cancelled
deriving DecidableEq, Repr, Inhabited

/-- `state.not_in(["completed", "failed", "expired", "cancelled"])`, negated. -/
def ActionState.Finished : ActionState → Prop
  | completed | failed | expired | cancelled => True
  | pendingConfirmation | running => False

instance : DecidablePred ActionState.Finished
  | .completed | .failed | .expired | .cancelled => isTrue trivial
  | .pendingConfirmation | .running => isFalse id

end KajovoDagmar
