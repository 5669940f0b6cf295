import KajovoDagmar.Db.Session
import KajovoDagmar.Library.PythonText

/-! # The audit chain

`append` writes an audit event whose hash covers its own fields and the hash of the event
before it.  It writes nothing but audit events. -/

namespace KajovoDagmar

structure AuditContext where
  actorType : String
  actorId : Option Uuid := none
  sessionId : Option Uuid := none
  networkContext : Option String := none
  correlationId : Option String := none

namespace AuditService

variable (rt : Runtime)

def forbidden : List String :=
  ["password", "token", "secret", "api_key", "authorization", "content", "transcript"]

mutual

/-- `_sanitize`. -/
def sanitize : List (String × Json) → List (String × Json)
  | [] => []
  | (key, value) :: rest =>
    (key, if forbidden.any (PythonText.contains (rt.casefold key)) then .str "[redacted]"
      else sanitizeValue value) :: sanitize rest

def sanitizeValue : Json → Json
  | .obj kvs => .obj (sanitize kvs)
  | .arr xs => .arr (sanitizeItems xs)
  | .str s => .str (if 500 < s.length then PythonText.take s 500 else s)
  | v => v

/-- The elements of a list: only the dictionaries among them are sanitized. -/
def sanitizeItems : List Json → List Json
  | [] => []
  | .obj kvs :: xs => .obj (sanitize kvs) :: sanitizeItems xs
  | x :: xs => x :: sanitizeItems xs

end

/-- The event with the largest identifier. -/
def latest (events : List AuditEvent) : Option AuditEvent :=
  events.foldl (fun best e => match best with
    | none => some e
    | some b => if b.id < e.id then some e else some b) none

/-- The event that `append` writes, before it is hashed, in canonical form. -/
def canonical (occurredAt : DateTime) (context : AuditContext) (eventType result : String)
    (targetType : Option String) (targetId : Option Uuid) (details : Json)
    (previousHash : Option String) : String :=
  Json.dumpsSorted (.obj
    [("occurred_at", .str (rt.isoformat occurredAt)),
     ("actor_type", .str context.actorType),
     ("actor_id", .ofStr? (context.actorId.map rt.strUuid)),
     ("session_id", .ofStr? (context.sessionId.map rt.strUuid)),
     ("event_type", .str eventType),
     ("target_type", .ofStr? targetType),
     ("target_id", .ofStr? (targetId.map rt.strUuid)),
     ("result", .str result),
     ("network_context", .ofStr? context.networkContext),
     ("correlation_id", .ofStr? context.correlationId),
     ("details", details),
     ("previous_hash", .ofStr? previousHash)])

def append (context : AuditContext) (eventType result : String)
    (targetType : Option String := none) (targetId : Option Uuid := none)
    (details : List (String × Json) := []) : Work AuditEvent := do
  let previous ← Tx.gets fun s => latest s.db.auditEvents.rows
  let previousHash := previous.map AuditEvent.eventHash
  let occurredAt ← utcNow rt
  let safeDetails := Json.obj (sanitize rt details)
  let event : AuditEvent :=
    { id := previous.elim 1 fun e => e.id + 1
      occurredAt := occurredAt
      actorType := context.actorType
      actorId := context.actorId
      sessionId := context.sessionId
      eventType := eventType
      targetType := targetType
      targetId := targetId
      result := result
      networkContext := context.networkContext
      correlationId := context.correlationId
      details := safeDetails
      previousHash := previousHash
      eventHash := rt.sha256
        (canonical rt occurredAt context eventType result targetType targetId safeDetails previousHash) }
  Db.auditEvent.add rt event
  pure event

section frame

variable {rt} {context : AuditContext} {eventType result : String} {targetType : Option String}
  {targetId : Option Uuid} {details : List (String × Json)}

theorem append_keeps {γ : Type} {view : Db → γ}
    (hv : ∀ t db, view (Db.auditEvent.set t db) = view db) :
    Tx.Keeps (Same view) (append rt context eventType result targetType targetId details) := by
  unfold append
  refine (Tx.Keeps.gets _).bind fun previous => ?_
  refine (Same.utcNow rt).bind fun occurredAt => ?_
  exact (Relation.add_keeps hv _).bind fun _ => Tx.Keeps.pure _

theorem append_noDomain :
    NoDomain (append rt context eventType result targetType targetId details) := by
  unfold append
  refine (Tx.RaisesOnly.gets _).bind fun previous => ?_
  refine (utcNow_noDomain rt).bind fun occurredAt => ?_
  exact (Relation.add_noDomain _).bind fun _ => Tx.RaisesOnly.pure _

end frame

end AuditService

end KajovoDagmar
