import KajovoDagmar.Audit.Chain
import KajovoDagmar.Library.AppendLog

/-! # Audit events of concurrent transactions

`AuditService.append` and the backup agent's `append_audit` both lock the chain, read the
latest event and insert the next one, each with its own serialisation of the canonical form.
The events table is a log under one lock, so the chain that its committed rows form is
accepted by `verify_chain` after any interleaving. -/

namespace KajovoDagmar

namespace BackupAgent

/-- The canonical form that `append_audit` hashes. -/
def canonical (rt : Runtime) (occurredAt : DateTime) (eventType result : String) (targetId : Uuid)
    (correlationId : Option String) (details : Json) (previousHash : Option String) : String :=
  Json.dumpsSorted (.obj
    [("occurred_at", .str (rt.isoformat occurredAt)),
     ("actor_type", .str "system"),
     ("actor_id", .null),
     ("session_id", .null),
     ("event_type", .str eventType),
     ("target_type", .str "backup_record"),
     ("target_id", .str (rt.strUuid targetId)),
     ("result", .str result),
     ("network_context", .null),
     ("correlation_id", .ofStr? correlationId),
     ("details", details),
     ("previous_hash", .ofStr? previousHash)])

/-- The row that `append_audit` inserts; the columns that it does not name are null. -/
def auditRow (rt : Runtime) (id : ℕ) (occurredAt : DateTime) (eventType result : String)
    (targetId : Uuid) (correlationId : Option String) (details : List (String × Json))
    (previousHash : Option String) : AuditEvent :=
  { id := id
    occurredAt := occurredAt
    actorType := "system"
    actorId := none
    sessionId := none
    eventType := eventType
    targetType := some "backup_record"
    targetId := some targetId
    result := result
    networkContext := none
    correlationId := correlationId
    details := .obj details
    previousHash := previousHash
    eventHash := rt.sha256
      (canonical rt occurredAt eventType result targetId correlationId (.obj details) previousHash) }

end BackupAgent

namespace AuditService

variable (rt : Runtime)

/-- The row that `append` inserts. -/
def appendedRow (id : ℕ) (occurredAt : DateTime) (context : AuditContext) (eventType result : String)
    (targetType : Option String) (targetId : Option Uuid) (details : List (String × Json))
    (previousHash : Option String) : AuditEvent :=
  { id := id
    occurredAt := occurredAt
    actorType := context.actorType
    actorId := context.actorId
    sessionId := context.sessionId
    eventType := eventType
    targetType := targetType
    targetId := targetId
    result := result
    networkContext := context.networkContext
    correlationId := context.correlationId
    details := .obj (sanitize rt details)
    previousHash := previousHash
    eventHash := rt.sha256 (canonical rt occurredAt context eventType result targetType targetId
      (.obj (sanitize rt details)) previousHash) }

/-- `append` of one session inserts this row after the latest one. -/
theorem append_row {context : AuditContext} {eventType result : String} {targetType : Option String}
    {targetId : Option Uuid} {details : List (String × Json)} {s s' : Session} {e : AuditEvent}
    (h : append rt context eventType result targetType targetId details s = (.ok e, s')) :
    e = appendedRow rt ((latest s.db.auditEvents.rows).elim 1 fun b => b.id + 1)
        (.utc (rt.clock s.tick)) context eventType result targetType targetId details
        ((latest s.db.auditEvents.rows).map AuditEvent.eventHash) ∧
      s'.db.auditEvents.rows = s.db.auditEvents.rows ++ [e] := by
  unfold append at h
  rw [Tx.gets_bind_apply] at h
  obtain ⟨occurredAt, s₁, hnow, h⟩ := Tx.bind_eq_ok h
  obtain ⟨hclock, rfl⟩ := Prod.mk.inj hnow
  obtain rfl := Except.ok.inj hclock
  obtain ⟨u, s₂, hadd, h⟩ := Tx.bind_eq_ok h
  obtain ⟨he, rfl⟩ := Prod.mk.inj h
  obtain rfl := Except.ok.inj he
  obtain ⟨t, ht, rfl⟩ := Relation.add_eq_ok hadd
  exact ⟨rfl, (Table.insert?_eq_some (Relation.insertRow_eq_ok ht).1).1⟩

/-- The identifier after the latest one is larger than all. -/
theorem lt_of_latest {events : List AuditEvent} :
    ∀ e ∈ events, e.id < (latest events).elim 1 fun b => b.id + 1 := by
  induction events using List.reverseRecOn with
  | nil => exact fun e he => absurd he List.not_mem_nil
  | append_singleton events last ih =>
      intro e he
      unfold latest at ih ⊢
      rw [List.foldl_append, List.foldl_cons, List.foldl_nil]
      rcases List.mem_append.mp he with hold | hlast
      · have hlt := ih e hold
        rcases hbest : List.foldl _ none events with _ | b
        · rw [hbest] at hlt
          have hzero : e.id < 1 := hlt
          show e.id < last.id + 1
          omega
        · rw [hbest] at hlt
          have hle : e.id < b.id + 1 := hlt
          by_cases hb : b.id < last.id
          · simp only [if_pos hb, Option.elim_some]
            omega
          · simp only [if_neg hb, Option.elim_some]
            exact hle
      · obtain rfl := List.mem_singleton.mp hlast
        rcases hbest : List.foldl _ none events with _ | b
        · exact Nat.lt_succ_self e.id
        · by_cases hb : b.id < e.id
          · simp only [if_pos hb, Option.elim_some]
            omega
          · simp only [if_neg hb, Option.elim_some]
            omega

/-- An event that the driver accepts is appended. -/
theorem append_of_accepted {context : AuditContext} {eventType result : String} {targetType : Option String}
    {targetId : Option Uuid} {details : List (String × Json)} {s : Session}
    (haccepted : ∀ e : AuditEvent, e.actorType = context.actorType → e.networkContext = context.networkContext →
      e.correlationId = context.correlationId → e.eventType = eventType →
      rt.rejectsInsert s.db (.auditEvent e) = none) :
    ∃ e t, append rt context eventType result targetType targetId details s =
      (.ok e, { s with tick := s.tick + 1, db := { s.db with auditEvents := t } }) := by
  let e := appendedRow rt ((latest s.db.auditEvents.rows).elim 1 fun b => b.id + 1) (.utc (rt.clock s.tick))
    context eventType result targetType targetId details ((latest s.db.auditEvents.rows).map AuditEvent.eventHash)
  have hnew : e.id ∉ s.db.auditEvents.rows.map AuditEvent.id := by
    intro hmem
    obtain ⟨x, hx, hid⟩ := List.mem_map.mp hmem
    have hlt : x.id < e.id := lt_of_latest x hx
    omega
  have hinsert : s.db.auditEvents.insert? e = some (s.db.auditEvents.insert e hnew) := dif_neg hnew
  refine ⟨e, s.db.auditEvents.insert e hnew, ?_⟩
  unfold append
  rw [Tx.gets_bind_apply]
  have hnow : utcNow rt s = (.ok (DateTime.utc (rt.clock s.tick)), { s with tick := s.tick + 1 }) := rfl
  rw [Tx.bind_of_ok hnow]
  refine (Tx.bind_of_ok (a := PUnit.unit) ?_).trans rfl
  exact Relation.add_of_accepted (haccepted e rfl rfl rfl rfl) (fun _ _ => rfl) hinsert

end AuditService

/-! ### The two programs that append -/

namespace AuditTransactions

/-- What a transaction appends: an event of the service, or one of the backup agent. -/
inductive Append where
  | service (occurredAt : DateTime) (context : AuditContext) (eventType result : String)
      (targetType : Option String) (targetId : Option Uuid) (details : List (String × Json))
  | backupAgent (occurredAt : DateTime) (eventType result : String) (targetId : Uuid)
      (correlationId : Option String) (details : List (String × Json))

variable (rt : Runtime)

/-- The row with the given number after the latest event. -/
def Append.row : Append → ℕ → Option AuditEvent → AuditEvent
  | service occurredAt context eventType result targetType targetId details, id, latest =>
    AuditService.appendedRow rt id occurredAt context eventType result targetType targetId details
      (latest.map AuditEvent.eventHash)
  | backupAgent occurredAt eventType result targetId correlationId details, id, latest =>
    BackupAgent.auditRow rt id occurredAt eventType result targetId correlationId details
      (latest.map AuditEvent.eventHash)

/-- The audit events as a log of transactions. -/
def log : AppendLog.Scheme AuditEvent Append where
  id := AuditEvent.id
  build := Append.row rt
  id_build r _ _ := by cases r <;> rfl

abbrev State := AppendLog.State AuditEvent Append

def step (s : State) (e : AppendLog.Event Append) : Option State := AppendLog.step (log rt) s e

/-- `order_by(AuditEvent.id)` over the committed events. -/
def inIdOrder (s : State) : List AuditEvent := s.committed.insertionSort fun a b => a.id ≤ b.id

variable {rt}

variable (rt) in
/-- Both serialisations are the canonical form that `verify_chain` recomputes. -/
theorem row_chained (r : Append) (id : ℕ) (latest : Option AuditEvent) :
    (r.row rt id latest).previousHash = latest.map AuditEvent.eventHash ∧
      (r.row rt id latest).eventHash =
        rt.sha256 ((r.row rt id latest).canonical rt (latest.map AuditEvent.eventHash)) := by
  cases r with
  | service occurredAt context eventType result targetType targetId details => exact ⟨rfl, rfl⟩
  | backupAgent occurredAt eventType result targetId correlationId details => exact ⟨rfl, rfl⟩

/-- The row that a transaction of the log reads is the latest event of the service. -/
theorem latestBy_id (events : List AuditEvent) :
    AppendLog.latestBy AuditEvent.id events = AuditService.latest events := by
  unfold AppendLog.latestBy AuditService.latest
  congr 1
  funext best e
  cases best <;> rfl

theorem tip_eq (events : List AuditEvent) :
    (AuditService.chain rt).tip none events = events.getLast?.map AuditEvent.eventHash := by
  unfold HashChain.Scheme.tip
  cases events.getLast? <;> rfl

/-- A row that is built from the last event of a valid chain extends it. -/
theorem chain_append {events : List AuditEvent} (r : Append) (id : ℕ)
    (h : (AuditService.chain rt).Valid none events) :
    (AuditService.chain rt).Valid none (events ++ [r.row rt id events.getLast?]) := by
  obtain ⟨hprevious, hhash⟩ := row_chained rt r id events.getLast?
  refine HashChain.Scheme.valid_concat.mpr ⟨h, ?_, ?_⟩
  · rw [tip_eq]
    exact hprevious
  · rw [tip_eq]
    exact hhash

/-- **The audit chain is always valid**: in every state that interleaved transactions of the
services, the worker and the backup agent reach, `verify_chain` accepts the committed events. -/
theorem chain_valid (rt : Runtime) {es : List (AppendLog.Event Append)} {s : State}
    (hr : Runs.run (step rt) {} es = some s) :
    AuditService.verifyChain rt (inIdOrder s) = (true, none) := by
  have hgood := @AppendLog.good_of_run _ _ (log rt) ((AuditService.chain rt).Valid none)
    (fun rows more h => (HashChain.Scheme.valid_append.mp h).1)
    (fun rows r n h => chain_append r n h) trivial _ _ hr
  have hsorted : inIdOrder s = s.committed := by
    refine List.Pairwise.insertionSort_eq (hgood.2.1.imp fun h => ?_)
    exact Nat.le_of_lt h
  rw [hsorted]
  exact AuditService.verifyFrom_eq_true.mpr hgood.1

/-- The handler of a worker's job appends in its savepoint and fails; the backup agent appends
before the worker records the failure. -/
def failedHandler : List (AppendLog.Event Append) :=
  let audited : Append := .service (.utc 1767225600000000) { actorType := "system" }
    "memory.deleted" "success" none (some 3) [("version", .int 2)]
  let verified : Append := .backupAgent (.utc 1767225601000000) "backup_verify.completed" "success" 5
    (some "request-1") [("label", .str "20260101F")]
  [.begin 1, .act 1 .savepoint, .act 1 (.lock audited), .act 1 .read, .act 1 .insert,
    .begin 2, .act 1 .rollbackTo, .act 2 (.lock verified), .act 2 .read, .act 2 .insert, .commit 2,
    .act 1 (.lock audited), .act 1 .read, .act 1 .insert, .commit 1]

/-- The number of the event that was rolled back is a gap in the committed ones. -/
theorem chain_valid_failedHandler : ∃ s : State,
    Runs.run (step (.sample 0 [])) {} failedHandler = some s ∧ s.committed.map AuditEvent.id = [2, 3] ∧
      AuditService.verifyChain (.sample 0 []) (inIdOrder s) = (true, none) := by
  have hrun : (match Runs.run (step (.sample 0 [])) {} failedHandler with
    | some s => decide (s.committed.map AuditEvent.id = [2, 3])
    | none => false) = true := by decide +kernel
  rcases hs : Runs.run (step (.sample 0 [])) {} failedHandler with _ | s <;>
    simp only [hs] at hrun
  · simp at hrun
  · exact ⟨s, rfl, of_decide_eq_true hrun, chain_valid (.sample 0 []) hs⟩

end AuditTransactions

end KajovoDagmar
