import KajovoDagmar.Conversations.Outbox
import KajovoDagmar.History.Effects

/-! # The end of conversations

`ConversationService.end` and `HistoryService.restore` both lead out of the states in which a
conversation is open.  `Life` is what a conversation shows of this: its state, the time of its end,
and the number of `conversation.closed` events written for it.  Every operation moves the life of
every conversation by a step of `Life.Step`, except that restoring a conversation which was deleted
before it was ended makes it interrupted although it was never ended. -/

namespace KajovoDagmar

/-- The state and the end of a conversation that exists, and the number of its closings. -/
structure Life where
  status : Option (ConversationState × Option DateTime)
  closings : ℕ

namespace Life

/-- What an operation does to the life of a conversation. -/
inductive Step : Life → Life → Prop
  | same (l : Life) : Step l l
  | start (n : ℕ) : Step ⟨none, n⟩ ⟨some (.active, none), n⟩
  | close (n : ℕ) (ended : Option DateTime) (state : ConversationState) (endedAt : DateTime)
      (h : state = .completed ∨ state = .interrupted) :
      Step ⟨some (.active, ended), n⟩ ⟨some (state, some endedAt), n + 1⟩
  | delete (n : ℕ) (state : ConversationState) (ended : Option DateTime) :
      Step ⟨some (state, ended), n⟩ ⟨some (.deleted, ended), n⟩
  | restore (n : ℕ) (state : ConversationState) (endedAt : DateTime) :
      Step ⟨some (state, some endedAt), n⟩ ⟨some (.completed, some endedAt), n⟩

/-- A conversation is open and has no closing, or it was ended and has one; deletion hides which. -/
inductive Valid : Life → Prop
  | absent : Valid ⟨none, 0⟩
  | opened (state : ConversationState) (h : state = .active ∨ state = .deleted) :
      Valid ⟨some (state, none), 0⟩
  | ended (state : ConversationState) (endedAt : DateTime)
      (h : state = .completed ∨ state = .interrupted ∨ state = .deleted) :
      Valid ⟨some (state, some endedAt), 1⟩

/-- **Step lemma**: every step keeps a life valid. -/
theorem Valid.step {l l' : Life} (h : l.Valid) (hs : Step l l') : l'.Valid := by
  cases hs with
  | same => exact h
  | start n =>
      cases h
      exact .opened .active (.inl rfl)
  | close n ended state endedAt hstate =>
      cases h with
      | opened => exact .ended state endedAt (hstate.imp_right .inl)
      | ended _ _ h => rcases h with h | h | h <;> cases h
  | delete n state ended =>
      cases h with
      | opened => exact .opened .deleted (.inr rfl)
      | ended => exact .ended .deleted _ (.inr (.inr rfl))
  | restore n state endedAt =>
      cases h
      exact .ended .completed endedAt (.inl rfl)

theorem Valid.closed {state : ConversationState} {ended : Option DateTime} {n : ℕ}
    (h : Valid ⟨some (state, ended), n⟩) (hclosed : state = .completed ∨ state = .interrupted) :
    ended ≠ none ∧ n = 1 := by
  cases h with
  | opened _ hopen => rcases hopen with rfl | rfl <;> simp at hclosed
  | ended => exact ⟨Option.some_ne_none _, rfl⟩

theorem Valid.active {state : ConversationState} {ended : Option DateTime} {n : ℕ}
    (h : Valid ⟨some (state, ended), n⟩) (hactive : state = .active) : ended = none ∧ n = 0 := by
  cases h with
  | opened => exact ⟨rfl, rfl⟩
  | ended _ _ hended => rcases hended with rfl | rfl | rfl <;> cases hactive

end Life

namespace ConversationService

/-- The `conversation.closed` events of a conversation. -/
def isClosing (conversationId : Uuid) (e : OutboxEvent) : Bool :=
  e.aggregateType = "conversation" ∧ e.aggregateId = conversationId ∧ e.eventType = "conversation.closed"

def status (db : Db) (conversationId : Uuid) : Option (ConversationState × Option DateTime) :=
  (db.conversations.find? conversationId).map fun c => (c.state, c.endedAt)

def closings (db : Db) (conversationId : Uuid) : ℕ :=
  (db.outboxEvents.select (isClosing conversationId)).length

def lifeOf (db : Db) (conversationId : Uuid) : Life := ⟨status db conversationId, closings db conversationId⟩

/-- The conversations and the events. -/
def lifeRows (db : Db) : Table Conversation.id × Table OutboxEvent.id :=
  (db.conversations, db.outboxEvents)

variable {rt : Runtime}

theorem lifeOf_congr {db db' : Db} (h : lifeRows db' = lifeRows db) (conversationId : Uuid) :
    lifeOf db' conversationId = lifeOf db conversationId := by
  obtain ⟨hconversations, hevents⟩ := Prod.mk.inj h
  rw [lifeOf, status, closings, hconversations, hevents]
  rfl

/-! ### What writes show of a life -/

/-- A stored conversation shows its own state and end; the other lives are as they were. -/
theorem save_life {c updated : Conversation} {s s' : Session} {u : PUnit}
    (h : Db.conversation.save rt updated s = (.ok u, s'))
    (hc : s.db.conversations.find? updated.id = some c) (conversationId : Uuid) :
    lifeOf s'.db conversationId =
      if conversationId = updated.id then
        ⟨some (updated.state, updated.endedAt), closings s.db conversationId⟩
      else lifeOf s.db conversationId := by
  obtain rfl := Relation.save_eq_ok h
  have hrow : lifeOf { s.db with conversations := s.db.conversations.put updated } conversationId =
      ⟨((s.db.conversations.put updated).find? conversationId).map fun c => (c.state, c.endedAt),
        closings s.db conversationId⟩ := rfl
  change lifeOf { s.db with conversations := s.db.conversations.put updated } conversationId = _
  rw [hrow]
  split
  · next hid => rw [hid, Table.find?_put_self hc, Option.map_some]
  · next hid =>
    rw [Table.find?_put_of_ne hid]
    rfl

/-- A published event counts as a closing when it is one. -/
theorem publish_life {aggregateId : Uuid} {eventType : String} {payload : Json} {q : ℤ}
    {s s' : Session} {u : PUnit} (h : publish rt aggregateId eventType payload q s = (.ok u, s'))
    (conversationId : Uuid) : lifeOf s'.db conversationId =
      ⟨status s.db conversationId, closings s.db conversationId +
        if aggregateId = conversationId ∧ eventType = "conversation.closed" then 1 else 0⟩ := by
  obtain ⟨id, s₁, hid, hadd⟩ := Tx.bind_eq_ok h
  obtain ⟨-, rfl⟩ := Prod.mk.inj hid
  rw [Tx.gets_bind_apply] at hadd
  obtain ⟨t, ht, rfl⟩ := Relation.add_eq_ok hadd
  have hrows := (Table.insert?_eq_some (Relation.insertRow_eq_ok ht).1).1
  change Life.mk (status s.db conversationId) (t.rows.filter (isClosing conversationId)).length = _
  rw [hrows, List.filter_append, List.length_append]
  congr 2
  by_cases hclosing : aggregateId = conversationId ∧ eventType = "conversation.closed" <;>
    simp [isClosing, hclosing]

/-- A message is appended without a trace in the lives. -/
theorem appendMessage_life {c updated : Conversation} {message : ConversationMessage} {s s' : Session}
    (h : appendMessage rt c message s = (.ok updated, s'))
    (hc : s.db.conversations.find? c.id = some c) (conversationId : Uuid) :
    lifeOf s'.db conversationId = lifeOf s.db conversationId := by
  obtain ⟨u, s₁, hadd, h₁⟩ := Tx.bind_eq_ok h
  obtain ⟨t, -, rfl⟩ := Relation.add_eq_ok hadd
  obtain ⟨now, s₂, hnow, h₂⟩ := Tx.bind_eq_ok h₁
  obtain ⟨-, rfl⟩ := Prod.mk.inj hnow
  obtain ⟨u', s₃, hsave, h₃⟩ := Tx.bind_eq_ok h₂
  obtain ⟨-, rfl⟩ := Prod.mk.inj h₃
  refine (save_life hsave hc conversationId).trans ?_
  split
  · next hid =>
    have hstatus : status s.db conversationId = some (c.state, c.endedAt) := by
      rw [status, hid]
      exact congrArg (Option.map _) hc
    rw [lifeOf, hstatus]
    rfl
  · rfl

theorem append_lifeRows {context : AuditContext} {eventType result : String}
    {targetType : Option String} {targetId : Option Uuid} {details : List (String × Json)} :
    Tx.Keeps (Same lifeRows) (AuditService.append rt context eventType result targetType targetId details) :=
  AuditService.append_keeps fun _ _ => rfl

/-- A new conversation. -/
theorem add_life {c : Conversation} {s s' : Session} {u : PUnit}
    (h : Db.conversation.add rt c s = (.ok u, s')) (conversationId : Uuid) :
    (conversationId = c.id → status s.db conversationId = none) ∧
    lifeOf s'.db conversationId =
      if conversationId = c.id then ⟨some (c.state, c.endedAt), closings s.db conversationId⟩
      else lifeOf s.db conversationId := by
  obtain ⟨t, ht, rfl⟩ := Relation.add_eq_ok h
  have hinsert := (Relation.insertRow_eq_ok ht).1
  constructor
  · rintro rfl
    have hnone : s.db.conversations.find? c.id = none := by
      rw [Table.find?_eq_none]
      intro x hx hid
      exact (Table.insert?_eq_some hinsert).2 (List.mem_map.mpr ⟨x, hx, hid⟩)
    rw [status, hnone, Option.map_none]
  · change Life.mk ((t.find? conversationId).map fun c => (c.state, c.endedAt))
      (closings s.db conversationId) = _
    split
    · next hid => rw [hid, Table.find?_insert?_self hinsert, Option.map_some]
    · next hid =>
      rw [Table.find?_insert?_of_ne hinsert hid]
      rfl

end ConversationService

/-! ### The operations as steps of every life -/

namespace Closing

open ConversationService HistoryService

variable {rt : Runtime}

/-- An operation on the conversations. -/
inductive Operation where
  | start (accountId : Uuid) (request : ConversationStart)
  | addUserTurn (accountId conversationId : Uuid) (request : UserTurn)
  | addAssistantTurn (conversationId : Uuid) (content idempotencyKey : String) (runId : Uuid)
      (interrupted : Bool)
  | finish (accountId conversationId : Uuid) (reason : String)
  | softDelete (accountId conversationId : Uuid) (expectedVersion retentionDays : ℤ)
  | restore (accountId conversationId : Uuid) (expectedVersion : ℤ)
  | continueFrom (accountId conversationId : Uuid)

/-- A call of an operation in a session of its own. -/
structure Call where
  operation : Operation
  context : AuditContext
  began : DateTime

namespace Call

def work (rt : Runtime) (call : Call) : Work PUnit :=
  match call.operation with
  | .start accountId request => do
    let _ ← ConversationService.start rt accountId request call.context
    pure ⟨⟩
  | .addUserTurn accountId conversationId request => do
    let _ ← addUserTurn rt accountId conversationId request call.context
    pure ⟨⟩
  | .addAssistantTurn conversationId content idempotencyKey runId interrupted => do
    let _ ← addAssistantTurn rt conversationId content idempotencyKey runId interrupted
    pure ⟨⟩
  | .finish accountId conversationId reason => do
    let _ ← finish rt accountId conversationId reason call.context
    pure ⟨⟩
  | .softDelete accountId conversationId expectedVersion retentionDays => do
    let _ ← softDelete rt accountId conversationId expectedVersion retentionDays call.context
    pure ⟨⟩
  | .restore accountId conversationId expectedVersion => do
    let _ ← restore rt accountId conversationId expectedVersion call.context
    pure ⟨⟩
  | .continueFrom accountId conversationId => do
    let _ ← continueFrom rt accountId conversationId call.context
    pure ⟨⟩

/-- The outcome of a call and the session after it. -/
def perform (rt : Runtime) (call : Call) (s : Session) : Except Exc PUnit × Session :=
  Database.session (call.work rt) { s with began := call.began }

end Call

/-- The session after a call. -/
def step (rt : Runtime) (s : Session) (call : Call) : Option Session := some (call.perform rt s).2

/-- The call restores a conversation that was deleted before it was ended. -/
def RestoresOpen (rt : Runtime) (s : Session) (call : Call) : Prop :=
  match call.operation with
  | .restore accountId conversationId expectedVersion =>
    ∃ row ∈ conversation? s.db accountId conversationId, row.version = expectedVersion ∧
      unrestorable row (.utc (rt.clock s.tick)) = false ∧ row.endedAt = none
  | _ => False

instance (rt : Runtime) (s : Session) : DecidablePred (RestoresOpen rt s)
  | ⟨.restore accountId conversationId expectedVersion, _, _⟩ =>
    inferInstanceAs (Decidable (∃ row ∈ conversation? s.db accountId conversationId,
      row.version = expectedVersion ∧ unrestorable row (.utc (rt.clock s.tick)) = false ∧
      row.endedAt = none))
  | ⟨.start _ _, _, _⟩ => isFalse id
  | ⟨.addUserTurn _ _ _, _, _⟩ => isFalse id
  | ⟨.addAssistantTurn _ _ _ _ _, _, _⟩ => isFalse id
  | ⟨.finish _ _ _, _, _⟩ => isFalse id
  | ⟨.softDelete _ _ _ _, _, _⟩ => isFalse id
  | ⟨.continueFrom _ _, _, _⟩ => isFalse id

/-! #### Specifications -/

/-- Every life has made a step. -/
def Steps (db db' : Db) : Prop := ∀ id, (lifeOf db id).Step (lifeOf db' id)

theorem Steps.same {db db' : Db} (h : ∀ id, lifeOf db' id = lifeOf db id) : Steps db db' := by
  intro id
  rw [h id]
  exact .same _

/-- A new active conversation, after which the lives stay as they are. -/
theorem Steps.start {c : Conversation} {s s' : Session} {db : Db} {u : PUnit}
    (h : Db.conversation.add rt c s = (.ok u, s')) (hactive : c.state = .active)
    (hended : c.endedAt = none) (hrest : lifeRows db = lifeRows s'.db) : Steps s.db db := by
  intro id
  obtain ⟨habsent, hlife⟩ := add_life h id
  rw [lifeOf_congr hrest, hlife]
  split
  · next hid =>
    rw [hactive, hended]
    have hnone : lifeOf s.db id = ⟨none, closings s.db id⟩ := by
      rw [lifeOf, habsent hid]
    rw [hnone]
    exact .start _
  · exact .same _

theorem start_steps {accountId : Uuid} {request : ConversationStart} {context : AuditContext}
    {s s' : Session} {c : Conversation}
    (h : ConversationService.start rt accountId request context s = (.ok c, s')) : Steps s.db s'.db := by
  obtain ⟨originals, s₁, horiginals, h₁⟩ := Tx.bind_eq_ok h
  obtain ⟨-, rfl⟩ := Prod.mk.inj horiginals
  obtain ⟨-, h₂⟩ := Tx.raiseIf_bind_eq_ok h₁
  obtain ⟨id, s₃, hid, h₃⟩ := Tx.bind_eq_ok h₂
  obtain ⟨-, rfl⟩ := Prod.mk.inj hid
  rw [Tx.gets_bind_apply] at h₃
  obtain ⟨u, s₄, hadd, h₄⟩ := Tx.bind_eq_ok h₃
  have hrest : Same lifeRows s₄ s' := by
    refine Tx.Keeps.of_apply ?_ h₄
    cases request.continuationOfId with
    | none => exact append_lifeRows.bind fun _ => Tx.Keeps.pure _
    | some source =>
        refine (Same.newUuid rt).bind fun _ => (Relation.add_keeps (fun _ _ => rfl) _).bind fun _ => ?_
        exact append_lifeRows.bind fun _ => Tx.Keeps.pure _
  have hsteps := Steps.start hadd rfl rfl hrest
  exact hsteps

theorem continueFrom_steps {accountId conversationId : Uuid} {context : AuditContext} {s s' : Session}
    {c : Conversation} (h : continueFrom rt accountId conversationId context s = (.ok c, s')) :
    Steps s.db s'.db := by
  obtain ⟨original, s₁, hdetail, h₁⟩ := Tx.bind_eq_ok h
  have hread : Same id s s₁ := (detail_keeps _ _ _).of_apply hdetail
  have hdb : s₁.db = s.db := hread
  obtain ⟨id, s₃, hid, h₃⟩ := Tx.bind_eq_ok h₁
  obtain ⟨-, rfl⟩ := Prod.mk.inj hid
  rw [Tx.gets_bind_apply] at h₃
  obtain ⟨u, s₄, hadd, h₄⟩ := Tx.bind_eq_ok h₃
  have hrest : Same lifeRows s₄ s' := by
    refine Tx.Keeps.of_apply ?_ h₄
    refine (Same.newUuid rt).bind fun _ => (Relation.add_keeps (fun _ _ => rfl) _).bind fun _ => ?_
    exact append_lifeRows.bind fun _ => Tx.Keeps.pure _
  rw [← hdb]
  have hsteps := Steps.start hadd rfl rfl hrest
  exact hsteps

theorem lockConversation_eq_ok {accountId conversationId : Uuid} {c : Conversation} {s s' : Session}
    (h : lockConversation accountId conversationId s = (.ok c, s')) :
    s' = s ∧ conversation? s.db accountId conversationId = some c ∧
      s.db.conversations.find? c.id = some c := by
  rw [lockConversation, Tx.gets_bind_apply] at h
  obtain ⟨hc, rfl⟩ := Tx.orRaise_eq_ok h
  have hfind := (Option.filter_eq_some_iff.mp hc).1
  exact ⟨rfl, hc, by rwa [Table.key_of_find? hfind]⟩

theorem addUserTurn_steps {accountId conversationId : Uuid} {request : UserTurn} {context : AuditContext}
    {s s' : Session} {m : ConversationMessage}
    (h : addUserTurn rt accountId conversationId request context s = (.ok m, s')) : Steps s.db s'.db := by
  obtain ⟨c, s₁, hlock, h₁⟩ := Tx.bind_eq_ok h
  obtain ⟨rfl, -, hc⟩ := lockConversation_eq_ok hlock
  obtain ⟨-, h₂⟩ := Tx.raiseIf_bind_eq_ok h₁
  obtain ⟨existing, s₂, hkey, h₃⟩ := Tx.bind_eq_ok h₂
  obtain rfl := byIdempotencyKey_ok hkey
  cases existing with
  | some message =>
      obtain ⟨-, hpure⟩ := Tx.raiseIf_bind_eq_ok h₃
      obtain ⟨-, rfl⟩ := Prod.mk.inj hpure
      exact .same fun _ => rfl
  | none =>
      change insertUserTurn rt c request context _ = _ at h₃
      rw [insertUserTurn, Tx.gets_bind_apply] at h₃
      obtain ⟨id, s₄, hid, h₄⟩ := Tx.bind_eq_ok h₃
      obtain ⟨-, rfl⟩ := Prod.mk.inj hid
      obtain ⟨now, s₅, hnow, h₅⟩ := Tx.bind_eq_ok h₄
      obtain ⟨-, rfl⟩ := Prod.mk.inj hnow
      obtain ⟨updated, s₆, happend, h₆⟩ := Tx.bind_eq_ok h₅
      obtain ⟨u, s₇, hpublish, h₇⟩ := Tx.bind_eq_ok h₆
      have hrest : Same lifeRows s₇ s' := (append_lifeRows.bind fun _ => Tx.Keeps.pure _).of_apply h₇
      refine .same fun id => ?_
      rw [lifeOf_congr hrest, publish_life hpublish id, if_neg (by simp), Nat.add_zero]
      have happended := appendMessage_life happend hc id
      exact happended

theorem addAssistantTurn_steps {conversationId : Uuid} {content idempotencyKey : String} {runId : Uuid}
    {interrupted : Bool} {s s' : Session} {m : ConversationMessage}
    (h : addAssistantTurn rt conversationId content idempotencyKey runId interrupted s = (.ok m, s')) :
    Steps s.db s'.db := by
  rw [addAssistantTurn, Relation.find, Tx.gets_bind_apply] at h
  obtain ⟨c, hc, h₁⟩ := Tx.orRaise_bind_eq_ok h
  obtain ⟨existing, s₂, hkey, h₂⟩ := Tx.bind_eq_ok h₁
  obtain rfl := byIdempotencyKey_ok hkey
  cases existing with
  | some message =>
      obtain ⟨-, rfl⟩ := Prod.mk.inj h₂
      exact .same fun _ => rfl
  | none =>
      change (Tx.gets _ >>= _) _ = _ at h₂
      rw [Tx.gets_bind_apply] at h₂
      obtain ⟨id, s₃, hid, h₃⟩ := Tx.bind_eq_ok h₂
      obtain ⟨-, rfl⟩ := Prod.mk.inj hid
      obtain ⟨now, s₄, hnow, h₄⟩ := Tx.bind_eq_ok h₃
      obtain ⟨-, rfl⟩ := Prod.mk.inj hnow
      obtain ⟨updated, s₅, happend, h₅⟩ := Tx.bind_eq_ok h₄
      obtain ⟨-, rfl⟩ := Prod.mk.inj h₅
      have hrow : (Db.conversation.get s₂.db).find? c.id = some c := by
        rw [Table.key_of_find? hc]
        exact hc
      have happended := appendMessage_life happend hrow
      exact .same happended

/-- The end of an active conversation closes its life. -/
theorem close_steps {row : Conversation} {reason : String} {context : AuditContext} {s s' : Session}
    {c : Conversation} (hrow : s.db.conversations.find? row.id = some row) (hactive : row.state = .active)
    (h : close rt row reason context s = (.ok c, s')) : Steps s.db s'.db := by
  obtain ⟨endedAt, s₁, hnow, h₁⟩ := Tx.bind_eq_ok h
  obtain ⟨-, rfl⟩ := Prod.mk.inj hnow
  obtain ⟨lastActivityAt, s₂, hnow', h₂⟩ := Tx.bind_eq_ok h₁
  obtain ⟨-, rfl⟩ := Prod.mk.inj hnow'
  obtain ⟨u, s₃, hsave, h₃⟩ := Tx.bind_eq_ok h₂
  obtain ⟨u', s₄, hpublish, h₄⟩ := Tx.bind_eq_ok h₃
  have hrest : Same lifeRows s₄ s' := (append_lifeRows.bind fun _ => Tx.Keeps.pure _).of_apply h₄
  intro id
  have hsaved := save_life hsave hrow id
  rw [lifeOf_congr hrest, publish_life hpublish id]
  by_cases hid : id = row.id
  · rw [if_pos hid] at hsaved
    obtain ⟨hstatus, hclosings⟩ := Life.mk.inj hsaved
    have hbefore : lifeOf s.db id = ⟨some (.active, row.endedAt), closings s.db id⟩ := by
      rw [lifeOf, status, hid]
      rw [hrow, Option.map_some, hactive]
    have hone : (if row.id = id ∧ "conversation.closed" = "conversation.closed" then 1 else 0) = 1 :=
      if_pos ⟨hid.symm, rfl⟩
    rw [hstatus, hclosings, hone, hbefore]
    refine .close _ _ _ _ ?_
    by_cases hreason : reason = "user_ended"
    · exact .inl (if_pos hreason)
    · exact .inr (if_neg hreason)
  · rw [if_neg hid] at hsaved
    obtain ⟨hstatus, hclosings⟩ := Life.mk.inj hsaved
    rw [hstatus, hclosings, if_neg (fun hne => hid hne.1.symm), Nat.add_zero]
    exact .same _

theorem finish_steps {accountId conversationId : Uuid} {reason : String} {context : AuditContext}
    {s s' : Session} {c : Conversation}
    (h : finish rt accountId conversationId reason context s = (.ok c, s')) : Steps s.db s'.db := by
  obtain ⟨row, s₁, hlock, h₁⟩ := Tx.bind_eq_ok h
  obtain ⟨rfl, -, hrow⟩ := lockConversation_eq_ok hlock
  split at h₁
  · next hactive => exact close_steps hrow hactive h₁
  · obtain ⟨-, rfl⟩ := Prod.mk.inj h₁
    exact .same fun _ => rfl

/-- A conversation that is stored, after which the lives stay as they are. -/
theorem Steps.save {row updated : Conversation} {s s' : Session} {db : Db} {u : PUnit}
    (h : Db.conversation.save rt updated s = (.ok u, s'))
    (hrow : s.db.conversations.find? updated.id = some row)
    (hstep : ∀ n, Life.Step ⟨some (row.state, row.endedAt), n⟩ ⟨some (updated.state, updated.endedAt), n⟩)
    (hrest : lifeRows db = lifeRows s'.db) : Steps s.db db := by
  intro id
  rw [lifeOf_congr hrest, save_life h hrow id]
  split
  · next hid =>
    have hbefore : lifeOf s.db id = ⟨some (row.state, row.endedAt), closings s.db id⟩ := by
      rw [lifeOf, status, hid, hrow, Option.map_some]
    rw [hbefore]
    exact hstep _
  · exact .same _

theorem softDelete_steps {accountId conversationId : Uuid} {expectedVersion retentionDays : ℤ}
    {context : AuditContext} {s s' : Session} {c : Conversation}
    (h : softDelete rt accountId conversationId expectedVersion retentionDays context s = (.ok c, s')) :
    Steps s.db s'.db := by
  obtain ⟨row, s₁, hlock, h₁⟩ := Tx.bind_eq_ok h
  obtain ⟨rfl, -, hrow⟩ := lockConversation_eq_ok hlock
  obtain ⟨-, h₂⟩ := Tx.raiseIf_bind_eq_ok h₁
  obtain ⟨deletedAt, s₂, hnow, h₃⟩ := Tx.bind_eq_ok h₂
  obtain ⟨-, rfl⟩ := Prod.mk.inj hnow
  obtain ⟨now, s₃, hnow', h₄⟩ := Tx.bind_eq_ok h₃
  obtain ⟨-, rfl⟩ := Prod.mk.inj hnow'
  obtain ⟨u, s₄, hsave, h₅⟩ := Tx.bind_eq_ok h₄
  have hrest : Same lifeRows s₄ s' := (append_lifeRows.bind fun _ => Tx.Keeps.pure _).of_apply h₅
  have hsteps := Steps.save hsave hrow (fun n => .delete n _ _) hrest
  exact hsteps

/-- The restoration of a conversation that was ended. -/
theorem restore_steps {accountId conversationId : Uuid} {expectedVersion : ℤ}
    {context : AuditContext} {s s' : Session} {c : Conversation}
    (h : restore rt accountId conversationId expectedVersion context s = (.ok c, s')) :
    ∃ row, conversation? s.db accountId conversationId = some row ∧ row.version = expectedVersion ∧
      unrestorable row (.utc (rt.clock s.tick)) = false ∧ (row.endedAt ≠ none → Steps s.db s'.db) ∧
      (row.endedAt = none → status s'.db conversationId = some (.interrupted, none)) := by
  obtain ⟨row, s₁, hlock, h₁⟩ := Tx.bind_eq_ok h
  obtain ⟨hs, hlocked, hrow⟩ := lockConversation_eq_ok hlock
  subst hs
  obtain ⟨hversion, h₂⟩ := Tx.raiseIf_bind_eq_ok h₁
  obtain ⟨now, s₂, hnow, h₃⟩ := Tx.bind_eq_ok h₂
  obtain ⟨hclock, rfl⟩ := Prod.mk.inj hnow
  obtain rfl := Except.ok.inj hclock
  obtain ⟨hrestorable, h₄⟩ := Tx.raiseIf_bind_eq_ok h₃
  obtain ⟨u, s₄, hsave, h₅⟩ := Tx.bind_eq_ok h₄
  have hrest : Same lifeRows s₄ s' := (append_lifeRows.bind fun _ => Tx.Keeps.pure _).of_apply h₅
  refine ⟨row, hlocked, not_not.mp hversion, Bool.eq_false_iff.mpr hrestorable, ?_, ?_⟩
  · intro hended
    obtain ⟨endedAt, he⟩ := Option.ne_none_iff_exists'.mp hended
    have hstep : ∀ n, Life.Step ⟨some (row.state, row.endedAt), n⟩
        ⟨some (if row.endedAt = none then .interrupted else .completed, row.endedAt), n⟩ := by
      intro n
      rw [he]
      exact .restore n _ endedAt
    have hsteps := Steps.save hsave hrow hstep hrest
    exact hsteps
  · intro hopen
    have hid : row.id = conversationId := Table.key_of_find? (Option.filter_eq_some_iff.mp hlocked).1
    have hsaved := save_life hsave hrow conversationId
    rw [if_pos hid.symm] at hsaved
    have hlife := (lifeOf_congr hrest conversationId).trans hsaved
    refine (Life.mk.inj hlife).1.trans ?_
    rw [if_pos hopen, hopen]

/-- **Step lemma**: a call that returns makes a step of every life, unless it restores an open
conversation. -/
theorem Call.work_steps {call : Call} {s s' : Session} {u : PUnit}
    (h : call.work rt s = (.ok u, s')) (hcall : ¬RestoresOpen rt s call) : Steps s.db s'.db := by
  obtain ⟨operation, context, began⟩ := call
  cases operation with
  | start accountId request =>
      obtain ⟨c, h⟩ := discard_ok h
      exact start_steps h
  | addUserTurn accountId conversationId request =>
      obtain ⟨m, h⟩ := discard_ok h
      exact addUserTurn_steps h
  | addAssistantTurn conversationId content idempotencyKey runId interrupted =>
      obtain ⟨m, h⟩ := discard_ok h
      exact addAssistantTurn_steps h
  | finish accountId conversationId reason =>
      obtain ⟨c, h⟩ := discard_ok h
      exact finish_steps h
  | softDelete accountId conversationId expectedVersion retentionDays =>
      obtain ⟨c, h⟩ := discard_ok h
      exact softDelete_steps h
  | restore accountId conversationId expectedVersion =>
      obtain ⟨c, h⟩ := discard_ok h
      obtain ⟨row, hrow, hversion, hrestorable, hended, -⟩ := restore_steps h
      exact hended fun hopen => hcall ⟨row, hrow, hversion, hrestorable, hopen⟩
  | continueFrom accountId conversationId =>
      obtain ⟨c, h⟩ := discard_ok h
      exact continueFrom_steps h

/-- A call that restores an open conversation makes it interrupted without an end. -/
theorem Call.work_restoresOpen {call : Call} {s s' : Session} {u : PUnit}
    (h : call.work rt s = (.ok u, s')) (hcall : RestoresOpen rt s call) :
    ∃ id, status s'.db id = some (.interrupted, none) := by
  obtain ⟨operation, context, began⟩ := call
  cases operation with
  | restore accountId conversationId expectedVersion =>
      obtain ⟨c, h⟩ := discard_ok h
      obtain ⟨row, hrow, -, -, hopen⟩ := hcall
      obtain ⟨row', hrow', -, -, -, hinterrupted⟩ := restore_steps h
      obtain rfl : row = row' := Option.some.inj (Eq.trans (Eq.symm hrow) hrow')
      exact ⟨conversationId, hinterrupted hopen⟩
  | _ => exact absurd hcall id

/-! #### No refusal commits -/

theorem start_notDurable (accountId : Uuid) (request : ConversationStart) (context : AuditContext) :
    NotDurable (ConversationService.start rt accountId request context) := by
  unfold ConversationService.start
  refine (Tx.RaisesOnly.gets _).bind fun originals => ?_
  refine Tx.RaisesOnly.bind (Tx.RaisesOnly.raiseIf fun _ => Bool.false_ne_true) fun _ => ?_
  apply NoDomain.notDurable
  refine (newUuid_noDomain rt).bind fun id => (Tx.RaisesOnly.gets _).bind fun began => ?_
  refine (Relation.add_noDomain _).bind fun _ => ?_
  cases request.continuationOfId with
  | none => exact AuditService.append_noDomain.bind fun _ => Tx.RaisesOnly.pure _
  | some source =>
      refine (newUuid_noDomain rt).bind fun _ => (Relation.add_noDomain _).bind fun _ => ?_
      exact AuditService.append_noDomain.bind fun _ => Tx.RaisesOnly.pure _

theorem lockConversation_notDurable (accountId conversationId : Uuid) :
    NotDurable (lockConversation accountId conversationId) :=
  (Tx.RaisesOnly.gets _).bind fun _ => Tx.RaisesOnly.orRaise Bool.false_ne_true

theorem softDelete_notDurable (accountId conversationId : Uuid) (expectedVersion retentionDays : ℤ)
    (context : AuditContext) :
    NotDurable (softDelete rt accountId conversationId expectedVersion retentionDays context) := by
  refine (lockConversation_notDurable _ _).bind fun row => ?_
  refine Tx.RaisesOnly.bind (Tx.RaisesOnly.raiseIf fun _ => Bool.false_ne_true) fun _ => ?_
  apply NoDomain.notDurable
  refine (utcNow_noDomain rt).bind fun deletedAt => (utcNow_noDomain rt).bind fun now => ?_
  exact (Relation.save_noDomain _).bind fun _ => AuditService.append_noDomain.bind fun _ =>
    Tx.RaisesOnly.pure _

theorem restore_notDurable (accountId conversationId : Uuid) (expectedVersion : ℤ)
    (context : AuditContext) :
    NotDurable (restore rt accountId conversationId expectedVersion context) := by
  refine (lockConversation_notDurable _ _).bind fun row => ?_
  refine Tx.RaisesOnly.bind (Tx.RaisesOnly.raiseIf fun _ => Bool.false_ne_true) fun _ => ?_
  refine (utcNow_noDomain rt).notDurable.bind fun now => ?_
  refine Tx.RaisesOnly.bind (Tx.RaisesOnly.raiseIf fun _ => Bool.false_ne_true) fun _ => ?_
  apply NoDomain.notDurable
  exact (Relation.save_noDomain _).bind fun _ => AuditService.append_noDomain.bind fun _ =>
    Tx.RaisesOnly.pure _

theorem continueFrom_notDurable (accountId conversationId : Uuid) (context : AuditContext) :
    NotDurable (continueFrom rt accountId conversationId context) := by
  refine Tx.RaisesOnly.bind ?_ fun _ => (insertContinuation_noDomain _ _ _).notDurable
  refine (Tx.RaisesOnly.gets _).bind fun row => ?_
  refine Tx.RaisesOnly.bind (Tx.RaisesOnly.orRaise Bool.false_ne_true) fun conversation => ?_
  exact (Tx.RaisesOnly.gets _).bind fun messages => Tx.RaisesOnly.pure _

theorem Call.work_notDurable (call : Call) : NotDurable (call.work rt) := by
  unfold Call.work
  split
  · exact (start_notDurable _ _ _).bind fun _ => Tx.RaisesOnly.pure _
  · exact (addUserTurn_notDurable _).bind fun _ => Tx.RaisesOnly.pure _
  · exact (addAssistantTurn_quiet _ _ _ _).notDurable.bind fun _ => Tx.RaisesOnly.pure _
  · exact (finish_notDurable _).bind fun _ => Tx.RaisesOnly.pure _
  · exact (softDelete_notDurable _ _ _ _ _).bind fun _ => Tx.RaisesOnly.pure _
  · exact (restore_notDurable _ _ _ _).bind fun _ => Tx.RaisesOnly.pure _
  · exact (continueFrom_notDurable _ _ _).bind fun _ => Tx.RaisesOnly.pure _

/-! #### Every sequence of operations -/

/-- There are no conversations and no closings. -/
structure NoConversations (db : Db) : Prop where
  conversations : db.conversations.rows = []
  closings : ∀ id, closings db id = 0

/-- A closed conversation has an end and was closed once; an active one has neither. -/
def ClosedOnce (db : Db) : Prop :=
  ∀ c ∈ db.conversations,
    ((c.state = .completed ∨ c.state = .interrupted) → c.endedAt ≠ none ∧ closings db c.id = 1) ∧
    (c.state = .active → c.endedAt = none ∧ closings db c.id = 0)

theorem ClosedOnce.of_valid {db : Db} (h : ∀ id, (lifeOf db id).Valid) : ClosedOnce db := by
  intro c hc
  have hvalid := h c.id
  have hlife : lifeOf db c.id = ⟨some (c.state, c.endedAt), closings db c.id⟩ := by
    rw [lifeOf, status, Table.find?_of_mem hc, Option.map_some]
  rw [hlife] at hvalid
  exact ⟨hvalid.closed, hvalid.active⟩

/-- **Every closed conversation was closed once** after every sequence of operations that restores
no conversation which was deleted before it was ended. -/
theorem closed_once {s t : Session} {calls : List Call} (h₀ : NoConversations s.db)
    (hcond : Runs.Along (step rt) (fun s call => ¬RestoresOpen rt s call) s calls)
    (hrun : Runs.run (step rt) s calls = some t) : ClosedOnce t.db := by
  apply ClosedOnce.of_valid
  refine Runs.inv_of_along (I := fun s => ∀ id, (lifeOf s.db id).Valid) ?_ ?_ hcond hrun
  · intro s call s' hvalid hcall hstep
    obtain rfl := Option.some.inj hstep
    unfold Call.perform
    rcases hr : Database.session (call.work rt) { s with began := call.began } with ⟨r, s₁⟩
    rcases Database.session_cases call.work_notDurable hr with ⟨u, -, hwork⟩ | hdb
    · exact fun id => (hvalid id).step (Call.work_steps hwork hcall id)
    · change s₁.db = s.db at hdb
      change ∀ id, (lifeOf s₁.db id).Valid
      rw [hdb]
      exact hvalid
  · intro id
    have hnone : status s.db id = none := by
      rw [status, Table.find?, h₀.conversations]
      rfl
    rw [lifeOf, hnone, h₀.closings]
    exact .absent

/-! #### A conversation that is deleted while it is active -/

def emptySession : Session where
  began := .utc 1767268800000000
  db := {}

def callOf (operation : Operation) : Call :=
  ⟨operation, { actorType := "user", actorId := some 1 }, .utc 1767268800000000⟩

/-- A conversation is started, ended if `ending`, deleted and restored. -/
def deletion (ending : Bool) : List Call :=
  let version : ℤ := if ending then 2 else 1
  [callOf (.start 1 {})] ++ (if ending then [callOf (.finish 1 (2 ^ 64) "user_ended")] else []) ++
    [callOf (.softDelete 1 (2 ^ 64) version 30), callOf (.restore 1 (2 ^ 64) (version + 1))]

theorem emptySession_noConversations : NoConversations emptySession.db := ⟨rfl, fun _ => rfl⟩

/-- A conversation can become interrupted without having been ended or closed. -/
theorem interrupted_unclosed : ¬∀ (rt : Runtime) (s t : Session) (calls : List Call),
    NoConversations s.db → Runs.run (step rt) s calls = some t → ClosedOnce t.db := by
  intro h
  have hrun : (match Runs.run (step freshRuntime) emptySession (deletion false) with
      | some t => t.db.conversations.rows.any fun c =>
          decide (c.state = .interrupted ∧ c.endedAt = none)
      | none => false) = true := by
    decide +kernel
  rcases ht : Runs.run (step freshRuntime) emptySession (deletion false) with _ | t <;>
    simp only [ht] at hrun
  · simp at hrun
  obtain ⟨c, hc, hbad⟩ := List.any_eq_true.mp hrun
  obtain ⟨hstate, hnone⟩ := of_decide_eq_true hbad
  have hclosed := h freshRuntime emptySession t _ emptySession_noConversations ht c hc
  exact (hclosed.1 (.inr hstate)).1 hnone

/-- An ended conversation is deleted and restored. -/
theorem closed_once_restoring : ∃ t, Runs.run (step freshRuntime) emptySession (deletion true) = some t ∧
    t.db.conversations.rows.map Conversation.state = [.completed] ∧ ClosedOnce t.db := by
  have hrun : (match Runs.run (step freshRuntime) emptySession (deletion true) with
      | some t => decide (t.db.conversations.rows.map Conversation.state = [.completed])
      | none => false) = true := by
    decide +kernel
  rcases ht : Runs.run (step freshRuntime) emptySession (deletion true) with _ | t <;>
    simp only [ht] at hrun
  · simp at hrun
  refine ⟨t, rfl, of_decide_eq_true hrun, closed_once emptySession_noConversations ?_ ht⟩
  refine Runs.Along.of_alongB (c := fun s call => decide ¬RestoresOpen freshRuntime s call)
    (fun _ _ => of_decide_eq_true) ?_
  decide +kernel

end Closing

end KajovoDagmar
