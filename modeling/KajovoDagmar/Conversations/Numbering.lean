import KajovoDagmar.Conversations.Service

/-! # The numbering of a conversation's outbox events

`outbox_event` is unique over aggregate and sequence.  A user turn and the end of a
conversation number their events by the message counter, a requested re-answer numbers its
event by the corrected message.  `Numbering` is the part of a conversation that decides about
the constraint, and `Numbering.Step` what one operation may do to it.  In a valid numbering
(`Numbering.Valid`, kept by every operation) the counter is ahead of every event, so turns and
the end are never blocked, and the sequence of every user message is taken, so a requested
re-answer always is. -/

namespace KajovoDagmar

/-- The constraint of `outbox_event`. -/
def outboxKey : String := "outbox_event_aggregate_type_aggregate_id_sequence_key"

namespace ConversationService

/-! ### Numberings -/

/-- A conversation as far as the numbers of its events depend on it: its message counter,
whether it is active, the sequences and roles of its messages, and the numbers in use. -/
structure Numbering where
  count : ℕ
  active : Bool
  turns : List (ℕ × MessageRole)
  used : List ℤ

namespace Numbering

/-- The sequence of the last message. -/
def last (n : Numbering) : ℕ := (n.turns.map Prod.fst).foldr max 0

/-- The counter is the last sequence, an active conversation has used no number beyond it, the
sequence of every user message is in use, and no number is used twice. -/
structure Valid (n : Numbering) : Prop where
  last_eq : n.last = n.count
  ahead : n.active = true → ∀ q ∈ n.used, q ≤ n.count
  user_used : ∀ q, (q, MessageRole.user) ∈ n.turns → (q : ℤ) ∈ n.used
  nodup : n.used.Nodup

/-- What an operation may do to the numbering of its conversation. -/
inductive Step : Numbering → Numbering → Prop where
  | same (n : Numbering) : Step n n
  | userTurn (n : Numbering) (h : n.active = true) : Step n
      { n with count := n.count + 1, turns := n.turns ++ [(n.last + 1, .user)]
               used := n.used ++ [(n.count + 1 : ℤ)] }
  | assistantTurn (n : Numbering) : Step n
      { n with count := n.count + 1, turns := n.turns ++ [(n.last + 1, .assistant)] }
  | reprocess (n : Numbering) (q : ℕ) (h : (q, MessageRole.user) ∈ n.turns)
      (hfree : (q : ℤ) ∉ n.used) : Step n { n with used := n.used ++ [(q : ℤ)] }
  | close (n : Numbering) (h : n.active = true) : Step n
      { n with active := false, used := n.used ++ [(n.count + 1 : ℤ)] }

theorem last_append (n : Numbering) (role : MessageRole) :
    ({ n with turns := n.turns ++ [(n.last + 1, role)] } : Numbering).last = n.last + 1 := by
  have hmax : ∀ (l : List ℕ) (k : ℕ), l.foldr max 0 ≤ k → (l ++ [k]).foldr max 0 = k := by
    intro l k hk
    induction l with
    | nil => simp
    | cons x l ih =>
        rw [List.foldr_cons] at hk
        rw [List.cons_append, List.foldr_cons, ih (by omega)]
        omega
  unfold last
  rw [List.map_append]
  exact hmax _ _ (Nat.le_succ _)

/-- In a valid numbering the counter's next value is free while the conversation is active. -/
theorem Valid.next_free {n : Numbering} (h : n.Valid) (hactive : n.active = true) :
    (n.count + 1 : ℤ) ∉ n.used := by
  intro hmem
  have := h.ahead hactive _ hmem
  omega

theorem Valid.nodup_next {n : Numbering} (h : n.Valid) (hactive : n.active = true) :
    (n.used ++ [(n.count + 1 : ℤ)]).Nodup := by
  rw [← List.concat_eq_append]
  exact h.nodup.concat (h.next_free hactive)

/-- **Step lemma**: every step keeps a numbering valid. -/
theorem Valid.step {n n' : Numbering} (h : n.Valid) (hs : Step n n') : n'.Valid := by
  cases hs with
  | same => exact h
  | userTurn hactive =>
      refine ⟨?_, ?_, ?_, h.nodup_next hactive⟩
      · have := n.last_append .user
        have := h.last_eq
        simp only [last] at *
        omega
      · intro _ q hq
        rcases List.mem_append.mp hq with hq | hq
        · have := h.ahead hactive q hq
          push_cast
          omega
        · obtain rfl := List.mem_singleton.mp hq
          push_cast
          exact le_refl _
      · intro q hq
        rcases List.mem_append.mp hq with hq | hq
        · exact List.mem_append_left _ (h.user_used q hq)
        · obtain ⟨rfl, -⟩ := Prod.mk.inj (List.mem_singleton.mp hq)
          rw [h.last_eq]
          exact List.mem_append_right _ (by simp)
  | assistantTurn =>
      refine ⟨?_, ?_, ?_, h.nodup⟩
      · have := n.last_append .assistant
        have := h.last_eq
        simp only [last] at *
        omega
      · intro hactive q hq
        have := h.ahead hactive q hq
        push_cast
        omega
      · intro q hq
        rcases List.mem_append.mp hq with hq | hq
        · exact h.user_used q hq
        · simp at hq
  | reprocess q hq hfree => exact absurd (h.user_used q hq) hfree
  | close hactive =>
      refine ⟨h.last_eq, ?_, ?_, h.nodup_next hactive⟩
      · intro hfalse
        simp at hfalse
      · intro q hq
        exact List.mem_append_left _ (h.user_used q hq)

end Numbering

/-! ### The numbering of a stored conversation -/

def isEventOf (conversationId : Uuid) (e : OutboxEvent) : Bool :=
  e.aggregateType = "conversation" ∧ e.aggregateId = conversationId

/-- The numbers of the events of a conversation. -/
def usedNumbers (db : Db) (conversationId : Uuid) : List ℤ :=
  (db.outboxEvents.select (isEventOf conversationId)).map OutboxEvent.sequence

/-- The sequences and roles of the messages of a conversation. -/
def turnsOf (db : Db) (conversationId : Uuid) : List (ℕ × MessageRole) :=
  (db.conversationMessages.select fun m => m.conversationId = conversationId).map fun m =>
    (m.sequence, m.role)

def numbering (db : Db) (conversationId : Uuid) : Option Numbering :=
  (db.conversations.find? conversationId).map fun c =>
    ⟨c.messageCount, c.state = .active, turnsOf db conversationId, usedNumbers db conversationId⟩

theorem maxSequence_eq {db : Db} {conversationId : Uuid} {n : Numbering}
    (h : numbering db conversationId = some n) : maxSequence db conversationId = n.last := by
  obtain ⟨c, -, rfl⟩ := Option.map_eq_some_iff.mp h
  unfold maxSequence Numbering.last turnsOf
  rw [List.map_map]
  rfl

/-! ### Publishing an event -/

variable {rt : Runtime} {conversationId : Uuid}

section publish

variable {eventType : String} {payload : Json} {q : ℤ} {s s' : Session}

/-- A published event has taken a free number. -/
theorem publish_ok {u : PUnit} (h : publish rt conversationId eventType payload q s = (.ok u, s')) :
    q ∉ usedNumbers s.db conversationId ∧
      usedNumbers s'.db conversationId = usedNumbers s.db conversationId ++ [q] ∧
      s'.db.conversations = s.db.conversations ∧
      s'.db.conversationMessages = s.db.conversationMessages := by
  unfold publish at h
  obtain ⟨id, s₁, hid, h⟩ := Tx.bind_eq_ok h
  obtain ⟨-, rfl⟩ := Prod.mk.inj hid
  rw [Tx.gets_bind_apply] at h
  obtain ⟨t, ht, rfl⟩ := Relation.add_eq_ok h
  obtain ⟨hinsert, hclash⟩ := Relation.insertRow_eq_ok ht
  have hrows := (Table.insert?_eq_some hinsert).1
  refine ⟨?_, ?_, rfl, rfl⟩
  · intro hmem
    obtain ⟨x, hx, hq⟩ := List.mem_map.mp hmem
    obtain ⟨hx, hof⟩ := List.mem_filter.mp hx
    obtain ⟨htype, hid⟩ := of_decide_eq_true hof
    have := hclash x hx
    simp [Db.outboxEvent, htype, hid, hq] at this
  · change (t.rows.filter (isEventOf conversationId)).map OutboxEvent.sequence = _
    rw [hrows, List.filter_append, List.map_append]
    simp [isEventOf, usedNumbers, Table.select, Db.outboxEvent]

/-- An event that fails on the constraint has a number in use. -/
theorem publish_blocked
    (h : publish rt conversationId eventType payload q s = (.error (.integrity outboxKey), s')) :
    q ∈ usedNumbers s.db conversationId := by
  unfold publish at h
  rcases Tx.bind_eq_error h with h | ⟨id, s₁, hid, h⟩
  · simp [newUuid] at h
  obtain ⟨-, rfl⟩ := Prod.mk.inj hid
  rw [Tx.gets_bind_apply] at h
  unfold Relation.add at h
  split at h
  · simp at h
  split at h
  · simp at h
  next e he =>
  obtain ⟨hee, -⟩ := Prod.mk.inj h
  obtain rfl : e = .integrity outboxKey := by simpa using hee
  unfold Relation.insertRow at he
  split at he
  · next c hc =>
    obtain ⟨x, hx, hclash⟩ := List.exists_of_findSome?_eq_some hc
    have hof : x.aggregateType = "conversation" ∧ x.aggregateId = conversationId ∧ x.sequence = q := by
      by_contra hnot
      simp only [Db.outboxEvent, if_neg hnot] at hclash
      simp at hclash
    refine List.mem_map.mpr ⟨x, List.mem_filter.mpr ⟨hx, ?_⟩, hof.2.2⟩
    exact decide_eq_true ⟨hof.1, hof.2.1⟩
  · split at he
    · simp at he
    · simp [Db.outboxEvent, outboxKey] at he

/-- No exception of publishing is durable. -/
theorem publish_notDurable : Tx.RaisesOnly (fun e => ¬e.Durable)
    (publish rt conversationId eventType payload q) := by
  unfold publish
  have hmono : ∀ {α : Type} {m : Work α}, NoDomain m → Tx.RaisesOnly (fun e => ¬e.Durable) m :=
    fun hm s e he hd => hm s e he hd.isDomain
  refine (hmono (newUuid_noDomain rt)).bind fun id => (Tx.RaisesOnly.gets _).bind fun began => ?_
  exact hmono (Relation.add_noDomain _)

end publish

/-! ### What is not blocked -/

/-- Neither a durable exception nor a violation of the constraint is raised. -/
abbrev Quiet {α : Type} (m : Work α) : Prop :=
  Tx.RaisesOnly (fun e => ¬e.Durable ∧ e ≠ .integrity outboxKey) m

theorem Quiet.ok_of_blocked {α β : Type} {m : Work α} {f : α → Work β} (hm : Quiet m) {s s' : Session}
    (h : (m >>= f) s = (.error (.integrity outboxKey), s')) :
    ∃ a s₁, m s = (.ok a, s₁) ∧ f a s₁ = (.error (.integrity outboxKey), s') := by
  rcases Tx.bind_eq_error h with h | h
  · exact absurd rfl (hm s _ (congrArg Prod.fst h)).2
  · exact h

theorem Quiet.notDurable {α : Type} {m : Work α} (hm : Quiet m) :
    Tx.RaisesOnly (fun e => ¬e.Durable) m :=
  fun s e he => (hm s e he).1

theorem add_quiet {R : Type} {key : R → ℕ} {rel : Relation key} (hpkey : rel.pkey ≠ outboxKey)
    (hclash : ∀ r x, rel.clash r x ≠ some outboxKey) (r : R) : Quiet (rel.add rt r) := by
  intro s e h
  rcases hs : rel.add rt r s with ⟨e' | u, s'⟩ <;> rw [hs] at h
  · obtain rfl : e' = e := by simpa using h
    refine ⟨fun hd => (Relation.add_error hs).2 hd.isDomain, ?_⟩
    rintro rfl
    unfold Relation.add at hs
    split at hs
    · simp at hs
    split at hs
    · simp at hs
    next e he =>
    obtain rfl : e = .integrity outboxKey := by simpa using congrArg Prod.fst hs
    unfold Relation.insertRow at he
    split at he
    · next c hc =>
      obtain ⟨x, -, hx⟩ := List.exists_of_findSome?_eq_some hc
      obtain rfl : c = outboxKey := by simpa using he
      exact hclash r x hx
    · split at he
      · simp at he
      · exact hpkey (by simpa using he)
  · simp at h

theorem save_quiet {R : Type} {key : R → ℕ} {rel : Relation key} (r : R) : Quiet (rel.save rt r) := by
  intro s e h
  cases hr : rt.rejectsUpdate (rel.row r) with
  | none => simp [Relation.save_of_accepted hr] at h
  | some c =>
      rw [Relation.save_of_rejected hr] at h
      obtain rfl : Exc.other c = e := by simpa using h
      exact ⟨id, by simp⟩

theorem raiseIf_quiet {c : Prop} [Decidable c] {e : DomainError} (he : e.durable = false) :
    Quiet (Tx.raiseIf c (.domain e)) :=
  Tx.RaisesOnly.raiseIf fun _ => ⟨by simp [Exc.Durable, he], by simp⟩

theorem orRaise_quiet {α : Type} {o : Option α} {e : DomainError} (he : e.durable = false) :
    Quiet (Tx.orRaise o (.domain e)) :=
  Tx.RaisesOnly.orRaise ⟨by simp [Exc.Durable, he], by simp⟩

theorem append_quiet {context : AuditContext} {event result : String} {targetType : Option String}
    {targetId : Option Uuid} {details : List (String × Json)} :
    Quiet (AuditService.append rt context event result targetType targetId details) := by
  unfold AuditService.append
  refine (Tx.RaisesOnly.gets _).bind fun previous => (Tx.RaisesOnly.modifyGet _).bind fun at_ => ?_
  refine (add_quiet ?_ ?_ _).bind fun _ => Tx.RaisesOnly.pure _
  · decide
  · intro r x
    simp [Db.auditEvent]

theorem appendMessage_quiet (conversation : Conversation) (message : ConversationMessage) :
    Quiet (appendMessage rt conversation message) := by
  unfold appendMessage
  refine (add_quiet ?_ ?_ _).bind fun _ => (Tx.RaisesOnly.modifyGet _).bind fun now => ?_
  · decide
  · intro r x
    simp only [Db.conversationMessage]
    split
    · simp [outboxKey]
    · split <;> simp [outboxKey]
  · exact (save_quiet _).bind fun _ => Tx.RaisesOnly.pure _

/-! ### The operations as steps of the numbering -/

theorem numbering_of_find? {db : Db} {c : Conversation}
    (h : db.conversations.find? conversationId = some c) : numbering db conversationId =
      some ⟨c.messageCount, c.state = .active, turnsOf db conversationId,
        usedNumbers db conversationId⟩ := by
  rw [numbering, h, Option.map_some]

theorem find?_of_numbering {db : Db} {n : Numbering} (h : numbering db conversationId = some n) :
    ∃ c, db.conversations.find? conversationId = some c := by
  obtain ⟨c, hc, -⟩ := Option.map_eq_some_iff.mp h
  exact ⟨c, hc⟩

theorem lockConversation_ok {accountId : Uuid} {c : Conversation} {s s' : Session}
    (h : HistoryService.lockConversation accountId conversationId s = (.ok c, s')) :
    s' = s ∧ s.db.conversations.find? conversationId = some c := by
  unfold HistoryService.lockConversation at h
  rw [Tx.gets_bind_apply] at h
  cases hc : HistoryService.conversation? s.db accountId conversationId with
  | none => simp [hc] at h
  | some c' =>
      rw [hc, Tx.orRaise_some, Tx.pure_apply] at h
      obtain ⟨hcc, rfl⟩ := Prod.mk.inj h
      obtain rfl : c' = c := by simpa using hcc
      exact ⟨rfl, (Option.filter_eq_some_iff.mp hc).1⟩

theorem lockConversation_quiet {accountId : Uuid} :
    Quiet (HistoryService.lockConversation accountId conversationId) :=
  (Tx.RaisesOnly.gets _).bind fun _ => orRaise_quiet rfl

theorem byIdempotencyKey_ok {idempotencyKey : String} {o : Option ConversationMessage}
    {s s' : Session} (h : byIdempotencyKey conversationId idempotencyKey s = (.ok o, s')) : s' = s :=
  (Prod.mk.inj h).2.symm

theorem byIdempotencyKey_quiet {idempotencyKey : String} :
    Quiet (byIdempotencyKey conversationId idempotencyKey) :=
  (Tx.RaisesOnly.gets _).bind fun _ => Tx.RaisesOnly.pure _

/-- A stored conversation has taken the place of the one with its identifier. -/
theorem saveConversation_ok {c updated : Conversation} {u : PUnit} {s s' : Session}
    (h : Db.conversation.save rt updated s = (.ok u, s'))
    (hc : s.db.conversations.find? conversationId = some c) (hid : updated.id = conversationId) :
    s'.db.conversations.find? conversationId = some updated ∧
      turnsOf s'.db conversationId = turnsOf s.db conversationId ∧
      usedNumbers s'.db conversationId = usedNumbers s.db conversationId := by
  cases hr : rt.rejectsUpdate (.conversation updated) with
  | some e =>
      rw [Relation.save_of_rejected hr] at h
      simp at h
  | none =>
      rw [Relation.save_of_accepted hr] at h
      obtain ⟨-, rfl⟩ := Prod.mk.inj h
      rw [← hid] at hc ⊢
      exact ⟨Table.find?_put_self hc, rfl, rfl⟩

/-- A new message adds a turn and moves the counter. -/
theorem appendMessage_ok {c updated : Conversation} {message : ConversationMessage} {s s' : Session}
    (h : appendMessage rt c message s = (.ok updated, s'))
    (hc : s.db.conversations.find? conversationId = some c)
    (hm : message.conversationId = conversationId) :
    s'.db.conversations.find? conversationId = some updated ∧ updated.id = conversationId ∧
      updated.messageCount = c.messageCount + 1 ∧ updated.state = c.state ∧
      turnsOf s'.db conversationId = turnsOf s.db conversationId ++ [(message.sequence, message.role)] ∧
      usedNumbers s'.db conversationId = usedNumbers s.db conversationId := by
  have hid : c.id = conversationId := Table.key_of_find? hc
  unfold appendMessage at h
  obtain ⟨u, s₁, hadd, hrest⟩ := Tx.bind_eq_ok h
  obtain ⟨now, s₂, hnow, hrest⟩ := Tx.bind_eq_ok hrest
  obtain ⟨u', s₃, hsave, hrest⟩ := Tx.bind_eq_ok hrest
  obtain ⟨hu, rfl⟩ := Prod.mk.inj hrest
  obtain rfl := Except.ok.inj hu
  obtain ⟨-, rfl⟩ := Prod.mk.inj hnow
  obtain ⟨t, ht, rfl⟩ := Relation.add_eq_ok hadd
  have hrows := (Table.insert?_eq_some (Relation.insertRow_eq_ok ht).1).1
  obtain ⟨hfind, hturns, hused⟩ := saveConversation_ok hsave hc hid
  refine ⟨hfind, hid, rfl, rfl, ?_, hused⟩
  rw [hturns]
  change (t.rows.filter _).map _ = _
  rw [hrows, List.filter_append, List.map_append]
  simp [hm, turnsOf, Table.select, Db.conversationMessage]

/-- A published event adds its number. -/
theorem publish_numbering {eventType : String} {payload : Json} {q : ℤ} {n : Numbering} {u : PUnit}
    {s s' : Session} (hn : numbering s.db conversationId = some n)
    (h : publish rt conversationId eventType payload q s = (.ok u, s')) :
    q ∉ n.used ∧ numbering s'.db conversationId = some { n with used := n.used ++ [q] } := by
  obtain ⟨hfree, hused, hconversations, hmessages⟩ := publish_ok h
  obtain ⟨c, hc, rfl⟩ := Option.map_eq_some_iff.mp hn
  refine ⟨hfree, ?_⟩
  have hturns : turnsOf s'.db conversationId = turnsOf s.db conversationId := by
    rw [turnsOf, hmessages, turnsOf]
  rw [numbering, hconversations, hc, Option.map_some, hused, hturns]

theorem append_numbering {context : AuditContext} {event result : String} {targetType : Option String}
    {targetId : Option Uuid} {details : List (String × Json)} {e : AuditEvent} {s s' : Session}
    (h : AuditService.append rt context event result targetType targetId details s = (.ok e, s')) :
    numbering s'.db conversationId = numbering s.db conversationId := by
  have hkeep : Tx.Keeps (Same fun db => numbering db conversationId)
      (AuditService.append rt context event result targetType targetId details) :=
    AuditService.append_keeps fun _ _ => rfl
  exact hkeep.of_apply h

section operations

variable {accountId : Uuid} {context : AuditContext} {n : Numbering} {s s' : Session}

theorem insertUserTurn_ok {c : Conversation} {request : UserTurn} {m : ConversationMessage}
    (hc : s.db.conversations.find? conversationId = some c) (hactive : c.state = .active)
    (hn : numbering s.db conversationId = some n)
    (h : insertUserTurn rt c request context s = (.ok m, s')) :
    ∃ n', numbering s'.db conversationId = some n' ∧ n.Step n' := by
  have hid : c.id = conversationId := Table.key_of_find? hc
  have hlast := maxSequence_eq hn
  obtain rfl := Option.some.inj ((numbering_of_find? hc).symm.trans hn)
  unfold insertUserTurn at h
  rw [Tx.gets_bind_apply, hid, hlast] at h
  obtain ⟨id, s₁, hid₁, h⟩ := Tx.bind_eq_ok h
  obtain ⟨-, rfl⟩ := Prod.mk.inj hid₁
  obtain ⟨now, s₂, hnow, h⟩ := Tx.bind_eq_ok h
  obtain ⟨-, rfl⟩ := Prod.mk.inj hnow
  obtain ⟨updated, s₃, happend, h⟩ := Tx.bind_eq_ok h
  obtain ⟨hfind, hid₃, hcount, hstate, hturns, hused⟩ := appendMessage_ok happend hc rfl
  rw [hid₃] at h
  obtain ⟨u, s₄, hpublish, h⟩ := Tx.bind_eq_ok h
  obtain ⟨-, hpublished⟩ := publish_numbering (numbering_of_find? hfind) hpublish
  obtain ⟨e, s₅, happended, h⟩ := Tx.bind_eq_ok h
  obtain ⟨-, rfl⟩ := Prod.mk.inj h
  refine ⟨_, (append_numbering happended).trans hpublished, ?_⟩
  rw [hcount, hstate, hturns, hused]
  exact Numbering.Step.userTurn _ (decide_eq_true hactive)

theorem insertUserTurn_blocked {c : Conversation} {request : UserTurn}
    (hc : s.db.conversations.find? conversationId = some c)
    (h : insertUserTurn rt c request context s = (.error (.integrity outboxKey), s')) :
    (c.messageCount + 1 : ℤ) ∈ usedNumbers s.db conversationId := by
  have hid : c.id = conversationId := Table.key_of_find? hc
  unfold insertUserTurn at h
  rw [Tx.gets_bind_apply] at h
  obtain ⟨id, s₁, hid₁, h⟩ := Quiet.ok_of_blocked (Tx.RaisesOnly.modifyGet _) h
  obtain ⟨-, rfl⟩ := Prod.mk.inj hid₁
  obtain ⟨now, s₂, hnow, h⟩ := Quiet.ok_of_blocked (Tx.RaisesOnly.modifyGet _) h
  obtain ⟨-, rfl⟩ := Prod.mk.inj hnow
  obtain ⟨updated, s₃, happend, h⟩ := Quiet.ok_of_blocked (appendMessage_quiet _ _) h
  obtain ⟨-, hid₃, hcount, -, -, hused⟩ := appendMessage_ok happend hc hid
  rcases Tx.bind_eq_error h with h | ⟨u, s₄, -, h⟩
  · have hmem := publish_blocked h
    rw [hid₃, hcount, hused] at hmem
    exact_mod_cast hmem
  · obtain ⟨e, s₅, -, h⟩ := Quiet.ok_of_blocked append_quiet h
    simp at h

theorem insertUserTurn_notDurable (c : Conversation) (request : UserTurn) :
    Tx.RaisesOnly (fun e => ¬e.Durable) (insertUserTurn rt c request context) := by
  unfold insertUserTurn
  refine (Tx.RaisesOnly.gets _).bind fun sequence => (Tx.RaisesOnly.modifyGet _).bind fun id => ?_
  refine (Tx.RaisesOnly.modifyGet _).bind fun now => ?_
  refine (appendMessage_quiet _ _).notDurable.bind fun updated => publish_notDurable.bind fun _ => ?_
  exact append_quiet.notDurable.bind fun _ => Tx.RaisesOnly.pure _

theorem addUserTurn_ok {request : UserTurn} {m : ConversationMessage}
    (hn : numbering s.db conversationId = some n)
    (h : addUserTurn rt accountId conversationId request context s = (.ok m, s')) :
    ∃ n', numbering s'.db conversationId = some n' ∧ n.Step n' := by
  unfold addUserTurn at h
  obtain ⟨c, s₁, hlock, hrest⟩ := Tx.bind_eq_ok h
  obtain ⟨rfl, hc⟩ := lockConversation_ok hlock
  by_cases hactive : c.state = .active
  swap
  · rw [Tx.raiseIf_pos hactive, Tx.raise_bind] at hrest
    simp at hrest
  rw [Tx.raiseIf_neg (not_not_intro hactive), Tx.pure_bind] at hrest
  obtain ⟨existing, s₂, hkey, hrest⟩ := Tx.bind_eq_ok hrest
  obtain rfl := byIdempotencyKey_ok hkey
  cases existing with
  | none => exact insertUserTurn_ok hc hactive hn hrest
  | some message =>
      obtain ⟨u, s₃, hraise, hrest⟩ := Tx.bind_eq_ok hrest
      obtain ⟨-, rfl⟩ := Prod.mk.inj hrest
      have hsame : Same (fun db => numbering db conversationId) s₂ s₃ :=
        (Tx.Keeps.raiseIf _ _).of_apply hraise
      exact ⟨n, hsame.trans hn, .same n⟩

/-- A user turn is blocked only by an event numbered ahead of the counter. -/
theorem addUserTurn_blocked {request : UserTurn} (hn : numbering s.db conversationId = some n)
    (h : addUserTurn rt accountId conversationId request context s =
      (.error (.integrity outboxKey), s')) : n.active = true ∧ (n.count + 1 : ℤ) ∈ n.used := by
  unfold addUserTurn at h
  obtain ⟨c, s₁, hlock, hrest⟩ := lockConversation_quiet.ok_of_blocked h
  obtain ⟨rfl, hc⟩ := lockConversation_ok hlock
  by_cases hactive : c.state = .active
  swap
  · rw [Tx.raiseIf_pos hactive, Tx.raise_bind] at hrest
    simp at hrest
  rw [Tx.raiseIf_neg (not_not_intro hactive), Tx.pure_bind] at hrest
  obtain ⟨existing, s₂, hkey, hrest⟩ := byIdempotencyKey_quiet.ok_of_blocked hrest
  obtain rfl := byIdempotencyKey_ok hkey
  cases existing with
  | none =>
      obtain rfl := Option.some.inj ((numbering_of_find? hc).symm.trans hn)
      exact ⟨decide_eq_true hactive, insertUserTurn_blocked hc hrest⟩
  | some message =>
      obtain ⟨u, s₃, -, hrest⟩ := (raiseIf_quiet rfl).ok_of_blocked hrest
      simp at hrest

theorem addUserTurn_notDurable (request : UserTurn) : Tx.RaisesOnly (fun e => ¬e.Durable)
    (addUserTurn rt accountId conversationId request context) := by
  unfold addUserTurn
  refine lockConversation_quiet.notDurable.bind fun c => (raiseIf_quiet rfl).notDurable.bind fun _ => ?_
  refine byIdempotencyKey_quiet.notDurable.bind fun existing => ?_
  cases existing with
  | none => exact insertUserTurn_notDurable _ _
  | some message => exact (raiseIf_quiet rfl).notDurable.bind fun _ => Tx.RaisesOnly.pure _

theorem addAssistantTurn_ok {content idempotencyKey : String} {runId : Uuid} {interrupted : Bool}
    {m : ConversationMessage} (hn : numbering s.db conversationId = some n)
    (h : addAssistantTurn rt conversationId content idempotencyKey runId interrupted s =
      (.ok m, s')) : ∃ n', numbering s'.db conversationId = some n' ∧ n.Step n' := by
  obtain ⟨c, hc⟩ := find?_of_numbering hn
  have hlast := maxSequence_eq hn
  obtain rfl := Option.some.inj ((numbering_of_find? hc).symm.trans hn)
  unfold addAssistantTurn at h
  rw [Relation.find, Tx.gets_bind_apply] at h
  change (Tx.orRaise (s.db.conversations.find? conversationId) _ >>= _) s = _ at h
  rw [hc, Tx.orRaise_some, Tx.pure_bind] at h
  obtain ⟨existing, s₁, hkey, h⟩ := Tx.bind_eq_ok h
  obtain rfl := byIdempotencyKey_ok hkey
  cases existing with
  | some message =>
      obtain ⟨-, rfl⟩ := Prod.mk.inj h
      exact ⟨_, hn, .same _⟩
  | none =>
      change (Tx.gets _ >>= _) _ = _ at h
      rw [Tx.gets_bind_apply, hlast] at h
      obtain ⟨id, s₂, hid, h⟩ := Tx.bind_eq_ok h
      obtain ⟨-, rfl⟩ := Prod.mk.inj hid
      obtain ⟨now, s₃, hnow, h⟩ := Tx.bind_eq_ok h
      obtain ⟨-, rfl⟩ := Prod.mk.inj hnow
      obtain ⟨updated, s₄, happend, h⟩ := Tx.bind_eq_ok h
      obtain ⟨-, rfl⟩ := Prod.mk.inj h
      obtain ⟨hfind, -, hcount, hstate, hturns, hused⟩ := appendMessage_ok happend hc rfl
      refine ⟨_, numbering_of_find? hfind, ?_⟩
      rw [hcount, hstate, hturns, hused]
      exact Numbering.Step.assistantTurn _

theorem addAssistantTurn_quiet (content idempotencyKey : String) (runId : Uuid) (interrupted : Bool) :
    Quiet (addAssistantTurn rt conversationId content idempotencyKey runId interrupted) := by
  unfold addAssistantTurn
  refine (Tx.RaisesOnly.gets _).bind fun row => (orRaise_quiet rfl).bind fun c => ?_
  refine byIdempotencyKey_quiet.bind fun existing => ?_
  cases existing with
  | some message => exact Tx.RaisesOnly.pure _
  | none =>
      refine (Tx.RaisesOnly.gets _).bind fun sequence => (Tx.RaisesOnly.modifyGet _).bind fun id => ?_
      refine (Tx.RaisesOnly.modifyGet _).bind fun now => ?_
      exact (appendMessage_quiet _ _).bind fun _ => Tx.RaisesOnly.pure _

/-- Replacing a message by one of the same place changes no turn. -/
theorem numbering_put {db : Db} {m updated : ConversationMessage} (hm : m ∈ db.conversationMessages)
    (hid : updated.id = m.id) (hplace : (updated.conversationId, updated.sequence, updated.role) =
      (m.conversationId, m.sequence, m.role)) :
    numbering { db with conversationMessages := db.conversationMessages.put updated } conversationId =
      numbering db conversationId := by
  have hturns : ∀ d : Db, turnsOf d conversationId =
      ((d.conversationMessages.rows.map fun x => (x.conversationId, x.sequence, x.role)).filter
        fun x => x.1 = conversationId).map Prod.snd := by
    intro d
    rw [List.filter_map, List.map_map]
    rfl
  have hput : turnsOf { db with conversationMessages := db.conversationMessages.put updated }
      conversationId = turnsOf db conversationId := by
    rw [hturns, hturns, Table.map_put hm hid hplace]
  unfold numbering
  rw [hput]
  rfl

theorem recordCorrection_ok {m updated : ConversationMessage} {request : TranscriptCorrection}
    (h : recordCorrection rt accountId m request context s = (.ok updated, s'))
    (hm : m ∈ s.db.conversationMessages) :
    updated.id = m.id ∧ updated.conversationId = m.conversationId ∧ updated.sequence = m.sequence ∧
      numbering s'.db conversationId = numbering s.db conversationId := by
  unfold recordCorrection at h
  obtain ⟨u, s₁, hsave, h⟩ := Tx.bind_eq_ok h
  obtain ⟨id, s₂, hid, h⟩ := Tx.bind_eq_ok h
  obtain ⟨-, rfl⟩ := Prod.mk.inj hid
  obtain ⟨u', s₃, hadd, h⟩ := Tx.bind_eq_ok h
  obtain ⟨e, s₄, happended, h⟩ := Tx.bind_eq_ok h
  obtain ⟨hupdated, rfl⟩ := Prod.mk.inj h
  obtain rfl := Except.ok.inj hupdated
  refine ⟨rfl, rfl, rfl, ?_⟩
  rw [append_numbering happended]
  obtain ⟨t, -, rfl⟩ := Relation.add_eq_ok hadd
  cases hr : rt.rejectsUpdate (.conversationMessage { m with
      content := PythonText.strip request.correctedContent.val, version := m.version + 1 }) with
  | some e =>
      rw [Relation.save_of_rejected hr] at hsave
      simp at hsave
  | none =>
      rw [Relation.save_of_accepted hr] at hsave
      obtain ⟨-, rfl⟩ := Prod.mk.inj hsave
      exact numbering_put hm rfl rfl

theorem recordCorrection_quiet (m : ConversationMessage) (request : TranscriptCorrection) :
    Quiet (recordCorrection rt accountId m request context) := by
  unfold recordCorrection
  refine (save_quiet _).bind fun _ => (Tx.RaisesOnly.modifyGet _).bind fun id => ?_
  refine (add_quiet ?_ ?_ _).bind fun _ => append_quiet.bind fun _ => Tx.RaisesOnly.pure _
  · decide
  · intro r x
    simp only [Db.messageRevision]
    split <;> simp [outboxKey]

/-- The correction asks for a new answer and passes its own checks. -/
def Requests (db : Db) (accountId messageId : Uuid) (request : TranscriptCorrection) : Prop :=
  request.requestNewAnswer = true ∧
    ∃ m, userMessage? db accountId messageId = some m ∧ m.version = request.expectedMessageVersion

theorem userMessage?_mem {db : Db} {messageId : Uuid} {m : ConversationMessage}
    (h : userMessage? db accountId messageId = some m) :
    m ∈ db.conversationMessages ∧ m.role = .user := by
  obtain ⟨hf, hp⟩ := Option.filter_eq_some_iff.mp h
  exact ⟨Table.mem_of_find? hf, (of_decide_eq_true hp).1⟩

theorem mem_turnsOf {db : Db} {m : ConversationMessage} (hm : m ∈ db.conversationMessages)
    (hc : m.conversationId = conversationId) : (m.sequence, m.role) ∈ turnsOf db conversationId :=
  List.mem_map.mpr ⟨m, List.mem_filter.mpr ⟨hm, decide_eq_true hc⟩, rfl⟩

/-- A correction is refused by its own checks, or recorded and, if so requested, published. -/
theorem correctTranscript_cases (rt : Runtime) (accountId messageId : Uuid)
    (request : TranscriptCorrection) (context : AuditContext) (s : Session) :
    (∃ d : DomainError, d.durable = false ∧
      correctTranscript rt accountId messageId request context s = (.error (.domain d), s)) ∨
    ∃ m, userMessage? s.db accountId messageId = some m ∧
      m.version = request.expectedMessageVersion ∧
      correctTranscript rt accountId messageId request context s =
        (recordCorrection rt accountId m request context >>= requestAnswer rt request) s := by
  unfold correctTranscript lockUserMessage
  cases hm : userMessage? s.db accountId messageId with
  | none =>
      refine .inl ⟨.notFound "Uživatelská replika nebyla nalezena.", rfl, ?_⟩
      simp [Tx.bind_apply, hm]
  | some m =>
      by_cases hv : m.version = request.expectedMessageVersion
      · refine .inr ⟨m, rfl, hv, ?_⟩
        simp [Tx.bind_apply, hm, hv]
      · refine .inl ⟨.conflict "Replika byla mezitím změněna.", rfl, ?_⟩
        simp only [Tx.bind_apply, Tx.gets_apply, hm, Tx.orRaise_some, Tx.pure_apply,
          Tx.raiseIf_pos hv, Tx.raise_apply]

theorem correctTranscript_ok {messageId : Uuid} {request : TranscriptCorrection}
    {r : ConversationMessage} (hn : numbering s.db conversationId = some n)
    (hof : ∀ m, userMessage? s.db accountId messageId = some m → m.conversationId = conversationId)
    (h : correctTranscript rt accountId messageId request context s = (.ok r, s')) :
    ∃ n', numbering s'.db conversationId = some n' ∧ n.Step n' ∧
      (request.requestNewAnswer = true → ∃ q : ℕ, (q, MessageRole.user) ∈ n.turns ∧ (q : ℤ) ∉ n.used) := by
  rcases correctTranscript_cases rt accountId messageId request context s with
    ⟨d, -, hd⟩ | ⟨m, hm, hv, hcorrect⟩
  · rw [hd] at h
    simp at h
  rw [hcorrect] at h
  obtain ⟨hmem, hrole⟩ := userMessage?_mem hm
  obtain ⟨updated, s₁, hrecord, hrequest⟩ := Tx.bind_eq_ok h
  obtain ⟨-, hconversation, hsequence, hsame⟩ := recordCorrection_ok hrecord hmem
  rw [hn] at hsame
  unfold requestAnswer at hrequest
  split at hrequest
  · next hnew =>
    obtain ⟨u, s₂, hpublish, hrest⟩ := Tx.bind_eq_ok hrequest
    obtain ⟨-, rfl⟩ := Prod.mk.inj hrest
    rw [hconversation, hof m hm, hsequence] at hpublish
    obtain ⟨hfree, hpublished⟩ := publish_numbering hsame hpublish
    have hturn : (m.sequence, MessageRole.user) ∈ n.turns := by
      obtain ⟨c, -, rfl⟩ := Option.map_eq_some_iff.mp hn
      rw [← hrole]
      exact mem_turnsOf hmem (hof m hm)
    exact ⟨_, hpublished, .reprocess n m.sequence hturn hfree, fun _ => ⟨m.sequence, hturn, hfree⟩⟩
  · next hnew =>
    obtain ⟨-, rfl⟩ := Prod.mk.inj hrequest
    exact ⟨n, hsame, .same n, fun h => absurd h hnew⟩

/-- Only a correction that asks for a new answer is blocked. -/
theorem correctTranscript_blocked {messageId : Uuid} {request : TranscriptCorrection}
    (h : correctTranscript rt accountId messageId request context s =
      (.error (.integrity outboxKey), s')) : Requests s.db accountId messageId request := by
  rcases correctTranscript_cases rt accountId messageId request context s with
    ⟨d, -, hd⟩ | ⟨m, hm, hv, hcorrect⟩
  · rw [hd] at h
    simp at h
  rw [hcorrect] at h
  obtain ⟨updated, s₁, -, hrequest⟩ := (recordCorrection_quiet _ _).ok_of_blocked h
  refine ⟨?_, m, hm, hv⟩
  by_contra hnew
  unfold requestAnswer at hrequest
  rw [if_neg hnew] at hrequest
  simp at hrequest

theorem correctTranscript_notDurable (messageId : Uuid) (request : TranscriptCorrection) :
    Tx.RaisesOnly (fun e => ¬e.Durable)
      (correctTranscript rt accountId messageId request context) := by
  unfold correctTranscript lockUserMessage requestAnswer
  refine Tx.RaisesOnly.bind ?_ fun m => (raiseIf_quiet rfl).notDurable.bind fun _ => ?_
  · exact (Tx.RaisesOnly.gets _).bind fun row => (orRaise_quiet rfl).notDurable
  refine (recordCorrection_quiet _ _).notDurable.bind fun updated => ?_
  split
  · exact publish_notDurable.bind fun _ => Tx.RaisesOnly.pure _
  · exact Tx.RaisesOnly.pure _

theorem close_ok {row r : Conversation} {reason : String}
    (hc : s.db.conversations.find? conversationId = some row) (hactive : row.state = .active)
    (hn : numbering s.db conversationId = some n)
    (h : close rt row reason context s = (.ok r, s')) :
    ∃ n', numbering s'.db conversationId = some n' ∧ n.Step n' := by
  have hid : row.id = conversationId := Table.key_of_find? hc
  obtain rfl := Option.some.inj ((numbering_of_find? hc).symm.trans hn)
  unfold close at h
  obtain ⟨endedAt, s₁, hnow, h⟩ := Tx.bind_eq_ok h
  obtain ⟨-, rfl⟩ := Prod.mk.inj hnow
  obtain ⟨lastActivityAt, s₂, hnow, h⟩ := Tx.bind_eq_ok h
  obtain ⟨-, rfl⟩ := Prod.mk.inj hnow
  obtain ⟨u, s₃, hsave, h⟩ := Tx.bind_eq_ok h
  rw [hid] at h
  obtain ⟨u', s₄, hpublish, h⟩ := Tx.bind_eq_ok h
  obtain ⟨e, s₅, happended, h⟩ := Tx.bind_eq_ok h
  obtain ⟨-, rfl⟩ := Prod.mk.inj h
  obtain ⟨hfind, hturns, hused⟩ := saveConversation_ok hsave hc hid
  obtain ⟨-, hpublished⟩ := publish_numbering (numbering_of_find? hfind) hpublish
  refine ⟨_, (append_numbering happended).trans hpublished, ?_⟩
  have hinactive : decide ((if reason = "user_ended" then ConversationState.completed
      else .interrupted) = .active) = false := by
    split <;> rfl
  rw [hturns, hused, hinactive]
  exact Numbering.Step.close _ (decide_eq_true hactive)

theorem close_blocked {row : Conversation} {reason : String}
    (hc : s.db.conversations.find? conversationId = some row)
    (h : close rt row reason context s = (.error (.integrity outboxKey), s')) :
    (row.messageCount + 1 : ℤ) ∈ usedNumbers s.db conversationId := by
  have hid : row.id = conversationId := Table.key_of_find? hc
  unfold close at h
  obtain ⟨endedAt, s₁, hnow, h⟩ := Quiet.ok_of_blocked (Tx.RaisesOnly.modifyGet _) h
  obtain ⟨-, rfl⟩ := Prod.mk.inj hnow
  obtain ⟨lastActivityAt, s₂, hnow, h⟩ := Quiet.ok_of_blocked (Tx.RaisesOnly.modifyGet _) h
  obtain ⟨-, rfl⟩ := Prod.mk.inj hnow
  obtain ⟨u, s₃, hsave, h⟩ := Quiet.ok_of_blocked (save_quiet _) h
  obtain ⟨-, -, hused⟩ := saveConversation_ok hsave hc hid
  rcases Tx.bind_eq_error h with h | ⟨u', s₄, -, h⟩
  · have hmem := publish_blocked h
    rwa [hid, hused] at hmem
  · obtain ⟨e, s₅, -, h⟩ := Quiet.ok_of_blocked append_quiet h
    simp at h

theorem close_notDurable (row : Conversation) (reason : String) :
    Tx.RaisesOnly (fun e => ¬e.Durable) (close rt row reason context) := by
  unfold close
  refine (Tx.RaisesOnly.modifyGet _).bind fun endedAt => (Tx.RaisesOnly.modifyGet _).bind fun now => ?_
  refine (save_quiet _).notDurable.bind fun _ => publish_notDurable.bind fun _ => ?_
  exact append_quiet.notDurable.bind fun _ => Tx.RaisesOnly.pure _

theorem finish_ok {reason : String} {r : Conversation} (hn : numbering s.db conversationId = some n)
    (h : finish rt accountId conversationId reason context s = (.ok r, s')) :
    ∃ n', numbering s'.db conversationId = some n' ∧ n.Step n' := by
  unfold finish at h
  obtain ⟨row, s₁, hlock, hrest⟩ := Tx.bind_eq_ok h
  obtain ⟨rfl, hc⟩ := lockConversation_ok hlock
  split at hrest
  · next hactive => exact close_ok hc hactive hn hrest
  · obtain ⟨-, rfl⟩ := Prod.mk.inj hrest
    exact ⟨n, hn, .same n⟩

/-- The end of a conversation is blocked only by an event numbered ahead of the counter. -/
theorem finish_blocked {reason : String} (hn : numbering s.db conversationId = some n)
    (h : finish rt accountId conversationId reason context s = (.error (.integrity outboxKey), s')) :
    n.active = true ∧ (n.count + 1 : ℤ) ∈ n.used := by
  unfold finish at h
  obtain ⟨row, s₁, hlock, hrest⟩ := lockConversation_quiet.ok_of_blocked h
  obtain ⟨rfl, hc⟩ := lockConversation_ok hlock
  split at hrest
  · next hactive =>
    obtain rfl := Option.some.inj ((numbering_of_find? hc).symm.trans hn)
    exact ⟨decide_eq_true hactive, close_blocked hc hrest⟩
  · simp at hrest

theorem finish_notDurable (reason : String) : Tx.RaisesOnly (fun e => ¬e.Durable)
    (finish rt accountId conversationId reason context) := by
  unfold finish
  refine lockConversation_quiet.notDurable.bind fun row => ?_
  split
  · exact close_notDurable _ _
  · exact Tx.RaisesOnly.pure _

end operations

end ConversationService

end KajovoDagmar
