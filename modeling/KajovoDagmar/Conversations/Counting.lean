import KajovoDagmar.Conversations.Service
import KajovoDagmar.Db.Sample
import KajovoDagmar.Library.ReadCommitted

/-! # Counting the turns of a conversation

The transactions that append turns, interleaved under READ COMMITTED: the turn of the API and of
the realtime handler, an assistant turn alone, and the answer of a corrected turn by the worker.
All of them lock the conversation before they number a turn by the table of messages.  The counter
is an attribute of the object of the conversation: the first two have loaded it with the lock, the
answer loads it before the model is called, and the later lock does not refresh it.

What an answer comes to is a part of its transaction: the reply that is appended, or none when the
stored answer is returned or the failure is kept.  An answer that is rolled back is aborted.
The tables on which neither the numbers nor the counter depend are left out. -/

namespace KajovoDagmar

open ReadCommitted ConversationService

namespace Counting

/-! ### Turns -/

/-- The reply of the assistant, with the run that it is of. -/
structure Reply where
  content : String
  idempotencyKey : String
  runId : Uuid

/-- A turn that is appended. -/
inductive Append where
  | user (request : UserTurn)
  | assistant (reply : Reply)

namespace Append

def idempotencyKey : Append → String
  | user request => request.idempotencyKey.val
  | assistant reply => reply.idempotencyKey

/-- The message of the turn. -/
def message (rt : Runtime) (conversationId id : Uuid) (sequence : ℕ) (now : DateTime) :
    Append → ConversationMessage
  | user request =>
    { id := id
      conversationId := conversationId
      sequence := sequence
      role := .user
      content := PythonText.strip request.content.val
      inputMode := request.inputMode
      status := "final"
      idempotencyKey := request.idempotencyKey.val
      requestHash := some (requestHash rt request)
      finalizedAt := some now }
  | assistant reply =>
    { id := id
      conversationId := conversationId
      sequence := sequence
      role := .assistant
      content := reply.content
      inputMode := .generated
      status := "final"
      idempotencyKey := reply.idempotencyKey
      responseRunId := some reply.runId
      interrupted := false
      finalizedAt := some now }

/-- The key of a user turn has been used for another request. -/
def conflicts (rt : Runtime) (existing : ConversationMessage) : Append → Bool
  | user request => existing.requestHash.elim false fun h => h ≠ "" ∧ h ≠ requestHash rt request
  | assistant _ => false

end Append

/-- The identity of a transaction, with its start and the first reading of its clock. -/
structure Txn where
  accountId : Uuid
  context : AuditContext
  began : DateTime
  tick : ℕ

section writes

variable (rt : Runtime)

/-- A new message, and the counters of the loaded object of its conversation.  The columns that
the session has not assigned keep what is stored. -/
def appendLoaded (object : Conversation) (message : ConversationMessage) : Work Conversation := do
  Db.conversationMessage.add rt message
  let now ← utcNow rt
  let row ← Db.conversation.find object.id
  let stored ← Tx.orRaise row (.other "StaleDataError")
  let updated := { object with
    messageCount := object.messageCount + 1, lastActivityAt := now, version := object.version + 1 }
  Db.conversation.save rt { stored with
    messageCount := updated.messageCount, lastActivityAt := now, version := updated.version }
  pure updated

/-- What is written for a turn with its sequence. -/
def writeDraft (x : Txn) (object : Conversation) (draft : Append × ℕ) : Work Conversation := do
  let id ← newUuid rt
  let now ← utcNow rt
  let updated ← appendLoaded rt object (draft.1.message rt object.id id draft.2 now)
  match draft.1 with
  | .user _ => do
    publish rt object.id "conversation.user_turn_finalized"
      (.obj [("conversation_id", .str (rt.strUuid object.id)), ("message_id", .str (rt.strUuid id))])
      updated.messageCount
    let _ ← AuditService.append rt x.context "conversation.user_turn_added" "success" none (some id)
      [("conversation_id", .str (rt.strUuid object.id)), ("sequence", .int draft.2)]
  | .assistant _ => pure ⟨⟩
  pure updated

def writeDrafts (x : Txn) : Conversation → List (Append × ℕ) → Work PUnit
  | _, [] => pure ⟨⟩
  | object, draft :: drafts => do
    let updated ← writeDraft rt x object draft
    writeDrafts x updated drafts

end writes

/-! ### The program -/

/-- Where a transaction stands: its next statement, with what it has read and has to write. -/
inductive Stage where
  /-- `POST /conversations/{conversation_id}/turns`, and the turn of the realtime handler. -/
  | turn (x : Txn) (conversationId : Uuid) (request : UserTurn) (reply : Option Reply)
  | assistantTurn (x : Txn) (conversationId : Uuid) (reply : Reply)
  /-- `corrected_turn_reprocess`. -/
  | reprocess (x : Txn) (messageId : Uuid) (reply : Reply)
  | loadConversation (x : Txn) (conversationId : Uuid) (reply : Reply)
  | answering (x : Txn) (object : Conversation) (reply : Reply)
  | findExisting (x : Txn) (object : Conversation) (drafts : List (Append × ℕ)) (turn : Append)
      (todo : List Append)
  | number (x : Txn) (object : Conversation) (drafts : List (Append × ℕ)) (turn : Append)
      (todo : List Append)
  | finish (x : Txn) (object : Conversation) (drafts : List (Append × ℕ))
  /-- The session is rolled back, or the job has nothing to write. -/
  | refused

/-- The stage after a turn. -/
def goOn (x : Txn) (object : Conversation) (drafts : List (Append × ℕ)) : List Append → Stage
  | [] => .finish x object drafts
  | turn :: todo => .findExisting x object drafts turn todo

/-- The next sequence: the last one of the table and of the own turns, and one. -/
def nextSequence (db : Db) (conversationId : Uuid) (drafts : List (Append × ℕ)) : ℕ :=
  (drafts.map Prod.snd).foldr max (maxSequence db conversationId) + 1

/-- The stored message with the key of a turn. -/
def existing? (db : Db) (conversationId : Uuid) (idempotencyKey : String) :
    Option ConversationMessage :=
  (db.conversationMessages.select fun m =>
    m.conversationId = conversationId ∧ m.idempotencyKey = idempotencyKey).head?

section program

variable (rt : Runtime)

/-- What a commit publishes. -/
def publishDrafts (x : Txn) (object : Conversation) (drafts : List (Append × ℕ)) (db : Db) : Db :=
  (Database.session (writeDrafts rt x object drafts) { db := db, began := x.began, tick := x.tick }).2.db

/-- The next statement of a transaction. -/
def stmt : Stage → Stmt Uuid Db Stage
  | .turn x conversationId request reply => .lock conversationId fun db =>
    match HistoryService.conversation? db x.accountId conversationId with
    | none => .refused
    | some row =>
      if row.state ≠ .active then .refused
      else .findExisting x row [] (.user request) (reply.toList.map .assistant)
  | .assistantTurn x conversationId reply => .lock conversationId fun db =>
    match db.conversations.find? conversationId with
    | none => .refused
    | some row => .findExisting x row [] (.assistant reply) []
  | .reprocess x messageId reply => .read fun db =>
    match db.conversationMessages.find? messageId with
    | none => .refused
    | some message => .loadConversation x message.conversationId reply
  | .loadConversation x conversationId reply => .read fun db =>
    match db.conversations.find? conversationId with
    | none => .refused
    | some object => .answering x object reply
  | .answering x object reply => .lock object.id fun db =>
    match db.conversations.find? object.id with
    | none => .refused
    | some _ => .findExisting x object [] (.assistant reply) []
  | .findExisting x object drafts turn todo => .read fun db =>
    if drafts.any (fun draft => draft.1.idempotencyKey = turn.idempotencyKey) then
      goOn x object drafts todo
    else
      match existing? db object.id turn.idempotencyKey with
      | none => .number x object drafts turn todo
      | some message => if turn.conflicts rt message then .refused else goOn x object drafts todo
  | .number x object drafts turn todo => .read fun db =>
    goOn x object (drafts ++ [(turn, nextSequence db object.id drafts)]) todo
  | .finish x object drafts => .commit fun db => some (publishDrafts rt x object drafts db)
  | .refused => .commit some

/-- A transaction begins with a request or with a job. -/
def initial : Stage → Bool
  | .turn _ _ _ _ | .assistantTurn _ _ _ | .reprocess _ _ _ | .loadConversation _ _ _ => true
  | _ => false

/-- Transactions that append turns, interleaved. -/
abbrev step := ReadCommitted.step (stmt rt) initial

end program

/-! ### Numbers -/

/-- The numbers after `m`, in order. -/
def numbersAfter (m count : ℕ) : List ℕ := (List.range count).map (m + 1 + ·)

theorem numbersAfter_succ (m count : ℕ) :
    numbersAfter m (count + 1) = numbersAfter m count ++ [m + count + 1] := by
  simp only [numbersAfter, List.range_succ, List.map_append, List.map_cons, List.map_nil,
    List.append_cancel_left_eq, List.cons.injEq, and_true]
  omega

theorem numbersAfter_append (m count count' : ℕ) :
    numbersAfter m count ++ numbersAfter (m + count) count' = numbersAfter m (count + count') := by
  induction count' with
  | zero => simp [numbersAfter]
  | succ n ih => rw [numbersAfter_succ, ← List.append_assoc, ih, ← Nat.add_assoc, numbersAfter_succ,
      Nat.add_assoc m count n]

/-- The largest of the numbers after `m` and of `m` itself. -/
theorem foldr_numbersAfter (m count : ℕ) : (numbersAfter m count).foldr max m = m + count := by
  induction count with
  | zero => rfl
  | succ n ih =>
      have hmax : ∀ (l : List ℕ) (k : ℕ), l.foldr max m ≤ k → (l ++ [k]).foldr max m = k := by
        intro l k hk
        induction l with
        | nil => simpa using hk
        | cons y l ih =>
            rw [List.foldr_cons] at hk
            rw [List.cons_append, List.foldr_cons, ih (by omega)]
            omega
      rw [numbersAfter_succ, hmax _ _ (by omega)]
      omega

/-- The sequences of the messages of a conversation, oldest first. -/
def sequencesOf (db : Db) (conversationId : Uuid) : List ℕ :=
  (db.conversationMessages.select fun m => m.conversationId = conversationId).map
    ConversationMessage.sequence

/-- The messages of every conversation are numbered from one. -/
def Sequenced (db : Db) : Prop :=
  ∀ c ∈ db.conversations, ∃ n, sequencesOf db c.id = numbersAfter 0 n

/-- The messages of every conversation are numbered from one to its counter. -/
def Counted (db : Db) : Prop :=
  ∀ c ∈ db.conversations, sequencesOf db c.id = numbersAfter 0 c.messageCount

theorem maxSequence_of_numbered {db : Db} {conversationId : Uuid} {n : ℕ}
    (h : sequencesOf db conversationId = numbersAfter 0 n) : maxSequence db conversationId = n := by
  have hmax : maxSequence db conversationId = (sequencesOf db conversationId).foldr max 0 := rfl
  rw [hmax, h, foldr_numbersAfter, Nat.zero_add]

/-! ### The row of a transaction -/

variable {rt : Runtime}

/-- The part of the store that belongs to a conversation. -/
def rowOf (db : Db) (k : Uuid) : Option Conversation × List ℕ :=
  (db.conversations.find? k, sequencesOf db k)

/-- The object and the turns of a transaction that has locked its conversation. -/
def draft? : Stage → Option (Conversation × List (Append × ℕ))
  | .findExisting _ object drafts _ _ | .number _ object drafts _ _ | .finish _ object drafts =>
    some (object, drafts)
  | .turn _ _ _ _ | .assistantTurn _ _ _ | .reprocess _ _ _ | .loadConversation _ _ _
  | .answering _ _ _ | .refused => none

def Holds (t : Stage) (k : Uuid) : Prop := ∃ o, draft? t = some o ∧ o.1.id = k

/-- The conversation is stored, and the new turns are numbered after its messages. -/
def Drafted (db : Db) (object : Conversation) (drafts : List (Append × ℕ)) : Prop :=
  (∃ stored, db.conversations.find? object.id = some stored) ∧
    drafts.map Prod.snd = numbersAfter (maxSequence db object.id) drafts.length

def Knows (db : Db) (t : Stage) : Prop := ∀ o, draft? t = some o → Drafted db o.1 o.2

@[simp] theorem draft?_goOn (x : Txn) (object : Conversation) (drafts : List (Append × ℕ))
    (todo : List Append) : draft? (goOn x object drafts todo) = some (object, drafts) := by
  cases todo with
  | nil => rfl
  | cons turn todo => rfl

theorem maxSequence_eq {db : Db} {conversationId : Uuid} :
    maxSequence db conversationId = (sequencesOf db conversationId).foldr max 0 := rfl

/-- What is known depends on the own conversation alone. -/
theorem Drafted.congr {db db' : Db} {object : Conversation} {drafts : List (Append × ℕ)}
    (h : Drafted db object drafts) (hrow : rowOf db' object.id = rowOf db object.id) :
    Drafted db' object drafts := by
  obtain ⟨hfind, hsequences⟩ := Prod.mk.inj hrow
  refine ⟨?_, ?_⟩
  · rw [hfind]
    exact h.1
  · rw [maxSequence_eq, hsequences]
    exact h.2

theorem Drafted.nil {db : Db} {object stored : Conversation}
    (h : db.conversations.find? object.id = some stored) : Drafted db object [] := ⟨⟨stored, h⟩, rfl⟩

/-- One more turn is numbered. -/
theorem Drafted.number {db : Db} {object : Conversation} {drafts : List (Append × ℕ)}
    (h : Drafted db object drafts) (turn : Append) :
    Drafted db object (drafts ++ [(turn, nextSequence db object.id drafts)]) := by
  refine ⟨h.1, ?_⟩
  rw [List.map_append, List.length_append, List.length_singleton, numbersAfter_succ, h.2]
  simp only [List.map_cons, List.map_nil, nextSequence, h.2, foldr_numbersAfter]

theorem knows_of_draft {db : Db} {t : Stage} {object : Conversation} {drafts : List (Append × ℕ)}
    (ht : draft? t = some (object, drafts)) (h : Drafted db object drafts) : Knows db t := by
  intro o ho
  obtain rfl := Option.some.inj (ht.symm.trans ho)
  exact h

theorem knows_of_none {db : Db} {t : Stage} (ht : draft? t = none) : Knows db t := by
  intro o ho
  rw [ht] at ho
  simp at ho

theorem knows_stable : Stable Holds rowOf Knows := by
  intro t db db' hsame h o ho
  exact (h o ho).congr (hsame o.1.id ⟨o, ho, rfl⟩)

/-- A statement that locks a conversation goes on with nothing to write, or it is the end. -/
theorem draft?_of_lock {t : Stage} {k : Uuid} {next : Db → Stage} (h : stmt rt t = .lock k next)
    (db : Db) : draft? (next db) = none ∨ ∃ object stored, draft? (next db) = some (object, []) ∧
      object.id = k ∧ db.conversations.find? k = some stored := by
  cases t with
  | turn x conversationId request reply =>
      obtain ⟨rfl, rfl⟩ := Stmt.lock.inj h
      dsimp only
      split
      · exact .inl rfl
      · next row hrow =>
        have hfind := (Option.filter_eq_some_iff.mp hrow).1
        split
        · exact .inl rfl
        · exact .inr ⟨row, row, rfl, Table.key_of_find? hfind, hfind⟩
  | assistantTurn x conversationId reply =>
      obtain ⟨rfl, rfl⟩ := Stmt.lock.inj h
      dsimp only
      split
      · exact .inl rfl
      · next row hrow => exact .inr ⟨row, row, rfl, Table.key_of_find? hrow, hrow⟩
  | answering x object reply =>
      obtain ⟨rfl, rfl⟩ := Stmt.lock.inj h
      dsimp only
      split
      · exact .inl rfl
      · next stored hstored => exact .inr ⟨object, stored, rfl, rfl, hstored⟩
  | _ => simp [stmt] at h

/-- A statement that reads keeps what there is to write, it numbers one more turn, or it is the
end. -/
theorem draft?_of_read {t : Stage} {next : Db → Stage} (h : stmt rt t = .read next) (db : Db) :
    draft? (next db) = none ∨ draft? (next db) = draft? t ∨
      ∃ object drafts turn, draft? t = some (object, drafts) ∧
        draft? (next db) = some (object, drafts ++ [(turn, nextSequence db object.id drafts)]) := by
  cases t with
  | reprocess x messageId reply =>
      obtain rfl := Stmt.read.inj h
      dsimp only
      split <;> exact .inl rfl
  | loadConversation x conversationId reply =>
      obtain rfl := Stmt.read.inj h
      dsimp only
      split <;> exact .inl rfl
  | findExisting x object drafts turn todo =>
      obtain rfl := Stmt.read.inj h
      dsimp only
      split
      · exact .inr (.inl (draft?_goOn _ _ _ _))
      split
      · exact .inr (.inl rfl)
      split
      · exact .inl rfl
      · exact .inr (.inl (draft?_goOn _ _ _ _))
  | number x object drafts turn todo =>
      obtain rfl := Stmt.read.inj h
      exact .inr (.inr ⟨object, drafts, turn, rfl, draft?_goOn _ _ _ _⟩)
  | _ => simp [stmt] at h

/-- The row ownership of the program. -/
theorem discipline : Discipline (stmt rt) initial Holds where
  start := by
    rintro t k ht ⟨o, ho, -⟩
    cases t <;> simp_all [initial, draft?]
  lock := by
    rintro t k next db k' hstmt ⟨o, ho, rfl⟩
    rcases draft?_of_lock hstmt db with hnone | ⟨object, stored, hdraft, rfl, -⟩
    · rw [hnone] at ho
      simp at ho
    · obtain rfl := Option.some.inj (hdraft.symm.trans ho)
      exact .inl rfl
  read := by
    rintro t next db k hstmt ⟨o, ho, rfl⟩
    rcases draft?_of_read hstmt db with hnone | hsame | ⟨object, drafts, turn, ht, hnext⟩
    · rw [hnone] at ho
      simp at ho
    · exact ⟨o, hsame.symm.trans ho, rfl⟩
    · obtain rfl := Option.some.inj (hnext.symm.trans ho)
      exact ⟨(object, drafts), ht, rfl⟩

/-! ### What a commit does -/

/-- The tables of turns. -/
def turnRows (db : Db) : Table Conversation.id × Table ConversationMessage.id :=
  (db.conversations, db.conversationMessages)

theorem rowOf_congr {db db' : Db} (h : turnRows db' = turnRows db) (k : Uuid) :
    rowOf db' k = rowOf db k := by
  obtain ⟨hconversations, hmessages⟩ := Prod.mk.inj h
  simp only [rowOf, sequencesOf, hconversations, hmessages]

/-- The messages with the given sequences have been added to a conversation, whose counter is
then `count`. -/
structure Appended (conversationId : Uuid) (numbers : List ℕ) (count : ℕ) (db db' : Db) : Prop where
  others : ∀ k, k ≠ conversationId → rowOf db' k = rowOf db k
  sequences : sequencesOf db' conversationId = sequencesOf db conversationId ++ numbers
  counter : ∃ stored, db'.conversations.find? conversationId = some stored ∧ stored.messageCount = count

theorem Appended.congr {conversationId : Uuid} {numbers : List ℕ} {count : ℕ} {db db₁ db₂ : Db}
    (h : Appended conversationId numbers count db db₁) (hrows : turnRows db₂ = turnRows db₁) :
    Appended conversationId numbers count db db₂ := by
  have hrow := rowOf_congr hrows
  constructor
  · exact fun k hk => (hrow k).trans (h.others k hk)
  · exact (Prod.mk.inj (hrow conversationId)).2.trans h.sequences
  · obtain ⟨stored, hstored, hcount⟩ := h.counter
    exact ⟨stored, (Prod.mk.inj (hrow conversationId)).1.trans hstored, hcount⟩

theorem Appended.trans {conversationId : Uuid} {numbers numbers' : List ℕ} {count count' : ℕ}
    {db db' db'' : Db} (h : Appended conversationId numbers count db db')
    (h' : Appended conversationId numbers' count' db' db'') :
    Appended conversationId (numbers ++ numbers') count' db db'' where
  others k hk := (h'.others k hk).trans (h.others k hk)
  sequences := by rw [h'.sequences, h.sequences, List.append_assoc]
  counter := h'.counter

theorem appendLoaded_ok {object updated : Conversation} {message : ConversationMessage}
    {s s' : Session} (hmessage : message.conversationId = object.id)
    (h : appendLoaded rt object message s = (.ok updated, s')) :
    updated.id = object.id ∧ updated.messageCount = object.messageCount + 1 ∧
      Appended object.id [message.sequence] (object.messageCount + 1) s.db s'.db := by
  obtain ⟨u, s₁, hadd, h₁⟩ := Tx.bind_eq_ok h
  obtain ⟨now, s₂, hnow, h₂⟩ := Tx.bind_eq_ok h₁
  obtain ⟨-, rfl⟩ := Prod.mk.inj hnow
  obtain ⟨row, s₃, hrow, h₃⟩ := Tx.bind_eq_ok h₂
  obtain ⟨hfind, rfl⟩ := Prod.mk.inj hrow
  obtain rfl := Except.ok.inj hfind
  obtain ⟨stored, hstored, h₄⟩ := Tx.orRaise_bind_eq_ok h₃
  obtain ⟨u', s₄, hsave, h₅⟩ := Tx.bind_eq_ok h₄
  obtain ⟨hupdated, rfl⟩ := Prod.mk.inj h₅
  obtain rfl := Except.ok.inj hupdated
  obtain ⟨t, ht, rfl⟩ := Relation.add_eq_ok hadd
  obtain rfl := Relation.save_eq_ok hsave
  have hid : stored.id = object.id := Table.key_of_find? hstored
  have hrows := (Table.insert?_eq_some (Relation.insertRow_eq_ok ht).1).1
  refine ⟨rfl, rfl, ?_, ?_, ?_⟩
  · intro k hk
    have hne : k ≠ stored.id := by rw [hid]; exact hk
    refine Prod.ext (Table.find?_put_of_ne hne) ?_
    change (t.rows.filter _).map _ = (s.db.conversationMessages.rows.filter _).map _
    rw [hrows, List.filter_append, List.map_append]
    simp [hmessage, hk.symm, Db.conversationMessage]
  · change (t.rows.filter _).map _ = (s.db.conversationMessages.rows.filter _).map _ ++ _
    rw [hrows, List.filter_append, List.map_append]
    simp [hmessage, Db.conversationMessage]
  · refine ⟨{ stored with messageCount := object.messageCount + 1, lastActivityAt := now
                          version := object.version + 1 }, ?_, rfl⟩
    rw [← hid] at hstored ⊢
    exact Table.find?_put_self hstored

theorem writeDraft_ok {x : Txn} {object updated : Conversation} {draft : Append × ℕ} {s s' : Session}
    (h : writeDraft rt x object draft s = (.ok updated, s')) :
    updated.id = object.id ∧ updated.messageCount = object.messageCount + 1 ∧
      Appended object.id [draft.2] (object.messageCount + 1) s.db s'.db := by
  obtain ⟨turn, sequence⟩ := draft
  obtain ⟨id, s₁, hid, h₁⟩ := Tx.bind_eq_ok h
  obtain ⟨-, rfl⟩ := Prod.mk.inj hid
  obtain ⟨now, s₂, hnow, h₂⟩ := Tx.bind_eq_ok h₁
  obtain ⟨-, rfl⟩ := Prod.mk.inj hnow
  obtain ⟨updated', s₃, happend, h₃⟩ := Tx.bind_eq_ok h₂
  have hmessage : (turn.message rt object.id id sequence now).conversationId = object.id := by
    cases turn <;> rfl
  have hsequence : (turn.message rt object.id id sequence now).sequence = sequence := by
    cases turn <;> rfl
  obtain ⟨hsame, hcount, happended⟩ := appendLoaded_ok hmessage happend
  rw [hsequence] at happended
  cases turn with
  | assistant reply =>
      obtain ⟨hupdated, rfl⟩ := Prod.mk.inj h₃
      obtain rfl := Except.ok.inj hupdated
      exact ⟨hsame, hcount, happended⟩
  | user request =>
      obtain ⟨u, s₄, hpublish, h₄⟩ := Tx.bind_eq_ok h₃
      obtain ⟨e, s₅, haudit, h₅⟩ := Tx.bind_eq_ok h₄
      obtain ⟨hupdated, rfl⟩ := Prod.mk.inj h₅
      obtain rfl := Except.ok.inj hupdated
      have hpublished : turnRows s₄.db = turnRows s₃.db := by
        refine Tx.Keeps.of_apply (R := Same turnRows) ?_ hpublish
        refine (Same.newUuid rt).bind fun id => (Tx.Keeps.gets _).bind fun began => ?_
        exact Relation.add_keeps (fun _ _ => rfl) _
      have haudited : turnRows s₅.db = turnRows s₄.db :=
        Tx.Keeps.of_apply (R := Same turnRows) (AuditService.append_keeps fun _ _ => rfl) haudit
      exact ⟨hsame, hcount, happended.congr (haudited.trans hpublished)⟩

/-- The turns that a transaction writes, one after the other. -/
theorem writeDrafts_ok {x : Txn} {object : Conversation} {drafts : List (Append × ℕ)}
    {s s' : Session} {u : PUnit} (h : writeDrafts rt x object drafts s = (.ok u, s'))
    (hdrafts : drafts ≠ []) :
    Appended object.id (drafts.map Prod.snd) (object.messageCount + drafts.length) s.db s'.db := by
  induction drafts generalizing object s with
  | nil => exact absurd rfl hdrafts
  | cons draft drafts ih =>
      obtain ⟨updated, s₁, hdraft, hrest⟩ := Tx.bind_eq_ok h
      obtain ⟨hid, hcount, happended⟩ := writeDraft_ok hdraft
      cases drafts with
      | nil =>
          obtain ⟨-, rfl⟩ := Prod.mk.inj hrest
          exact happended
      | cons next drafts =>
          have hnext := ih hrest (List.cons_ne_nil _ _)
          rw [hid, hcount] at hnext
          have hlength : object.messageCount + 1 + (next :: drafts).length =
              object.messageCount + (draft :: next :: drafts).length := by
            simp only [List.length_cons]
            omega
          rw [← hlength]
          exact happended.trans hnext

theorem appendLoaded_noDomain (object : Conversation) (message : ConversationMessage) :
    NoDomain (appendLoaded rt object message) := by
  refine (Relation.add_noDomain _).bind fun _ => (utcNow_noDomain rt).bind fun now => ?_
  refine (Tx.RaisesOnly.gets _).bind fun row => (orRaise_noDomain _ _).bind fun stored => ?_
  exact (Relation.save_noDomain _).bind fun _ => Tx.RaisesOnly.pure _

theorem writeDraft_noDomain (x : Txn) (object : Conversation) (draft : Append × ℕ) :
    NoDomain (writeDraft rt x object draft) := by
  refine (newUuid_noDomain rt).bind fun id => (utcNow_noDomain rt).bind fun now => ?_
  refine (appendLoaded_noDomain _ _).bind fun updated => ?_
  have hpure : NoDomain (pure updated : Work Conversation) := Tx.RaisesOnly.pure _
  obtain ⟨turn, sequence⟩ := draft
  cases turn with
  | assistant reply => exact hpure
  | user request =>
      refine Tx.RaisesOnly.bind ?_ fun _ => ?_
      · refine (newUuid_noDomain rt).bind fun id => (Tx.RaisesOnly.gets _).bind fun began => ?_
        exact Relation.add_noDomain _
      · exact AuditService.append_noDomain.bind fun _ => hpure

theorem writeDrafts_noDomain (x : Txn) (object : Conversation) (drafts : List (Append × ℕ)) :
    NoDomain (writeDrafts rt x object drafts) := by
  induction drafts generalizing object with
  | nil => exact Tx.RaisesOnly.pure _
  | cons draft drafts ih => exact (writeDraft_noDomain _ _ _).bind fun updated => ih updated

/-- **What a commit does to the turns**: it appends what has been drafted, or nothing. -/
theorem publishDrafts_cases (x : Txn) (object : Conversation) (drafts : List (Append × ℕ)) (db : Db) :
    (∀ k, rowOf (publishDrafts rt x object drafts db) k = rowOf db k) ∨
      (drafts ≠ [] ∧ Appended object.id (drafts.map Prod.snd) (object.messageCount + drafts.length)
        db (publishDrafts rt x object drafts db)) := by
  unfold publishDrafts
  rcases hs : Database.session (writeDrafts rt x object drafts)
    { db := db, began := x.began, tick := x.tick } with ⟨r, s'⟩
  rcases Database.session_cases (writeDrafts_noDomain x object drafts).notDurable hs with
    ⟨u, -, hwork⟩ | hdb
  · cases drafts with
    | nil =>
        obtain ⟨-, rfl⟩ := Prod.mk.inj hwork
        exact .inl fun k => rfl
    | cons draft drafts => exact .inr ⟨List.cons_ne_nil _ _, writeDrafts_ok hwork (List.cons_ne_nil _ _)⟩
  · exact .inl fun k => rowOf_congr (congrArg turnRows hdb) k

/-- A commit, in the program. -/
theorem rowOf_of_commit {t : Stage} {publish : Db → Option Db} {db db' : Db}
    (hstmt : stmt rt t = .commit publish) (hpublish : publish db = some db') :
    (∀ k, rowOf db' k = rowOf db k) ∨ ∃ x object drafts, t = .finish x object drafts ∧ drafts ≠ [] ∧
      Appended object.id (drafts.map Prod.snd) (object.messageCount + drafts.length) db db' := by
  cases t with
  | finish x object drafts =>
      obtain rfl := Stmt.commit.inj hstmt
      obtain rfl := Option.some.inj hpublish
      rcases publishDrafts_cases x object drafts db with hsame | ⟨hdrafts, happended⟩
      · exact .inl hsame
      · exact .inr ⟨x, object, drafts, rfl, hdrafts, happended⟩
  | refused =>
      obtain rfl := Stmt.commit.inj hstmt
      obtain rfl := Option.some.inj hpublish
      exact .inl fun k => rfl
  | _ => simp [stmt] at hstmt

theorem knows_local : Local (stmt rt) Holds rowOf Knows := by
  intro t publish db db' k hstmt _ hpublish hnot
  rcases rowOf_of_commit hstmt hpublish with hsame | ⟨x, object, drafts, rfl, -, happended⟩
  · exact hsame k
  · exact happended.others k fun hk => hnot ⟨(object, drafts), rfl, hk.symm⟩

/-! ### The writes by a current object -/

/-- By an object that is the stored row a message is appended as the service appends it. -/
theorem appendLoaded_eq {c : Conversation} {message : ConversationMessage} {s : Session}
    (hc : s.db.conversations.find? c.id = some c) :
    appendLoaded rt c message s = appendMessage rt c message s := by
  unfold appendLoaded appendMessage
  rcases hadd : Db.conversationMessage.add rt message s with ⟨e | u, s₁⟩
  · rw [Tx.bind_of_error hadd, Tx.bind_of_error hadd]
  · rw [Tx.bind_of_ok hadd, Tx.bind_of_ok hadd]
    obtain ⟨t, -, rfl⟩ := Relation.add_eq_ok hadd
    have hnow : utcNow rt { s with db := Db.conversationMessage.set t s.db } =
        (.ok (.utc (rt.clock s.tick)),
          { s with db := Db.conversationMessage.set t s.db, tick := s.tick + 1 }) := rfl
    rw [Tx.bind_of_ok hnow, Tx.bind_of_ok hnow]
    unfold Relation.find
    rw [Tx.gets_bind_apply]
    have hfind : (Db.conversation.get (Db.conversationMessage.set t s.db)).find? c.id = some c := hc
    simp only [hfind, Tx.orRaise_some, Tx.pure_bind]

/-- A user turn that is numbered after the stored messages is the one that the service inserts. -/
theorem insertUserTurn_eq {x : Txn} {c : Conversation} {request : UserTurn} {s : Session}
    (hc : s.db.conversations.find? c.id = some c) :
    (insertUserTurn rt c request x.context s).2 =
      (writeDraft rt x c (.user request, maxSequence s.db c.id + 1) s).2 := by
  unfold insertUserTurn writeDraft
  rw [Tx.gets_bind_apply]
  have hid : newUuid rt s = (.ok (rt.uuid4 s.tick), { s with tick := s.tick + 1 }) := rfl
  rw [Tx.bind_of_ok hid, Tx.bind_of_ok hid]
  have hnow : utcNow rt { s with tick := s.tick + 1 } =
      (.ok (.utc (rt.clock (s.tick + 1))), { s with tick := s.tick + 1 + 1 }) := rfl
  rw [Tx.bind_of_ok hnow, Tx.bind_of_ok hnow]
  have hc' : ({ s with tick := s.tick + 1 + 1 } : Session).db.conversations.find? c.id = some c := hc
  rcases happend : appendLoaded rt c (Append.message rt c.id (rt.uuid4 s.tick)
      (maxSequence s.db c.id + 1) (.utc (rt.clock (s.tick + 1))) (.user request))
      { s with tick := s.tick + 1 + 1 } with ⟨e | updated, s₁⟩
  · rw [Tx.bind_of_error happend]
    rw [appendLoaded_eq hc'] at happend
    exact congrArg Prod.snd (Tx.bind_of_error happend)
  · obtain ⟨hid, -, -⟩ := appendLoaded_ok rfl happend
    rw [Tx.bind_of_ok happend]
    rw [appendLoaded_eq hc'] at happend
    refine (congrArg Prod.snd (Tx.bind_of_ok happend)).trans ?_
    dsimp only
    rw [hid]
    rcases hpublish : publish rt c.id "conversation.user_turn_finalized"
        (.obj [("conversation_id", .str (rt.strUuid c.id)),
          ("message_id", .str (rt.strUuid (rt.uuid4 s.tick)))]) updated.messageCount s₁
      with ⟨e | u, s₂⟩
    · rw [Tx.bind_of_error hpublish, Tx.bind_of_error hpublish]
    · rw [Tx.bind_of_ok hpublish, Tx.bind_of_ok hpublish]
      rcases haudit : AuditService.append rt x.context "conversation.user_turn_added" "success" none
          (some (rt.uuid4 s.tick)) [("conversation_id", .str (rt.strUuid c.id)),
            ("sequence", .int ((maxSequence s.db c.id + 1 : ℕ) : ℤ))] s₂ with ⟨e | v, s₃⟩
      · rw [Tx.bind_of_error haudit, Tx.bind_of_error haudit]
      · rw [Tx.bind_of_ok haudit, Tx.bind_of_ok haudit]
        rfl

/-- So is an assistant turn. -/
theorem addAssistantTurn_eq {x : Txn} {c : Conversation} {reply : Reply} {s : Session}
    (hc : s.db.conversations.find? c.id = some c)
    (hnew : existing? s.db c.id reply.idempotencyKey = none) :
    (addAssistantTurn rt c.id reply.content reply.idempotencyKey reply.runId false s).2 =
      (writeDraft rt x c (.assistant reply, maxSequence s.db c.id + 1) s).2 := by
  unfold addAssistantTurn writeDraft
  have hfind : Db.conversation.find c.id s = (.ok (some c), s) := by
    unfold Relation.find
    rw [Tx.gets_apply]
    exact Prod.ext (congrArg Except.ok hc) rfl
  rw [Tx.bind_of_ok hfind, Tx.orRaise_some, Tx.pure_bind]
  have hexisting : byIdempotencyKey c.id reply.idempotencyKey s = (.ok none, s) :=
    Prod.ext (congrArg Except.ok hnew) rfl
  rw [Tx.bind_of_ok hexisting]
  dsimp only
  rw [Tx.gets_bind_apply]
  have hid : newUuid rt s = (.ok (rt.uuid4 s.tick), { s with tick := s.tick + 1 }) := rfl
  rw [Tx.bind_of_ok hid, Tx.bind_of_ok hid]
  have hnow : utcNow rt { s with tick := s.tick + 1 } =
      (.ok (.utc (rt.clock (s.tick + 1))), { s with tick := s.tick + 1 + 1 }) := rfl
  rw [Tx.bind_of_ok hnow, Tx.bind_of_ok hnow]
  have hc' : ({ s with tick := s.tick + 1 + 1 } : Session).db.conversations.find? c.id = some c := hc
  rcases happend : appendLoaded rt c (Append.message rt c.id (rt.uuid4 s.tick)
      (maxSequence s.db c.id + 1) (.utc (rt.clock (s.tick + 1))) (.assistant reply))
      { s with tick := s.tick + 1 + 1 } with ⟨e | updated, s₁⟩
  · rw [Tx.bind_of_error happend]
    rw [appendLoaded_eq hc'] at happend
    exact congrArg Prod.snd (Tx.bind_of_error happend)
  · rw [Tx.bind_of_ok happend]
    rw [appendLoaded_eq hc'] at happend
    exact congrArg Prod.snd (Tx.bind_of_ok happend)

/-! ### Runs -/

section runs

/-- What holds between two events. -/
structure Inv (s : State Uuid Db Stage) : Prop where
  held : Held Holds s
  knows : Asserted Knows s

variable {s s' : State Uuid Db Stage} {e : Event Stage}

theorem Inv.of_quiet (hs : s.Quiet) : Inv s := ⟨Held.of_quiet hs, Asserted.of_quiet hs⟩

/-- **Step lemma**. -/
theorem Inv.of_step (h : Inv s) (hs : step rt s e = some s') : Inv s' where
  held := h.held.of_step discipline hs
  knows := by
    refine Asserted.of_local knows_local knows_stable ?_ ?_ ?_ h.held h.knows hs
    · intro db t ht
      refine knows_of_none ?_
      cases t <;> simp_all [initial, draft?]
    · intro db t k next hstmt _
      rcases draft?_of_lock hstmt db with hnone | ⟨object, stored, hdraft, rfl, hstored⟩
      · exact knows_of_none hnone
      · exact knows_of_draft hdraft (.nil hstored)
    · intro db t next hstmt hknows
      rcases draft?_of_read hstmt db with hnone | hsame | ⟨object, drafts, turn, ht, hnext⟩
      · exact knows_of_none hnone
      · exact fun o ho => hknows o (hsame.symm.trans ho)
      · exact knows_of_draft hnext ((hknows _ ht).number turn)

/-- The event commits turns by an object of the conversation whose counter is not the stored
one. -/
def Miscounts (s : State Uuid Db Stage) (e : Event Stage) : Prop :=
  ∃ i x object drafts stored, e = .exec i ∧ s.txn i = some (.finish x object drafts) ∧ drafts ≠ [] ∧
    s.store.conversations.find? object.id = some stored ∧ object.messageCount ≠ stored.messageCount

/-- What a step does to a conversation: it stays, or a transaction appends turns to it that are
numbered after its messages, and counts them from the counter of its object. -/
theorem Inv.cases_of_step (h : Inv s) (hs : step rt s e = some s') :
    (∀ k, rowOf s'.store k = rowOf s.store k) ∨ ∃ i x object drafts, e = .exec i ∧
      s.txn i = some (.finish x object drafts) ∧ drafts ≠ [] ∧
      Appended object.id (numbersAfter (maxSequence s.store object.id) drafts.length)
        (object.messageCount + drafts.length) s.store s'.store := by
  rcases store_eq_or_commit hs with hsame | ⟨i, t, publish, rfl, ht, hstmt, hpublish⟩
  · exact .inl fun k => by rw [hsame]
  rcases rowOf_of_commit hstmt hpublish with hsame | ⟨x, object, drafts, rfl, hdrafts, happended⟩
  · exact .inl hsame
  · have hdrafted := h.knows i _ ht (object, drafts) rfl
    rw [hdrafted.2] at happended
    exact .inr ⟨i, x, object, drafts, rfl, ht, hdrafts, happended⟩

theorem mem_of_rowOf {db db' : Db} {c : Conversation} (h : rowOf db' c.id = rowOf db c.id)
    (hc : c ∈ db'.conversations) : c ∈ db.conversations := by
  have hfind : db.conversations.find? c.id = some c := by
    rw [← (Prod.mk.inj h).1]
    exact Table.find?_of_mem hc
  exact Table.mem_of_find? hfind

/-- **Step lemma**: the sequences stay without a gap, whatever the counter is. -/
theorem Inv.sequenced_of_step (h : Inv s) (hseq : Sequenced s.store) (hs : step rt s e = some s') :
    Sequenced s'.store := by
  intro c hc
  rcases h.cases_of_step hs with hsame | ⟨i, x, object, drafts, -, ht, -, happended⟩
  · obtain ⟨n, hn⟩ := hseq c (mem_of_rowOf (hsame c.id) hc)
    exact ⟨n, (Prod.mk.inj (hsame c.id)).2.trans hn⟩
  by_cases hid : c.id = object.id
  · obtain ⟨stored, hstored⟩ := (h.knows i _ ht (object, drafts) rfl).1
    obtain ⟨n, hn⟩ := hseq stored (Table.mem_of_find? hstored)
    rw [Table.key_of_find? hstored] at hn
    refine ⟨n + drafts.length, ?_⟩
    rw [hid, happended.sequences, maxSequence_of_numbered hn, hn]
    have happend := numbersAfter_append 0 n drafts.length
    rwa [Nat.zero_add] at happend
  · obtain ⟨n, hn⟩ := hseq c (mem_of_rowOf (happended.others c.id hid) hc)
    exact ⟨n, (Prod.mk.inj (happended.others c.id hid)).2.trans hn⟩

/-- **Step lemma**: a step that does not miscount keeps the counters. -/
theorem Inv.counted_of_step (h : Inv s) (hcounted : Counted s.store) (hnot : ¬Miscounts s e)
    (hs : step rt s e = some s') : Counted s'.store := by
  intro c hc
  rcases h.cases_of_step hs with hsame | ⟨i, x, object, drafts, rfl, ht, hdrafts, happended⟩
  · exact (Prod.mk.inj (hsame c.id)).2.trans (hcounted c (mem_of_rowOf (hsame c.id) hc))
  by_cases hid : c.id = object.id
  · obtain ⟨stored, hstored⟩ := (h.knows i _ ht (object, drafts) rfl).1
    have hn := hcounted stored (Table.mem_of_find? hstored)
    rw [Table.key_of_find? hstored] at hn
    have hobject : object.messageCount = stored.messageCount := by
      by_contra hne
      exact hnot ⟨i, x, object, drafts, stored, rfl, ht, hdrafts, hstored, hne⟩
    obtain ⟨stored', hstored', hcount⟩ := happended.counter
    rw [← hid] at hstored'
    obtain rfl : c = stored' := Option.some.inj ((Table.find?_of_mem hc).symm.trans hstored')
    rw [hcount, hobject, hid, happended.sequences, maxSequence_of_numbered hn, hn]
    have happend := numbersAfter_append 0 stored.messageCount drafts.length
    rwa [Nat.zero_add] at happend
  · have hmem := mem_of_rowOf (happended.others c.id hid) hc
    exact (Prod.mk.inj (happended.others c.id hid)).2.trans (hcounted c hmem)

end runs

/-- The sequences of every conversation stay without a gap in every interleaving. -/
theorem sequenced_of_run {s t : State Uuid Db Stage} {events : List (Event Stage)} (hs : s.Quiet)
    (hseq : Sequenced s.store) (hrun : Runs.run (step rt) s events = some t) : Sequenced t.store :=
  (Runs.inv_of_run (I := fun s => Inv s ∧ Sequenced s.store)
    (fun _ _ _ h hs => ⟨h.1.of_step hs, h.1.sequenced_of_step h.2 hs⟩) ⟨.of_quiet hs, hseq⟩ hrun).2

/-- **The messages of every conversation are numbered from one to its counter** in every committed
state of a run in which no turn is counted by an object that another transaction has outdated. -/
theorem counted_of_run {s t : State Uuid Db Stage} {events : List (Event Stage)} (hs : s.Quiet)
    (hcounted : Counted s.store) (hcond : Runs.Along (step rt) (fun s e => ¬Miscounts s e) s events)
    (hrun : Runs.run (step rt) s events = some t) : Counted t.store :=
  (Runs.inv_of_along (I := fun s => Inv s ∧ Counted s.store)
    (fun _ _ _ h hnot hs => ⟨h.1.of_step hs, h.1.counted_of_step h.2 hnot hs⟩)
    ⟨.of_quiet hs, hcounted⟩ hcond hrun).2

/-! ### A turn during the answer of a corrected turn -/

def sampleRuntime : Runtime := .sample 1767268800000000 []

def userContext : AuditContext := { actorType := "user", actorId := some 1 }

/-- The sample conversation with its first message, before any transaction. -/
def conversationState : State Uuid Db Stage where
  store := .sample (.singleton (.sample "Pojedeme do Prahy."))
  owner _ := none
  txn _ := none

/-- The worker answers the corrected first message. -/
def reprocessing : Stage := .reprocess ⟨1, userContext, .utc 1767268800000000, 0⟩ 3
  ⟨"Kdy pojedete?", "assistant-0000000000000001", 20⟩

/-- The user goes on with a turn, whose answer fails. -/
def userTurn : Stage := .turn ⟨1, userContext, .utc 1767268800000000, 100⟩ 2
  { idempotencyKey := ⟨"turn-0000000000000002", by decide⟩, content := ⟨"V pondělí.", by decide +kernel⟩
    inputMode := .text } none

/-- The turn is committed between the loading of the conversation and its lock. -/
def overtaken : List (Event Stage) :=
  [.start 1 reprocessing, .exec 1, .exec 1] ++ whole 2 userTurn 3 ++ List.replicate 4 (.exec 1)

theorem conversationState_counted : Counted conversationState.store := by
  intro c hc
  obtain rfl := List.mem_singleton.mp hc
  decide

/-- A counter can fall behind the messages of its conversation. -/
theorem turn_uncounted : ¬∀ (rt : Runtime) (s t : State Uuid Db Stage) (events : List (Event Stage)),
    s.Quiet → Counted s.store → Runs.run (step rt) s events = some t → Counted t.store := by
  intro h
  have hrun : (match Runs.run (step sampleRuntime) conversationState overtaken with
      | some t => t.store.conversations.rows.any fun c =>
          decide (sequencesOf t.store c.id ≠ numbersAfter 0 c.messageCount)
      | none => false) = true := by
    decide +kernel
  rcases ht : Runs.run (step sampleRuntime) conversationState overtaken with _ | t <;>
    simp only [ht] at hrun
  · simp at hrun
  obtain ⟨c, hc, hdiffers⟩ := List.any_eq_true.mp hrun
  exact of_decide_eq_true hdiffers (h sampleRuntime conversationState t overtaken (fun _ => rfl)
    conversationState_counted ht c hc)

/-- The event ends no transaction whose conversation has been counted further meanwhile. -/
def finishesFresh (s : State Uuid Db Stage) : Event Stage → Bool
  | .exec i => (s.txn i).all fun t => match t with
    | .finish _ object _ => (s.store.conversations.find? object.id).all fun stored =>
        decide (object.messageCount = stored.messageCount)
    | _ => true
  | _ => true

/-- The turn is committed before the answer begins. -/
def oneByOne : List (Event Stage) := whole 2 userTurn 3 ++ whole 1 reprocessing 5

theorem counted_of_run_oneByOne : ∃ t, Runs.run (step sampleRuntime) conversationState oneByOne = some t ∧
    t.store.conversations.rows.map Conversation.messageCount = [3] ∧ Counted t.store := by
  have hrun : (match Runs.run (step sampleRuntime) conversationState oneByOne with
      | some t => decide (t.store.conversations.rows.map Conversation.messageCount = [3])
      | none => false) = true := by
    decide +kernel
  rcases ht : Runs.run (step sampleRuntime) conversationState oneByOne with _ | t <;>
    simp only [ht] at hrun
  · simp at hrun
  refine ⟨t, rfl, of_decide_eq_true hrun,
    counted_of_run (fun _ => rfl) conversationState_counted ?_ ht⟩
  refine Runs.Along.of_alongB (c := finishesFresh) ?_ (by decide +kernel)
  rintro s e he ⟨i, x, object, drafts, stored, rfl, ht, -, hstored, hdiffers⟩
  simp [finishesFresh, ht, hstored, hdiffers] at he

end Counting

end KajovoDagmar
