import KajovoDagmar.Conversations.Numbering
import KajovoDagmar.Db.Sample
import KajovoDagmar.Library.JsonText
import Mathlib.Data.List.Induction

/-! # Repeated user turns

A user turn is recognised by its idempotency key and the hash of its request.  User and assistant messages
share the keys of a conversation and an assistant message carries no hash, so a request whose key is that of
an assistant message is answered with that message; every other request is idempotent
(`user_turn_idempotent_iff`). -/

namespace KajovoDagmar.ConversationService

/-! ### Requests -/

variable {rt : Runtime}

/-- The text that is hashed for a request. -/
def requestText (request : UserTurn) : String :=
  Json.dumpsSorted (.obj
    [("content", .str (PythonText.strip request.content.val)),
     ("input_mode", .str request.inputMode.name),
     ("language", .str request.language)])

theorem requestHash_eq (request : UserTurn) : requestHash rt request = rt.sha256 (requestText request) := rfl

/-- Two requests for one turn: the same stripped content, input mode and language. -/
structure SameTurn (r r' : UserTurn) : Prop where
  content : PythonText.strip r.content.val = PythonText.strip r'.content.val
  inputMode : r.inputMode = r'.inputMode
  language : r.language = r'.language

theorem inputMode_name_injective {a b : InputMode} (h : a.name = b.name) : a = b := by
  cases a <;> cases b <;> first | rfl | exact absurd h (by decide)

/-- The hashed text determines the turn. -/
theorem requestText_eq_iff {r r' : UserTurn} : requestText r = requestText r' ↔ SameTurn r r' := by
  constructor
  · intro h
    have hsame := Json.same_of_dumpsSorted (by simp [Json.Printed, Json.printedEntries_iff])
      (by simp [Json.Printed, Json.printedEntries_iff]) h
    have hvalue : ∀ k v v', (k, Json.str v) ∈ [("content", Json.str (PythonText.strip r.content.val)),
        ("input_mode", .str r.inputMode.name), ("language", .str r.language)] →
        (∀ w, (k, w) ∈ [("content", Json.str (PythonText.strip r'.content.val)),
          ("input_mode", .str r'.inputMode.name), ("language", .str r'.language)] → w = .str v') → v = v' := by
      intro k v v' hmem hunique
      obtain ⟨w, hw, hs⟩ := hsame.entry hmem
      obtain rfl := hunique w hw
      simpa [Json.Same, Json.sortKeys] using hs
    refine ⟨hvalue "content" _ _ (by simp) ?_, inputMode_name_injective (hvalue "input_mode" _ _ (by simp) ?_),
      hvalue "language" _ _ (by simp) ?_⟩ <;> simp
  · rintro ⟨hcontent, hmode, hlanguage⟩
    unfold requestText
    rw [hcontent, hmode, hlanguage]

/-! ### Turns -/

/-- A turn of a conversation, by the user or by the assistant. -/
inductive Turn where
  | user (accountId conversationId : Uuid) (request : UserTurn) (context : AuditContext)
  | assistant (conversationId : Uuid) (content idempotencyKey : String) (runId : Uuid) (interrupted : Bool)

/-- A turn in a session of its own. -/
structure TurnCall where
  turn : Turn
  began : DateTime

def Turn.work (rt : Runtime) : Turn → Work ConversationMessage
  | user accountId conversationId request context => addUserTurn rt accountId conversationId request context
  | assistant conversationId content idempotencyKey runId interrupted =>
    addAssistantTurn rt conversationId content idempotencyKey runId interrupted

def TurnCall.perform (rt : Runtime) (call : TurnCall) (s : Session) : Session :=
  (Database.session (call.turn.work rt) { s with began := call.began }).2

/-- The session after the calls. -/
def after (rt : Runtime) (calls : List TurnCall) (s : Session) : Session :=
  calls.foldl (fun s call => call.perform rt s) s

/-- The message that a turn creates. -/
def Turn.Creates (rt : Runtime) (m : ConversationMessage) : Turn → Prop
  | user _ conversationId request _ => m.role = .user ∧ m.conversationId = conversationId ∧
    m.content = PythonText.strip request.content.val ∧ m.inputMode = request.inputMode ∧
    m.idempotencyKey = request.idempotencyKey.val ∧ m.requestHash = some (requestHash rt request)
  | assistant conversationId _ idempotencyKey _ _ => m.role = .assistant ∧ m.conversationId = conversationId ∧
    m.idempotencyKey = idempotencyKey ∧ m.requestHash = none

/-! ### What the lookups see -/

/-- The message that `add_user_turn` and `add_assistant_turn` find. -/
def existing? (db : Db) (conversationId : Uuid) (idempotencyKey : String) : Option ConversationMessage :=
  (db.conversationMessages.select fun m =>
    m.conversationId = conversationId ∧ m.idempotencyKey = idempotencyKey).head?

/-- The conversation takes turns of the account. -/
def Open (db : Db) (accountId conversationId : Uuid) : Prop :=
  ∃ c, HistoryService.conversation? db accountId conversationId = some c ∧ c.state = .active

/-- Account and state of a conversation. -/
def standing (db : Db) (conversationId : Uuid) : Option (Uuid × ConversationState) :=
  (db.conversations.find? conversationId).map fun c => (c.accountId, c.state)

theorem open_iff {db : Db} {accountId conversationId : Uuid} :
    Open db accountId conversationId ↔ standing db conversationId = some (accountId, .active) := by
  unfold Open HistoryService.conversation? standing
  constructor
  · rintro ⟨c, hc, hactive⟩
    obtain ⟨hfind, haccount⟩ := Option.filter_eq_some_iff.mp hc
    rw [hfind, Option.map_some, hactive, of_decide_eq_true haccount]
  · intro h
    obtain ⟨c, hfind, hpair⟩ := Option.map_eq_some_iff.mp h
    obtain ⟨haccount, hactive⟩ := Prod.mk.inj hpair
    exact ⟨c, Option.filter_eq_some_iff.mpr ⟨hfind, decide_eq_true haccount⟩, hactive⟩

/-- A message was created by another request: it carries the hash of another one. -/
def Mismatch (rt : Runtime) (request : UserTurn) (m : ConversationMessage) : Prop :=
  m.requestHash.elim false (fun h => h ≠ "" ∧ h ≠ requestHash rt request) = true

instance (request : UserTurn) : DecidablePred (Mismatch rt request) := fun m =>
  inferInstanceAs (Decidable (m.requestHash.elim false (fun h => h ≠ "" ∧ h ≠ requestHash rt request) = true))

def keyConflict : Exc := .domain (.conflict "Idempotency klíč byl použit pro jiný požadavek.")

section lookups

variable {accountId conversationId : Uuid} {request : UserTurn} {context : AuditContext} {s s' : Session}

theorem lockConversation_of_find {c : Conversation}
    (h : HistoryService.conversation? s.db accountId conversationId = some c) :
    HistoryService.lockConversation accountId conversationId s = (.ok c, s) := by
  unfold HistoryService.lockConversation
  rw [Tx.gets_bind_apply, h, Tx.orRaise_some]
  rfl

/-- A turn whose key is taken is answered with the message that has it, or refused. -/
theorem addUserTurn_of_existing {m : ConversationMessage} (hopen : Open s.db accountId conversationId)
    (hm : existing? s.db conversationId request.idempotencyKey.val = some m) :
    addUserTurn rt accountId conversationId request context s =
      if Mismatch rt request m then (.error keyConflict, s) else (.ok m, s) := by
  obtain ⟨c, hc, hactive⟩ := hopen
  unfold addUserTurn
  rw [Tx.bind_of_ok (lockConversation_of_find hc), Tx.raiseIf_bind_of_not (not_not_intro hactive)]
  have hlook : byIdempotencyKey conversationId request.idempotencyKey.val s = (.ok (some m), s) := by
    rw [← hm]
    rfl
  rw [Tx.bind_of_ok hlook]
  simp only
  by_cases hmismatch : Mismatch rt request m
  · rw [if_pos hmismatch]
    exact Tx.raiseIf_bind_of_pos hmismatch _ _ s
  · rw [if_neg hmismatch]
    exact Tx.raiseIf_bind_of_not hmismatch _ _ s

/-- A turn with a free key creates a message. -/
theorem addUserTurn_of_free (hopen : Open s.db accountId conversationId)
    (hfree : existing? s.db conversationId request.idempotencyKey.val = none) :
    ∃ c, s.db.conversations.find? conversationId = some c ∧
      addUserTurn rt accountId conversationId request context s = insertUserTurn rt c request context s := by
  obtain ⟨c, hc, hactive⟩ := hopen
  refine ⟨c, (Option.filter_eq_some_iff.mp hc).1, ?_⟩
  unfold addUserTurn
  rw [Tx.bind_of_ok (lockConversation_of_find hc), Tx.raiseIf_bind_of_not (not_not_intro hactive)]
  have hlook : byIdempotencyKey conversationId request.idempotencyKey.val s = (.ok none, s) := by
    rw [← hfree]
    rfl
  rw [Tx.bind_of_ok hlook]

/-- A conversation that takes no turns of the account refuses. -/
theorem addUserTurn_of_closed (hclosed : ¬Open s.db accountId conversationId) :
    ∃ e, addUserTurn rt accountId conversationId request context s = (.error e, s) := by
  unfold addUserTurn
  cases hc : HistoryService.conversation? s.db accountId conversationId with
  | none =>
    have hlock : HistoryService.lockConversation accountId conversationId s = (.error HistoryService.notFound, s) := by
      unfold HistoryService.lockConversation
      rw [Tx.gets_bind_apply, hc]
      rfl
    exact ⟨_, Tx.bind_of_error hlock⟩
  | some c =>
    rw [Tx.bind_of_ok (lockConversation_of_find hc)]
    have hstate : c.state ≠ .active := fun hactive => hclosed ⟨c, hc, hactive⟩
    exact ⟨_, Tx.raiseIf_bind_of_pos hstate _ _ s⟩

end lookups

/-! ### What a turn writes -/

/-- The messages and the standing of every conversation after a turn: nothing has changed, or a message with a
free key has been added. -/
inductive Extends (rt : Runtime) (turn : Turn) (db db' : Db) : Prop where
  | same (messages : db'.conversationMessages = db.conversationMessages)
      (standings : ∀ id, standing db' id = standing db id)
  | added (m : ConversationMessage) (creates : turn.Creates rt m)
      (rows : db'.conversationMessages.rows = db.conversationMessages.rows ++ [m])
      (free : ∀ x ∈ db.conversationMessages,
        ¬(x.conversationId = m.conversationId ∧ x.idempotencyKey = m.idempotencyKey))
      (standings : ∀ id, standing db' id = standing db id)

theorem standing_put {db : Db} {c updated : Conversation} (hc : db.conversations.find? c.id = some c)
    (hid : updated.id = c.id) (haccount : updated.accountId = c.accountId) (hstate : updated.state = c.state)
    (id : Uuid) : standing { db with conversations := db.conversations.put updated } id = standing db id := by
  unfold standing
  by_cases hsame : id = updated.id
  · subst hsame
    rw [hid, hc]
    have hput := Table.find?_put_self (r := updated) (hid ▸ hc)
    rw [hid] at hput
    rw [hput, Option.map_some, Option.map_some, haccount, hstate]
  · rw [Table.find?_put_of_ne hsame]

theorem appendMessage_rows {c updated : Conversation} {message : ConversationMessage} {s s' : Session}
    (h : appendMessage rt c message s = (.ok updated, s')) (hc : s.db.conversations.find? c.id = some c) :
    s'.db.conversationMessages.rows = s.db.conversationMessages.rows ++ [message] ∧
      (∀ x ∈ s.db.conversationMessages,
        ¬(x.conversationId = message.conversationId ∧ x.idempotencyKey = message.idempotencyKey)) ∧
      ∀ id, standing s'.db id = standing s.db id := by
  unfold appendMessage at h
  obtain ⟨u, s₁, hadd, h₁⟩ := Tx.bind_eq_ok h
  obtain ⟨now, s₂, hnow, h₂⟩ := Tx.bind_eq_ok h₁
  obtain ⟨u', s₃, hsave, h₃⟩ := Tx.bind_eq_ok h₂
  obtain ⟨-, rfl⟩ := Prod.mk.inj h₃
  obtain ⟨-, rfl⟩ := Prod.mk.inj hnow
  obtain ⟨t, ht, rfl⟩ := Relation.add_eq_ok hadd
  obtain rfl := Relation.save_eq_ok hsave
  obtain ⟨hinsert, hclash⟩ := Relation.insertRow_eq_ok ht
  refine ⟨(Table.insert?_eq_some hinsert).1, fun x hx hboth => ?_, ?_⟩
  · have hnone := hclash x hx
    simp only [Db.conversationMessage, hboth, and_self, if_true] at hnone
    split at hnone <;> cases hnone
  · exact standing_put hc rfl rfl rfl

section writes

variable {s s' : Session} {context : AuditContext}

/-- What an outbox event and an audit event leave. -/
def turnView (db : Db) : Table Conversation.id × Table ConversationMessage.id :=
  (db.conversations, db.conversationMessages)

theorem insertUserTurn_extends {accountId : Uuid} {c : Conversation} {request : UserTurn} {m : ConversationMessage}
    (hc : s.db.conversations.find? c.id = some c) (h : insertUserTurn rt c request context s = (.ok m, s')) :
    (Turn.user accountId c.id request context).Creates rt m ∧
      s'.db.conversationMessages.rows = s.db.conversationMessages.rows ++ [m] ∧
      (∀ x ∈ s.db.conversationMessages,
        ¬(x.conversationId = m.conversationId ∧ x.idempotencyKey = m.idempotencyKey)) ∧
      ∀ id, standing s'.db id = standing s.db id := by
  unfold insertUserTurn at h
  rw [Tx.gets_bind_apply] at h
  obtain ⟨id, s₁, hid, h₁⟩ := Tx.bind_eq_ok h
  obtain ⟨-, rfl⟩ := Prod.mk.inj hid
  obtain ⟨now, s₂, hnow, h₂⟩ := Tx.bind_eq_ok h₁
  obtain ⟨-, rfl⟩ := Prod.mk.inj hnow
  obtain ⟨updated, s₃, happend, h₃⟩ := Tx.bind_eq_ok h₂
  obtain ⟨hrows, hfree, hstanding⟩ := appendMessage_rows happend hc
  obtain ⟨u, s₄, hpublish, h₄⟩ := Tx.bind_eq_ok h₃
  obtain ⟨e, s₅, haudit, h₅⟩ := Tx.bind_eq_ok h₄
  obtain ⟨hm, rfl⟩ := Prod.mk.inj h₅
  obtain rfl := Except.ok.inj hm
  have hview : turnView s₅.db = turnView s₃.db := by
    have hsame : Same turnView s₄ s₅ := (AuditService.append_keeps fun _ _ => rfl).of_apply haudit
    refine Eq.trans hsame ?_
    obtain ⟨-, -, hconversations, hmessages⟩ := publish_ok hpublish
    rw [turnView, turnView, hconversations, hmessages]
  obtain ⟨hconversations, hmessages⟩ := Prod.mk.inj hview
  refine ⟨⟨rfl, rfl, rfl, rfl, rfl, rfl⟩, ?_, hfree, fun id => ?_⟩
  · rw [hmessages]
    exact hrows
  · refine Eq.trans ?_ (hstanding id)
    unfold standing
    rw [hconversations]

/-- An accepted turn: the conversation takes turns, and the message is the one with the key or a new one. -/
theorem addUserTurn_answers {accountId conversationId : Uuid} {request : UserTurn} {m : ConversationMessage}
    (h : addUserTurn rt accountId conversationId request context s = (.ok m, s')) :
    Open s.db accountId conversationId ∧
      (existing? s.db conversationId request.idempotencyKey.val = some m ∧ ¬Mismatch rt request m ∧ s' = s ∨
        existing? s.db conversationId request.idempotencyKey.val = none ∧
          (Turn.user accountId conversationId request context).Creates rt m ∧
          s'.db.conversationMessages.rows = s.db.conversationMessages.rows ++ [m] ∧
          (∀ x ∈ s.db.conversationMessages,
            ¬(x.conversationId = m.conversationId ∧ x.idempotencyKey = m.idempotencyKey)) ∧
          ∀ id, standing s'.db id = standing s.db id) := by
  by_cases hopen : Open s.db accountId conversationId
  swap
  · have hrefused : ∃ e, addUserTurn rt accountId conversationId request context s = (.error e, s) :=
      addUserTurn_of_closed hopen
    obtain ⟨e, he⟩ := hrefused
    rw [he] at h
    cases h
  refine ⟨hopen, ?_⟩
  cases hfound : existing? s.db conversationId request.idempotencyKey.val with
  | some x =>
    rw [addUserTurn_of_existing hopen hfound] at h
    by_cases hmismatch : Mismatch rt request x
    · rw [if_pos hmismatch] at h
      cases h
    · rw [if_neg hmismatch] at h
      obtain ⟨hm, rfl⟩ := Prod.mk.inj h
      obtain rfl := Except.ok.inj hm
      exact .inl ⟨rfl, hmismatch, rfl⟩
  | none =>
    have hinserts : ∃ c, s.db.conversations.find? conversationId = some c ∧
        addUserTurn rt accountId conversationId request context s = insertUserTurn rt c request context s :=
      addUserTurn_of_free hopen hfound
    obtain ⟨c, hc, hinsert⟩ := hinserts
    rw [hinsert] at h
    obtain rfl := Table.key_of_find? hc
    exact .inr ⟨rfl, insertUserTurn_extends hc h⟩

theorem addUserTurn_extends {accountId conversationId : Uuid} {request : UserTurn} {m : ConversationMessage}
    (h : addUserTurn rt accountId conversationId request context s = (.ok m, s')) :
    Extends rt (.user accountId conversationId request context) s.db s'.db := by
  obtain ⟨-, ⟨-, -, rfl⟩ | ⟨-, hcreates, hrows, hfree, hstandings⟩⟩ := addUserTurn_answers h
  · exact .same rfl fun _ => rfl
  · exact .added m hcreates hrows hfree hstandings

theorem addAssistantTurn_extends {conversationId : Uuid} {content idempotencyKey : String} {runId : Uuid}
    {interrupted : Bool} {m : ConversationMessage}
    (h : addAssistantTurn rt conversationId content idempotencyKey runId interrupted s = (.ok m, s')) :
    Extends rt (.assistant conversationId content idempotencyKey runId interrupted) s.db s'.db := by
  unfold addAssistantTurn at h
  rw [Relation.find, Tx.gets_bind_apply] at h
  obtain ⟨c, hc, h₁⟩ := Tx.orRaise_bind_eq_ok h
  have hc : s.db.conversations.find? conversationId = some c := hc
  obtain rfl := Table.key_of_find? hc
  obtain ⟨existing, s₁, hlook, h₂⟩ := Tx.bind_eq_ok h₁
  obtain rfl := byIdempotencyKey_ok hlook
  cases existing with
  | some x =>
    obtain ⟨-, rfl⟩ := Prod.mk.inj h₂
    exact .same rfl fun _ => rfl
  | none =>
    change (Tx.gets _ >>= _) _ = _ at h₂
    rw [Tx.gets_bind_apply] at h₂
    obtain ⟨id, s₂, hid, h₃⟩ := Tx.bind_eq_ok h₂
    obtain ⟨-, rfl⟩ := Prod.mk.inj hid
    obtain ⟨now, s₃, hnow, h₄⟩ := Tx.bind_eq_ok h₃
    obtain ⟨-, rfl⟩ := Prod.mk.inj hnow
    obtain ⟨updated, s₄, happend, h₅⟩ := Tx.bind_eq_ok h₄
    obtain ⟨-, rfl⟩ := Prod.mk.inj h₅
    obtain ⟨hrows, hfree, hstandings⟩ := appendMessage_rows happend hc
    exact .added _ ⟨rfl, rfl, rfl, rfl⟩ hrows hfree hstandings

end writes

theorem Turn.work_notDurable (turn : Turn) : NotDurable (turn.work rt) := by
  cases turn with
  | user accountId conversationId request context => exact addUserTurn_notDurable request
  | assistant conversationId content idempotencyKey runId interrupted =>
    exact (addAssistantTurn_quiet content idempotencyKey runId interrupted).notDurable

theorem Turn.work_extends {turn : Turn} {m : ConversationMessage} {s s' : Session}
    (h : turn.work rt s = (.ok m, s')) : Extends rt turn s.db s'.db := by
  cases turn with
  | user accountId conversationId request context => exact addUserTurn_extends h
  | assistant conversationId content idempotencyKey runId interrupted => exact addAssistantTurn_extends h

/-- **Step lemma**: what a turn in a session of its own has done. -/
theorem TurnCall.perform_extends (call : TurnCall) (s : Session) :
    Extends rt call.turn s.db (call.perform rt s).db := by
  have hrun : Database.session (call.turn.work rt) { s with began := call.began } =
      ((Database.session (call.turn.work rt) { s with began := call.began }).1, call.perform rt s) := rfl
  rcases Database.session_cases call.turn.work_notDurable hrun with ⟨m, -, hm⟩ | hdb
  · exact Turn.work_extends (s := { s with began := call.began }) hm
  · have hsame : (call.perform rt s).db = s.db := hdb
    rw [hsame]
    exact .same rfl fun _ => rfl

/-! ### Reachable sessions -/

/-- Every message was created by one of the calls, and no two messages of a conversation have one key. -/
structure Recorded (rt : Runtime) (calls : List TurnCall) (db : Db) : Prop where
  created : ∀ m ∈ db.conversationMessages, ∃ call ∈ calls, call.turn.Creates rt m
  unique : ∀ m ∈ db.conversationMessages, ∀ m' ∈ db.conversationMessages,
    m.conversationId = m'.conversationId → m.idempotencyKey = m'.idempotencyKey → m = m'

theorem Recorded.of_extends {calls : List TurnCall} {call : TurnCall} {db db' : Db} (h : Recorded rt calls db)
    (hext : Extends rt call.turn db db') : Recorded rt (calls ++ [call]) db' := by
  cases hext with
  | same hmessages _ =>
    constructor
    · intro m hm
      rw [hmessages] at hm
      obtain ⟨c, hc, hcreates⟩ := h.created m hm
      exact ⟨c, List.mem_append_left _ hc, hcreates⟩
    · rw [hmessages]
      exact h.unique
  | added x hcreates hrows hfree _ =>
    have hmem : ∀ m, m ∈ db'.conversationMessages ↔ m ∈ db.conversationMessages ∨ m = x := by
      intro m
      rw [Table.mem_def, hrows, List.mem_append, List.mem_singleton]
      rfl
    constructor
    · intro m hm
      rcases (hmem m).mp hm with hm | rfl
      · obtain ⟨c, hc, hc'⟩ := h.created m hm
        exact ⟨c, List.mem_append_left _ hc, hc'⟩
      · exact ⟨call, List.mem_append_right _ List.mem_cons_self, hcreates⟩
    · intro m hm m' hm' hconversation hkey
      rcases (hmem m).mp hm with hm | rfl
      · rcases (hmem m').mp hm' with hm' | rfl
        · exact h.unique m hm m' hm' hconversation hkey
        · exact absurd ⟨hconversation, hkey⟩ (hfree m hm)
      · rcases (hmem m').mp hm' with hm' | rfl
        · exact absurd ⟨hconversation.symm, hkey.symm⟩ (hfree m' hm')
        · rfl

theorem after_append (calls more : List TurnCall) (s : Session) :
    after rt (calls ++ more) s = after rt more (after rt calls s) :=
  List.foldl_append

/-- **Run lemma**: after any calls on a database without messages, all messages are recorded. -/
theorem recorded_after {s : Session} (h : s.db.conversationMessages = .empty) (calls : List TurnCall) :
    Recorded rt calls (after rt calls s).db := by
  induction calls using List.reverseRecOn with
  | nil =>
    have hnone : ∀ m, m ∉ s.db.conversationMessages := by
      intro m hm
      rw [h] at hm
      exact List.not_mem_nil hm
    exact ⟨fun m hm => absurd hm (hnone m), fun m hm => absurd hm (hnone m)⟩
  | append_singleton calls call ih =>
    rw [after_append]
    exact ih.of_extends (call.perform_extends _)

/-- What is there stays there: the messages, and the standing of every conversation. -/
structure Stays (db db' : Db) : Prop where
  messages : ∀ m ∈ db.conversationMessages, m ∈ db'.conversationMessages
  standings : ∀ id, standing db' id = standing db id

theorem stays_after (calls : List TurnCall) (s : Session) : Stays s.db (after rt calls s).db := by
  induction calls using List.reverseRecOn with
  | nil => exact ⟨fun _ hm => hm, fun _ => rfl⟩
  | append_singleton calls call ih =>
    rw [after_append]
    have hext : Extends rt call.turn (after rt calls s).db (after rt [call] (after rt calls s)).db :=
      call.perform_extends _
    cases hext with
    | same hmessages hstandings =>
      refine ⟨fun m hm => ?_, fun id => (hstandings id).trans (ih.standings id)⟩
      rw [hmessages]
      exact ih.messages m hm
    | added x _ hrows _ hstandings =>
      refine ⟨fun m hm => ?_, fun id => (hstandings id).trans (ih.standings id)⟩
      rw [Table.mem_def, hrows]
      exact List.mem_append_left _ (ih.messages m hm)

/-- The lookup finds a recorded message. -/
theorem Recorded.existing {calls : List TurnCall} {db : Db} (h : Recorded rt calls db) {m : ConversationMessage}
    (hm : m ∈ db.conversationMessages) : existing? db m.conversationId m.idempotencyKey = some m := by
  unfold existing? Table.select
  have hmem : m ∈ db.conversationMessages.rows.filter fun x =>
      x.conversationId = m.conversationId ∧ x.idempotencyKey = m.idempotencyKey :=
    List.mem_filter.mpr ⟨hm, by simp⟩
  cases hhead : (db.conversationMessages.rows.filter fun x =>
      x.conversationId = m.conversationId ∧ x.idempotencyKey = m.idempotencyKey).head? with
  | none =>
    rw [List.head?_eq_none_iff.mp hhead] at hmem
    exact absurd hmem List.not_mem_nil
  | some x =>
    have hx := List.mem_filter.mp (List.mem_of_head? hhead)
    obtain ⟨hconversation, hkey⟩ := of_decide_eq_true hx.2
    rw [h.unique x hx.1 m hm hconversation hkey]

theorem mem_of_existing {db : Db} {conversationId : Uuid} {key : String} {m : ConversationMessage}
    (h : existing? db conversationId key = some m) :
    m ∈ db.conversationMessages ∧ m.conversationId = conversationId ∧ m.idempotencyKey = key := by
  have hm := List.mem_filter.mp (List.mem_of_head? h)
  obtain ⟨hconversation, hkey⟩ := of_decide_eq_true hm.2
  exact ⟨hm.1, hconversation, hkey⟩

/-! ### Idempotent turns -/

/-- The key of a turn is that of an answer in a conversation which takes turns. -/
def Taken (db : Db) (accountId conversationId : Uuid) (idempotencyKey : String) : Prop :=
  Open db accountId conversationId ∧ ∃ m ∈ db.conversationMessages,
    m.conversationId = conversationId ∧ m.idempotencyKey = idempotencyKey ∧ m.role = .assistant

/-- The call for a user turn. -/
def userCall (accountId conversationId : Uuid) (request : UserTurn) (context : AuditContext) (began : DateTime) :
    TurnCall :=
  ⟨.user accountId conversationId request context, began⟩

/-- The answer of `add_user_turn` in a session of its own, and the rows it leaves. -/
def answer (rt : Runtime) (call : TurnCall) (s : Session) : Except Exc ConversationMessage × Db :=
  ((Database.session (call.turn.work rt) { s with began := call.began }).1, (call.perform rt s).db)

/-- A message is the user's turn of a request: one of the calls created it, for the same turn. -/
structure IsTurn (rt : Runtime) (calls : List TurnCall) (conversationId : Uuid) (request : UserTurn)
    (m : ConversationMessage) : Prop where
  role : m.role = .user
  conversation : m.conversationId = conversationId
  creator : ∃ call ∈ calls, ∃ accountId r context,
    call.turn = .user accountId conversationId r context ∧ call.turn.Creates rt m ∧ SameTurn r request

/-- From the session on, a request is answered with the message, whatever turns come between, and another request
with its key is refused; neither changes a row.  Requests are those whose text is in `T`. -/
def Repeats (rt : Runtime) (T : Set String) (accountId conversationId : Uuid) (request : UserTurn)
    (m : ConversationMessage) (s : Session) : Prop :=
  ∀ later : List TurnCall, ∀ (context : AuditContext) (began : DateTime),
    answer rt (userCall accountId conversationId request context began) (after rt later s) =
        (.ok m, (after rt later s).db) ∧
      ∀ other : UserTurn, other.idempotencyKey = request.idempotencyKey → requestText other ∈ T →
        ¬SameTurn request other →
        answer rt (userCall accountId conversationId other context began) (after rt later s) =
          (.error keyConflict, (after rt later s).db)

/-- A message with which a request is answered after the calls is its turn, once and for all. -/
def Idempotent (rt : Runtime) (T : Set String) (s : Session) (calls : List TurnCall)
    (accountId conversationId : Uuid) (request : UserTurn) : Prop :=
  ∀ (context : AuditContext) (began : DateTime) (m : ConversationMessage),
    let call := userCall accountId conversationId request context began
    (answer rt call (after rt calls s)).1 = .ok m →
      IsTurn rt (calls ++ [call]) conversationId request m ∧
        Repeats rt T accountId conversationId request m (after rt (calls ++ [call]) s)

theorem answer_of_ok {call : TurnCall} {s : Session} {m : ConversationMessage}
    (h : call.turn.work rt { s with began := call.began } = (.ok m, { s with began := call.began })) :
    answer rt call s = (.ok m, s.db) := by
  unfold answer TurnCall.perform
  rw [Database.session_of_ok h]

theorem answer_of_refused {call : TurnCall} {s s' : Session} {e : Exc}
    (h : call.turn.work rt { s with began := call.began } = (.error e, s')) :
    answer rt call s = (.error e, s.db) := by
  have hnot : ¬e.Durable := call.turn.work_notDurable _ e (congrArg Prod.fst h)
  unfold answer TurnCall.perform
  rw [Database.session_of_rollback h hnot]
  rfl

/-- A turn whose key is taken is answered with the message that has it, or refused, and writes nothing. -/
theorem answer_of_existing {accountId conversationId : Uuid} {request : UserTurn} {s : Session}
    {m : ConversationMessage} (context : AuditContext) (began : DateTime)
    (hopen : Open s.db accountId conversationId)
    (hm : existing? s.db conversationId request.idempotencyKey.val = some m) :
    answer rt (userCall accountId conversationId request context began) s =
      (if Mismatch rt request m then .error keyConflict else .ok m, s.db) := by
  have hwork : addUserTurn rt accountId conversationId request context { s with began := began } =
      if Mismatch rt request m then (.error keyConflict, { s with began := began })
      else (.ok m, { s with began := began }) := addUserTurn_of_existing hopen hm
  by_cases hmismatch : Mismatch rt request m
  · rw [if_pos hmismatch] at hwork ⊢
    exact answer_of_refused hwork
  · rw [if_neg hmismatch] at hwork ⊢
    exact answer_of_ok hwork

theorem ok_of_answer {call : TurnCall} {s : Session} {m : ConversationMessage}
    (h : (answer rt call s).1 = .ok m) :
    call.turn.work rt { s with began := call.began } = (.ok m, call.perform rt s) := by
  cases hwork : call.turn.work rt { s with began := call.began } with
  | mk r s' =>
    cases r with
    | ok x =>
      unfold answer at h
      rw [Database.session_of_ok hwork] at h
      obtain rfl := Except.ok.inj h
      unfold TurnCall.perform
      rw [Database.session_of_ok hwork]
    | error e =>
      rw [answer_of_refused hwork] at h
      cases h

/-- A user's message was created by a user's turn of its conversation. -/
theorem Recorded.user {calls : List TurnCall} {db : Db} (h : Recorded rt calls db) {m : ConversationMessage}
    (hm : m ∈ db.conversationMessages) (hrole : m.role = .user) :
    ∃ call ∈ calls, ∃ accountId r context, call.turn = .user accountId m.conversationId r context ∧
      call.turn.Creates rt m ∧ m.requestHash = some (requestHash rt r) := by
  obtain ⟨call, hcall, hcreates⟩ := h.created m hm
  cases hturn : call.turn with
  | user accountId conversationId r context =>
    rw [hturn] at hcreates
    obtain ⟨-, rfl, -, -, -, hhash⟩ := id hcreates
    exact ⟨call, hcall, accountId, r, context, hturn, hturn ▸ hcreates, hhash⟩
  | assistant conversationId content key runId interrupted =>
    rw [hturn] at hcreates
    rw [hcreates.1] at hrole
    cases hrole

/-- An answer carries no hash. -/
theorem Recorded.assistant {calls : List TurnCall} {db : Db} (h : Recorded rt calls db) {m : ConversationMessage}
    (hm : m ∈ db.conversationMessages) (hrole : m.role ≠ .user) : m.role = .assistant ∧ m.requestHash = none := by
  obtain ⟨call, -, hcreates⟩ := h.created m hm
  cases hturn : call.turn with
  | user accountId conversationId r context =>
    rw [hturn] at hcreates
    exact absurd hcreates.1 hrole
  | assistant conversationId content key runId interrupted =>
    rw [hturn] at hcreates
    exact ⟨hcreates.1, hcreates.2.2.2⟩

section idempotency

variable {T : Set String} {s : Session} {calls : List TurnCall} {accountId conversationId : Uuid} {request : UserTurn}

/-- A message with the hash of a request is no mismatch for the same turn, and one for every other turn. -/
theorem mismatch_iff (hsha : Set.InjOn rt.sha256 T) (hne : ∀ t, rt.sha256 t ≠ "") {m : ConversationMessage}
    {r : UserTurn} (hhash : m.requestHash = some (requestHash rt r)) (hr : requestText r ∈ T)
    (hrequest : requestText request ∈ T) : Mismatch rt request m ↔ ¬SameTurn r request := by
  unfold Mismatch
  rw [hhash, Option.elim_some, decide_eq_true_iff]
  constructor
  · rintro ⟨-, hother⟩ hsame
    apply hother
    rw [requestHash_eq, requestHash_eq, requestText_eq_iff.mpr hsame]
  · intro hother
    refine ⟨hne _, fun heq => hother ?_⟩
    exact requestText_eq_iff.mp (hsha hr hrequest heq)

/-- A user's message that carries the hash of a request answers it in every later session. -/
theorem repeats_of_mem (hsha : Set.InjOn rt.sha256 T) (hne : ∀ t, rt.sha256 t ≠ "")
    (hempty : s.db.conversationMessages = .empty) {m : ConversationMessage}
    (hm : m ∈ (after rt calls s).db.conversationMessages) (hconversation : m.conversationId = conversationId)
    (hkey : m.idempotencyKey = request.idempotencyKey.val) (hrequest : requestText request ∈ T)
    (hhash : m.requestHash = some (requestHash rt request))
    (hopen : Open (after rt calls s).db accountId conversationId) :
    Repeats rt T accountId conversationId request m (after rt calls s) := by
  intro later context began
  have hstays : Stays (after rt calls s).db (after rt later (after rt calls s)).db := stays_after later _
  have hrecorded : Recorded rt (calls ++ later) (after rt later (after rt calls s)).db := by
    rw [← after_append]
    exact recorded_after hempty _
  have hopen' : Open (after rt later (after rt calls s)).db accountId conversationId := by
    rw [open_iff] at hopen ⊢
    rw [hstays.standings]
    exact hopen
  have hfound := hrecorded.existing (hstays.messages m hm)
  rw [hconversation] at hfound
  constructor
  · have hmatch : ¬Mismatch rt request m := by
      rw [mismatch_iff hsha hne hhash hrequest hrequest, not_not]
      exact ⟨rfl, rfl, rfl⟩
    rw [answer_of_existing context began hopen' (hkey ▸ hfound), if_neg hmatch]
  · intro other hsame hother hnot
    have hmismatch : Mismatch rt other m := (mismatch_iff hsha hne hhash hrequest hother).mpr hnot
    rw [hkey, ← hsame] at hfound
    rw [answer_of_existing context began hopen' hfound, if_pos hmismatch]

/-- A request whose key is that of an answer is answered with that answer. -/
theorem answer_of_taken (hempty : s.db.conversationMessages = .empty)
    (htaken : Taken (after rt calls s).db accountId conversationId request.idempotencyKey.val)
    (context : AuditContext) (began : DateTime) :
    ∃ m, m.role = .assistant ∧
      answer rt (userCall accountId conversationId request context began) (after rt calls s) =
        (.ok m, (after rt calls s).db) := by
  obtain ⟨hopen, m, hm, rfl, hkey, hrole⟩ := htaken
  have hrecorded : Recorded rt calls (after rt calls s).db := recorded_after hempty calls
  have hhash : m.requestHash = none := (hrecorded.assistant hm (by rw [hrole]; decide)).2
  have hmatch : ¬Mismatch rt request m := by
    unfold Mismatch
    rw [hhash]
    exact Bool.false_ne_true
  refine ⟨m, hrole, ?_⟩
  rw [answer_of_existing context began hopen (hkey ▸ hrecorded.existing hm), if_neg hmatch]

/-- **A turn is idempotent** exactly if its key is not that of an answer. -/
theorem user_turn_idempotent_iff (hsha : Set.InjOn rt.sha256 T) (hne : ∀ t, rt.sha256 t ≠ "")
    (hempty : s.db.conversationMessages = .empty)
    (htexts : ∀ call ∈ calls, ∀ a c r context, call.turn = .user a c r context → requestText r ∈ T)
    (hrequest : requestText request ∈ T) :
    Idempotent rt T s calls accountId conversationId request ↔
      ¬Taken (after rt calls s).db accountId conversationId request.idempotencyKey.val := by
  have hrecorded : Recorded rt calls (after rt calls s).db := recorded_after hempty calls
  constructor
  · intro hidem htaken
    obtain ⟨m, hrole, hanswer⟩ := answer_of_taken hempty htaken { actorType := "administrator" } s.began
    have huser : m.role = .user := (hidem _ _ m (congrArg Prod.fst hanswer)).1.role
    rw [hrole] at huser
    cases huser
  · intro hfree context began m call hm
    have hwork : addUserTurn rt accountId conversationId request context
        { after rt calls s with began := began } = (.ok m, call.perform rt (after rt calls s)) := ok_of_answer hm
    have hafter : after rt (calls ++ [call]) s = call.perform rt (after rt calls s) := after_append calls [call] s
    have hrecorded' : Recorded rt (calls ++ [call]) (after rt (calls ++ [call]) s).db := recorded_after hempty _
    have htexts' : ∀ c ∈ calls ++ [call], ∀ a x r context, c.turn = .user a x r context → requestText r ∈ T := by
      intro c hc a x r context' hturn
      rcases List.mem_append.mp hc with hc | hc
      · exact htexts c hc a x r context' hturn
      · obtain rfl := List.mem_singleton.mp hc
        obtain ⟨-, -, rfl, -⟩ := Turn.user.inj hturn
        exact hrequest
    obtain ⟨hopen, hcases⟩ := addUserTurn_answers hwork
    -- the message is there, it is the user's, and it carries the hash of the request
    have hmem : m ∈ (after rt (calls ++ [call]) s).db.conversationMessages ∧ m.conversationId = conversationId ∧
        m.idempotencyKey = request.idempotencyKey.val ∧ m.role = .user := by
      rw [hafter]
      rcases hcases with ⟨hfound, -, hsame⟩ | ⟨-, ⟨hrole, hconversation, -, -, hkey, -⟩, hrows, -, -⟩
      · obtain ⟨hmem, hconversation, hkey⟩ := mem_of_existing hfound
        refine ⟨hsame ▸ hmem, hconversation, hkey, ?_⟩
        by_contra hrole
        exact hfree ⟨hopen, m, hmem, hconversation, hkey, (hrecorded.assistant hmem hrole).1⟩
      · refine ⟨?_, hconversation, hkey, hrole⟩
        rw [Table.mem_def, hrows]
        exact List.mem_append_right _ List.mem_cons_self
    obtain ⟨hmem, hconversation, hkey, hrole⟩ := hmem
    obtain ⟨creator, hcreator, a, r, context', hturn, hcreates, hhash⟩ := hrecorded'.user hmem hrole
    have hr : requestText r ∈ T := htexts' creator hcreator _ _ _ _ hturn
    have hsame : SameTurn r request := by
      by_contra hnot
      have hmismatch := (mismatch_iff hsha hne hhash hr hrequest).mpr hnot
      rcases hcases with ⟨-, hmatch, -⟩ | ⟨-, ⟨-, -, -, -, -, hown⟩, -, -, -⟩
      · exact hmatch hmismatch
      · exact (mismatch_iff hsha hne hown hrequest hrequest).mp hmismatch ⟨rfl, rfl, rfl⟩
    have hown : m.requestHash = some (requestHash rt request) := by
      rw [hhash, requestHash_eq, requestHash_eq, requestText_eq_iff.mpr hsame]
    have hopen' : Open (after rt (calls ++ [call]) s).db accountId conversationId := by
      rw [open_iff] at hopen ⊢
      rw [after_append, (stays_after [call] _).standings]
      exact hopen
    constructor
    · rw [hconversation] at hturn
      exact ⟨hrole, hconversation, creator, hcreator, a, r, context', hturn, hcreates, hsame⟩
    · exact repeats_of_mem hsha hne hempty hmem hconversation hkey hrequest hown hopen'

end idempotency

/-! ### A request with the key of an answer -/

def turnsRuntime : Runtime := .sample 1767268800000000 []

/-- One active conversation. -/
def turnsSession : Session where
  db.conversations := .singleton
    { id := 1, accountId := 1, startedAt := .utc 1767268800000000, lastActivityAt := .utc 1767268800000000 }
  began := .utc 1767268800000000

/-- The key of the answer to the first turn in run 7. -/
def answerKey : String := Sha256.sha256Hex ("assistant:00000000-0000-0000-0000-000000000001" ++
  ":00000000-0000-0001-0000-000000000000:00000000-0000-0000-0000-000000000007")

def openingTurn : UserTurn where
  idempotencyKey := ⟨"turn-0000000000000001", sampleKey_bounds⟩
  content := ⟨"Pojedeme do Prahy.", by decide +kernel⟩
  inputMode := .text

def copiedTurn : UserTurn where
  idempotencyKey := ⟨answerKey, by rw [answerKey, Sha256.length_sha256Hex]; decide⟩
  content := ⟨"Zrusit cestu.", by decide +kernel⟩
  inputMode := .text

/-- A turn and its answer. -/
def answeredTurn : List TurnCall :=
  [userCall 1 1 openingTurn { actorType := "user", actorId := some 1 } (.utc 1767268800000000),
   ⟨.assistant 1 "Kdy pojedete?" answerKey 7 false, .utc 1767268801000000⟩]

/-- The texts of the two requests. -/
def sampleTexts : Set String := {requestText openingTurn, requestText copiedTurn}

theorem sha256_injOn_sampleTexts : Set.InjOn turnsRuntime.sha256 sampleTexts := by
  have hdiffers : turnsRuntime.sha256 (requestText openingTurn) ≠ turnsRuntime.sha256 (requestText copiedTurn) := by
    decide +kernel
  rintro x (rfl | rfl) y (rfl | rfl) h
  · rfl
  · exact absurd h hdiffers
  · exact absurd h.symm hdiffers
  · rfl

theorem sha256_ne_empty (t : String) : turnsRuntime.sha256 t ≠ "" := by
  intro h
  have hlength : (turnsRuntime.sha256 t).length = 64 := Sha256.length_sha256Hex t
  rw [h] at hlength
  cases hlength

theorem answeredTurn_texts : ∀ call ∈ answeredTurn, ∀ a c r context, call.turn = .user a c r context →
    requestText r ∈ sampleTexts := by
  intro call hcall a c r context hturn
  rcases List.mem_cons.mp hcall with rfl | hcall
  · obtain ⟨-, -, rfl, -⟩ := Turn.user.inj hturn
    exact .inl rfl
  · obtain rfl := List.mem_singleton.mp hcall
    cases hturn

/-- A turn is not idempotent for every key that a client may choose. -/
theorem turn_answered_by_assistant : ¬∀ (rt : Runtime) (T : Set String) (s : Session) (calls : List TurnCall)
    (accountId conversationId : Uuid) (request : UserTurn), Set.InjOn rt.sha256 T → (∀ t, rt.sha256 t ≠ "") →
    s.db.conversationMessages = .empty →
    (∀ call ∈ calls, ∀ a c r context, call.turn = .user a c r context → requestText r ∈ T) →
    requestText request ∈ T → Idempotent rt T s calls accountId conversationId request := by
  intro h
  have hrun : (match (answer turnsRuntime (userCall 1 1 copiedTurn { actorType := "user", actorId := some 1 }
      (.utc 1767268802000000)) (after turnsRuntime answeredTurn turnsSession)).1 with
      | .ok m => decide (m.role = .assistant)
      | .error _ => false) = true := by
    decide +kernel
  cases hanswer : (answer turnsRuntime (userCall 1 1 copiedTurn { actorType := "user", actorId := some 1 }
      (.utc 1767268802000000)) (after turnsRuntime answeredTurn turnsSession)).1 with
  | error e =>
    rw [hanswer] at hrun
    cases hrun
  | ok m =>
    rw [hanswer] at hrun
    have hidem := h turnsRuntime sampleTexts turnsSession answeredTurn 1 1 copiedTurn sha256_injOn_sampleTexts
      sha256_ne_empty rfl answeredTurn_texts (.inr rfl)
    have huser : m.role = .user := (hidem _ _ m hanswer).1.role
    rw [of_decide_eq_true hrun] at huser
    cases huser

/-- The first turn, repeated, is answered with its message. -/
theorem user_turn_idempotent_openingTurn :
    Idempotent turnsRuntime sampleTexts turnsSession answeredTurn 1 1 openingTurn := by
  refine (user_turn_idempotent_iff sha256_injOn_sampleTexts sha256_ne_empty rfl answeredTurn_texts (.inl rfl)).mpr ?_
  have hkeys : (after turnsRuntime answeredTurn turnsSession).db.conversationMessages.rows.all (fun m =>
      decide (m.role = .assistant → m.idempotencyKey ≠ openingTurn.idempotencyKey.val)) = true := by
    decide +kernel
  rintro ⟨-, m, hm, -, hkey, hrole⟩
  exact of_decide_eq_true (List.all_eq_true.mp hkeys m hm) hrole hkey

end KajovoDagmar.ConversationService
