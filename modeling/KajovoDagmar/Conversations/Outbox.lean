import KajovoDagmar.Conversations.Numbering
import KajovoDagmar.Db.Sample
import KajovoDagmar.Library.Runs

/-! # The outbox over runs of operations

Runs of the operations of `ConversationService` on one conversation, each in a session of its
own.  Every call keeps the numbering of the conversation valid, whatever came before; so the
only calls that fail on the unique constraint of `outbox_event` are corrections that ask for a
new answer, and those never succeed. -/

namespace KajovoDagmar

namespace ConversationService

variable {rt : Runtime} {conversationId : Uuid}

/-! ### Runs of operations -/

/-- An operation on the conversation under consideration. -/
inductive Operation where
  | addUserTurn (accountId : Uuid) (request : UserTurn)
  | addAssistantTurn (content idempotencyKey : String) (runId : Uuid) (interrupted : Bool)
  | correctTranscript (accountId messageId : Uuid) (request : TranscriptCorrection)
  | finish (accountId : Uuid) (reason : String)

/-- A call of an operation in a session of its own. -/
structure Call where
  operation : Operation
  context : AuditContext
  began : DateTime

namespace Call

def work (rt : Runtime) (conversationId : Uuid) (call : Call) : Work PUnit :=
  match call.operation with
  | .addUserTurn accountId request => do
    let _ ← addUserTurn rt accountId conversationId request call.context
    pure ⟨⟩
  | .addAssistantTurn content idempotencyKey runId interrupted => do
    let _ ← addAssistantTurn rt conversationId content idempotencyKey runId interrupted
    pure ⟨⟩
  | .correctTranscript accountId messageId request => do
    let _ ← correctTranscript rt accountId messageId request call.context
    pure ⟨⟩
  | .finish accountId reason => do
    let _ ← finish rt accountId conversationId reason call.context
    pure ⟨⟩

/-- A corrected message is one of the conversation. -/
def isOn (conversationId : Uuid) (db : Db) (call : Call) : Bool :=
  match call.operation with
  | .correctTranscript accountId messageId _ =>
    (userMessage? db accountId messageId).all fun m => m.conversationId = conversationId
  | _ => true

/-- The call is a correction that asks for a new answer and passes its own checks. -/
def RequestsAnswer (db : Db) (call : Call) : Prop :=
  match call.operation with
  | .correctTranscript accountId messageId request => Requests db accountId messageId request
  | _ => False

/-- The outcome of a call and the session after it. -/
def perform (rt : Runtime) (conversationId : Uuid) (call : Call) (s : Session) :
    Except Exc PUnit × Session :=
  Database.session (call.work rt conversationId) { s with began := call.began }

/-- The call fails on the unique constraint of `outbox_event`. -/
def Blocked (rt : Runtime) (conversationId : Uuid) (s : Session) (call : Call) : Prop :=
  (call.perform rt conversationId s).1 = .error (.integrity outboxKey)

end Call

/-- The session after a call on the conversation. -/
def step (rt : Runtime) (conversationId : Uuid) (s : Session) (call : Call) : Option Session :=
  if call.isOn conversationId s.db then some (call.perform rt conversationId s).2 else none

/-- A conversation as `start` creates it: active, without messages and without events. -/
def Fresh (conversationId : Uuid) (s : Session) : Prop :=
  numbering s.db conversationId = some ⟨0, true, [], []⟩

/-- The conversation exists and its numbering is valid. -/
def Numbered (conversationId : Uuid) (s : Session) : Prop :=
  ∃ n, numbering s.db conversationId = some n ∧ n.Valid

theorem Fresh.numbered {s : Session} (h : Fresh conversationId s) : Numbered conversationId s :=
  ⟨_, h, rfl, by simp, by simp, List.nodup_nil⟩

/-- A discarded result does not change the outcome. -/
theorem discard_ok {α : Type} {m : Work α} {s s' : Session} {u : PUnit}
    (h : (m >>= fun _ => pure ⟨⟩ : Work PUnit) s = (.ok u, s')) : ∃ a, m s = (.ok a, s') := by
  obtain ⟨a, s₁, hm, hp⟩ := Tx.bind_eq_ok h
  obtain ⟨-, rfl⟩ := Prod.mk.inj hp
  exact ⟨a, hm⟩

theorem discard_error {α : Type} {m : Work α} {s s' : Session} {e : Exc}
    (h : (m >>= fun _ => pure ⟨⟩ : Work PUnit) s = (.error e, s')) : m s = (.error e, s') := by
  rcases Tx.bind_eq_error h with hm | ⟨a, s₁, -, hp⟩
  · exact hm
  · simp at hp

namespace Call

theorem work_notDurable (call : Call) :
    Tx.RaisesOnly (fun e => ¬e.Durable) (call.work rt conversationId) := by
  unfold work
  split
  · exact (addUserTurn_notDurable _).bind fun _ => Tx.RaisesOnly.pure _
  · exact (addAssistantTurn_quiet _ _ _ _).notDurable.bind fun _ => Tx.RaisesOnly.pure _
  · exact (correctTranscript_notDurable _ _).bind fun _ => Tx.RaisesOnly.pure _
  · exact (finish_notDurable _).bind fun _ => Tx.RaisesOnly.pure _

/-- A call that succeeds makes one step of the numbering. -/
theorem work_ok {call : Call} {n : Numbering} {s s' : Session} {u : PUnit}
    (h : call.work rt conversationId s = (.ok u, s')) (hon : call.isOn conversationId s.db = true)
    (hn : numbering s.db conversationId = some n) :
    ∃ n', numbering s'.db conversationId = some n' ∧ n.Step n' := by
  obtain ⟨operation, context, began⟩ := call
  cases operation with
  | addUserTurn accountId request =>
      obtain ⟨m, h⟩ := discard_ok h
      exact addUserTurn_ok hn h
  | addAssistantTurn content idempotencyKey runId interrupted =>
      obtain ⟨m, h⟩ := discard_ok h
      exact addAssistantTurn_ok hn h
  | correctTranscript accountId messageId request =>
      obtain ⟨r, h⟩ := discard_ok h
      obtain ⟨n', hn', hstep, -⟩ := correctTranscript_ok hn
        (fun m hm => by simpa [isOn, hm] using hon) h
      exact ⟨n', hn', hstep⟩
  | finish accountId reason =>
      obtain ⟨c, h⟩ := discard_ok h
      exact finish_ok hn h

theorem work_blocked {call : Call} {n : Numbering} {s s' : Session}
    (h : call.work rt conversationId s = (.error (.integrity outboxKey), s'))
    (hn : numbering s.db conversationId = some n) :
    (n.active = true ∧ (n.count + 1 : ℤ) ∈ n.used) ∨ call.RequestsAnswer s.db := by
  obtain ⟨operation, context, began⟩ := call
  cases operation with
  | addUserTurn accountId request => exact .inl (addUserTurn_blocked hn (discard_error h))
  | addAssistantTurn content idempotencyKey runId interrupted =>
      exact absurd rfl (addAssistantTurn_quiet _ _ _ _ s _ (congrArg Prod.fst (discard_error h))).2
  | correctTranscript accountId messageId request =>
      exact .inr (correctTranscript_blocked (discard_error h))
  | finish accountId reason => exact .inl (finish_blocked hn (discard_error h))

/-- In a valid numbering a correction that asks for a new answer does not succeed. -/
theorem work_request {call : Call} {n : Numbering} {s : Session}
    (hon : call.isOn conversationId s.db = true) (hn : numbering s.db conversationId = some n)
    (hvalid : n.Valid) (hrequest : call.RequestsAnswer s.db) :
    ∃ e s', call.work rt conversationId s = (.error e, s') := by
  rcases h : call.work rt conversationId s with ⟨e | u, s'⟩
  · exact ⟨e, s', rfl⟩
  exfalso
  obtain ⟨operation, context, began⟩ := call
  cases operation with
  | addUserTurn accountId request => exact hrequest
  | addAssistantTurn content idempotencyKey runId interrupted => exact hrequest
  | correctTranscript accountId messageId request =>
      obtain ⟨r, h⟩ := discard_ok h
      obtain ⟨-, -, -, hfree⟩ := correctTranscript_ok hn
        (fun m hm => by simpa [isOn, hm] using hon) h
      obtain ⟨q, hq, hnot⟩ := hfree hrequest.1
      exact hnot (hvalid.user_used q hq)
  | finish accountId reason => exact hrequest

end Call

/-- **Step lemma**: every call keeps the conversation's numbering valid. -/
theorem Numbered.of_step {s s' : Session} {call : Call} (h : Numbered conversationId s)
    (hs : step rt conversationId s call = some s') : Numbered conversationId s' := by
  obtain ⟨n, hn, hvalid⟩ := h
  unfold step at hs
  split at hs
  · next hon =>
    obtain rfl := Option.some.inj hs
    unfold Call.perform
    rcases hm : call.work rt conversationId { s with began := call.began } with ⟨e | u, s₁⟩
    · rw [Database.session_of_rollback hm (call.work_notDurable _ e (congrArg Prod.fst hm))]
      exact ⟨n, hn, hvalid⟩
    · rw [Database.session_of_ok hm]
      obtain ⟨n', hn', hstep⟩ := Call.work_ok hm hon hn
      exact ⟨n', hn', hvalid.step hstep⟩
  · simp at hs

/-- A blocked call is a correction that asks for a new answer. -/
theorem Numbered.requests_of_blocked {s : Session} {call : Call} (h : Numbered conversationId s)
    (hb : call.Blocked rt conversationId s) : call.RequestsAnswer s.db := by
  obtain ⟨n, hn, hvalid⟩ := h
  unfold Call.Blocked Call.perform at hb
  rcases hm : Database.session (call.work rt conversationId) { s with began := call.began } with
    ⟨r, s₁⟩
  rw [hm] at hb
  obtain rfl : r = .error (.integrity outboxKey) := hb
  obtain ⟨s₂, hwork, -⟩ := Database.session_eq_error hm
  rcases Call.work_blocked hwork hn with ⟨hactive, hused⟩ | hrequests
  · exact absurd hused (hvalid.next_free hactive)
  · exact hrequests

/-- After every run, a correction that asks for a new answer fails: the number of its event is
that of the corrected turn. -/
theorem request_fails {s t : Session} {calls : List Call} {call : Call}
    (hfresh : Fresh conversationId s) (hrun : Runs.run (step rt conversationId) s calls = some t)
    (hon : call.isOn conversationId t.db = true) (hrequest : call.RequestsAnswer t.db) :
    ∃ e, (call.perform rt conversationId t).1 = .error e := by
  obtain ⟨n, hn, hvalid⟩ := Runs.inv_of_run (fun _ _ _ h hs => h.of_step hs) hfresh.numbered hrun
  obtain ⟨e, s', hm⟩ : ∃ e s', call.work rt conversationId { t with began := call.began } =
      (.error e, s') := Call.work_request hon hn hvalid hrequest
  refine ⟨e, ?_⟩
  unfold Call.perform
  rw [Database.session_of_rollback hm (call.work_notDurable _ e (congrArg Prod.fst hm))]

/-- **The outbox numbering blocks no operation** of a run from a fresh conversation in which no
admitted correction asks for a new answer, and the numbers of the events of every run are
pairwise distinct. -/
theorem unblocked_of_no_request {s t : Session} {calls : List Call} (hfresh : Fresh conversationId s)
    (hrun : Runs.run (step rt conversationId) s calls = some t)
    (hcond : Runs.Along (step rt conversationId) (fun s call => ¬call.RequestsAnswer s.db) s calls) :
    Runs.Along (step rt conversationId) (fun s call => ¬call.Blocked rt conversationId s) s calls ∧
      (usedNumbers t.db conversationId).Nodup := by
  have hinv : ∀ s (call : Call) s', Numbered conversationId s →
      step rt conversationId s call = some s' → Numbered conversationId s' :=
    fun s call s' h hs => h.of_step hs
  constructor
  · refine hcond.of_inv (fun s call s' h _ hs => hinv s call s' h hs) ?_ hfresh.numbered
    intro s call h hnot hblocked
    exact hnot (h.requests_of_blocked hblocked)
  · obtain ⟨n, hn, hvalid⟩ := Runs.inv_of_run hinv hfresh.numbered hrun
    obtain ⟨c, -, rfl⟩ := Option.map_eq_some_iff.mp hn
    exact hvalid.nodup

/-! ### A turn and its correction -/

/-- The sample conversation before its first turn. -/
def freshSession : Session where
  began := .utc 1767268800000000
  db := .sample .empty

def freshRuntime : Runtime := .sample 1767268800000000 []

/-- A call by account 1. -/
def callOf (operation : Operation) : Call :=
  ⟨operation, { actorType := "user", actorId := some 1 }, .utc 1767268800000000⟩

def firstTurn : Call := callOf (.addUserTurn 1
  { idempotencyKey := ⟨"turn-0000000000000001", sampleKey_bounds⟩, content := ⟨"Kdy přijede Jan?", by decide⟩
    inputMode := .voice })

/-- The correction of the message that the first turn creates. -/
def correction (requestNewAnswer : Bool) : Call := callOf (.correctTranscript 1 (2 ^ 64)
  { expectedMessageVersion := 1, correctedContent := ⟨"Kdy přijede Jana?", by decide⟩
    requestNewAnswer := requestNewAnswer })

/-- The requested re-answer of the first turn is blocked. -/
theorem correction_blocked : ∃ s', step freshRuntime 2 freshSession firstTurn = some s' ∧
    (correction true).Blocked freshRuntime 2 s' := by
  have h : ((step freshRuntime 2 freshSession firstTurn).any fun s' =>
      (Exc.clash? ((correction true).perform freshRuntime 2 s').1).any fun k => decide (k = outboxKey)) =
      true := by
    decide +kernel
  obtain ⟨s', hs, hclash⟩ := (Option.any_eq_true _ _).mp h
  obtain ⟨k, hk, hkey⟩ := (Option.any_eq_true _ _).mp hclash
  obtain rfl := of_decide_eq_true hkey
  exact ⟨s', hs, Exc.clash?_eq_some hk⟩

/-- The outbox numbering blocks an admitted operation: the re-answer requested with the
correction of the first turn. -/
theorem numbering_blocks : ¬∀ (rt : Runtime) (conversationId : Uuid) (s : Session) (calls : List Call),
    Fresh conversationId s →
      Runs.Along (step rt conversationId) (fun s call => ¬call.Blocked rt conversationId s) s calls := by
  intro h
  obtain ⟨s', hs, hblocked⟩ := correction_blocked
  have hrun := h freshRuntime 2 freshSession [firstTurn, correction true] rfl
  exact (hrun.2 s' hs).1 hblocked

/-- A turn, its correction without a new answer and the end of the conversation are not
blocked. -/
theorem unblocked_of_no_request_correction : ∃ t,
    Runs.run (step freshRuntime 2) freshSession
      [firstTurn, correction false, callOf (.finish 1 "user_ended")] = some t ∧
    Runs.Along (step freshRuntime 2) (fun s call => ¬call.Blocked freshRuntime 2 s) freshSession
      [firstTurn, correction false, callOf (.finish 1 "user_ended")] ∧
    (usedNumbers t.db 2).Nodup := by
  obtain ⟨t, ht⟩ : ∃ t, Runs.run (step freshRuntime 2) freshSession
      [firstTurn, correction false, callOf (.finish 1 "user_ended")] = some t :=
    Option.isSome_iff_exists.mp (by decide +kernel)
  refine ⟨t, ht, unblocked_of_no_request rfl ht ?_⟩
  refine ⟨id, fun _ _ => ⟨?_, fun _ _ => ⟨id, fun _ _ => trivial⟩⟩⟩
  rintro ⟨hnew, -⟩
  simp at hnew

end ConversationService

end KajovoDagmar
