import KajovoDagmar.Orchestration.Locks
import KajovoDagmar.Orchestration.Outcomes
import KajovoDagmar.Orchestration.Targets

/-! # Confirmations and cancellations of one run

`confirm_action` takes the action and then its run, `cancel_run` takes the run and then, one by
one, its actions that await a confirmation.  Both look at the state of an action again after
they have waited for its row.  Two of them can wait for each other; the database then aborts
one of them.

From the moment at which a transaction has found an action pending, until its commit, it owns
the row, and the row is still pending: nobody else ends the action meanwhile.  An action that
has ended is never written again. -/

namespace KajovoDagmar

open ReadCommitted

/-! ### Cancelling the locked rows -/

/-- A cancellation request, with the start of its transaction and the first reading of its
clock. -/
structure CancelRequest where
  accountId : Uuid
  runId : Uuid
  context : AuditContext
  began : DateTime
  tick : ℕ

/-- The session in which a cancellation writes, over the committed store. -/
def CancelRequest.session (c : CancelRequest) (db : Db) : Session :=
  { db := db, began := c.began, tick := c.tick }

namespace OrchestrationService

variable (out : Outside)

/-- The run of an account. -/
def run? (db : Db) (accountId runId : Uuid) : Option OrchestrationRun :=
  (db.orchestrationRuns.select fun r => r.id = runId ∧ r.accountId = accountId).head?

/-- The action, if it is one of the run that await a confirmation. -/
def pendingOf? (db : Db) (runId actionId : Uuid) : Option ToolAction :=
  (db.toolActions.find? actionId).filter fun a => a.runId = runId ∧ a.state = .pendingConfirmation

/-- `cancel_run` on the locked run and its locked actions. -/
def cancelLocked (run : OrchestrationRun) (actions : List ToolAction) (context : AuditContext) :
    Work OrchestrationRun := do
  let now ← utcNow out.toRuntime
  let run ← updateRun out run.id fun r => { r with
    state := .cancelled, cancelledAt := some now, version := r.version + 1 }
  let _ ← Tx.forEach (fun a : ToolAction => updateAction out a.id fun a => { a with
    state := .cancelled, version := a.version + 1 }) actions
  let _ ← AuditService.append out.toRuntime context "orchestration.cancelled" "success"
    (some "orchestration_run") (some run.id)
  pure run

variable {out}

/-- `cancel_run` looks its rows up and goes on with them. -/
theorem cancelRun_eq (accountId runId : Uuid) (context : AuditContext) (s : Session) :
    cancelRun out accountId runId context s = (do
      let row ← Tx.gets fun s => run? s.db accountId runId
      let run ← Tx.orRaise row (.domain (.notFound "Orchestration run nebyl nalezen."))
      if run.state = .completed ∨ run.state = .failed ∨ run.state = .cancelled then pure run
      else do
        let actions ← Db.toolAction.select fun a =>
          a.runId = run.id ∧ a.state = .pendingConfirmation
        cancelLocked out run actions context : Work OrchestrationRun) s := by
  unfold cancelRun cancelLocked Relation.select
  simp only [Tx.gets_bind_apply, run?]
  change (Tx.orRaise (s.db.orchestrationRuns.select _).head? _ >>= _) s = _
  cases hrun : (s.db.orchestrationRuns.select fun r => r.id = runId ∧ r.accountId = accountId).head? with
  | none => simp [Tx.orRaise_none, Tx.raise_bind]
  | some run =>
      simp only [Tx.orRaise_some, Tx.pure_bind]
      split
      · rfl
      simp only [Tx.bind_apply]
      rcases hu : updateRun out run.id (fun r => { r with
        state := .cancelled, cancelledAt := some (.utc (out.clock s.tick)), version := r.version + 1 })
        { s with tick := s.tick + 1 } with ⟨e | r, s₁⟩
      · simp [utcNow, hu]
      · obtain ⟨stored, hstored, rfl, rfl⟩ := updateRun_ok hu
        have hid : stored.id = run.id := Table.key_of_find? hstored
        simp [utcNow, hu, hid, Db.toolAction]

end OrchestrationService
namespace Cancellations

/-! ### The program -/

/-- Where a transaction stands: its next statement, with what it has read. -/
inductive Stage where
  | confirmation (t : KajovoDagmar.Stage)
  | cancel (c : CancelRequest)
  | selectPending (c : CancelRequest) (run : OrchestrationRun)
  | lockPending (c : CancelRequest) (run : OrchestrationRun) (todo : List Uuid)
      (actions : List ToolAction)
  /-- Nothing to cancel. -/
  | refused

section program

open OrchestrationService

variable (out : Outside)

/-- What the commit of a cancellation publishes. -/
def publishCancel (c : CancelRequest) (run : OrchestrationRun) (actions : List ToolAction)
    (db : Db) : Db :=
  (Database.session (cancelLocked out run actions c.context) (c.session db)).2.db

/-- `cancel_run` on the locked run. -/
def cancelling (c : CancelRequest) (db : Db) : Stage :=
  match run? db c.accountId c.runId with
  | none => .refused
  | some run =>
    if run.state = .completed ∨ run.state = .failed ∨ run.state = .cancelled then .refused
    else .selectPending c run

/-- The next statement of a transaction. -/
def stmt : Stage → Stmt Lockable Db Stage
  | .confirmation t => (Confirmations.stmt out t).map .confirmation
  | .cancel c => .lock (.run c.runId) (cancelling c)
  | .selectPending c run => .read fun db =>
    let rows := db.toolActions.select fun a => a.runId = run.id ∧ a.state = .pendingConfirmation
    .lockPending c run (rows.map ToolAction.id) []
  | .lockPending c run (id :: todo) actions => .lock (.action id) fun db =>
    .lockPending c run todo (actions ++ (pendingOf? db run.id id).toList)
  | .lockPending c run [] actions => .commit fun db => some (publishCancel out c run actions db)
  | .refused => .commit some

/-- A transaction begins with a confirmation or with a cancellation request. -/
def initial : Stage → Bool
  | .confirmation (.confirm _) => true
  | .cancel _ => true
  | _ => false

/-- Confirmations and cancellations, interleaved. -/
abbrev step := ReadCommitted.step (stmt out) initial

end program

/-! ### Locks -/

variable {out : Outside}

/-- The rows that a transaction owns, apart from its run. -/
def held : Stage → List Lockable
  | .confirmation t => Confirmations.held t
  | .lockPending _ _ _ actions => actions.map fun a => .action a.id
  | .cancel _ | .selectPending _ _ | .refused => []

def Holds (t : Stage) (k : Lockable) : Prop := k ∈ held t

theorem pendingOf?_eq_some {db : Db} {runId actionId : Uuid} {a : ToolAction}
    (h : OrchestrationService.pendingOf? db runId actionId = some a) :
    a.id = actionId ∧ db.toolActions.find? actionId = some a ∧ a.state = .pendingConfirmation := by
  obtain ⟨hfind, hp⟩ := Option.filter_eq_some_iff.mp h
  have hstate := of_decide_eq_true hp
  exact ⟨Table.key_of_find? hfind, hfind, hstate.2⟩

/-- The row ownership of the program. -/
theorem discipline : Discipline (stmt out) initial Holds where
  start := by
    intro t k ht hk
    cases t with
    | confirmation t =>
        cases t with
        | confirm c => exact List.not_mem_nil hk
        | _ => simp [initial] at ht
    | cancel c => exact List.not_mem_nil hk
    | _ => simp [initial] at ht
  lock := by
    intro t k next store k' hstmt hk'
    cases t with
    | confirmation t =>
        obtain ⟨next', hstmt', rfl⟩ := Stmt.map_eq_lock hstmt
        exact Confirmations.discipline.lock hstmt' hk'
    | cancel c =>
        obtain ⟨rfl, rfl⟩ := Stmt.lock.inj hstmt
        unfold Holds cancelling at hk'
        split at hk'
        · exact absurd hk' List.not_mem_nil
        split at hk'
        · exact absurd hk' List.not_mem_nil
        · exact absurd hk' List.not_mem_nil
    | lockPending c run todo actions =>
        cases todo with
        | nil => simp [stmt] at hstmt
        | cons id todo =>
            obtain ⟨rfl, rfl⟩ := Stmt.lock.inj hstmt
            simp only [Holds, held, List.map_append, List.mem_append] at hk'
            rcases hk' with hk' | hk'
            · exact .inr hk'
            · obtain ⟨a, ha, rfl⟩ := List.mem_map.mp hk'
              obtain ⟨hid, -, -⟩ := pendingOf?_eq_some (Option.mem_toList.mp ha)
              exact .inl (congrArg Lockable.action hid)
    | _ => simp [stmt] at hstmt
  read := by
    intro t next store k hstmt hk
    cases t with
    | confirmation t =>
        obtain ⟨next', hstmt', rfl⟩ := Stmt.map_eq_read hstmt
        exact Confirmations.discipline.read hstmt' hk
    | selectPending c run =>
        obtain rfl := Stmt.read.inj hstmt
        exact absurd hk List.not_mem_nil
    | lockPending c run todo actions => cases todo <;> simp [stmt] at hstmt
    | _ => simp [stmt] at hstmt

/-! ### What a transaction knows -/

/-- The stored action awaits its confirmation. -/
def Pending (db : Db) (actionId : Uuid) : Prop :=
  ∃ a, db.toolActions.find? actionId = some a ∧ a.state = .pendingConfirmation

/-- The request that a stage of a confirmation serves. -/
def request? : KajovoDagmar.Stage → Option ConfirmRequest
  | .confirm c | .lockRun c _ | .retention c _ | .lockMemory c _ _ _ _ | .checkContent c _ _ _
  | .checkCreated c _ _ | .loadSource c _ _ _ _ _ | .selectSources c _ _ | .lockSource c _ _ _ _
  | .checkMerged c _ _ | .readOriginal c _ _ | .lockConversation c _ _ _ _ | .finish c _ _
  | .fail c _ | .expire c => some c
  | .refused | .change _ _ _ => none

/-- Once a confirmation has looked at its action it serves a pending one, and once a
cancellation has taken an action this is pending, too. -/
def Knows (db : Db) : Stage → Prop
  | .confirmation (.confirm _) | .confirmation (.lockRun _ _) | .confirmation .refused => True
  | .confirmation (.change _ _ _) => False
  | .confirmation t => ∀ c, request? t = some c → Pending db c.actionId
  | .lockPending _ _ _ actions => ∀ a ∈ actions, Pending db a.id
  | .cancel _ | .selectPending _ _ | .refused => True

section request

variable {c : ConfirmRequest} (a : ToolAction)

theorem request?_nextSource (todo : List (String × Json)) (loaded : List MemoryItem) :
    request? (Confirmations.nextSource out c a todo loaded) = some c := by
  cases todo with
  | cons source todo =>
      simp only [Confirmations.nextSource]
      split <;> rfl
  | nil =>
      simp only [Confirmations.nextSource]
      split
      · rfl
      split
      · rfl
      split <;> rfl

theorem request?_nextLock (m : Merge) (todo : List Uuid) :
    request? (Confirmations.nextLock c a m todo) = some c := by
  cases todo <;> rfl

theorem request?_executeFirst : request? (Confirmations.executeFirst out c a) = some c := by
  unfold Confirmations.executeFirst
  split
  · rfl
  split
  · split <;> rfl
  split
  · split <;> rfl
  split
  · rfl
  split
  · split <;> rfl
  split
  · split
    · rfl
    · exact request?_nextSource a _ _
  split
  · split <;> rfl
  split
  · split <;> rfl
  · rfl

theorem request?_retained (db : Db) : request? (Confirmations.retained out c a db) = some c := by
  unfold Confirmations.retained
  split <;> split <;> rfl

end request

theorem knows_of_request {db : Db} {t : KajovoDagmar.Stage} {c : ConfirmRequest}
    (hc : request? t = some c) (h : Pending db c.actionId) : Knows db (.confirmation t) := by
  cases t with
  | refused => trivial
  | change o todo held => simp [request?] at hc
  | confirm c => trivial
  | lockRun c runId => trivial
  | _ =>
      intro c' hc'
      obtain rfl : c = c' := Option.some.inj (hc.symm.trans hc')
      exact h

/-- The state of the action is looked at when its run has been locked. -/
theorem knows_confirmed (c : ConfirmRequest) (db : Db) :
    Knows db (.confirmation (Confirmations.confirmed out c db)) := by
  unfold Confirmations.confirmed
  split
  · trivial
  · next a ha =>
    split
    · trivial
    · next hstate =>
      simp only [not_or, not_not] at hstate
      have hfind : db.toolActions.find? c.actionId = some a := (Option.filter_eq_some_iff.mp ha).1
      have hpending : Pending db c.actionId := ⟨a, hfind, hstate.2.2⟩
      split
      · exact knows_of_request rfl hpending
      · exact knows_of_request (request?_executeFirst a) hpending

/-- Waiting for a row keeps what is known, on the store that is then seen. -/
theorem knows_lock (db : Db) (t : Stage) (k : Lockable) (next : Db → Stage)
    (hstmt : stmt out t = .lock k next) (h : Knows db t) : Knows db (next db) := by
  cases t with
  | confirmation t =>
      obtain ⟨next', hstmt', rfl⟩ := Stmt.map_eq_lock hstmt
      cases t with
      | confirm c =>
          obtain ⟨rfl, rfl⟩ := Stmt.lock.inj hstmt'
          dsimp only
          split <;> trivial
      | lockRun c runId =>
          obtain ⟨rfl, rfl⟩ := Stmt.lock.inj hstmt'
          exact knows_confirmed c db
      | lockMemory c a id expected op =>
          obtain ⟨rfl, rfl⟩ := Stmt.lock.inj hstmt'
          refine knows_of_request ?_ (h c rfl)
          dsimp only
          split
          · rfl
          split
          · rfl
          · cases op <;> rfl
      | lockSource c a m id todo =>
          obtain ⟨rfl, rfl⟩ := Stmt.lock.inj hstmt'
          refine knows_of_request ?_ (h c rfl)
          dsimp only
          split
          · exact request?_nextLock a _ _
          · exact request?_nextLock a _ _
      | lockConversation c a id expected op =>
          obtain ⟨rfl, rfl⟩ := Stmt.lock.inj hstmt'
          refine knows_of_request ?_ (h c rfl)
          dsimp only
          split
          · rfl
          split
          · rfl
          · cases op <;> rfl
      | change o todo held => exact h.elim
      | _ => simp [Confirmations.stmt] at hstmt'
  | cancel c =>
      obtain ⟨rfl, rfl⟩ := Stmt.lock.inj hstmt
      unfold cancelling
      split
      · trivial
      split <;> trivial
  | lockPending c run todo actions =>
      cases todo with
      | nil => simp [stmt] at hstmt
      | cons id todo =>
          obtain ⟨rfl, rfl⟩ := Stmt.lock.inj hstmt
          intro a ha
          rcases List.mem_append.mp ha with ha | ha
          · exact h a ha
          · obtain ⟨rfl, hfind, hstate⟩ := pendingOf?_eq_some (Option.mem_toList.mp ha)
            exact ⟨a, hfind, hstate⟩
  | _ => simp [stmt] at hstmt

theorem knows_read (db : Db) (t : Stage) (next : Db → Stage) (hstmt : stmt out t = .read next)
    (h : Knows db t) : Knows db (next db) := by
  cases t with
  | confirmation t =>
      obtain ⟨next', hstmt', rfl⟩ := Stmt.map_eq_read hstmt
      cases t with
      | retention c a =>
          obtain rfl := Stmt.read.inj hstmt'
          exact knows_of_request (request?_retained a db) (h c rfl)
      | checkContent c a item request =>
          obtain rfl := Stmt.read.inj hstmt'
          exact knows_of_request rfl (h c rfl)
      | checkCreated c a request =>
          obtain rfl := Stmt.read.inj hstmt'
          exact knows_of_request rfl (h c rfl)
      | loadSource c a id source todo loaded =>
          obtain rfl := Stmt.read.inj hstmt'
          refine knows_of_request ?_ (h c rfl)
          dsimp only
          split
          · rfl
          split
          · exact request?_nextSource a _ _
          · rfl
      | selectSources c a m =>
          obtain rfl := Stmt.read.inj hstmt'
          exact knows_of_request (request?_nextLock a m _) (h c rfl)
      | checkMerged c a m =>
          obtain rfl := Stmt.read.inj hstmt'
          exact knows_of_request rfl (h c rfl)
      | readOriginal c a id =>
          obtain rfl := Stmt.read.inj hstmt'
          refine knows_of_request ?_ (h c rfl)
          dsimp only
          split <;> rfl
      | change o todo held => exact h.elim
      | _ => simp [Confirmations.stmt] at hstmt'
  | selectPending c run =>
      obtain rfl := Stmt.read.inj hstmt
      exact fun a ha => absurd ha List.not_mem_nil
  | lockPending c run todo actions => cases todo <;> simp [stmt] at hstmt
  | _ => simp [stmt] at hstmt

/-- What the store has in a row, as far as it is about actions. -/
def actionRow (db : Db) : Lockable → Option ToolAction
  | .action id => db.toolActions.find? id
  | .run _ | .target _ => none

/-- What a transaction knows is about rows that it owns. -/
theorem knows_stable : Stable Holds actionRow Knows := by
  intro t db db' hsame h
  have hpending : ∀ id, Holds t (.action id) → Pending db id → Pending db' id := by
    rintro id hid ⟨a, hfind, hstate⟩
    have hrow : db'.toolActions.find? id = db.toolActions.find? id := hsame (.action id) hid
    exact ⟨a, hrow.trans hfind, hstate⟩
  cases t with
  | confirmation t =>
      cases t with
      | confirm c => trivial
      | lockRun c runId => trivial
      | refused => trivial
      | change o todo held => exact h.elim
      | _ =>
          intro c hc
          refine hpending c.actionId ?_ (h c hc)
          obtain rfl := Option.some.inj hc
          exact List.mem_cons_self
  | lockPending c run todo actions =>
      exact fun a ha => hpending a.id (List.mem_map.mpr ⟨a, ha, rfl⟩) (h a ha)
  | _ => trivial

/-! ### What a commit writes -/

section writes

open OrchestrationService

/-- An update of an action, seen in the table of actions. -/
theorem updateAction_put {actionId : Uuid} {f : ToolAction → ToolAction} {a : ToolAction}
    {s s' : Session} (h : updateAction out actionId f s = (.ok a, s')) (hid : ∀ x, (f x).id = x.id) :
    a.id = actionId ∧ (∃ stored, a = f stored) ∧ s'.db.toolActions = s.db.toolActions.put a := by
  obtain ⟨stored, hstored, rfl, hledger⟩ := updateAction_ledger h hid
  have hkey : (f stored).id = actionId := (hid stored).trans (Table.key_of_find? hstored)
  exact ⟨hkey, ⟨stored, rfl⟩, congrArg (fun x => x.2.1) hledger⟩

/-- What a confirmation that is not rolled back does to the actions: its own has ended. -/
theorem concludeAction_cases {actionId : Uuid} {context : AuditContext} {work : Work Json}
    (hwork : Tx.Keeps (Same Db.toolActions) work) {r : Except Exc ToolAction} {s s' : Session}
    (h : Confirmations.concludeAction out actionId context work s = (r, s')) :
    (∃ e, r = .error e ∧ ¬e.Durable) ∨
      ∃ a, a.id = actionId ∧ a.state.Finished ∧ s'.db.toolActions = s.db.toolActions.put a := by
  unfold Confirmations.concludeAction at h
  rcases Tx.bind_cases h with ⟨e, he, rfl⟩ | ⟨confirmedAt, s₁, h₁, h⟩
  · simp [utcNow] at he
  have hs₁ : s₁.db.toolActions = s.db.toolActions := by rw [← (Prod.mk.inj h₁).2]
  rcases Tx.bind_cases h with ⟨e, he, rfl⟩ | ⟨running, s₂, h₂, h⟩
  · exact .inl ⟨e, rfl, fun hd => updateAction_noDomain _ _ _ e (by rw [he]) hd.isDomain⟩
  obtain ⟨hid, -, hs₂⟩ := updateAction_put h₂ fun _ => rfl
  rw [hid] at h
  rcases Tx.handle_cases h with ⟨a, hbody, rfl⟩ | ⟨e, s₃, hbody, h⟩
  · obtain ⟨result, s₃, h₃, hbody⟩ := Tx.bind_eq_ok hbody
    obtain ⟨now, s₄, h₄, hbody⟩ := Tx.bind_eq_ok hbody
    obtain ⟨completed, s₅, h₅, hbody⟩ := Tx.bind_eq_ok hbody
    obtain ⟨u, s₆, h₆, hbody⟩ := Tx.bind_eq_ok hbody
    obtain ⟨event, s₇, h₇, hbody⟩ := Tx.bind_eq_ok hbody
    have hs₃ : s₃.db.toolActions = s₂.db.toolActions := hwork.of_apply h₃
    have hs₄ : s₄.db.toolActions = s₃.db.toolActions := by rw [← (Prod.mk.inj h₄).2]
    obtain ⟨hid', ⟨stored, hcompleted⟩, hs₅⟩ := updateAction_put h₅ fun _ => rfl
    have hs₆ : s₆.db.toolActions = s₅.db.toolActions := by rw [(completeRun_ok h₆).2]
    have hs₇ : s₇.db.toolActions = s₆.db.toolActions := by rw [append_db h₇]
    have hs' : s'.db.toolActions = s₇.db.toolActions := by rw [← (Prod.mk.inj hbody).2]
    refine .inr ⟨completed, hid', ?_, ?_⟩
    · rw [hcompleted]
      trivial
    · rw [hs', hs₇, hs₆, hs₅, hs₄, hs₃, hs₂, hs₁]
      exact Table.put_put (hid.trans hid'.symm)
  · rcases Tx.bind_cases h with ⟨e', he', rfl⟩ | ⟨u, s₄, h₄, h⟩
    · exact .inl ⟨e', rfl, fun hd => failAction_noDomain _ _ _ _ e' (by rw [he']) hd.isDomain⟩
    obtain ⟨hr, hs'⟩ := Prod.mk.inj h
    by_cases he : e.IsDomain
    swap
    · exact .inl ⟨e.markDurable, hr.symm, fun hd => he ((Exc.durable_markDurable e).mp hd)⟩
    · -- what follows the work raises no domain error
      have hwork₃ : work s₂ = (.error e, s₃) := by
        rcases Tx.bind_eq_error hbody with hw | ⟨result, s₃', -, hrest⟩
        · exact hw
        · exact absurd he (recordResult_noDomain _ result context s₃' e (by rw [hrest]))
      have hs₃ : s₃.db.toolActions = s₂.db.toolActions := hwork.of_apply hwork₃
      obtain ⟨stored', failed, hstored', hfid, -, hfstate, hledger⟩ := failAction_ok h₄
      have hs₄ : s₄.db.toolActions = s₃.db.toolActions.put failed := congrArg (fun x => x.2.1) hledger
      have hid' : failed.id = actionId := hfid.trans (Table.key_of_find? hstored')
      refine .inr ⟨failed, hid', ?_, ?_⟩
      · rw [hfstate]
        trivial
      · rw [← hs', hs₄, hs₃, hs₂, hs₁]
        exact Table.put_put (hid.trans hid'.symm)

/-- The commit of a confirmation writes nothing, or its action has ended. -/
theorem actions_publishWork {work : Work Json} (hwork : Tx.Keeps (Same Db.toolActions) work)
    (c : ConfirmRequest) (db : Db) :
    Confirmations.publishWork out c work db = db ∨
      ∃ a, a.id = c.actionId ∧ a.state.Finished ∧
        (Confirmations.publishWork out c work db).toolActions = db.toolActions.put a := by
  unfold Confirmations.publishWork
  rcases hs : Database.session (Confirmations.concludeAction out c.actionId c.context work)
    (c.session db) with ⟨r, s'⟩
  rcases session_cases hs with ⟨hm, hdurable⟩ | ⟨hdb, -⟩
  · rcases concludeAction_cases hwork hm with ⟨e, he, hnot⟩ | hended
    · exact absurd (hdurable e he) hnot
    · exact .inr hended
  · exact .inl hdb

theorem actions_publishExpiry (c : ConfirmRequest) (db : Db) :
    Confirmations.publishExpiry out c db = db ∨
      ∃ a, a.id = c.actionId ∧ a.state.Finished ∧
        (Confirmations.publishExpiry out c db).toolActions = db.toolActions.put a := by
  unfold Confirmations.publishExpiry
  rcases hs : Database.session (expireAction out c.actionId) (c.session db) with ⟨r, s'⟩
  rcases session_cases hs with ⟨hm, hdurable⟩ | ⟨hdb, -⟩
  · unfold expireAction at hm
    rcases Tx.bind_cases hm with ⟨e, he, rfl⟩ | ⟨a, s₁, h₁, hm⟩
    · exact absurd (hdurable e rfl).isDomain (updateAction_noDomain _ _ _ e (by rw [he]))
    · obtain ⟨hid, ⟨stored, ha⟩, hs₁⟩ := updateAction_put h₁ fun _ => rfl
      refine .inr ⟨a, hid, ?_, ?_⟩
      · rw [ha]
        trivial
      · rw [← (Prod.mk.inj hm).2]
        exact hs₁
  · exact .inl hdb

/-- An update of an action leaves the others. -/
theorem updateAction_leaves {actionId id : Uuid} {f : ToolAction → ToolAction}
    (hid : ∀ x, (f x).id = x.id) (hne : id ≠ actionId) :
    Tx.Keeps (Same fun db => db.toolActions.find? id) (updateAction out actionId f) := by
  intro s
  rcases hu : updateAction out actionId f s with ⟨e | a, s₁⟩
  · unfold updateAction at hu
    obtain ⟨rfl, -⟩ := Relation.update_error hu
    rfl
  · obtain ⟨hkey, -, hs₁⟩ := updateAction_put hu hid
    rw [← hkey] at hne
    change s₁.db.toolActions.find? id = s.db.toolActions.find? id
    rw [hs₁, Table.find?_put_of_ne hne]

theorem forEach_leaves {actions : List ToolAction} {id : Uuid} {f : ToolAction → ToolAction}
    (hf : ∀ x, (f x).id = x.id) (hid : ∀ a ∈ actions, a.id ≠ id) :
    Tx.Keeps (Same fun db => db.toolActions.find? id)
      (Tx.forEach (fun a : ToolAction => updateAction out a.id f) actions) := by
  induction actions with
  | nil => exact Tx.Keeps.pure _
  | cons a as ih =>
      have hne : id ≠ a.id := (hid a List.mem_cons_self).symm
      have hrest := ih fun x hx => hid x (List.mem_cons_of_mem _ hx)
      exact (updateAction_leaves hf hne).bind fun _ => hrest.bind fun _ => Tx.Keeps.pure _

/-- A cancellation leaves the actions that it has not locked. -/
theorem cancelLocked_leaves {run : OrchestrationRun} {actions : List ToolAction}
    {context : AuditContext} {id : Uuid} (hid : ∀ a ∈ actions, a.id ≠ id) :
    Tx.Keeps (Same fun db => db.toolActions.find? id) (cancelLocked out run actions context) := by
  unfold cancelLocked
  refine (Same.utcNow _).bind fun now => ?_
  refine (updateRun_keeps (fun _ _ _ => rfl) _).bind fun run => ?_
  refine Tx.Keeps.bind (forEach_leaves ?_ hid) fun _ => ?_
  · exact fun _ => rfl
  · exact (AuditService.append_keeps fun _ _ => rfl).bind fun _ => Tx.Keeps.pure _

theorem find?_publishCancel {c : CancelRequest} {run : OrchestrationRun} {actions : List ToolAction}
    {db : Db} {id : Uuid} (hid : ∀ a ∈ actions, a.id ≠ id) :
    (publishCancel out c run actions db).toolActions.find? id = db.toolActions.find? id := by
  unfold publishCancel
  rcases hs : Database.session (cancelLocked out run actions c.context) (c.session db) with ⟨r, s'⟩
  rcases session_cases hs with ⟨hm, -⟩ | ⟨hdb, -⟩
  · exact (cancelLocked_leaves hid).of_apply hm
  · exact congrArg (fun db : Db => db.toolActions.find? id) hdb

/-- An operation writes no action. -/
theorem planWork_actions (c : ConfirmRequest) (plan : Plan) :
    Tx.Keeps (Same Db.toolActions) (Confirmations.planWork out c plan) := by
  refine Confirmations.planWork_keeps ?_ ?_ c plan
  · constructor <;> intros <;> rfl
  · constructor <;> intros <;> rfl

/-- A commit leaves the actions that its transaction does not own. -/
theorem knows_local : Local (stmt out) Holds actionRow Knows := by
  intro t publish db db' k hstmt hknows hpublish hk
  cases k with
  | run id => rfl
  | target k => rfl
  | action id =>
      -- a row that is replaced by one of an owned action is not this one
      have hput : ∀ {c : ConfirmRequest} {db'' : Db}, .action id ∉ [Lockable.action c.actionId] →
          (db'' = db ∨ ∃ a, a.id = c.actionId ∧ a.state.Finished ∧
            db''.toolActions = db.toolActions.put a) →
          db''.toolActions.find? id = db.toolActions.find? id := by
        rintro c db'' hnot (rfl | ⟨a, ha, -, hactions⟩)
        · rfl
        · have hne : id ≠ a.id := by
            rintro rfl
            exact hnot (List.mem_singleton.mpr (congrArg Lockable.action ha))
          rw [hactions, Table.find?_put_of_ne hne]
      cases t with
      | confirmation t =>
          have hstmt' := Stmt.map_eq_commit hstmt
          cases t with
          | finish c a plan =>
              obtain rfl := Stmt.commit.inj hstmt'
              obtain rfl := Option.some.inj hpublish
              refine hput (fun hin => hk ?_) (actions_publishWork (planWork_actions c plan) c db)
              rw [List.mem_singleton.mp hin]
              exact List.mem_cons_self
          | fail c e =>
              obtain rfl := Stmt.commit.inj hstmt'
              obtain rfl := Option.some.inj hpublish
              exact hput hk (actions_publishWork (Tx.Keeps.raise _) c db)
          | expire c =>
              obtain rfl := Stmt.commit.inj hstmt'
              obtain rfl := Option.some.inj hpublish
              exact hput hk (actions_publishExpiry c db)
          | refused =>
              obtain rfl := Stmt.commit.inj hstmt'
              obtain rfl := Option.some.inj hpublish
              rfl
          | change o todo held => exact hknows.elim
          | _ => simp [Confirmations.stmt] at hstmt'
      | lockPending c run todo actions =>
          cases todo with
          | nil =>
              obtain rfl := Stmt.commit.inj hstmt
              obtain rfl := Option.some.inj hpublish
              refine find?_publishCancel fun a ha hid => hk ?_
              exact List.mem_map.mpr ⟨a, ha, congrArg Lockable.action hid⟩
          | cons id todo => simp [stmt] at hstmt
      | refused =>
          obtain rfl := Stmt.commit.inj hstmt
          obtain rfl := Option.some.inj hpublish
          rfl
      | _ => simp [stmt] at hstmt

end writes

/-! ### At most one effect -/

/-- The stored action has been completed, or failed, expired or been cancelled. -/
def Ended (db : Db) (actionId : Uuid) : Prop :=
  ∃ a, db.toolActions.find? actionId = some a ∧ a.state.Finished

theorem Pending.not_ended {db : Db} {actionId : Uuid} (h : Pending db actionId) :
    ¬Ended db actionId := by
  obtain ⟨a, ha, hstate⟩ := h
  rintro ⟨b, hb, hfinished⟩
  obtain rfl : a = b := Option.some.inj (ha.symm.trans hb)
  rw [hstate] at hfinished
  exact hfinished

/-- The event commits the domain effect of the action: the transaction has carried out the
operation of the action, and its commit is not rolled back. -/
def Effect (out : Outside) (actionId : Uuid) (s : State Lockable Db Stage) (e : Event Stage) : Prop :=
  ∃ i c a plan, e = .exec i ∧ s.txn i = some (.confirmation (.finish c a plan)) ∧
    c.actionId = actionId ∧
    Confirmations.publishWork out c (Confirmations.planWork out c plan) s.store ≠ s.store

section runs

variable {s s' : State Lockable Db Stage}

/-- The rows that the transactions own and what they know. -/
structure Inv (s : State Lockable Db Stage) : Prop where
  held : Held Holds s
  knows : Asserted Knows s

theorem Inv.of_quiet (h : s.Quiet) : Inv s := ⟨Held.of_quiet h, Asserted.of_quiet h⟩

theorem Inv.of_step {e : Event Stage} (h : Inv s) (hs : step out s e = some s') : Inv s' where
  held := h.held.of_step discipline hs
  knows := by
    refine h.knows.of_local knows_local knows_stable ?_ knows_lock knows_read h.held hs
    intro db t ht
    cases t with
    | confirmation t =>
        cases t with
        | confirm c => trivial
        | _ => simp [initial] at ht
    | cancel c => trivial
    | _ => simp [initial] at ht

theorem Inv.of_run {es : List (Event Stage)} (h : Inv s)
    (hr : Runs.run (step out) s es = some s') : Inv s' :=
  Runs.inv_of_run (fun _ _ _ hinv hs => hinv.of_step hs) h hr

/-- No transaction commits while it owns an action that has ended. -/
theorem not_ended_of_commit (t : Stage) (publish : Db → Option Db) (db : Db) (k : Lockable)
    (hstmt : stmt out t = .commit publish) (hknows : Knows db t) (hk : Holds t k) :
    ¬∃ a, actionRow db k = some a ∧ a.state.Finished := by
  cases k with
  | run id => simp [actionRow]
  | target k => simp [actionRow]
  | action id =>
      have hpending : Pending db id := by
        cases t with
        | confirmation t =>
            have hstmt' := Stmt.map_eq_commit hstmt
            cases t with
            | finish c a plan =>
                rcases List.mem_cons.mp hk with hid | hk
                · obtain rfl := Lockable.action.inj hid
                  exact hknows c rfl
                · simp at hk
            | fail c e =>
                obtain rfl := Lockable.action.inj (List.mem_singleton.mp hk)
                exact hknows c rfl
            | expire c =>
                obtain rfl := Lockable.action.inj (List.mem_singleton.mp hk)
                exact hknows c rfl
            | refused => exact absurd hk List.not_mem_nil
            | change o todo held => exact hknows.elim
            | _ => simp [Confirmations.stmt] at hstmt'
        | lockPending c run todo actions =>
            obtain ⟨a, ha, hid⟩ := List.mem_map.mp hk
            obtain rfl := Lockable.action.inj hid
            exact hknows a ha
        | refused => exact absurd hk List.not_mem_nil
        | _ => simp [stmt] at hstmt
      exact hpending.not_ended

/-- **Run lemma**: an action that has ended stays as it is. -/
theorem Ended.of_run {es : List (Event Stage)} {actionId : Uuid} (h : Ended s.store actionId)
    (hinv : Inv s) (hr : Runs.run (step out) s es = some s') : Ended s'.store actionId := by
  have hboth : Inv s' ∧ Ended s'.store actionId := by
    refine Runs.inv_of_run (I := fun s => Inv s ∧ Ended s.store actionId) ?_ ⟨hinv, h⟩ hr
    rintro s e s₁ ⟨hinv, a, ha, hfinished⟩ hs
    have hrow : actionRow s₁.store (.action actionId) = actionRow s.store (.action actionId) :=
      row_of_step (F := fun o => ∃ a, o = some a ∧ a.state.Finished) knows_local
        not_ended_of_commit hinv.knows hs ⟨a, ha, hfinished⟩
    exact ⟨hinv.of_step hs, a, hrow.trans ha, hfinished⟩
  exact hboth.2

theorem Effect.pending {e : Event Stage} {actionId : Uuid} (h : Effect out actionId s e)
    (hinv : Inv s) : Pending s.store actionId := by
  obtain ⟨i, c, a, plan, -, ht, rfl, -⟩ := h
  exact hinv.knows i _ ht c rfl

/-- The commit of an effect leaves the action ended. -/
theorem Effect.ended {e : Event Stage} {actionId : Uuid} (h : Effect out actionId s e)
    (hinv : Inv s) (hs : step out s e = some s') : Ended s'.store actionId := by
  obtain ⟨stored, hstored, -⟩ := h.pending hinv
  obtain ⟨i, c, a, plan, rfl, ht, rfl, hwrites⟩ := h
  have hstore : s'.store =
      Confirmations.publishWork out c (Confirmations.planWork out c plan) s.store := by
    have hexec : step out s (.exec i) = some (State.release { s with
        store := Confirmations.publishWork out c (Confirmations.planWork out c plan) s.store } i) := by
      simp only [ReadCommitted.step, ht, Option.bind_some, execute, stmt, Confirmations.stmt, Stmt.map]
    rw [hs] at hexec
    rw [Option.some.inj hexec]
    rfl
  rcases actions_publishWork (planWork_actions c plan) c s.store with hsame | ⟨b, hb, hfinished, hput⟩
  · exact absurd hsame hwrites
  · refine ⟨b, ?_, hfinished⟩
    rw [hstore, hput]
    rw [← hb] at hstored ⊢
    exact Table.find?_put_self hstored

end runs

/-- **At most one committed effect per action**: whatever confirmations and cancellations run
interleaved, an action that has ended has no effect any more, and an action that has had its
effect has no other one. -/
theorem effect_once {s : State Lockable Db Stage} (hs : s.Quiet) (actionId : Uuid) :
    (∀ es t e, Runs.run (step out) s es = some t → Ended t.store actionId →
      ¬Effect out actionId t e) ∧
    ∀ es e es' e' t t', Runs.run (step out) s es = some t → Effect out actionId t e →
      Runs.run (step out) s (es ++ e :: es') = some t' → ¬Effect out actionId t' e' := by
  have hinv := Inv.of_quiet hs
  constructor
  · intro es t e hrun hended heffect
    exact (heffect.pending (hinv.of_run hrun)).not_ended hended
  · intro es e es' e' t t' hrun heffect hrun' heffect'
    obtain ⟨t₀, hrun₀, hrest⟩ := Runs.run_append_eq_some.mp hrun'
    obtain rfl : t = t₀ := Option.some.inj (hrun.symm.trans hrun₀)
    obtain ⟨t₁, hstep, hlast⟩ := Runs.run_cons_eq_some.mp hrest
    have hinv₀ := hinv.of_run hrun
    have hinv₁ := hinv₀.of_step hstep
    have hended : Ended t'.store actionId := (heffect.ended hinv₀ hstep).of_run hinv₁ hlast
    exact (heffect'.pending (hinv.of_run hrun')).not_ended hended

/-- The action of a conversation to be continued, before any transaction. -/
def awaitingState : State Lockable Db Stage where
  store := Confirmations.continuingDb
  owner := fun _ => none
  txn := fun _ => none

/-- The one effect of an action, after which nothing that is confirmed or cancelled gives it
another one. -/
theorem effect_once_continuing : ∃ es t,
    Runs.run (step Confirmations.continuing) awaitingState es = some t ∧
      Effect Confirmations.continuing 30 t (.exec 1) ∧
      ∀ es' e' t', Runs.run (step Confirmations.continuing) awaitingState (es ++ .exec 1 :: es') =
        some t' → ¬Effect Confirmations.continuing 30 t' e' := by
  have hidle : Idle awaitingState := ⟨fun _ => rfl, fun _ => rfl⟩
  have hconfirmed : Goes (Confirmations.stmt Confirmations.continuing) awaitingState.store
      (.confirm Confirmations.continuingRequest) 3
      (.finish Confirmations.continuingRequest Confirmations.continuingAction
        (.continueFrom Confirmations.continuingConversation)) :=
    Confirmations.continuing_goes rfl rfl rfl
  have hmap : ∀ t, stmt Confirmations.continuing (.confirmation t) =
      (Confirmations.stmt Confirmations.continuing t).map .confirmation := fun _ => rfl
  have hgoes := hconfirmed.map hmap
  obtain ⟨t, hrun, halone, hstore⟩ : ∃ t, Runs.run (step Confirmations.continuing)
      (awaitingState.goOn 1 (.confirmation (.confirm Confirmations.continuingRequest)))
      (List.replicate 3 (.exec 1)) = some t ∧ Alone t 1 _ ∧ t.store = awaitingState.store :=
    (hidle.alone 1 _).run hgoes
  have hrun' := Runs.run_cons_eq_some.mpr ⟨_, hidle.start rfl, hrun⟩
  have heffect : Effect Confirmations.continuing 30 t (.exec 1) := by
    refine ⟨1, _, _, _, rfl, halone.at_, rfl, ?_⟩
    rw [hstore]
    intro hsame
    have hstate := congrArg (fun db : Db => (db.toolActions.find? 30).map ToolAction.state) hsame
    revert hstate
    decide +kernel
  exact ⟨_, t, hrun', heffect, fun es' e' t' hrest =>
    (effect_once hidle.quiet 30).2 _ _ es' e' t t' hrun' heffect hrest⟩

end Cancellations
end KajovoDagmar
