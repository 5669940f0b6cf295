import KajovoDagmar.Db.Sample
import KajovoDagmar.Library.Custody
import KajovoDagmar.Library.Runs
import KajovoDagmar.Realtime.WebSocket

/-! # Suspended sessions

The connections of a server share the states of interrupted sessions: when a socket is lost its state is registered
under its conversation, together with a task that ends the conversation after a while, and a new connection may take
it over.  A label is what one coroutine does from one await to the next.

A refused resume leaves everything as it was, unless it names a suspended session and its generation is no number
(`refused_keeps_iff`): then the session is lost.  -/

namespace KajovoDagmar.Realtime

namespace Registry

/-! ### The server -/

/-- The query of a connection, as far as it asks for a suspended session. -/
structure Query where
  sessionId : Option String := none
  generation : Option String := none

/-- Where `expire_suspended_session` is: not begun, in its sleep, in the database, or over. -/
inductive Stage where
  | created
  | sleeping
  | ending (conversationId : Uuid)
  | done
deriving DecidableEq

/-- It is ending the conversation. -/
def Stage.ends : Stage → Bool
  | ending _ => true
  | _ => false

/-- A task of `expire_suspended_session`. -/
structure Expiration where
  session : ℕ
  stage : Stage
  /-- `cancel()` has been called: its next step raises. -/
  cancelled : Bool := false

/-- Where a call of `handle_realtime` is. -/
inductive Handler where
  /-- It awaits the cancelled task of the session that it takes over. -/
  | waiting (session task : ℕ)
  /-- Before `websocket.accept`. -/
  | accepting (session : ℕ) (resumeAvailable : Bool)
  /-- In its loop. -/
  | reading (session : ℕ) (resumeAvailable : Bool)
  /-- In `session.end`, after the conversation has been ended. -/
  | leaving (session : ℕ) (resumeAvailable : Bool)
  /-- It has lost its socket and awaits `cancel_partial_task`. -/
  | closing (session : ℕ)
  | left
deriving DecidableEq

/-- The state that a handler has. -/
def Handler.session? : Handler → Option ℕ
  | waiting session _ => some session
  | accepting session _ => some session
  | reading session _ => some session
  | leaving session _ => some session
  | closing session => some session
  | left => none

/-- What happens to suspensions, which are numbered like their tasks. -/
inductive Event where
  | suspended (task session : ℕ)
  | taken (task handler : ℕ)
  | expired (task : ℕ)
  /-- The conversation is ended as `connection_lost`. -/
  | lost (task : ℕ) (conversationId : Uuid)
deriving DecidableEq

structure Server where
  states : ℕ → ConnectionState := fun _ => .new 0
  nextState : ℕ := 0
  /-- `app.state.realtime_sessions`. -/
  sessions : Uuid → Option ℕ := fun _ => none
  tasks : ℕ → Expiration := fun _ => ⟨0, .done, false⟩
  nextTask : ℕ := 0
  handlers : ℕ → Handler := fun _ => .left
  nextHandler : ℕ := 0
  /-- The ids that `start_session` has given to conversations, and which of them are active. -/
  started : List Uuid := []
  active : Uuid → Bool := fun _ => false
  journal : List Event := []

namespace Server

def setState (w : Server) (session : ℕ) (s : ConnectionState) : Server :=
  { w with states := Function.update w.states session s }

def setTask (w : Server) (task : ℕ) (t : Expiration) : Server :=
  { w with tasks := Function.update w.tasks task t }

def setHandler (w : Server) (handler : ℕ) (h : Handler) : Server :=
  { w with handlers := Function.update w.handlers handler h }

def note (w : Server) (e : Event) : Server := { w with journal := w.journal ++ [e] }

end Server

/-! ### The handshake -/

section handshake

variable (rt : Runtime)

/-- The conversation that the query asks for. -/
def Query.requested (query : Query) : Option Uuid := (query.sessionId.filter (· ≠ "")).bind rt.parseUuid

/-- The generation that the query asks for, or `none` if it is no number. -/
def Query.requestedGeneration (query : Query) : Option ℤ := (rt.pyInt (.str (query.generation.getD "0"))).toOption

/-- What a handshake leaves in the registry, and the suspended session that it takes. -/
def handshake (w : Server) (accountId : Uuid) (query : Query) : (Uuid → Option ℕ) × Option ℕ :=
  match query.requested rt with
  | none => (w.sessions, none)
  | some id =>
    let popped := Function.update w.sessions id none
    match query.requestedGeneration rt with
    | none => (popped, none)
    | some generation =>
      match w.sessions id with
      | none => (popped, none)
      | some suspended =>
        if (w.states suspended).accountId = accountId ∧ generation = (w.states suspended).generation + 1 then
          (popped, some suspended)
        else
          match (w.states suspended).conversationId with
          | some conversationId => (Function.update popped conversationId (some suspended), none)
          | none => (popped, none)

/-- A suspended session as it is taken over. -/
def takenOver (s : ConnectionState) : ConnectionState :=
  { s with
    generation := s.generation + 1
    sendLock := s.sendLock + 1
    expirationTask := none
    paused := true
    connected := true }

/-- A connection up to its first await. -/
def connect (w : Server) (accountId : Uuid) (query : Query) : Server :=
  let w' := { w with sessions := (handshake rt w accountId query).1, nextHandler := w.nextHandler + 1 }
  match (handshake rt w accountId query).2 with
  | none =>
    { w'.setState w.nextState (.new accountId) with nextState := w.nextState + 1 }.setHandler w.nextHandler
      (.accepting w.nextState false)
  | some suspended =>
    match (w.states suspended).expirationTask with
    | none =>
      (w'.setState suspended (takenOver (w.states suspended))).setHandler w.nextHandler (.accepting suspended true)
    | some task =>
      (w'.setTask task { w.tasks task with cancelled := true }).setHandler w.nextHandler (.waiting suspended task)

end handshake

/-! ### Refused resumes -/

/-- Suspended sessions are registered under their conversations. -/
def Keyed (w : Server) : Prop :=
  ∀ id session, w.sessions id = some session → (w.states session).conversationId = some id

section refused

variable {rt : Runtime} {w : Server}

/-- The query names a suspended session with a generation that is no number. -/
def Garbled (rt : Runtime) (w : Server) (query : Query) : Prop :=
  ∃ id ∈ query.requested rt, (w.sessions id).isSome ∧ query.requestedGeneration rt = none

instance (query : Query) : Decidable (Garbled rt w query) :=
  inferInstanceAs (Decidable (∃ id ∈ query.requested rt, _))

/-- A refused handshake puts back what it has taken, unless the generation is no number. -/
theorem handshake_keeps_iff (hkeyed : Keyed w) {accountId : Uuid} {query : Query}
    (hrefused : (handshake rt w accountId query).2 = none) :
    (handshake rt w accountId query).1 = w.sessions ↔ ¬Garbled rt w query := by
  unfold handshake at hrefused ⊢
  unfold Garbled
  rcases hid : query.requested rt with _ | id
  · simp
  rcases hregistered : w.sessions id with _ | suspended
  · -- nothing is taken
    have hpopped : Function.update w.sessions id none = w.sessions := by rw [← hregistered, Function.update_eq_self]
    have hnone : ∀ id' ∈ some id, ¬(w.sessions id').isSome := by
      intro id' hid' hsome
      obtain rfl := Option.some.inj hid'
      rw [hregistered] at hsome
      exact absurd hsome Bool.false_ne_true
    refine iff_of_true ?_ fun ⟨id', hid', hsome, _⟩ => hnone id' hid' hsome
    rcases query.requestedGeneration rt with _ | generation
    · exact hpopped
    · simp only [hregistered]
      exact hpopped
  rcases hgeneration : query.requestedGeneration rt with _ | generation
  · refine iff_of_false (fun heq => ?_) (not_not.mpr ⟨id, rfl, by rw [hregistered]; rfl, rfl⟩)
    have hlost : w.sessions id = none := by rw [← heq]; exact Function.update_self ..
    rw [hregistered] at hlost
    exact absurd hlost (Option.some_ne_none _)
  · rw [hid, hgeneration] at hrefused
    simp only [hregistered, hkeyed id suspended hregistered] at hrefused ⊢
    split at hrefused
    · exact absurd hrefused (Option.some_ne_none _)
    · next hwrong =>
      refine iff_of_true ?_ fun ⟨_, _, _, hnone⟩ => absurd hnone (Option.some_ne_none _)
      rw [if_neg hwrong]
      dsimp only
      rw [Function.update_idem, ← hregistered, Function.update_eq_self]

/-- A garbled query has popped the session that it names when its generation cannot be read. -/
theorem Garbled.handshake {query : Query} (h : Garbled rt w query) {id : Uuid} (hid : id ∈ query.requested rt) :
    (w.sessions id).isSome ∧
      ∀ accountId, (Registry.handshake rt w accountId query).1 = Function.update w.sessions id none := by
  obtain ⟨named, hnamed, hregistered, hgeneration⟩ := h
  obtain rfl : named = id := Option.mem_unique hnamed hid
  refine ⟨hregistered, fun accountId => ?_⟩
  have hrequested : query.requested rt = some named := hid
  rw [Registry.handshake, hrequested]
  dsimp only
  rw [hgeneration]

theorem connect_refused {accountId : Uuid} {query : Query} (hrefused : (handshake rt w accountId query).2 = none) :
    connect rt w accountId query =
      { w with
        states := Function.update w.states w.nextState (.new accountId)
        nextState := w.nextState + 1
        sessions := (handshake rt w accountId query).1
        handlers := Function.update w.handlers w.nextHandler (.accepting w.nextState false)
        nextHandler := w.nextHandler + 1 } := by
  rw [connect, hrefused]
  rfl

end refused

/-! ### The steps of the coroutines -/

inductive Label where
  | connect (accountId : Uuid) (query : Query)
  /-- The awaited task is over. -/
  | proceed (handler : ℕ)
  /-- `websocket.accept` returns or raises. -/
  | accept (handler : ℕ) (ok : Bool)
  /-- `session.start`: the conversation is created, or its commit raises. -/
  | start (handler : ℕ) (conversationId : Uuid) (commits : Bool)
  /-- `session.resume` with a cursor that is accepted. -/
  | resume (handler : ℕ)
  /-- `session.end` up to the end of the conversation, and from there. -/
  | finish (handler : ℕ)
  | clear (handler : ℕ)
  /-- The loop is left by an exception. -/
  | drop (handler : ℕ)
  /-- `cancel_partial_task` returns or raises. -/
  | suspend (handler : ℕ) (raises : Bool)
  /-- The next step of a task; in the database it may raise. -/
  | run (task : ℕ) (raises : Bool)
  /-- Another request ends a conversation. -/
  | elsewhere (conversationId : Uuid)

section step

variable (w : Server)

/-- A suspension: the state is registered with a new task. -/
def suspendAs (handler session : ℕ) (conversationId : Uuid) : Server :=
  { w with
    states := Function.update w.states session
      { w.states session with paused := true, expirationTask := some w.nextTask }
    sessions := Function.update w.sessions conversationId (some session)
    tasks := Function.update w.tasks w.nextTask ⟨session, .created, false⟩
    nextTask := w.nextTask + 1
    handlers := Function.update w.handlers handler .left
    journal := w.journal ++ [.suspended w.nextTask session] }

/-- The next step of `expire_suspended_session`. -/
def runTask (task : ℕ) (raises : Bool) : Option Server :=
  let t := w.tasks task
  match t.stage with
  | .created => some (w.setTask task { t with stage := if t.cancelled then .done else .sleeping })
  | .sleeping =>
    if t.cancelled then some (w.setTask task { t with stage := .done })
    else
      match (w.states t.session).conversationId with
      | none => some (w.setTask task { t with stage := .done })
      | some id =>
        if w.sessions id = some t.session then
          some ({ w.setTask task { t with stage := .ending id } with
            sessions := Function.update w.sessions id none }.note (.expired task))
        else some (w.setTask task { t with stage := .done })
  | .ending id =>
    if t.cancelled || raises then some (w.setTask task { t with stage := .done })
    else
      some (({ w.setState t.session
          { w.states t.session with conversationId := none, audio := [], vad := (w.states t.session).vad.reset } with
        active := Function.update w.active id false }.setTask task { t with stage := .done }).note (.lost task id))
  | .done => none

/-- What one coroutine does from one await to the next. -/
def step (rt : Runtime) : Label → Option Server
  | .connect accountId query => some (connect rt w accountId query)
  | .proceed handler =>
    match w.handlers handler with
    | .waiting session task =>
      if (w.tasks task).stage = .done then
        some (((w.setState session (takenOver (w.states session))).setHandler handler (.accepting session true)).note
          (.taken task handler))
      else none
    | _ => none
  | .accept handler ok =>
    match w.handlers handler with
    | .accepting session resumed => some (w.setHandler handler (if ok then .reading session resumed else .left))
    | _ => none
  | .start handler id commits =>
    match w.handlers handler with
    | .reading session false =>
      if id ∈ w.started then none
      else if commits then
        some { w.setState session { w.states session with conversationId := some id } with
          started := id :: w.started, active := Function.update w.active id true }
      else
        -- the state has the id from before the commit
        some { (w.setState session { w.states session with conversationId := some id, connected := false }).setHandler
          handler (.closing session) with started := id :: w.started }
    | _ => none
  | .resume handler =>
    match w.handlers handler with
    | .reading session true =>
      if (w.states session).conversationId.isSome then
        some ((w.setState session (resumeTurn (w.states session))).setHandler handler (.reading session false))
      else none
    | _ => none
  | .finish handler =>
    match w.handlers handler with
    | .reading session resumed =>
      match (w.states session).conversationId with
      | none => some (w.setHandler handler (.leaving session resumed))
      | some id =>
        some { w.setHandler handler (.leaving session resumed) with active := Function.update w.active id false }
    | _ => none
  | .clear handler =>
    match w.handlers handler with
    | .leaving session resumed =>
      some ((w.setState session (resetSession (w.states session))).setHandler handler (.reading session resumed))
    | _ => none
  | .drop handler =>
    match w.handlers handler with
    | .reading session _ =>
      some ((w.setState session { w.states session with connected := false }).setHandler handler (.closing session))
    | _ => none
  | .suspend handler raises =>
    match w.handlers handler with
    | .closing session =>
      if raises then some (w.setHandler handler .left)
      else
        match (w.states session).conversationId with
        | none => some (w.setHandler handler .left)
        | some id => some (suspendAs w handler session id)
    | _ => none
  | .run task raises => runTask w task raises
  | .elsewhere id => some { w with active := Function.update w.active id false }

end step

/-- What the next step of a task is. -/
inductive TaskStep (w : Server) (task : ℕ) (raises : Bool) : Server → Prop where
  | cancel (hcancelled : (w.tasks task).cancelled = true) (hrunning : (w.tasks task).stage ≠ .done) :
    TaskStep w task raises (w.setTask task { w.tasks task with stage := .done })
  | sleep (halive : (w.tasks task).cancelled = false) (hstage : (w.tasks task).stage = .created) :
    TaskStep w task raises (w.setTask task { w.tasks task with stage := .sleeping })
  /-- The state is not registered any more. -/
  | miss (halive : (w.tasks task).cancelled = false) (hstage : (w.tasks task).stage = .sleeping)
    (hmissing : ∀ id, (w.states (w.tasks task).session).conversationId = some id →
      w.sessions id ≠ some (w.tasks task).session) :
    TaskStep w task raises (w.setTask task { w.tasks task with stage := .done })
  | expire (halive : (w.tasks task).cancelled = false) (hstage : (w.tasks task).stage = .sleeping) (id : Uuid)
    (hid : (w.states (w.tasks task).session).conversationId = some id)
    (hregistered : w.sessions id = some (w.tasks task).session) :
    TaskStep w task raises ({ w.setTask task { w.tasks task with stage := .ending id } with
      sessions := Function.update w.sessions id none }.note (.expired task))
  | fail (halive : (w.tasks task).cancelled = false) (id : Uuid) (hstage : (w.tasks task).stage = .ending id)
    (hraises : raises = true) : TaskStep w task raises (w.setTask task { w.tasks task with stage := .done })
  | lose (halive : (w.tasks task).cancelled = false) (id : Uuid) (hstage : (w.tasks task).stage = .ending id)
    (hraises : raises = false) : TaskStep w task raises
      (({ w.setState (w.tasks task).session { w.states (w.tasks task).session with
          conversationId := none, audio := [], vad := (w.states (w.tasks task).session).vad.reset } with
        active := Function.update w.active id false }.setTask task { w.tasks task with stage := .done }).note
          (.lost task id))

theorem runTask_step {w w' : Server} {task : ℕ} {raises : Bool} (h : runTask w task raises = some w') :
    TaskStep w task raises w' := by
  unfold runTask at h
  dsimp only at h
  by_cases hcancelled : (w.tasks task).cancelled = true
  · have hdone : (w.tasks task).stage ≠ .done → some (w.setTask task { w.tasks task with stage := .done }) = some w' →
        TaskStep w task raises w' := by
      intro hrunning heq
      obtain rfl := Option.some.inj heq
      exact .cancel hcancelled hrunning
    split at h
    · next hstage =>
      rw [if_pos hcancelled] at h
      exact hdone (by rw [hstage]; simp) h
    · next hstage =>
      rw [if_pos hcancelled] at h
      exact hdone (by rw [hstage]; simp) h
    · next id hstage =>
      rw [if_pos (by rw [hcancelled]; rfl)] at h
      exact hdone (by rw [hstage]; simp) h
    · exact absurd h (by simp)
  · have halive : (w.tasks task).cancelled = false := Bool.not_eq_true _ |>.mp hcancelled
    split at h
    · next hstage =>
      rw [if_neg hcancelled] at h
      obtain rfl := Option.some.inj h
      exact .sleep halive hstage
    · next hstage =>
      rw [if_neg hcancelled] at h
      split at h
      · next hnone =>
        obtain rfl := Option.some.inj h
        exact .miss halive hstage fun id hid => absurd (hnone.symm.trans hid) (by simp)
      · next id hid =>
        split at h
        · next hregistered =>
          obtain rfl := Option.some.inj h
          exact .expire halive hstage id hid hregistered
        · next hmissing =>
          obtain rfl := Option.some.inj h
          refine .miss halive hstage fun id' hid' => ?_
          obtain rfl := Option.some.inj (hid.symm.trans hid')
          exact hmissing
    · next id hstage =>
      rcases raises with _ | _
      · rw [if_neg (by rw [halive]; simp)] at h
        obtain rfl := Option.some.inj h
        exact .lose halive id hstage rfl
      · rw [if_pos (by simp)] at h
        obtain rfl := Option.some.inj h
        exact .fail halive id hstage rfl
    · exact absurd h (by simp)

/-- What a label does. -/
inductive Does (rt : Runtime) (w : Server) : Label → Server → Prop where
  | connect (accountId : Uuid) (query : Query) :
    Does rt w (.connect accountId query) (connect rt w accountId query)
  | proceed {handler session task : ℕ} (hhandler : w.handlers handler = .waiting session task)
    (hdone : (w.tasks task).stage = .done) :
    Does rt w (.proceed handler) (((w.setState session (takenOver (w.states session))).setHandler handler
      (.accepting session true)).note (.taken task handler))
  | accept {handler session : ℕ} {resumed : Bool} (hhandler : w.handlers handler = .accepting session resumed) :
    Does rt w (.accept handler true) (w.setHandler handler (.reading session resumed))
  | refuse {handler session : ℕ} {resumed : Bool} (hhandler : w.handlers handler = .accepting session resumed) :
    Does rt w (.accept handler false) (w.setHandler handler .left)
  | start {handler session : ℕ} {id : Uuid} (hhandler : w.handlers handler = .reading session false)
    (hnew : id ∉ w.started) :
    Does rt w (.start handler id true) { w.setState session { w.states session with conversationId := some id } with
      started := id :: w.started, active := Function.update w.active id true }
  | startFails {handler session : ℕ} {id : Uuid} (hhandler : w.handlers handler = .reading session false)
    (hnew : id ∉ w.started) :
    Does rt w (.start handler id false)
      { (w.setState session
            { w.states session with conversationId := some id, connected := false }).setHandler handler
          (.closing session) with
        started := id :: w.started }
  | resume {handler session : ℕ} (hhandler : w.handlers handler = .reading session true) :
    Does rt w (.resume handler) ((w.setState session (resumeTurn (w.states session))).setHandler handler
      (.reading session false))
  | finishNone {handler session : ℕ} {resumed : Bool} (hhandler : w.handlers handler = .reading session resumed)
    (hnone : (w.states session).conversationId = none) :
    Does rt w (.finish handler) (w.setHandler handler (.leaving session resumed))
  | finish {handler session : ℕ} {resumed : Bool} {id : Uuid}
      (hhandler : w.handlers handler = .reading session resumed)
    (hid : (w.states session).conversationId = some id) :
    Does rt w (.finish handler)
      { w.setHandler handler (.leaving session resumed) with active := Function.update w.active id false }
  | clear {handler session : ℕ} {resumed : Bool} (hhandler : w.handlers handler = .leaving session resumed) :
    Does rt w (.clear handler) ((w.setState session (resetSession (w.states session))).setHandler handler
      (.reading session resumed))
  | drop {handler session : ℕ} {resumed : Bool} (hhandler : w.handlers handler = .reading session resumed) :
    Does rt w (.drop handler) ((w.setState session { w.states session with connected := false }).setHandler handler
      (.closing session))
  | close {handler session : ℕ} {raises : Bool} (hhandler : w.handlers handler = .closing session)
    (hnone : raises = true ∨ (w.states session).conversationId = none) :
    Does rt w (.suspend handler raises) (w.setHandler handler .left)
  | suspend {handler session : ℕ} {id : Uuid} (hhandler : w.handlers handler = .closing session)
    (hid : (w.states session).conversationId = some id) :
    Does rt w (.suspend handler false) (suspendAs w handler session id)
  | run {task : ℕ} {raises : Bool} {w' : Server} (htask : TaskStep w task raises w') :
    Does rt w (.run task raises) w'
  | elsewhere (id : Uuid) : Does rt w (.elsewhere id) { w with active := Function.update w.active id false }

theorem step_does {rt : Runtime} {w w' : Server} {label : Label}
    (h : step w rt label = some w') : Does rt w label w' := by
  cases label with
  | connect accountId query =>
      obtain rfl := Option.some.inj h
      exact .connect accountId query
  | proceed handler =>
      simp only [step] at h
      split at h
      · next hhandler =>
        split at h
        · next hdone =>
          obtain rfl := Option.some.inj h
          exact .proceed hhandler hdone
        · exact absurd h (by simp)
      · exact absurd h (by simp)
  | accept handler ok =>
      simp only [step] at h
      split at h
      · next hhandler =>
        obtain rfl := Option.some.inj h
        cases ok with
        | true => exact .accept hhandler
        | false => exact .refuse hhandler
      · exact absurd h (by simp)
  | start handler id commits =>
      simp only [step] at h
      split at h
      · next hhandler =>
        split at h
        · exact absurd h (by simp)
        · next hnew =>
          cases commits with
          | true =>
              obtain rfl := Option.some.inj h
              exact .start hhandler hnew
          | false =>
              obtain rfl := Option.some.inj h
              exact .startFails hhandler hnew
      · exact absurd h (by simp)
  | resume handler =>
      simp only [step] at h
      split at h
      · next hhandler =>
        split at h
        · obtain rfl := Option.some.inj h
          exact .resume hhandler
        · exact absurd h (by simp)
      · exact absurd h (by simp)
  | finish handler =>
      simp only [step] at h
      split at h
      · next hhandler =>
        split at h
        · next hnone =>
          obtain rfl := Option.some.inj h
          exact .finishNone hhandler hnone
        · next hid =>
          obtain rfl := Option.some.inj h
          exact .finish hhandler hid
      · exact absurd h (by simp)
  | clear handler =>
      simp only [step] at h
      split at h
      · next hhandler =>
        obtain rfl := Option.some.inj h
        exact .clear hhandler
      · exact absurd h (by simp)
  | drop handler =>
      simp only [step] at h
      split at h
      · next hhandler =>
        obtain rfl := Option.some.inj h
        exact .drop hhandler
      · exact absurd h (by simp)
  | suspend handler raises =>
      simp only [step] at h
      split at h
      · next hhandler =>
        cases raises with
        | true =>
            obtain rfl := Option.some.inj h
            exact .close hhandler (.inl rfl)
        | false =>
            rw [if_neg Bool.false_ne_true] at h
            split at h
            · next hnone =>
              obtain rfl := Option.some.inj h
              exact .close hhandler (.inr hnone)
            · next hid =>
              obtain rfl := Option.some.inj h
              exact .suspend hhandler hid
      · exact absurd h (by simp)
  | run task raises => exact .run (runTask_step h)
  | elsewhere id =>
      obtain rfl := Option.some.inj h
      exact .elsewhere id

/-- The servers that are reached from the start. -/
def Reached (rt : Runtime) (w : Server) : Prop :=
  ∃ labels, Runs.run (fun w => step w rt) {} labels = some w

/-! ### Who holds a state -/

/-- A handler, the registry under a conversation, or a task that ends it. -/
inductive Custodian where
  | handler (handler : ℕ)
  | registry (id : Uuid)
  | task (task : ℕ)

def Holds (w : Server) : Custodian → ℕ → Prop
  | .handler handler, session => (w.handlers handler).session? = some session
  | .registry id, session => w.sessions id = some session
  | .task task, session => (w.tasks task).session = session ∧ ∃ id, (w.tasks task).stage = .ending id

/-- What holds of every server that is reached. -/
structure Valid (w : Server) : Prop where
  single : Custody.Single (Holds w)
  below : ∀ k session, Holds w k session → session < w.nextState
  keyed : Keyed w
  ending : ∀ task id, (w.tasks task).stage = .ending id →
    (w.states (w.tasks task).session).conversationId = some id
  known : ∀ session id, (w.states session).conversationId = some id → id ∈ w.started
  distinct : ∀ session session' id, (w.states session).conversationId = some id →
    (w.states session').conversationId = some id → session = session'

theorem holds_initial (k : Custodian) (session : ℕ) : ¬Holds {} k session := by
  rcases k with handler | id | task
  · exact fun h : (none : Option ℕ) = some session => absurd h (by simp)
  · exact fun h : (none : Option ℕ) = some session => absurd h (by simp)
  · exact fun ⟨_, id, h⟩ => absurd (h : Stage.done = .ending id) (by simp)

theorem valid_initial : Valid {} := by
  have hnone : ∀ id session, (({} : Server).states session).conversationId ≠ some id := by
    intro id session h
    have hnew : (none : Option Uuid) = some id := h
    exact absurd hnew (by simp)
  exact
    { single := fun k _ session h => absurd h (holds_initial k session)
      below := fun k session h => absurd h (holds_initial k session)
      keyed := fun id session h => absurd h (holds_initial (.registry id) session)
      ending := fun task id h => absurd ⟨rfl, id, h⟩ (holds_initial (.task task) _)
      known := fun session id h => absurd h (hnone id session)
      distinct := fun session _ id h => absurd h (hnone id session) }

section valid

variable {w w' : Server}

/-- Nothing is handed over, and no conversation changes but in states that only a handler has: there it is new. -/
theorem Valid.keep (hv : Valid w) (hholds : ∀ k session, Holds w' k session → Holds w k session)
    (hnext : w.nextState ≤ w'.nextState)
    (htasks : ∀ task id, (w'.tasks task).stage = .ending id →
      (w.tasks task).stage = .ending id ∧ (w'.tasks task).session = (w.tasks task).session)
    (hstarted : ∀ id ∈ w.started, id ∈ w'.started)
    (hstates : ∀ session, (w'.states session).conversationId = (w.states session).conversationId ∨
      (∀ id, ¬Holds w' (.registry id) session) ∧ (∀ task, ¬Holds w' (.task task) session) ∧
        ∀ id, (w'.states session).conversationId = some id → id ∈ w'.started ∧
          ∀ other, (w'.states other).conversationId = some id → other = session) : Valid w' := by
  refine ⟨hv.single.sub hholds, fun k session h =>
    (hv.below k session (hholds k session h)).trans_le hnext, ?_, ?_, ?_,
    ?_⟩
  · intro id session h
    rcases hstates session with hsame | ⟨hnot, -⟩
    · rw [hsame]
      exact hv.keyed id session (hholds (.registry id) session h)
    · exact absurd h (hnot id)
  · intro task id h
    obtain ⟨hstage, hsession⟩ := htasks task id h
    rcases hstates (w'.tasks task).session with hsame | ⟨-, hnot, -⟩
    · rw [hsame, hsession]
      exact hv.ending task id hstage
    · exact absurd ⟨rfl, id, h⟩ (hnot task)
  · intro session id h
    rcases hstates session with hsame | ⟨-, -, hnew⟩
    · exact hstarted id (hv.known session id (hsame ▸ h))
    · exact (hnew id h).1
  · intro session session' id h h'
    rcases hstates session with hsame | ⟨-, -, hnew⟩
    · rcases hstates session' with hsame' | ⟨-, -, hnew'⟩
      · exact hv.distinct session session' id (hsame ▸ h) (hsame' ▸ h')
      · exact (hnew' id h').2 session h
    · exact ((hnew id h).2 session' h').symm

/-- A handler goes on with the state that it has, or leaves it. -/
theorem holds_setHandler {handler : ℕ} {a : Handler}
    (ha : ∀ s, a.session? = some s → (w.handlers handler).session? = some s)
    {k : Custodian} {session : ℕ} (h : Holds (w.setHandler handler a) k session) : Holds w k session := by
  rcases k with other | id | task
  · by_cases hother : other = handler
    · subst hother
      refine ha session ?_
      have hself : (w.setHandler other a).handlers other = a := Function.update_self ..
      rwa [Holds, hself] at h
    · have hne : (w.setHandler handler a).handlers other = w.handlers other := Function.update_of_ne hother ..
      rwa [Holds, hne] at h
  · exact h
  · exact h

theorem Valid.setHandler (hv : Valid w) {handler : ℕ} {a : Handler}
    (ha : ∀ s, a.session? = some s → (w.handlers handler).session? = some s) : Valid (w.setHandler handler a) :=
  hv.keep (fun _ _ => holds_setHandler ha) (Nat.le_refl _) (fun _ _ h => ⟨h, rfl⟩) (fun _ h => h) fun _ => .inl rfl

/-- A state that is changed without its conversation. -/
theorem Valid.setState (hv : Valid w) {session : ℕ} {s : ConnectionState}
    (hs : s.conversationId = (w.states session).conversationId) : Valid (w.setState session s) := by
  refine hv.keep (fun k other h => ?_) (Nat.le_refl _) (fun _ _ h => ⟨h, rfl⟩) (fun _ h => h) fun other => .inl ?_
  · cases k with
    | handler _ => exact h
    | registry _ => exact h
    | task _ => exact h
  · by_cases hother : other = session
    · subst hother
      have hself : (w.setState other s).states other = s := Function.update_self ..
      rw [hself, hs]
    · have hne : (w.setState session s).states other = w.states other := Function.update_of_ne hother ..
      rw [hne]

theorem Valid.note (hv : Valid w) (e : Event) : Valid (w.note e) := by
  refine hv.keep (fun k other h => ?_) (Nat.le_refl _) (fun _ _ h => ⟨h, rfl⟩) (fun _ h => h) fun _ => .inl rfl
  cases k with
  | handler _ => exact h
  | registry _ => exact h
  | task _ => exact h

/-- A state of a handler is neither registered nor the one of a task. -/
theorem Valid.not_registered (hv : Valid w) {handler session : ℕ} (h : (w.handlers handler).session? = some session) :
    (∀ id, ¬Holds w (.registry id) session) ∧ ∀ task, ¬Holds w (.task task) session := by
  have hhandler : Holds w (.handler handler) session := h
  exact ⟨fun id hid => Custodian.noConfusion (hv.single _ _ _ hhandler hid),
    fun task htask => Custodian.noConfusion (hv.single _ _ _ hhandler htask)⟩

/-- A state of a handler gets another conversation, which is none or new. -/
theorem Valid.rename (hv : Valid w) {handler session : ℕ} (h : (w.handlers handler).session? = some session)
    {s : ConnectionState} {started : List Uuid} (hstarted : ∀ id ∈ w.started, id ∈ started)
    (hnew : ∀ id, s.conversationId = some id → id ∉ w.started ∧ id ∈ started) :
    Valid { w.setState session s with started := started } := by
  have hself : (w.setState session s).states session = s := Function.update_self ..
  have hne : ∀ other, other ≠ session → (w.setState session s).states other = w.states other :=
    fun other hother => Function.update_of_ne hother ..
  refine hv.keep (fun k other h => ?_) (Nat.le_refl _) (fun _ _ h => ⟨h, rfl⟩) hstarted fun other => ?_
  · cases k with
    | handler _ => exact h
    | registry _ => exact h
    | task _ => exact h
  · by_cases hother : other = session
    · subst hother
      obtain ⟨hregistry, htask⟩ := hv.not_registered h
      refine .inr ⟨hregistry, htask, fun id hid => ?_⟩
      change ((w.setState other s).states other).conversationId = some id at hid
      rw [hself] at hid
      refine ⟨(hnew id hid).2, fun third hthird => ?_⟩
      by_contra hdiff
      change ((w.setState other s).states third).conversationId = some id at hthird
      rw [hne third hdiff] at hthird
      exact (hnew id hid).1 (hv.known third id hthird)
    · refine .inl ?_
      change ((w.setState session s).states other).conversationId = _
      rw [hne other hother]

/-! ### The registry over runs -/

variable {rt : Runtime}

/-- What a handshake leaves in the registry was there. -/
theorem handshake_sub (hkeyed : Keyed w) {accountId : Uuid} {query : Query} {id : Uuid} {session : ℕ}
    (h : (handshake rt w accountId query).1 id = some session) : w.sessions id = some session := by
  have hpopped : ∀ requested, Function.update w.sessions requested none id = some session →
      w.sessions id = some session := by
    intro requested hpop
    by_cases hid : id = requested
    · rw [hid, Function.update_self] at hpop
      exact absurd hpop (by simp)
    · rwa [Function.update_of_ne hid] at hpop
  unfold handshake at h
  split at h
  · exact h
  · next requested _ =>
    dsimp only at h
    split at h
    · exact hpopped requested h
    · split at h
      · exact hpopped requested h
      · next suspended hsuspended =>
        split at h
        · exact hpopped requested h
        · rw [hkeyed requested suspended hsuspended] at h
          dsimp only at h
          by_cases hid : id = requested
          · rw [hid, Function.update_self] at h
            rw [hid, hsuspended, h]
          · rw [Function.update_of_ne hid] at h
            exact hpopped requested h

/-- A handshake takes a session out of the registry. -/
theorem handshake_taken {accountId : Uuid} {query : Query} {session : ℕ}
    (h : (handshake rt w accountId query).2 = some session) : ∃ id ∈ query.requested rt,
      w.sessions id = some session ∧ (handshake rt w accountId query).1 = Function.update w.sessions id none := by
  unfold handshake at h ⊢
  split at h
  · exact absurd h (by simp)
  · next requested hrequested =>
    rw [hrequested]
    refine ⟨requested, rfl, ?_⟩
    dsimp only at h ⊢
    split at h
    · exact absurd h (by simp)
    · split at h
      · exact absurd h (by simp)
      · next suspended hsuspended =>
        split at h
        · next hgranted =>
          obtain rfl := Option.some.inj h
          simp only [hsuspended]
          rw [if_pos hgranted]
          exact ⟨trivial, rfl⟩
        · split at h
          · exact absurd h (by simp)
          · exact absurd h (by simp)

/-- What is held after a handler has got a state. -/
theorem holds_given {k : Custodian} {handler session other : ℕ} {a : Handler} (ha : a.session? = some session)
    (h : Holds (w.setHandler handler a) k other) :
    k = .handler handler ∧ other = session ∨ (∀ n, k = .handler n → n ≠ handler) ∧ Holds w k other := by
  rcases k with n | id | task
  · by_cases hn : n = handler
    · subst hn
      have hself : (w.setHandler n a).handlers n = a := Function.update_self ..
      rw [Holds, hself, ha] at h
      exact .inl ⟨rfl, (Option.some.inj h).symm⟩
    · have hne : (w.setHandler handler a).handlers n = w.handlers n := Function.update_of_ne hn ..
      rw [Holds, hne] at h
      exact .inr ⟨fun m hm => by rwa [← Custodian.handler.inj hm], h⟩
  · exact .inr ⟨fun _ hk => Custodian.noConfusion hk, h⟩
  · exact .inr ⟨fun _ hk => Custodian.noConfusion hk, h⟩

/-- **A state is handed over**, and no conversation changes, except that the one of a new state is none. -/
theorem Valid.hand (hv : Valid w) (custodian : Custodian) (thing : ℕ)
    (hstep : ∀ k session, Holds w' k session → k = custodian ∧ session = thing ∨ Holds w k session ∧ session ≠ thing)
    (hthing : thing < w'.nextState) (hnext : w.nextState ≤ w'.nextState)
    (hregistry : ∀ id, custodian = .registry id → (w'.states thing).conversationId = some id)
    (htask : ∀ task id, custodian = .task task → (w'.tasks task).stage = .ending id →
      (w'.tasks task).session = thing ∧ (w'.states thing).conversationId = some id)
    (htasks : ∀ task id, custodian ≠ .task task → (w'.tasks task).stage = .ending id →
      (w.tasks task).stage = .ending id ∧ (w'.tasks task).session = (w.tasks task).session)
    (hstates : ∀ session, (w'.states session).conversationId = (w.states session).conversationId ∨
      (w'.states session).conversationId = none) (hstarted : w'.started = w.started)
    (hsame : ∀ session, session ≠ thing → (w'.states session).conversationId = (w.states session).conversationId) :
    Valid w' := by
  have hconv : ∀ session id, (w'.states session).conversationId = some id →
      (w.states session).conversationId = some id := by
    intro session id h
    rcases hstates session with hold | hnone
    · rwa [hold] at h
    · rw [hnone] at h
      exact absurd h (by simp)
  refine ⟨hv.single.hand hstep, ?_, ?_, ?_, ?_, ?_⟩
  · intro k session h
    rcases hstep k session h with ⟨-, rfl⟩ | ⟨hold, -⟩
    · exact hthing
    · exact (hv.below k session hold).trans_le hnext
  · intro id session h
    rcases hstep (.registry id) session h with ⟨hk, rfl⟩ | ⟨hold, hne⟩
    · exact hregistry id hk.symm
    · rw [hsame session hne]
      exact hv.keyed id session hold
  · intro task id h
    by_cases hk : custodian = .task task
    · obtain ⟨hsession, hid⟩ := htask task id hk h
      rwa [hsession]
    · obtain ⟨hstage, hsession⟩ := htasks task id hk h
      rcases hstep (.task task) (w'.tasks task).session ⟨rfl, id, h⟩ with ⟨heq, -⟩ | ⟨-, hne⟩
      · exact absurd heq.symm hk
      · rw [hsame _ hne, hsession]
        exact hv.ending task id hstage
  · intro session id h
    rw [hstarted]
    exact hv.known session id (hconv session id h)
  · intro session session' id h h'
    exact hv.distinct session session' id (hconv session id h) (hconv session' id h')

/-- A connection with a state of its own. -/
theorem Valid.connect_refused (hv : Valid w) {accountId : Uuid} {query : Query}
    (hrefused : (handshake rt w accountId query).2 = none) : Valid (connect rt w accountId query) := by
  rw [Registry.connect_refused hrefused]
  have hnew : (Function.update w.states w.nextState (.new accountId) w.nextState).conversationId = none := by
    rw [Function.update_self]
    rfl
  have hstate : ∀ session, session ≠ w.nextState →
      Function.update w.states w.nextState (.new accountId) session = w.states session :=
    fun session hne => Function.update_of_ne hne ..
  refine hv.hand (.handler w.nextHandler) w.nextState (fun k session h => ?_)
    (Nat.lt_succ_self _) (Nat.le_succ _) (fun _ hk => Custodian.noConfusion hk)
    (fun _ _ hk => Custodian.noConfusion hk) (fun _ _ _ h => ⟨h, rfl⟩) (fun session => ?_) rfl
    fun session hne => congrArg ConnectionState.conversationId (hstate session hne)
  · have hheld : Holds (w.setHandler w.nextHandler (.accepting w.nextState false)) k session := by
      cases k with
      | handler _ => exact h
      | registry _ => exact handshake_sub hv.keyed h
      | task _ => exact h
    refine (holds_given rfl hheld).imp id fun ⟨_, hold⟩ => ⟨hold, Nat.ne_of_lt (hv.below k session hold)⟩
  · by_cases hsame : session = w.nextState
    · exact .inr (hsame ▸ hnew)
    · exact .inl (congrArg ConnectionState.conversationId (hstate session hsame))

/-- Who holds what after a session has been taken out of the registry for a handler. -/
theorem holds_popped (hv : Valid w) {handler suspended : ℕ} {a : Handler} (ha : a.session? = some suspended)
    {id : Uuid}
    (hid : w.sessions id = some suspended) {k : Custodian} {session : ℕ}
    (h : Holds (({ w with sessions := Function.update w.sessions id none } : Server).setHandler handler a)
      k session) :
    k = .handler handler ∧ session = suspended ∨ Holds w k session ∧ session ≠ suspended := by
  have hregistered : Holds w (.registry id) suspended := hid
  refine (holds_given ha h).imp_right fun ⟨_, hpopped⟩ => ?_
  rcases k with n | id' | task
  · refine ⟨hpopped, fun heq => ?_⟩
    exact Custodian.noConfusion (hv.single _ _ _ (heq ▸ hpopped : Holds w (.handler n) suspended) hregistered)
  · have hne : id' ≠ id := by
      rintro rfl
      have hnone : Function.update w.sessions id' none id' = some session := hpopped
      rw [Function.update_self] at hnone
      exact absurd hnone (by simp)
    have hold : w.sessions id' = some session := by
      have hpop : Function.update w.sessions id none id' = some session := hpopped
      rwa [Function.update_of_ne hne] at hpop
    refine ⟨hold, fun heq => hne ?_⟩
    exact Custodian.registry.inj (hv.single _ _ _ (heq ▸ hold : Holds w (.registry id') suspended) hregistered)
  · refine ⟨hpopped, fun heq => ?_⟩
    exact Custodian.noConfusion (hv.single _ _ _ (heq ▸ hpopped : Holds w (.task task) suspended) hregistered)

/-- A connection that takes over a suspended session. -/
theorem Valid.connect_granted (hv : Valid w) {accountId : Uuid} {query : Query} {suspended : ℕ}
    (hgranted : (handshake rt w accountId query).2 = some suspended) : Valid (connect rt w accountId query) := by
  obtain ⟨id, -, hid, hsessions⟩ := handshake_taken hgranted
  have hbelow : suspended < w.nextState := hv.below (.registry id) suspended hid
  have hstate : ∀ session, (Function.update w.states suspended
      (takenOver (w.states suspended)) session).conversationId =
      (w.states session).conversationId := by
    intro session
    by_cases hsame : session = suspended
    · rw [hsame, Function.update_self]
      rfl
    · rw [Function.update_of_ne hsame]
  rw [connect, hgranted]
  dsimp only
  rcases (w.states suspended).expirationTask with _ | task
  · refine hv.hand (.handler w.nextHandler) suspended (fun k session h => ?_) hbelow (Nat.le_refl _)
      (fun _ hk => Custodian.noConfusion hk) (fun _ _ hk => Custodian.noConfusion hk) (fun _ _ _ h => ⟨h, rfl⟩)
      (fun session => .inl (hstate session)) rfl fun session _ => hstate session
    have hheld : Holds (({ w with sessions := Function.update w.sessions id none } : Server).setHandler w.nextHandler
        (.accepting suspended true)) k session := by
      rw [← hsessions]
      cases k with
      | handler _ => exact h
      | registry _ => exact h
      | task _ => exact h
    exact holds_popped hv rfl hid hheld
  · have htasks : ∀ t, (Function.update w.tasks task { w.tasks task with cancelled := true } t).stage =
        (w.tasks t).stage ∧
        (Function.update w.tasks task { w.tasks task with cancelled := true } t).session = (w.tasks t).session := by
      intro t
      by_cases ht : t = task
      · rw [ht, Function.update_self]
        exact ⟨rfl, rfl⟩
      · rw [Function.update_of_ne ht]
        exact ⟨rfl, rfl⟩
    refine hv.hand (.handler w.nextHandler) suspended (fun k session h => ?_) hbelow (Nat.le_refl _)
      (fun _ hk => Custodian.noConfusion hk) (fun _ _ hk => Custodian.noConfusion hk)
      (fun t id' _ h => ⟨(htasks t).1 ▸ h, (htasks t).2⟩) (fun _ => .inl rfl) rfl fun _ _ => rfl
    have hheld : Holds (({ w with sessions := Function.update w.sessions id none } : Server).setHandler w.nextHandler
        (.waiting suspended task)) k session := by
      rw [← hsessions]
      cases k with
      | handler _ => exact h
      | registry _ => exact h
      | task t =>
          obtain ⟨hsession, id', hstage⟩ := h
          exact ⟨(htasks t).2 ▸ hsession, id', (htasks t).1 ▸ hstage⟩
    exact holds_popped hv rfl hid hheld

theorem Valid.connect (hv : Valid w) (accountId : Uuid) (query : Query) : Valid (connect rt w accountId query) := by
  rcases h : (handshake rt w accountId query).2 with _ | suspended
  · exact hv.connect_refused h
  · exact hv.connect_granted h

/-- A handler leaves its state in the registry. -/
theorem Valid.suspendAs (hv : Valid w) {handler session : ℕ} (h : (w.handlers handler).session? = some session)
    {id : Uuid} (hid : (w.states session).conversationId = some id) : Valid (suspendAs w handler session id) := by
  have hheld : Holds w (.handler handler) session := h
  have hstate : ∀ other, (Function.update w.states session
      { w.states session with paused := true, expirationTask := some w.nextTask } other).conversationId =
        (w.states other).conversationId := by
    intro other
    by_cases hother : other = session
    · rw [hother, Function.update_self]
    · rw [Function.update_of_ne hother]
  have htasks : ∀ t id', (Function.update w.tasks w.nextTask ⟨session, .created, false⟩ t).stage = .ending id' →
      (w.tasks t).stage = .ending id' ∧
        (Function.update w.tasks w.nextTask ⟨session, .created, false⟩ t).session = (w.tasks t).session := by
    intro t id' hstage
    by_cases ht : t = w.nextTask
    · rw [ht, Function.update_self] at hstage
      exact absurd hstage (by simp)
    · rw [Function.update_of_ne ht] at hstage ⊢
      exact ⟨hstage, rfl⟩
  refine hv.hand (.registry id) session (fun k other hk => ?_) (hv.below _ _ hheld) (Nat.le_refl _) ?_
    (fun _ _ hk => Custodian.noConfusion hk) (fun t id' _ => htasks t id') (fun other => .inl (hstate other)) rfl
    fun other _ => hstate other
  · rcases k with n | id' | t
    · have hne : n ≠ handler := by
        rintro rfl
        have hleft : (Function.update w.handlers n .left n).session? = some other := hk
        rw [Function.update_self] at hleft
        exact absurd hleft (by simp [Handler.session?])
      have hold : (w.handlers n).session? = some other := by
        have hupdate : (Function.update w.handlers handler .left n).session? = some other := hk
        rwa [Function.update_of_ne hne] at hupdate
      refine .inr ⟨hold, fun heq => hne ?_⟩
      exact Custodian.handler.inj (hv.single _ _ _ (heq ▸ hold : Holds w (.handler n) session) hheld)
    · by_cases hsame : id' = id
      · have hupdate : Function.update w.sessions id (some session) id' = some other := hk
        rw [hsame, Function.update_self] at hupdate
        exact .inl ⟨by rw [hsame], (Option.some.inj hupdate).symm⟩
      · have hold : w.sessions id' = some other := by
          have hupdate : Function.update w.sessions id (some session) id' = some other := hk
          rwa [Function.update_of_ne hsame] at hupdate
        refine .inr ⟨hold, fun heq => (hv.not_registered h).1 id' ?_⟩
        rw [← heq]
        exact hold
    · obtain ⟨hsession, id', hstage⟩ := hk
      obtain ⟨hold, hsame⟩ := htasks t id' hstage
      refine .inr ⟨⟨hsame ▸ hsession, id', hold⟩, fun heq => (hv.not_registered h).2 t ?_⟩
      rw [← heq]
      exact ⟨hsame ▸ hsession, id', hold⟩
  · intro id' hk
    obtain rfl := Custodian.registry.inj hk
    exact (hstate session).trans hid

/-- A task that goes on without a state that it holds. -/
theorem Valid.setTask (hv : Valid w) {task : ℕ} {stage : Stage} (hstage : ∀ id, stage ≠ .ending id) :
    Valid (w.setTask task { w.tasks task with stage := stage }) := by
  have htasks : ∀ t id, ((w.setTask task { w.tasks task with stage := stage }).tasks t).stage = .ending id →
      (w.tasks t).stage = .ending id ∧
        ((w.setTask task { w.tasks task with stage := stage }).tasks t).session = (w.tasks t).session := by
    intro t id h
    by_cases ht : t = task
    · have hself : (w.setTask task { w.tasks task with stage := stage }).tasks t =
          { w.tasks task with stage := stage } := by
        rw [ht]
        exact Function.update_self ..
      rw [hself] at h
      exact absurd h (hstage id)
    · have hne : (w.setTask task { w.tasks task with stage := stage }).tasks t = w.tasks t :=
          Function.update_of_ne ht ..
      rw [hne] at h ⊢
      exact ⟨h, rfl⟩
  refine hv.keep (fun k session h => ?_) (Nat.le_refl _) htasks (fun _ h => h) fun _ => .inl rfl
  rcases k with n | id | t
  · exact h
  · exact h
  · obtain ⟨hsession, id, hending⟩ := h
    obtain ⟨hold, hsame⟩ := htasks t id hending
    exact ⟨hsame ▸ hsession, id, hold⟩

/-- A task takes the state that it ends out of the registry. -/
theorem Valid.expire (hv : Valid w) {task : ℕ} {id : Uuid}
    (hregistered : w.sessions id = some (w.tasks task).session) :
    Valid { w.setTask task { w.tasks task with stage := .ending id } with
      sessions := Function.update w.sessions id none } := by
  have hheld : Holds w (.registry id) (w.tasks task).session := hregistered
  have hself : Function.update w.tasks task { w.tasks task with stage := .ending id } task =
      { w.tasks task with stage := .ending id } := Function.update_self ..
  have hother : ∀ t, t ≠ task → Function.update w.tasks task { w.tasks task with stage := .ending id } t =
      w.tasks t :=
    fun t ht => Function.update_of_ne ht ..
  have hfree : ∀ k, k ≠ .registry id → ∀ session, Holds w k session → session ≠ (w.tasks task).session :=
    fun k hk session h heq => hk (hv.single _ _ _ (heq ▸ h) hheld)
  refine hv.hand (.task task) (w.tasks task).session (fun k session h => ?_) (hv.below _ _ hheld) (Nat.le_refl _)
    (fun _ hk => Custodian.noConfusion hk) (fun t id' hk hstage => ?_) (fun t id' hk hstage => ?_)
    (fun _ => .inl rfl) rfl
    fun _ _ => rfl
  · rcases k with n | id' | t
    · exact .inr ⟨h, hfree (.handler n) (fun hk => Custodian.noConfusion hk) session h⟩
    · have hupdate : Function.update w.sessions id none id' = some session := h
      have hne : id' ≠ id := by
        rintro rfl
        rw [Function.update_self] at hupdate
        exact absurd hupdate (by simp)
      rw [Function.update_of_ne hne] at hupdate
      exact .inr ⟨hupdate, hfree (.registry id') (fun hk => hne (Custodian.registry.inj hk)) session hupdate⟩
    · obtain ⟨hsession, hstage⟩ := h
      change (Function.update w.tasks task { w.tasks task with stage := .ending id } t).session = session at hsession
      change ∃ id', (Function.update w.tasks task { w.tasks task with stage := .ending id } t).stage =
          .ending id' at hstage
      by_cases ht : t = task
      · rw [ht, hself] at hsession
        exact .inl ⟨by rw [ht], hsession.symm⟩
      · rw [hother t ht] at hsession hstage
        exact .inr ⟨⟨hsession, hstage⟩, hfree (.task t)
          (fun hk => Custodian.noConfusion hk) session ⟨hsession, hstage⟩⟩
  · obtain rfl := Custodian.task.inj hk
    change (Function.update w.tasks task { w.tasks task with stage := .ending id } task).stage = .ending id' at hstage
    change (Function.update w.tasks task { w.tasks task with stage := .ending id } task).session = _ ∧ _
    rw [hself] at hstage ⊢
    obtain rfl := Stage.ending.inj hstage
    exact ⟨rfl, hv.keyed id _ hregistered⟩
  · have ht : t ≠ task := fun heq => hk (by rw [heq])
    change (Function.update w.tasks task { w.tasks task with stage := .ending id } t).stage = .ending id' at hstage
    change _ ∧ (Function.update w.tasks task { w.tasks task with stage := .ending id } t).session = _
    rw [hother t ht] at hstage ⊢
    exact ⟨hstage, rfl⟩

/-- A task lets the state go whose conversation it has ended. -/
theorem Valid.lose (hv : Valid w) {task : ℕ} {id : Uuid} (hstage : (w.tasks task).stage = .ending id)
    {s : ConnectionState} (hs : s.conversationId = none) :
    Valid ((w.setState (w.tasks task).session s).setTask task { w.tasks task with stage := .done }) := by
  have hheld : Holds w (.task task) (w.tasks task).session := ⟨rfl, id, hstage⟩
  have htasks : ∀ t id', (Function.update w.tasks task { w.tasks task with stage := .done } t).stage = .ending id' →
      t ≠ task ∧ (w.tasks t).stage = .ending id' ∧
        (Function.update w.tasks task { w.tasks task with stage := .done } t).session = (w.tasks t).session := by
    intro t id' h
    by_cases ht : t = task
    · rw [ht, Function.update_self] at h
      exact absurd h (by simp)
    · rw [Function.update_of_ne ht] at h ⊢
      exact ⟨ht, h, rfl⟩
  refine hv.keep (fun k session h => ?_) (Nat.le_refl _) (fun t id' h => (htasks t id' h).2)
    (fun _ h => h) fun session => ?_
  · rcases k with n | id' | t
    · exact h
    · exact h
    · obtain ⟨hsession, id', hending⟩ := h
      obtain ⟨-, hold, hsame⟩ := htasks t id' hending
      exact ⟨hsame ▸ hsession, id', hold⟩
  · by_cases hsession : session = (w.tasks task).session
    · refine .inr ⟨fun id' h => ?_, fun t h => ?_, fun id' h => ?_⟩
      · exact Custodian.noConfusion (hv.single (.registry id') _ _ (hsession ▸ h) hheld)
      · obtain ⟨hsession', id', hending⟩ := h
        obtain ⟨ht, hold, hsame⟩ := htasks t id' hending
        have hother : Holds w (.task t) (w.tasks task).session := ⟨hsession ▸ hsame ▸ hsession', id', hold⟩
        exact ht (Custodian.task.inj (hv.single _ _ _ hother hheld))
      · have hself : (Function.update w.states (w.tasks task).session s session).conversationId = some id' := h
        rw [hsession, Function.update_self, hs] at hself
        exact absurd hself (by simp)
    · refine .inl ?_
      change (Function.update w.states (w.tasks task).session s session).conversationId = _
      rw [Function.update_of_ne hsession]

theorem Valid.taskStep (hv : Valid w) {task : ℕ} {raises : Bool} (h : TaskStep w task raises w') : Valid w' := by
  cases h with
  | cancel => exact hv.setTask (by simp)
  | sleep => exact hv.setTask (by simp)
  | miss => exact hv.setTask (by simp)
  | expire _ _ id _ hregistered => exact (hv.expire hregistered).note _
  | fail => exact hv.setTask (by simp)
  | lose _ id hstage =>
      refine Valid.note ?_ _
      have hlose := hv.lose hstage (s := { w.states (w.tasks task).session with
          conversationId := none, audio := [], vad := (w.states (w.tasks task).session).vad.reset }) rfl
      exact ⟨hlose.single, hlose.below, hlose.keyed, hlose.ending, hlose.known, hlose.distinct⟩

/-- **Step lemma**: what holds of every server is kept. -/
theorem valid_step {label : Label} (hv : Valid w) (h : step w rt label = some w') : Valid w' := by
  cases step_does h with
  | connect accountId query => exact hv.connect accountId query
  | @proceed handler session task hhandler =>
      refine ((hv.setState ?_).setHandler fun s hs => ?_).note _
      · rfl
      · change (w.handlers handler).session? = some s
        rw [hhandler]
        exact hs
  | accept hhandler =>
      refine hv.setHandler fun s hs => ?_
      rw [hhandler]
      exact hs
  | refuse => exact hv.setHandler fun s hs => absurd hs (by simp [Handler.session?])
  | @start handler session id hhandler hnew =>
      have hrename : Valid { w.setState session { w.states session with conversationId := some id } with
          started := id :: w.started } :=
        hv.rename (by rw [hhandler]; rfl) (fun _ hid => List.mem_cons_of_mem _ hid) fun id' hid' => by
          obtain rfl := Option.some.inj hid'
          exact ⟨hnew, List.mem_cons_self⟩
      exact ⟨hrename.single, hrename.below, hrename.keyed, hrename.ending, hrename.known, hrename.distinct⟩
  | @startFails handler session id hhandler hnew =>
      have hrename : Valid { w.setState session
          { w.states session with conversationId := some id, connected := false } with started := id :: w.started } :=
        hv.rename (by rw [hhandler]; rfl) (fun _ hid => List.mem_cons_of_mem _ hid) fun id' hid' => by
          obtain rfl := Option.some.inj hid'
          exact ⟨hnew, List.mem_cons_self⟩
      have hheld : (w.handlers handler).session? = some session := by
        rw [hhandler]
        rfl
      have hclosing : Valid ({ w.setState session
          { w.states session with conversationId := some id, connected := false } with
            started := id :: w.started }.setHandler handler (.closing session)) :=
        hrename.setHandler fun s hs => hheld.trans hs
      exact ⟨hclosing.single, hclosing.below, hclosing.keyed, hclosing.ending, hclosing.known, hclosing.distinct⟩
  | @resume handler session hhandler =>
      refine (hv.setState ?_).setHandler fun s hs => ?_
      · rfl
      · change (w.handlers handler).session? = some s
        rw [hhandler]
        exact hs
  | finishNone hhandler =>
      refine hv.setHandler fun s hs => ?_
      rw [hhandler]
      exact hs
  | @finish handler session resumed id hhandler =>
      have hleaving : Valid (w.setHandler handler (.leaving session resumed)) := hv.setHandler fun s hs => by
        rw [hhandler]
        exact hs
      exact ⟨hleaving.single, hleaving.below, hleaving.keyed, hleaving.ending, hleaving.known, hleaving.distinct⟩
  | @clear handler session resumed hhandler =>
      have hrename : Valid (w.setState session (resetSession (w.states session))) :=
        have hheld : (w.handlers handler).session? = some session := by
          rw [hhandler]
          rfl
        hv.rename hheld (fun _ hid => hid) fun id' hid' => absurd hid' (by simp [resetSession])
      refine hrename.setHandler fun s hs => ?_
      change (w.handlers handler).session? = some s
      rw [hhandler]
      exact hs
  | @drop handler session resumed hhandler =>
      refine (hv.setState ?_).setHandler fun s hs => ?_
      · rfl
      · change (w.handlers handler).session? = some s
        rw [hhandler]
        exact hs
  | close => exact hv.setHandler fun s hs => absurd hs (by simp [Handler.session?])
  | suspend hhandler hid => exact hv.suspendAs (by rw [hhandler]; rfl) hid
  | run htask => exact hv.taskStep htask
  | elsewhere id => exact ⟨hv.single, hv.below, hv.keyed, hv.ending, hv.known, hv.distinct⟩

/-- **Run lemma**: every server that is reached is valid. -/
theorem valid_of_reached (h : Reached rt w) : Valid w := by
  obtain ⟨labels, hrun⟩ := h
  exact Runs.inv_of_run (fun _ _ _ hv hstep => valid_step hv hstep) valid_initial hrun

end valid

/-! ### Refused resumes over runs -/

/-- **A refused resume leaves the suspended sessions and their tasks as they were**, exactly if it does not name one
of them with a generation that is no number; then this one is lost, and no other. -/
theorem refused_keeps_iff (rt : Runtime) (w : Server) (hreached : Reached rt w)
    (accountId : Uuid) (query : Query) (hrefused : (handshake rt w accountId query).2 = none) :
    (((connect rt w accountId query).sessions = w.sessions ∧ (connect rt w accountId query).tasks = w.tasks) ↔
      ¬Garbled rt w query) ∧
    (Garbled rt w query → ∀ id ∈ query.requested rt, (w.sessions id).isSome ∧
      (connect rt w accountId query).sessions id = none ∧
      ∀ other ≠ id, (connect rt w accountId query).sessions other = w.sessions other) := by
  rw [connect_refused hrefused, ← handshake_keeps_iff (valid_of_reached hreached).keyed hrefused]
  refine ⟨and_iff_left rfl, fun hgarbled id hid => ?_⟩
  obtain ⟨hregistered, hpopped⟩ := hgarbled.handshake hid
  refine ⟨hregistered, ?_, fun other hother => ?_⟩
  · exact (congrFun (hpopped accountId) id).trans (Function.update_self ..)
  · exact (congrFun (hpopped accountId) other).trans (Function.update_of_ne hother ..)

/-- A runtime that can read one generation. -/
def sampleRuntime : Runtime :=
  { Runtime.sample 0 [] with
    pyInt
      | .str text => if text = "2" then .ok 2 else .error "ValueError"
      | _ => .error "TypeError" }

/-- The socket of conversation 7 is lost. -/
def lostSocket : List Label := [.connect 1 {}, .accept 0 true, .start 0 7 true, .drop 0, .suspend 0 false]

/-- A query for conversation 7. -/
def querySeven (generation : String) : Query := ⟨some "00000000-0000-0000-0000-000000000007", some generation⟩

/-- Another account asks for conversation 7, with a generation and with a text that is no number. -/
theorem refused_keeps_iff_stranger : ∃ w : Server, Reached sampleRuntime w ∧ w.sessions 7 = some 0 ∧
    (handshake sampleRuntime w 2 (querySeven "2")).2 = none ∧
    ((connect sampleRuntime w 2 (querySeven "2")).sessions = w.sessions ∧
      (connect sampleRuntime w 2 (querySeven "2")).tasks = w.tasks) ∧
    (connect sampleRuntime w 2 (querySeven "dvě")).sessions 7 = none := by
  have hrun : ((Runs.run (fun w => step w sampleRuntime) {} lostSocket).any fun w => decide (w.sessions 7 = some 0 ∧
      ((handshake sampleRuntime w 2 (querySeven "2")).2 = none ∧ ¬Garbled sampleRuntime w (querySeven "2")) ∧
      (handshake sampleRuntime w 2 (querySeven "dvě")).2 = none ∧ Garbled sampleRuntime w (querySeven "dvě") ∧
      7 ∈ (querySeven "dvě").requested sampleRuntime)) = true := by
    decide +kernel
  obtain ⟨w, hw, h⟩ := (Option.any_eq_true _ _).mp hrun
  obtain ⟨hregistered, ⟨hrefused, hread⟩, hrefused', hgarbled, hnamed⟩ := of_decide_eq_true h
  have hkept := (refused_keeps_iff sampleRuntime w ⟨_, hw⟩ 2 _ hrefused).1.mpr hread
  have hlost := (refused_keeps_iff sampleRuntime w ⟨_, hw⟩ 2 _ hrefused').2 hgarbled 7 hnamed
  exact ⟨w, ⟨_, hw⟩, hregistered, hrefused, hkept, hlost.2.1⟩

end Registry

end KajovoDagmar.Realtime
