import KajovoDagmar.Conversations.Outbox
import KajovoDagmar.Library.SkipLocked
import KajovoDagmar.Worker

/-! # The dispatch of the outbox

Any number of workers run their turns concurrently.  The `SELECT … FOR UPDATE SKIP LOCKED` of a turn
takes a snapshot of the events that wait, and then passes over those that another turn has locked or has
published meanwhile.  What a turn writes is published by its commit, so its statements are run on the
store as it is then; the jobs that it claims and their handlers are work that adds events and jobs but
changes no event.  The other sessions of the program are such work alone.

`Dispatch` is a record of the jobs that a published dispatch has led to.  The program keeps none. -/

namespace KajovoDagmar.Worker

variable (out : Outside)

/-- The jobs that the dispatch of an event has led to. -/
structure Dispatch where
  eventId : Uuid
  jobs : List BackgroundJob

/-- The committed rows, and the dispatches that have been committed. -/
structure Ledger where
  db : Db
  dispatches : List Dispatch

namespace Ledger

/-- The dispatches of an event. -/
def of (ledger : Ledger) (eventId : Uuid) : List Dispatch :=
  ledger.dispatches.filter fun d => d.eventId = eventId

end Ledger

/-! ### Work beside the dispatch -/

/-- The events stay as they are and those that are new wait; no job is removed. -/
structure Spares (s s' : Session) : Prop where
  events : ∀ e ∈ s.db.outboxEvents, e ∈ s'.db.outboxEvents
  fresh : ∀ e ∈ s'.db.outboxEvents, e ∈ s.db.outboxEvents ∨ e.publishedAt = none
  jobs : ∀ job ∈ s.db.backgroundJobs, ∃ job' ∈ s'.db.backgroundJobs, job'.id = job.id

instance : Std.Refl Spares := ⟨fun _ =>
  { events := fun _ h => h
    fresh := fun _ h => .inl h
    jobs := fun job h => ⟨job, h, rfl⟩ }⟩

instance : IsTrans Session Spares where
  trans _ _ _ h h' :=
    { events := fun e he => h'.events e (h.events e he)
      fresh := fun e he => (h'.fresh e he).elim (h.fresh e) .inr
      jobs := fun job hjob => by
        obtain ⟨job₁, hjob₁, hid₁⟩ := h.jobs job hjob
        obtain ⟨job₂, hjob₂, hid₂⟩ := h'.jobs job₁ hjob₁
        exact ⟨job₂, hjob₂, hid₂.trans hid₁⟩ }

/-- Work that changes no event and removes no job: a handler, or another session. -/
structure SideWork where
  work : Work PUnit
  spares : Tx.Keeps Spares work

/-! ### Turns -/

/-- The unpublished events, in the order of their creation. -/
def candidatesOf (db : Db) : List OutboxEvent :=
  (db.outboxEvents.select fun e => e.publishedAt.isNone).insertionSort fun a b =>
    a.createdAt.before b.createdAt ∨ (¬b.createdAt.before a.createdAt ∧ a.id ≤ b.id)

/-- A turn of the loop of `run`: whether the hourly maintenance is due, which jobs it may claim and
finds locked, and the handler of each. -/
structure Turn where
  maintenance : Bool
  workerId : String
  kinds : List String
  locked : BackgroundJob → Bool
  handlers : BackgroundJob → Option SideWork
  began : DateTime
  tick : ℕ

namespace Turn

/-- What a turn does before the dispatch. -/
def before (turn : Turn) : Work PUnit :=
  if turn.maintenance then do
    let _ ← JobService.enqueue out.toRuntime "purge_expired" (.obj [])
    pure ⟨⟩
  else pure ⟨⟩

def handle (turn : Turn) (job : BackgroundJob) : Work PUnit :=
  match turn.handlers job with
  | none => JobService.fail out.toRuntime job "unsupported_job_kind"
  | some handler => runJob out.toRuntime handler.work job

/-- What a turn does after the dispatch. -/
def after (turn : Turn) : Work PUnit := do
  let jobs ← JobService.claim out.toRuntime turn.locked turn.workerId 10 turn.kinds
  let _ ← Tx.forEach (turn.handle out) jobs
  pure ⟨⟩

/-- The turn as the program of one worker. -/
def whole (turn : Turn) : Work PUnit := do
  turn.before out
  let _ ← dispatchOutbox out
  turn.after out

end Turn

/-- A transaction, at its next statement. -/
inductive Stage where
  | opened (turn : Turn)
  /-- The rest of the snapshot, and the events that the turn has locked, as last committed. -/
  | locking (turn : Turn) (candidates taken : List OutboxEvent)
  /-- A session that dispatches nothing. -/
  | session (side : SideWork) (began : DateTime) (tick : ℕ)

/-- The dispatch of the events, with a record of it. -/
def dispatchAll : List OutboxEvent → Session → List Dispatch → Option (Session × List Dispatch)
  | [], s, dispatches => some (s, dispatches)
  | event :: events, s, dispatches =>
    match dispatchEvent out event s with
    | (.ok _, s') =>
      let jobs := s'.db.backgroundJobs.rows.drop s.db.backgroundJobs.rows.length
      dispatchAll events s' (dispatches ++ [⟨event.id, jobs⟩])
    | (.error _, _) => none

/-- What a session that has ended publishes. -/
def ended (ledger : Ledger) : Except Exc PUnit.{1} → Option Ledger
  | .ok _ => some ledger
  | .error e => if e.Durable then some ledger else none

/-- What a turn publishes that has locked the given events. -/
def publishTurn (turn : Turn) (taken : List OutboxEvent) (ledger : Ledger) : Option Ledger :=
  match turn.before out { db := ledger.db, began := turn.began, tick := turn.tick } with
  | (.error e, s₁) => ended ⟨s₁.db, ledger.dispatches⟩ (.error e)
  | (.ok _, s₁) =>
    match dispatchAll out taken s₁ ledger.dispatches with
    | none => none
    | some (s₂, dispatches) =>
      let (r, s₃) := turn.after out s₂
      ended ⟨s₃.db, dispatches⟩ r

/-- What another session publishes. -/
def publishSession (side : SideWork) (began : DateTime) (tick : ℕ) (ledger : Ledger) : Option Ledger :=
  let (r, s) := side.work { db := ledger.db, began := began, tick := tick }
  ended { ledger with db := s.db } r

/-- The event waits, as last committed. -/
def waits (eventId : Uuid) (ledger : Ledger) : Bool :=
  (ledger.db.outboxEvents.find? eventId).any fun e => e.publishedAt.isNone

/-- The next statement of a transaction. -/
def statement : Stage → SkipLocked.Stmt Uuid Ledger Stage
  | .opened turn => .read fun ledger => .locking turn (candidatesOf ledger.db) []
  | .locking turn candidates taken =>
    if taken.length = 50 then .commit (publishTurn out turn taken)
    else match candidates with
      | [] => .commit (publishTurn out turn taken)
      | event :: events =>
        .take event.id (waits event.id)
          (fun ledger => .locking turn events
            (taken ++ (ledger.db.outboxEvents.find? event.id).toList))
          (.locking turn events taken)
  | .session side began tick => .commit (publishSession side began tick)

/-- A transaction starts with its first statement. -/
def starts : Stage → Bool
  | .opened _ => true
  | .locking _ _ _ => false
  | .session _ _ _ => true

abbrev DispatchState := ReadCommitted.State Uuid Ledger Stage

def dispatchStep (s : DispatchState) (e : ReadCommitted.Event Stage) : Option DispatchState :=
  SkipLocked.step (statement out) starts s e

/-! ### What spares the events -/

theorem Spares.of_same {s s' : Session}
    (h : Same (fun db => (db.outboxEvents, db.backgroundJobs)) s s') : Spares s s' := by
  obtain ⟨hevents, hjobs⟩ := Prod.mk.inj h
  constructor
  · rw [hevents]
    exact fun _ he => he
  · rw [hevents]
    exact fun _ he => .inl he
  · rw [hjobs]
    exact fun job hjob => ⟨job, hjob, rfl⟩

variable {out}

theorem utcNow_spares {rt : Runtime} : Tx.Keeps Spares (utcNow rt) := fun _ => .of_same rfl

/-- A new job leaves the others. -/
theorem addJob_spares {rt : Runtime} (job : BackgroundJob) : Tx.Keeps Spares (Db.backgroundJob.add rt job) := by
  intro s
  rcases hs : Db.backgroundJob.add rt job s with ⟨e | u, s'⟩
  · rw [(Relation.add_error hs).1]
    exact .of_same rfl
  · obtain ⟨t, ht, rfl⟩ := Relation.add_eq_ok hs
    refine ⟨fun _ he => he, fun _ he => .inl he, fun x hx => ⟨x, ?_, rfl⟩⟩
    exact (Table.mem_insert? (Relation.insertRow_eq_ok ht).1).mpr (.inl hx)

theorem enqueue_spares {rt : Runtime} (kind : String) (payload : Json) (priority delaySeconds : ℤ)
    (correlationId : Option String) :
    Tx.Keeps Spares (JobService.enqueue rt kind payload priority delaySeconds correlationId) := by
  have hid : Tx.Keeps Spares (newUuid rt) := fun _ => .of_same rfl
  exact hid.bind fun id => utcNow_spares.bind fun now => (addJob_spares _).bind fun _ => Tx.Keeps.pure _

/-- A job that is changed is still there. -/
theorem saveJob_spares {rt : Runtime} (job : BackgroundJob) : Tx.Keeps Spares (Db.backgroundJob.save rt job) := by
  intro s
  unfold Relation.save
  split
  · exact .of_same rfl
  · refine ⟨fun _ he => he, fun _ he => .inl he, fun x hx => ?_⟩
    by_cases hid : x.id = job.id
    · exact ⟨job, Table.mem_put_iff.mpr (.inr ⟨rfl, x, hx, hid⟩), hid.symm⟩
    · exact ⟨x, Table.mem_put_iff.mpr (.inl ⟨hx, hid⟩), rfl⟩

theorem nested_spares {m : Work PUnit} (h : Tx.Keeps Spares m) : Tx.Keeps Spares (nested m) := by
  intro s
  rcases hs : m s with ⟨e | a, s'⟩
  · have hnested : nested m s = (.error e, s.rollback s') := Tx.session_of_rollback hs id
    rw [hnested]
    exact .of_same rfl
  · have hnested : nested m s = (.ok a, s') := Tx.session_of_ok hs
    have hspares := h.of_apply hs
    rw [hnested]
    exact hspares

theorem fail_spares {rt : Runtime} (job : BackgroundJob) (code : String) :
    Tx.Keeps Spares (JobService.fail rt job code) := utcNow_spares.bind fun _ => saveJob_spares _

theorem runJob_spares {rt : Runtime} {handler : Work PUnit} (h : Tx.Keeps Spares handler)
    (job : BackgroundJob) : Tx.Keeps Spares (runJob rt handler job) := by
  refine Tx.Keeps.bind ?_ fun outcome => ?_
  · exact Tx.Keeps.handle ((nested_spares h).bind fun _ => Tx.Keeps.pure _) fun _ => Tx.Keeps.pure _
  · cases outcome with
    | none => exact utcNow_spares.bind fun _ => saveJob_spares _
    | some e =>
        exact (Tx.Keeps.gets _).bind fun row => (Tx.Keeps.orRaise _ _).bind fun row => fail_spares _ _

theorem Turn.before_spares (turn : Turn) : Tx.Keeps Spares (turn.before out) := by
  unfold Turn.before
  split
  · exact (enqueue_spares _ _ _ _ _).bind fun _ => Tx.Keeps.pure _
  · exact Tx.Keeps.pure _

theorem Turn.handle_spares (turn : Turn) (job : BackgroundJob) : Tx.Keeps Spares (turn.handle out job) := by
  unfold Turn.handle
  split
  · exact fail_spares _ _
  · next handler _ => exact runJob_spares handler.spares job

theorem Turn.after_spares (turn : Turn) : Tx.Keeps Spares (turn.after out) := by
  refine Tx.Keeps.bind ?_ fun jobs => Tx.Keeps.bind (Tx.Keeps.forEach turn.handle_spares) fun _ =>
    Tx.Keeps.pure _
  refine utcNow_spares.bind fun now => (Tx.Keeps.gets _).bind fun rows => Tx.Keeps.forEach fun row => ?_
  exact utcNow_spares.bind fun _ => (saveJob_spares _).bind fun _ => Tx.Keeps.pure _

/-! ### One event -/

theorem forEach_enqueue_ok {payload : Json} {kinds : List String} {jobs : List BackgroundJob}
    {s s' : Session}
    (h : Tx.forEach (fun kind => JobService.enqueue out.toRuntime kind payload) kinds s = (.ok jobs, s')) :
    jobs.map BackgroundJob.kind = kinds ∧ (∀ job ∈ jobs, job.payload = payload) ∧
      s'.db = { s.db with backgroundJobs := s'.db.backgroundJobs } ∧
      s'.db.backgroundJobs.rows = s.db.backgroundJobs.rows ++ jobs := by
  induction kinds generalizing s jobs with
  | nil =>
      obtain ⟨hjobs, rfl⟩ := Prod.mk.inj h
      obtain rfl := Except.ok.inj hjobs
      exact ⟨rfl, fun _ hjob => absurd hjob List.not_mem_nil, rfl, (List.append_nil _).symm⟩
  | cons kind kinds ih =>
      obtain ⟨job, s₁, henqueue, h₁⟩ := Tx.bind_eq_ok h
      obtain ⟨jobs', s₂, hrest, h₂⟩ := Tx.bind_eq_ok h₁
      obtain ⟨hjobs, rfl⟩ := Prod.mk.inj h₂
      obtain rfl := Except.ok.inj hjobs
      obtain ⟨hkind, hpayload, -, hinsert, hdb, -⟩ := JobService.enqueue_ok henqueue
      obtain ⟨hkinds, hpayloads, hdb', hrows⟩ := ih hrest
      refine ⟨by rw [List.map_cons, hkind, hkinds], ?_, ?_, ?_⟩
      · intro x hx
        rcases List.mem_cons.mp hx with rfl | hx
        · exact hpayload
        · exact hpayloads x hx
      · rw [hdb', hdb]
      · rw [hrows, (Table.insert?_eq_some hinsert).1, List.append_assoc]
        rfl

/-- What the dispatch of an event does. -/
structure Dispatches (event : OutboxEvent) (jobs : List BackgroundJob) (s s' : Session) : Prop where
  row : ∃ row, row.id = event.id ∧ row.eventType = event.eventType ∧ row.payload = event.payload ∧
    row.publishedAt ≠ none ∧ s'.db.outboxEvents = s.db.outboxEvents.put row
  kinds : jobs.map BackgroundJob.kind = (jobKinds? event.eventType).getD []
  payloads : ∀ job ∈ jobs, job.payload = event.payload
  jobs : s'.db.backgroundJobs.rows = s.db.backgroundJobs.rows ++ jobs

theorem dispatchEvent_ok {event : OutboxEvent} {s s' : Session} {u : PUnit}
    (h : dispatchEvent out event s = (.ok u, s')) : ∃ jobs, Dispatches event jobs s s' := by
  obtain ⟨jobs, s₁, hjobs, h₁⟩ := Tx.bind_eq_ok h
  obtain ⟨now, s₂, hnow, hsave⟩ := Tx.bind_eq_ok h₁
  obtain ⟨-, rfl⟩ := Prod.mk.inj hnow
  obtain ⟨hkinds, hpayloads, hdb, hrows⟩ := forEach_enqueue_ok hjobs
  obtain rfl := Relation.save_eq_ok hsave
  have hevents : s₁.db.outboxEvents = s.db.outboxEvents := by rw [hdb]
  refine ⟨jobs, ⟨{ event with
    lastErrorCode := if jobKinds? event.eventType = none then some "unknown_outbox_event_parked"
      else event.lastErrorCode
    publishedAt := some now
    attempts := event.attempts + 1 }, rfl, rfl, rfl, Option.some_ne_none now, ?_⟩, hkinds, hpayloads, hrows⟩
  rw [← hevents]
  rfl

/-! ### What is delivered -/

/-- An event that waits has led to no job, and a published one has been dispatched once, to the jobs of
its type; an unknown type has none. -/
structure Delivered (ledger : Ledger) : Prop where
  waiting : ∀ e ∈ ledger.db.outboxEvents, e.publishedAt = none → ledger.of e.id = []
  published : ∀ e ∈ ledger.db.outboxEvents, e.publishedAt ≠ none → ∃ d, ledger.of e.id = [d] ∧
    d.jobs.map BackgroundJob.kind = (jobKinds? e.eventType).getD [] ∧ ∀ job ∈ d.jobs, job.payload = e.payload
  /-- The jobs are there, and no two dispatches share one. -/
  created : ∀ d ∈ ledger.dispatches, ∀ job ∈ d.jobs, ∃ row ∈ ledger.db.backgroundJobs, row.id = job.id
  distinct : ((ledger.dispatches.flatMap Dispatch.jobs).map BackgroundJob.id).Nodup
  known : ∀ d ∈ ledger.dispatches, ∃ e ∈ ledger.db.outboxEvents, e.id = d.eventId

theorem Ledger.of_append (db : Db) {db' : Db} {dispatches : List Dispatch} {d : Dispatch} {eventId : Uuid} :
    Ledger.of ⟨db', dispatches ++ [d]⟩ eventId =
      Ledger.of ⟨db, dispatches⟩ eventId ++ if d.eventId = eventId then [d] else [] := by
  unfold Ledger.of
  rw [List.filter_append, List.filter_singleton]
  by_cases h : d.eventId = eventId
  · simp [h]
  · simp [h]

/-- Other work leaves delivered what is. -/
theorem Delivered.spares {s s' : Session} {dispatches : List Dispatch} (h : Delivered ⟨s.db, dispatches⟩)
    (hs : Spares s s') : Delivered ⟨s'.db, dispatches⟩ := by
  constructor
  · intro e he hwaits
    by_contra hne
    obtain ⟨d, hd⟩ := List.exists_mem_of_ne_nil _ hne
    obtain ⟨hmem, hid⟩ := List.mem_filter.mp hd
    obtain ⟨e₀, he₀, hkey⟩ := h.known d hmem
    -- the event is not new
    obtain rfl : e₀ = e := Table.eq_of_key (hs.events e₀ he₀) he (hkey.trans (of_decide_eq_true hid))
    exact hne (h.waiting e₀ he₀ hwaits)
  · intro e he hpublished
    rcases hs.fresh e he with hold | hwaits
    · exact h.published e hold hpublished
    · exact absurd hwaits hpublished
  · intro d hd job hjob
    obtain ⟨row, hrow, hid⟩ := h.created d hd job hjob
    obtain ⟨row', hrow', hid'⟩ := hs.jobs row hrow
    exact ⟨row', hrow', hid'.trans hid⟩
  · exact h.distinct
  · intro d hd
    obtain ⟨e, he, hid⟩ := h.known d hd
    exact ⟨e, hs.events e he, hid⟩

/-- The dispatch of an event that waits. -/
theorem Delivered.dispatch {s s' : Session} {dispatches : List Dispatch} {event : OutboxEvent}
    {jobs : List BackgroundJob} (h : Delivered ⟨s.db, dispatches⟩) (hevent : event ∈ s.db.outboxEvents)
    (hwaits : event.publishedAt = none) (hs : Dispatches event jobs s s') :
    Delivered ⟨s'.db, dispatches ++ [⟨event.id, jobs⟩]⟩ := by
  obtain ⟨row, hid, htype, hpayload, hpublished, hput⟩ := hs.row
  have hmem : ∀ e, e ∈ s'.db.outboxEvents →
      (e ∈ s.db.outboxEvents ∧ e.id ≠ event.id) ∨ e = row := by
    intro e he
    rw [hput] at he
    rcases Table.mem_put_iff.mp he with ⟨hold, hne⟩ | ⟨rfl, -⟩
    · exact .inl ⟨hold, by rwa [hid] at hne⟩
    · exact .inr rfl
  have hold : ∀ e ∈ s.db.outboxEvents, ∃ e' ∈ s'.db.outboxEvents, e'.id = e.id := by
    intro e he
    rw [hput]
    by_cases hsame : e.id = row.id
    · exact ⟨row, Table.mem_put_iff.mpr (.inr ⟨rfl, e, he, hsame⟩), hsame.symm⟩
    · exact ⟨e, Table.mem_put_iff.mpr (.inl ⟨he, hsame⟩), rfl⟩
  constructor
  · intro e he hnone
    rcases hmem e he with ⟨hold, hne⟩ | rfl
    · rw [Ledger.of_append s.db, h.waiting e hold hnone, if_neg (Ne.symm hne)]
      rfl
    · exact absurd hnone hpublished
  · intro e he hsome
    rcases hmem e he with ⟨hold, hne⟩ | rfl
    · rw [Ledger.of_append s.db, if_neg (Ne.symm hne), List.append_nil]
      exact h.published e hold hsome
    · refine ⟨⟨event.id, jobs⟩, ?_, ?_, ?_⟩
      · rw [Ledger.of_append s.db, hid, if_pos rfl, h.waiting event hevent hwaits]
        rfl
      · rw [htype]
        exact hs.kinds
      · rw [hpayload]
        exact hs.payloads
  · intro d hd job hjob
    rcases List.mem_append.mp hd with hd | hd
    · obtain ⟨x, hx, hx'⟩ := h.created d hd job hjob
      refine ⟨x, ?_, hx'⟩
      rw [Table.mem_def, hs.jobs]
      exact List.mem_append_left _ hx
    · obtain rfl := List.mem_singleton.mp hd
      refine ⟨job, ?_, rfl⟩
      rw [Table.mem_def, hs.jobs]
      exact List.mem_append_right _ hjob
  · -- the new jobs are none of those that are there
    have hnodup := s'.db.backgroundJobs.nodup
    rw [hs.jobs, List.map_append, List.nodup_append] at hnodup
    obtain ⟨-, hnew, hdisjoint⟩ := hnodup
    rw [List.flatMap_append, List.map_append, List.nodup_append]
    refine ⟨h.distinct, by simpa using hnew, ?_⟩
    intro id hid' id' hid'' heq
    obtain ⟨job, hjob, rfl⟩ := List.mem_map.mp hid'
    obtain ⟨d, hd, hjob⟩ := List.mem_flatMap.mp hjob
    obtain ⟨x, hx, hxid⟩ := h.created d hd job hjob
    refine hdisjoint job.id ?_ id' (by simpa using hid'') heq
    rw [← hxid]
    exact List.mem_map_of_mem hx
  · intro d hd
    rcases List.mem_append.mp hd with hd | hd
    · obtain ⟨e, he, hid'⟩ := h.known d hd
      obtain ⟨e', he', hsame⟩ := hold e he
      exact ⟨e', he', hsame.trans hid'⟩
    · obtain rfl := List.mem_singleton.mp hd
      exact hold event hevent

/-! ### What a transaction publishes -/

/-- An event that is there stays as it is, and no dispatch of it is added. -/
structure Untouched (ledger ledger' : Ledger) (eventId : Uuid) : Prop where
  row : ∀ e, ledger.db.outboxEvents.find? eventId = some e → ledger'.db.outboxEvents.find? eventId = some e
  dispatches : ledger'.of eventId = ledger.of eventId

theorem Untouched.trans {ledger ledger' ledger'' : Ledger} {eventId : Uuid}
    (h : Untouched ledger ledger' eventId) (h' : Untouched ledger' ledger'' eventId) :
    Untouched ledger ledger'' eventId where
  row e he := h'.row e (h.row e he)
  dispatches := h'.dispatches.trans h.dispatches

theorem Spares.untouched {s s' : Session} (h : Spares s s') (dispatches : List Dispatch) (eventId : Uuid) :
    Untouched ⟨s.db, dispatches⟩ ⟨s'.db, dispatches⟩ eventId where
  row e he := by
    have hmem := Table.find?_of_mem (h.events e (Table.mem_of_find? he))
    rw [Table.key_of_find? he] at hmem
    exact hmem
  dispatches := rfl

theorem Dispatches.untouched {event : OutboxEvent} {jobs : List BackgroundJob} {s s' : Session}
    (h : Dispatches event jobs s s') (dispatches : List Dispatch) {eventId : Uuid} (hne : eventId ≠ event.id) :
    Untouched ⟨s.db, dispatches⟩ ⟨s'.db, dispatches ++ [⟨event.id, jobs⟩]⟩ eventId where
  row e he := by
    obtain ⟨row, hid, -, -, -, hput⟩ := h.row
    change s'.db.outboxEvents.find? eventId = some e
    rw [hput, Table.find?_put_of_ne (by rwa [hid])]
    exact he
  dispatches := by rw [Ledger.of_append s.db, if_neg (Ne.symm hne), List.append_nil]

/-- One event of the dispatch, and the others. -/
theorem dispatchAll_cons {event : OutboxEvent} {events : List OutboxEvent} {s t : Session}
    {dispatches dispatches' : List Dispatch}
    (h : dispatchAll out (event :: events) s dispatches = some (t, dispatches')) :
    ∃ jobs s₁, Dispatches event jobs s s₁ ∧
      dispatchAll out events s₁ (dispatches ++ [⟨event.id, jobs⟩]) = some (t, dispatches') := by
  rw [dispatchAll] at h
  rcases hs : dispatchEvent out event s with ⟨e | u, s₁⟩
  · rw [hs] at h
    exact absurd h (by simp)
  · rw [hs] at h
    obtain ⟨jobs, hdispatches⟩ := dispatchEvent_ok hs
    refine ⟨jobs, s₁, hdispatches, ?_⟩
    dsimp only at h
    rw [hdispatches.jobs, List.drop_left] at h
    exact h

/-- The dispatch is that of the program. -/
theorem dispatchAll_forEach {events : List OutboxEvent} {s t : Session}
    {dispatches dispatches' : List Dispatch} (h : dispatchAll out events s dispatches = some (t, dispatches')) :
    ∃ us, Tx.forEach (dispatchEvent out) events s = (.ok us, t) := by
  induction events generalizing s dispatches with
  | nil =>
      obtain ⟨rfl, -⟩ := Prod.mk.inj (Option.some.inj h)
      exact ⟨[], rfl⟩
  | cons event events ih =>
      rw [dispatchAll] at h
      rcases hs : dispatchEvent out event s with ⟨e | u, s₁⟩
      · rw [hs] at h
        exact absurd h (by simp)
      · rw [hs] at h
        obtain ⟨us, hus⟩ := ih h
        refine ⟨u :: us, ?_⟩
        change (dispatchEvent out event >>= fun b => Tx.forEach (dispatchEvent out) events >>= fun bs =>
          pure (b :: bs)) s = _
        rw [Tx.bind_of_ok hs, Tx.bind_of_ok hus]
        rfl

/-- Over the events that wait, it is `dispatch_outbox`. -/
theorem dispatchAll_outbox {s t : Session} {dispatches dispatches' : List Dispatch}
    (h : dispatchAll out (waitingEvents s.db) s dispatches = some (t, dispatches')) :
    dispatchOutbox out s = (.ok (waitingEvents s.db).length, t) := by
  obtain ⟨us, hus⟩ := dispatchAll_forEach h
  rw [dispatchOutbox, Tx.gets_bind_apply, Tx.bind_of_ok hus]
  rfl

theorem dispatchAll_untouched {events : List OutboxEvent} {s t : Session}
    {dispatches dispatches' : List Dispatch} {eventId : Uuid} (hnot : eventId ∉ events.map OutboxEvent.id)
    (h : dispatchAll out events s dispatches = some (t, dispatches')) :
    Untouched ⟨s.db, dispatches⟩ ⟨t.db, dispatches'⟩ eventId := by
  induction events generalizing s dispatches with
  | nil =>
      obtain ⟨rfl, rfl⟩ := Prod.mk.inj (Option.some.inj h)
      exact ⟨fun _ he => he, rfl⟩
  | cons event events ih =>
      obtain ⟨jobs, s₁, hs, hrest⟩ := dispatchAll_cons h
      rw [List.map_cons, List.mem_cons, not_or] at hnot
      exact (hs.untouched dispatches hnot.1).trans (ih hnot.2 hrest)

/-- **Run lemma**: the dispatch of events that wait delivers each of them. -/
theorem dispatchAll_delivered {events : List OutboxEvent} {s t : Session}
    {dispatches dispatches' : List Dispatch} (hnodup : (events.map OutboxEvent.id).Nodup)
    (hevents : ∀ e ∈ events, s.db.outboxEvents.find? e.id = some e ∧ e.publishedAt = none)
    (hdelivered : Delivered ⟨s.db, dispatches⟩)
    (h : dispatchAll out events s dispatches = some (t, dispatches')) : Delivered ⟨t.db, dispatches'⟩ := by
  induction events generalizing s dispatches with
  | nil =>
      obtain ⟨rfl, rfl⟩ := Prod.mk.inj (Option.some.inj h)
      exact hdelivered
  | cons event events ih =>
      obtain ⟨jobs, s₁, hs, hrest⟩ := dispatchAll_cons h
      obtain ⟨hnot, hnodup⟩ := List.nodup_cons.mp hnodup
      obtain ⟨hfind, hwaits⟩ := hevents event List.mem_cons_self
      refine ih hnodup (fun e he => ?_) (hdelivered.dispatch (Table.mem_of_find? hfind) hwaits hs) hrest
      obtain ⟨hfind', hwaits'⟩ := hevents e (List.mem_cons_of_mem _ he)
      have hne : e.id ≠ event.id := by
        rintro heq
        exact hnot (List.mem_map.mpr ⟨e, he, heq⟩)
      exact ⟨(hs.untouched dispatches hne).row e hfind', hwaits'⟩

theorem ended_eq_some {ledger ledger' : Ledger} {r : Except Exc PUnit} (h : ended ledger r = some ledger') :
    ledger' = ledger := by
  unfold ended at h
  split at h
  · exact (Option.some.inj h).symm
  · split at h
    · exact (Option.some.inj h).symm
    · exact absurd h (by simp)

/-- The parts of what a turn publishes: without the dispatch if what comes before it fails. -/
theorem publishTurn_eq_some {turn : Turn} {taken : List OutboxEvent} {ledger ledger' : Ledger}
    (h : publishTurn out turn taken ledger = some ledger') :
    ∃ s₁, Spares { db := ledger.db, began := turn.began, tick := turn.tick } s₁ ∧
      (ledger' = ⟨s₁.db, ledger.dispatches⟩ ∨ ∃ s₂ s₃ dispatches,
        dispatchAll out taken s₁ ledger.dispatches = some (s₂, dispatches) ∧ Spares s₂ s₃ ∧
          ledger' = ⟨s₃.db, dispatches⟩) := by
  unfold publishTurn at h
  rcases hbefore : turn.before out { db := ledger.db, began := turn.began, tick := turn.tick }
    with ⟨e | u, s₁⟩
  · rw [hbefore] at h
    exact ⟨s₁, turn.before_spares.of_apply hbefore, .inl (ended_eq_some h)⟩
  · rw [hbefore] at h
    refine ⟨s₁, turn.before_spares.of_apply hbefore, .inr ?_⟩
    rcases hall : dispatchAll out taken s₁ ledger.dispatches with _ | ⟨s₂, dispatches⟩
    · simp only [hall] at h
      exact absurd h (by simp)
    · simp only [hall] at h
      exact ⟨s₂, (turn.after out s₂).2, dispatches, rfl, turn.after_spares s₂, ended_eq_some h⟩

/-- The maintenance adds no event. -/
theorem Turn.before_events (turn : Turn) (s : Session) :
    waitingEvents (turn.before out s).2.db = waitingEvents s.db := by
  have hkeeps : Tx.Keeps (Same Db.outboxEvents) (turn.before out) := by
    unfold Turn.before
    split
    · have henqueue : Tx.Keeps (Same Db.outboxEvents)
          (JobService.enqueue out.toRuntime "purge_expired" (.obj [])) :=
        JobService.enqueue_keeps (fun _ _ => rfl) _ _ _ _ _ _
      exact henqueue.bind fun _ => Tx.Keeps.pure _
    · exact Tx.Keeps.pure _
  unfold waitingEvents
  rw [(hkeeps s : (turn.before out s).2.db.outboxEvents = s.db.outboxEvents)]

/-- A turn that has locked all the events that wait publishes what the program leaves. -/
theorem publishTurn_whole {turn : Turn} {ledger ledger' : Ledger}
    (h : publishTurn out turn (waitingEvents ledger.db) ledger = some ledger') :
    ledger'.db = (turn.whole out { db := ledger.db, began := turn.began, tick := turn.tick }).2.db := by
  unfold publishTurn at h
  have hevents : waitingEvents (turn.before out { db := ledger.db, began := turn.began, tick := turn.tick }).2.db =
      waitingEvents ledger.db := turn.before_events _
  rcases hbefore : turn.before out { db := ledger.db, began := turn.began, tick := turn.tick }
    with ⟨e | u, s₁⟩
  · rw [hbefore] at h
    rw [ended_eq_some h, Turn.whole, Tx.bind_of_error hbefore]
  · rw [hbefore] at h
    rw [Turn.whole, Tx.bind_of_ok hbefore]
    rcases hall : dispatchAll out (waitingEvents ledger.db) s₁ ledger.dispatches with _ | ⟨s₂, dispatches⟩
    · simp only [hall] at h
      exact absurd h (by simp)
    · simp only [hall] at h
      have hwaiting : waitingEvents s₁.db = waitingEvents ledger.db := by rw [← hevents, hbefore]
      have hdispatch := dispatchAll_outbox (hwaiting.symm ▸ hall)
      rw [ended_eq_some h, Tx.bind_of_ok hdispatch]

theorem publishTurn_untouched {turn : Turn} {taken : List OutboxEvent} {ledger ledger' : Ledger}
    {eventId : Uuid} (hnot : eventId ∉ taken.map OutboxEvent.id)
    (h : publishTurn out turn taken ledger = some ledger') : Untouched ledger ledger' eventId := by
  obtain ⟨s₁, hbefore, hcases⟩ := publishTurn_eq_some h
  have h₁ : Untouched ledger ⟨s₁.db, ledger.dispatches⟩ eventId := hbefore.untouched _ _
  rcases hcases with rfl | ⟨s₂, s₃, dispatches, hall, hafter, rfl⟩
  · exact h₁
  · exact h₁.trans ((dispatchAll_untouched hnot hall).trans (hafter.untouched _ _))

theorem publishTurn_delivered {turn : Turn} {taken : List OutboxEvent} {ledger ledger' : Ledger}
    (hnodup : (taken.map OutboxEvent.id).Nodup)
    (htaken : ∀ e ∈ taken, ledger.db.outboxEvents.find? e.id = some e ∧ e.publishedAt = none)
    (hdelivered : Delivered ledger) (h : publishTurn out turn taken ledger = some ledger') :
    Delivered ledger' := by
  obtain ⟨s₁, hbefore, hcases⟩ := publishTurn_eq_some h
  have h₁ : Delivered ⟨s₁.db, ledger.dispatches⟩ := Delivered.spares hdelivered hbefore
  rcases hcases with rfl | ⟨s₂, s₃, dispatches, hall, hafter, rfl⟩
  · exact h₁
  · refine (dispatchAll_delivered hnodup (fun e he => ?_) h₁ hall).spares hafter
    obtain ⟨hfind, hwaits⟩ := htaken e he
    exact ⟨(hbefore.untouched ledger.dispatches e.id).row e hfind, hwaits⟩

theorem publishSession_eq_some {side : SideWork} {began : DateTime} {tick : ℕ} {ledger ledger' : Ledger}
    (h : publishSession side began tick ledger = some ledger') :
    ∃ s, Spares { db := ledger.db, began := began, tick := tick } s ∧
      ledger' = { ledger with db := s.db } :=
  ⟨_, side.spares _, ended_eq_some h⟩

/-! ### What a transaction knows -/

/-- A turn owns the events that it has taken. -/
def holds : Stage → Uuid → Prop
  | .locking _ _ taken, eventId => eventId ∈ taken.map OutboxEvent.id
  | _, _ => False

/-- A turn knows the events that it has taken, as last committed; they wait, and none of them is still
among its candidates. -/
def knows (ledger : Ledger) : Stage → Prop
  | .locking _ candidates taken => ((taken ++ candidates).map OutboxEvent.id).Nodup ∧
      ∀ e ∈ taken, ledger.db.outboxEvents.find? e.id = some e ∧ e.publishedAt = none
  | _ => True

theorem candidatesOf_nodup (db : Db) : ((candidatesOf db).map OutboxEvent.id).Nodup := by
  have hsub : (db.outboxEvents.select fun e => e.publishedAt.isNone).Sublist db.outboxEvents.rows :=
    List.filter_sublist
  have hperm := List.perm_insertionSort (fun a b : OutboxEvent =>
    a.createdAt.before b.createdAt ∨ (¬b.createdAt.before a.createdAt ∧ a.id ≤ b.id))
    (db.outboxEvents.select fun e => e.publishedAt.isNone)
  exact (hperm.map _).nodup_iff.mpr (db.outboxEvents.nodup.sublist (hsub.map _))

/-! ### Runs -/

theorem statement_nil (turn : Turn) (taken : List OutboxEvent) :
    statement out (.locking turn [] taken) = .commit (publishTurn out turn taken) := by
  rw [statement]
  split <;> rfl

theorem statement_cons (turn : Turn) (event : OutboxEvent) (events taken : List OutboxEvent) :
    statement out (.locking turn (event :: events) taken) =
      if taken.length = 50 then .commit (publishTurn out turn taken)
      else .take event.id (waits event.id)
        (fun ledger => .locking turn events (taken ++ (ledger.db.outboxEvents.find? event.id).toList))
        (.locking turn events taken) := rfl

theorem statement_take {t skipped : Stage} {eventId : Uuid} {qualifies : Ledger → Bool}
    {won : Ledger → Stage} (h : statement out t = .take eventId qualifies won skipped) :
    ∃ turn event events taken, t = .locking turn (event :: events) taken ∧ eventId = event.id ∧
      qualifies = waits event.id ∧ skipped = .locking turn events taken ∧
      won = fun ledger => .locking turn events
        (taken ++ (ledger.db.outboxEvents.find? event.id).toList) := by
  match t with
  | .opened turn => simp [statement] at h
  | .session side began tick => simp [statement] at h
  | .locking turn [] taken =>
      rw [statement_nil] at h
      simp at h
  | .locking turn (event :: events) taken =>
      rw [statement_cons] at h
      split at h
      · simp at h
      · obtain ⟨rfl, rfl, rfl, rfl⟩ := SkipLocked.Stmt.take.inj h
        exact ⟨turn, event, events, taken, rfl, rfl, rfl, rfl, rfl⟩

theorem statement_read {t : Stage} {next : Ledger → Stage} (h : statement out t = .read next) :
    ∃ turn, t = .opened turn ∧ next = fun ledger => .locking turn (candidatesOf ledger.db) [] := by
  match t with
  | .opened turn => exact ⟨turn, rfl, (SkipLocked.Stmt.read.inj h).symm⟩
  | .session side began tick => simp [statement] at h
  | .locking turn [] taken =>
      rw [statement_nil] at h
      simp at h
  | .locking turn (event :: events) taken =>
      rw [statement_cons] at h
      split at h
      · simp at h
      · simp at h

theorem statement_commit {t : Stage} {publish : Ledger → Option Ledger}
    (h : statement out t = .commit publish) :
    (∃ turn candidates taken, t = .locking turn candidates taken ∧ publish = publishTurn out turn taken) ∨
      ∃ side began tick, t = .session side began tick ∧ publish = publishSession side began tick := by
  match t with
  | .opened turn => simp [statement] at h
  | .session side began tick =>
      exact .inr ⟨side, began, tick, rfl, (SkipLocked.Stmt.commit.inj h).symm⟩
  | .locking turn [] taken =>
      rw [statement_nil] at h
      exact .inl ⟨turn, [], taken, rfl, (SkipLocked.Stmt.commit.inj h).symm⟩
  | .locking turn (event :: events) taken =>
      rw [statement_cons] at h
      split at h
      · exact .inl ⟨turn, event :: events, taken, rfl, (SkipLocked.Stmt.commit.inj h).symm⟩
      · simp at h

theorem discipline : SkipLocked.Discipline (statement out) starts holds where
  start := by
    intro t k ht
    cases t with
    | opened turn => exact id
    | locking turn candidates taken => exact absurd ht (by simp [starts])
    | session side began tick => exact id
  take := by
    intro t k qualifies taken skipped ledger k' hstmt hk
    obtain ⟨turn, event, events, before, rfl, rfl, rfl, rfl, rfl⟩ := statement_take hstmt
    change k' ∈ (before ++ (ledger.db.outboxEvents.find? event.id).toList).map OutboxEvent.id at hk
    rw [List.map_append, List.mem_append] at hk
    rcases hk with hk | hk
    · exact .inr hk
    · obtain ⟨row, hrow, rfl⟩ := List.mem_map.mp hk
      exact .inl (Table.key_of_find? (Option.mem_toList.mp hrow))
  skip := by
    intro t k qualifies taken skipped k' hstmt hk
    obtain ⟨turn, event, events, before, rfl, rfl, rfl, rfl, rfl⟩ := statement_take hstmt
    exact hk
  read := by
    intro t next ledger k hstmt hk
    obtain ⟨turn, rfl, rfl⟩ := statement_read hstmt
    exact absurd hk List.not_mem_nil

theorem knows_follows : SkipLocked.Follows (statement out) starts knows where
  start := by
    intro ledger t ht
    cases t with
    | opened turn => trivial
    | locking turn candidates taken => exact absurd ht (by simp [starts])
    | session side began tick => trivial
  take := by
    intro ledger t k qualifies won skipped hstmt hqualifies hknows
    obtain ⟨turn, event, events, taken, rfl, rfl, rfl, rfl, rfl⟩ := statement_take hstmt
    obtain ⟨hnodup, htaken⟩ := hknows
    unfold waits at hqualifies
    rcases hfind : ledger.db.outboxEvents.find? event.id with _ | row
    · rw [hfind] at hqualifies
      exact absurd hqualifies (by simp)
    · have hwaits : row.publishedAt = none := by
        rw [hfind] at hqualifies
        simpa using hqualifies
      have hid : row.id = event.id := Table.key_of_find? hfind
      change ((((taken ++ (ledger.db.outboxEvents.find? event.id).toList) ++ events).map
        OutboxEvent.id).Nodup ∧ _)
      rw [hfind]
      constructor
      · rw [List.append_assoc]
        simpa [hid] using hnodup
      · intro e he
        rcases List.mem_append.mp he with he | he
        · exact htaken e he
        · obtain rfl : e = row := by simpa using he
          rw [hid]
          exact ⟨hfind, hwaits⟩
  skip := by
    intro ledger t k qualifies won skipped hstmt hknows
    obtain ⟨turn, event, events, taken, rfl, rfl, rfl, rfl, rfl⟩ := statement_take hstmt
    refine ⟨hknows.1.sublist (List.Sublist.map _ ?_), hknows.2⟩
    exact (List.Sublist.refl taken).append (List.sublist_cons_self event events)
  read := by
    intro ledger t next hstmt hknows
    obtain ⟨turn, rfl, rfl⟩ := statement_read hstmt
    exact ⟨candidatesOf_nodup ledger.db, fun e he => absurd he List.not_mem_nil⟩

/-- What a commit does not touch: the events that its transaction does not hold. -/
theorem commit_untouched {t : Stage} {publish : Ledger → Option Ledger} {ledger ledger' : Ledger}
    {eventId : Uuid} (hstmt : statement out t = .commit publish) (hnot : ¬holds t eventId)
    (h : publish ledger = some ledger') : Untouched ledger ledger' eventId := by
  rcases statement_commit hstmt with ⟨turn, candidates, taken, rfl, rfl⟩ | ⟨side, began, tick, rfl, rfl⟩
  · exact publishTurn_untouched hnot h
  · obtain ⟨s, hs, rfl⟩ := publishSession_eq_some h
    exact hs.untouched ledger.dispatches eventId

theorem commit_delivered {t : Stage} {publish : Ledger → Option Ledger} {ledger ledger' : Ledger}
    (hstmt : statement out t = .commit publish) (hknows : knows ledger t) (hdelivered : Delivered ledger)
    (h : publish ledger = some ledger') : Delivered ledger' := by
  rcases statement_commit hstmt with ⟨turn, candidates, taken, rfl, rfl⟩ | ⟨side, began, tick, rfl, rfl⟩
  · obtain ⟨hnodup, htaken⟩ := hknows
    rw [List.map_append] at hnodup
    exact publishTurn_delivered (List.nodup_append.mp hnodup).1 htaken hdelivered h
  · obtain ⟨s, hs, rfl⟩ := publishSession_eq_some h
    have hbefore : Delivered ⟨ledger.db, ledger.dispatches⟩ := hdelivered
    exact hbefore.spares hs

theorem knows_local : SkipLocked.Local (statement out) holds Untouched knows :=
  fun _ _ _ _ _ hstmt _ h hnot => commit_untouched hstmt hnot h

theorem knows_stable : SkipLocked.Stable holds Untouched knows := by
  intro t ledger ledger' hkept hknows
  cases t with
  | opened turn => trivial
  | session side began tick => trivial
  | locking turn candidates taken =>
      refine ⟨hknows.1, fun e he => ?_⟩
      obtain ⟨hfind, hwaits⟩ := hknows.2 e he
      exact ⟨(hkept e.id (List.mem_map_of_mem he)).row e hfind, hwaits⟩

/-- A published event is settled: it stays as it is, and no dispatch of it is added. -/
def Settled (ledger ledger' : Ledger) : Prop :=
  ∀ e ∈ ledger.db.outboxEvents, e.publishedAt ≠ none →
    e ∈ ledger'.db.outboxEvents ∧ ledger'.of e.id = ledger.of e.id

theorem Settled.trans {ledger ledger' ledger'' : Ledger} (h : Settled ledger ledger')
    (h' : Settled ledger' ledger'') : Settled ledger ledger'' := by
  intro e he hpublished
  obtain ⟨he', hof'⟩ := h e he hpublished
  obtain ⟨he'', hof''⟩ := h' e he' hpublished
  exact ⟨he'', hof''.trans hof'⟩

/-- A commit holds no event that is published. -/
theorem commit_settled {t : Stage} {publish : Ledger → Option Ledger} {ledger ledger' : Ledger}
    (hstmt : statement out t = .commit publish) (hknows : knows ledger t)
    (h : publish ledger = some ledger') : Settled ledger ledger' := by
  intro e he hpublished
  have hfind := Table.find?_of_mem he
  have hnot : ¬holds t e.id := by
    cases t with
    | opened turn => exact id
    | session side began tick => exact id
    | locking turn candidates taken =>
        intro hmem
        obtain ⟨e', he', hid⟩ := List.mem_map.mp hmem
        obtain ⟨hfind', hwaits⟩ := hknows.2 e' he'
        rw [hid, hfind] at hfind'
        obtain rfl := Option.some.inj hfind'
        exact hpublished hwaits
  have huntouched := commit_untouched hstmt hnot h
  exact ⟨Table.mem_of_find? (huntouched.row e hfind), huntouched.dispatches⟩

/-- No transaction is in flight, and nothing has been dispatched yet. -/
structure Undispatched (s : DispatchState) : Prop where
  quiet : s.Quiet
  dispatches : s.store.dispatches = []
  waiting : ∀ e ∈ s.store.db.outboxEvents, e.publishedAt = none

theorem Undispatched.delivered {s : DispatchState} (h : Undispatched s) : Delivered s.store := by
  have hof : ∀ eventId, s.store.of eventId = [] := by
    intro eventId
    rw [Ledger.of, h.dispatches]
    rfl
  constructor
  · exact fun e _ _ => hof e.id
  · exact fun e he hpublished => absurd (h.waiting e he) hpublished
  · rw [h.dispatches]
    exact fun d hd => absurd hd List.not_mem_nil
  · rw [h.dispatches]
    exact List.nodup_nil
  · rw [h.dispatches]
    exact fun d hd => absurd hd List.not_mem_nil

/-- **Every event is dispatched exactly once**, however the turns of the workers and the other sessions
interleave, and whichever of them are rolled back: in every state, what is committed is delivered, and
from then on what is published stays settled. -/
theorem exactly_once {s t : DispatchState} {es : List (ReadCommitted.Event Stage)} (h₀ : Undispatched s)
    (hrun : Runs.run (dispatchStep out) s es = some t) :
    Delivered t.store ∧ ∀ es' u, Runs.run (dispatchStep out) t es' = some u → Settled t.store u.store := by
  have hinv : SkipLocked.Inv holds knows Delivered t :=
    SkipLocked.inv_of_run discipline knows_local knows_stable knows_follows
      (fun _ _ _ _ hstmt hknows hdelivered h => commit_delivered hstmt hknows hdelivered h)
      ⟨.of_quiet h₀.quiet, .of_quiet h₀.quiet, h₀.delivered⟩ hrun
  refine ⟨hinv.store, fun es' u hrun' => ?_⟩
  have hsettled : SkipLocked.Inv holds knows (Settled t.store) u :=
    SkipLocked.inv_of_run discipline knows_local knows_stable knows_follows
      (fun _ _ _ _ hstmt hknows hsettled h => hsettled.trans (commit_settled hstmt hknows h))
      ⟨hinv.held, hinv.knows, fun e he _ => ⟨he, rfl⟩⟩ hrun'
  exact hsettled.store

/-! ### A worker alone -/

theorem mem_candidatesOf {db : Db} {e : OutboxEvent} (h : e ∈ candidatesOf db) :
    db.outboxEvents.find? e.id = some e ∧ e.publishedAt = none := by
  have hperm := List.perm_insertionSort (fun a b : OutboxEvent =>
    a.createdAt.before b.createdAt ∨ (¬b.createdAt.before a.createdAt ∧ a.id ≤ b.id))
    (db.outboxEvents.select fun e => e.publishedAt.isNone)
  obtain ⟨hmem, hwaits⟩ := List.mem_filter.mp (hperm.subset h)
  exact ⟨Table.find?_of_mem hmem, by simpa using hwaits⟩

/-- A turn that finds no row locked takes its candidates in order, until there are fifty. -/
theorem locking_alone {turn : Turn} {i : ℕ} {candidates taken : List OutboxEvent} {s : DispatchState}
    (halone : ReadCommitted.Alone s i (.locking turn candidates taken))
    (hcandidates : ∀ e ∈ candidates, s.store.db.outboxEvents.find? e.id = some e ∧ e.publishedAt = none)
    (hle : taken.length ≤ 50) :
    ∃ n s' rest, Runs.run (dispatchStep out) s (List.replicate n (.exec i)) = some s' ∧
      s'.store = s.store ∧
      s'.txn i = some (.locking turn rest (taken ++ candidates.take (50 - taken.length))) ∧
      statement out (.locking turn rest (taken ++ candidates.take (50 - taken.length))) =
        .commit (publishTurn out turn (taken ++ candidates.take (50 - taken.length))) := by
  induction candidates generalizing s taken with
  | nil =>
      refine ⟨0, s, [], rfl, rfl, ?_, ?_⟩
      · rw [List.take_nil, List.append_nil]
        exact halone.at_
      · exact statement_nil _ _
  | cons event events ih =>
      by_cases hfull : taken.length = 50
      · refine ⟨0, s, event :: events, rfl, rfl, ?_, ?_⟩
        · rw [hfull, Nat.sub_self, List.take_zero, List.append_nil]
          exact halone.at_
        · rw [hfull, Nat.sub_self, List.take_zero, List.append_nil, statement_cons, if_pos hfull]
      · obtain ⟨hfind, hwaits⟩ := hcandidates event List.mem_cons_self
        have hqualifies : waits event.id s.store = true := by
          rw [waits, hfind]
          simp [hwaits]
        have hstep : dispatchStep out s (.exec i) =
            some (s.acquire i event.id (.locking turn events (taken ++ [event]))) := by
          rw [dispatchStep, SkipLocked.step, halone.at_, Option.map_some, SkipLocked.execute, statement_cons,
            if_neg hfull]
          dsimp only
          rw [if_pos ⟨halone.rows _, hqualifies⟩, hfind]
          rfl
        have hlength : (taken ++ [event]).length = taken.length + 1 := List.length_append
        obtain ⟨n, s', rest, hrun, hstore, hat, hstatement⟩ := ih
          (halone.acquire event.id (.locking turn events (taken ++ [event])))
          (fun e he => hcandidates e (List.mem_cons_of_mem _ he)) (by omega)
        have htake : taken ++ (event :: events).take (50 - taken.length) =
            (taken ++ [event]) ++ events.take (50 - (taken ++ [event]).length) := by
          obtain ⟨k, hk⟩ : ∃ k, 50 - taken.length = k + 1 := ⟨49 - taken.length, by omega⟩
          rw [hk, List.take_succ_cons, hlength, List.append_assoc]
          have hk' : 50 - (taken.length + 1) = k := by omega
          rw [hk']
          rfl
        rw [htake]
        exact ⟨n + 1, s', rest, Runs.run_cons_eq_some.mpr ⟨_, hstep, hrun⟩, hstore, hat, hstatement⟩

/-- **A worker alone** dispatches the events that `dispatch_outbox` selects, and leaves what its turn leaves when it
runs by itself. -/
theorem alone_dispatches {turn : Turn} {s : DispatchState} (hidle : ReadCommitted.Idle s) (i : ℕ) :
    ∃ n s' rest, Runs.run (dispatchStep out) s (.start i (.opened turn) :: List.replicate n (.exec i)) =
        some s' ∧ s'.store = s.store ∧ s'.txn i = some (.locking turn rest (waitingEvents s.store.db)) ∧
      statement out (.locking turn rest (waitingEvents s.store.db)) =
        .commit (publishTurn out turn (waitingEvents s.store.db)) ∧
      ∀ ledger, publishTurn out turn (waitingEvents s.store.db) s.store = some ledger →
        ledger.db = (turn.whole out { db := s.store.db, began := turn.began, tick := turn.tick }).2.db := by
  have hstart : dispatchStep out s (.start i (.opened turn)) = some (s.goOn i (.opened turn)) := by
    simp [dispatchStep, SkipLocked.step, hidle.quiet i, starts]
  have hopened := hidle.alone i (.opened turn)
  have hread : dispatchStep out (s.goOn i (.opened turn)) (.exec i) =
      some ((s.goOn i (.opened turn)).goOn i (.locking turn (candidatesOf s.store.db) [])) := by
    rw [dispatchStep, SkipLocked.step, hopened.at_]
    rfl
  obtain ⟨n, s', rest, hrun, hstore, hat, hstatement⟩ :=
    locking_alone (hopened.goOn (.locking turn (candidatesOf s.store.db) []))
      (fun e he => mem_candidatesOf he) (Nat.zero_le _)
  refine ⟨n + 1, s', rest, ?_, hstore, hat, hstatement, fun _ => publishTurn_whole⟩
  exact Runs.run_cons_eq_some.mpr ⟨_, hstart, Runs.run_cons_eq_some.mpr ⟨_, hread, hrun⟩⟩

/-! ### A closed conversation -/

def dispatchOutside : Outside :=
  .sample (.sample 1767268800000000 []) (fun _ _ => .error (.other "")) fun _ => .error .null

/-- A new event waits. -/
theorem addEvent_spares {rt : Runtime} {event : OutboxEvent} (hwaits : event.publishedAt = none) :
    Tx.Keeps Spares (Db.outboxEvent.add rt event) := by
  intro s
  rcases hs : Db.outboxEvent.add rt event s with ⟨e | u, s'⟩
  · rw [(Relation.add_error hs).1]
    exact .of_same rfl
  · obtain ⟨t, ht, rfl⟩ := Relation.add_eq_ok hs
    have hinsert : s.db.outboxEvents.insert? event = some t := (Relation.insertRow_eq_ok ht).1
    refine ⟨fun e he => (Table.mem_insert? hinsert).mpr (.inl he), fun e he => ?_,
      fun job hjob => ⟨job, hjob, rfl⟩⟩
    rcases (Table.mem_insert? hinsert).mp he with hold | rfl
    · exact .inl hold
    · exact .inr hwaits

/-- A session that publishes an event of a conversation. -/
def publishing (rt : Runtime) (conversationId : Uuid) (eventType : String) (payload : Json)
    (sequence : ℤ) : SideWork where
  work := ConversationService.publish rt conversationId eventType payload sequence
  spares := by
    have hid : Tx.Keeps Spares (newUuid rt) := fun _ => .of_same rfl
    exact hid.bind fun id => (Tx.Keeps.gets _).bind fun began => addEvent_spares rfl

/-- A turn that handles no job. -/
def idleTurn : Turn where
  maintenance := false
  workerId := "worker"
  kinds := []
  locked _ := false
  handlers _ := none
  began := .utc 1767268800000000
  tick := 1

/-- A conversation is closed, and a worker dispatches the event of that. -/
def closedThenDispatched : List (ReadCommitted.Event Stage) :=
  [.start 0 (.session (publishing dispatchOutside.toRuntime 2 "conversation.closed" (.obj []) 1)
      (.utc 1767268800000000) 0), .exec 0,
    .start 1 (.opened idleTurn), .exec 1, .exec 1, .exec 1]

def emptyDispatchState : DispatchState where
  store := ⟨{}, []⟩
  owner _ := none
  txn _ := none

theorem exactly_once_closed : ∃ t, Runs.run (dispatchStep dispatchOutside) emptyDispatchState
      closedThenDispatched = some t ∧
    t.store.db.backgroundJobs.rows.map BackgroundJob.kind = ["conversation_finalize", "conversation_index"] ∧
    Delivered t.store := by
  have hrun : (match Runs.run (dispatchStep dispatchOutside) emptyDispatchState closedThenDispatched with
      | some t => decide (t.store.db.backgroundJobs.rows.map BackgroundJob.kind =
          ["conversation_finalize", "conversation_index"])
      | none => false) = true := by
    decide +kernel
  rcases ht : Runs.run (dispatchStep dispatchOutside) emptyDispatchState closedThenDispatched with _ | t <;>
    simp only [ht] at hrun
  · simp at hrun
  · refine ⟨t, rfl, of_decide_eq_true hrun, (exactly_once ?_ ht).1⟩
    exact ⟨fun _ => rfl, rfl, fun e he => absurd he List.not_mem_nil⟩

end KajovoDagmar.Worker
