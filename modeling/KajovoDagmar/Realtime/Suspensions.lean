import KajovoDagmar.Realtime.Registry

/-! # The fates of suspended sessions

In a run whose queries can be read, a suspended session is taken over once or expires once (`suspension_fate`).  As
long as no step loses a conversation of itself, every active conversation stays within reach of a connection or of a
task that will end it (`in_reach`).  -/

namespace KajovoDagmar.Realtime

namespace Registry

/-! ### What becomes of a suspension -/

def Event.takes (task : ℕ) : Event → Bool
  | taken task' _ => task' = task
  | _ => false

def Event.expires (task : ℕ) : Event → Bool
  | expired task' => task' = task
  | _ => false

def Event.loses (task : ℕ) : Event → Bool
  | lost task' _ => task' = task
  | _ => false

/-- How often a suspension has been taken over by a connection. -/
def takeovers (w : Server) (task : ℕ) : ℕ := w.journal.countP (Event.takes task)

/-- How often it has expired. -/
def expirations (w : Server) (task : ℕ) : ℕ := w.journal.countP (Event.expires task)

/-- How often its conversation has been ended as lost. -/
def losses (w : Server) (task : ℕ) : ℕ := w.journal.countP (Event.loses task)

/-- The three numbers. -/
def counts (w : Server) (task : ℕ) : ℕ × ℕ × ℕ := (takeovers w task, expirations w task, losses w task)

theorem counts_note (w : Server) (e : Event) (task : ℕ) :
    counts (w.note e) task = ((counts w task).1 + (if e.takes task then 1 else 0),
      (counts w task).2.1 + (if e.expires task then 1 else 0),
        (counts w task).2.2 + (if e.loses task then 1 else 0)) := by
  simp only [counts, takeovers, expirations, losses, Server.note, List.countP_append, List.countP_singleton]

/-- A suspension is pending, claimed by a connection that awaits its task, taken over, ending or over. -/
inductive Fate (w : Server) (task : ℕ) : Prop where
  | pending (hstage : (w.tasks task).stage = .created ∨ (w.tasks task).stage = .sleeping)
    (halive : (w.tasks task).cancelled = false) (id : Uuid)
    (hregistered : w.sessions id = some (w.tasks task).session)
    (htask : (w.states (w.tasks task).session).expirationTask = some task) (hcounts : counts w task = (0, 0, 0))
  | claimed (handler : ℕ) (hhandler : w.handlers handler = .waiting (w.tasks task).session task)
    (hending : ∀ id, (w.tasks task).stage ≠ .ending id)
    (hcancelled : (w.tasks task).stage = .done ∨ (w.tasks task).cancelled = true)
    (hcounts : counts w task = (0, 0, 0))
  | taken (hstage : (w.tasks task).stage = .done)
      (hfree : ∀ handler session, w.handlers handler ≠ .waiting session task)
    (hcounts : counts w task = (1, 0, 0))
  | ending (id : Uuid) (hstage : (w.tasks task).stage = .ending id) (halive : (w.tasks task).cancelled = false)
    (hfree : ∀ handler session, w.handlers handler ≠ .waiting session task) (hcounts : counts w task = (0, 1, 0))
  | over (hstage : (w.tasks task).stage = .done)
      (hfree : ∀ handler session, w.handlers handler ≠ .waiting session task)
    (n : ℕ) (hn : n ≤ 1) (hcounts : counts w task = (0, 1, n))

/-- What holds of every server that is reached without a garbled query. -/
structure Tracked (w : Server) : Prop where
  valid : Valid w
  fate : ∀ task, task < w.nextTask → Fate w task
  unborn : ∀ task, w.nextTask ≤ task → (w.tasks task).stage = .done ∧ counts w task = (0, 0, 0)
  /-- A registered session has a task that will end it. -/
  guarded : ∀ id session, w.sessions id = some session → ∃ task, task < w.nextTask ∧
    (w.states session).expirationTask = some task ∧ (w.tasks task).session = session ∧
    (w.tasks task).cancelled = false ∧ ((w.tasks task).stage = .created ∨ (w.tasks task).stage = .sleeping)
  waits : ∀ handler session task, w.handlers handler = .waiting session task →
    task < w.nextTask ∧ (w.tasks task).session = session
  idle : ∀ handler, w.nextHandler ≤ handler → w.handlers handler = .left

theorem tracked_initial : Tracked {} where
  valid := valid_initial
  fate := fun _ h => absurd h (Nat.not_lt_zero _)
  unborn := fun _ _ => ⟨rfl, rfl⟩
  guarded := fun id session h => absurd h (holds_initial (.registry id) session)
  waits := fun handler session task h => by
    have hleft : Handler.left = .waiting session task := h
    exact absurd hleft (by simp)
  idle := fun _ _ => rfl

section tracked

variable {rt : Runtime} {w w' : Server}

/-- Tasks, the registry and the connections that await tasks stay as they are. -/
theorem Tracked.frame (ht : Tracked w) (hv : Valid w') (htasks : w'.tasks = w.tasks)
    (hnext : w'.nextTask = w.nextTask)
    (hjournal : w'.journal = w.journal) (hsessions : w'.sessions = w.sessions)
    (hstates : ∀ id session, w.sessions id = some session →
      (w'.states session).expirationTask = (w.states session).expirationTask)
    (hwaits : ∀ handler session task, w'.handlers handler = .waiting session task ↔
      w.handlers handler = .waiting session task)
    (hidle : ∀ handler, w'.nextHandler ≤ handler → w'.handlers handler = .left) : Tracked w' := by
  have hcounts : ∀ task, counts w' task = counts w task := fun task => by
    rw [counts, takeovers, expirations, losses, hjournal]
    rfl
  have hfree : ∀ task, (∀ handler session, w.handlers handler ≠ .waiting session task) →
      ∀ handler session, w'.handlers handler ≠ .waiting session task :=
    fun task h handler session hw => h handler session ((hwaits handler session task).mp hw)
  refine ⟨hv, fun task hlt => ?_, fun task hle => ?_, fun id session h => ?_, fun handler session task h => ?_, hidle⟩
  · rw [hnext] at hlt
    rcases ht.fate task hlt with ⟨hstage, halive, id, hregistered, htask, hzero⟩ |
      ⟨handler, hhandler, hending, hcancelled, hzero⟩ | ⟨hstage, hnone, hone⟩ | ⟨id, hstage, halive, hnone, hone⟩ |
      ⟨hstage, hnone, n, hn, hover⟩
    · exact .pending (htasks ▸ hstage) (htasks ▸ halive) id (by rw [hsessions, htasks, hregistered])
        (by rw [htasks, hstates id _ hregistered, htask]) ((hcounts task).trans hzero)
    · exact .claimed handler (by rw [hwaits, htasks, hhandler]) (htasks ▸ hending) (htasks ▸ hcancelled)
        ((hcounts task).trans hzero)
    · exact .taken (htasks ▸ hstage) (hfree task hnone) ((hcounts task).trans hone)
    · exact .ending id (htasks ▸ hstage) (htasks ▸ halive) (hfree task hnone) ((hcounts task).trans hone)
    · exact .over (htasks ▸ hstage) (hfree task hnone) n hn ((hcounts task).trans hover)
  · rw [hnext] at hle
    obtain ⟨hdone, hzero⟩ := ht.unborn task hle
    exact ⟨htasks ▸ hdone, (hcounts task).trans hzero⟩
  · rw [hsessions] at h
    obtain ⟨task, hlt, hexpiration, hrest⟩ := ht.guarded id session h
    exact ⟨task, hnext ▸ hlt, (hstates id session h).trans hexpiration, htasks ▸ hrest⟩
  · obtain ⟨hlt, hsession⟩ := ht.waits handler session task ((hwaits handler session task).mp h)
    exact ⟨hnext ▸ hlt, htasks ▸ hsession⟩

/-- A handler that goes on otherwise than by awaiting a task. -/
theorem waits_setHandler {handler : ℕ} {a : Handler} (ha : ∀ session task, a ≠ .waiting session task)
    (hold : ∀ session task, w.handlers handler ≠ .waiting session task) (other session task : ℕ) :
    (w.setHandler handler a).handlers other = .waiting session task ↔ w.handlers other = .waiting session task := by
  by_cases hother : other = handler
  · subst hother
    have hself : (w.setHandler other a).handlers other = a := Function.update_self ..
    rw [hself]
    exact iff_of_false (ha session task) (hold session task)
  · have hne : (w.setHandler handler a).handlers other = w.handlers other := Function.update_of_ne hother ..
    rw [hne]

theorem Tracked.idle_setHandler (ht : Tracked w) {handler : ℕ} {a : Handler} (hold : w.handlers handler ≠ .left)
    (other : ℕ) (hle : w.nextHandler ≤ other) : (w.setHandler handler a).handlers other = .left := by
  have hne : other ≠ handler := fun heq => hold (ht.idle handler (heq ▸ hle))
  have hother : (w.setHandler handler a).handlers other = w.handlers other := Function.update_of_ne hne ..
  rw [hother]
  exact ht.idle other hle

/-- A handler's state changes, and the handler goes on. -/
theorem Tracked.goOn (ht : Tracked w) {handler session : ℕ} {s : ConnectionState} {a : Handler}
    (hv : Valid ((w.setState session s).setHandler handler a)) (hheld : (w.handlers handler).session? = some session)
    (hold : ∀ session task, w.handlers handler ≠ .waiting session task)
    (ha : ∀ session task, a ≠ .waiting session task) :
    Tracked ((w.setState session s).setHandler handler a) := by
  have hleft : w.handlers handler ≠ .left := by
    intro heq
    rw [heq] at hheld
    exact absurd hheld (by simp [Handler.session?])
  refine ht.frame hv rfl rfl rfl rfl (fun id other hother => ?_) (fun n => waits_setHandler ha hold n)
    (ht.idle_setHandler hleft)
  have hne : other ≠ session := by
    rintro rfl
    exact (ht.valid.not_registered hheld).1 id hother
  have hstate : (w.setState session s).states other = w.states other := Function.update_of_ne hne ..
  exact congrArg ConnectionState.expirationTask hstate

/-- A handler goes on with its state as it is, or leaves. -/
theorem Tracked.move (ht : Tracked w) {handler session : ℕ} {a : Handler} (hv : Valid (w.setHandler handler a))
    (hheld : (w.handlers handler).session? = some session)
    (hold : ∀ session task, w.handlers handler ≠ .waiting session task)
    (ha : ∀ session task, a ≠ .waiting session task) :
    Tracked (w.setHandler handler a) := by
  have hleft : w.handlers handler ≠ .left := by
    intro heq
    rw [heq] at hheld
    exact absurd hheld (by simp [Handler.session?])
  exact ht.frame hv rfl rfl rfl rfl (fun _ _ _ => rfl) (fun n => waits_setHandler ha hold n)
    (ht.idle_setHandler hleft)

/-- A connection with a state of its own, without a garbled query. -/
theorem Tracked.connect_refused (ht : Tracked w) {accountId : Uuid} {query : Query}
    (hrefused : (handshake rt w accountId query).2 = none) (hread : ¬Garbled rt w query) :
    Tracked (connect rt w accountId query) := by
  have hv := ht.valid.connect_refused hrefused
  have hsessions := (handshake_keeps_iff ht.valid.keyed hrefused).mpr hread
  rw [Registry.connect_refused hrefused] at hv ⊢
  refine ht.frame hv rfl rfl rfl hsessions (fun id session h => ?_) (fun handler session task => ?_)
    (fun handler h => ?_)
  · have hne : session ≠ w.nextState := Nat.ne_of_lt (ht.valid.below (.registry id) session h)
    have hstate : Function.update w.states w.nextState (.new accountId) session = w.states session :=
      Function.update_of_ne hne ..
    exact congrArg ConnectionState.expirationTask hstate
  · refine waits_setHandler (a := .accepting w.nextState false) (by simp)
      (fun session task heq => ?_) handler session task
    rw [ht.idle w.nextHandler (Nat.le_refl _)] at heq
    exact absurd heq (by simp)
  · have hlt : w.nextHandler < handler := h
    have hother : Function.update w.handlers w.nextHandler (.accepting w.nextState false) handler =
        w.handlers handler :=
      Function.update_of_ne (Nat.ne_of_gt hlt) ..
    exact hother.trans (ht.idle handler (Nat.le_of_lt hlt))

/-- The suspension of a registered session is pending. -/
theorem Tracked.pending (ht : Tracked w) {id : Uuid} {session : ℕ} (h : w.sessions id = some session) :
    ∃ task, task < w.nextTask ∧ (w.states session).expirationTask = some task ∧ (w.tasks task).session = session ∧
      ((w.tasks task).stage = .created ∨ (w.tasks task).stage = .sleeping) ∧ (w.tasks task).cancelled = false ∧
      counts w task = (0, 0, 0) := by
  obtain ⟨task, hlt, hexpiration, hsession, halive, hstage⟩ := ht.guarded id session h
  refine ⟨task, hlt, hexpiration, hsession, hstage, halive, ?_⟩
  have hnotDone : (w.tasks task).stage ≠ .done := by
    rcases hstage with hstage | hstage
    · rw [hstage]
      simp
    · rw [hstage]
      simp
  rcases ht.fate task hlt with ⟨-, -, -, -, -, hzero⟩ | ⟨_, -, -, -, hzero⟩ | ⟨hdone, -, -⟩ |
    ⟨id', hending, -, -, -⟩ |
    ⟨hdone, -, -, -, -⟩
  · exact hzero
  · exact hzero
  · exact absurd hdone hnotDone
  · rcases hstage with hstage | hstage
    · exact absurd (hstage.symm.trans hending) (by simp)
    · exact absurd (hstage.symm.trans hending) (by simp)
  · exact absurd hdone hnotDone

/-- A connection that takes over a suspended session claims its suspension. -/
theorem Tracked.connect_granted (ht : Tracked w) {accountId : Uuid} {query : Query} {suspended : ℕ}
    (hgranted : (handshake rt w accountId query).2 = some suspended) :
    Tracked (connect rt w accountId query) := by
  have hv := ht.valid.connect_granted hgranted
  obtain ⟨id, -, hid, hsessions⟩ := handshake_taken hgranted
  obtain ⟨claimed, hlt, hexpiration, hsession, hstage, halive, hzero⟩ := ht.pending hid
  rw [connect, hgranted] at hv ⊢
  simp only [hexpiration, hsessions] at hv ⊢
  have hself : Function.update w.tasks claimed { w.tasks claimed with cancelled := true } claimed =
      { w.tasks claimed with cancelled := true } := Function.update_self ..
  have hother : ∀ task, task ≠ claimed →
      Function.update w.tasks claimed { w.tasks claimed with cancelled := true } task = w.tasks task :=
    fun task hne => Function.update_of_ne hne ..
  have hnew : Function.update w.handlers w.nextHandler (.waiting suspended claimed) w.nextHandler =
      .waiting suspended claimed := Function.update_self ..
  have hhandler : ∀ handler, handler ≠ w.nextHandler →
      Function.update w.handlers w.nextHandler (.waiting suspended claimed) handler = w.handlers handler :=
    fun handler hne => Function.update_of_ne hne ..
  have hkept : ∀ handler session task, w.handlers handler = .waiting session task →
      Function.update w.handlers w.nextHandler (.waiting suspended claimed) handler = .waiting session task := by
    intro handler session task hw
    have hne : handler ≠ w.nextHandler := by
      rintro rfl
      rw [ht.idle w.nextHandler (Nat.le_refl _)] at hw
      exact absurd hw (by simp)
    rwa [hhandler handler hne]
  have hfree : ∀ task, task ≠ claimed → (∀ handler session, w.handlers handler ≠ .waiting session task) →
      ∀ handler session, Function.update w.handlers w.nextHandler (.waiting suspended claimed) handler ≠
        .waiting session task := by
    intro task hne hnone handler session hw
    by_cases hh : handler = w.nextHandler
    · rw [hh, hnew] at hw
      exact hne (Handler.waiting.inj hw).2.symm
    · rw [hhandler handler hh] at hw
      exact hnone handler session hw
  refine ⟨hv, fun task htask => ?_, fun task hle => ?_, fun id' session h => ?_, fun handler session task h => ?_,
    fun handler h => ?_⟩
  · by_cases hclaimed : task = claimed
    · subst hclaimed
      refine .claimed w.nextHandler ?_ (fun id' h => ?_) (.inr ?_) hzero
      · change Function.update w.handlers w.nextHandler (.waiting suspended task) w.nextHandler = _
        change _ =
          Handler.waiting (Function.update w.tasks task { w.tasks task with cancelled := true } task).session task
        rw [hself, hnew]
        dsimp only
        rw [hsession]
      · change (Function.update w.tasks task { w.tasks task with cancelled := true } task).stage = .ending id' at h
        rw [hself] at h
        rcases hstage with hstage | hstage
        · exact absurd (hstage.symm.trans h) (by simp)
        · exact absurd (hstage.symm.trans h) (by simp)
      · change (Function.update w.tasks task { w.tasks task with cancelled := true } task).cancelled = true
        rw [hself]
    · have hsame := hother task hclaimed
      rcases ht.fate task htask with ⟨hstage', halive', id', hregistered, htask', hzero'⟩ |
        ⟨handler, hhandler', hending, hcancelled, hzero'⟩ | ⟨hstage', hnone, hone⟩ |
          ⟨id', hstage', halive', hnone, hone⟩ |
        ⟨hstage', hnone, n, hn, hover⟩
      · refine .pending (by rwa [← hsame] at hstage') (by rwa [← hsame] at halive') id' ?_ ?_ hzero'
        · change Function.update w.sessions id none id' = some (Function.update w.tasks claimed _ task).session
          rw [hsame]
          have hne : id' ≠ id := by
            rintro rfl
            have heq : (w.tasks task).session = suspended := Option.some.inj (hregistered.symm.trans hid)
            rw [heq, hexpiration] at htask'
            exact hclaimed (Option.some.inj htask').symm
          rwa [Function.update_of_ne hne]
        · change (w.states (Function.update w.tasks claimed _ task).session).expirationTask = some task
          rwa [hsame]
      · refine .claimed handler ?_ (by rwa [← hsame] at hending) (by rwa [← hsame] at hcancelled) hzero'
        change _ = Handler.waiting (Function.update w.tasks claimed _ task).session task
        rw [hsame]
        exact hkept handler _ _ hhandler'
      · exact .taken (by rwa [← hsame] at hstage') (hfree task hclaimed hnone) hone
      · exact .ending id' (by rwa [← hsame] at hstage') (by rwa [← hsame] at halive') (hfree task hclaimed hnone) hone
      · exact .over (by rwa [← hsame] at hstage') (hfree task hclaimed hnone) n hn hover
  · have hne : task ≠ claimed := Nat.ne_of_gt (hlt.trans_le hle)
    obtain ⟨hdone, hzero'⟩ := ht.unborn task hle
    refine ⟨?_, hzero'⟩
    change (Function.update w.tasks claimed _ task).stage = .done
    rwa [hother task hne]
  · change Function.update w.sessions id none id' = some session at h
    have hne : id' ≠ id := by
      rintro rfl
      rw [Function.update_self] at h
      exact absurd h (by simp)
    rw [Function.update_of_ne hne] at h
    obtain ⟨task, hlt', hexpiration', hsession', hrest⟩ := ht.guarded id' session h
    have hclaimed : task ≠ claimed := by
      rintro rfl
      have hregistered : Holds w (.registry id') suspended := by
        rw [← hsession, hsession']
        exact h
      exact hne (Custodian.registry.inj (ht.valid.single _ _ _ hregistered hid))
    rw [← hother task hclaimed] at hsession' hrest
    exact ⟨task, hlt', hexpiration', hsession', hrest⟩
  · change Function.update w.handlers w.nextHandler (.waiting suspended claimed) handler = .waiting session task at h
    change task < w.nextTask ∧ (Function.update w.tasks claimed _ task).session = session
    by_cases hh : handler = w.nextHandler
    · rw [hh, hnew] at h
      obtain ⟨rfl, rfl⟩ := Handler.waiting.inj h
      exact ⟨hlt, by rw [hself]; exact hsession⟩
    · rw [hhandler handler hh] at h
      obtain ⟨hlt', hsession'⟩ := ht.waits handler session task h
      refine ⟨hlt', ?_⟩
      by_cases hclaimed : task = claimed
      · rw [hclaimed, hself]
        exact hclaimed ▸ hsession'
      · rwa [hother task hclaimed]
  · have hlt' : w.nextHandler < handler := h
    exact (hhandler handler (Nat.ne_of_gt hlt')).trans (ht.idle handler (Nat.le_of_lt hlt'))

/-- The connection that awaits a task takes its session over. -/
theorem Tracked.proceed (ht : Tracked w) {handler session task : ℕ}
    (hhandler : w.handlers handler = .waiting session task)
    (hdone : (w.tasks task).stage = .done)
    (hv : Valid (((w.setState session (takenOver (w.states session))).setHandler handler
      (.accepting session true)).note
      (.taken task handler))) :
    Tracked (((w.setState session (takenOver (w.states session))).setHandler handler (.accepting session true)).note
      (.taken task handler)) := by
  obtain ⟨hlt, hsession⟩ := ht.waits handler session task hhandler
  have hheld : (w.handlers handler).session? = some session := by
    rw [hhandler]
    rfl
  have hself : Function.update w.handlers handler (.accepting session true) handler = .accepting session true :=
    Function.update_self ..
  have hother : ∀ other, other ≠ handler →
      Function.update w.handlers handler (.accepting session true) other = w.handlers other :=
    fun other hne => Function.update_of_ne hne ..
  have hstate : ∀ id other, w.sessions id = some other →
      (Function.update w.states session (takenOver (w.states session)) other).expirationTask =
        (w.states other).expirationTask := by
    intro id other h
    have hne : other ≠ session := by
      rintro rfl
      exact (ht.valid.not_registered hheld).1 id h
    rw [Function.update_of_ne hne]
  have hkept : ∀ other s t, Function.update w.handlers handler (.accepting session true) other = .waiting s t →
      w.handlers other = .waiting s t ∧ other ≠ handler := by
    intro other s t h
    by_cases hne : other = handler
    · rw [hne, hself] at h
      exact absurd h (by simp)
    · rw [hother other hne] at h
      exact ⟨h, hne⟩
  have hcounts : ∀ t, t ≠ task → counts (((w.setState session (takenOver (w.states session))).setHandler handler
      (.accepting session true)).note (.taken task handler)) t = counts w t := by
    intro t hne
    rw [counts_note]
    simp only [Event.takes, Event.expires, Event.loses, Ne.symm hne, decide_false, Bool.false_eq_true, if_false,
      Nat.add_zero]
    rfl
  refine ⟨hv, fun t htask => ?_, fun t hle => ?_, fun id other h => ?_, fun other s t h => ?_, fun other hle => ?_⟩
  · by_cases heq : t = task
    · subst heq
      have hzero : counts w t = (0, 0, 0) := by
        rcases ht.fate t hlt with ⟨-, -, -, -, -, hzero⟩ | ⟨_, -, -, -, hzero⟩ | ⟨-, hnone, -⟩ |
          ⟨id, hstage, -, -, -⟩ | ⟨-, hnone, -, -, -⟩
        · exact hzero
        · exact hzero
        · exact absurd hhandler (hnone handler session)
        · exact absurd (hdone.symm.trans hstage) (by simp)
        · exact absurd hhandler (hnone handler session)
      refine .taken hdone (fun other s h => ?_) ?_
      · -- nobody else awaits the task: its session has one custodian
        obtain ⟨hold, hne⟩ := hkept other s t h
        obtain ⟨-, hs⟩ := ht.waits other s t hold
        have hheld' : Holds w (.handler other) session := by
          rw [Holds, hold, ← hs, hsession]
          rfl
        exact hne (Custodian.handler.inj (ht.valid.single _ _ _ hheld' hheld))
      · rw [counts_note]
        have hbase : counts ((w.setState session (takenOver (w.states session))).setHandler handler
            (.accepting session true)) t = (0, 0, 0) := hzero
        rw [hbase]
        simp [Event.takes, Event.expires, Event.loses]
    · have hfree : (∀ handler session, w.handlers handler ≠ .waiting session t) → ∀ other s,
          Function.update w.handlers handler (.accepting session true) other ≠ .waiting s t :=
        fun hnone other s h => hnone other s (hkept other s t h).1
      rcases ht.fate t htask with ⟨hstage, halive, id, hregistered, htask', hzero⟩ |
        ⟨other, hother', hending, hcancelled, hzero⟩ | ⟨hstage, hnone, hone⟩ | ⟨id, hstage, halive, hnone, hone⟩ |
        ⟨hstage, hnone, n, hn, hover⟩
      · exact .pending hstage halive id hregistered ((hstate id _ hregistered).trans htask')
          ((hcounts t heq).trans hzero)
      · have hne : other ≠ handler := by
          rintro rfl
          exact heq (Handler.waiting.inj (hother'.symm.trans hhandler)).2
        exact .claimed other ((hother other hne).trans hother') hending hcancelled ((hcounts t heq).trans hzero)
      · exact .taken hstage (hfree hnone) ((hcounts t heq).trans hone)
      · exact .ending id hstage halive (hfree hnone) ((hcounts t heq).trans hone)
      · exact .over hstage (hfree hnone) n hn ((hcounts t heq).trans hover)
  · obtain ⟨hdone', hzero⟩ := ht.unborn t hle
    exact ⟨hdone', (hcounts t (Nat.ne_of_gt (hlt.trans_le hle))).trans hzero⟩
  · obtain ⟨t, hlt', hexpiration, hrest⟩ := ht.guarded id other h
    exact ⟨t, hlt', (hstate id other h).trans hexpiration, hrest⟩
  · exact ht.waits other s t (hkept other s t h).1
  · exact ht.idle_setHandler (by rw [hhandler]; simp) other hle

/-- A handler leaves its state with a new suspension. -/
theorem Tracked.suspendAs (ht : Tracked w) {handler session : ℕ} {id : Uuid}
    (hhandler : w.handlers handler = .closing session)
    (hid : (w.states session).conversationId = some id) (hv : Valid (suspendAs w handler session id)) :
    Tracked (suspendAs w handler session id) := by
  have hheld : (w.handlers handler).session? = some session := by
    rw [hhandler]
    rfl
  have hself : Function.update w.tasks w.nextTask ⟨session, .created, false⟩ w.nextTask =
      ⟨session, .created, false⟩ :=
    Function.update_self ..
  have hother : ∀ t, t ≠ w.nextTask → Function.update w.tasks w.nextTask ⟨session, .created, false⟩ t = w.tasks t :=
    fun t hne => Function.update_of_ne hne ..
  have hregistry : ∀ id' other, w.sessions id' = some other →
      Function.update w.sessions id (some session) id' = some other ∧ other ≠ session := by
    intro id' other h
    have hne : other ≠ session := by
      rintro rfl
      exact (ht.valid.not_registered hheld).1 id' h
    refine ⟨?_, hne⟩
    rw [Function.update_of_ne]
    · exact h
    · rintro rfl
      exact hne (ht.valid.distinct other session id' (ht.valid.keyed id' other h) hid)
  have hstate : ∀ other, other ≠ session → Function.update w.states session
      { w.states session with paused := true, expirationTask := some w.nextTask } other = w.states other :=
    fun other hne => Function.update_of_ne hne ..
  have hstateSelf : Function.update w.states session
      { w.states session with paused := true, expirationTask := some w.nextTask } session =
        { w.states session with paused := true, expirationTask := some w.nextTask } := Function.update_self ..
  have hcounts : ∀ t, counts (Registry.suspendAs w handler session id) t = counts w t := by
    intro t
    have hnote : counts (Registry.suspendAs w handler session id) t =
        counts (w.note (.suspended w.nextTask session)) t := rfl
    rw [hnote, counts_note]
    simp [Event.takes, Event.expires, Event.loses]
  have hwaits : ∀ other s task, (w.setHandler handler .left).handlers other = .waiting s task ↔
      w.handlers other = .waiting s task := waits_setHandler (by simp) (by rw [hhandler]; simp)
  refine ⟨hv, fun t hlt => ?_, fun t hle => ?_, fun id' other h => ?_, fun other s t h => ?_, fun other hle => ?_⟩
  · by_cases heq : t = w.nextTask
    · subst heq
      refine .pending (.inl ?_) ?_ id ?_ ?_ ((hcounts _).trans (ht.unborn _ (Nat.le_refl _)).2)
      · exact congrArg Expiration.stage hself
      · exact congrArg Expiration.cancelled hself
      · change Function.update w.sessions id (some session) id = some
            (Function.update w.tasks w.nextTask _ w.nextTask).session
        rw [hself, Function.update_self]
      · change (Function.update w.states session _
            (Function.update w.tasks w.nextTask _ w.nextTask).session).expirationTask =
          some w.nextTask
        rw [hself, hstateSelf]
    · have hlt' : t < w.nextTask := Nat.lt_of_le_of_ne (Nat.le_of_lt_succ hlt) heq
      have hsame := hother t heq
      have hfree : (∀ handler session, w.handlers handler ≠ .waiting session t) → ∀ other s,
          Function.update w.handlers handler .left other ≠ .waiting s t :=
        fun hnone other s h => hnone other s ((hwaits other s t).mp h)
      rcases ht.fate t hlt' with ⟨hstage, halive, id', hregistered, htask', hzero⟩ |
        ⟨other, hother', hending, hcancelled, hzero⟩ | ⟨hstage, hnone, hone⟩ | ⟨id', hstage, halive, hnone, hone⟩ |
        ⟨hstage, hnone, n, hn, hover⟩
      · obtain ⟨hold, hne⟩ := hregistry id' _ hregistered
        rw [← hstate _ hne] at htask'
        rw [← hsame] at hstage halive hold htask'
        exact .pending hstage halive id' hold htask' ((hcounts t).trans hzero)
      · have hkept := (hwaits other _ t).mpr hother'
        rw [← hsame] at hending hcancelled hkept
        exact .claimed other hkept hending hcancelled ((hcounts t).trans hzero)
      · rw [← hsame] at hstage
        exact .taken hstage (hfree hnone) ((hcounts t).trans hone)
      · rw [← hsame] at hstage halive
        exact .ending id' hstage halive (hfree hnone) ((hcounts t).trans hone)
      · rw [← hsame] at hstage
        exact .over hstage (hfree hnone) n hn ((hcounts t).trans hover)
  · have hle' : w.nextTask < t := hle
    obtain ⟨hdone, hzero⟩ := ht.unborn t (Nat.le_of_lt hle')
    rw [← hother t (Nat.ne_of_gt hle')] at hdone
    exact ⟨hdone, (hcounts t).trans hzero⟩
  · change Function.update w.sessions id (some session) id' = some other at h
    by_cases hsame : id' = id
    · rw [hsame, Function.update_self] at h
      obtain rfl := Option.some.inj h
      exact ⟨w.nextTask, Nat.lt_succ_self _, congrArg ConnectionState.expirationTask hstateSelf,
        congrArg Expiration.session hself, congrArg Expiration.cancelled hself,
          .inl (congrArg Expiration.stage hself)⟩
    · rw [Function.update_of_ne hsame] at h
      obtain ⟨t, hlt, hexpiration, hrest⟩ := ht.guarded id' other h
      have hne := (hregistry id' other h).2
      rw [← hstate other hne] at hexpiration
      rw [← hother t (Nat.ne_of_lt hlt)] at hrest
      exact ⟨t, hlt.trans (Nat.lt_succ_self _), hexpiration, hrest⟩
  · obtain ⟨hlt, hsession⟩ := ht.waits other s t ((hwaits other s t).mp h)
    rw [← hother t (Nat.ne_of_lt hlt)] at hsession
    exact ⟨hlt.trans (Nat.lt_succ_self _), hsession⟩
  · exact ht.idle_setHandler (by rw [hhandler]; simp) other hle

/-- The fates of the other suspensions when a task goes on. -/
theorem Fate.other {task t : ℕ} {e : Expiration} {sessions : Uuid → Option ℕ} {states : ℕ → ConnectionState}
    {active : Uuid → Bool} {journal : List Event} (hne : t ≠ task) (h : Fate w t)
    (hsessions : ∀ id, w.sessions id = some (w.tasks t).session →
      (w.states (w.tasks t).session).expirationTask = some t →
      sessions id = some (w.tasks t).session)
    (hstates : ∀ session, (states session).expirationTask = (w.states session).expirationTask)
    (hcounts : counts { w with journal := journal } t = counts w t) :
    Fate { w with tasks := Function.update w.tasks task e, sessions := sessions, states := states, active := active,
                  journal := journal } t := by
  have hsame : Function.update w.tasks task e t = w.tasks t := Function.update_of_ne hne ..
  rcases h with ⟨hstage, halive, id, hregistered, htask, hzero⟩ | ⟨handler, hhandler, hending, hcancelled, hzero⟩ |
    ⟨hstage, hnone, hone⟩ | ⟨id, hstage, halive, hnone, hone⟩ | ⟨hstage, hnone, n, hn, hover⟩
  · have hkept := hsessions id hregistered htask
    rw [← hstates] at htask
    rw [← hsame] at hstage halive hkept htask
    exact .pending hstage halive id hkept htask (hcounts.trans hzero)
  · rw [← hsame] at hhandler hending hcancelled
    exact .claimed handler hhandler hending hcancelled (hcounts.trans hzero)
  · rw [← hsame] at hstage
    exact .taken hstage hnone (hcounts.trans hone)
  · rw [← hsame] at hstage halive
    exact .ending id hstage halive hnone (hcounts.trans hone)
  · rw [← hsame] at hstage
    exact .over hstage hnone n hn (hcounts.trans hover)

/-- **A task goes on**: its own fate is given, the others stay. -/
theorem Tracked.goTask (ht : Tracked w) {task : ℕ} {stage : Stage} (sessions : Uuid → Option ℕ)
    (states : ℕ → ConnectionState) (active : Uuid → Bool) {journal : List Event} (hlt : task < w.nextTask)
    (hv : Valid { w with
      tasks := Function.update w.tasks task { w.tasks task with stage := stage }, sessions := sessions,
      states := states, active := active, journal := journal })
    (hown : Fate { w with
      tasks := Function.update w.tasks task { w.tasks task with stage := stage }, sessions := sessions,
      states := states, active := active, journal := journal } task)
    (hsub : ∀ id session, sessions id = some session → w.sessions id = some session ∧
      ((w.tasks task).session = session → (w.tasks task).cancelled = false → stage = .created ∨ stage = .sleeping))
    (hkept : ∀ t id, t ≠ task → w.sessions id = some (w.tasks t).session →
      (w.states (w.tasks t).session).expirationTask = some t → sessions id = some (w.tasks t).session)
    (hstates : ∀ session, (states session).expirationTask = (w.states session).expirationTask)
    (hcounts : ∀ t, t ≠ task → counts { w with journal := journal } t = counts w t) :
    Tracked { w with
      tasks := Function.update w.tasks task { w.tasks task with stage := stage }, sessions := sessions,
      states := states, active := active, journal := journal } := by
  have hself : Function.update w.tasks task { w.tasks task with stage := stage } task =
      { w.tasks task with stage := stage } := Function.update_self ..
  have hother : ∀ t, t ≠ task → Function.update w.tasks task { w.tasks task with stage := stage } t = w.tasks t :=
    fun t hne => Function.update_of_ne hne ..
  have hsession : ∀ t, (Function.update w.tasks task { w.tasks task with stage := stage } t).session =
      (w.tasks t).session := by
    intro t
    by_cases heq : t = task
    · rw [heq, hself]
    · rw [hother t heq]
  refine ⟨hv, fun t htask => ?_, fun t hle => ?_, fun id session h => ?_, fun handler session t h => ?_, ht.idle⟩
  · by_cases heq : t = task
    · exact heq ▸ hown
    · exact (ht.fate t htask).other heq (fun id => hkept t id heq) hstates (hcounts t heq)
  · have hne : t ≠ task := Nat.ne_of_gt (hlt.trans_le hle)
    obtain ⟨hdone, hzero⟩ := ht.unborn t hle
    rw [← hother t hne] at hdone
    exact ⟨hdone, (hcounts t hne).trans hzero⟩
  · obtain ⟨hold, hstage⟩ := hsub id session h
    obtain ⟨t, hlt', hexpiration, hsame, halive, hrest⟩ := ht.guarded id session hold
    refine ⟨t, hlt', (hstates session).trans hexpiration, (hsession t).trans hsame, ?_⟩
    change (Function.update w.tasks task { w.tasks task with stage := stage } t).cancelled = false ∧
      ((Function.update w.tasks task { w.tasks task with stage := stage } t).stage = .created ∨
        (Function.update w.tasks task { w.tasks task with stage := stage } t).stage = .sleeping)
    by_cases heq : t = task
    · subst heq
      rw [hself]
      exact ⟨halive, hstage hsame halive⟩
    · rw [hother t heq]
      exact ⟨halive, hrest⟩
  · obtain ⟨hlt', hsame⟩ := ht.waits handler session t h
    exact ⟨hlt', (hsession t).trans hsame⟩

/-- A running task has been created. -/
theorem Tracked.lt_of_running (ht : Tracked w) {task : ℕ} (h : (w.tasks task).stage ≠ .done) : task < w.nextTask := by
  by_contra hle
  exact h (ht.unborn task (Nat.le_of_not_lt hle)).1

/-- A task in its sleep that is not cancelled has a registered session. -/
theorem Tracked.pending_of_alive (ht : Tracked w) {task : ℕ} (halive : (w.tasks task).cancelled = false)
    (hstage : (w.tasks task).stage = .created ∨ (w.tasks task).stage = .sleeping) :
    ∃ id, w.sessions id = some (w.tasks task).session ∧
      (w.states (w.tasks task).session).expirationTask = some task ∧ counts w task = (0, 0, 0) := by
  have hnotDone : (w.tasks task).stage ≠ .done := by
    rcases hstage with hstage | hstage
    · rw [hstage]
      simp
    · rw [hstage]
      simp
  rcases ht.fate task (ht.lt_of_running hnotDone) with ⟨-, -, id, hregistered, htask, hzero⟩ |
    ⟨_, -, -, hdone | hcancelled, -⟩ | ⟨hdone, -, -⟩ | ⟨id, hending, -, -, -⟩ | ⟨hdone, -, -, -, -⟩
  · exact ⟨id, hregistered, htask, hzero⟩
  · exact absurd hdone hnotDone
  · exact absurd (halive.symm.trans hcancelled) (by simp)
  · exact absurd hdone hnotDone
  · rcases hstage with hstage | hstage
    · exact absurd (hstage.symm.trans hending) (by simp)
    · exact absurd (hstage.symm.trans hending) (by simp)
  · exact absurd hdone hnotDone

/-- A task that ends a conversation. -/
theorem Tracked.ending (ht : Tracked w) {task : ℕ} {id : Uuid} (hstage : (w.tasks task).stage = .ending id) :
    (∀ handler session, w.handlers handler ≠ .waiting session task) ∧ counts w task = (0, 1, 0) := by
  rcases ht.fate task (ht.lt_of_running (by rw [hstage]; simp)) with ⟨hold | hold, -, -, -, -, -⟩ |
    ⟨_, -, hnot, -, -⟩ |
    ⟨hdone, -, -⟩ | ⟨_, -, -, hfree, hone⟩ | ⟨hdone, -, -, -, -⟩
  · exact absurd (hold.symm.trans hstage) (by simp)
  · exact absurd (hold.symm.trans hstage) (by simp)
  · exact absurd hstage (hnot id)
  · exact absurd (hdone.symm.trans hstage) (by simp)
  · exact ⟨hfree, hone⟩
  · exact absurd (hdone.symm.trans hstage) (by simp)

theorem Tracked.taskStep (ht : Tracked w) {task : ℕ} {raises : Bool}
    (h : TaskStep w task raises w') : Tracked w' := by
  have hv := ht.valid.taskStep h
  have hself : ∀ stage, Function.update w.tasks task { w.tasks task with stage := stage } task =
      { w.tasks task with stage := stage } := fun stage => Function.update_self ..
  cases h with
  | cancel hcancelled hrunning =>
      refine ht.goTask w.sessions w.states w.active (ht.lt_of_running hrunning) hv ?_
        (fun id session h => ⟨h, fun _ halive => ?_⟩)
        (fun t id _ h _ => h) (fun _ => rfl) fun _ _ => rfl
      · rcases ht.fate task (ht.lt_of_running hrunning) with ⟨-, halive, -, -, -, -⟩ |
          ⟨handler, hhandler, -, -, hzero⟩ |
          ⟨hdone, -, -⟩ | ⟨_, -, halive, -, -⟩ | ⟨hdone, -, -, -, -⟩
        · exact absurd (halive.symm.trans hcancelled) (by simp)
        · refine .claimed handler ?_ (fun id h => ?_) (.inl ?_) hzero
          · change _ = Handler.waiting (Function.update w.tasks task _ task).session task
            rw [hself]
            exact hhandler
          · change (Function.update w.tasks task { w.tasks task with stage := .done } task).stage = .ending id at h
            rw [hself] at h
            exact absurd h (by simp)
          · exact congrArg Expiration.stage (hself .done)
        · exact absurd hdone hrunning
        · exact absurd (halive.symm.trans hcancelled) (by simp)
        · exact absurd hdone hrunning
      · exact absurd (halive.symm.trans hcancelled) (by simp)
  | sleep halive hstage =>
      obtain ⟨id, hregistered, htask, hzero⟩ := ht.pending_of_alive halive (.inl hstage)
      refine ht.goTask w.sessions w.states w.active (ht.lt_of_running (by rw [hstage]; simp)) hv ?_
        (fun id session h => ⟨h, fun _ _ => .inr rfl⟩)
        (fun t id _ h _ => h) (fun _ => rfl) fun _ _ => rfl
      rw [← congrArg Expiration.session (hself .sleeping)] at hregistered htask
      exact .pending (.inr (congrArg Expiration.stage (hself .sleeping)))
        ((congrArg Expiration.cancelled (hself .sleeping)).trans halive) id hregistered htask hzero
  | miss halive hstage hmissing =>
      obtain ⟨id, hregistered, -, -⟩ := ht.pending_of_alive halive (.inr hstage)
      exact absurd hregistered (hmissing id (ht.valid.keyed id _ hregistered))
  | expire halive hstage id hid hregistered =>
      obtain ⟨id', -, htask, hzero⟩ := ht.pending_of_alive halive (.inr hstage)
      have hcounts : ∀ t, counts (w.note (.expired task)) t = if t = task then (0, 1, 0) else counts w t := by
        intro t
        rw [counts_note]
        by_cases heq : t = task
        · rw [if_pos heq, heq, hzero]
          simp [Event.takes, Event.expires, Event.loses]
        · rw [if_neg heq]
          simp [Event.takes, Event.expires, Event.loses, Ne.symm heq]
      refine ht.goTask _ w.states w.active (ht.lt_of_running (by rw [hstage]; simp)) hv ?_
        (fun id' session h => ?_) (fun t id' hne h htask' => ?_) (fun _ => rfl)
        fun t hne => (hcounts t).trans (if_neg hne)
      · refine .ending id (congrArg Expiration.stage (hself (.ending id)))
          ((congrArg Expiration.cancelled (hself (.ending id))).trans halive) (fun handler session hw => ?_)
          ((hcounts task).trans (if_pos rfl))
        obtain ⟨-, hsession⟩ := ht.waits handler session task hw
        have hheld : Holds w (.handler handler) (w.tasks task).session := by
          rw [Holds, hw, hsession]
          rfl
        exact Custodian.noConfusion (ht.valid.single (.handler handler) (.registry id) _ hheld hregistered)
      · change Function.update w.sessions id none id' = some session at h
        have hne : id' ≠ id := by
          rintro rfl
          rw [Function.update_self] at h
          exact absurd h (by simp)
        rw [Function.update_of_ne hne] at h
        refine ⟨h, fun hsame _ => absurd ?_ hne⟩
        exact Custodian.registry.inj (ht.valid.single (.registry id') (.registry id) _ h (hsame ▸ hregistered))
      · change Function.update w.sessions id none id' = some (w.tasks t).session
        rw [Function.update_of_ne]
        · exact h
        · rintro rfl
          have hsame : (w.tasks t).session = (w.tasks task).session := Option.some.inj (h.symm.trans hregistered)
          rw [hsame, htask] at htask'
          exact hne (Option.some.inj htask').symm
  | fail halive id hstage =>
      obtain ⟨hfree, hone⟩ := ht.ending hstage
      refine ht.goTask w.sessions w.states w.active (ht.lt_of_running (by rw [hstage]; simp)) hv ?_
        (fun id' session h => ⟨h, fun hsame _ => ?_⟩)
        (fun t id _ h _ => h) (fun _ => rfl) fun _ _ => rfl
      · exact .over (congrArg Expiration.stage (hself .done)) hfree 0 (Nat.zero_le _) hone
      · have hheld : Holds w (.task task) session := ⟨hsame, id, hstage⟩
        exact Custodian.noConfusion (ht.valid.single (.registry id') (.task task) session h hheld)
  | lose halive id hstage =>
      obtain ⟨hfree, hone⟩ := ht.ending hstage
      have hcounts : ∀ t, counts (w.note (.lost task id)) t = if t = task then (0, 1, 1) else counts w t := by
        intro t
        rw [counts_note]
        by_cases heq : t = task
        · rw [if_pos heq, heq, hone]
          simp [Event.takes, Event.expires, Event.loses]
        · rw [if_neg heq]
          simp [Event.takes, Event.expires, Event.loses, Ne.symm heq]
      refine ht.goTask w.sessions _ _ (ht.lt_of_running (by rw [hstage]; simp)) hv ?_
        (fun id' session h => ⟨h, fun hsame _ => ?_⟩) (fun t id _ h _ => h) (fun session => ?_)
        fun t hne => (hcounts t).trans (if_neg hne)
      · exact .over (congrArg Expiration.stage (hself .done)) hfree 1 (Nat.le_refl _)
          ((hcounts task).trans (if_pos rfl))
      · have hheld : Holds w (.task task) session := ⟨hsame, id, hstage⟩
        exact Custodian.noConfusion (ht.valid.single (.registry id') (.task task) session h hheld)
      · by_cases hsame : session = (w.tasks task).session
        · rw [hsame]
          change (Function.update w.states (w.tasks task).session _ (w.tasks task).session).expirationTask = _
          rw [Function.update_self]
        · change (Function.update w.states (w.tasks task).session _ session).expirationTask = _
          rw [Function.update_of_ne hsame]

/-- The query of a label that names a suspended session can be read. -/
def Readable (rt : Runtime) (w : Server) : Label → Prop
  | .connect _ query => ¬Garbled rt w query
  | _ => True

instance (rt : Runtime) (w : Server) : (label : Label) → Decidable (Readable rt w label)
  | .connect _ query => inferInstanceAs (Decidable ¬Garbled rt w query)
  | .accept .. => .isTrue trivial
  | .start .. => .isTrue trivial
  | .run .. => .isTrue trivial
  | .proceed _ => .isTrue trivial
  | .resume _ => .isTrue trivial
  | .finish _ => .isTrue trivial
  | .clear _ => .isTrue trivial
  | .drop _ => .isTrue trivial
  | .suspend .. => .isTrue trivial
  | .elsewhere _ => .isTrue trivial

/-- **Step lemma**: every suspension keeps its fate, or goes on to the next one. -/
theorem tracked_step {label : Label} (ht : Tracked w) (hread : Readable rt w label)
    (h : step w rt label = some w') : Tracked w' := by
  have hv := valid_step ht.valid h
  cases step_does h with
  | connect accountId query =>
      rcases htaken : (handshake rt w accountId query).2 with _ | suspended
      · exact ht.connect_refused htaken hread
      · exact ht.connect_granted htaken
  | proceed hhandler hdone => exact ht.proceed hhandler hdone hv
  | accept hhandler => exact ht.move hv (by rw [hhandler]; rfl) (by simp [hhandler]) (by simp)
  | refuse hhandler => exact ht.move hv (by rw [hhandler]; rfl) (by simp [hhandler]) (by simp)
  | @start handler session id hhandler =>
      have hheld : (w.handlers handler).session? = some session := by
        rw [hhandler]
        rfl
      refine ht.frame hv rfl rfl rfl rfl (fun id' other hother => ?_) (fun _ _ _ => Iff.rfl) ht.idle
      have hne : other ≠ session := by
        rintro rfl
        exact (ht.valid.not_registered hheld).1 id' hother
      have hstate : Function.update w.states session { w.states session with conversationId := some id } other =
          w.states other := Function.update_of_ne hne ..
      exact congrArg ConnectionState.expirationTask hstate
  | @startFails handler session id hhandler =>
      have hheld : (w.handlers handler).session? = some session := by
        rw [hhandler]
        rfl
      have hleft : w.handlers handler ≠ .left := by simp [hhandler]
      have hold : ∀ session task, w.handlers handler ≠ .waiting session task := by simp [hhandler]
      refine ht.frame hv rfl rfl rfl rfl (fun id' other hother => ?_) (fun n => waits_setHandler (by simp) hold n)
        (ht.idle_setHandler hleft)
      have hne : other ≠ session := by
        rintro rfl
        exact (ht.valid.not_registered hheld).1 id' hother
      have hstate : Function.update w.states session
          { w.states session with conversationId := some id, connected := false } other = w.states other :=
        Function.update_of_ne hne ..
      exact congrArg ConnectionState.expirationTask hstate
  | resume hhandler => exact ht.goOn hv (by rw [hhandler]; rfl) (by simp [hhandler]) (by simp)
  | finishNone hhandler => exact ht.move hv (by rw [hhandler]; rfl) (by simp [hhandler]) (by simp)
  | @finish handler session resumed id hhandler =>
      have hleft : w.handlers handler ≠ .left := by simp [hhandler]
      exact ht.frame hv rfl rfl rfl rfl (fun _ _ _ => rfl)
        (fun n => waits_setHandler (by simp) (by simp [hhandler]) n) (ht.idle_setHandler hleft)
  | clear hhandler => exact ht.goOn hv (by rw [hhandler]; rfl) (by simp [hhandler]) (by simp)
  | drop hhandler => exact ht.goOn hv (by rw [hhandler]; rfl) (by simp [hhandler]) (by simp)
  | close hhandler => exact ht.move hv (by rw [hhandler]; rfl) (by simp [hhandler]) (by simp)
  | suspend hhandler hid => exact ht.suspendAs hhandler hid hv
  | run htask => exact ht.taskStep htask
  | elsewhere id => exact ht.frame hv rfl rfl rfl rfl (fun _ _ _ => rfl) (fun _ _ _ => Iff.rfl) ht.idle

/-- The suspension can still be taken over, or a connection is about to take it over. -/
def Pending (w : Server) (task : ℕ) : Prop :=
  (∃ id, w.sessions id = some (w.tasks task).session ∧
      (w.states (w.tasks task).session).expirationTask = some task ∧ (w.tasks task).stage ≠ .done ∧
      (w.tasks task).cancelled = false) ∨
    ∃ handler, w.handlers handler = .waiting (w.tasks task).session task

/-- **Resumed or expired, never both**: in every run whose queries can be read, every suspension is pending, or has been
taken over by one connection, or has expired once; its conversation is ended as lost once at most, and only if the
suspension has expired. -/
theorem suspension_fate (rt : Runtime) (labels : List Label) (w : Server)
    (hrun : Runs.run (fun w => step w rt) {} labels = some w)
    (hread : Runs.Along (fun w => step w rt) (Readable rt) {} labels) (task : ℕ) (htask : task < w.nextTask) :
    (Pending w task ∧ takeovers w task = 0 ∧ expirations w task = 0 ∨ takeovers w task = 1 ∧ expirations w task = 0 ∨
      takeovers w task = 0 ∧ expirations w task = 1) ∧ losses w task ≤ expirations w task := by
  have ht : Tracked w := Runs.inv_of_along (fun _ _ _ ht hread hstep => tracked_step ht hread hstep) tracked_initial
    hread hrun
  have hcounts : ∀ {a b c : ℕ}, counts w task = (a, b, c) → takeovers w task = a ∧ expirations w task = b ∧
      losses w task = c := fun h => ⟨congrArg Prod.fst h, congrArg (fun p => p.2.1) h, congrArg (fun p => p.2.2) h⟩
  rcases ht.fate task htask with ⟨hstage, halive, id, hregistered, htask', hzero⟩ | ⟨handler, hhandler, -, -, hzero⟩ |
    ⟨-, -, hone⟩ | ⟨-, -, -, -, hone⟩ | ⟨-, -, n, hn, hover⟩
  · obtain ⟨htaken, hexpired, hlost⟩ := hcounts hzero
    have hrunning : (w.tasks task).stage ≠ .done := by
      rcases hstage with hstage | hstage
      · simp [hstage]
      · simp [hstage]
    exact ⟨.inl ⟨.inl ⟨id, hregistered, htask', hrunning, halive⟩, htaken, hexpired⟩, by omega⟩
  · obtain ⟨htaken, hexpired, hlost⟩ := hcounts hzero
    exact ⟨.inl ⟨.inr ⟨handler, hhandler⟩, htaken, hexpired⟩, by omega⟩
  · obtain ⟨htaken, hexpired, hlost⟩ := hcounts hone
    exact ⟨.inr (.inl ⟨htaken, hexpired⟩), by omega⟩
  · obtain ⟨htaken, hexpired, hlost⟩ := hcounts hone
    exact ⟨.inr (.inr ⟨htaken, hexpired⟩), by omega⟩
  · obtain ⟨htaken, hexpired, hlost⟩ := hcounts hover
    exact ⟨.inr (.inr ⟨htaken, hexpired⟩), by omega⟩

/-- The conversation is taken over, its socket is lost again, and then it is ended. -/
def lostAgain : List Label :=
  lostSocket ++ [.run 0 false, .connect 1 ⟨some "00000000-0000-0000-0000-000000000007", some "2"⟩, .run 0 false,
    .proceed 1, .accept 1 true, .resume 1, .drop 1, .suspend 1 false, .run 1 false, .run 1 false, .run 1 false]

theorem suspension_fate_twice : ∃ w, Runs.run (fun w => step w sampleRuntime) {} lostAgain = some w ∧
    (losses w 1 = 1 ∧ w.active 7 = false) ∧
    (Pending w 0 ∧ takeovers w 0 = 0 ∧ expirations w 0 = 0 ∨ takeovers w 0 = 1 ∧ expirations w 0 = 0 ∨
      takeovers w 0 = 0 ∧ expirations w 0 = 1) ∧ losses w 0 ≤ expirations w 0 := by
  have hread : Runs.Along (fun w => step w sampleRuntime) (Readable sampleRuntime) {} lostAgain :=
    Runs.Along.of_alongB (c := fun w label => decide (Readable sampleRuntime w label)) (fun _ _ => of_decide_eq_true)
      (by decide +kernel)
  have hrun : ((Runs.run (fun w => step w sampleRuntime) {} lostAgain).any fun w =>
      decide (0 < w.nextTask ∧ losses w 1 = 1 ∧ w.active 7 = false)) = true := by decide +kernel
  obtain ⟨w, hw, h⟩ := (Option.any_eq_true _ _).mp hrun
  obtain ⟨htask, hlost⟩ := of_decide_eq_true h
  exact ⟨w, hw, hlost, suspension_fate sampleRuntime lostAgain w hw hread 0 htask⟩

/-! ### Conversations within reach -/

/-- An active conversation is in the state of a handler, of a registered session with a task that will end it, or of a
task that is ending it. -/
def InReach (w : Server) (id : Uuid) : Prop :=
  ∃ session, (w.states session).conversationId = some id ∧
    ((∃ handler, (w.handlers handler).session? = some session) ∨
      (w.sessions id = some session ∧ ∃ task, (w.states session).expirationTask = some task ∧
        (w.tasks task).session = session ∧ (w.tasks task).stage ≠ .done ∧ (w.tasks task).cancelled = false) ∨
      ∃ task, (w.tasks task).session = session ∧ (w.tasks task).stage = .ending id)

/-- What a step must not do: a query that cannot be read, `websocket.accept` or `cancel_partial_task` that raises for
a session with a conversation, `session.start` in a session with a conversation, and an exception when a lost
conversation is ended. -/
def Careful (rt : Runtime) (w : Server) : Label → Prop
  | .connect _ query => ¬Garbled rt w query
  | .accept handler ok =>
    ok = true ∨ ∀ session ∈ (w.handlers handler).session?, (w.states session).conversationId = none
  | .start handler _ _ => ∀ session ∈ (w.handlers handler).session?, (w.states session).conversationId = none
  | .suspend handler raises =>
    raises = false ∨ ∀ session ∈ (w.handlers handler).session?, (w.states session).conversationId = none
  | .run task raises => raises = false ∨ (w.tasks task).stage.ends = false
  | _ => True

instance (rt : Runtime) (w : Server) : (label : Label) → Decidable (Careful rt w label)
  | .connect _ query => inferInstanceAs (Decidable ¬Garbled rt w query)
  | .accept .. => inferInstanceAs (Decidable (_ ∨ _))
  | .start handler _ _ => inferInstanceAs (Decidable (∀ session ∈ (w.handlers handler).session?, _))
  | .suspend .. => inferInstanceAs (Decidable (_ ∨ _))
  | .run .. => inferInstanceAs (Decidable (_ ∨ _))
  | .proceed _ => .isTrue trivial
  | .resume _ => .isTrue trivial
  | .finish _ => .isTrue trivial
  | .clear _ => .isTrue trivial
  | .drop _ => .isTrue trivial
  | .elsewhere _ => .isTrue trivial

structure Covered (w : Server) : Prop where
  tracked : Tracked w
  held : ∀ id, w.active id = true → ∃ k session, Holds w k session ∧ (w.states session).conversationId = some id
  /-- A conversation that `session.end` has ended is not active. -/
  ended : ∀ handler session resumed id, w.handlers handler = .leaving session resumed →
    (w.states session).conversationId = some id → w.active id = false

/-- What is held stays held, with its conversation, unless the conversation is not active any more. -/
theorem Covered.keep (hc : Covered w) (ht : Tracked w')
    (hactive : ∀ id, w'.active id = true → w.active id = true)
    (hholds : ∀ k session id, w'.active id = true → Holds w k session → (w.states session).conversationId = some id →
      ∃ k', Holds w' k' session ∧ (w'.states session).conversationId = some id)
    (hended : ∀ handler session resumed id, w'.handlers handler = .leaving session resumed →
      (w'.states session).conversationId = some id → w'.active id = true →
        w.handlers handler = .leaving session resumed ∧
          (w.states session).conversationId = some id) : Covered w' := by
  refine ⟨ht, fun id hid => ?_, fun handler session resumed id hhandler hconv => ?_⟩
  · obtain ⟨k, session, hheld, hconv⟩ := hc.held id (hactive id hid)
    obtain ⟨k', hheld', hconv'⟩ := hholds k session id hid hheld hconv
    exact ⟨k', session, hheld', hconv'⟩
  · by_contra hid
    have hid' : w'.active id = true := Bool.not_eq_false _ |>.mp hid
    obtain ⟨hold, hconv'⟩ := hended handler session resumed id hhandler hconv hid'
    exact absurd (hactive id hid') (by rw [hc.ended handler session resumed id hold hconv']; exact Bool.false_ne_true)

/-- A handler that goes on with its state. -/
theorem holds_move {handler : ℕ} {a : Handler} (ha : a.session? = (w.handlers handler).session?) {k : Custodian}
    {session : ℕ} (h : Holds w k session) : Holds (w.setHandler handler a) k session := by
  rcases k with n | id | task
  · by_cases hn : n = handler
    · have hself : (w.setHandler handler a).handlers n = a := by rw [hn]; exact Function.update_self ..
      rw [Holds, hself, ha, ← hn]
      exact h
    · have hne : (w.setHandler handler a).handlers n = w.handlers n := Function.update_of_ne hn ..
      rw [Holds, hne]
      exact h
  · exact h
  · exact h

/-- Active conversations stay in their states, and a handler goes on otherwise than to the end of its session. -/
theorem Covered.goOn (hc : Covered w) {handler session : ℕ} {s : ConnectionState} {a : Handler} (ht : Tracked w')
    (hstates : w'.states = Function.update w.states session s)
    (hhandlers : w'.handlers = Function.update w.handlers handler a) (hsessions : w'.sessions = w.sessions)
    (htasks : w'.tasks = w.tasks) (hactive : w'.active = w.active) (ha : a.session? = (w.handlers handler).session?)
    (hs : ∀ id, w.active id = true → (s.conversationId = some id ↔ (w.states session).conversationId = some id))
    (hleaving : ∀ session resumed, a ≠ .leaving session resumed) : Covered w' := by
  have hconv : ∀ other id, w.active id = true →
      ((w'.states other).conversationId = some id ↔ (w.states other).conversationId = some id) := by
    intro other id hid
    rw [hstates]
    by_cases hother : other = session
    · rw [hother, Function.update_self]
      exact hs id hid
    · rw [Function.update_of_ne hother]
  refine hc.keep ht (fun id h => hactive ▸ h) (fun k other id hid h h' => ⟨k, ?_, ?_⟩)
    fun n other resumed id hn hid hid' => ⟨?_, ?_⟩
  · have hmoved : Holds (w.setHandler handler a) k other := holds_move ha h
    cases k with
    | handler n =>
        rw [Holds, hhandlers]
        exact hmoved
    | registry id' =>
        rw [Holds, hsessions]
        exact h
    | task task =>
        rw [Holds, htasks]
        exact h
  · rw [hactive] at hid
    exact (hconv other id hid).mpr h'
  · rw [hhandlers] at hn
    by_cases hother : n = handler
    · rw [hother, Function.update_self] at hn
      exact absurd hn (hleaving other resumed)
    · rwa [Function.update_of_ne hother] at hn
  · rw [hactive] at hid'
    exact (hconv other id hid').mp hid

/-- A handler goes on with its state as it is. -/
theorem Covered.move (hc : Covered w) {handler session : ℕ} {a : Handler} (ht : Tracked (w.setHandler handler a))
    (hheld : (w.handlers handler).session? = some session)
    (ha : a.session? = some session ∨ (w.states session).conversationId = none)
    (hleaving : ∀ other resumed, a = .leaving other resumed → (w.states other).conversationId = none) :
    Covered (w.setHandler handler a) := by
  refine hc.keep ht (fun _ h => h) (fun k other id _ h h' => ?_) fun n other resumed id hn hid _ => ⟨?_, hid⟩
  · rcases ha with ha | hnone
    · exact ⟨k, holds_move (by rw [ha, hheld]) h, h'⟩
    · refine ⟨k, ?_, h'⟩
      rcases k with n | id' | task
      · have hne : n ≠ handler := by
          rintro rfl
          have heq : session = other := Option.some.inj (hheld.symm.trans h)
          rw [← heq, hnone] at h'
          exact absurd h' (by simp)
        have hkept : (w.setHandler handler a).handlers n = w.handlers n := Function.update_of_ne hne ..
        rw [Holds, hkept]
        exact h
      · exact h
      · exact h
  · by_cases hother : n = handler
    · have hself : (w.setHandler handler a).handlers n = a := by
        rw [hother]
        exact Function.update_self ..
      have hnone := hleaving other resumed (hself.symm.trans hn)
      exact absurd (hnone.symm.trans hid) (by simp)
    · have hne : (w.setHandler handler a).handlers n = w.handlers n := Function.update_of_ne hother ..
      exact hne.symm.trans hn

theorem Covered.connect (hc : Covered w) {accountId : Uuid} {query : Query} (hread : ¬Garbled rt w query)
    (ht : Tracked (connect rt w accountId query)) : Covered (connect rt w accountId query) := by
  have hidle : w.handlers w.nextHandler = .left := hc.tracked.idle w.nextHandler (Nat.le_refl _)
  rcases htaken : (handshake rt w accountId query).2 with _ | suspended
  · have hsessions := (handshake_keeps_iff hc.tracked.valid.keyed htaken).mpr hread
    rw [Registry.connect_refused htaken] at ht ⊢
    have hhandler : ∀ n, n ≠ w.nextHandler →
        Function.update w.handlers w.nextHandler (.accepting w.nextState false) n = w.handlers n :=
      fun n hne => Function.update_of_ne hne ..
    have hstate : ∀ other, other ≠ w.nextState →
        Function.update w.states w.nextState (.new accountId) other = w.states other :=
      fun other hne => Function.update_of_ne hne ..
    refine hc.keep ht (fun _ h => h) (fun k other id _ h h' => ⟨k, ?_, ?_⟩) fun n other resumed id hn hid _ => ?_
    · rcases k with n | id' | task
      · have hne : n ≠ w.nextHandler := by
          rintro rfl
          rw [Holds, hidle] at h
          exact absurd h (by simp [Handler.session?])
        exact (congrArg Handler.session? (hhandler n hne)).trans h
      · exact (congrFun hsessions id').trans h
      · exact h
    · have hne : other ≠ w.nextState := Nat.ne_of_lt (hc.tracked.valid.below k other h)
      exact (congrArg ConnectionState.conversationId (hstate other hne)).trans h'
    · change Function.update w.handlers w.nextHandler (.accepting w.nextState false) n = .leaving other resumed at hn
      change (Function.update w.states w.nextState (.new accountId) other).conversationId = some id at hid
      have hne : n ≠ w.nextHandler := by
        rintro rfl
        rw [Function.update_self] at hn
        exact absurd hn (by simp)
      rw [hhandler n hne] at hn
      have hheld : Holds w (.handler n) other := by
        rw [Holds, hn]
        rfl
      rw [hstate other (Nat.ne_of_lt (hc.tracked.valid.below _ other hheld))] at hid
      exact ⟨hn, hid⟩
  · obtain ⟨id₀, -, hid₀, hsessions⟩ := handshake_taken htaken
    obtain ⟨claimed, -, hexpiration, -, -, -, -⟩ := hc.tracked.pending hid₀
    rw [Registry.connect, htaken] at ht ⊢
    simp only [hexpiration, hsessions] at ht ⊢
    have hself : Function.update w.handlers w.nextHandler (.waiting suspended claimed) w.nextHandler =
        .waiting suspended claimed := Function.update_self ..
    have hhandler : ∀ n, n ≠ w.nextHandler →
        Function.update w.handlers w.nextHandler (.waiting suspended claimed) n = w.handlers n :=
      fun n hne => Function.update_of_ne hne ..
    have htask : ∀ task, (Function.update w.tasks claimed { w.tasks claimed with cancelled := true } task).session =
        (w.tasks task).session ∧
          (Function.update w.tasks claimed { w.tasks claimed with cancelled := true } task).stage =
            (w.tasks task).stage := by
      intro task
      by_cases hsame : task = claimed
      · rw [hsame, Function.update_self]
        exact ⟨rfl, rfl⟩
      · rw [Function.update_of_ne hsame]
        exact ⟨rfl, rfl⟩
    refine hc.keep ht (fun _ h => h) (fun k other id _ h h' => ?_) fun n other resumed id hn hid _ => ⟨?_, hid⟩
    · rcases k with n | id' | task
      · have hne : n ≠ w.nextHandler := by
          rintro rfl
          rw [Holds, hidle] at h
          exact absurd h (by simp [Handler.session?])
        exact ⟨.handler n, (congrArg Handler.session? (hhandler n hne)).trans h, h'⟩
      · by_cases hsame : id' = id₀
        · have heq : suspended = other := Option.some.inj (hid₀.symm.trans (hsame ▸ h))
          exact ⟨.handler w.nextHandler, heq ▸ congrArg Handler.session? hself, h'⟩
        · have hkept : Function.update w.sessions id₀ none id' = some other := by
            rw [Function.update_of_ne hsame]
            exact h
          exact ⟨.registry id', hkept, h'⟩
      · obtain ⟨hsession, id', hstage⟩ := h
        exact ⟨.task task, ⟨(htask task).1.trans hsession, id', (htask task).2.trans hstage⟩, h'⟩
    · change Function.update w.handlers w.nextHandler (.waiting suspended claimed) n = .leaving other resumed at hn
      have hne : n ≠ w.nextHandler := by
        rintro rfl
        rw [hself] at hn
        exact absurd hn (by simp)
      rwa [hhandler n hne] at hn

theorem Covered.suspendAs (hc : Covered w) {handler session : ℕ} {id : Uuid}
    (hhandler : w.handlers handler = .closing session)
    (hid : (w.states session).conversationId = some id) (ht : Tracked (suspendAs w handler session id)) :
    Covered (suspendAs w handler session id) := by
  have hheld : (w.handlers handler).session? = some session := by
    rw [hhandler]
    rfl
  have hconv : ∀ other, (Function.update w.states session
      { w.states session with paused := true, expirationTask := some w.nextTask } other).conversationId =
        (w.states other).conversationId := by
    intro other
    by_cases hother : other = session
    · rw [hother, Function.update_self]
    · rw [Function.update_of_ne hother]
  have hself : Function.update w.handlers handler .left handler = .left := Function.update_self ..
  have hother : ∀ n, n ≠ handler → Function.update w.handlers handler .left n = w.handlers n :=
    fun n hne => Function.update_of_ne hne ..
  refine hc.keep ht (fun _ h => h) (fun k other id' _ h h' => ?_) fun n other resumed id' hn hid' _ => ⟨?_, ?_⟩
  · rcases k with n | id'' | task
    · by_cases hsame : n = handler
      · have heq : session = other := Option.some.inj (hheld.symm.trans (hsame ▸ h))
        refine ⟨.registry id, ?_, (hconv other).trans h'⟩
        change Function.update w.sessions id (some session) id = some other
        rw [Function.update_self, heq]
      · exact ⟨.handler n, (congrArg Handler.session? (hother n hsame)).trans h, (hconv other).trans h'⟩
    · have hne : id'' ≠ id := by
        rintro rfl
        have heq := hc.tracked.valid.distinct other session id'' (hc.tracked.valid.keyed id'' other h) hid
        exact (hc.tracked.valid.not_registered hheld).1 id'' (heq ▸ h)
      refine ⟨.registry id'', ?_, (hconv other).trans h'⟩
      change Function.update w.sessions id (some session) id'' = some other
      rw [Function.update_of_ne hne]
      exact h
    · obtain ⟨hsession, id'', hstage⟩ := h
      have hne : task ≠ w.nextTask := Nat.ne_of_lt (hc.tracked.lt_of_running (by rw [hstage]; simp))
      have hsame : Function.update w.tasks w.nextTask ⟨session, .created, false⟩ task = w.tasks task :=
        Function.update_of_ne hne ..
      exact ⟨.task task, ⟨(congrArg Expiration.session hsame).trans hsession, id'',
        (congrArg Expiration.stage hsame).trans hstage⟩, (hconv other).trans h'⟩
  · change Function.update w.handlers handler .left n = .leaving other resumed at hn
    have hne : n ≠ handler := by
      rintro rfl
      rw [hself] at hn
      exact absurd hn (by simp)
    rwa [hother n hne] at hn
  · exact (hconv other).symm.trans hid'

theorem Covered.taskStep (hc : Covered w) {task : ℕ} {raises : Bool}
    (hraises : raises = false ∨ (w.tasks task).stage.ends = false) (h : TaskStep w task raises w')
    (ht : Tracked w') : Covered w' := by
  have hself : ∀ stage, Function.update w.tasks task { w.tasks task with stage := stage } task =
      { w.tasks task with stage := stage } := fun stage => Function.update_self ..
  have hother : ∀ stage t, t ≠ task →
      Function.update w.tasks task { w.tasks task with stage := stage } t = w.tasks t :=
    fun stage t hne => Function.update_of_ne hne ..
  -- a task that does not end a conversation holds nothing
  have hfree : ∀ stage, (∀ id, (w.tasks task).stage ≠ .ending id) →
      Tracked (w.setTask task { w.tasks task with stage := stage }) →
        Covered (w.setTask task { w.tasks task with stage := stage }) := by
    intro stage hnot ht
    refine hc.keep ht (fun _ h => h) (fun k other id _ h h' => ⟨k, ?_, h'⟩) fun _ _ _ _ hn hid _ => ⟨hn, hid⟩
    rcases k with n | id' | t
    · exact h
    · exact h
    · obtain ⟨hsession, id', hstage⟩ := h
      have hne : t ≠ task := by
        rintro rfl
        exact hnot id' hstage
      have hsame := hother stage t hne
      exact ⟨(congrArg Expiration.session hsame).trans hsession, id', (congrArg Expiration.stage hsame).trans hstage⟩
  cases h with
  | cancel hcancelled hrunning =>
      refine hfree .done (fun id hstage => ?_) ht
      rcases hc.tracked.fate task (hc.tracked.lt_of_running hrunning) with ⟨-, halive, -, -, -, -⟩ |
        ⟨_, -, hnot, -, -⟩ |
        ⟨hdone, -, -⟩ | ⟨_, -, halive, -, -⟩ | ⟨hdone, -, -, -, -⟩
      · exact absurd (halive.symm.trans hcancelled) (by simp)
      · exact hnot id hstage
      · exact hrunning hdone
      · exact absurd (halive.symm.trans hcancelled) (by simp)
      · exact hrunning hdone
  | sleep _ hstage => exact hfree .sleeping (by simp [hstage]) ht
  | miss _ hstage => exact hfree .done (by simp [hstage]) ht
  | expire _ hstage id hid hregistered =>
      refine hc.keep ht (fun _ h => h) (fun k other id' _ h h' => ?_) fun _ _ _ _ hn hid' _ => ⟨hn, hid'⟩
      rcases k with n | id'' | t
      · exact ⟨.handler n, h, h'⟩
      · by_cases hsame : id'' = id
        · have heq : (w.tasks task).session = other := Option.some.inj (hregistered.symm.trans (hsame ▸ h))
          exact ⟨.task task, ⟨(congrArg Expiration.session (hself (.ending id))).trans heq, id,
            congrArg Expiration.stage (hself (.ending id))⟩, h'⟩
        · refine ⟨.registry id'', ?_, h'⟩
          change Function.update w.sessions id none id'' = some other
          rw [Function.update_of_ne hsame]
          exact h
      · obtain ⟨hsession, id'', hending⟩ := h
        have hne : t ≠ task := by
          rintro rfl
          exact absurd (hstage.symm.trans hending) (by simp)
        have hsame := hother (.ending id) t hne
        exact ⟨.task t, ⟨(congrArg Expiration.session hsame).trans hsession, id'',
          (congrArg Expiration.stage hsame).trans hending⟩, h'⟩
  | fail _ id hstage hraised =>
      rcases hraises with hfalse | hnot
      · exact absurd (hraised.symm.trans hfalse) (by simp)
      · exact absurd hnot (by simp [hstage, Stage.ends])
  | lose halive id hstage =>
      have hid : (w.states (w.tasks task).session).conversationId = some id := hc.tracked.valid.ending task id hstage
      have hactive : ∀ id', Function.update w.active id false id' = true → id' ≠ id ∧ w.active id' = true := by
        intro id' h
        by_cases hsame : id' = id
        · rw [hsame, Function.update_self] at h
          exact absurd h (by simp)
        · rw [Function.update_of_ne hsame] at h
          exact ⟨hsame, h⟩
      have hstate : ∀ other id', id' ≠ id → (w.states other).conversationId = some id' →
          other ≠ (w.tasks task).session := by
        rintro other id' hne h rfl
        exact hne (Option.some.inj (h.symm.trans hid))
      refine hc.keep ht (fun id' h => (hactive id' h).2) (fun k other id' hactive' h h' => ?_)
        fun n other resumed id' hn hid' _ => ⟨hn, ?_⟩
      · have hdiff := hstate other id' (hactive id' hactive').1 h'
        refine ⟨k, ?_, ?_⟩
        · rcases k with n | id'' | t
          · exact h
          · exact h
          · obtain ⟨hsession, id'', hending⟩ := h
            have hne : t ≠ task := by
              rintro rfl
              exact hdiff hsession.symm
            have hsame := hother .done t hne
            exact ⟨(congrArg Expiration.session hsame).trans hsession, id'',
              (congrArg Expiration.stage hsame).trans hending⟩
        · change (Function.update w.states (w.tasks task).session _ other).conversationId = some id'
          rw [Function.update_of_ne hdiff]
          exact h'
      · change (Function.update w.states (w.tasks task).session _ other).conversationId = some id' at hid'
        by_cases hsame : other = (w.tasks task).session
        · rw [hsame, Function.update_self] at hid'
          exact absurd hid' (by simp)
        · rwa [Function.update_of_ne hsame] at hid'

theorem Covered.start (hc : Covered w) {handler session : ℕ} {id : Uuid}
    (hhandler : w.handlers handler = .reading session false)
    (hnone : (w.states session).conversationId = none) (hnew : id ∉ w.started)
    (ht : Tracked { w.setState session { w.states session with conversationId := some id } with
      started := id :: w.started, active := Function.update w.active id true }) :
    Covered { w.setState session { w.states session with conversationId := some id } with
      started := id :: w.started, active := Function.update w.active id true } := by
  have hself : (Function.update w.states session
      { w.states session with conversationId := some id } session).conversationId = some id := by
    rw [Function.update_self]
  have hother : ∀ other, other ≠ session →
      Function.update w.states session { w.states session with conversationId := some id } other = w.states other :=
    fun other hne => Function.update_of_ne hne ..
  have hreading : Holds w (.handler handler) session := by
    rw [Holds, hhandler]
    rfl
  refine ⟨ht, fun id' hactive => ?_, fun n other resumed id' hn hid' => ?_⟩
  · change Function.update w.active id true id' = true at hactive
    by_cases hsame : id' = id
    · exact ⟨.handler handler, session, hreading, hsame ▸ hself⟩
    · rw [Function.update_of_ne hsame] at hactive
      obtain ⟨k, other, hheld, hconv⟩ := hc.held id' hactive
      have hne : other ≠ session := by
        rintro rfl
        exact absurd (hnone.symm.trans hconv) (by simp)
      refine ⟨k, other, ?_, (congrArg ConnectionState.conversationId (hother other hne)).trans hconv⟩
      cases k with
      | handler _ => exact hheld
      | registry _ => exact hheld
      | task _ => exact hheld
  · change (Function.update w.states session _ other).conversationId = some id' at hid'
    have hn' : w.handlers n = .leaving other resumed := hn
    have hleaving : Holds w (.handler n) other := by
      rw [Holds, hn']
      rfl
    have hne : other ≠ session := by
      rintro rfl
      obtain rfl := Custodian.handler.inj (hc.tracked.valid.single _ _ _ hleaving hreading)
      exact absurd (hn'.symm.trans hhandler) (by simp)
    rw [hother other hne] at hid'
    have hdiff : id' ≠ id := by
      rintro rfl
      exact hnew (hc.tracked.valid.known other id' hid')
    change Function.update w.active id true id' = false
    rw [Function.update_of_ne hdiff]
    exact hc.ended n other resumed id' hn' hid'

theorem Covered.finish (hc : Covered w) {handler session : ℕ} {resumed : Bool} {id : Uuid}
    (hhandler : w.handlers handler = .reading session resumed) (hid : (w.states session).conversationId = some id)
    (ht : Tracked { w.setHandler handler (.leaving session resumed) with
      active := Function.update w.active id false }) :
    Covered { w.setHandler handler (.leaving session resumed) with active := Function.update w.active id false } := by
  have hactive : ∀ id', Function.update w.active id false id' = true → id' ≠ id ∧ w.active id' = true := by
    intro id' h
    by_cases hsame : id' = id
    · rw [hsame, Function.update_self] at h
      exact absurd h (by simp)
    · rw [Function.update_of_ne hsame] at h
      exact ⟨hsame, h⟩
  refine hc.keep ht (fun id' h => (hactive id' h).2) (fun k other id' _ h h' => ⟨k, ?_, h'⟩)
    fun n other resumed' id' hn hid' hact => ⟨?_, hid'⟩
  · have hmoved : Holds (w.setHandler handler (.leaving session resumed)) k other :=
      holds_move (by rw [hhandler]; rfl) h
    cases k with
    | handler _ => exact hmoved
    | registry _ => exact hmoved
    | task _ => exact hmoved
  · by_cases hsame : n = handler
    · have hself : (w.setHandler handler (.leaving session resumed)).handlers n = .leaving session resumed := by
        rw [hsame]
        exact Function.update_self ..
      obtain ⟨rfl, -⟩ := Handler.leaving.inj (hself.symm.trans hn)
      have hid'' : (w.states session).conversationId = some id' := hid'
      exact absurd (Option.some.inj (hid''.symm.trans hid)) (hactive id' hact).1
    · have hne : (w.setHandler handler (.leaving session resumed)).handlers n = w.handlers n :=
          Function.update_of_ne hsame ..
      exact hne.symm.trans hn

theorem Covered.clear (hc : Covered w) {handler session : ℕ} {resumed : Bool}
    (hhandler : w.handlers handler = .leaving session resumed)
    (ht : Tracked ((w.setState session (resetSession (w.states session))).setHandler handler
      (.reading session resumed))) :
    Covered ((w.setState session (resetSession (w.states session))).setHandler handler
      (.reading session resumed)) := by
  have hother : ∀ other, other ≠ session →
      Function.update w.states session (resetSession (w.states session)) other = w.states other :=
    fun other hne => Function.update_of_ne hne ..
  refine hc.keep ht (fun _ h => h) (fun k other id hactive h h' => ⟨k, ?_, ?_⟩) fun n other resumed' id hn hid _ => ?_
  · refine holds_move (w := w.setState session (resetSession (w.states session))) ?_ ?_
    · change _ = (w.handlers handler).session?
      rw [hhandler]
      rfl
    · cases k with
      | handler _ => exact h
      | registry _ => exact h
      | task _ => exact h
  · have hne : other ≠ session := by
      rintro rfl
      exact absurd hactive (by
        change ¬w.active id = true
        rw [hc.ended handler other resumed id hhandler h']
        exact Bool.false_ne_true)
    exact (congrArg ConnectionState.conversationId (hother other hne)).trans h'
  · change Function.update w.handlers handler (.reading session resumed) n = .leaving other resumed' at hn
    change (Function.update w.states session (resetSession (w.states session)) other).conversationId = some id at hid
    have hne : n ≠ handler := by
      rintro rfl
      rw [Function.update_self] at hn
      exact absurd hn (by simp)
    rw [Function.update_of_ne hne] at hn
    by_cases hsame : other = session
    · rw [hsame, Function.update_self] at hid
      exact absurd hid (by simp [resetSession])
    · rw [hother other hsame] at hid
      exact ⟨hn, hid⟩

/-- **Step lemma**: active conversations stay within reach. -/
theorem covered_step {label : Label} (hc : Covered w) (hcareful : Careful rt w label)
    (h : step w rt label = some w') : Covered w' := by
  have hread : Readable rt w label := by
    cases label with
    | connect accountId query => exact hcareful
    | _ => trivial
  have ht := tracked_step hc.tracked hread h
  cases step_does h with
  | connect accountId query => exact hc.connect hcareful ht
  | proceed hhandler =>
      exact hc.goOn ht rfl rfl rfl rfl rfl (by rw [hhandler]; rfl) (fun _ _ => Iff.rfl) (by simp)
  | accept hhandler => exact hc.move ht (by rw [hhandler]; rfl) (.inl rfl) (by simp)
  | refuse hhandler =>
      rcases hcareful with htrue | hnone
      · exact absurd htrue (by simp)
      · exact hc.move ht (by rw [hhandler]; rfl) (.inr (hnone _ (by rw [hhandler]; rfl))) (by simp)
  | start hhandler hnew => exact hc.start hhandler (hcareful _ (by rw [hhandler]; rfl)) hnew ht
  | @startFails handler session id hhandler hnew =>
      have hheld : (w.handlers handler).session? = some session := by
        rw [hhandler]
        rfl
      refine hc.goOn ht rfl rfl rfl rfl rfl (by rw [hhandler]; rfl) (fun id' hactive => ?_) (by simp)
      refine iff_of_false (fun h => ?_) fun h => absurd ((hcareful session hheld).symm.trans h) (by simp)
      obtain ⟨_, other, _, hconv⟩ := hc.held id' hactive
      exact hnew (Option.some.inj h ▸ hc.tracked.valid.known other id' hconv)
  | resume hhandler =>
      exact hc.goOn ht rfl rfl rfl rfl rfl (by rw [hhandler]; rfl) (fun _ _ => Iff.rfl) (by simp)
  | finishNone hhandler hnone =>
      refine hc.move ht (by rw [hhandler]; rfl) (.inl rfl) fun other resumed heq => ?_
      obtain ⟨rfl, -⟩ := Handler.leaving.inj heq
      exact hnone
  | finish hhandler hid => exact hc.finish hhandler hid ht
  | clear hhandler => exact hc.clear hhandler ht
  | drop hhandler =>
      exact hc.goOn ht rfl rfl rfl rfl rfl (by rw [hhandler]; rfl) (fun _ _ => Iff.rfl) (by simp)
  | @close handler session raises hhandler hnone =>
      have hheld : (w.handlers handler).session? = some session := by
        rw [hhandler]
        rfl
      refine hc.move ht hheld (.inr ?_) (by simp)
      rcases hnone with htrue | hnone
      · exact (hcareful.resolve_left (by simp [htrue])) session hheld
      · exact hnone
  | suspend hhandler hid => exact hc.suspendAs hhandler hid ht
  | run htask => exact hc.taskStep hcareful htask ht
  | elsewhere id =>
      have hactive : ∀ id', Function.update w.active id false id' = true → w.active id' = true := by
        intro id' h
        by_cases hsame : id' = id
        · rw [hsame, Function.update_self] at h
          exact absurd h (by simp)
        · rwa [Function.update_of_ne hsame] at h
      refine hc.keep ht hactive (fun k other id' _ h h' => ⟨k, ?_, h'⟩) fun _ _ _ _ hn hid _ => ⟨hn, hid⟩
      cases k with
      | handler _ => exact h
      | registry _ => exact h
      | task _ => exact h

end tracked

end Registry

end KajovoDagmar.Realtime
