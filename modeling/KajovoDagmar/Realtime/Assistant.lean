import KajovoDagmar.Realtime.CaptureClock

/-! # One answer at a time

The turns of a session and its speech are run as tasks, each of which replaces the one before it: that one is
cancelled, and its end is awaited.  In every run at most one of them is not done, and it is the one that the session
knows (`one_answer`). -/

namespace KajovoDagmar.Realtime

open Asyncio Protocol Runs

/-- The task answers or speaks. -/
def Job.assists : Job → Bool
  | processAudioTurn .. | processTextTurn .. | synthesize .. => true
  | emitPartialTranscript .. | expireSuspendedSession => false

/-- The task answers or speaks, and is not done. -/
def Busy (m : Memory signature) (n : ℕ) : Prop :=
  ∃ t, m.tasks[n]? = some t ∧ t.job.assists = true ∧ t.outcome = none

instance (m : Memory signature) (n : ℕ) : Decidable (Busy m n) :=
  decidable_of_iff ((m.tasks[n]?).any (fun t => t.job.assists && t.outcome.isNone) = true) (by
    simp only [Option.any_eq_true, Bool.and_eq_true, Option.isNone_iff_eq_none]
    rfl)

/-- No task but that of the session is busy. -/
def OneAnswer (m : Memory signature) : Prop := ∀ n, Busy m n → m.objects.state.assistantTask = some n

/-- Tasks end, and the session keeps its own. -/
structure Retires (m m' : Memory signature) : Prop where
  assistant : m'.objects.state.assistantTask = m.objects.state.assistantTask
  busy : ∀ n, Busy m' n → Busy m n

theorem Retires.refl (m : Memory signature) : Retires m m := ⟨rfl, fun _ h => h⟩

theorem Retires.trans {m m' m'' : Memory signature} (h : Retires m m') (h' : Retires m' m'') : Retires m m'' :=
  ⟨h'.assistant.trans h.assistant, fun n hn => h.busy n (h'.busy n hn)⟩

theorem Retires.oneAnswer {m m' : Memory signature} (h : Retires m m') (hone : OneAnswer m) : OneAnswer m' :=
  fun n hn => h.assistant.trans (hone n (h.busy n hn))

/-- A task changes, and is not busy again. -/
theorem retires_change {m : Memory signature} {k : ℕ} {f : Task signature → Task signature}
    (hf : ∀ t, (f t).job = t.job ∧ ((f t).outcome = none → t.outcome = none)) : Retires m (m.change k f) := by
  refine ⟨rfl, fun n hn => ?_⟩
  obtain ⟨u, hu, hjob, hopen⟩ := hn
  by_cases hnk : n = k
  · subst hnk
    cases ht : m.tasks[n]? with
    | none =>
        rw [List.getElem?_eq_none (by rw [Memory.length_change]; exact List.getElem?_eq_none_iff.mp ht)] at hu
        cases hu
    | some t =>
        rw [Memory.getElem?_change_self f ht] at hu
        obtain rfl := Option.some.inj hu
        exact ⟨t, ht, (hf t).1 ▸ hjob, (hf t).2 hopen⟩
  · exact ⟨u, (Memory.getElem?_change_of_ne m f hnk).symm.trans hu, hjob, hopen⟩

theorem retires_finish (m : Memory signature) (n : ℕ) (r : Except Raised Unit) : Retires m (m.finish n r) :=
  retires_change fun _ => ⟨rfl, fun hnone => absurd hnone (Option.some_ne_none r)⟩

/-- A new task. -/
theorem busy_append {m : Memory signature} {job : Job} {n : ℕ}
    (h : Busy { m with tasks := m.tasks ++ [{ job := job }] } n) :
    Busy m n ∨ (n = m.tasks.length ∧ job.assists = true) := by
  obtain ⟨t, ht, hjob, hopen⟩ := h
  rcases Nat.lt_or_ge n m.tasks.length with hlt | hge
  · rw [List.getElem?_append_left hlt] at ht
    exact .inl ⟨t, ht, hjob, hopen⟩
  · rw [List.getElem?_append_right hge] at ht
    obtain ⟨hzero, rfl⟩ := List.getElem?_eq_some_iff.mp ht
    rw [List.length_singleton] at hzero
    rw [List.getElem_singleton] at hjob
    exact .inr ⟨by omega, hjob⟩

theorem oneAnswer_append {m : Memory signature} {job : Job} (h : OneAnswer m) (hjob : job.assists = false) :
    OneAnswer { m with tasks := m.tasks ++ [{ job := job }] } := fun n hn => by
  rcases busy_append hn with hold | ⟨-, hassists⟩
  · exact h n hold
  · exact absurd (hassists.symm.trans hjob) (by simp)

theorem not_busy_of_done {m : Memory signature} {n : ℕ} (h : m.done n = true) : ¬Busy m n := by
  rintro ⟨t, ht, -, hopen⟩
  rw [Memory.done, ht, Option.any_some, hopen] at h
  exact Bool.false_ne_true h

/-! ### The terms -/

def answerTerms : Terms signature where
  inv := OneAnswer
  keeps
    | none, _, _ => True
    | some _, m, m' => Retires m m'
  rely
    | none, m, m' => Retires m m'
    | some _, _, _ => True
  replies _ _ := True

/-- What a task maintains. -/
def Apart (m₀ m : Memory signature) (_ : Bool) : Prop := OneAnswer m ∧ Retires m₀ m

theorem Apart.writes {m₀ m : Memory signature} {b : Bool} {o : Objects} (h : Apart m₀ m b)
    (ho : o.state.assistantTask = m.objects.state.assistantTask) : Apart m₀ { m with objects := o } b :=
  ⟨fun n hn => ho.trans (h.1 n hn), ho.trans h.2.assistant, h.2.busy⟩

theorem Apart.retires {m₀ m m' : Memory signature} {b : Bool} (h : Apart m₀ m b) (hretires : Retires m m') :
    Apart m₀ m' b :=
  ⟨hretires.oneAnswer h.1, h.2.trans hretires⟩

theorem calm_answer (n : ℕ) : Calm answerTerms (some n) Apart :=
  Calm.of_quiet
    { handsOver := fun _ _ _ h => h
      resumed := fun _ _ m' _ _ _ hi _ => ⟨hi, .refl m'⟩
      interrupted := fun _ _ m' _ _ hi _ => ⟨hi, .refl m'⟩ }
    fun _ _ _ _ h hquiet => h.writes (congrArg (fun o : Objects => o.state.assistantTask) hquiet).symm

/-- What the session maintains; nobody interrupts it. -/
def Tended (_ m : Memory signature) (b : Bool) : Prop := OneAnswer m ∧ b = false

theorem calm_session : Calm answerTerms none Tended :=
  Calm.of_quiet
    { handsOver := fun _ _ _ h => ⟨h.1, trivial⟩
      resumed := fun _ _ _ _ h _ hi _ => ⟨hi, h.2⟩
      interrupted := fun _ _ _ _ _ _ hcancelled => absurd hcancelled Bool.false_ne_true }
    fun _ _ _ _ h hquiet =>
      ⟨fun n hn => (congrArg (fun o : Objects => o.state.assistantTask) hquiet).symm.trans (h.1 n hn), h.2⟩

/-! ### The session -/

section session

/-- The bookkeeping leaves the assistant alone. -/
theorem oneAnswer_writes {m : Memory signature} {o : Objects} (h : OneAnswer m)
    (ho : o.state.assistantTask = m.objects.state.assistantTask) : OneAnswer { m with objects := o } :=
  fun n hn => ho.trans (h n hn)

theorem keeps_assign {f : ConnectionState → ConnectionState} (hf : ∀ s, (f s).assistantTask = s.assistantTask) :
    Keeps answerTerms Tended (assign f) :=
  Coro.maintains_modify fun _ m _ h => ⟨oneAnswer_writes h.1 (hf m.objects.state), h.2⟩

theorem keeps_createTask {job : Job} (hjob : job.assists = false) :
    Keeps answerTerms Tended (Coro.createTask (S := signature) job) :=
  ⟨fun _ _ _ h => ⟨Coro.ends_ok _, oneAnswer_append h.1 hjob, h.2⟩⟩

theorem retires_cancel (m : Memory signature) (n : ℕ) :
    Retires m (m.change n fun t => { t with cancelled := t.outcome.isNone ∨ t.cancelled }) :=
  retires_change fun _ => ⟨rfl, id⟩

theorem keeps_cancel (n : ℕ) : Keeps answerTerms Tended (Coro.cancel (S := signature) n) :=
  ⟨fun _ m _ h => ⟨Coro.ends_ok (), (retires_cancel m n).oneAnswer h.1, h.2⟩⟩

theorem keeps_joinSuppressed (n : ℕ) : Keeps answerTerms Tended (joinSuppressed n) := by
  refine (Coro.maintains_join calm_session.toResting n).handle fun e _ => ?_
  cases e with
  | cancelled => exact Coro.maintains_pure ()
  | exc e => exact Coro.maintains_throw trivial

theorem keeps_cancelPartialTask : Keeps answerTerms Tended cancelPartialTask :=
  maintains_state.bind fun _ => (Keeps.cancelTask calm_session.toResting keeps_cancel _).bind fun _ =>
    keeps_assign fun _ => rfl

variable {m₀ m : Memory signature} {b : Bool}

/-- No task is busy, and none has to be. -/
structure Silent (m : Memory signature) : Prop where
  oneAnswer : OneAnswer m
  idle : ∀ n, ¬Busy m n

theorem silent_of_done {k : ℕ} (h : OneAnswer m) (hassistant : m.objects.state.assistantTask = some k)
    (hdone : m.done k = true) : Silent m := by
  refine ⟨h, fun n hn => ?_⟩
  obtain rfl : k = n := Option.some.inj (hassistant.symm.trans (h n hn))
  exact not_busy_of_done hdone hn

/-- How the assistant of the session ends: with an exception, or with no task left. -/
def Silenced (r : Except Raised Unit) (m₀ m : Memory signature) (b : Bool) : Prop :=
  Tended m₀ m b ∧ (r = .ok () → Silent m)

theorem meets_joinSuppressed {k : ℕ} (h : Tended m₀ m b) (hassistant : m.objects.state.assistantTask = some k) :
    (joinSuppressed k).Meets answerTerms none Silenced m₀ m b := by
  have hjoin : (Coro.join (S := signature) k).Meets answerTerms none (fun _ _ m b => Silent m ∧ b = false) m₀ m b :=
    ⟨h.1, trivial, fun m' hr hi _ hp => ⟨silent_of_done hi (hr.assistant.trans hassistant) hp, h.2⟩,
      fun _ _ _ _ hcancelled => absurd hcancelled Bool.false_ne_true⟩
  refine Coro.meets_andThen.mpr (hjoin.mono fun r m₀ m b hsilent => ?_)
  obtain ⟨hsilent, hb⟩ := hsilent
  cases r with
  | ok _ => exact ⟨⟨hsilent.oneAnswer, hb⟩, fun _ => hsilent⟩
  | error e =>
      cases e with
      | cancelled => exact ⟨⟨hsilent.oneAnswer, hb⟩, fun _ => hsilent⟩
      | exc e => exact ⟨⟨hsilent.oneAnswer, hb⟩, fun hr => absurd hr (by simp)⟩

/-- Once the task of the session has been cancelled, no task is busy. -/
theorem meets_cancelAssistantTask (h : Tended m₀ m b) :
    cancelAssistantTask.Meets answerTerms none Silenced m₀ m b := by
  have hcancel : (cancelTask m.objects.state.assistantTask).Meets answerTerms none Silenced m₀ m b := by
    cases htask : m.objects.state.assistantTask with
    | none => exact ⟨h, fun _ => ⟨h.1, fun n hn => absurd (htask.symm.trans (h.1 n hn)) (by simp)⟩⟩
    | some k =>
        change (if (!m.done k) = true then _ else _ : Co Unit).Meets _ _ _ _ _ _
        split
        · have hretires := retires_cancel m k
          exact meets_joinSuppressed ⟨hretires.oneAnswer h.1, h.2⟩ (hretires.assistant.trans htask)
        next hdone =>
          rw [Bool.not_eq_true, Bool.not_eq_false'] at hdone
          exact ⟨h, fun _ => silent_of_done h.1 htask hdone⟩
  refine meets_state (hcancel.bind (fun _ m₀ m b hsilenced => ?_) fun e m₀ m b hsilenced => hsilenced)
  have hsilent := hsilenced.2 rfl
  have hidle : OneAnswer (withState m fun s => { s with assistantTask := none }) := fun n hn =>
    absurd hn (hsilent.idle n)
  exact ⟨⟨hidle, hsilenced.1.2⟩, fun _ => ⟨hidle, hsilent.idle⟩⟩

/-- The new task is the only one that is busy. -/
theorem meets_replaceAssistantTask (h : Tended m₀ m b) (job : Job) :
    (replaceAssistantTask job).Meets answerTerms none (fun _ m₀ m b => Tended m₀ m b) m₀ m b := by
  refine (meets_cancelAssistantTask h).bind (fun _ m₀ m b hsilenced => ?_) fun _ _ _ _ hsilenced => hsilenced.1
  refine ⟨fun n hn => ?_, hsilenced.1.2⟩
  rcases busy_append hn with hold | ⟨rfl, -⟩
  · exact absurd hold ((hsilenced.2 rfl).idle n)
  · rfl

theorem keeps_replaceAssistantTask (job : Job) : Keeps answerTerms Tended (replaceAssistantTask job) :=
  ⟨fun _ _ _ h => (meets_replaceAssistantTask h job).mono fun _ _ _ _ hend =>
    ⟨.inl ⟨hend.2.trans h.2.symm, fun _ _ => trivial⟩, hend⟩⟩

theorem silences_answer (h : Tended m₀ m b) : Silences answerTerms Tended m₀ m b where
  cancelAssistantTask := (meets_cancelAssistantTask h).mono fun _ _ _ _ hsilenced => hsilenced.1
  replaceAssistantTask job _ := meets_replaceAssistantTask h job

theorem bustle_answer : Bustle answerTerms Tended where
  toCalm := calm_session
  writes _ _ _ _ h ho :=
    ⟨oneAnswer_writes h.1 (congrArg (fun o : Objects => o.state.assistantTask) ho).symm, h.2⟩
  cancelPartialTask := keeps_cancelPartialTask
  transcribes _ _ _ := Coro.Maintains.bind (keeps_createTask rfl) fun _ => keeps_assign fun _ => rfl
  expires := Coro.Maintains.bind (keeps_createTask rfl) fun _ => keeps_assign fun _ => rfl
  unexpires _ _ _ task h _ := Keeps.upholds ((keeps_cancel task).bind fun _ => keeps_joinSuppressed task) h
  finalizeAudioTurn websocket language ackFor := by
    refine maintains_state.bind fun s => ?_
    split
    · exact Coro.maintains_pure ()
    · exact Coro.Maintains.bind (keeps_assign fun _ => rfl) fun _ => keeps_cancelPartialTask.bind fun _ =>
        maintains_state.bind fun s => Coro.Maintains.bind (keeps_assign fun _ => rfl) fun _ =>
          keeps_replaceAssistantTask _

end session

theorem contract_answer (app : App) : Contract (server app) answerTerms (fun _ => True) (fun _ _ => True)
    fun _ _ => True where
  refl i m := by cases i with
    | none => exact .refl m
    | some _ => trivial
  trans i _ _ _ h h' := by cases i with
    | none => exact Retires.trans h h'
    | some _ => trivial
  others i j _ _ hne _ _ h := by
    cases i with
    | none =>
        cases j with
        | none => exact absurd rfl hne
        | some _ => exact h
    | some _ => trivial
  moves x m o hi _ hmove := by
    have hstate : o.state = m.objects.state := state_of_move hmove
    have hretires : Retires m { m with objects := o } := ⟨congrArg ConnectionState.assistantTask hstate, fun _ h => h⟩
    refine ⟨hretires.oneAnswer hi, fun i => ?_⟩
    cases i with
    | none => exact hretires
    | some _ => trivial
  idle_rely _ _ _ _ _ := trivial
  main x m hi _ _ := by
    have hstart : Tended m m false := ⟨hi, rfl⟩
    exact (bustle_answer.main app x hstart (fun _ => hstart) (fun _ _ _ _ => hstart) (fun _ _ _ _ => hstart)
      (fun _ _ => hstart) (fun _ _ _ => silences_answer hstart) (fun _ _ _ => hstart) (fun _ _ _ => hstart)
      (fun _ _ _ _ _ _ h => h) fun _ _ _ _ _ _ _ h => h).mono fun _ _ _ _ h => ⟨h.1, trivial, trivial⟩
  body n t m hi _ _ _ _ := by
    have hfinish : ∀ (r : Except Raised Unit) (m₀ m : Memory signature) (b : Bool), Apart m₀ m b →
        Apart m₀ (m.finish n r) b := fun r _ _ _ h => h.retires (retires_finish _ n r)
    have hstart : Apart m (m.begin n) false := Apart.retires ⟨hi, .refl m⟩ (retires_change fun _ => ⟨rfl, id⟩)
    exact (calm_answer n).body app t.job hstart (fun r m₀ m b _ h => hfinish r m₀ m b h)
      (fun _ _ _ _ _ r m₀ m b _ h => hfinish r m₀ _ b (h.writes (o := finalized m.objects) rfl))
      (fun _ _ _ h => h.writes rfl) fun _ _ _ h => h.writes rfl
  dropped n t m hi _ _ _ _ := by
    have hstart : Apart m (m.begin n) false := Apart.retires ⟨hi, .refl m⟩ (retires_change fun _ => ⟨rfl, id⟩)
    exact hstart.retires (retires_finish _ n _)

/-- **One answer at a time**: in every run, at most one of the tasks that answer or speak is not done, and it is the
one that the session knows. -/
theorem one_answer (app : App) (accountId : Uuid) (events : List (Event (server app))) (s : State signature)
    (hrun : run (step (server app)) (fresh accountId) events = some s) :
    (∀ n k, Busy s.memory n → Busy s.memory k → n = k) ∧
      ∀ n, Busy s.memory n → (session s).assistantTask = some n := by
  have hstart : OneAnswer (fresh accountId).memory := fun n hn => by
    obtain ⟨t, ht, -⟩ := hn
    cases ht
  have hs := Sound.of_run (contract_answer app) (fun _ _ => trivial)
    (Sound.quiet hstart trivial rfl fun _ => rfl) hrun
  exact ⟨fun n k hn hk => Option.some.inj ((hs.inv n hn).symm.trans (hs.inv k hk)), hs.inv⟩

/-- A text, and another one before the first has been answered. -/
def twoTexts : List (Event (server sampleApp)) :=
  Sample.opening ++ [.input (.message (.text (some
    (Sample.envelope .turnText 1 (.obj [("text", .str "Dobrý den")]))))),
    .start 0, .input (.message (.text (some (Sample.envelope .turnText 2
      (.obj [("text", .str "Kolik je hodin?")])))))]

theorem one_answer_twoTexts : ∃ s, run (step (server sampleApp)) (fresh 1) twoTexts = some s ∧
    Busy s.memory 0 ∧ ∀ n, Busy s.memory n → (session s).assistantTask = some n := by
  have hrun : ((run (step (server sampleApp)) (fresh 1) twoTexts).any fun s => decide (Busy s.memory 0)) = true := by
    decide +kernel
  obtain ⟨s, hs, hbusy⟩ := Option.any_eq_true _ _ |>.mp hrun
  exact ⟨s, hs, of_decide_eq_true hbusy, (one_answer sampleApp 1 twoTexts s hs).2⟩

end KajovoDagmar.Realtime
