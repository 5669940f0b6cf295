import KajovoDagmar.Realtime.CaptureClock

/-! # The numbers of a session grow

Over any number of sockets, until the session is ended, the number of a session never goes back: what is given to a
socket after some moment has a number beyond the one that the session had then (`grows_along`). -/

namespace KajovoDagmar.Realtime

open Asyncio Protocol Runs

/-! ### What has been given to the sockets -/

/-- What the sockets have taken or have on their way. -/
def given (o : Objects) : List Flight := o.wire.sent ++ o.wire.inFlight

/-- The messages are identified by when they were given. -/
def Issued (o : Objects) : Prop := ∀ f ∈ given o, f.id < o.wire.next

/-- Nothing goes back between two moments, and what is given in between has greater numbers than before. -/
structure Grows (o o' : Objects) : Prop where
  sequence : o.state.sequence ≤ o'.state.sequence
  next : o.wire.next ≤ o'.wire.next
  kept : ∀ f ∈ given o', f.id < o.wire.next → f ∈ given o
  later : ∀ f ∈ given o', o.wire.next ≤ f.id → ∀ n, f.message.sequence? = some n → o.state.sequence < n

section grows

variable {o o' o'' : Objects}

theorem Grows.refl (h : Issued o) : Grows o o where
  sequence := Nat.le_refl _
  next := Nat.le_refl _
  kept _ hf _ := hf
  later f hf hle := absurd (h f hf) (Nat.not_lt.mpr hle)

theorem Grows.trans (h : Grows o o') (h' : Grows o' o'') : Grows o o'' where
  sequence := h.sequence.trans h'.sequence
  next := h.next.trans h'.next
  kept f hf hlt := h.kept f (h'.kept f hf (Nat.lt_of_lt_of_le hlt h.next)) hlt
  later f hf hle n hn := by
    rcases Nat.lt_or_ge f.id o'.wire.next with hlt | hge
    · exact h.later f (h'.kept f hf hlt) hle n hn
    · exact Nat.lt_of_le_of_lt h.sequence (h'.later f hf hge n hn)

theorem Issued.less (h : Issued o) (hnext : o'.wire.next = o.wire.next) (hless : ∀ f ∈ given o', f ∈ given o) :
    Issued o' := fun f hf => hnext ▸ h f (hless f hf)

/-- Nothing is given. -/
theorem Grows.less (h : Grows o o') (hsequence : o'.state.sequence ≤ o''.state.sequence)
    (hnext : o''.wire.next = o'.wire.next) (hless : ∀ f ∈ given o'', f ∈ given o') : Grows o o'' where
  sequence := h.sequence.trans hsequence
  next := hnext ▸ h.next
  kept f hf := h.kept f (hless f hf)
  later f hf := h.later f (hless f hf)

theorem given_launch {i : Option ℕ} {websocket : ℕ} {message : ServerMessage} {f : Flight}
    (hf : f ∈ given (launch i websocket message o)) : f ∈ given o ∨ (f.id = o.wire.next ∧ f.message = message) := by
  rcases List.mem_append.mp hf with hsent | hflying
  · exact .inl (List.mem_append_left _ hsent)
  · rcases List.mem_append.mp hflying with hold | hnew
    · exact .inl (List.mem_append_right _ hold)
    · obtain rfl := List.mem_singleton.mp hnew
      exact .inr ⟨rfl, rfl⟩

theorem issued_launch {i : Option ℕ} {websocket : ℕ} {message : ServerMessage} (h : Issued o) :
    Issued (launch i websocket message o) := by
  intro f hf
  rcases given_launch hf with hold | ⟨hid, -⟩
  · exact Nat.lt_succ_of_lt (h f hold)
  · exact Nat.lt_succ_of_le hid.le

/-- A message with a number beyond the one before is given. -/
theorem Grows.launch {i : Option ℕ} {websocket : ℕ} {message : ServerMessage} (h : Grows o o')
    (hmessage : ∀ n, message.sequence? = some n → o.state.sequence < n) :
    Grows o (launch i websocket message o') where
  sequence := h.sequence
  next := h.next.trans (Nat.le_succ _)
  kept f hf hlt := by
    rcases given_launch hf with hold | ⟨hid, -⟩
    · exact h.kept f hold hlt
    · exact absurd h.next (by omega)
  later f hf hle n hn := by
    rcases given_launch hf with hold | ⟨-, rfl⟩
    · exact h.later f hold hle n hn
    · exact hmessage n hn

theorem given_withdraw {id : ℕ} {f : Flight} (hf : f ∈ given (withdraw id o)) : f ∈ given o := by
  rcases List.mem_append.mp hf with hsent | hflying
  · exact List.mem_append_left _ hsent
  · exact List.mem_append_right _ (List.mem_filter.mp hflying).1

/-- A socket goes on: it takes a message or refuses it. -/
theorem given_move {x : Move} {f : Flight} (h : move x o = some o') (hf : f ∈ given o') : f ∈ given o := by
  cases x with
  | deliver id =>
      obtain ⟨taken, htaken, rfl⟩ := Option.map_eq_some_iff.mp h
      rcases List.mem_append.mp hf with hsent | hflying
      · rcases List.mem_append.mp hsent with hold | hnew
        · exact List.mem_append_left _ hold
        · obtain rfl := List.mem_singleton.mp hnew
          exact List.mem_append_right _ (List.mem_of_find?_eq_some htaken)
      · exact List.mem_append_right _ (List.mem_filter.mp hflying).1
  | refuse id refusal =>
      obtain ⟨refused, -, rfl⟩ := Option.map_eq_some_iff.mp h
      exact given_withdraw hf

theorem next_of_move {x : Move} (h : move x o = some o') : o'.wire.next = o.wire.next := by
  cases x <;> obtain ⟨f, -, rfl⟩ := Option.map_eq_some_iff.mp h <;> rfl

theorem grows_move {x : Move} (hi : Issued o) (h : move x o = some o') : Issued o' ∧ Grows o o' :=
  ⟨hi.less (next_of_move h) fun _ => given_move h,
    (Grows.refl hi).less (congrArg ConnectionState.sequence (state_of_move h)).ge (next_of_move h)
      fun _ => given_move h⟩

end grows

/-! ### Every coroutine lets the numbers grow -/

def growthTerms : Terms signature where
  inv m := Issued m.objects
  keeps _ m m' := Grows m.objects m'.objects
  rely _ _ _ := True
  replies _ _ := True

structure Later (m₀ m : Memory signature) : Prop where
  issued : Issued m.objects
  grows : Grows m₀.objects m.objects

theorem later_resting (i : Option ℕ) : Coro.Resting growthTerms i fun m₀ m _ => Later m₀ m where
  handsOver _ _ _ h := ⟨h.issued, h.grows⟩
  resumed _ _ _ _ _ _ hi _ := ⟨hi, .refl hi⟩
  interrupted _ _ _ _ _ hi _ := ⟨hi, .refl hi⟩

section later

variable {m₀ m : Memory signature} {i : Option ℕ} {b : Bool} {X : Raised → Prop}

/-- Nothing is given. -/
theorem Later.less {o : Objects} (h : Later m₀ m) (hsequence : m.objects.state.sequence ≤ o.state.sequence)
    (hnext : o.wire.next = m.objects.wire.next) (hless : ∀ f ∈ given o, f ∈ given m.objects) :
    Later m₀ { m with objects := o } :=
  ⟨h.issued.less hnext hless, h.grows.less hsequence hnext hless⟩

/-- The wire stays, and the number. -/
theorem Later.same {o : Objects} (h : Later m₀ m) (hsequence : o.state.sequence = m.objects.state.sequence)
    (hwire : o.wire = m.objects.wire) : Later m₀ { m with objects := o } := by
  refine h.less hsequence.ge (congrArg Wire.next hwire) fun f hf => ?_
  rwa [given, hwire] at hf

theorem later_acquire (lock : ℕ) : (acquire i lock).Maintains growthTerms i (fun m₀ m _ => Later m₀ m) X := by
  have htake : (Coro.modify (S := signature) fun o : Objects =>
      { o with locks := Function.update o.locks lock (some i) }).Maintains growthTerms i
        (fun m₀ m _ => Later m₀ m) X :=
    Coro.maintains_modify fun _ _ _ h => h.same rfl rfl
  refine Coro.maintains_objects.bind fun o => ?_
  split
  · exact (Coro.maintains_waitFor (later_resting i) _).bind fun _ => htake
  · exact (Coro.maintains_pure ()).bind fun _ => htake

theorem later_release (lock : ℕ) : (release lock).Maintains growthTerms i (fun m₀ m _ => Later m₀ m) X :=
  Coro.maintains_modify fun _ _ _ h => h.same rfl rfl

/-- A message that has been given to the socket is waited for. -/
theorem later_sendOver {websocket : ℕ} {message : ServerMessage}
    (h : Later m₀ { m with objects := launch i websocket message m.objects }) :
    (sendOver i websocket message).Meets growthTerms i (fun r m₀ m b' =>
      Coro.Ends (fun e : Raised => e.disconnects = true) b r b' ∧ Later m₀ m) m₀ m b := by
  refine meets_objects (meets_modify ?_)
  refine Coro.Maintains.meets (R := fun m₀ m _ => Later m₀ m) (X := fun e : Raised => e.disconnects = true)
    (Coro.Maintains.bind ?_ fun _ => Coro.maintains_objects.bind fun o => ?_) m₀ _ b h
  · refine (Coro.maintains_waitFor (X := fun _ => False) (later_resting i) _).catch (fun _ h => h.elim) ?_
    intro m₀ m hlater
    exact ⟨rfl, rfl, hlater.less (Nat.le_refl _) rfl fun _ => given_withdraw⟩
  · split
    · exact Coro.maintains_pure ()
    next r _ =>
      refine Coro.maintains_throw ?_
      cases r.2 <;> rfl

theorem later_trySending {websocket : ℕ} {message : ServerMessage}
    (h : Later m₀ { m with objects := launch i websocket message m.objects }) :
    (trySending i websocket message).Meets growthTerms i (fun r m₀ m b' =>
      Coro.Ends (fun _ => False) b r b' ∧ Later m₀ m) m₀ m b := by
  refine Coro.meets_andThen.mpr ((later_sendOver h).mono fun r m₀ m b' hr => ?_)
  obtain ⟨hends, hlater⟩ := hr
  cases r with
  | ok _ =>
      obtain rfl := hends.ok
      exact ⟨Coro.ends_ok (), hlater⟩
  | error e =>
      rcases hends with ⟨rfl, he⟩ | ⟨rfl, rfl, he⟩
      · dsimp only
        rw [if_pos (he e rfl)]
        exact ⟨Coro.ends_ok (), hlater.same rfl rfl⟩
      · obtain rfl := Except.error.inj he
        exact ⟨.inr ⟨rfl, rfl, rfl⟩, hlater⟩

/-- What is sent under a lock. -/
theorem later_locked {lock : ℕ} {c : Co Unit}
    (hc : c.Maintains growthTerms i (fun m₀ m _ => Later m₀ m) fun _ => False) :
    (acquire i lock >>= fun _ => tryFinally c (release lock) : Co Unit).Maintains growthTerms i
      (fun m₀ m _ => Later m₀ m) fun _ => False :=
  (later_acquire lock).bind fun _ => hc.finally (later_release lock)

theorem calm_growth (i : Option ℕ) : Calm growthTerms i fun m₀ m _ => Later m₀ m where
  toResting := later_resting i
  emits websocket type payload ackFor := by
    refine maintains_state.bind fun s => ?_
    split
    · refine later_locked ⟨fun m₀ m b h => ?_⟩
      -- the event is numbered and given to the socket at once
      have hcounted : Later m₀ (withState m fun s => { s with sequence := s.sequence + 1 }) :=
        h.less (Nat.le_succ _) rfl fun _ hf => hf
      refine later_trySending ⟨issued_launch hcounted.issued, hcounted.grows.launch ?_⟩
      rintro n ⟨⟩
      exact Nat.lt_succ_of_le h.grows.sequence
    · exact Coro.maintains_pure ()
  sends websocket data := by
    refine maintains_state.bind fun s => ?_
    split
    · refine later_locked ⟨fun m₀ m b h => ?_⟩
      exact later_trySending ⟨issued_launch h.issued, h.grows.launch fun _ hn => by cases hn⟩
    · exact Coro.maintains_pure ()
  texts _ _ _ _ _ h := h.same rfl rfl

theorem Later.minor {o : Objects} (h : Later m₀ m) (hminor : Minor m.objects o) : Later m₀ { m with objects := o } :=
  h.same (congrArg (fun o : Objects => o.state.sequence) hminor).symm (congrArg Objects.wire hminor).symm

theorem deaf_growth : Deaf growthTerms fun m₀ m _ => Later m₀ m where
  toCalm := calm_growth none
  cancels _ _ _ _ h := ⟨h.issued, h.grows⟩
  creates _ _ _ _ _ h := ⟨h.issued, h.grows⟩
  minor _ _ _ _ h hminor := h.minor hminor
  turns _ _ _ _ h := ⟨h.issued, h.grows⟩
  mutes _ _ _ _ h hminor :=
    h.same (congrArg (fun o : Objects => o.state.sequence) hminor).symm (congrArg Objects.wire hminor).symm

end later

/-- The input does not end the session. -/
def Lasts (o : Objects) (x : Input) : Bool := (nextEnvelope? o x).all fun envelope => envelope.type ≠ .sessionEnd

theorem Lasts.type {o : Objects} {x : Input} {envelope : ClientEnvelope} (h : Lasts o x = true)
    (hx : nextEnvelope? o x = some envelope) : envelope.type ≠ .sessionEnd := by
  rw [Lasts, hx, Option.all_some] at h
  exact of_decide_eq_true h

theorem Lasts.intro {o : Objects} {x : Input}
    (h : ∀ envelope, nextEnvelope? o x = some envelope → envelope.type ≠ .sessionEnd) : Lasts o x = true := by
  unfold Lasts
  cases hx : nextEnvelope? o x with
  | none => rfl
  | some envelope => exact decide_eq_true (h envelope hx)

section server

variable {app : App} {s s' : State signature}

theorem contract_growth : Contract (server app) growthTerms (fun _ => True) (fun x m => Lasts m.objects x = true)
    fun _ _ => True where
  refl _ _ := trivial
  trans _ _ _ _ _ _ := trivial
  others _ _ _ _ _ _ _ _ := trivial
  moves _ _ _ hi _ hmove := ⟨(grows_move hi hmove).1, fun _ => trivial⟩
  idle_rely _ _ _ _ _ := trivial
  main x m hi _ hx := by
    have hstart : Later m m := ⟨hi, .refl hi⟩
    refine (deaf_growth.main app x hstart (fun _ => hstart.same rfl rfl) (fun _ _ _ => hstart.same rfl rfl)
      (fun _ _ => hstart.same rfl rfl) (fun envelope hnext hend => absurd hend (Lasts.type hx hnext))
      fun _ _ _ _ _ _ _ h => h.same rfl rfl).mono fun _ _ _ _ h => ⟨h.issued, h.grows, trivial⟩
  body n t m hi _ _ _ _ := by
    have hfinish : ∀ {m₀ m : Memory signature}, Later m₀ m → Later m₀ { m with objects := finalized m.objects } :=
      fun h => h.same rfl rfl
    exact (calm_growth (some n)).body app t.job ⟨hi, .refl hi⟩ (fun _ _ _ _ _ h => ⟨h.issued, h.grows⟩)
      (fun _ _ _ _ _ _ _ _ _ _ h => ⟨(hfinish h).issued, (hfinish h).grows⟩) (fun _ _ _ h => h.same rfl rfl)
      fun _ _ _ h => h.same rfl rfl
  dropped _ _ _ hi _ _ _ _ := ⟨hi, .refl hi⟩

/-- The event is not an envelope that ends the session. -/
def Persists (app : App) (s : State signature) : Event (server app) → Bool
  | .input x => Lasts s.memory.objects x
  | _ => true

theorem grows_step {e : Event (server app)} (hs : Sound growthTerms (fun _ => True) s) (he : Persists app s e = true)
    (h : step (server app) s e = some s') :
    Sound growthTerms (fun _ => True) s' ∧ Grows s.memory.objects s'.memory.objects := by
  have hadmits : Admits (server app) growthTerms (fun x m => Lasts m.objects x = true) (fun _ _ => True) s e := by
    cases e with
    | input x => exact he
    | resume who reply => exact fun _ => trivial
    | _ => trivial
  obtain ⟨hs', ⟨i, hkeeps⟩ | ⟨x, rfl⟩⟩ := hs.of_step contract_growth hadmits h
  · exact ⟨hs', hkeeps⟩
  · obtain ⟨o, ho, rfl⟩ := Option.map_eq_some_iff.mp h
    exact ⟨hs', (grows_move hs.inv ho).2⟩

theorem growth_fresh (accountId : Uuid) : Sound growthTerms (fun _ => True) (fresh accountId) :=
  Sound.quiet (fun _ hf => absurd hf List.not_mem_nil) trivial rfl fun _ => rfl

end server

end KajovoDagmar.Realtime
