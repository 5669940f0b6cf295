import KajovoDagmar.Realtime.CaptureClock

/-! # The numbers of the events

The coroutines of a connection number their events and give them to the socket under one lock.  Whatever the order of
their steps, one message at a time is on its way, and the events reach the socket in the order of their numbers; as
long as no message is refused or given up, no number is left out (`events_numbered`). -/

namespace KajovoDagmar.Realtime

open Asyncio Protocol Runs

/-! ### The line -/

/-- What sending has to do with. -/
structure Line where
  wire : Wire
  locks : ℕ → Option (Option ℕ)
  sendLock : ℕ
  sequence : ℕ

def line (o : Objects) : Line := ⟨o.wire, o.locks, o.state.sendLock, o.state.sequence⟩

namespace Line

variable {L L' L'' : Line} {i : Option ℕ}

/-- `given` are all messages that have been given to the socket, in their order. -/
structure Account (L : Line) (given : List Flight) : Prop where
  ids : given.map Flight.id = List.range L.wire.next
  numbers : given.filterMap (fun f => f.message.sequence?) = List.range' 1 L.sequence
  kept : (L.wire.sent ++ L.wire.inFlight).Sublist given

structure Numbered (L : Line) : Prop where
  account : ∃ given, L.Account given
  owned : ∀ f ∈ L.wire.inFlight, L.locks L.sendLock = some f.owner
  single : L.wire.inFlight.length ≤ 1

/-- The coroutine has no lock and no message on its way. -/
structure Free (i : Option ℕ) (L : Line) : Prop where
  locks : ∀ lock, L.locks lock ≠ some i
  flights : ∀ f ∈ L.wire.inFlight, f.owner ≠ i

/-- The coroutine has the lock of the session and no message on its way. -/
structure Holding (i : Option ℕ) (lock : ℕ) (L : Line) : Prop where
  sendLock : L.sendLock = lock
  locks : ∀ lock, L.locks lock = some i ↔ lock = L.sendLock
  flights : ∀ f ∈ L.wire.inFlight, f.owner ≠ i

/-- The coroutine has the lock of the session, and no other message on its way than this one. -/
structure Sending (i : Option ℕ) (lock id : ℕ) (L : Line) : Prop where
  sendLock : L.sendLock = lock
  locks : ∀ lock, L.locks lock = some i ↔ lock = L.sendLock
  flights : ∀ f ∈ L.wire.inFlight, f.owner = i → f.id = id

/-- What the socket has taken stays taken, and what has been refused or given up is never made up for. -/
structure Progress (L L' : Line) : Prop where
  sent : L.wire.sent <+: L'.wire.sent
  loses : L.wire.next + (L'.wire.sent.length + L'.wire.inFlight.length) ≤
    L'.wire.next + (L.wire.sent.length + L.wire.inFlight.length)

/-- What the coroutine leaves to the others. -/
structure Spares (i : Option ℕ) (L L' : Line) : Prop where
  progress : Progress L L'
  sendLock : L'.sendLock = L.sendLock
  locks : ∀ j ≠ i, ∀ lock, L'.locks lock = some j ↔ L.locks lock = some j
  flights : ∀ f ∈ L'.wire.inFlight, f.owner ≠ i → f ∈ L.wire.inFlight

/-- What the others leave to the coroutine. -/
structure Respects (i : Option ℕ) (L L' : Line) : Prop where
  sendLock : L'.sendLock = L.sendLock
  locks : ∀ lock, L'.locks lock = some i ↔ L.locks lock = some i
  flights : ∀ f ∈ L'.wire.inFlight, f.owner = i → f ∈ L.wire.inFlight

theorem Progress.refl (L : Line) : Progress L L := ⟨List.prefix_rfl, Nat.le_refl _⟩

theorem Progress.trans (h : Progress L L') (h' : Progress L' L'') : Progress L L'' :=
  ⟨h.sent.trans h'.sent, by have := h.loses; have := h'.loses; omega⟩

theorem Spares.refl (i : Option ℕ) (L : Line) : Spares i L L :=
  ⟨.refl L, rfl, fun _ _ _ => Iff.rfl, fun _ h _ => h⟩

theorem Spares.trans (h : Spares i L L') (h' : Spares i L' L'') : Spares i L L'' where
  progress := h.progress.trans h'.progress
  sendLock := h'.sendLock.trans h.sendLock
  locks j hj lock := (h'.locks j hj lock).trans (h.locks j hj lock)
  flights f hf ho := h.flights f (h'.flights f hf ho) ho

theorem Respects.refl (i : Option ℕ) (L : Line) : Respects i L L := ⟨rfl, fun _ => Iff.rfl, fun _ h _ => h⟩

theorem Respects.trans (h : Respects i L L') (h' : Respects i L' L'') : Respects i L L'' where
  sendLock := h'.sendLock.trans h.sendLock
  locks lock := (h'.locks lock).trans (h.locks lock)
  flights f hf ho := h.flights f (h'.flights f hf ho) ho

theorem Spares.respects {j : Option ℕ} (h : Spares j L L') (hne : i ≠ j) : Respects i L L' where
  sendLock := h.sendLock
  locks lock := h.locks i hne lock
  flights f hf ho := h.flights f hf (by rw [ho]; exact hne)

theorem Free.respects (h : Free i L) (hr : Respects i L L') : Free i L' where
  locks lock hl := h.locks lock ((hr.locks lock).mp hl)
  flights f hf ho := h.flights f (hr.flights f hf ho) ho

theorem Sending.respects {lock id : ℕ} (h : Sending i lock id L) (hr : Respects i L L') : Sending i lock id L' where
  sendLock := hr.sendLock.trans h.sendLock
  locks lock := by
    rw [hr.locks, h.locks, hr.sendLock]
  flights f hf ho := h.flights f (hr.flights f hf ho) ho

/-- The line is idle while its lock is free. -/
theorem Numbered.idle (h : L.Numbered) (hfree : L.locks L.sendLock = none) : L.wire.inFlight = [] := by
  refine List.eq_nil_iff_forall_not_mem.mpr fun f hf => ?_
  exact absurd ((h.owned f hf).symm.trans hfree) (Option.some_ne_none _)

/-- A coroutine that has the lock and sends nothing finds the line idle. -/
theorem Numbered.idle_of_holding {lock : ℕ} (h : L.Numbered) (hi : Holding i lock L) : L.wire.inFlight = [] := by
  refine List.eq_nil_iff_forall_not_mem.mpr fun f hf => hi.flights f hf ?_
  exact Option.some.inj ((h.owned f hf).symm.trans ((hi.locks _).mpr rfl))

/-! ### What sending does to the line -/

/-- The lock is taken. -/
def take (i : Option ℕ) (L : Line) : Line := { L with locks := Function.update L.locks L.sendLock (some i) }

def drop (L : Line) : Line := { L with locks := Function.update L.locks L.sendLock none }

/-- A message is given to the socket, after the events up to `sequence` have been numbered. -/
def give (i : Option ℕ) (websocket : ℕ) (message : ServerMessage) (sequence : ℕ) (L : Line) : Line :=
  { L with
    wire := { L.wire with
      next := L.wire.next + 1
      inFlight := L.wire.inFlight ++ [⟨L.wire.next, i, websocket, message⟩] }
    sequence := sequence }

/-- A message is given up. -/
def giveUp (id : ℕ) (L : Line) : Line :=
  { L with wire := { L.wire with inFlight := L.wire.inFlight.filter fun f => f.id ≠ id } }

theorem take_spares (hfree : L.locks L.sendLock = none) : Spares i L (L.take i) where
  progress := ⟨List.prefix_rfl, Nat.le_refl _⟩
  sendLock := rfl
  locks j hj lock := by
    change Function.update L.locks L.sendLock (some i) lock = some j ↔ _
    by_cases hlock : lock = L.sendLock
    · rw [hlock, Function.update_self, hfree]
      exact iff_of_false (fun h => hj (Option.some.inj h).symm) (by simp)
    · rw [Function.update_of_ne hlock]
  flights f hf _ := hf

theorem take_numbered (h : L.Numbered) (hfree : L.locks L.sendLock = none) : (L.take i).Numbered where
  account := h.account.imp fun _ ha => ⟨ha.ids, ha.numbers, ha.kept⟩
  owned f hf := by
    have hnone : f ∈ L.wire.inFlight := hf
    rw [h.idle hfree] at hnone
    exact absurd hnone List.not_mem_nil
  single := h.single

theorem take_holding (h : Free i L) : Holding i L.sendLock (L.take i) where
  sendLock := rfl
  locks lock := by
    change Function.update L.locks L.sendLock (some i) lock = some i ↔ lock = L.sendLock
    by_cases hlock : lock = L.sendLock
    · rw [hlock, Function.update_self]
      exact iff_of_true rfl rfl
    · rw [Function.update_of_ne hlock]
      exact iff_of_false (h.locks lock) hlock
  flights := h.flights

theorem drop_spares {lock : ℕ} (h : Holding i lock L) : Spares i L L.drop where
  progress := ⟨List.prefix_rfl, Nat.le_refl _⟩
  sendLock := rfl
  locks j hj lock := by
    change Function.update L.locks L.sendLock none lock = some j ↔ _
    by_cases hlock : lock = L.sendLock
    · rw [hlock, Function.update_self, (h.locks L.sendLock).mpr rfl]
      exact iff_of_false (by simp) fun h => hj (Option.some.inj h).symm
    · rw [Function.update_of_ne hlock]
  flights f hf _ := hf

theorem drop_numbered {lock : ℕ} (h : L.Numbered) (hi : Holding i lock L) : L.drop.Numbered where
  account := h.account.imp fun _ ha => ⟨ha.ids, ha.numbers, ha.kept⟩
  owned f hf := by
    have hnone : f ∈ L.wire.inFlight := hf
    rw [h.idle_of_holding hi] at hnone
    exact absurd hnone List.not_mem_nil
  single := h.single

theorem drop_free {lock : ℕ} (h : Holding i lock L) : Free i L.drop where
  locks lock := by
    change Function.update L.locks L.sendLock none lock ≠ some i
    by_cases hlock : lock = L.sendLock
    · rw [hlock, Function.update_self]
      exact (Option.some_ne_none i).symm
    · rw [Function.update_of_ne hlock]
      exact fun hl => hlock ((h.locks lock).mp hl)
  flights := h.flights

section give

variable {lock websocket : ℕ} {message : ServerMessage} {sequence : ℕ}

theorem give_spares : Spares i L (L.give i websocket message sequence) where
  progress := by
    refine ⟨List.prefix_rfl, ?_⟩
    change L.wire.next + (L.wire.sent.length + (L.wire.inFlight ++ [_]).length) ≤ L.wire.next + 1 + _
    rw [List.length_append, List.length_singleton]
    omega
  sendLock := rfl
  locks _ _ _ := Iff.rfl
  flights f hf ho := by
    rcases List.mem_append.mp hf with hold | hnew
    · exact hold
    · rw [List.mem_singleton.mp hnew] at ho
      exact absurd rfl ho

theorem give_sending (h : Holding i lock L) :
    Sending i lock L.wire.next (L.give i websocket message sequence) where
  sendLock := h.sendLock
  locks := h.locks
  flights f hf ho := by
    rcases List.mem_append.mp hf with hold | hnew
    · exact absurd ho (h.flights f hold)
    · rw [List.mem_singleton.mp hnew]

/-- The next number is that of the message, if it has one. -/
theorem give_numbered (h : L.Numbered) (hi : Holding i lock L)
    (hsequence : List.range' 1 sequence = List.range' 1 L.sequence ++ message.sequence?.toList) :
    (L.give i websocket message sequence).Numbered := by
  have hidle := h.idle_of_holding hi
  obtain ⟨given, ha⟩ := h.account
  refine ⟨⟨given ++ [⟨L.wire.next, i, websocket, message⟩], ?_, ?_, ?_⟩, fun f hf => ?_, ?_⟩
  · rw [List.map_append, ha.ids]
    exact List.range_succ.symm
  · have hone : ([⟨L.wire.next, i, websocket, message⟩] : List Flight).filterMap (fun f => f.message.sequence?) =
        message.sequence?.toList := by
      cases message <;> rfl
    rw [List.filterMap_append, ha.numbers, hone]
    exact hsequence.symm
  · change (L.wire.sent ++ (L.wire.inFlight ++ [_])).Sublist _
    rw [← List.append_assoc]
    exact ha.kept.append (List.Sublist.refl _)
  · have hnew : f ∈ L.wire.inFlight ++ [_] := hf
    rw [hidle, List.nil_append, List.mem_singleton] at hnew
    rw [hnew]
    exact (hi.locks _).mpr rfl
  · change (L.wire.inFlight ++ [_]).length ≤ 1
    rw [hidle]
    exact Nat.le_refl 1

end give

theorem giveUp_progress (id : ℕ) : Progress L (L.giveUp id) :=
  ⟨List.prefix_rfl, Nat.add_le_add_left (Nat.add_le_add_left (List.length_filter_le ..) _) _⟩

theorem giveUp_spares {id : ℕ} : Spares i L (L.giveUp id) :=
  ⟨giveUp_progress id, rfl, fun _ _ _ => Iff.rfl, fun _ hf _ => (List.mem_filter.mp hf).1⟩

theorem giveUp_numbered (h : L.Numbered) (id : ℕ) : (L.giveUp id).Numbered where
  account := h.account.imp fun _ ha =>
    ⟨ha.ids, ha.numbers, ((List.Sublist.refl _).append List.filter_sublist).trans ha.kept⟩
  owned f hf := h.owned f (List.mem_filter.mp hf).1
  single := (List.length_filter_le ..).trans h.single

theorem giveUp_holding {lock id : ℕ} (h : Sending i lock id L) : Holding i lock (L.giveUp id) where
  sendLock := h.sendLock
  locks := h.locks
  flights f hf ho := by
    obtain ⟨hmem, hid⟩ := List.mem_filter.mp hf
    exact of_decide_eq_true hid (h.flights f hmem ho)

/-- The socket takes the message that is on its way. -/
def deliver (f : Flight) (L : Line) : Line :=
  { L.giveUp f.id with wire := { (L.giveUp f.id).wire with sent := L.wire.sent ++ [f] } }

theorem deliver_numbered {f : Flight} (h : L.Numbered) (hf : f ∈ L.wire.inFlight) : (L.deliver f).Numbered := by
  have honly : L.wire.inFlight = [f] := by
    obtain ⟨f', hf'⟩ := List.length_eq_one_iff.mp (Nat.le_antisymm h.single (List.length_pos_of_mem hf))
    rw [hf', List.mem_singleton] at hf
    rw [hf', hf]
  have hgone : (L.deliver f).wire.inFlight = [] := by
    change L.wire.inFlight.filter _ = []
    rw [honly]
    simp
  refine ⟨h.account.imp fun _ ha => ⟨ha.ids, ha.numbers, ?_⟩, fun f' hf' => ?_, ?_⟩
  · rw [hgone, List.append_nil]
    change (L.wire.sent ++ [f]).Sublist _
    rw [← honly]
    exact ha.kept
  · rw [hgone] at hf'
    exact absurd hf' List.not_mem_nil
  · rw [hgone]
    exact Nat.zero_le 1

theorem deliver_progress {f : Flight} (hf : f ∈ L.wire.inFlight) : Progress L (L.deliver f) := by
  refine ⟨List.prefix_append _ _, ?_⟩
  have hshorter : (L.wire.inFlight.filter fun f' => f'.id ≠ f.id).length < L.wire.inFlight.length :=
    List.length_filter_lt_length_iff_exists.mpr ⟨f, hf, by simp⟩
  change L.wire.next + ((L.wire.sent ++ [f]).length + (L.wire.inFlight.filter _).length) ≤ L.wire.next + _
  rw [List.length_append, List.length_singleton]
  omega

theorem giveUp_respects (id : ℕ) : Respects i L (L.giveUp id) :=
  ⟨rfl, fun _ => Iff.rfl, fun _ hf _ => (List.mem_filter.mp hf).1⟩

/-- The message is not on its way any more. -/
theorem Sending.landed {lock id : ℕ} (h : Sending i lock id L) (hlanded : L.wire.flying id = false) :
    Holding i lock L where
  sendLock := h.sendLock
  locks := h.locks
  flights f hf ho := by
    have hflying : L.wire.flying id = true := List.any_eq_true.mpr ⟨f, hf, decide_eq_true (h.flights f hf ho)⟩
    exact absurd (hflying.symm.trans hlanded) (by simp)

end Line

/-! ### The terms -/

/-- The task has made its first step. -/
def Begun (n : ℕ) (m : Memory signature) : Prop := (m.tasks[n]?).any Task.started = true

/-- What holds whenever a coroutine hands over. -/
structure Orderly (m : Memory signature) : Prop where
  numbered : (line m.objects).Numbered
  begun : ∀ n, ¬(line m.objects).Free (some n) → Begun n m

def numberTerms : Terms signature where
  inv := Orderly
  keeps i m m' := Line.Spares i (line m.objects) (line m'.objects) ∧ ∀ n, Begun n m → Begun n m'
  rely i m m' := Line.Respects i (line m.objects) (line m'.objects) ∧ ∀ n, Begun n m → Begun n m'
  replies _ _ := True

/-- The coroutine has kept to its terms, and the line is as it should be for it. -/
structure At (i : Option ℕ) (P : Line → Prop) (m₀ m : Memory signature) : Prop where
  orderly : Orderly m
  keeps : numberTerms.keeps i m₀ m
  self : ∀ n, i = some n → Begun n m
  place : P (line m.objects)

namespace At

variable {i : Option ℕ} {P P' : Line → Prop} {m₀ m m' : Memory signature}

/-- The coroutine goes on after a wait. -/
theorem resumed (h : At i P m₀ m) (hP : ∀ L L', P L → Line.Respects i L L' → P L') (hr : numberTerms.rely i m m')
    (hi : Orderly m') : At i P m' m' where
  orderly := hi
  keeps := ⟨.refl _ _, fun _ hb => hb⟩
  self n hn := hr.2 n (h.self n hn)
  place := hP _ _ h.place hr.1

/-- The coroutine changes the objects. -/
theorem change (h : At i P m₀ m) (o : Objects) (hnumbered : (line o).Numbered)
    (hspares : Line.Spares i (line m.objects) (line o)) (hplace : P' (line o)) :
    At i P' m₀ { m with objects := o } where
  orderly := by
    refine ⟨hnumbered, fun n hbusy => ?_⟩
    by_cases hn : i = some n
    · exact h.self n hn
    · refine h.orderly.begun n fun hfree => hbusy (hfree.respects (hspares.respects fun heq => hn heq.symm))
  keeps := ⟨h.keeps.1.trans hspares, h.keeps.2⟩
  self := h.self
  place := hplace

/-- The objects change in what sending has nothing to do with. -/
theorem same (h : At i P m₀ m) {o : Objects} (hline : line o =
    line m.objects) : At i P m₀ { m with objects := o } :=
  h.change o (hline ▸ h.orderly.numbered) (hline ▸ .refl _ _) (hline ▸ h.place)

theorem resting (hP : ∀ L L', P L → Line.Respects i L L' → P L') :
    Coro.Resting numberTerms i fun m₀ m _ => At i P m₀ m where
  handsOver _ _ _ h := ⟨h.orderly, h.keeps⟩
  resumed _ _ _ _ h hr hi _ := h.resumed hP hr hi
  interrupted _ _ _ h hr hi _ := h.resumed hP hr hi

end At

/-! ### Sending -/

section sending

variable {i : Option ℕ} {m₀ m : Memory signature} {b : Bool}

/-- How a part ends that has been interrupted at most. -/
def Stops (b : Bool) (r : Except Raised Unit) (b' : Bool) : Prop :=
  (b' = b ∧ r = .ok ()) ∨ (b = false ∧ b' = true ∧ r = .error .cancelled)

theorem meets_finally {α : Type} {c : Co α} {f : Objects → Objects} {Q : Post signature α}
    (hc : c.Meets numberTerms i (fun r m₀ m b => Q r m₀ { m with objects := f m.objects } b) m₀ m b) :
    (tryFinally c (Coro.modify (S := signature) f) : Co α).Meets numberTerms i Q m₀ m b := by
  refine Coro.meets_andThen.mpr (Coro.meets_andThen.mpr (hc.mono fun r m₀ m b h => ?_))
  cases r with
  | ok a => exact h
  | error e => exact h

theorem meets_acquire {lock : ℕ} (h : At i (Line.Free i) m₀ m) (hlock : m.objects.state.sendLock = lock) :
    (acquire i lock).Meets numberTerms i (fun r m₀ m b' => Stops b r b' ∧
      (r = .ok () → At i (Line.Holding i lock) m₀ m) ∧
      (r ≠ .ok () → At i (Line.Free i) m₀ m)) m₀ m b := by
  have htake : ∀ {m₀ m : Memory signature}, At i (Line.Free i) m₀ m → m.objects.state.sendLock = lock →
      (m.objects.locks lock).isSome = false →
        At i (Line.Holding i lock) m₀ { m with objects := { m.objects with
          locks := Function.update m.objects.locks lock (some i) } } := by
    rintro m₀ m h rfl hfree
    have hnone : (line m.objects).locks (line m.objects).sendLock = none := Option.not_isSome_iff_eq_none.mp (by
      rw [Bool.not_eq_true]
      exact hfree)
    exact h.change _ (Line.take_numbered h.orderly.numbered hnone) (Line.take_spares hnone)
      (Line.take_holding h.place)
  refine meets_objects ?_
  split
  · refine ⟨h.orderly, h.keeps, fun m' hr hi hu hp => ?_, ?_⟩
    · have h' := h.resumed (fun _ _ => Line.Free.respects) hr hi
      have hlock' : m'.objects.state.sendLock = lock := hr.1.sendLock.trans hlock
      have hfree : (m'.objects.locks lock).isSome = false := by
        have hnone : (m'.objects.locks lock).isNone = true := hp
        rw [Option.isNone_iff_eq_none.mp hnone]
        rfl
      exact ⟨.inl ⟨rfl, rfl⟩, fun _ => htake h' hlock' hfree, fun hne => absurd rfl hne⟩
    · rintro rfl m' hr hi hc
      exact ⟨.inr ⟨rfl, rfl, rfl⟩, fun heq => absurd heq (by simp),
        fun _ => h.resumed (fun _ _ => Line.Free.respects) hr hi⟩
  · next hfree =>
    exact ⟨.inl ⟨rfl, rfl⟩, fun _ => htake h hlock (Bool.not_eq_true _ |>.mp hfree), fun hne => absurd rfl hne⟩

/-- A message that has been given to the socket is waited for. -/
theorem meets_sendOver {lock websocket : ℕ} {message : ServerMessage}
    (h : At i (Line.Sending i lock m.objects.wire.next) m₀
      { m with objects := launch i websocket message m.objects }) :
    (sendOver i websocket message).Meets numberTerms i (fun r m₀ m b' =>
      Coro.Ends (fun e : Raised => e.disconnects = true) b r b' ∧ At i (Line.Holding i lock) m₀ m) m₀ m b := by
  refine meets_objects (meets_modify ?_)
  have hwait : (tryCatch (Coro.waitFor (S := signature) fun m' =>
      !(Objects.wire m'.objects).flying m.objects.wire.next) (fun e => do
        Coro.modify (S := signature) (withdraw m.objects.wire.next)
        throw e) : Co Unit).Meets numberTerms i (fun r m₀ m b' => Stops b r b' ∧ At i (Line.Holding i lock) m₀ m) m₀
      { m with objects := launch i websocket message m.objects } b := by
    refine ⟨h.orderly, h.keeps, fun m' hr hi hu hp => ?_, ?_⟩
    · have h' := h.resumed (fun _ _ => Line.Sending.respects) hr hi
      have hlanded : (line m'.objects).wire.flying m.objects.wire.next = false := by
        have hflying : (!(Objects.wire m'.objects).flying m.objects.wire.next) = true := hp
        rw [Bool.not_eq_true'] at hflying
        exact hflying
      exact ⟨.inl ⟨rfl, rfl⟩, h'.orderly, h'.keeps, h'.self, h'.place.landed hlanded⟩
    · rintro rfl m' hr hi hc
      have h' := h.resumed (fun _ _ => Line.Sending.respects) hr hi
      exact ⟨.inr ⟨rfl, rfl, rfl⟩, h'.change (withdraw m.objects.wire.next m'.objects)
        (Line.giveUp_numbered h'.orderly.numbered _) Line.giveUp_spares (Line.giveUp_holding h'.place)⟩
  refine hwait.bind (fun _ m₀ m b' hr => ?_) fun e m₀ m b' hr => ?_
  · rcases hr with ⟨⟨rfl, -⟩ | ⟨-, -, he⟩, hat⟩
    · refine meets_objects ?_
      split
      · exact ⟨Coro.ends_ok (), hat⟩
      · next r _ =>
        refine ⟨.inl ⟨rfl, fun e he => ?_⟩, hat⟩
        obtain rfl := Except.error.inj he
        cases r.2 <;> rfl
    · exact absurd he (by simp)
  · rcases hr with ⟨⟨-, he⟩ | ⟨rfl, rfl, he⟩, hat⟩
    · exact absurd he (by simp)
    · exact ⟨.inr ⟨rfl, rfl, he⟩, hat⟩

theorem meets_trySending {lock websocket : ℕ} {message : ServerMessage}
    (h : At i (Line.Sending i lock m.objects.wire.next) m₀
      { m with objects := launch i websocket message m.objects }) :
    (trySending i websocket message).Meets numberTerms i (fun r m₀ m b' =>
      Stops b r b' ∧ At i (Line.Holding i lock) m₀ m) m₀ m b := by
  refine Coro.meets_andThen.mpr ((meets_sendOver h).mono fun r m₀ m b' hr => ?_)
  obtain ⟨hends, hat⟩ := hr
  cases r with
  | ok _ =>
      obtain rfl := hends.ok
      exact ⟨.inl ⟨rfl, rfl⟩, hat⟩
  | error e =>
      rcases hends with ⟨rfl, he⟩ | ⟨rfl, rfl, he⟩
      · dsimp only
        rw [if_pos (he e rfl)]
        exact ⟨.inl ⟨rfl, rfl⟩, hat.same rfl⟩
      · obtain rfl := Except.error.inj he
        exact ⟨.inr ⟨rfl, rfl, rfl⟩, hat⟩

/-- What is sent under the lock. -/
theorem meets_locked {lock : ℕ} {c : Co Unit} (h : At i (Line.Free i) m₀ m)
    (hlock : m.objects.state.sendLock = lock)
    (hc : ∀ m₀ m b, At i (Line.Holding i lock) m₀ m → c.Meets numberTerms i (fun r m₀ m b' =>
      Stops b r b' ∧ At i (Line.Holding i lock) m₀ m) m₀ m b) :
    (acquire i lock >>= fun _ => tryFinally c (release lock) : Co Unit).Meets numberTerms i (fun r m₀ m b' =>
      Coro.Ends (fun _ => False) b r b' ∧ At i (Line.Free i) m₀ m) m₀ m b := by
  have hends : ∀ {b : Bool} {r : Except Raised Unit} {b' : Bool}, Stops b r b' →
      Coro.Ends (S := signature) (fun _ => False) b r b' := by
    rintro b r b' (⟨rfl, rfl⟩ | hstop)
    · exact Coro.ends_ok ()
    · exact .inr hstop
  refine (meets_acquire h hlock).bind (fun _ m₀ m b' hr => ?_) fun e m₀ m b' hr => ?_
  · obtain ⟨hstops, hheld, -⟩ := hr
    have hat := hheld rfl
    have hb : b' = b := by
      rcases hstops with ⟨hb, -⟩ | ⟨-, -, he⟩
      · exact hb
      · exact absurd he (by simp)
    subst hb
    refine meets_finally ((hc m₀ m b' hat).mono fun r m₀ m b'' hr => ?_)
    obtain ⟨hstops, hat⟩ := hr
    obtain rfl := hat.place.sendLock
    exact ⟨hends hstops, hat.change _ (Line.drop_numbered hat.orderly.numbered hat.place)
      (Line.drop_spares hat.place)
      (Line.drop_free hat.place)⟩
  · exact ⟨hends hr.1, hr.2.2 (by simp)⟩

theorem emits_numbered (websocket : ℕ) (type : String) (payload : List (String × Json)) (ackFor : Option Uuid) :
    (emit i websocket type payload ackFor).Maintains numberTerms i (fun m₀ m _ => At i (Line.Free i) m₀ m)
      fun _ => False := by
  refine ⟨fun m₀ m b h => meets_state ?_⟩
  split
  · refine meets_locked h rfl fun m₀ m b h => ?_
    -- the event is numbered and given to the socket at once
    have hnext : List.range' 1 (m.objects.state.sequence + 1) =
        List.range' 1 m.objects.state.sequence ++ [m.objects.state.sequence + 1] := by
      rw [List.range'_concat, Nat.one_mul, Nat.add_comm 1]
    exact meets_trySending (h.change _ (Line.give_numbered h.orderly.numbered h.place hnext) Line.give_spares
      (Line.give_sending h.place))
  · exact ⟨Coro.ends_ok (), h⟩

theorem sends_numbered (websocket : ℕ) (data : List UInt8) :
    (sendAudio i websocket data).Maintains numberTerms i
    (fun m₀ m _ => At i (Line.Free i) m₀ m) fun _ => False := by
  refine ⟨fun m₀ m b h => meets_state ?_⟩
  split
  · refine meets_locked h rfl fun m₀ m b h => ?_
    exact meets_trySending (h.change _ (Line.give_numbered h.orderly.numbered h.place (List.append_nil _).symm)
      Line.give_spares (Line.give_sending h.place))
  · exact ⟨Coro.ends_ok (), h⟩

end sending

/-! ### Every coroutine keeps to the terms -/

theorem calm_numbered (i : Option ℕ) : Calm numberTerms i fun m₀ m _ => At i (Line.Free i) m₀ m where
  toResting := At.resting fun _ _ => Line.Free.respects
  emits := emits_numbered
  sends := sends_numbered
  texts _ _ _ _ _ h := h.same rfl

/-- The tasks change, but none of them forgets that it has begun. -/
theorem At.tasks {i : Option ℕ} {P : Line → Prop} {m₀ m : Memory signature} (h : At i P m₀ m)
    (tasks : List (Task signature)) (hbegun : ∀ n, Begun n m → Begun n { m with tasks := tasks }) :
    At i P m₀ { m with tasks := tasks } where
  orderly := ⟨h.orderly.numbered, fun n hbusy => hbegun n (h.orderly.begun n hbusy)⟩
  keeps := ⟨h.keeps.1, fun n hb => hbegun n (h.keeps.2 n hb)⟩
  self n hn := hbegun n (h.self n hn)
  place := h.place

theorem begun_change {m : Memory signature} {n k : ℕ} {f : Task signature → Task signature}
    (hf : ∀ t, t.started = true → (f t).started = true) (h : Begun k m) : Begun k (m.change n f) := by
  obtain ⟨t, ht, hstarted⟩ := (Option.any_eq_true _ _).mp h
  by_cases hk : k = n
  · subst hk
    rw [Begun, Memory.getElem?_change_self f ht]
    exact hf t hstarted
  · rw [Begun, Memory.getElem?_change_of_ne m f hk, ht]
    exact hstarted

theorem begun_append {m : Memory signature} {k : ℕ} (task : Task signature) (h : Begun k m) :
    Begun k { m with tasks := m.tasks ++ [task] } := by
  obtain ⟨t, ht, hstarted⟩ := (Option.any_eq_true _ _).mp h
  have hlt : k < m.tasks.length := (List.getElem?_eq_some_iff.mp ht).1
  rw [Begun, List.getElem?_append_left hlt, ht]
  exact hstarted

theorem line_of_minor {o o' : Objects} (h : Minor (mute o) (mute o')) : line o' = line o :=
  (congrArg line h).symm

theorem deaf_numbered : Deaf numberTerms fun m₀ m _ => At none (Line.Free none) m₀ m where
  toCalm := calm_numbered none
  cancels _ m _ _ h := h.tasks _ fun _ hb => begun_change (m := m) (fun _ ht => ht) hb
  creates _ _ _ _ _ h := h.tasks _ fun _ hb => begun_append _ hb
  minor _ _ _ _ h hminor := h.same (congrArg line hminor).symm
  turns _ _ _ _ h := h.tasks _ fun _ hb => begun_append _ hb
  mutes _ _ _ _ h hminor := h.same (line_of_minor hminor)

theorem orderly_finish {m : Memory signature} (h : Orderly m) (n : ℕ) (r : Except Raised Unit) :
    Orderly (m.finish n r) :=
  ⟨h.numbered, fun k hbusy => begun_change (fun _ ht => ht) (h.begun k hbusy)⟩

theorem progress_of_move {x : Move} {o o' : Objects} (h : move x o = some o') : (line o).Progress (line o') := by
  cases x with
  | deliver id =>
      obtain ⟨f, hf, rfl⟩ := Option.map_eq_some_iff.mp h
      have hid : f.id = id := of_decide_eq_true (List.find?_some (p := fun f : Flight => decide (f.id = id)) hf)
      subst hid
      exact Line.deliver_progress (L := line o) (List.mem_of_find?_eq_some hf)
  | refuse id refusal =>
      obtain ⟨f, -, rfl⟩ := Option.map_eq_some_iff.mp h
      have hgivenUp := Line.giveUp_progress (L := line o) id
      exact ⟨hgivenUp.sent, hgivenUp.loses⟩

theorem move_numbered {x : Move} {m : Memory signature} {o : Objects} (h : Orderly m)
    (hmove : move x m.objects = some o) :
    Orderly { m with objects := o } ∧ ∀ i, numberTerms.rely i m { m with objects := o } := by
  obtain ⟨hnumbered, hrespects⟩ : (line o).Numbered ∧ ∀ i, Line.Respects i (line m.objects) (line o) := by
    cases x with
    | deliver id =>
        obtain ⟨f, hf, rfl⟩ := Option.map_eq_some_iff.mp hmove
        have hid : f.id = id := of_decide_eq_true (List.find?_some (p := fun f : Flight => decide (f.id = id)) hf)
        subst hid
        have hrespects : ∀ i, Line.Respects i (line m.objects) ((line m.objects).deliver f) := fun i =>
          ⟨rfl, fun _ => Iff.rfl, (Line.giveUp_respects (L := line m.objects) f.id).flights⟩
        exact ⟨Line.deliver_numbered h.numbered (List.mem_of_find?_eq_some hf), hrespects⟩
    | refuse id refusal =>
        obtain ⟨f, -, rfl⟩ := Option.map_eq_some_iff.mp hmove
        have hgivenUp := Line.giveUp_numbered h.numbered id
        refine ⟨⟨hgivenUp.account.imp fun _ ha => ⟨ha.ids, ha.numbers, ha.kept⟩, hgivenUp.owned, hgivenUp.single⟩,
          fun i => ⟨rfl, fun _ => Iff.rfl, (Line.giveUp_respects (L := line m.objects) id).flights⟩⟩
  refine ⟨⟨hnumbered, fun n hbusy => h.begun n fun hfree => hbusy (hfree.respects (hrespects _))⟩,
    fun i => ⟨hrespects i, fun _ hb => hb⟩⟩

/-- The input neither ends the session nor brings another socket. -/
def Continues (o : Objects) : Input → Bool
  | .reconnect _ _ => false
  | x => (nextEnvelope? o x).all fun envelope => envelope.type ≠ .sessionEnd

theorem contract_numbered (app : App) : Contract (server app) numberTerms (fun m => (line m.objects).Free none)
    (fun x m => Continues m.objects x = true) fun _ _ => True where
  refl _ _ := ⟨.refl _ _, fun _ h => h⟩
  trans _ _ _ _ h h' := ⟨h.1.trans h'.1, fun n hb => h'.2 n (h.2 n hb)⟩
  others _ _ _ _ hne _ _ h := ⟨h.1.respects hne, h.2⟩
  moves _ _ _ hi _ hmove := move_numbered hi hmove
  idle_rely _ _ h hr _ := h.respects hr.1
  main x m hi hidle hx := by
    have hat : At none (Line.Free none) m m :=
        ⟨hi, ⟨.refl _ _, fun _ h => h⟩, fun _ hn => absurd hn (by simp), hidle⟩
    refine (deaf_numbered.main app x hat (fun _ => hat.same rfl) (fun _ _ _ => hat.same rfl)
      (fun _ _ => hat.same rfl)
      ?_ ?_).mono fun _ _ _ _ h => ⟨h.orderly, h.keeps, h.place⟩
    · intro envelope hnext hend
      cases x with
      | reconnect _ _ => exact absurd hx Bool.false_ne_true
      | message packet =>
          have hall : (nextEnvelope? m.objects (.message packet)).all (fun e => decide (e.type ≠ .sessionEnd)) =
              true :=
            hx
          rw [hnext, Option.all_some] at hall
          exact absurd hend (of_decide_eq_true hall)
      | accept => exact absurd hnext (by simp [nextEnvelope?])
      | disconnect => exact absurd hnext (by simp [nextEnvelope?])
    · rintro accountId generation rfl
      exact absurd hx Bool.false_ne_true
  body n t m hi ht hstarted _ _ := by
    have hidle : (line m.objects).Free (some n) := by
      by_contra hbusy
      have hbegun := hi.begun n hbusy
      rw [Begun, ht, Option.any_some, hstarted] at hbegun
      exact Bool.false_ne_true hbegun
    have hself : Begun n (m.begin n) := by
      rw [Begun, Memory.begin, Memory.getElem?_change_self _ ht]
      rfl
    have hkept : ∀ k, Begun k m → Begun k (m.begin n) := fun k hb => begun_change (fun _ _ => rfl) hb
    have hat : At (some n) (Line.Free (some n)) m (m.begin n) :=
      ⟨⟨hi.numbered, fun k hbusy => hkept k (hi.begun k hbusy)⟩, ⟨.refl _ _, hkept⟩,
        fun k hk => Option.some.inj hk ▸ hself, hidle⟩
    have hend : ∀ (r : Except Raised Unit) (m₀ m : Memory signature), At (some n) (Line.Free (some n)) m₀ m →
        numberTerms.inv (m.finish n r) ∧ numberTerms.keeps (some n) m₀ (m.finish n r) := fun r m₀ m h =>
      ⟨orderly_finish h.orderly n r, h.keeps.1, fun k hb => begun_change (fun _ ht => ht) (h.keeps.2 k hb)⟩
    exact (calm_numbered (some n)).body app t.job hat (fun r m₀ m _ _ h => hend r m₀ m h)
      (fun _ _ _ _ _ r m₀ m _ _ h => hend r m₀ _ (h.same rfl)) (fun _ _ _ h => h.same rfl) fun _ _ _ h => h.same rfl
  dropped n t m hi _ _ _ _ := by
    have horderly : Orderly (m.begin n) :=
      ⟨hi.numbered, fun k hbusy => begun_change (fun _ _ => rfl) (hi.begun k hbusy)⟩
    exact ⟨orderly_finish horderly n _, .refl _ _,
      fun k hb => begun_change (fun _ ht => ht) (begun_change (m := m) (fun _ _ => rfl) hb)⟩

/-! ### Whole runs -/

section runs

variable (app : App)

/-- The event neither ends the session nor brings another socket. -/
def Steady (s : State signature) : Event (server app) → Prop
  | .input x => Continues s.memory.objects x = true
  | _ => True

variable {app} in
instance (s : State signature) (e : Event (server app)) : Decidable (Steady app s e) :=
  match e with
  | .input _ => inferInstanceAs (Decidable (_ = true))
  | .start _ | .resume .. | .move _ => .isTrue trivial

/-- The messages that the socket has taken, and then the one that is on its way. -/
def outgoing (s : State signature) : List Flight :=
    (Objects.wire s.memory.objects).sent ++ (Objects.wire s.memory.objects).inFlight

/-- Every message that was given to the socket has been taken or is on its way. -/
def Complete (s : State signature) : Prop := (outgoing s).length = (Objects.wire s.memory.objects).next

instance (s : State signature) : Decidable (Complete s) := inferInstanceAs (Decidable (_ = _))

def numbers (s : State signature) : List ℕ := (outgoing s).filterMap fun f => f.message.sequence?

/-- If nothing is lost, the numbers are those that have been given. -/
theorem numbers_eq {s : State signature} (h : Orderly s.memory) (hcomplete : Complete s) :
    numbers s = List.range' 1 (session s).sequence := by
  obtain ⟨given, ha⟩ := h.numbered.account
  have hgiven : given.length = (Objects.wire s.memory.objects).next := by
    have hlength := congrArg List.length ha.ids
    rwa [List.length_map, List.length_range] at hlength
  have heq : outgoing s = given := ha.kept.eq_of_length (hcomplete.trans hgiven.symm)
  rw [numbers, heq]
  exact ha.numbers

theorem sound_fresh (accountId : Uuid) :
    Sound numberTerms (fun m => (line m.objects).Free none) (fresh accountId) := by
  have hfree : ∀ i, (line (fresh accountId).memory.objects).Free i := fun i =>
    ⟨fun _ hlock => absurd hlock (by simp [line, fresh]), fun _ hf => absurd hf List.not_mem_nil⟩
  refine Sound.quiet ⟨⟨⟨[], ⟨rfl, rfl, .slnil⟩⟩, fun _ hf => absurd hf List.not_mem_nil, Nat.zero_le 1⟩,
    fun n hbusy => absurd (hfree (some n)) hbusy⟩ (hfree none) rfl fun _ => rfl

/-- **The events of a session reach the socket one at a time and in the order of their numbers**, and none is left out
as long as every message that was given to the socket has been taken or is on its way. -/
theorem events_numbered (accountId : Uuid) (events : List (Event (server app))) (s : State signature)
    (hsteady : Along (step (server app)) (Steady app) (fresh accountId) events)
    (hrun : run (step (server app)) (fresh accountId) events = some s) :
    (Objects.wire s.memory.objects).inFlight.length ≤ 1 ∧
      (numbers s).Sublist (List.range' 1 (session s).sequence) ∧
      (Complete s → numbers s = List.range' 1 (session s).sequence) := by
  have hadmits : Along (step (server app))
      (Admits (server app) numberTerms (fun x m => Continues m.objects x = true) fun _ _ => True)
      (fresh accountId) events := hsteady.mono fun s e he => by
    cases e with
    | input x => exact he
    | resume who reply => exact fun _ => trivial
    | _ => trivial
  have hs := Sound.of_along (contract_numbered app) (sound_fresh accountId) hadmits hrun
  refine ⟨hs.inv.numbered.single, ?_, numbers_eq hs.inv⟩
  obtain ⟨given, ha⟩ := hs.inv.numbered.account
  exact ha.numbers ▸ ha.kept.filterMap _

end runs

/-- The first events of a session, of which the last one is on its way. -/
theorem events_numbered_opening : ∃ s, run (step (server sampleApp)) (fresh 1)
    (Sample.opening ++ [Sample.text .ack 1]) =
      some s ∧ numbers s = [1, 2, 3] ∧ (Objects.wire s.memory.objects).inFlight.length ≤ 1 := by
  have hrun : ((run (step (server sampleApp)) (fresh 1) (Sample.opening ++ [Sample.text .ack 1])).any fun s =>
      decide (numbers s = [1, 2, 3])) = true := by decide +kernel
  obtain ⟨s, hs, hnumbers⟩ := Option.any_eq_true _ _ |>.mp hrun
  have hsteady : Along (step (server sampleApp)) (Steady sampleApp) (fresh 1)
      (Sample.opening ++ [Sample.text .ack 1]) :=
    Along.of_alongB (c := fun (s : State signature) e => decide (Steady sampleApp s e))
      (fun _ _ => of_decide_eq_true)
      (by decide +kernel)
  exact ⟨s, hs, of_decide_eq_true hnumbers, (events_numbered sampleApp 1 _ s hsteady hs).1⟩

end KajovoDagmar.Realtime
