import KajovoDagmar.Audio.VoiceClient
import KajovoDagmar.Realtime.Numbering

/-! # A client and its server

The messages of the client reach the server in the order in which they are sent, and what the socket of the server has
taken reaches the client.  On one connection the two stay in step until the client ends the conversation
(`stays_in_step`): the server never refuses an envelope of the client for its number, and the client never misses an
event, as long as no message of the server is lost. -/

namespace KajovoDagmar.Realtime

open Asyncio Protocol Runs

/-! ### The count of the envelopes -/

/-- The number of the last envelope that the server has counted. -/
def lastEnvelope (m : Memory signature) : ℕ := m.objects.state.lastClientSequence

/-- A message that brings the next envelope. -/
theorem message_of_next {o : Objects} {m : Message} {envelope : ClientEnvelope}
    (h : nextEnvelope? o (.message m) = some envelope) :
    m = .text (some envelope) ∧ envelope.sequence = o.state.lastClientSequence + 1 := by
  cases m with
  | bytes data => cases h
  | other => cases h
  | text text =>
      cases text with
      | none => cases h
      | some e =>
          obtain ⟨⟨-, hnext⟩, he⟩ := Option.ite_none_right_eq_some.mp h
          obtain rfl := Option.some.inj he
          exact ⟨rfl, hnext⟩

/-- No coroutine counts an envelope unless it is the input. -/
def countTerms : Terms signature where
  inv _ := True
  keeps _ m m' := lastEnvelope m' = lastEnvelope m
  rely _ _ _ := True
  replies _ _ := True

theorem calm_count (i : Option ℕ) : Calm countTerms i fun m₀ m _ => lastEnvelope m = lastEnvelope m₀ :=
  Calm.of_quiet
    { handsOver := fun _ _ _ h => ⟨trivial, h⟩
      resumed := fun _ _ _ _ _ _ _ _ => rfl
      interrupted := fun _ _ _ _ _ _ _ => rfl }
    fun _ _ _ _ h hquiet => (congrArg (fun o : Objects => o.state.lastClientSequence) hquiet).symm.trans h

theorem deaf_count : Deaf countTerms fun m₀ m _ => lastEnvelope m = lastEnvelope m₀ where
  toCalm := calm_count none
  cancels _ _ _ _ h := h
  creates _ _ _ _ _ h := h
  minor _ _ _ _ h hminor := (congrArg (fun o : Objects => o.state.lastClientSequence) hminor).symm.trans h
  turns _ _ _ _ h := h
  mutes _ _ _ _ h hminor := (congrArg (fun o : Objects => o.state.lastClientSequence) hminor).symm.trans h

theorem contract_count (app : App) : Contract (server app) countTerms (fun _ => True)
    (fun x m => nextEnvelope? m.objects x = none) fun _ _ => True where
  refl _ _ := trivial
  trans _ _ _ _ _ _ := trivial
  others _ _ _ _ _ _ _ _ := trivial
  moves _ _ _ _ _ _ := ⟨trivial, fun _ => trivial⟩
  idle_rely _ _ _ _ _ := trivial
  main x m _ _ hx := by
    have hnone : ∀ envelope, nextEnvelope? m.objects x = some envelope → False := fun envelope h =>
      absurd (hx.symm.trans h) (by simp)
    exact (deaf_count.main app x rfl (fun _ => rfl) (fun _ _ _ => rfl) (fun envelope h => (hnone envelope h).elim)
      (fun envelope h => (hnone envelope h).elim) fun _ _ _ _ _ _ _ h => h).mono
        fun _ _ _ _ h => ⟨trivial, h, trivial⟩
  body n t m _ _ _ _ _ := (calm_count (some n)).body app t.job rfl (fun _ _ _ _ _ h => ⟨trivial, h⟩)
    (fun _ _ _ _ _ _ _ _ _ _ h => ⟨trivial, h⟩) (fun _ _ _ h => h) fun _ _ _ h => h
  dropped _ _ _ _ _ _ _ _ := ⟨trivial, rfl⟩

/-- The next envelope is counted at once, and then the count stays. -/
theorem main_next (app : App) {x : Input} {m : Memory signature} {envelope : ClientEnvelope}
    (hx : nextEnvelope? m.objects x = some envelope) (hend : envelope.type ≠ .sessionEnd) :
    (main app x).Meets countTerms none (mainPost countTerms fun _ => True) (withState m (countEnvelope envelope)) m
      false := by
  have hbustle := deaf_count.toAloof.bustle deaf_count.finalizeAudioTurn
  cases x with
  | accept => cases hx
  | disconnect => cases hx
  | reconnect _ _ => cases hx
  | message packet =>
      cases packet with
      | bytes data => cases hx
      | other => cases hx
      | text text =>
          cases text with
          | none => cases hx
          | some e =>
              obtain ⟨⟨hopened, hnext⟩, he⟩ := Option.ite_none_right_eq_some.mp hx
              obtain rfl := Option.some.inj he
              have hreceive : (receive app (Objects.websocket m.objects) (.text (some e))).Meets countTerms none
                  (fun _ m₀ m _ => lastEnvelope m = lastEnvelope m₀) (withState m (countEnvelope e)) m false := by
                refine meets_state ?_
                rw [if_neg (by omega), if_neg (not_not.mpr hnext)]
                exact meets_assign (hbustle.handleEnvelope app _ e rfl (fun _ => deaf_count.silences rfl)
                  (fun _ => rfl) (fun _ => rfl) fun htype => absurd htype hend)
              refine meets_objects ?_
              rw [if_pos hopened]
              refine Coro.meets_andThen.mpr (hreceive.mono fun r m₀ m b h => ?_)
              cases r with
              | ok _ => exact ⟨trivial, h, trivial⟩
              | error e =>
                  cases e with
                  | cancelled => exact ⟨trivial, h, trivial⟩
                  | exc _ => exact (Keeps.upholds hbustle.suspend h).mono fun _ _ _ _ h => ⟨trivial, h, trivial⟩

/-! ### A step of the server -/

section server

variable {app : App} {s s' : State signature}

/-- The socket of the server goes on. -/
theorem numbered_step {e : Event (server app)} (hs : Sound numberTerms (fun m => (line m.objects).Free none) s)
    (hsteady : Steady app s e) (h : step (server app) s e = some s') :
    Sound numberTerms (fun m => (line m.objects).Free none) s' ∧
      (line s.memory.objects).Progress (line s'.memory.objects) := by
  have hadmits : Admits (server app) numberTerms (fun x m => Continues m.objects x = true) (fun _ _ => True) s e := by
    cases e with
    | input x => exact hsteady
    | resume who reply => exact fun _ => trivial
    | _ => trivial
  obtain ⟨hs', ⟨i, hkeeps, -⟩ | ⟨x, rfl⟩⟩ := hs.of_step (contract_numbered app) hadmits h
  · exact ⟨hs', hkeeps.progress⟩
  · obtain ⟨o, ho, rfl⟩ := Option.map_eq_some_iff.mp h
    exact ⟨hs', progress_of_move ho⟩

/-- The envelope that the event brings, if it is the next one. -/
def counted? (s : State signature) : Event (server app) → Option ClientEnvelope
  | .input x => nextEnvelope? s.memory.objects x
  | _ => none

theorem counted_step {e : Event (server app)} (hs : Sound countTerms (fun _ => True) s) (he : counted? s e = none)
    (h : step (server app) s e = some s') :
    Sound countTerms (fun _ => True) s' ∧ lastEnvelope s'.memory = lastEnvelope s.memory := by
  have hadmits : Admits (server app) countTerms (fun x m => nextEnvelope? m.objects x = none)
      (fun _ _ => True) s e := by
    cases e with
    | input x => exact he
    | resume who reply => exact fun _ => trivial
    | _ => trivial
  obtain ⟨hs', ⟨i, hkeeps⟩ | ⟨x, rfl⟩⟩ := hs.of_step (contract_count app) hadmits h
  · exact ⟨hs', hkeeps⟩
  · obtain ⟨o, ho, rfl⟩ := Option.map_eq_some_iff.mp h
    exact ⟨hs', congrArg ConnectionState.lastClientSequence (state_of_move ho)⟩

theorem counted_next {x : Input} {envelope : ClientEnvelope} (hs : Sound countTerms (fun _ => True) s)
    (hx : nextEnvelope? s.memory.objects x = some envelope) (hend : envelope.type ≠ .sessionEnd)
    (h : step (server app) s (.input x) = some s') :
    Sound countTerms (fun _ => True) s' ∧ lastEnvelope s'.memory = envelope.sequence := by
  obtain ⟨-, rfl⟩ : s.main = none ∧ s.settleMain (((server app).main x).run s.memory) = s' := by
    simpa [step] using h
  exact hs.settleMain_from (contract_count app) (main_next app hx hend) fun _ _ _ _ => trivial

end server

/-! ### The exchange -/

/-- A client and its server on one connection. -/
structure Exchange where
  server : State signature
  client : VoiceClient
  /-- How many messages of the client the server has received. -/
  received : ℕ := 0
  /-- How many messages of the server the client has heard. -/
  heard : ℕ := 0

namespace Exchange

variable (app : App)

/-- What may happen, with the events of the server. -/
inductive Act (E : Type) where
  | call (eventId : Uuid) (call : VoiceClient.Call)
  /-- The server goes on, without a message. -/
  | goOn (e : E)
  | receive
  | hear

/-- The act belongs to the `end` of the client. -/
def Act.ends {E : Type} : Act E → Bool
  | call _ c => c.ends
  | _ => false

/-- The event is not a message, and not another socket. -/
def isOwn : Event (Realtime.server app) → Bool
  | .input .accept | .input .disconnect | .start _ | .resume .. | .move _ => true
  | .input _ => false

def step (w : Exchange) : Act (Event (Realtime.server app)) → Option Exchange
  | .call eventId call => (w.client.perform eventId call).map fun c => { w with client := c }
  | .goOn e =>
    if isOwn app e then (Asyncio.step (Realtime.server app) w.server e).map fun s => { w with server := s } else none
  | .receive =>
    if Objects.opened w.server.memory.objects then
      w.client.socket.sent[w.received]?.bind fun m =>
        (Asyncio.step (Realtime.server app) w.server (.input (.message m))).map fun s =>
          { w with server := s, received := w.received + 1 }
    else none
  | .hear =>
    if w.client.socket.readyState = .opened then
      (Objects.wire w.server.memory.objects).sent[w.heard]?.map fun f =>
        { w with client := w.client.onMessage f.message, heard := w.heard + 1 }
    else none

/-- The client starts over a socket for a new session. -/
def beginning (accountId : Uuid) (language : String) (client : VoiceClient) : Exchange where
  server := fresh accountId
  client := client.start language

theorem own_input {app : App} {x : Input} (h : isOwn app (.input x) = true) : x = .accept ∨ x = .disconnect := by
  cases x with
  | accept => exact .inl rfl
  | disconnect => exact .inr rfl
  | message m => cases h
  | reconnect _ _ => cases h

/-! ### Numbers in a list -/

/-- The numbers are counted from 1, so one says how many are before it. -/
theorem number_eq {α : Type} {f : α → Option ℕ} {l : List α} {i k n : ℕ} {a : α}
    (hl : l.filterMap f = List.range' 1 k) (ha : l[i]? = some a) (hn : f a = some n) :
    n = ((l.take i).filterMap f).length + 1 := by
  obtain ⟨hi, rfl⟩ := List.getElem?_eq_some_iff.mp ha
  have hsplit : l.filterMap f = (l.take i).filterMap f ++ n :: (l.drop (i + 1)).filterMap f := by
    conv_lhs => rw [← List.take_append_drop i l, List.drop_eq_getElem_cons hi, List.filterMap_append,
      List.filterMap_cons_some hn]
  have hat : (List.range' 1 k)[((l.take i).filterMap f).length]? = some n := by
    rw [← hl, hsplit, List.getElem?_append_right (Nat.le_refl _), Nat.sub_self]
    rfl
  obtain ⟨_, hvalue⟩ := List.getElem?_eq_some_iff.mp hat
  rw [List.getElem_range'] at hvalue
  omega

theorem count_take_succ {α : Type} {f : α → Option ℕ} {l : List α} {i : ℕ} {a : α} (ha : l[i]? = some a) :
    ((l.take (i + 1)).filterMap f).length = ((l.take i).filterMap f).length + (f a).toList.length := by
  rw [List.take_add_one, ha, List.filterMap_append, List.length_append]
  cases hf : f a <;> simp [hf]

/-! ### In step -/

/-- The client and the server agree on the numbers. -/
structure InStep (w : Exchange) : Prop where
  numbered : Sound numberTerms (fun m => (line m.objects).Free none) w.server
  counted : Sound countTerms (fun _ => True) w.server
  /-- The envelopes of the client are counted from 1. -/
  sequence : w.client.socket.sent.filterMap VoiceClient.number? = List.range' 1 w.client.sequence
  goesOn : ∀ e, .text (some e) ∈ w.client.socket.sent → e.type ≠ .sessionEnd
  received_le : w.received ≤ w.client.socket.sent.length
  expected : lastEnvelope w.server.memory =
    ((w.client.socket.sent.take w.received).filterMap VoiceClient.number?).length
  heard_le : w.heard ≤ (Objects.wire w.server.memory.objects).sent.length
  last : Complete w.server → w.client.lastServerSequence =
    (((Objects.wire w.server.memory.objects).sent.take w.heard).filterMap fun f => f.message.sequence?).length
  patient : Complete w.server → w.client.socket.code ≠ some 4000

variable {app} {w w' : Exchange}

/-- The client has sent something more, or nothing. -/
theorem InStep.extend {c : VoiceClient} (h : InStep w) (new : List Message)
    (hsent : c.socket.sent = w.client.socket.sent ++ new)
    (hsequence : List.range' 1 c.sequence = List.range' 1 w.client.sequence ++ new.filterMap VoiceClient.number?)
    (hgoesOn : ∀ e, .text (some e) ∈ new → e.type ≠ .sessionEnd)
    (hlast : c.lastServerSequence = w.client.lastServerSequence)
    (hcode : c.socket.code = some 4000 → w.client.socket.code = some 4000) : InStep { w with client := c } where
  numbered := h.numbered
  counted := h.counted
  sequence := by
    rw [hsent, List.filterMap_append, h.sequence, hsequence]
  goesOn e he := by
    rw [hsent] at he
    exact (List.mem_append.mp he).elim (h.goesOn e) (hgoesOn e)
  received_le := by
    rw [hsent, List.length_append]
    exact Nat.le_add_right_of_le h.received_le
  expected := by
    rw [hsent, List.take_append_of_le_length h.received_le]
    exact h.expected
  heard_le := h.heard_le
  last hcomplete := hlast.trans (h.last hcomplete)
  patient hcomplete hc := h.patient hcomplete (hcode hc)

theorem InStep.call {eventId : Uuid} {call : VoiceClient.Call} {c : VoiceClient} (h : InStep w)
    (hends : call.ends = false) (hc : w.client.perform eventId call = some c) : InStep { w with client := c } := by
  cases VoiceClient.perform_speaks (VoiceClient.Call.ne_finished hends) hc with
  | nothing same =>
      refine h.extend [] (same.sent.trans (List.append_nil _).symm) ?_ (fun e he => absurd he List.not_mem_nil)
        same.lastServerSequence same.code
      rw [same.sequence, List.filterMap_nil, List.append_nil]
  | envelope e _ next notEnd sequence lastServerSequence sent code =>
      refine h.extend [.text (some e)] sent ?_ (fun e' he' => ?_) lastServerSequence code
      · rw [sequence, List.range'_concat, Nat.one_mul, Nat.add_comm 1, ← next]
        rfl
      · obtain rfl : e' = e := Option.some.inj (Message.text.inj (List.mem_singleton.mp he'))
        exact notEnd hends
  | frame packet _ sequence lastServerSequence sent code =>
      refine h.extend [.bytes packet] sent ?_ (fun e he => absurd (List.mem_singleton.mp he) (by simp))
        lastServerSequence code
      rw [sequence]
      exact (List.append_nil _).symm

/-- What is complete now has always been complete. -/
theorem complete_of_progress {s s' : State signature} (h : Orderly s.memory)
    (hprogress : (line s.memory.objects).Progress (line s'.memory.objects))
    (hcomplete : Complete s') : Complete s := by
  obtain ⟨given, ha⟩ := h.numbered.account
  have hgiven : given.length = (Objects.wire s.memory.objects).next := by
    have hlength := congrArg List.length ha.ids
    rwa [List.length_map, List.length_range] at hlength
  have hle : (outgoing s).length ≤ given.length := ha.kept.length_le
  have hloses : (Objects.wire s.memory.objects).next +
        ((Objects.wire s'.memory.objects).sent.length + (Objects.wire s'.memory.objects).inFlight.length) ≤
      (Objects.wire s'.memory.objects).next +
        ((Objects.wire s.memory.objects).sent.length + (Objects.wire s.memory.objects).inFlight.length) :=
    hprogress.loses
  unfold Complete outgoing at *
  rw [List.length_append] at *
  omega

/-- The server has made a step. -/
theorem InStep.serve {s : State signature} {received : ℕ} (h : InStep w)
    (hnumbered : Sound numberTerms (fun m => (line m.objects).Free none) s)
    (hcounted : Sound countTerms (fun _ => True) s)
    (hprogress : (line w.server.memory.objects).Progress (line s.memory.objects))
    (hreceived : received ≤ w.client.socket.sent.length)
    (hexpected : lastEnvelope s.memory =
      ((w.client.socket.sent.take received).filterMap VoiceClient.number?).length) :
    InStep { w with server := s, received := received } where
  numbered := hnumbered
  counted := hcounted
  sequence := h.sequence
  goesOn := h.goesOn
  received_le := hreceived
  expected := hexpected
  heard_le := h.heard_le.trans hprogress.sent.length_le
  last hcomplete := by
    obtain ⟨more, hmore⟩ := hprogress.sent
    have hsent : (Objects.wire s.memory.objects).sent = (Objects.wire w.server.memory.objects).sent ++ more :=
      hmore.symm
    rw [hsent, List.take_append_of_le_length h.heard_le]
    exact h.last (complete_of_progress h.numbered.inv hprogress hcomplete)
  patient hcomplete := h.patient (complete_of_progress h.numbered.inv hprogress hcomplete)

theorem InStep.goOn {e : Event (Realtime.server app)} {s : State signature} (h : InStep w) (hown : isOwn app e = true)
    (hs : Asyncio.step (Realtime.server app) w.server e = some s) : InStep { w with server := s } := by
  have hquiet : Steady app w.server e ∧ counted? w.server e = none := by
    cases e with
    | input x => rcases own_input hown with rfl | rfl <;> exact ⟨rfl, rfl⟩
    | _ => exact ⟨trivial, rfl⟩
  obtain ⟨hnumbered, hprogress⟩ := numbered_step h.numbered hquiet.1 hs
  obtain ⟨hcounted, hlast⟩ := counted_step h.counted hquiet.2 hs
  exact h.serve hnumbered hcounted hprogress h.received_le (hlast.trans h.expected)

/-- The next envelope of the client is the one that the server expects. -/
theorem InStep.expects (h : InStep w) {e : ClientEnvelope}
    (he : w.client.socket.sent[w.received]? = some (.text (some e))) :
    e.sequence = lastEnvelope w.server.memory + 1 := by
  rw [h.expected]
  exact number_eq h.sequence he rfl

theorem InStep.receive {m : Message} {s : State signature} (h : InStep w)
    (hopened : w.server.memory.objects.opened = true) (hm : w.client.socket.sent[w.received]? = some m)
    (hs : Asyncio.step (Realtime.server app) w.server (.input (.message m)) = some s) :
    InStep { w with server := s, received := w.received + 1 } := by
  have hmem : m ∈ w.client.socket.sent := List.mem_of_getElem? hm
  have hreceived : w.received + 1 ≤ w.client.socket.sent.length := (List.getElem?_eq_some_iff.mp hm).1
  have hcount := count_take_succ (f := VoiceClient.number?) hm
  have hother : (∀ e, m ≠ .text (some e)) → nextEnvelope? w.server.memory.objects (.message m) = none ∧
      VoiceClient.number? m = none := by
    intro hne
    cases m with
    | text text =>
        cases text with
        | none => exact ⟨rfl, rfl⟩
        | some e => exact absurd rfl (hne e)
    | bytes data => exact ⟨rfl, rfl⟩
    | other => exact ⟨rfl, rfl⟩
  by_cases htext : ∃ e, m = .text (some e)
  · obtain ⟨e, rfl⟩ := htext
    have hnext : nextEnvelope? w.server.memory.objects (.message (.text (some e))) = some e :=
      if_pos ⟨hopened, h.expects hm⟩
    have hsteady : Steady app w.server (.input (.message (.text (some e)))) := by
      change (nextEnvelope? w.server.memory.objects (.message (.text (some e)))).all _ = true
      rw [hnext, Option.all_some]
      exact decide_eq_true (h.goesOn e hmem)
    obtain ⟨hnumbered, hprogress⟩ := numbered_step h.numbered hsteady hs
    obtain ⟨hcounted, hlast⟩ := counted_next h.counted hnext (h.goesOn e hmem) hs
    refine h.serve hnumbered hcounted hprogress hreceived ?_
    rw [hlast, h.expects hm, h.expected, hcount]
    rfl
  · obtain ⟨hnone, hnumber⟩ := hother fun e he => htext ⟨e, he⟩
    have hsteady : Steady app w.server (.input (.message m)) := by
      change (nextEnvelope? w.server.memory.objects (.message m)).all _ = true
      rw [hnone]
      rfl
    obtain ⟨hnumbered, hprogress⟩ := numbered_step h.numbered hsteady hs
    obtain ⟨hcounted, hlast⟩ := counted_step (e := .input (.message m)) h.counted hnone hs
    refine h.serve hnumbered hcounted hprogress hreceived ?_
    rw [hlast, h.expected, hcount, hnumber]
    rfl

/-- The next event for the client is the one after its last. -/
theorem InStep.follows (h : InStep w) (hcomplete : Complete w.server) {f : Flight}
    (hf : (Objects.wire w.server.memory.objects).sent[w.heard]? = some f) :
    ∀ n, f.message.sequence? = some n → n = w.client.lastServerSequence + 1 := by
  intro n hn
  have hlt : w.heard < (Objects.wire w.server.memory.objects).sent.length := (List.getElem?_eq_some_iff.mp hf).1
  have hout : (outgoing w.server)[w.heard]? = some f := (List.getElem?_append_left hlt).trans hf
  have htake : (outgoing w.server).take w.heard = (Objects.wire w.server.memory.objects).sent.take w.heard :=
    List.take_append_of_le_length hlt.le
  rw [h.last hcomplete, ← htake]
  exact number_eq (f := fun f : Flight => f.message.sequence?) (numbers_eq h.numbered.inv hcomplete) hout hn

theorem InStep.hear {f : Flight} (h : InStep w)
    (hf : (Objects.wire w.server.memory.objects).sent[w.heard]? = some f) :
    InStep { w with client := w.client.onMessage f.message, heard := w.heard + 1 } := by
  obtain ⟨hsequence, hsent, -⟩ := VoiceClient.onMessage_spares f.message w.client
  have hcount := count_take_succ (f := fun f : Flight => f.message.sequence?) hf
  refine
    { numbered := h.numbered
      counted := h.counted
      sequence := ?_
      goesOn := ?_
      received_le := ?_
      expected := ?_
      heard_le := (List.getElem?_eq_some_iff.mp hf).1
      last := fun hcomplete => ?_
      patient := fun hcomplete hc => ?_ }
  · change (w.client.onMessage f.message).socket.sent.filterMap _ =
        List.range' 1 (w.client.onMessage f.message).sequence
    rw [hsent, hsequence]
    exact h.sequence
  · change ∀ e, .text (some e) ∈ (w.client.onMessage f.message).socket.sent → _
    rw [hsent]
    exact h.goesOn
  · change w.received ≤ (w.client.onMessage f.message).socket.sent.length
    rw [hsent]
    exact h.received_le
  · change _ = (((w.client.onMessage f.message).socket.sent.take w.received).filterMap _).length
    rw [hsent]
    exact h.expected
  · obtain ⟨-, hlast⟩ := VoiceClient.onMessage_next (h.follows hcomplete hf)
    rw [hcount]
    exact hlast.trans (congrArg (· + _) (h.last hcomplete))
  · obtain ⟨hcode, -⟩ := VoiceClient.onMessage_next (h.follows hcomplete hf)
    exact h.patient hcomplete (hcode hc)

theorem InStep.of_step {a : Act (Event (Realtime.server app))} (h : InStep w) (hends : a.ends = false)
    (hstep : step app w a = some w') : InStep w' := by
  cases a with
  | call eventId call =>
      obtain ⟨c, hc, rfl⟩ := Option.map_eq_some_iff.mp hstep
      exact h.call hends hc
  | goOn e =>
      simp only [step] at hstep
      split at hstep
      next hown =>
        obtain ⟨s, hs, rfl⟩ := Option.map_eq_some_iff.mp hstep
        exact h.goOn hown hs
      · cases hstep
  | receive =>
      simp only [step] at hstep
      split at hstep
      next hopened =>
        obtain ⟨m, hm, hstep⟩ := Option.bind_eq_some_iff.mp hstep
        obtain ⟨s, hs, rfl⟩ := Option.map_eq_some_iff.mp hstep
        exact h.receive hopened hm hs
      · cases hstep
  | hear =>
      simp only [step] at hstep
      split at hstep
      · obtain ⟨f, hf, rfl⟩ := Option.map_eq_some_iff.mp hstep
        exact h.hear hf
      · cases hstep

theorem beginning_inStep (accountId : Uuid) (language : String) {client : VoiceClient} (hsent : client.sequence = 0)
    (hheard : client.lastServerSequence = 0) : InStep (beginning accountId language client) where
  numbered := sound_fresh accountId
  counted := Sound.quiet trivial trivial rfl fun _ => rfl
  sequence := (congrArg (List.range' 1) hsent).symm
  goesOn _ he := absurd he List.not_mem_nil
  received_le := Nat.le_refl 0
  expected := rfl
  heard_le := Nat.le_refl 0
  last _ := hheard
  patient _ := (Option.some_ne_none 4000).symm

/-- **A client and its server stay in step** on one connection until the client ends the conversation, if the client
starts with its counts at 0: the next envelope that the server receives is the one it expects, and as long as no
message of the server is lost, the next event that the client hears is the one after its last, so it never closes
the socket for a gap. -/
theorem stays_in_step (app : App) (accountId : Uuid) (language : String) (client : VoiceClient)
    (hsent : client.sequence = 0) (hheard : client.lastServerSequence = 0)
    (acts : List (Act (Event (Realtime.server app)))) (w : Exchange) (hends : ∀ a ∈ acts, a.ends = false)
    (hrun : run (step app) (beginning accountId language client) acts = some w) :
    (∀ e, w.client.socket.sent[w.received]? = some (.text (some e)) →
        e.sequence = (session w.server).lastClientSequence + 1) ∧
      (Complete w.server → w.client.socket.code ≠ some 4000 ∧
        ∀ f, (Objects.wire w.server.memory.objects).sent[w.heard]? = some f →
          ∀ n, f.message.sequence? = some n → n = w.client.lastServerSequence + 1) := by
  have hbeginning : InStep (beginning accountId language client) := beginning_inStep accountId language hsent hheard
  have h : InStep w := inv_of_along (I := InStep) (C := fun _ a => a.ends = false)
    (fun _ _ _ h ha hstep => h.of_step ha hstep) hbeginning (.of_mem hends) hrun
  exact ⟨fun _ he => h.expects he, fun hcomplete => ⟨h.patient hcomplete, fun _ hf => h.follows hcomplete hf⟩⟩

/-- A session is started, the client hears of it and pauses the microphone. -/
def opening : List (Act (Event (Realtime.server sampleApp))) :=
  [.goOn (.input .accept), .goOn (Sample.taken 0), .goOn Sample.go, .call 100 (.opened none), .hear, .receive,
    .goOn Sample.go, .goOn Sample.go, .goOn Sample.go, .goOn (Sample.taken 1), .goOn Sample.go, .hear,
    .call 101 .pause]

theorem stays_in_step_opening : ∃ w, run (step sampleApp) (beginning 1 "cs" {}) opening = some w ∧
    (w.client.socket.sent[w.received]?.bind VoiceClient.number? = some 2 ∧
      (session w.server).lastClientSequence + 1 = 2 ∧ w.client.lastServerSequence = 2) ∧
    w.client.socket.code ≠ some 4000 := by
  have hrun : ((run (step sampleApp) (beginning 1 "cs" {}) opening).any fun w =>
      decide ((w.client.socket.sent[w.received]?.bind VoiceClient.number? = some 2 ∧
        (session w.server).lastClientSequence + 1 = 2 ∧ w.client.lastServerSequence = 2) ∧
        Complete w.server)) = true := by decide +kernel
  obtain ⟨w, hw, hreached⟩ := Option.any_eq_true _ _ |>.mp hrun
  obtain ⟨hnumbers, hcomplete⟩ := of_decide_eq_true hreached
  have hends : ∀ a ∈ opening, a.ends = false := List.forall_mem_iff_forall_getElem.mpr (by decide)
  exact ⟨w, hw, hnumbers, ((stays_in_step sampleApp 1 "cs" {} rfl rfl opening w hends hw).2 hcomplete).1⟩

end Exchange

end KajovoDagmar.Realtime
