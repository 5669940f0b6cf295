import KajovoDagmar.Realtime.Exchange
import KajovoDagmar.Realtime.Growth

/-! # A session that is resumed

The server counts an event before a socket takes it and keeps none of them, and the client does not send an envelope
again.  What is lost with a socket is therefore lost for good, however often the client makes another one: after an
event it has not heard the client never handles another of the session (`missed_event_final`), and after an envelope
it has not received the server never counts another (`lost_envelope_final`).

A socket on which the session is not resumed gets a fresh one, whose events are numbered from 1 again.  The client
does not tell them from those of the session. -/

namespace KajovoDagmar.Realtime

open Asyncio Protocol Runs

/-! ### The session before -/

/-- The numbers of the session grow, and its count of the envelopes changes only with an envelope. -/
structure Live (s : State signature) : Prop where
  growth : Sound growthTerms (fun _ => True) s
  counted : Sound countTerms (fun _ => True) s

section live

variable {app : App} {s s' : State signature}

theorem Live.of_step {e : Event (server app)} (h : Live s) (he : Persists app s e = true)
    (hstep : step (server app) s e = some s') : Live s' := by
  refine ⟨(grows_step h.growth he hstep).1, ?_⟩
  cases hcounted : counted? s e with
  | none => exact (counted_step h.counted hcounted hstep).1
  | some envelope =>
      cases e with
      | input x => exact (counted_next h.counted hcounted (Lasts.type he hcounted) hstep).1
      | start n => cases hcounted
      | resume who reply => cases hcounted
      | move x => cases hcounted

theorem live_of_run {accountId : Uuid} {events : List (Event (server app))}
    (hpersists : Along (step (server app)) (fun s e => Persists app s e = true) (fresh accountId) events)
    (hrun : run (step (server app)) (fresh accountId) events = some s) : Live s :=
  inv_of_along (I := Live) (fun _ _ _ h he hstep => h.of_step he hstep)
    ⟨growth_fresh accountId, Sound.quiet trivial trivial rfl fun _ => rfl⟩ hpersists hrun

end live

/-! ### A client and its server over several sockets -/

structure Resumption where
  server : State signature
  client : VoiceClient
  /-- What the client has sent over the sockets that it has given up since the beginning. -/
  posted : List Message := []
  /-- The first message that may be heard. -/
  since : ℕ

namespace Resumption

variable (app : App)

/-- What may happen, with the events of the server. -/
inductive Act (E : Type) where
  | call (eventId : Uuid) (call : VoiceClient.Call)
  /-- The client makes another socket. -/
  | reconnect
  /-- The server accepts a socket of the client. -/
  | accept (generation : ℕ)
  /-- The server goes on, without a message. -/
  | goOn (e : E)
  /-- The server receives one of the messages of the client. -/
  | receive (i : ℕ)
  /-- The client hears one of the messages that a socket has taken. -/
  | hear (i : ℕ)
  /-- The client hears a message of a fresh session, of which nothing is assumed. -/
  | hearFresh (message : ServerMessage)

/-- The act belongs to the `end` of the client. -/
def Act.ends {E : Type} : Act E → Bool
  | call _ c => c.ends
  | _ => false

/-- The client hears a fresh session: the one before is not resumed on its socket. -/
def Act.fresh {E : Type} : Act E → Bool
  | hearFresh _ => true
  | _ => false

/-- Everything that the client has sent. -/
def messages (w : Resumption) : List Message := w.posted ++ w.client.socket.sent

def serve (w : Resumption) (e : Event (Realtime.server app)) : Option Resumption :=
  (Asyncio.step (Realtime.server app) w.server e).map fun s => { w with server := s }

def step (w : Resumption) : Act (Event (Realtime.server app)) → Option Resumption
  | .call eventId call => (w.client.perform eventId call).map fun c => { w with client := c }
  | .reconnect => w.client.reconnect.map fun c => { w with client := c, posted := w.messages }
  | .accept generation => w.serve app (.input (.reconnect (session w.server).accountId (some generation)))
  | .goOn e => if Exchange.isOwn app e then w.serve app e else none
  | .receive i => w.messages[i]?.bind fun m => w.serve app (.input (.message m))
  | .hear i =>
    if w.client.socket.readyState = .opened then
      ((Objects.wire w.server.memory.objects).sent[i]?.filter fun f => w.since ≤ f.id).map fun f =>
        { w with client := w.client.onMessage f.message }
    else none
  | .hearFresh message =>
    if w.client.socket.readyState = .opened then some { w with client := w.client.onMessage message } else none

/-- The client has made another socket, and what has been on its way over the one before is lost. -/
def resuming (s : State signature) (c : VoiceClient) : Resumption where
  server := s
  client := c
  since := (Objects.wire s.memory.objects).next

theorem reconnect_spares {c c' : VoiceClient} (h : c.reconnect = some c') :
    c'.sequence = c.sequence ∧ c'.lastServerSequence = c.lastServerSequence ∧ c'.socket.sent = [] := by
  unfold VoiceClient.reconnect at h
  split at h
  · obtain rfl := Option.some.inj h
    exact ⟨rfl, rfl, rfl⟩
  · cases h

variable {app} {s : State signature} {w w' : Resumption}

/-! ### A missed event -/

/-- The numbers have gone on, and the client has not. -/
structure Missed (s : State signature) (last : ℕ) (w : Resumption) : Prop where
  live : Live w.server
  grows : Grows s.memory.objects w.server.memory.objects
  since : w.since = s.memory.objects.wire.next
  last : w.client.lastServerSequence = last
  goesOn : ∀ e, .text (some e) ∈ w.messages → e.type ≠ .sessionEnd

/-- The server makes a step. -/
theorem Missed.serve {last : ℕ} {e : Event (Realtime.server app)} (h : Missed s last w)
    (he : Persists app w.server e = true) (hs : w.serve app e = some w') : Missed s last w' := by
  obtain ⟨s', hs', rfl⟩ := Option.map_eq_some_iff.mp hs
  exact ⟨h.live.of_step he hs', h.grows.trans (grows_step h.live.growth he hs').2, h.since, h.last, h.goesOn⟩

/-- Every event that may be heard comes after a gap. -/
theorem Missed.gap {last : ℕ} (h : Missed s last w) (hmissed : last < (session s).sequence) {f : Flight}
    (hf : f ∈ given w.server.memory.objects) (hsince : w.since ≤ f.id) :
    ∀ n, f.message.sequence? = some n → w.client.lastServerSequence + 1 < n := by
  intro n hn
  have hlater : (session s).sequence < n := h.grows.later f hf (h.since ▸ hsince) n hn
  rw [h.last]
  omega

theorem Missed.call {last : ℕ} {eventId : Uuid} {call : VoiceClient.Call} {c : VoiceClient} (h : Missed s last w)
    (hends : call.ends = false) (hc : w.client.perform eventId call = some c) :
    Missed s last { w with client := c } := by
  have hspeaks : c.lastServerSequence = w.client.lastServerSequence ∧
      ∀ e, .text (some e) ∈ c.socket.sent → .text (some e) ∈ w.client.socket.sent ∨ e.type ≠ .sessionEnd := by
    cases VoiceClient.perform_speaks (VoiceClient.Call.ne_finished hends) hc with
    | nothing same => exact ⟨same.lastServerSequence, fun e he => .inl (same.sent ▸ he)⟩
    | envelope e _ _ notEnd _ lastServerSequence sent _ =>
        refine ⟨lastServerSequence, fun e' he' => ?_⟩
        rw [sent] at he'
        refine (List.mem_append.mp he').imp id fun hnew => ?_
        obtain rfl : e' = e := Option.some.inj (Message.text.inj (List.mem_singleton.mp hnew))
        exact notEnd hends
    | frame packet _ _ lastServerSequence sent _ =>
        refine ⟨lastServerSequence, fun e he => ?_⟩
        rw [sent] at he
        exact (List.mem_append.mp he).imp id fun hnew => absurd (List.mem_singleton.mp hnew) (by simp)
  refine ⟨h.live, h.grows, h.since, hspeaks.1.trans h.last, fun e he => ?_⟩
  rcases List.mem_append.mp he with hposted | hsent
  · exact h.goesOn e (List.mem_append_left _ hposted)
  · exact (hspeaks.2 e hsent).elim (fun hold => h.goesOn e (List.mem_append_right _ hold)) id

theorem Missed.of_step {last : ℕ} {a : Act (Event (Realtime.server app))} (h : Missed s last w)
    (hmissed : last < (session s).sequence) (hends : a.ends = false) (hfresh : a.fresh = false)
    (hstep : step app w a = some w') : Missed s last w' := by
  cases a with
  | call eventId call =>
      obtain ⟨c, hc, rfl⟩ := Option.map_eq_some_iff.mp hstep
      exact h.call hends hc
  | reconnect =>
      obtain ⟨c, hc, rfl⟩ := Option.map_eq_some_iff.mp hstep
      obtain ⟨-, hlast, hsent⟩ := reconnect_spares hc
      refine ⟨h.live, h.grows, h.since, hlast.trans h.last, fun e he => h.goesOn e ?_⟩
      rwa [messages, hsent, List.append_nil] at he
  | accept generation => exact h.serve (e := .input _) rfl hstep
  | goOn e =>
      simp only [step] at hstep
      split at hstep
      next hown =>
        have hpersists : Persists app w.server e = true := by
          cases e with
          | input x => rcases Exchange.own_input hown with rfl | rfl <;> rfl
          | _ => rfl
        exact h.serve hpersists hstep
      · cases hstep
  | receive i =>
      obtain ⟨m, hm, hserve⟩ := Option.bind_eq_some_iff.mp hstep
      have hpersists : Lasts w.server.memory.objects (.message m) = true := by
        refine Lasts.intro fun e he => h.goesOn e ?_
        obtain ⟨rfl, -⟩ := message_of_next he
        exact List.mem_of_getElem? hm
      exact h.serve (e := .input (.message m)) hpersists hserve
  | hear i =>
      simp only [step] at hstep
      split at hstep
      · obtain ⟨f, hf, rfl⟩ := Option.map_eq_some_iff.mp hstep
        obtain ⟨hsent, hsince⟩ := Option.filter_eq_some_iff.mp hf
        have hgiven : f ∈ given w.server.memory.objects := List.mem_append_left _ (List.mem_of_getElem? hsent)
        obtain ⟨hlast, -⟩ := VoiceClient.onMessage_gap (h.gap hmissed hgiven (of_decide_eq_true hsince))
        obtain ⟨-, hspares, -⟩ := VoiceClient.onMessage_spares f.message w.client
        refine ⟨h.live, h.grows, h.since, hlast.trans h.last, fun e he => h.goesOn e ?_⟩
        rwa [messages, hspares] at he
      · cases hstep
  | hearFresh message => cases hfresh

/-- **A missed event is final**: if the session has numbered an event that the client has not heard on the sockets
it had, the client handles no event on any socket on which the session is resumed, whatever happens until it ends the
conversation or hears a fresh session. The first event that it hears shuts each of them. -/
theorem missed_event_final (app : App) (accountId : Uuid) (events : List (Event (Realtime.server app)))
    (s : State signature) (c c' : VoiceClient) (acts : List (Act (Event (Realtime.server app)))) (w : Resumption)
    (hpersists : Along (Asyncio.step (Realtime.server app)) (fun s e => Persists app s e = true) (fresh accountId)
      events)
    (hrun : run (Asyncio.step (Realtime.server app)) (fresh accountId) events = some s)
    (hc : c.reconnect = some c') (hmissed : c.lastServerSequence < (session s).sequence)
    (hends : ∀ a ∈ acts, a.ends = false) (hfresh : ∀ a ∈ acts, a.fresh = false)
    (hw : run (step app) (resuming s c') acts = some w) :
    w.client.lastServerSequence = c.lastServerSequence ∧
      ∀ f ∈ given w.server.memory.objects, w.since ≤ f.id → f.message.sequence?.isSome = true →
        (w.client.onMessage f.message).socket.shut := by
  have hlive : Live s := live_of_run hpersists hrun
  obtain ⟨-, hlast, hsent⟩ := reconnect_spares hc
  have hstart : Missed s c.lastServerSequence (resuming s c') := by
    refine ⟨hlive, .refl hlive.growth.inv, rfl, hlast, fun e he => ?_⟩
    change _ ∈ [] ++ c'.socket.sent at he
    rw [hsent] at he
    exact absurd he List.not_mem_nil
  have h : Missed s c.lastServerSequence w := inv_of_along (I := Missed s c.lastServerSequence)
    (C := fun _ a => a.ends = false ∧ a.fresh = false)
    (fun _ _ _ h ha hstep => h.of_step hmissed ha.1 ha.2 hstep) hstart
    (.of_mem fun a ha => ⟨hends a ha, hfresh a ha⟩) hw
  exact ⟨h.last, fun f hf hsince => (VoiceClient.onMessage_gap (h.gap hmissed hf hsince)).2⟩

/-- A session is started, a `ping` is answered, and the socket is lost. -/
def pinged : List (Event (Realtime.server sampleApp)) :=
  Sample.opening ++ [Sample.text .ping 1, Sample.taken 2, Sample.go, .input .disconnect]

theorem pinged_persists : Along (Asyncio.step (Realtime.server sampleApp))
    (fun s e => Persists sampleApp s e = true) (fresh 1) pinged :=
  Along.of_alongB (c := fun s e => Persists sampleApp s e) (fun _ _ h => h) (by decide +kernel)

/-- A client that has heard two of the three events. -/
def inattentive : VoiceClient where
  sequence := 2
  lastServerSequence := 2
  state := .reconnecting
  conversationId := some 7
  socket := { readyState := .closed }

/-- The new socket is accepted, and what it has taken is heard. -/
def rehearing : List (Act (Event (Realtime.server sampleApp))) :=
  [.accept 2, .goOn (.start 0), .goOn Sample.go, .goOn (Sample.taken 3), .goOn Sample.go, .call 7 .reopened, .hear 3]

theorem missed_event_final_pinged : ∃ s, run (Asyncio.step (Realtime.server sampleApp)) (fresh 1) pinged = some s ∧
    ∃ c', inattentive.reconnect = some c' ∧ ∃ w, run (step sampleApp) (resuming s c') rehearing = some w ∧
      w.client.socket.shut ∧ w.client.lastServerSequence = 2 := by
  have hrun : ((run (Asyncio.step (Realtime.server sampleApp)) (fresh 1) pinged).any fun s =>
      decide (2 < (session s).sequence) && (inattentive.reconnect.any fun c' =>
        (run (step sampleApp) (resuming s c') rehearing).any fun w => decide w.client.socket.shut)) = true := by
    decide +kernel
  obtain ⟨s, hs, hreached⟩ := Option.any_eq_true _ _ |>.mp hrun
  obtain ⟨hmissed, hreached⟩ := Bool.and_eq_true_iff.mp hreached
  obtain ⟨c', hc, hreached⟩ := Option.any_eq_true _ _ |>.mp hreached
  obtain ⟨w, hw, hshut⟩ := Option.any_eq_true _ _ |>.mp hreached
  have hends : ∀ a ∈ rehearing, a.ends = false := List.forall_mem_iff_forall_getElem.mpr (by decide)
  have hfresh : ∀ a ∈ rehearing, a.fresh = false := List.forall_mem_iff_forall_getElem.mpr (by decide)
  have hfinal := missed_event_final sampleApp 1 pinged s inattentive c' rehearing w pinged_persists hs hc
    (of_decide_eq_true hmissed) hends hfresh hw
  exact ⟨s, hs, c', hc, w, hw, of_decide_eq_true hshut, hfinal.1⟩

/-- The third event of a fresh session passes for the one that was missed. -/
example : (inattentive.onMessage (.text ⟨3, "resync.required", none, .obj [], none⟩)).lastServerSequence = 3 := by
  decide

/-! ### A lost envelope -/

/-- The server expects an envelope that the client does not send again. -/
structure Lost (k : ℕ) (w : Resumption) : Prop where
  counted : Sound countTerms (fun _ => True) w.server
  count : lastEnvelope w.server.memory = k
  beyond : w.client.Beyond k
  posted : ∀ e, .text (some e) ∈ w.posted → k + 1 < e.sequence

theorem Lost.messages {k : ℕ} (h : Lost k w) : ∀ e, .text (some e) ∈ w.messages → k + 1 < e.sequence := fun e he =>
  (List.mem_append.mp he).elim (h.posted e) (h.beyond.sent e)

/-- The server makes a step. -/
theorem Lost.serve {k : ℕ} {e : Event (Realtime.server app)} (h : Lost k w) (he : counted? w.server e = none)
    (hs : w.serve app e = some w') : Lost k w' := by
  obtain ⟨s', hs', rfl⟩ := Option.map_eq_some_iff.mp hs
  obtain ⟨hcounted, hcount⟩ := counted_step h.counted he hs'
  exact ⟨hcounted, hcount.trans h.count, h.beyond, h.posted⟩

theorem Lost.of_step {k : ℕ} {a : Act (Event (Realtime.server app))} (h : Lost k w)
    (hstep : step app w a = some w') : Lost k w' := by
  cases a with
  | call eventId call =>
      obtain ⟨c, hc, rfl⟩ := Option.map_eq_some_iff.mp hstep
      exact ⟨h.counted, h.count, h.beyond.perform hc, h.posted⟩
  | reconnect =>
      obtain ⟨c, hc, rfl⟩ := Option.map_eq_some_iff.mp hstep
      exact ⟨h.counted, h.count, h.beyond.reconnect hc, h.messages⟩
  | accept generation => exact h.serve (e := .input _) rfl hstep
  | goOn e =>
      simp only [step] at hstep
      split at hstep
      next hown =>
        have hquiet : counted? w.server e = none := by
          cases e with
          | input x => rcases Exchange.own_input hown with rfl | rfl <;> rfl
          | _ => rfl
        exact h.serve hquiet hstep
      · cases hstep
  | receive i =>
      obtain ⟨m, hm, hserve⟩ := Option.bind_eq_some_iff.mp hstep
      refine h.serve (e := .input (.message m)) (Option.eq_none_iff_forall_ne_some.mpr fun e he => ?_) hserve
      obtain ⟨rfl, hnext⟩ := message_of_next he
      have hbeyond : k + 1 < e.sequence := h.messages e (List.mem_of_getElem? hm)
      have hcount : w.server.memory.objects.state.lastClientSequence = k := h.count
      omega
  | hear i =>
      simp only [step] at hstep
      split at hstep
      · obtain ⟨f, hf, rfl⟩ := Option.map_eq_some_iff.mp hstep
        exact ⟨h.counted, h.count, h.beyond.onMessage f.message, h.posted⟩
      · cases hstep
  | hearFresh message =>
      simp only [step] at hstep
      split at hstep
      · obtain rfl := Option.some.inj hstep
        exact ⟨h.counted, h.count, h.beyond.onMessage message, h.posted⟩
      · cases hstep

/-- **A lost envelope is final**: if the client has sent an envelope that the server has not received on the sockets
it had, the server counts no envelope on any socket that the client makes to resume the session, whatever happens:
each of them, the `session.resume` and the `session.end` among them, has a number beyond the one that the server
expects. -/
theorem lost_envelope_final (app : App) (accountId : Uuid) (events : List (Event (Realtime.server app)))
    (s : State signature) (c c' : VoiceClient) (acts : List (Act (Event (Realtime.server app)))) (w : Resumption)
    (hpersists : Along (Asyncio.step (Realtime.server app)) (fun s e => Persists app s e = true) (fresh accountId)
      events)
    (hrun : run (Asyncio.step (Realtime.server app)) (fresh accountId) events = some s)
    (hc : c.reconnect = some c') (hlost : (session s).lastClientSequence < c.sequence)
    (hw : run (step app) (resuming s c') acts = some w) :
    (session w.server).lastClientSequence = (session s).lastClientSequence ∧
      ∀ e, .text (some e) ∈ w.messages → (session w.server).lastClientSequence + 1 < e.sequence := by
  obtain ⟨hsequence, -, hsent⟩ := reconnect_spares hc
  have hstart : Lost (session s).lastClientSequence (resuming s c') := by
    refine ⟨(live_of_run hpersists hrun).counted, rfl, ⟨fun e he => ?_, .inl (hsequence ▸ hlost)⟩, fun e he => ?_⟩
    · change _ ∈ c'.socket.sent at he
      rw [hsent] at he
      exact absurd he List.not_mem_nil
    · exact absurd he List.not_mem_nil
  have h : Lost (session s).lastClientSequence w := inv_of_run (I := Lost (session s).lastClientSequence)
    (fun _ _ _ h hstep => h.of_step hstep) hstart hw
  have hcount : (session w.server).lastClientSequence = (session s).lastClientSequence := h.count
  refine ⟨hcount, fun e he => ?_⟩
  rw [hcount]
  exact h.messages e he

/-- A client that has sent three envelopes, of which the server has received two. -/
def unheard : VoiceClient where
  sequence := 3
  lastServerSequence := 3
  state := .reconnecting
  conversationId := some 7
  socket := { readyState := .closed }

/-- The new socket is accepted, and the `session.resume` is received. -/
def reasking : List (Act (Event (Realtime.server sampleApp))) :=
  [.accept 2, .goOn (.start 0), .goOn Sample.go, .goOn (Sample.taken 3), .goOn Sample.go, .call 7 .reopened,
    .receive 0]

theorem lost_envelope_final_pinged : ∃ s, run (Asyncio.step (Realtime.server sampleApp)) (fresh 1) pinged = some s ∧
    ∃ c', unheard.reconnect = some c' ∧ ∃ w, run (step sampleApp) (resuming s c') reasking = some w ∧
      w.messages.filterMap VoiceClient.number? = [4] ∧
      (session w.server).lastClientSequence = (session s).lastClientSequence := by
  have hrun : ((run (Asyncio.step (Realtime.server sampleApp)) (fresh 1) pinged).any fun s =>
      decide ((session s).lastClientSequence < 3) && (unheard.reconnect.any fun c' =>
        (run (step sampleApp) (resuming s c') reasking).any fun w =>
          decide (w.messages.filterMap VoiceClient.number? = [4]))) = true := by
    decide +kernel
  obtain ⟨s, hs, hreached⟩ := Option.any_eq_true _ _ |>.mp hrun
  obtain ⟨hlost, hreached⟩ := Bool.and_eq_true_iff.mp hreached
  obtain ⟨c', hc, hreached⟩ := Option.any_eq_true _ _ |>.mp hreached
  obtain ⟨w, hw, hnumbers⟩ := Option.any_eq_true _ _ |>.mp hreached
  have hfinal := lost_envelope_final sampleApp 1 pinged s unheard c' reasking w pinged_persists hs hc
    (of_decide_eq_true hlost) hw
  exact ⟨s, hs, c', hc, w, hw, of_decide_eq_true hnumbers, hfinal.1⟩

end Resumption

end KajovoDagmar.Realtime
