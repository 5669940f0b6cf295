import KajovoDagmar.Realtime.Exchange

/-! # A client that starts again

`start` makes a socket for a new session, but only `end` counts from the beginning again.  A client whose `start` has
failed after its `session.start` goes on with the next number, where the new session expects the first one: it is
refused as often as it starts (`restart_refused`). -/

namespace KajovoDagmar.Realtime

open Asyncio Protocol Runs

/-! ### A session that has not been started -/

/-- No envelope has been counted, and there is no conversation. -/
structure Unstarted (m : Memory signature) : Prop where
  count : m.objects.state.lastClientSequence = 0
  conversation : m.objects.state.conversationId = none

theorem Unstarted.quiet {m : Memory signature} {o : Objects} (h : Unstarted m) (hquiet : Quiet m.objects o) :
    Unstarted { m with objects := o } where
  count := (congrArg (fun o : Objects => o.state.lastClientSequence) hquiet).symm.trans h.count
  conversation := (congrArg (fun o : Objects => o.state.conversationId) hquiet).symm.trans h.conversation

def unstartedTerms : Terms signature where
  inv := Unstarted
  keeps _ _ _ := True
  rely _ _ _ := True
  replies _ _ := True

theorem calm_unstarted (i : Option ℕ) : Calm unstartedTerms i fun _ m _ => Unstarted m :=
  Calm.of_quiet
    { handsOver := fun _ _ _ h => ⟨h, trivial⟩
      resumed := fun _ _ _ _ _ _ hi _ => hi
      interrupted := fun _ _ _ _ _ hi _ => hi }
    fun _ _ _ _ h hquiet => h.quiet hquiet

section unstarted

variable {m₀ m : Memory signature} {b : Bool}

theorem unstarted_cancelPartialTask : Keeps unstartedTerms (fun _ m _ => Unstarted m) cancelPartialTask := by
  have hassign : Keeps unstartedTerms (fun _ m _ => Unstarted m) (assign fun s => { s with partialTask := none }) :=
    Coro.maintains_modify fun _ _ _ h => ⟨h.count, h.conversation⟩
  have hcancel : ∀ task, Keeps unstartedTerms (fun _ m _ => Unstarted m) (cancelTask task) :=
    Keeps.cancelTask (calm_unstarted none).toResting fun _ =>
      ⟨fun _ _ _ h => ⟨Coro.ends_ok (), h.count, h.conversation⟩⟩
  exact maintains_state.bind fun _ => (hcancel _).bind fun _ => hassign

/-- A session without a conversation is not suspended. -/
theorem meets_suspend (h : Unstarted m) :
    suspend.Meets unstartedTerms none (fun _ _ m _ => Unstarted m) m₀ m b := by
  refine meets_modify (meets_assign ?_)
  have hcancel : cancelPartialTask.Meets unstartedTerms none (fun _ _ m _ => Unstarted m) m₀
      (withState { m with objects := { m.objects with opened := false } } fun s => { s with connected := false }) b :=
    Keeps.upholds unstarted_cancelPartialTask ⟨h.count, h.conversation⟩
  refine hcancel.bind (fun _ m₀ m b h => meets_state ?_) fun _ _ _ _ h => h
  rw [h.conversation]
  exact h

/-- The input is not the next envelope, and not another socket. -/
structure PassesBy (x : Input) (m : Memory signature) : Prop where
  envelope : nextEnvelope? m.objects x = none
  socket : ∀ accountId generation, x ≠ .reconnect accountId generation

/-- What passes by starts no session. -/
theorem main_unstarted (app : App) {x : Input} (h : Unstarted m) (hx : PassesBy x m) :
    (main app x).Meets unstartedTerms none (fun _ _ m _ => Unstarted m) m m false := by
  have hemit : ∀ websocket type payload ackFor,
      Keeps unstartedTerms (fun _ m _ => Unstarted m) (emit none websocket type payload ackFor) :=
    (calm_unstarted none).emit
  cases x with
  | accept =>
      refine meets_objects ?_
      split
      · have hready : Keeps unstartedTerms (fun _ m _ => Unstarted m) (ready 1) :=
          Coro.maintains_objects.bind fun _ => hemit ..
        exact meets_modify (Keeps.upholds hready ⟨h.count, h.conversation⟩)
      · exact h
  | disconnect =>
      refine meets_objects ?_
      split
      · exact meets_suspend h
      · exact h
  | reconnect accountId generation => exact absurd rfl (hx.socket accountId generation)
  | message packet =>
      refine meets_objects ?_
      split
      next hopened =>
        have hreceive : (receive app (Objects.websocket m.objects) packet).Meets unstartedTerms none
            (fun _ _ m _ => Unstarted m) m m false := by
          cases packet with
          | bytes data =>
              refine meets_state ?_
              rw [if_pos (.inr h.conversation)]
              exact h
          | other => exact h
          | text envelope =>
              cases envelope with
              | none => exact Keeps.upholds (hemit ..) h
              | some e =>
                  refine meets_state ?_
                  split
                  · exact Keeps.upholds (hemit ..) h
                  split
                  · exact Keeps.upholds (hemit ..) h
                  next hnext =>
                    have hfirst : nextEnvelope? m.objects (.message (.text (some e))) = some e :=
                      if_pos ⟨hopened, not_not.mp hnext⟩
                    exact absurd (hfirst.symm.trans hx.envelope) (by simp)
        refine Coro.meets_andThen.mpr (hreceive.mono fun r m₀ m b h => ?_)
        cases r with
        | ok _ => exact h
        | error e =>
            cases e with
            | cancelled => exact h
            | exc _ => exact meets_suspend h
      · exact h

end unstarted

theorem contract_unstarted (app : App) :
    Contract (server app) unstartedTerms (fun _ => True) PassesBy fun _ _ => True where
  refl _ _ := trivial
  trans _ _ _ _ _ _ := trivial
  others _ _ _ _ _ _ _ _ := trivial
  moves _ _ _ hi _ hmove :=
    ⟨⟨(congrArg ConnectionState.lastClientSequence (state_of_move hmove)).trans hi.count,
      (congrArg ConnectionState.conversationId (state_of_move hmove)).trans hi.conversation⟩, fun _ => trivial⟩
  idle_rely _ _ _ _ _ := trivial
  main _ _ hi _ hx := (main_unstarted app hi hx).mono fun _ _ _ _ h => ⟨h, trivial, trivial⟩
  body n t _ hi _ _ _ _ := (calm_unstarted (some n)).body app t.job ⟨hi.count, hi.conversation⟩
    (fun _ _ _ _ _ h => ⟨⟨h.count, h.conversation⟩, trivial⟩)
    (fun _ _ _ _ _ _ _ _ _ _ h => ⟨⟨h.count, h.conversation⟩, trivial⟩)
    (fun _ _ _ h => ⟨h.count, h.conversation⟩) fun _ _ _ h => ⟨h.count, rfl⟩
  dropped _ _ _ hi _ _ _ _ := ⟨⟨hi.count, hi.conversation⟩, trivial⟩

/-! ### A client that is refused -/

namespace Exchange

variable {app : App} {w w' : Exchange}

/-- The server expects the first envelope, which the client does not send. -/
structure Refused (w : Exchange) : Prop where
  unstarted : Sound unstartedTerms (fun _ => True) w.server
  beyond : w.client.Beyond 0

theorem Refused.serve {e : Event (Realtime.server app)} {s : State signature} {received : ℕ} (h : Refused w)
    (he : Admits (Realtime.server app) unstartedTerms PassesBy (fun _ _ => True) w.server e)
    (hs : Asyncio.step (Realtime.server app) w.server e = some s) :
    Refused { w with server := s, received := received } :=
  ⟨(h.unstarted.of_step (contract_unstarted app) he hs).1, h.beyond⟩

theorem Refused.of_step {a : Act (Event (Realtime.server app))} (h : Refused w) (hstep : step app w a = some w') :
    Refused w' := by
  cases a with
  | call eventId call =>
      obtain ⟨c, hc, rfl⟩ := Option.map_eq_some_iff.mp hstep
      exact ⟨h.unstarted, h.beyond.perform hc⟩
  | goOn e =>
      simp only [step] at hstep
      split at hstep
      next hown =>
        obtain ⟨s, hs, rfl⟩ := Option.map_eq_some_iff.mp hstep
        refine h.serve ?_ hs
        cases e with
        | input x => rcases own_input hown with rfl | rfl <;> exact ⟨rfl, fun _ _ h => by cases h⟩
        | resume who reply => exact fun _ => trivial
        | _ => trivial
      · cases hstep
  | receive =>
      simp only [step] at hstep
      split at hstep
      · obtain ⟨m, hm, hstep⟩ := Option.bind_eq_some_iff.mp hstep
        obtain ⟨s, hs, rfl⟩ := Option.map_eq_some_iff.mp hstep
        refine h.serve (e := .input (.message m)) ⟨Option.eq_none_iff_forall_ne_some.mpr fun e he => ?_,
          fun _ _ h => by cases h⟩ hs
        obtain ⟨rfl, hnext⟩ := message_of_next he
        have hbeyond : 0 + 1 < e.sequence := h.beyond.sent e (List.mem_of_getElem? hm)
        have hcount : w.server.memory.objects.state.lastClientSequence = 0 := h.unstarted.inv.count
        omega
      · cases hstep
  | hear =>
      simp only [step] at hstep
      split at hstep
      · obtain ⟨f, hf, rfl⟩ := Option.map_eq_some_iff.mp hstep
        exact ⟨h.unstarted, h.beyond.onMessage f.message⟩
      · cases hstep

/-- **A client that starts again without having ended never gets a session**: whatever it calls and whatever the
server does, no envelope of the client is counted and no conversation is begun, for every envelope has a number beyond
the one that the server expects. -/
theorem restart_refused (app : App) (accountId : Uuid) (language : String) (client : VoiceClient)
    (hsent : 0 < client.sequence) (acts : List (Act (Event (Realtime.server app)))) (w : Exchange)
    (hrun : run (step app) (beginning accountId language client) acts = some w) :
    (session w.server).lastClientSequence = 0 ∧ (session w.server).conversationId = none ∧
      ∀ e, .text (some e) ∈ w.client.socket.sent → (session w.server).lastClientSequence + 1 < e.sequence := by
  have hbeginning : Refused (beginning accountId language client) :=
    ⟨Sound.quiet ⟨rfl, rfl⟩ trivial rfl fun _ => rfl, fun _ he => absurd he List.not_mem_nil, .inl hsent⟩
  have h : Refused w := inv_of_run (I := Refused) (fun _ _ _ h hstep => h.of_step hstep) hbeginning hrun
  have hcount : (session w.server).lastClientSequence = 0 := h.unstarted.inv.count
  refine ⟨hcount, h.unstarted.inv.conversation, fun e he => ?_⟩
  rw [hcount]
  exact h.beyond.sent e he

/-- A client whose `start` has failed after its `session.start`. -/
def failedOnce : Option VoiceClient := ((({} : VoiceClient).start "cs").opened 100 none).bind VoiceClient.startFailed

def restarting : List (Act (Event (Realtime.server sampleApp))) :=
  [.goOn (.input .accept), .goOn (Sample.taken 0), .goOn Sample.go, .call 101 (.opened none), .receive]

theorem restart_refused_failedOnce : ∃ client, failedOnce = some client ∧
    ∃ w, run (step sampleApp) (beginning 1 "cs" client) restarting = some w ∧
      w.client.socket.sent.filterMap VoiceClient.number? = [2] ∧ (session w.server).lastClientSequence = 0 := by
  have hrun : (failedOnce.any fun client => decide (0 < client.sequence) &&
      (run (step sampleApp) (beginning 1 "cs" client) restarting).any fun w =>
        decide (w.client.socket.sent.filterMap VoiceClient.number? = [2])) = true := by decide +kernel
  obtain ⟨client, hclient, hreached⟩ := Option.any_eq_true _ _ |>.mp hrun
  obtain ⟨hsent, hreached⟩ := Bool.and_eq_true_iff.mp hreached
  obtain ⟨w, hw, hnumbers⟩ := Option.any_eq_true _ _ |>.mp hreached
  exact ⟨client, hclient, w, hw, of_decide_eq_true hnumbers,
    (restart_refused sampleApp 1 "cs" client (of_decide_eq_true hsent) restarting w hw).1⟩

end Exchange

end KajovoDagmar.Realtime
