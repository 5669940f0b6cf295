import KajovoDagmar.Library.RelyGuarantee
import KajovoDagmar.Realtime.WebSocket

/-! # What the turns of a session leave alone

Sending and the tasks of a turn change little of what they share: the numbering, the wire, the
lock, and the two texts of the assistant.  Whatever is indifferent to these is maintained by every
one of them (`Calm`). -/

namespace KajovoDagmar.Realtime

open Asyncio Protocol

/-- The objects without what sending and the texts of a turn change. -/
def settled (o : Objects) : Objects :=
  { o with
    state := { o.state with sequence := 0, connected := true, lastAssistantText := none, partialText := "" }
    locks := fun _ => none, wire := {}, tick := 0 }

/-- Nothing else has changed. -/
def Quiet (o o' : Objects) : Prop := settled o = settled o'

/-- An exception that is not the one of a cancellation. -/
def Raised.ordinary (e : Raised) : Prop := e ≠ .cancelled

/-- What the sends and calls of a coroutine and the texts of a turn maintain. -/
structure Calm (T : Terms signature) (i : Option ℕ)
    (R : Memory signature → Memory signature → Bool → Prop) : Prop extends Coro.Resting T i R where
  emits : ∀ websocket type payload ackFor,
    (emit i websocket type payload ackFor).Maintains T i R fun _ => False
  sends : ∀ websocket data, (sendAudio i websocket data).Maintains T i R fun _ => False
  texts : ∀ m₀ m b partialText lastAssistantText, R m₀ m b →
    R m₀ { m with objects := { m.objects with
      state := { m.objects.state with partialText := partialText, lastAssistantText := lastAssistantText } } } b

variable {T : Terms signature} {i : Option ℕ} {R : Memory signature → Memory signature → Bool → Prop}
  {X : Raised → Prop}

/-! ### Sending -/

section sending

theorem maintains_state : state.Maintains T i R X :=
  Coro.maintains_objects.bind fun _ => Coro.maintains_pure _

variable (hrest : Coro.Resting T i R)
  (hquiet : ∀ m₀ m b o, R m₀ m b → Quiet m.objects o → R m₀ { m with objects := o } b)
include hquiet

theorem maintains_change {f : Objects → Objects} (hf : ∀ o, Quiet o (f o)) :
    (Coro.modify (S := signature) f).Maintains T i R X :=
  Coro.maintains_modify fun m₀ m b hR => hquiet m₀ m b _ hR (hf m.objects)

theorem maintains_assign {f : ConnectionState → ConnectionState}
    (hf : ∀ o : Objects, Quiet o { o with state := f o.state }) : (assign f).Maintains T i R X :=
  maintains_change hquiet hf

theorem maintains_event (type : String) (payload : Json) (ackFor : Option Uuid) :
    (event type payload ackFor).Maintains T i R X :=
  (maintains_assign (f := fun s => { s with sequence := s.sequence + 1 }) hquiet fun _ => rfl).bind fun _ =>
    maintains_state.bind fun _ => Coro.maintains_pure _

theorem maintains_release (lock : ℕ) : (release lock).Maintains T i R X :=
  maintains_change hquiet fun _ => rfl

include hrest

theorem maintains_acquire (lock : ℕ) : (acquire i lock).Maintains T i R X := by
  refine Coro.maintains_objects.bind fun o => ?_
  have htake := maintains_change (X := X) (T := T) (i := i) hquiet (f := fun o : Objects =>
    { o with locks := Function.update o.locks lock (some i) }) fun _ => rfl
  split
  · exact (Coro.maintains_waitFor hrest _).bind fun _ => htake
  · exact (Coro.maintains_pure ()).bind fun _ => htake

theorem maintains_sendOver (websocket : ℕ) (message : ServerMessage) :
    (sendOver i websocket message).Maintains T i R fun e => e.disconnects = true := by
  refine Coro.maintains_objects.bind fun o => ?_
  refine (maintains_change (f := launch i websocket message) hquiet fun _ => rfl).bind fun _ => ?_
  refine Coro.Maintains.bind ?_ fun _ => Coro.maintains_objects.bind fun o => ?_
  · refine (Coro.maintains_waitFor (X := fun _ => False) hrest _).catch (fun _ h => h.elim) ?_
    rintro m₀ m hR
    exact ⟨rfl, rfl, hquiet m₀ m true (withdraw _ m.objects) hR rfl⟩
  · split
    · exact Coro.maintains_pure ()
    · next r _ =>
      refine Coro.maintains_throw ?_
      cases r.2 <;> rfl

theorem maintains_trySending (websocket : ℕ) (message : ServerMessage) :
    (trySending i websocket message).Maintains T i R fun _ => False := by
  refine (maintains_sendOver hrest hquiet websocket message).catch (fun e he => ?_) ?_
  · rw [if_pos he]
    exact maintains_change hquiet fun _ => rfl
  · intro m₀ m hR
    exact ⟨rfl, rfl, hR⟩

theorem maintains_emit (websocket : ℕ) (type : String) (payload : List (String × Json))
    (ackFor : Option Uuid) : (emit i websocket type payload ackFor).Maintains T i R fun _ => False := by
  refine maintains_state.bind fun s => ?_
  split
  · refine (maintains_acquire hrest hquiet _).bind fun _ => ?_
    refine Coro.Maintains.finally ?_ (maintains_release hquiet _)
    exact (maintains_event hquiet _ _ _).bind fun _ => maintains_trySending hrest hquiet _ _
  · exact Coro.maintains_pure ()

theorem maintains_sendAudio (websocket : ℕ) (data : List UInt8) :
    (sendAudio i websocket data).Maintains T i R fun _ => False := by
  refine maintains_state.bind fun s => ?_
  split
  · refine (maintains_acquire hrest hquiet _).bind fun _ => ?_
    exact Coro.Maintains.finally (maintains_trySending hrest hquiet _ _) (maintains_release hquiet _)
  · exact Coro.maintains_pure ()

/-- What is indifferent to quiet changes. -/
theorem Calm.of_quiet : Calm T i R where
  toResting := hrest
  emits := maintains_emit hrest hquiet
  sends := maintains_sendAudio hrest hquiet
  texts m₀ m b _ _ hR := hquiet m₀ m b _ hR rfl

end sending

/-! ### Turns -/

/-- The `finally` of `process_audio_turn`. -/
def finalized (o : Objects) : Objects :=
  { o with state := { o.state with turnFinalizing := false, partialText := "" } }

namespace Calm

variable (h : Calm T i R)
include h

theorem perform (o : Op) : (Coro.perform (S := signature) o).Maintains T i R Raised.ordinary :=
  Coro.maintains_perform h.toResting fun e _ => (by simp [Raised.ordinary] : (Raised.exc e).ordinary)

theorem emit (websocket : ℕ) (type : String) (payload : List (String × Json)) (ackFor : Option Uuid) :
    (Realtime.emit i websocket type payload ackFor).Maintains T i R X :=
  (h.emits websocket type payload ackFor).mono fun _ hno => hno.elim

theorem inSession {α : Type} {c : Co α} (hc : c.Maintains T i R Raised.ordinary) :
    (Realtime.inSession c).Maintains T i R Raised.ordinary := by
  refine Coro.Maintains.catch (X := Raised.ordinary) ?_ (fun e he => ?_) ?_
  · exact hc.bind fun a => (h.perform .commit).bind fun _ => Coro.maintains_pure a
  · cases e with
    | cancelled => exact (he rfl).elim
    | exc exc =>
      have hthrow : (throw (.exc exc) : Co α).Maintains T i R Raised.ordinary := Coro.maintains_throw he
      by_cases hdurable : exc.Durable
      · simp only [if_pos hdurable]
        exact (h.perform .commit).bind fun _ => hthrow
      · simp only [if_neg hdurable]
        exact (h.perform .rollback).bind fun _ => hthrow
  · intro m₀ m hR
    exact ⟨rfl, rfl, hR⟩

theorem transcribe (audio : List UInt8) (language : String) :
    (Realtime.transcribe audio language).Maintains T i R Raised.ordinary :=
  h.inSession (h.perform _)

theorem emitFailure (websocket : ℕ) (message : String) (ackFor : Uuid) (e : Exc) :
    (Realtime.emitFailure i websocket message ackFor e).Maintains T i R X := by
  cases e <;> exact h.emit ..

theorem sendChunks (websocket : ℕ) (chunks : List (List UInt8)) :
    (Realtime.sendChunks i websocket chunks).Maintains T i R Raised.ordinary := by
  induction chunks with
  | nil => exact h.perform _
  | cons chunk rest ih =>
      refine (h.perform _).bind fun _ => ?_
      split
      · exact ((h.sends websocket chunk).mono fun _ hno => hno.elim).bind fun _ => ih
      · exact ih

theorem synthesize (websocket : ℕ) (text language : String) :
    (Realtime.synthesize i websocket text language).Maintains T i R Raised.ordinary := by
  refine Coro.Maintains.catch (X := Raised.ordinary) ?_ (fun e he => ?_) ?_
  · refine h.inSession ((h.perform _).bind fun _ => (h.emit ..).bind fun _ => (h.perform _).bind fun speech => ?_)
    refine (h.sendChunks websocket _).bind fun _ => ?_
    split
    · exact h.emit ..
    · exact (Coro.maintains_throw (by simp [Raised.ordinary])).bind fun _ => h.emit ..
  · split
    · exact h.emit ..
    · exact h.emit ..
    · exact Coro.maintains_throw he
  · intro m₀ m hR
    exact ⟨rfl, rfl, hR⟩

variable (app : App)

theorem answerTurn (websocket : ℕ) (text idempotencyKey : String) (ackFor : Uuid) (inputMode : InputMode) :
    (Realtime.answerTurn app i websocket text idempotencyKey ackFor inputMode).Maintains T i R
      Raised.ordinary := by
  refine Coro.Maintains.bind (h.inSession ?_) fun answer => (h.emit ..).bind fun _ => ?_
  · refine maintains_state.bind fun s => (h.perform _).bind fun messageId => ?_
    split
    · exact (h.emit ..).bind fun _ => maintains_state.bind fun s => h.perform _
    · exact maintains_state.bind fun s => h.perform _
  · refine Coro.Maintains.bind (Coro.maintains_modify fun m₀ m b hR => ?_) fun _ =>
      maintains_state.bind fun s => h.synthesize ..
    exact h.texts m₀ m b m.objects.state.partialText (some (AssistantAnswer.content answer)) hR

/-- The `try` of `process_text_turn` with its ends. -/
theorem finishTurn (websocket : ℕ) (text idempotencyKey : String) (ackFor : Uuid) (inputMode : InputMode) :
    (do
      try Realtime.answerTurn app i websocket text idempotencyKey ackFor inputMode
      catch e =>
        match e with
        | .cancelled => do
          Realtime.emit i websocket "assistant.interrupted" [("state", .str "listening")] (some ackFor)
          throw e
        | .exc exc =>
          Realtime.emitFailure i websocket "Textovou repliku se nepodařilo zpracovat." ackFor exc
      finally
        let s ← state
        if s.conversationId.isSome then
          Realtime.emit i websocket "state.changed" [("state", .str "listening")] :
      Co Unit).Maintains T i R X := by
  refine Coro.Maintains.finally ?_ (maintains_state.bind fun s => ?_)
  · refine (h.answerTurn app websocket text idempotencyKey ackFor inputMode).catch (fun e he => ?_) ?_
    · cases e with
      | cancelled => exact (he rfl).elim
      | exc exc => exact h.emitFailure ..
    · intro m₀ m hR
      refine Coro.meets_andThen.mpr (((h.emits websocket _ _ _).meets m₀ m true hR).mono fun r m₀ m b hr => ?_)
      rcases hr.1 with ⟨rfl, hno⟩ | ⟨hb, -, -⟩
      · cases r with
        | ok _ => exact ⟨rfl, rfl, hr.2⟩
        | error e => exact (hno e rfl).elim
      · exact absurd hb (by simp)
  · split
    · exact h.emit ..
    · exact Coro.maintains_pure ()

theorem processTextTurn (websocket : ℕ) (text idempotencyKey : String) (ackFor : Uuid) (inputMode : InputMode)
    (stateAlreadyProcessing : Bool) :
    (Realtime.processTextTurn app i websocket text idempotencyKey ackFor inputMode
      stateAlreadyProcessing).Maintains T i R X := by
  unfold Realtime.processTextTurn
  have hfinish := h.finishTurn (X := X) app websocket text idempotencyKey ackFor inputMode
  split
  · exact h.emit ..
  · split
    · exact (h.emit ..).bind fun _ => hfinish
    · exact hfinish

/-- An audio turn ends with its `finally`. -/
theorem processAudioTurn (websocket : ℕ) (audio : List UInt8) (language : String) (ackFor : Uuid)
    {Q : Post signature Unit} {m₀ m : Memory signature} {b : Bool} (hR : R m₀ m b)
    (hend : ∀ r m₀ m b', Coro.Ends (fun _ => False) b r b' → R m₀ m b' →
      Q r m₀ { m with objects := finalized m.objects } b') :
    (Realtime.processAudioTurn app i websocket audio language ackFor).Meets T i Q m₀ m b := by
  refine Coro.Maintains.finally_modify (X := fun _ => False) ?_ hR hend
  refine Coro.Maintains.catch (X := Raised.ordinary) ?_ (fun e he => ?_) ?_
  · exact (h.emit ..).bind fun _ => (h.transcribe audio language).bind fun transcript =>
      (h.emit ..).bind fun _ => h.processTextTurn ..
  · cases e with
    | cancelled => exact (he rfl).elim
    | exc exc => exact h.emitFailure ..
  · intro m₀ m hR
    exact ⟨rfl, rfl, hR⟩

theorem emitPartialTranscript (websocket : ℕ) (audio : List UInt8) (language : String) :
    (Realtime.emitPartialTranscript i websocket audio language).Maintains T i R Raised.ordinary := by
  refine Coro.Maintains.catch (X := Raised.ordinary) ?_ (fun e he => ?_) ?_
  · refine (h.transcribe audio language).bind fun text => maintains_state.bind fun s => ?_
    split
    · refine Coro.Maintains.bind (Coro.maintains_modify fun m₀ m b hR => ?_) fun _ => h.emit ..
      exact h.texts m₀ m b (PythonText.strip text) m.objects.state.lastAssistantText hR
    · exact Coro.maintains_pure ()
  · split
    · exact Coro.maintains_pure ()
    · exact Coro.maintains_pure ()
    · exact Coro.maintains_throw he
  · intro m₀ m hR
    exact ⟨rfl, rfl, hR⟩

theorem expireSuspendedSession
    (hpop : ∀ m₀ m b, R m₀ m b → R m₀ { m with objects := { m.objects with registered := none } } b)
    (hexpire : ∀ m₀ m b, R m₀ m b → R m₀ { m with objects := { m.objects with state := { m.objects.state with
      conversationId := none, audio := [], vad := m.objects.state.vad.reset } } } b) :
    Realtime.expireSuspendedSession.Maintains T i R Raised.ordinary := by
  refine (h.perform _).bind fun _ => Coro.maintains_objects.bind fun o => ?_
  split
  · exact Coro.maintains_pure ()
  · split
    · exact Coro.Maintains.bind (Coro.maintains_modify hpop) fun _ => maintains_state.bind fun s =>
        Coro.Maintains.bind (h.inSession (h.perform _)) fun _ => Coro.maintains_modify hexpire
    · exact Coro.maintains_pure ()

end Calm

/-- **A task** maintains what its sends and calls maintain; an audio turn ends with its `finally`. -/
theorem Calm.body {n : ℕ} (h : Calm T (some n) R) (app : App) (job : Job) {Q : Post signature Unit}
    {m₀ m : Memory signature} (hR : R m₀ m false)
    (hend : ∀ r m₀ m b, Coro.Ends Raised.ordinary false r b → R m₀ m b → Q r m₀ m b)
    (hturn : ∀ websocket audio language ackFor, job = .processAudioTurn websocket audio language ackFor →
      ∀ r m₀ m b, Coro.Ends (fun _ => False) false r b → R m₀ m b →
        Q r m₀ { m with objects := finalized m.objects } b)
    (hpop : ∀ m₀ m b, R m₀ m b → R m₀ { m with objects := { m.objects with registered := none } } b)
    (hexpire : ∀ m₀ m b, R m₀ m b → R m₀ { m with objects := { m.objects with state := { m.objects.state with
      conversationId := none, audio := [], vad := m.objects.state.vad.reset } } } b) :
    (Realtime.body app n job).Meets T (some n) Q m₀ m false := by
  have hmeets : ∀ c : Co Unit, c.Maintains T (some n) R Raised.ordinary → c.Meets T (some n) Q m₀ m false :=
    fun c hc => (hc.meets m₀ m false hR).mono fun r m₀ m b hr => hend r m₀ m b hr.1 hr.2
  cases job with
  | processAudioTurn websocket audio language ackFor =>
    exact h.processAudioTurn app websocket audio language ackFor hR (hturn _ _ _ _ rfl)
  | processTextTurn websocket text idempotencyKey ackFor => exact hmeets _ (h.processTextTurn ..)
  | synthesize websocket text language => exact hmeets _ (h.synthesize ..)
  | emitPartialTranscript websocket audio language => exact hmeets _ (h.emitPartialTranscript ..)
  | expireSuspendedSession => exact hmeets _ (h.expireSuspendedSession hpop hexpire)

end KajovoDagmar.Realtime
