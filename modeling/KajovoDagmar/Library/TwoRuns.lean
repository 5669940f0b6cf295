import KajovoDagmar.Library.Transaction

/-! # Pairs of runs

`Tx.Alike R Q m m'` relates two computations: from stores that are related by `R` they end alike,
both with the same exception or with values related by `Q`, and their stores are related again.
The rules follow the two computations side by side; a computation may stand on both sides. -/

universe u

namespace Tx

variable {ε σ α β γ δ : Type u}

/-- The same exception, or values related by `Q`. -/
inductive Outcomes (Q : α → β → Prop) : Except ε α → Except ε β → Prop where
  | ok {a : α} {b : β} (h : Q a b) : Outcomes Q (.ok a) (.ok b)
  | error (e : ε) : Outcomes Q (.error e) (.error e)

def Alike (R : σ → σ → Prop) (Q : α → β → Prop) (m : Tx ε σ α) (m' : Tx ε σ β) : Prop :=
  ∀ s s', R s s' → Outcomes Q (m s).1 (m' s').1 ∧ R (m s).2 (m' s').2

section alike

variable {R : σ → σ → Prop} {Q : α → β → Prop}

theorem Alike.pure {a : α} {b : β} (h : Q a b) :
    Alike R Q (Pure.pure a : Tx ε σ α) (Pure.pure b : Tx ε σ β) :=
  fun _ _ hs => ⟨.ok h, hs⟩

theorem Alike.gets {f : σ → α} {g : σ → β} (h : ∀ s s', R s s' → Q (f s) (g s')) :
    Alike R Q (Tx.gets f : Tx ε σ α) (Tx.gets g) :=
  fun s s' hs => ⟨.ok (h s s' hs), hs⟩

theorem Alike.raise (e : ε) : Alike R Q (Tx.raise e : Tx ε σ α) (Tx.raise e : Tx ε σ β) :=
  fun _ _ hs => ⟨.error e, hs⟩

theorem Alike.raiseIf {c c' : Prop} [Decidable c] [Decidable c'] (h : c ↔ c') (e : ε) :
    Alike R Eq (Tx.raiseIf c e : Tx ε σ PUnit) (Tx.raiseIf c' e) := by
  by_cases hc : c
  · rw [raiseIf_pos hc, raiseIf_pos (h.mp hc)]
    exact Alike.raise e
  · rw [raiseIf_neg hc, raiseIf_neg fun hc' => hc (h.mpr hc')]
    exact Alike.pure rfl

theorem Alike.orRaise {o : Option α} {o' : Option β} (h : Option.Rel Q o o') (e : ε) :
    Alike R Q (Tx.orRaise o e : Tx ε σ α) (Tx.orRaise o' e) := by
  cases h with
  | some h => exact Alike.pure h
  | none => exact Alike.raise e

/-- The same requirement on both sides. -/
theorem Alike.require (o : Option α) (e : ε) :
    Alike R Eq (Tx.orRaise o e : Tx ε σ α) (Tx.orRaise o e) := by
  cases o with
  | none => exact Alike.raise e
  | some a => exact Alike.pure rfl

theorem Alike.ofExcept (r : Except ε α) : Alike R Eq (Tx.ofExcept r : Tx ε σ α) (Tx.ofExcept r) := by
  cases r with
  | error e => exact fun _ _ hs => ⟨.error e, hs⟩
  | ok a => exact fun _ _ hs => ⟨.ok rfl, hs⟩

theorem Alike.bind {m : Tx ε σ α} {m' : Tx ε σ β} {f : α → Tx ε σ γ} {f' : β → Tx ε σ δ}
    {Q' : γ → δ → Prop} (hm : Alike R Q m m') (hf : ∀ a b, Q a b → Alike R Q' (f a) (f' b)) :
    Alike R Q' (m >>= f) (m' >>= f') := by
  intro s s' hs
  obtain ⟨hout, hR⟩ := hm s s' hs
  rcases h : m s with ⟨e | a, t⟩ <;> rcases h' : m' s' with ⟨e' | b, t'⟩ <;> rw [h, h'] at hout hR
  · cases hout
    rw [bind_of_error h, bind_of_error h']
    exact ⟨.error e, hR⟩
  · cases hout
  · cases hout
  · cases hout with
    | ok hab =>
        rw [bind_of_ok h, bind_of_ok h']
        exact hf a b hab t t' hR

/-- The rest goes on from the same value on both sides. -/
theorem Alike.bind_eq {m m' : Tx ε σ α} {f : α → Tx ε σ γ} {f' : α → Tx ε σ δ} {Q' : γ → δ → Prop}
    (hm : Alike R Eq m m') (hf : ∀ a, Alike R Q' (f a) (f' a)) : Alike R Q' (m >>= f) (m' >>= f') := by
  refine hm.bind fun a b hab => ?_
  rw [← hab]
  exact hf a

theorem Alike.handle {m : Tx ε σ α} {m' : Tx ε σ β} {h : ε → Tx ε σ α} {h' : ε → Tx ε σ β}
    (hm : Alike R Q m m') (hh : ∀ e, Alike R Q (h e) (h' e)) :
    Alike R Q (Tx.handle m h) (Tx.handle m' h') := by
  intro s s' hs
  obtain ⟨hout, hR⟩ := hm s s' hs
  rcases hr : m s with ⟨e | a, t⟩ <;> rcases hr' : m' s' with ⟨e' | b, t'⟩ <;> rw [hr, hr'] at hout hR
  · cases hout
    rw [handle_of_error hr, handle_of_error hr']
    exact hh e t t' hR
  · cases hout
  · cases hout
  · rw [handle_of_ok hr, handle_of_ok hr']
    exact ⟨hout, hR⟩

/-- Two transactions that go alike end alike, if the stores they may be rolled back to are
related. -/
theorem Alike.session {durable : ε → Prop} [DecidablePred durable] {rollback : σ → σ → σ}
    {m : Tx ε σ α} {m' : Tx ε σ β} (hm : Alike R Q m m')
    (hroll : ∀ s s' t t', R s s' → R t t' → R (rollback s t) (rollback s' t')) :
    Alike R Q (Tx.session durable rollback m) (Tx.session durable rollback m') := by
  intro s s' hs
  obtain ⟨hout, hR⟩ := hm s s' hs
  rcases h : m s with ⟨e | a, t⟩ <;> rcases h' : m' s' with ⟨e' | b, t'⟩ <;> rw [h, h'] at hout hR
  · cases hout
    simp only [Tx.session, h, h']
    by_cases hd : durable e
    · rw [if_pos hd, if_pos hd]
      exact ⟨.error e, hR⟩
    · rw [if_neg hd, if_neg hd]
      exact ⟨.error e, hroll s s' t t' hs hR⟩
  · cases hout
  · cases hout
  · simp only [Tx.session, h, h']
    exact ⟨hout, hR⟩

end alike

end Tx
