import KajovoDagmar.Library.Asyncio

/-! # Rely and guarantee

What one coroutine of an event loop may assume of the others while it waits, and what it owes
them whenever it hands over.  `Coro.Meets` follows a coroutine through all its waits; its parts are
put together by what they maintain (`Coro.Maintains`).  When every coroutine meets its terms, they
hold in every run (`Sound.of_along`). -/

namespace Asyncio

variable {S : Signature} {α β : Type}

/-- The terms between the main coroutine (`none`) and the tasks. -/
structure Terms (S : Signature) where
  /-- What holds whenever a coroutine hands over. -/
  inv : Memory S → Prop
  /-- How a coroutine may change the memory from one wait to the next. -/
  keeps : Option ℕ → Memory S → Memory S → Prop
  /-- How the others may change it while the coroutine waits. -/
  rely : Option ℕ → Memory S → Memory S → Prop
  /-- What a call may answer. -/
  replies : (o : S.Op) → Except S.Failure (S.Answer o) → Prop

/-- `cancel()` has been called on the task that runs the coroutine. -/
def Memory.cancelledFor (m : Memory S) (i : Option ℕ) : Bool := i.any m.cancelledAt

/-- What may be asked of a coroutine's end: its outcome, the memory at its last wait and at the
end, and whether it has found the exception of a cancellation. -/
abbrev Post (S : Signature) (α : Type) := Except S.Exn α → Memory S → Memory S → Bool → Prop

namespace Coro

/-- The coroutine meets its terms up to its end and ends as asked.  It began its present stretch
in `m₀`; `b` tells whether the exception of a cancellation has been thrown. -/
def Meets (T : Terms S) (i : Option ℕ) : Coro S α → Post S α → Memory S → Memory S → Bool → Prop
  | ret r, Q, m₀, m, b => Q r m₀ m b
  | get k, Q, m₀, m, b => (k m).Meets T i Q m₀ m b
  | put m' c, Q, m₀, _, b => c.Meets T i Q m₀ m' b
  | wait p k, Q, m₀, m, b => T.inv m ∧ T.keeps i m₀ m ∧
    (∀ m', T.rely i m m' → T.inv m' → (b = true ∨ m'.cancelledFor i = false) → p m' = true →
      (k (.ok ())).Meets T i Q m' m' b) ∧
    (b = false → ∀ m', T.rely i m m' → T.inv m' → m'.cancelledFor i = true →
      (k (.error S.cancelled)).Meets T i Q m' m' true)
  | call o k, Q, m₀, m, b => T.inv m ∧ T.keeps i m₀ m ∧
    (∀ m', T.rely i m m' → T.inv m' → (b = true ∨ m'.cancelledFor i = false) → ∀ x, T.replies o x →
      (k (x.mapError S.fail)).Meets T i Q m' m' b) ∧
    (b = false → ∀ m', T.rely i m m' → T.inv m' → m'.cancelledFor i = true →
      (k (.error S.cancelled)).Meets T i Q m' m' true)

section meets

variable {T : Terms S} {i : Option ℕ} {Q Q' : Post S α} {m₀ m : Memory S} {b : Bool}

theorem meets_andThen {c : Coro S α} {f : Except S.Exn α → Coro S β} {Q : Post S β} :
    (c.andThen f).Meets T i Q m₀ m b ↔ c.Meets T i (fun r => (f r).Meets T i Q) m₀ m b := by
  induction c generalizing m₀ m b with
  | ret r => exact Iff.rfl
  | get k ih => exact ih m
  | put m' c ih => exact ih
  | wait p k ih =>
      simp only [andThen, Meets, ih]
  | call o k ih =>
      simp only [andThen, Meets, ih]

theorem Meets.mono {c : Coro S α} (h : c.Meets T i Q m₀ m b)
    (hQ : ∀ r m₀ m b, Q r m₀ m b → Q' r m₀ m b) : c.Meets T i Q' m₀ m b := by
  induction c generalizing m₀ m b with
  | ret r => exact hQ _ _ _ _ h
  | get k ih => exact ih m h
  | put m' c ih => exact ih h
  | wait p k ih =>
      obtain ⟨hinv, hkeeps, hgo, hstop⟩ := h
      exact ⟨hinv, hkeeps, fun m' hr hi hu hp => ih _ (hgo m' hr hi hu hp),
        fun hb m' hr hi hc => ih _ (hstop hb m' hr hi hc)⟩
  | call o k ih =>
      obtain ⟨hinv, hkeeps, hgo, hstop⟩ := h
      exact ⟨hinv, hkeeps, fun m' hr hi hu x hx => ih _ (hgo m' hr hi hu x hx),
        fun hb m' hr hi hc => ih _ (hstop hb m' hr hi hc)⟩

/-- A coroutine followed by another. -/
theorem Meets.bind {c : Coro S α} {f : α → Coro S β} {Q : Post S β} (h : c.Meets T i Q' m₀ m b)
    (hok : ∀ a m₀ m b, Q' (.ok a) m₀ m b → (f a).Meets T i Q m₀ m b)
    (herror : ∀ e m₀ m b, Q' (.error e) m₀ m b → Q (.error e) m₀ m b) : (c >>= f).Meets T i Q m₀ m b := by
  refine meets_andThen.mpr (h.mono fun r m₀ m b hr => ?_)
  cases r with
  | ok a => exact hok a m₀ m b hr
  | error e => exact herror e m₀ m b hr

end meets

/-! ### Parts of a coroutine -/

/-- How a part may end that has begun with `b`: with a result, with an exception in `X`, or with
that of a cancellation, thrown where it waits. -/
def Ends (X : S.Exn → Prop) (b : Bool) (r : Except S.Exn α) (b' : Bool) : Prop :=
  (b' = b ∧ ∀ e, r = .error e → X e) ∨ (b = false ∧ b' = true ∧ r = .error S.cancelled)

/-- The part meets its terms and maintains `R`, which is told the memory at the last wait, the
present one and whether the exception of a cancellation has been thrown. -/
structure Maintains (T : Terms S) (i : Option ℕ) (R : Memory S → Memory S → Bool → Prop) (X : S.Exn → Prop)
    (c : Coro S α) : Prop where
  meets : ∀ m₀ m b, R m₀ m b → c.Meets T i (fun r m₀ m b' => Ends X b r b' ∧ R m₀ m b') m₀ m b

/-- What is maintained can be handed over and is there again after a wait. -/
structure Resting (T : Terms S) (i : Option ℕ) (R : Memory S → Memory S → Bool → Prop) : Prop where
  handsOver : ∀ m₀ m b, R m₀ m b → T.inv m ∧ T.keeps i m₀ m
  resumed : ∀ m₀ m m' b, R m₀ m b → T.rely i m m' → T.inv m' → (b = true ∨ m'.cancelledFor i = false) →
    R m' m' b
  interrupted : ∀ m₀ m m', R m₀ m false → T.rely i m m' → T.inv m' → m'.cancelledFor i = true →
    R m' m' true

section maintains

variable {T : Terms S} {i : Option ℕ} {R : Memory S → Memory S → Bool → Prop} {X Y : S.Exn → Prop}

theorem ends_ok {b : Bool} (a : α) : Ends X b (.ok a) b := .inl ⟨rfl, fun _ he => absurd he (by simp)⟩

theorem Ends.ok {b b' : Bool} {a : α} (h : Ends X b (.ok a) b') : b' = b := by
  rcases h with h | h
  · exact h.1
  · exact absurd h.2.2 (by simp)

theorem Ends.mono {b b' : Bool} {r : Except S.Exn α} (hXY : ∀ e, X e → Y e) (h : Ends X b r b') : Ends Y b r b' :=
  h.imp (fun h => ⟨h.1, fun e he => hXY e (h.2 e he)⟩) id

/-- An outcome that is handed on. -/
theorem Ends.error {b b' : Bool} {e : S.Exn} (h : Ends (α := α) X b (.error e) b') :
    Ends (α := β) X b (.error e) b' := by
  rcases h with ⟨hb, he⟩ | ⟨hb, hb', he⟩
  · exact .inl ⟨hb, fun e' he' => he e' (congrArg _ (Except.error.inj he'))⟩
  · exact .inr ⟨hb, hb', congrArg _ (Except.error.inj he)⟩

theorem Maintains.mono {c : Coro S α} (h : c.Maintains T i R X) (hXY : ∀ e, X e → Y e) :
    c.Maintains T i R Y :=
  ⟨fun m₀ m b hR => (h.meets m₀ m b hR).mono fun _ _ _ _ hr => ⟨hr.1.mono hXY, hr.2⟩⟩

theorem maintains_pure (a : α) : (pure a : Coro S α).Maintains T i R X :=
  ⟨fun _ _ _ hR => ⟨ends_ok a, hR⟩⟩

theorem maintains_throw {e : S.Exn} (he : X e) : (throw e : Coro S α).Maintains T i R X :=
  ⟨fun _ _ _ hR => ⟨.inl ⟨rfl, fun _ he' => Except.error.inj he' ▸ he⟩, hR⟩⟩

theorem Maintains.bind {c : Coro S α} {f : α → Coro S β} (hc : c.Maintains T i R X)
    (hf : ∀ a, (f a).Maintains T i R X) : (c >>= f).Maintains T i R X := by
  refine ⟨fun m₀ m b hR => ?_⟩
  refine meets_andThen.mpr ((hc.meets m₀ m b hR).mono fun r m₀ m b' hr => ?_)
  cases r with
  | ok a =>
      obtain rfl := hr.1.ok
      exact (hf a).meets m₀ m b' hr.2
  | error e => exact ⟨hr.1.error, hr.2⟩

/-- A part that is left out unless a condition holds. -/
theorem Maintains.when {p : Prop} [Decidable p] {c : Coro S α} {rest : Coro S β} (hc : c.Maintains T i R X)
    (hrest : rest.Maintains T i R X) : (if p then c >>= fun _ => rest else rest).Maintains T i R X := by
  split
  · exact hc.bind fun _ => hrest
  · exact hrest

/-- `try … catch`: the exception of a cancellation goes on. -/
theorem Maintains.catch {c : Coro S α} {f : S.Exn → Coro S α} (hc : c.Maintains T i R X)
    (hf : ∀ e, X e → (f e).Maintains T i R Y)
    (hcancelled : ∀ m₀ m, R m₀ m true → (f S.cancelled).Meets T i
      (fun r m₀ m b => b = true ∧ r = .error S.cancelled ∧ R m₀ m b) m₀ m true) :
    (tryCatch c f : Coro S α).Maintains T i R Y := by
  refine ⟨fun m₀ m b hR => ?_⟩
  refine meets_andThen.mpr ((hc.meets m₀ m b hR).mono fun r m₀ m b' hr => ?_)
  cases r with
  | ok a =>
      obtain rfl := hr.1.ok
      exact ⟨ends_ok a, hr.2⟩
  | error e =>
      rcases hr.1 with ⟨rfl, he⟩ | ⟨rfl, rfl, he⟩
      · exact (hf e (he e rfl)).meets m₀ m b' hr.2
      · obtain rfl := Except.error.inj he
        refine (hcancelled m₀ m hr.2).mono fun r m₀ m b hr' => ?_
        exact ⟨.inr ⟨rfl, hr'.1, hr'.2.1⟩, hr'.2.2⟩

/-- `try … finally`, with an end that raises nothing of its own. -/
theorem Maintains.finally {c : Coro S α} {f : Coro S β} (hc : c.Maintains T i R X)
    (hf : f.Maintains T i R fun _ => False) :
    (tryFinally c f : Coro S α).Maintains T i R X := by
  have hend : ∀ (r : Except S.Exn α) (b₀ : Bool) (m₀ m : Memory S) (b : Bool), Ends X b₀ r b → R m₀ m b →
      f.Meets T i (fun r' m₀ m b => (∀ u, r' = .ok u → Ends X b₀ r b) ∧
        (∀ e, r' = .error e → Ends (α := α) X b₀ (.error e) b) ∧ R m₀ m b) m₀ m b := by
    intro r b₀ m₀ m b hr hR
    refine (hf.meets m₀ m b hR).mono fun r' m₀ m b' hr' => ⟨?_, ?_, hr'.2⟩
    · rintro u rfl
      obtain rfl := hr'.1.ok
      exact hr
    · rintro e rfl
      rcases hr'.1 with ⟨-, hno⟩ | ⟨rfl, rfl, he⟩
      · exact (hno e rfl).elim
      · refine .inr ⟨?_, rfl, congrArg _ (Except.error.inj he)⟩
        rcases hr with hr | hr
        · exact hr.1.symm
        · exact absurd hr.2.1 (by simp)
  refine ⟨fun m₀ m b hR => ?_⟩
  refine meets_andThen.mpr (meets_andThen.mpr ((hc.meets m₀ m b hR).mono fun r m₀ m b' hr => ?_))
  cases r with
  | ok a =>
      refine meets_andThen.mpr ((hend (.ok a) b m₀ m b' hr.1 hr.2).mono fun r' m₀ m b'' h => ?_)
      cases r' with
      | ok u => exact ⟨h.1 u rfl, h.2.2⟩
      | error e => exact ⟨h.2.1 e rfl, h.2.2⟩
  | error e =>
      refine meets_andThen.mpr ((hend (.error e) b m₀ m b' hr.1 hr.2).mono fun r' m₀ m b'' h => ?_)
      cases r' with
      | ok u => exact ⟨h.1 u rfl, h.2.2⟩
      | error e' => exact ⟨h.2.1 e' rfl, h.2.2⟩

/-- `try … finally`, with a change of the shared objects at the end. -/
theorem Maintains.finally_modify {c : Coro S α} {f : S.Objects → S.Objects} {Q : Post S α} {m₀ m : Memory S}
    {b : Bool} (hc : c.Maintains T i R X) (hR : R m₀ m b)
    (hend : ∀ r m₀ m b', Ends X b r b' → R m₀ m b' → Q r m₀ { m with objects := f m.objects } b') :
    (tryFinally c (modify f) : Coro S α).Meets T i Q m₀ m b := by
  refine meets_andThen.mpr (meets_andThen.mpr ((hc.meets m₀ m b hR).mono fun r m₀ m b' hr => ?_))
  cases r with
  | ok a => exact hend (.ok a) m₀ m b' hr.1 hr.2
  | error e => exact hend (.error e) m₀ m b' hr.1 hr.2

theorem maintains_objects : (objects : Coro S S.Objects).Maintains T i R X :=
  ⟨fun _ _ _ hR => ⟨ends_ok _, hR⟩⟩

theorem maintains_isDone (n : ℕ) : (isDone n : Coro S Bool).Maintains T i R X :=
  ⟨fun _ _ _ hR => ⟨ends_ok _, hR⟩⟩

theorem maintains_modify {f : S.Objects → S.Objects}
    (hf : ∀ m₀ m b, R m₀ m b → R m₀ { m with objects := f m.objects } b) :
    (modify f).Maintains T i R X :=
  ⟨fun m₀ m b hR => ⟨ends_ok (), hf m₀ m b hR⟩⟩

theorem maintains_waitFor (hrest : Resting T i R) (p : Memory S → Bool) :
    (waitFor p).Maintains T i R X := by
  refine ⟨fun m₀ m b hR => ?_⟩
  obtain ⟨hi, hk⟩ := hrest.handsOver _ _ _ hR
  refine ⟨hi, hk, fun m' hr hi' hu _ => ?_, ?_⟩
  · exact ⟨ends_ok (), hrest.resumed _ _ _ _ hR hr hi' hu⟩
  · rintro rfl m' hr hi' hc
    exact ⟨.inr ⟨rfl, rfl, rfl⟩, hrest.interrupted _ _ _ hR hr hi' hc⟩

theorem maintains_perform (hrest : Resting T i R) {o : S.Op}
    (hreplies : ∀ e, T.replies o (.error e) → X (S.fail e)) : (perform o).Maintains T i R X := by
  refine ⟨fun m₀ m b hR => ?_⟩
  obtain ⟨hi, hk⟩ := hrest.handsOver _ _ _ hR
  refine ⟨hi, hk, fun m' hr hi' hu x hx => ?_, ?_⟩
  · refine ⟨.inl ⟨rfl, fun e he => ?_⟩, hrest.resumed _ _ _ _ hR hr hi' hu⟩
    cases x with
    | ok a => exact absurd he (by simp [Except.mapError])
    | error failure =>
        obtain rfl := Except.error.inj he
        exact hreplies failure hx
  · rintro rfl m' hr hi' hc
    exact ⟨.inr ⟨rfl, rfl, rfl⟩, hrest.interrupted _ _ _ hR hr hi' hc⟩

/-- Nobody cancels the main coroutine. -/
theorem Meets.uninterrupted {c : Coro S α} {Q : Post S α} {m₀ m : Memory S} (h : c.Meets T none Q m₀ m false) :
    c.Meets T none (fun r m₀ m b => b = false ∧ Q r m₀ m b) m₀ m false := by
  induction c generalizing m₀ m with
  | ret r => exact ⟨rfl, h⟩
  | get k ih => exact ih m h
  | put m' c ih => exact ih h
  | wait p k ih =>
      refine ⟨h.1, h.2.1, fun m' hr hi hu hp => ih _ (h.2.2.1 m' hr hi hu hp), fun _ m' _ _ hc => ?_⟩
      exact absurd hc (by simp [Memory.cancelledFor])
  | call o k ih =>
      refine ⟨h.1, h.2.1, fun m' hr hi hu x hx => ih _ (h.2.2.1 m' hr hi hu x hx), fun _ m' _ _ hc => ?_⟩
      exact absurd hc (by simp [Memory.cancelledFor])

/-- `try … catch` in the main coroutine. -/
theorem Maintains.handle {c : Coro S α} {f : S.Exn → Coro S α} (hc : c.Maintains T none R X)
    (hf : ∀ e, X e → (f e).Maintains T none R Y) : (tryCatch c f : Coro S α).Maintains T none R Y := by
  refine ⟨fun m₀ m b hR => ?_⟩
  have hundisturbed : c.Meets T none (fun r m₀ m b' => (b' = b ∧ ∀ e, r = .error e → X e) ∧ R m₀ m b') m₀ m b := by
    cases b with
    | true =>
        refine (hc.meets m₀ m true hR).mono fun r m₀ m b' hr => ⟨?_, hr.2⟩
        exact hr.1.resolve_right fun h => absurd h.1 (by simp)
    | false =>
        refine (hc.meets m₀ m false hR).uninterrupted.mono fun r m₀ m b' hr => ⟨?_, hr.2.2⟩
        exact hr.2.1.resolve_right fun h => absurd (hr.1.symm.trans h.2.1) (by simp)
  refine meets_andThen.mpr (hundisturbed.mono fun r m₀ m b' hr => ?_)
  obtain ⟨⟨rfl, hX⟩, hR'⟩ := hr
  cases r with
  | ok a => exact ⟨ends_ok a, hR'⟩
  | error e => exact (hf e (hX e rfl)).meets m₀ m b' hR'

theorem maintains_join (hrest : Resting T i R) (n : ℕ) :
    (join n : Coro S Unit).Maintains T i R fun _ => True := by
  refine ⟨fun m₀ m b hR => ?_⟩
  obtain ⟨hi, hk⟩ := hrest.handsOver _ _ _ hR
  refine ⟨hi, hk, fun m' hr hi' hu _ => ?_, ?_⟩
  · exact ⟨.inl ⟨rfl, fun _ _ => trivial⟩, hrest.resumed _ _ _ _ hR hr hi' hu⟩
  · rintro rfl m' hr hi' hc
    exact ⟨.inr ⟨rfl, rfl, rfl⟩, hrest.interrupted _ _ _ hR hr hi' hc⟩

end maintains

/-! ### A coroutine that waits -/

/-- What is left of the coroutine after its wait meets its terms, whatever the others have done. -/
def Waits (T : Terms S) (i : Option ℕ) (Q : Post S α) (m : Memory S) (b : Bool) : Coro S α → Prop
  | wait p k =>
    (∀ m', T.rely i m m' → T.inv m' → (b = true ∨ m'.cancelledFor i = false) → p m' = true →
      (k (.ok ())).Meets T i Q m' m' b) ∧
    (b = false → ∀ m', T.rely i m m' → T.inv m' → m'.cancelledFor i = true →
      (k (.error S.cancelled)).Meets T i Q m' m' true)
  | call o k =>
    (∀ m', T.rely i m m' → T.inv m' → (b = true ∨ m'.cancelledFor i = false) → ∀ x, T.replies o x →
      (k (x.mapError S.fail)).Meets T i Q m' m' b) ∧
    (b = false → ∀ m', T.rely i m m' → T.inv m' → m'.cancelledFor i = true →
      (k (.error S.cancelled)).Meets T i Q m' m' true)
  | _ => False

variable {T : Terms S} {i : Option ℕ} {Q : Post S α} {m₀ m m' : Memory S} {b : Bool}

theorem Waits.rely {c : Coro S α} (htrans : ∀ m m' m'', T.rely i m m' → T.rely i m' m'' → T.rely i m m'')
    (h : c.Waits T i Q m b) (hr : T.rely i m m') : c.Waits T i Q m' b := by
  cases c with
  | wait p k => exact ⟨fun u hu => h.1 u (htrans _ _ _ hr hu), fun hb u hu => h.2 hb u (htrans _ _ _ hr hu)⟩
  | call o k => exact ⟨fun u hu => h.1 u (htrans _ _ _ hr hu), fun hb u hu => h.2 hb u (htrans _ _ _ hr hu)⟩
  | _ => exact h

/-- A coroutine that has run up to its next wait or its end. -/
theorem Meets.run {c : Coro S α} (h : c.Meets T i Q m₀ m b) :
    (∃ r m', c.run m = (ret r, m') ∧ Q r m₀ m' b) ∨
    ∃ c' m', c.run m = (c', m') ∧ c'.Waits T i Q m' b ∧ T.inv m' ∧ T.keeps i m₀ m' := by
  induction c generalizing m with
  | ret r => exact .inl ⟨r, m, rfl, h⟩
  | get k ih => exact ih m h
  | put m' c ih => exact ih h
  | wait p k => exact .inr ⟨_, m, rfl, ⟨h.2.2.1, h.2.2.2⟩, h.1, h.2.1⟩
  | call o k => exact .inr ⟨_, m, rfl, ⟨h.2.2.1, h.2.2.2⟩, h.1, h.2.1⟩

end Coro

/-! ### A whole event loop -/

variable {P : Program S}

/-- The end of the main coroutine: its terms hold, and so does what holds between inputs. -/
def mainPost (T : Terms S) (idle : Memory S → Prop) : Post S Unit := fun _ m₀ m _ =>
  T.inv m ∧ T.keeps none m₀ m ∧ idle m

/-- The end of a task: its terms hold with its outcome. -/
def taskPost (T : Terms S) (n : ℕ) : Post S Unit := fun r m₀ m _ =>
  T.inv (m.finish n r) ∧ T.keeps (some n) m₀ (m.finish n r)

/-- Every coroutine of the program meets its terms; `idle` holds while the loop is ready for an
input. -/
structure Contract (P : Program S) (T : Terms S) (idle : Memory S → Prop)
    (accepts : P.Input → Memory S → Prop) (allowed : P.Move → Memory S → Prop) : Prop where
  refl : ∀ i m, T.rely i m m
  trans : ∀ i m m' m'', T.rely i m m' → T.rely i m' m'' → T.rely i m m''
  others : ∀ i j m m', i ≠ j → T.inv m → T.inv m' → T.keeps j m m' → T.rely i m m'
  moves : ∀ e m o, T.inv m → allowed e m → P.move e m.objects = some o →
    T.inv { m with objects := o } ∧ ∀ i, T.rely i m { m with objects := o }
  idle_rely : ∀ m m', idle m → T.rely none m m' → T.inv m' → idle m'
  main : ∀ x m, T.inv m → idle m → accepts x m → (P.main x).Meets T none (mainPost T idle) m m false
  body : ∀ n t m, T.inv m → m.tasks[n]? = some t → t.started = false → t.outcome = none →
    t.cancelled = false → (P.body n t.job).Meets T (some n) (taskPost T n) m (m.begin n) false
  dropped : ∀ n t m, T.inv m → m.tasks[n]? = some t → t.started = false → t.outcome = none →
    t.cancelled = true → T.inv ((m.begin n).finish n (.error S.cancelled)) ∧
      T.keeps (some n) m ((m.begin n).finish n (.error S.cancelled))

/-- What an event may bring. -/
def Admits (P : Program S) (T : Terms S) (accepts : P.Input → Memory S → Prop)
    (allowed : P.Move → Memory S → Prop) (s : State S) : Event P → Prop
  | .input x => accepts x s.memory
  | .start _ => True
  | .resume _ reply => ∀ o, T.replies o (reply o)
  | .move e => allowed e s.memory

/-- The terms hold, and every coroutine meets them from where it waits. -/
structure Sound (T : Terms S) (idle : Memory S → Prop) (s : State S) : Prop where
  inv : T.inv s.memory
  ready : s.main = none → idle s.memory
  main : ∀ c, s.main = some c → c.Waits T none (mainPost T idle) s.memory false
  tasks : ∀ n u, s.suspended n = some u → u.rest.Waits T (some n) (taskPost T n) s.memory u.interrupted

section sound

variable {T : Terms S} {idle : Memory S → Prop} {accepts : P.Input → Memory S → Prop}
  {allowed : P.Move → Memory S → Prop}

/-- After a stretch of the main coroutine that is reckoned from another memory. -/
theorem Sound.settleMain_from (hc : Contract P T idle accepts allowed) {s : State S} (hs : Sound T idle s)
    {c : Coro S Unit} {m₀ : Memory S} (h : c.Meets T none (mainPost T idle) m₀ s.memory false)
    (hrely : ∀ m', T.inv m' → T.keeps none m₀ m' → ∀ n, T.rely (some n) s.memory m') :
    Sound T idle (s.settleMain (c.run s.memory)) ∧ T.keeps none m₀ (s.settleMain (c.run s.memory)).memory := by
  have hothers : ∀ m', T.inv m' → T.keeps none m₀ m' → ∀ n u, s.suspended n = some u →
      u.rest.Waits T (some n) (taskPost T n) m' u.interrupted :=
    fun m' hi hk n u hu => (hs.tasks n u hu).rely (hc.trans _) (hrely m' hi hk n)
  rcases h.run with ⟨r, m', hrun, hi, hk, hidle⟩ | ⟨c', m', hrun, hwaits, hi, hk⟩
  · rw [hrun]
    exact ⟨⟨hi, fun _ => hidle, fun c hmain => absurd hmain (by simp [State.settleMain]),
      hothers m' hi hk⟩, hk⟩
  · have hsettle : s.settleMain (c.run s.memory) = { s with memory := m', main := some c' } := by
      rw [hrun]
      cases c' with
      | wait p k => rfl
      | call o k => rfl
      | _ => exact absurd hwaits id
    rw [hsettle]
    refine ⟨⟨hi, fun hmain => absurd hmain (by simp), fun c hmain => ?_, hothers m' hi hk⟩, hk⟩
    obtain rfl := Option.some.inj hmain
    exact hwaits

/-- After a stretch of the main coroutine. -/
theorem Sound.settleMain (hc : Contract P T idle accepts allowed) {s : State S} (hs : Sound T idle s)
    {c : Coro S Unit}
    (h : c.Meets T none (mainPost T idle) s.memory s.memory false) :
    Sound T idle (s.settleMain (c.run s.memory)) ∧
      T.keeps none s.memory (s.settleMain (c.run s.memory)).memory :=
  hs.settleMain_from hc h fun _ hi hk n => hc.others (some n) none _ _ (Option.some_ne_none n) hs.inv hi hk

/-- After a stretch of a task. -/
theorem Sound.settle (hc : Contract P T idle accepts allowed) {s : State S} (hs : Sound T idle s)
    {n : ℕ} {b : Bool} {c : Coro S Unit} {m : Memory S}
    (h : c.Meets T (some n) (taskPost T n) s.memory m b) :
    Sound T idle (s.settle n b (c.run m)) ∧ T.keeps (some n) s.memory (s.settle n b (c.run m)).memory := by
  have hrely : ∀ m', T.inv m' → T.keeps (some n) s.memory m' → ∀ i, i ≠ some n → T.rely i s.memory m' :=
    fun m' hi hk i hne => hc.others i (some n) _ _ hne hs.inv hi hk
  have hmain : ∀ m', T.inv m' → T.keeps (some n) s.memory m' → (s.main = none → idle m') ∧
      ∀ c, s.main = some c → c.Waits T none (mainPost T idle) m' false := by
    intro m' hi hk
    have hr := hrely m' hi hk none (Option.some_ne_none n).symm
    exact ⟨fun hmain => hc.idle_rely _ _ (hs.ready hmain) hr hi,
      fun c hmain => (hs.main c hmain).rely (hc.trans _) hr⟩
  have hothers : ∀ m', T.inv m' → T.keeps (some n) s.memory m' → ∀ k u, k ≠ n → s.suspended k = some u →
      u.rest.Waits T (some k) (taskPost T k) m' u.interrupted := by
    intro m' hi hk k u hne hu
    exact (hs.tasks k u hu).rely (hc.trans _) (hrely m' hi hk (some k) fun h => hne (Option.some.inj h))
  rcases h.run with ⟨r, m', hrun, hi, hk⟩ | ⟨c', m', hrun, hwaits, hi, hk⟩
  · rw [hrun]
    refine ⟨⟨hi, (hmain _ hi hk).1, (hmain _ hi hk).2, fun k u hu => ?_⟩, hk⟩
    by_cases hkn : k = n
    · subst hkn
      simp [State.settle] at hu
    · refine hothers _ hi hk k u hkn ?_
      simpa [State.settle, Function.update_of_ne hkn] using hu
  · have hsettle : s.settle n b (c.run m) = { s with
        memory := m', suspended := Function.update s.suspended n (some ⟨c', b⟩) } := by
      rw [hrun]
      cases c' with
      | wait p k => rfl
      | call o k => rfl
      | _ => exact absurd hwaits id
    rw [hsettle]
    refine ⟨⟨hi, (hmain _ hi hk).1, (hmain _ hi hk).2, fun k u hu => ?_⟩, hk⟩
    by_cases hkn : k = n
    · subst hkn
      simp only [Function.update_self, Option.some.injEq] at hu
      subst hu
      exact hwaits
    · refine hothers _ hi hk k u hkn ?_
      simpa [Function.update_of_ne hkn] using hu

/-- What is resumed meets its terms. -/
theorem Coro.Waits.resumed {i : Option ℕ} {Q : Post S α} {c c' : Coro S α} {m : Memory S} {b : Bool}
    {reply : (o : S.Op) → Except S.Failure (S.Answer o)} (h : c.Waits T i Q m b) (hrefl : T.rely i m m)
    (hi : T.inv m) (hu : b = true ∨ m.cancelledFor i = false) (hreply : ∀ o, T.replies o (reply o))
    (hc : c.resumed reply m = some c') : c'.Meets T i Q m m b := by
  cases c with
  | wait p k =>
      obtain ⟨hp, rfl⟩ : p m = true ∧ k (.ok ()) = c' := by
        simpa [Coro.resumed] using hc
      exact h.1 m hrefl hi hu hp
  | call o k =>
      obtain rfl := Option.some.inj hc
      exact h.1 m hrefl hi hu _ (hreply o)
  | _ => exact absurd h id

theorem Coro.Waits.thrown {i : Option ℕ} {Q : Post S α} {c c' : Coro S α} {m : Memory S}
    (h : c.Waits T i Q m false) (hrefl : T.rely i m m) (hi : T.inv m) (hu : m.cancelledFor i = true)
    (hc : c.thrown S.cancelled = some c') : c'.Meets T i Q m m true := by
  cases c with
  | wait p k =>
      obtain rfl := Option.some.inj hc
      exact h.2 rfl m hrefl hi hu
  | call o k =>
      obtain rfl := Option.some.inj hc
      exact h.2 rfl m hrefl hi hu
  | _ => exact absurd h id

/-- **Step lemma**: every step keeps all coroutines to their terms, and its changes are those that
one of them may make or those of a move from outside. -/
theorem Sound.of_step (hc : Contract P T idle accepts allowed) {s s' : State S} (hs : Sound T idle s)
    {e : Event P} (he : Admits P T accepts allowed s e) (h : step P s e = some s') :
    Sound T idle s' ∧ ((∃ i, T.keeps i s.memory s'.memory) ∨ ∃ x, e = .move x) := by
  cases e with
  | input x =>
      obtain ⟨hmain, rfl⟩ : s.main = none ∧ s.settleMain ((P.main x).run s.memory) = s' := by
        simpa [step] using h
      have hsettle := hs.settleMain hc (hc.main x s.memory hs.inv (hs.ready hmain) he)
      exact ⟨hsettle.1, .inl ⟨none, hsettle.2⟩⟩
  | start n =>
      obtain ⟨t, ht, hstart⟩ := Option.bind_eq_some_iff.mp h
      split at hstart
      · simp at hstart
      · next hfresh =>
        simp only [Option.isSome_iff_ne_none, ne_eq, not_or, Bool.not_eq_true, not_not] at hfresh
        split at hstart
        · next hcancelled =>
          obtain rfl := Option.some.inj hstart
          have hdropped := hc.dropped n t s.memory hs.inv ht hfresh.1 hfresh.2 hcancelled
          have hsettle := hs.settle hc (b := true) (c := .ret (.error S.cancelled)) hdropped
          exact ⟨hsettle.1, .inl ⟨some n, hsettle.2⟩⟩
        · next hgo =>
          obtain rfl := Option.some.inj hstart
          have hsettle := hs.settle hc (hc.body n t s.memory hs.inv ht hfresh.1 hfresh.2
            (Bool.eq_false_iff.mpr hgo))
          exact ⟨hsettle.1, .inl ⟨some n, hsettle.2⟩⟩
  | resume who reply =>
      cases who with
      | none =>
          obtain ⟨c, hmain, hresume⟩ := Option.bind_eq_some_iff.mp h
          obtain ⟨c', hc', rfl⟩ := Option.map_eq_some_iff.mp hresume
          have hmeets := (hs.main c hmain).resumed (hc.refl none _) hs.inv (.inr rfl) he hc'
          have hsettle := hs.settleMain hc hmeets
          exact ⟨hsettle.1, .inl ⟨none, hsettle.2⟩⟩
      | some n =>
          obtain ⟨u, hu, hresume⟩ := Option.bind_eq_some_iff.mp h
          have hwaits := hs.tasks n u hu
          split at hresume
          · next hcancelled =>
            obtain ⟨c', hc', rfl⟩ := Option.map_eq_some_iff.mp hresume
            rw [Bool.eq_false_iff.mpr hcancelled.2] at hwaits
            have hmeets := hwaits.thrown (hc.refl _ _) hs.inv hcancelled.1 hc'
            have hsettle := hs.settle hc hmeets
            exact ⟨hsettle.1, .inl ⟨some n, hsettle.2⟩⟩
          · next hgo =>
            obtain ⟨c', hc', rfl⟩ := Option.map_eq_some_iff.mp hresume
            have hundisturbed : u.interrupted = true ∨ s.memory.cancelledFor (some n) = false := by
              by_cases hb : u.interrupted = true
              · exact .inl hb
              · exact .inr (Bool.eq_false_iff.mpr fun hcancelled => hgo ⟨hcancelled, hb⟩)
            have hmeets := hwaits.resumed (hc.refl _ _) hs.inv hundisturbed he hc'
            have hsettle := hs.settle hc hmeets
            exact ⟨hsettle.1, .inl ⟨some n, hsettle.2⟩⟩
  | move x =>
      obtain ⟨o, ho, rfl⟩ := Option.map_eq_some_iff.mp h
      obtain ⟨hi, hr⟩ := hc.moves x s.memory o hs.inv he ho
      refine ⟨⟨hi, fun hmain => ?_, fun c hmain => ?_, fun n u hu => ?_⟩, .inr ⟨x, rfl⟩⟩
      · exact hc.idle_rely _ _ (hs.ready hmain) (hr none) hi
      · exact (hs.main c hmain).rely (hc.trans _) (hr none)
      · exact (hs.tasks n u hu).rely (hc.trans _) (hr (some n))

/-- **In every run** the terms hold in every state, and what holds between inputs whenever the loop
is ready for one. -/
theorem Sound.of_along (hc : Contract P T idle accepts allowed) {s t : State S} {events : List (Event P)}
    (hs : Sound T idle s) (hadmits : Runs.Along (step P) (Admits P T accepts allowed) s events)
    (hrun : Runs.run (step P) s events = some t) : Sound T idle t :=
  Runs.inv_of_along (fun _ _ _ hs he h => (hs.of_step hc he h).1) hs hadmits hrun

/-- Terms that ask nothing of what comes from outside. -/
theorem Sound.of_run (hc : Contract P T idle (fun _ _ => True) fun _ _ => True)
    (hreplies : ∀ o r, T.replies o r) {s t : State S} {events : List (Event P)} (hs : Sound T idle s)
    (hrun : Runs.run (step P) s events = some t) : Sound T idle t := by
  refine Runs.inv_of_run (fun s e _ hs h => (hs.of_step hc ?_ h).1) hs hrun
  cases e with
  | resume who reply => exact fun o => hreplies o (reply o)
  | _ => trivial

/-- Nothing runs yet. -/
theorem Sound.quiet {s : State S} (hi : T.inv s.memory) (hidle : idle s.memory) (hmain : s.main = none)
    (hsuspended : ∀ n, s.suspended n = none) : Sound T idle s where
  inv := hi
  ready _ := hidle
  main c hc := absurd (hmain.symm.trans hc) (by simp)
  tasks n u hu := absurd ((hsuspended n).symm.trans hu) (by simp)

end sound

end Asyncio
