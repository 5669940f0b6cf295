import Mathlib.Data.Nat.Notation
import Mathlib.Order.Defs.Unbundled

/-! # Transactions with exceptions

`Tx ε σ α` is a computation over a store `σ` that returns a value or raises an exception of
type `ε`; when it raises, the store it has reached is kept, so that an enclosing handler and
the end of the transaction see every change made before the raise.  `Tx.session` ends a
transaction: a value commits, an exception commits exactly when it is flagged durable and
otherwise the store is rolled back.

Predicates describe what a computation does to a store up to a preorder `R` (`Tx.Keeps`), which
exceptions it raises (`Tx.RaisesOnly`), that it has not left `R` behind whenever it raises an
exception of a given kind (`Tx.Clean`), that it keeps an invariant while it raises only given
exceptions (`Tx.Guards`), and what it leads to from a precondition (`Tx.Leads`).  Their rules for
sequencing are what the order of checks and writes in a program is verified with: checks
first (`Clean.bind_of_keeps`), writes after the last check (`Clean.bind_of_raisesOnly`). -/

universe u v

/-- A computation over the store `σ` that may raise an `ε`, keeping the store reached. -/
def Tx (ε σ : Type u) (α : Type u) : Type u := σ → Except ε α × σ

namespace Tx

variable {ε σ α β : Type u}

instance : Monad (Tx ε σ) where
  pure a := fun s => (.ok a, s)
  bind m f := fun s =>
    match m s with
    | (.ok a, s') => f a s'
    | (.error e, s') => (.error e, s')

/-! ### Primitive computations -/

/-- A value read off the store. -/
def gets (f : σ → α) : Tx ε σ α := fun s => (.ok (f s), s)

/-- A change of the store. -/
def modify (f : σ → σ) : Tx ε σ PUnit := fun s => (.ok ⟨⟩, f s)

/-- A value read off the store while the store changes. -/
def modifyGet (f : σ → α × σ) : Tx ε σ α := fun s => (.ok (f s).1, (f s).2)

def raise (e : ε) : Tx ε σ α := fun s => (.error e, s)

def raiseIf (c : Prop) [Decidable c] (e : ε) : Tx ε σ PUnit := if c then raise e else pure ⟨⟩

/-- The value of `o`, or the exception `e` when there is none. -/
def orRaise (o : Option α) (e : ε) : Tx ε σ α := o.elim (raise e) pure

/-- Raise the exception given, if any. -/
def raiseSome (o : Option ε) : Tx ε σ PUnit := o.elim (pure ⟨⟩) raise

def ofExcept (r : Except ε α) : Tx ε σ α := fun s => (r, s)

/-- `try m except e: h e`. -/
def handle (m : Tx ε σ α) (h : ε → Tx ε σ α) : Tx ε σ α := fun s =>
  match m s with
  | (.ok a, s') => (.ok a, s')
  | (.error e, s') => h e s'

/-- `f` on every element in order, stopping at the first exception. -/
def forEach (f : α → Tx ε σ β) : List α → Tx ε σ (List β)
  | [] => pure []
  | a :: as => do
    let b ← f a
    let bs ← forEach f as
    pure (b :: bs)

/-- The end of a transaction: `rollback s s'` is the store after abandoning the changes made
between `s` and `s'`. -/
def session (durable : ε → Prop) [DecidablePred durable] (rollback : σ → σ → σ)
    (m : Tx ε σ α) : Tx ε σ α := fun s =>
  match m s with
  | (.ok a, s') => (.ok a, s')
  | (.error e, s') => (.error e, if durable e then s' else rollback s s')

/-- A value of a sequence of fallible computations comes from a value of its first part. -/
theorem except_bind_eq_ok {x : Except ε α} {f : α → Except ε β} {b : β} :
    (x >>= f) = .ok b ↔ ∃ a, x = .ok a ∧ f a = .ok b := by
  cases x <;> simp [bind, Except.bind]

/-! ### Running the primitives -/

theorem bind_apply (m : Tx ε σ α) (f : α → Tx ε σ β) (s : σ) :
    (m >>= f) s = match m s with
      | (.ok a, s') => f a s'
      | (.error e, s') => (.error e, s') := rfl

theorem bind_of_ok {m : Tx ε σ α} {f : α → Tx ε σ β} {s s' : σ} {a : α} (h : m s = (.ok a, s')) :
    (m >>= f) s = f a s' := by
  rw [bind_apply, h]

theorem bind_of_error {m : Tx ε σ α} {f : α → Tx ε σ β} {s s' : σ} {e : ε}
    (h : m s = (.error e, s')) : (m >>= f) s = (.error e, s') := by
  rw [bind_apply, h]

@[simp] theorem pure_apply (a : α) (s : σ) : (pure a : Tx ε σ α) s = (.ok a, s) := rfl

@[simp] theorem gets_apply (f : σ → α) (s : σ) : (gets f : Tx ε σ α) s = (.ok (f s), s) := rfl

@[simp] theorem modify_apply (f : σ → σ) (s : σ) : (modify f : Tx ε σ PUnit) s = (.ok ⟨⟩, f s) := rfl

@[simp] theorem modifyGet_apply (f : σ → α × σ) (s : σ) :
    (modifyGet f : Tx ε σ α) s = (.ok (f s).1, (f s).2) := rfl

@[simp] theorem raise_apply (e : ε) (s : σ) : (raise e : Tx ε σ α) s = (.error e, s) := rfl

@[simp] theorem ofExcept_apply (r : Except ε α) (s : σ) : (ofExcept r : Tx ε σ α) s = (r, s) := rfl

@[simp] theorem orRaise_some (a : α) (e : ε) : (orRaise (some a) e : Tx ε σ α) = pure a := rfl

@[simp] theorem orRaise_none (e : ε) : (orRaise none e : Tx ε σ α) = raise e := rfl

@[simp] theorem raiseSome_none : (raiseSome none : Tx ε σ PUnit) = pure ⟨⟩ := rfl

@[simp] theorem raiseSome_some (e : ε) : (raiseSome (some e) : Tx ε σ PUnit) = raise e := rfl

@[simp] theorem raiseIf_pos {c : Prop} [Decidable c] (h : c) (e : ε) :
    (raiseIf c e : Tx ε σ PUnit) = raise e := if_pos h

@[simp] theorem raiseIf_neg {c : Prop} [Decidable c] (h : ¬c) (e : ε) :
    (raiseIf c e : Tx ε σ PUnit) = pure ⟨⟩ := if_neg h

@[simp] theorem pure_bind (a : α) (f : α → Tx ε σ β) : (pure a >>= f : Tx ε σ β) = f a := rfl

@[simp] theorem raise_bind (e : ε) (f : α → Tx ε σ β) : (raise e >>= f : Tx ε σ β) = raise e := rfl

theorem bind_assoc {γ : Type u} (m : Tx ε σ α) (f : α → Tx ε σ β) (g : β → Tx ε σ γ) :
    (m >>= f) >>= g = m >>= fun a => f a >>= g := by
  funext s
  rcases h : m s with ⟨e | a, s'⟩
  · rw [bind_of_error (bind_of_error h), bind_of_error h]
  · simp only [bind_apply, h]

theorem raiseIf_bind_of_not {c : Prop} [Decidable c] (h : ¬c) (e : ε) (f : PUnit → Tx ε σ β) (s : σ) :
    (raiseIf c e >>= f) s = f ⟨⟩ s := by
  rw [raiseIf_neg h]
  rfl

theorem raiseIf_bind_of_pos {c : Prop} [Decidable c] (h : c) (e : ε) (f : PUnit → Tx ε σ β) (s : σ) :
    (raiseIf c e >>= f) s = (.error e, s) := by
  rw [raiseIf_pos h]
  rfl

theorem gets_bind_apply (g : σ → α) (f : α → Tx ε σ β) (s : σ) :
    (gets g >>= f : Tx ε σ β) s = f (g s) s := rfl

theorem modify_bind_apply (g : σ → σ) (f : PUnit → Tx ε σ β) (s : σ) :
    (modify g >>= f : Tx ε σ β) s = f ⟨⟩ (g s) := rfl

theorem handle_of_ok {m : Tx ε σ α} {h : ε → Tx ε σ α} {s s' : σ} {a : α}
    (hm : m s = (.ok a, s')) : handle m h s = (.ok a, s') := by
  simp only [handle, hm]

theorem handle_of_error {m : Tx ε σ α} {h : ε → Tx ε σ α} {s s' : σ} {e : ε}
    (hm : m s = (.error e, s')) : handle m h s = h e s' := by
  simp only [handle, hm]

theorem orRaise_eq_ok {o : Option α} {e : ε} {s s' : σ} {a : α}
    (h : (orRaise o e : Tx ε σ α) s = (.ok a, s')) : o = some a ∧ s' = s := by
  cases o with
  | none => simp at h
  | some b =>
      obtain ⟨hb, rfl⟩ := Prod.mk.inj h
      exact ⟨congrArg some (Except.ok.inj hb), rfl⟩

theorem raiseSome_eq_ok {o : Option ε} {s s' : σ} {u : PUnit}
    (h : (raiseSome o : Tx ε σ PUnit) s = (.ok u, s')) : o = none ∧ s' = s := by
  cases o with
  | none => exact ⟨rfl, (Prod.mk.inj h).2.symm⟩
  | some e => simp at h

/-- A value of a sequence comes from a value of its first part. -/
theorem bind_eq_ok {m : Tx ε σ α} {f : α → Tx ε σ β} {s s' : σ} {b : β}
    (h : (m >>= f) s = (.ok b, s')) : ∃ a s₁, m s = (.ok a, s₁) ∧ f a s₁ = (.ok b, s') := by
  rw [bind_apply] at h
  rcases hm : m s with ⟨_ | a, s₁⟩
  · simp [hm] at h
  · exact ⟨a, s₁, rfl, by simpa only [hm] using h⟩

/-- A sequence that begins with a required value goes on from it in the same store. -/
theorem orRaise_bind_eq_ok {o : Option α} {e : ε} {f : α → Tx ε σ β} {s s' : σ} {b : β}
    (h : (orRaise o e >>= f) s = (.ok b, s')) : ∃ a, o = some a ∧ f a s = (.ok b, s') := by
  obtain ⟨a, s₁, ha, hf⟩ := bind_eq_ok h
  obtain ⟨hsome, rfl⟩ := orRaise_eq_ok ha
  exact ⟨a, hsome, hf⟩

/-- A sequence that begins with a check goes on when the check does not raise. -/
theorem raiseIf_bind_eq_ok {c : Prop} [Decidable c] {e : ε} {f : PUnit → Tx ε σ β} {s s' : σ} {b : β}
    (h : (raiseIf c e >>= f) s = (.ok b, s')) : ¬c ∧ f ⟨⟩ s = (.ok b, s') := by
  by_cases hc : c
  · rw [raiseIf_pos hc, raise_bind] at h
    simp at h
  · rw [raiseIf_neg hc, pure_bind] at h
    exact ⟨hc, h⟩

/-- An exception of a sequence is raised by its first part or, after a value of it, by the
rest. -/
theorem bind_eq_error {m : Tx ε σ α} {f : α → Tx ε σ β} {s s' : σ} {e : ε}
    (h : (m >>= f) s = (.error e, s')) :
    m s = (.error e, s') ∨ ∃ a s₁, m s = (.ok a, s₁) ∧ f a s₁ = (.error e, s') := by
  rw [bind_apply] at h
  rcases hm : m s with ⟨e' | a, s₁⟩
  · left
    rw [hm] at h
    obtain ⟨rfl, rfl⟩ : e' = e ∧ s₁ = s' := by simpa using h
    rfl
  · right
    exact ⟨a, s₁, rfl, by simpa only [hm] using h⟩

/-- Either the first part of a sequence raises, or the rest goes on from its value. -/
theorem bind_cases {m : Tx ε σ α} {f : α → Tx ε σ β} {s s' : σ} {r : Except ε β}
    (h : (m >>= f) s = (r, s')) :
    (∃ e, m s = (.error e, s') ∧ r = .error e) ∨ ∃ a s₁, m s = (.ok a, s₁) ∧ f a s₁ = (r, s') := by
  rcases hm : m s with ⟨e | a, s₁⟩
  · rw [bind_of_error hm] at h
    obtain ⟨rfl, rfl⟩ := Prod.mk.inj h
    exact .inl ⟨e, rfl, rfl⟩
  · rw [bind_of_ok hm] at h
    exact .inr ⟨a, s₁, rfl, h⟩

/-- Either the body of a `try` returns, or the handler goes on from its exception. -/
theorem handle_cases {m : Tx ε σ α} {f : ε → Tx ε σ α} {s s' : σ} {r : Except ε α}
    (h : handle m f s = (r, s')) :
    (∃ a, m s = (.ok a, s') ∧ r = .ok a) ∨ ∃ e s₁, m s = (.error e, s₁) ∧ f e s₁ = (r, s') := by
  rcases hm : m s with ⟨e | a, s₁⟩
  · rw [handle_of_error hm] at h
    exact .inr ⟨e, s₁, rfl, h⟩
  · rw [handle_of_ok hm] at h
    obtain ⟨rfl, rfl⟩ := Prod.mk.inj h
    exact .inl ⟨a, rfl, rfl⟩

/-- A value in the result of a loop is the value of one of its turns. -/
theorem mem_of_forEach_eq_ok {f : α → Tx ε σ β} :
    ∀ {as : List α} {s s' : σ} {bs : List β}, forEach f as s = (.ok bs, s') → ∀ b ∈ bs,
      ∃ a ∈ as, ∃ s₁ s₂, f a s₁ = (.ok b, s₂)
  | [], s, s', bs, h, b, hb => by
      obtain ⟨hnil, -⟩ := Prod.mk.inj h
      obtain rfl := Except.ok.inj hnil
      exact absurd hb List.not_mem_nil
  | a :: as, s, s', bs, h, b, hb => by
      obtain ⟨b₀, s₁, hfirst, h₁⟩ := bind_eq_ok h
      obtain ⟨bs₀, s₂, hrest, hpure⟩ := bind_eq_ok h₁
      obtain rfl := Except.ok.inj (Prod.mk.inj hpure).1
      rcases List.mem_cons.mp hb with rfl | hmem
      · exact ⟨a, List.mem_cons_self, s, s₁, hfirst⟩
      · obtain ⟨a', ha', hturn⟩ := mem_of_forEach_eq_ok hrest b hmem
        exact ⟨a', List.mem_cons_of_mem a ha', hturn⟩

/-- Every turn of a loop that returns has a value in its result. -/
theorem exists_of_forEach_eq_ok {f : α → Tx ε σ β} :
    ∀ {as : List α} {s s' : σ} {bs : List β}, forEach f as s = (.ok bs, s') → ∀ a ∈ as,
      ∃ b ∈ bs, ∃ s₁ s₂, f a s₁ = (.ok b, s₂)
  | [], s, s', bs, h, a, ha => absurd ha List.not_mem_nil
  | a₀ :: as, s, s', bs, h, a, ha => by
      obtain ⟨b₀, s₁, hfirst, h₁⟩ := bind_eq_ok h
      obtain ⟨bs₀, s₂, hrest, hpure⟩ := bind_eq_ok h₁
      obtain rfl := Except.ok.inj (Prod.mk.inj hpure).1
      rcases List.mem_cons.mp ha with rfl | hmem
      · exact ⟨b₀, List.mem_cons_self, s, s₁, hfirst⟩
      · obtain ⟨b, hb, hturn⟩ := exists_of_forEach_eq_ok hrest a hmem
        exact ⟨b, List.mem_cons_of_mem b₀ hb, hturn⟩

/-! ### What a computation keeps -/

/-- Whatever the outcome, the store is moved within `R`. -/
def Keeps (R : σ → σ → Prop) (m : Tx ε σ α) : Prop := ∀ s, R s (m s).2

/-- Every exception raised satisfies `P`. -/
def RaisesOnly (P : ε → Prop) (m : Tx ε σ α) : Prop := ∀ s e, (m s).1 = .error e → P e

/-- Whenever an exception satisfying `P` is raised, the store is still within `R`. -/
def Clean (P : ε → Prop) (R : σ → σ → Prop) (m : Tx ε σ α) : Prop :=
  ∀ s e, (m s).1 = .error e → P e → R s (m s).2

section keeps

variable {R : σ → σ → Prop}

theorem Keeps.of_apply {m : Tx ε σ α} (h : Keeps R m) {s s' : σ} {r : Except ε α}
    (hs : m s = (r, s')) : R s s' := by
  have := h s
  rwa [hs] at this

theorem Keeps.pure [Std.Refl R] (a : α) : Keeps R (Pure.pure a : Tx ε σ α) := fun s => Std.Refl.refl s

theorem Keeps.gets [Std.Refl R] (f : σ → α) : Keeps R (Tx.gets f : Tx ε σ α) := fun s => Std.Refl.refl s

theorem Keeps.raise [Std.Refl R] (e : ε) : Keeps R (Tx.raise e : Tx ε σ α) := fun s => Std.Refl.refl s

theorem Keeps.ofExcept [Std.Refl R] (r : Except ε α) : Keeps R (Tx.ofExcept r : Tx ε σ α) :=
  fun s => Std.Refl.refl s

theorem Keeps.raiseIf [Std.Refl R] (c : Prop) [Decidable c] (e : ε) :
    Keeps R (Tx.raiseIf c e : Tx ε σ PUnit) := by
  intro s
  by_cases h : c
  · rw [raiseIf_pos h]; exact Std.Refl.refl s
  · rw [raiseIf_neg h]; exact Std.Refl.refl s

theorem Keeps.orRaise [Std.Refl R] (o : Option α) (e : ε) : Keeps R (Tx.orRaise o e : Tx ε σ α) := by
  cases o with
  | none => exact Keeps.raise e
  | some a => exact Keeps.pure a

theorem Keeps.raiseSome [Std.Refl R] (o : Option ε) : Keeps R (Tx.raiseSome o : Tx ε σ PUnit) := by
  cases o with
  | none => exact Keeps.pure PUnit.unit
  | some e => exact Keeps.raise e

theorem Keeps.modify {f : σ → σ} (h : ∀ s, R s (f s)) : Keeps R (Tx.modify f : Tx ε σ PUnit) := h

theorem Keeps.bind [IsTrans σ R] {m : Tx ε σ α} {f : α → Tx ε σ β} (hm : Keeps R m)
    (hf : ∀ a, Keeps R (f a)) : Keeps R (m >>= f) := by
  intro s
  have h₁ := hm s
  rw [bind_apply]
  rcases h : m s with ⟨_ | a, s'⟩ <;> rw [h] at h₁
  · exact h₁
  · exact IsTrans.trans _ _ _ h₁ (hf a s')

theorem Keeps.handle [IsTrans σ R] {m : Tx ε σ α} {h : ε → Tx ε σ α} (hm : Keeps R m)
    (hh : ∀ e, Keeps R (h e)) : Keeps R (Tx.handle m h) := by
  intro s
  have h₁ := hm s
  rcases hs : m s with ⟨e | a, s'⟩ <;> rw [hs] at h₁
  · rw [handle_of_error hs]; exact IsTrans.trans _ _ _ h₁ (hh e s')
  · rw [handle_of_ok hs]; exact h₁

theorem Keeps.forEach [Std.Refl R] [IsTrans σ R] {f : α → Tx ε σ β} {as : List α}
    (hf : ∀ a, Keeps R (f a)) : Keeps R (Tx.forEach f as) := by
  induction as with
  | nil => exact Keeps.pure []
  | cons a as ih => exact (hf a).bind fun b => ih.bind fun bs => Keeps.pure (b :: bs)

end keeps

/-- The store is only read, and stores related by `R` give the same outcome. -/
def Reads (R : σ → σ → Prop) (m : Tx ε σ α) : Prop :=
  ∀ s, (m s).2 = s ∧ ∀ s', R s s' → (m s').1 = (m s).1

section reads

variable {R : σ → σ → Prop}

theorem Reads.of_const (r : Except ε α) : Reads R (Tx.ofExcept r : Tx ε σ α) :=
  fun _ => ⟨rfl, fun _ _ => rfl⟩

theorem Reads.pure (a : α) : Reads R (Pure.pure a : Tx ε σ α) := Reads.of_const (.ok a)

theorem Reads.raise (e : ε) : Reads R (Tx.raise e : Tx ε σ α) := Reads.of_const (.error e)

theorem Reads.raiseIf (c : Prop) [Decidable c] (e : ε) : Reads R (Tx.raiseIf c e : Tx ε σ PUnit) := by
  by_cases h : c
  · rw [raiseIf_pos h]; exact Reads.raise e
  · rw [raiseIf_neg h]; exact Reads.pure PUnit.unit

theorem Reads.orRaise (o : Option α) (e : ε) : Reads R (Tx.orRaise o e : Tx ε σ α) := by
  cases o with
  | none => exact Reads.raise e
  | some a => exact Reads.pure a

theorem Reads.gets {f : σ → α} (hf : ∀ s s', R s s' → f s' = f s) :
    Reads R (Tx.gets f : Tx ε σ α) :=
  fun s => ⟨rfl, fun s' h => congrArg Except.ok (hf s s' h)⟩

theorem Reads.bind {m : Tx ε σ α} {f : α → Tx ε σ β} (hm : Reads R m) (hf : ∀ a, Reads R (f a)) :
    Reads R (m >>= f) := by
  intro s
  rcases h : m s with ⟨e | a, s₁⟩
  · obtain rfl : s₁ = s := by rw [← (hm s).1, h]
    rw [bind_of_error h]
    refine ⟨rfl, fun s' hR => ?_⟩
    have h' := (hm s₁).2 s' hR
    rcases hs' : m s' with ⟨e' | a, s₂⟩ <;> rw [h, hs'] at h'
    · obtain rfl : e' = e := by simpa using h'
      rw [bind_of_error hs']
    · simp at h'
  · obtain rfl : s₁ = s := by rw [← (hm s).1, h]
    rw [bind_of_ok h]
    refine ⟨(hf a s₁).1, fun s' hR => ?_⟩
    have h' := (hm s₁).2 s' hR
    rcases hs' : m s' with ⟨e | a', s₂⟩ <;> rw [h, hs'] at h'
    · simp at h'
    · obtain rfl : a' = a := by simpa using h'
      obtain rfl : s₂ = s' := by rw [← (hm s').1, hs']
      rw [bind_of_ok hs']
      exact (hf a' s₁).2 s₂ hR

theorem Reads.eq {m : Tx ε σ α} (h : Reads R m) {s s' : σ} {r : Except ε α} (hs : m s = (r, s')) :
    s' = s := by
  rw [← (h s).1, hs]

theorem Reads.keeps {m : Tx ε σ α} (h : Reads R m) {R' : σ → σ → Prop} [Std.Refl R'] :
    Keeps R' m := by
  intro s
  rw [(h s).1]
  exact Std.Refl.refl s

end reads

section raises

variable {P : ε → Prop}

theorem RaisesOnly.pure (a : α) : RaisesOnly P (Pure.pure a : Tx ε σ α) := by
  intro s e h
  simp at h

theorem RaisesOnly.gets (f : σ → α) : RaisesOnly P (Tx.gets f : Tx ε σ α) := by
  intro s e h
  simp at h

theorem RaisesOnly.modify (f : σ → σ) : RaisesOnly P (Tx.modify f : Tx ε σ PUnit) := by
  intro s e h
  simp at h

theorem RaisesOnly.modifyGet (f : σ → α × σ) : RaisesOnly P (Tx.modifyGet f : Tx ε σ α) := by
  intro s e h
  simp at h

theorem RaisesOnly.raise {e : ε} (he : P e) : RaisesOnly P (Tx.raise e : Tx ε σ α) := by
  intro s e' h
  obtain rfl : e = e' := by simpa using h
  exact he

theorem RaisesOnly.raiseIf {c : Prop} [Decidable c] {e : ε} (he : c → P e) :
    RaisesOnly P (Tx.raiseIf c e : Tx ε σ PUnit) := by
  by_cases h : c
  · rw [raiseIf_pos h]; exact RaisesOnly.raise (he h)
  · rw [raiseIf_neg h]; exact RaisesOnly.pure PUnit.unit

theorem RaisesOnly.ofExcept {r : Except ε α} (h : ∀ e, r = .error e → P e) :
    RaisesOnly P (Tx.ofExcept r : Tx ε σ α) := fun _ e he => h e he

theorem RaisesOnly.orRaise {o : Option α} {e : ε} (he : P e) :
    RaisesOnly P (Tx.orRaise o e : Tx ε σ α) := by
  cases o with
  | none => exact RaisesOnly.raise he
  | some a => exact RaisesOnly.pure a

theorem RaisesOnly.raiseSome {o : Option ε} (he : ∀ e, o = some e → P e) :
    RaisesOnly P (Tx.raiseSome o : Tx ε σ PUnit) := by
  cases o with
  | none => exact RaisesOnly.pure PUnit.unit
  | some e => exact RaisesOnly.raise (he e rfl)

theorem RaisesOnly.bind {m : Tx ε σ α} {f : α → Tx ε σ β} (hm : RaisesOnly P m)
    (hf : ∀ a, RaisesOnly P (f a)) : RaisesOnly P (m >>= f) := by
  intro s e h
  rcases hb : (m >>= f) s with ⟨e' | b, s'⟩ <;> rw [hb] at h
  · obtain rfl : e' = e := by simpa using h
    rcases bind_eq_error hb with h₁ | ⟨a, s₁, -, h₂⟩
    · exact hm s e' (by rw [h₁])
    · exact hf a s₁ e' (by rw [h₂])
  · simp at h

theorem RaisesOnly.forEach {f : α → Tx ε σ β} {as : List α} (hf : ∀ a, RaisesOnly P (f a)) :
    RaisesOnly P (Tx.forEach f as) := by
  induction as with
  | nil => exact RaisesOnly.pure []
  | cons a as ih => exact (hf a).bind fun b => ih.bind fun bs => RaisesOnly.pure (b :: bs)

end raises

section clean

variable {P : ε → Prop} {R : σ → σ → Prop}

theorem Keeps.clean {m : Tx ε σ α} (h : Keeps R m) : Clean P R m := fun s _ _ _ => h s

theorem RaisesOnly.clean {m : Tx ε σ α} (h : RaisesOnly (fun e => ¬P e) m) : Clean P R m :=
  fun s e he hP => absurd hP (h s e he)

/-- Checks before the rest: a first part that keeps `R` may precede anything clean. -/
theorem Clean.bind_of_keeps [IsTrans σ R] {m : Tx ε σ α} {f : α → Tx ε σ β} (hm : Keeps R m)
    (hf : ∀ a, Clean P R (f a)) : Clean P R (m >>= f) := by
  intro s e h hP
  have h₁ := hm s
  rcases hs : m s with ⟨e' | a, s'⟩ <;> rw [hs] at h₁
  · rw [bind_of_error hs]; exact h₁
  · rw [bind_of_ok hs] at h ⊢
    exact IsTrans.trans _ _ _ h₁ (hf a s' e h hP)

/-- Writes after the last check: what follows a clean part may move the store when it no
longer raises an exception of the kind `P`. -/
theorem Clean.bind_of_raisesOnly {m : Tx ε σ α} {f : α → Tx ε σ β} (hm : Clean P R m)
    (hf : ∀ a, RaisesOnly (fun e => ¬P e) (f a)) : Clean P R (m >>= f) := by
  intro s e h hP
  rcases hs : m s with ⟨e' | a, s'⟩
  · rw [bind_of_error hs] at h ⊢
    obtain rfl : e' = e := by simpa using h
    have := hm s e' (by rw [hs]) hP
    rwa [hs] at this
  · rw [bind_of_ok hs] at h
    exact absurd hP (hf a s' e h)

end clean

/-- From a store that satisfies `P`, the store still satisfies `P` whatever the outcome, and every
exception raised satisfies `F`. -/
def Guards (P : σ → Prop) (F : ε → Prop) (m : Tx ε σ α) : Prop :=
  ∀ s, P s → P (m s).2 ∧ ∀ e, (m s).1 = .error e → F e

section guards

variable {P : σ → Prop} {F : ε → Prop}

theorem Guards.of_apply {m : Tx ε σ α} (h : Guards P F m) {s s' : σ} {r : Except ε α} (hP : P s)
    (hs : m s = (r, s')) : P s' := by
  have := (h s hP).1
  rwa [hs] at this

theorem Guards.of_error {m : Tx ε σ α} (h : Guards P F m) {s s' : σ} {e : ε} (hP : P s)
    (hs : m s = (.error e, s')) : F e :=
  (h s hP).2 e (by rw [hs])

/-- What keeps a relation under which the invariant is stable guards it. -/
theorem Guards.of_keeps {R : σ → σ → Prop} {m : Tx ε σ α} (hR : ∀ s s', R s s' → P s → P s')
    (hk : Keeps R m) (hf : RaisesOnly F m) : Guards P F m :=
  fun s hP => ⟨hR _ _ (hk s) hP, hf s⟩

theorem Guards.pure (a : α) : Guards P F (Pure.pure a : Tx ε σ α) :=
  fun s hP => ⟨hP, RaisesOnly.pure a s⟩

theorem Guards.gets (f : σ → α) : Guards P F (Tx.gets f : Tx ε σ α) :=
  fun s hP => ⟨hP, RaisesOnly.gets f s⟩

theorem Guards.raise {e : ε} (he : F e) : Guards P F (Tx.raise e : Tx ε σ α) :=
  fun s hP => ⟨hP, RaisesOnly.raise he s⟩

theorem Guards.raiseIf {c : Prop} [Decidable c] {e : ε} (he : F e) :
    Guards P F (Tx.raiseIf c e : Tx ε σ PUnit) := by
  by_cases h : c
  · rw [raiseIf_pos h]; exact Guards.raise he
  · rw [raiseIf_neg h]; exact Guards.pure PUnit.unit

theorem Guards.orRaise {o : Option α} {e : ε} (he : F e) : Guards P F (Tx.orRaise o e : Tx ε σ α) := by
  cases o with
  | none => exact Guards.raise he
  | some a => exact Guards.pure a

theorem Guards.bind {m : Tx ε σ α} {f : α → Tx ε σ β} (hm : Guards P F m) (hf : ∀ a, Guards P F (f a)) :
    Guards P F (m >>= f) := by
  intro s hP
  rcases hs : m s with ⟨e | a, s'⟩
  · rw [bind_of_error hs]
    refine ⟨hm.of_apply hP hs, fun e' he => ?_⟩
    obtain rfl : e = e' := by simpa using he
    exact hm.of_error hP hs
  · rw [bind_of_ok hs]
    exact hf a s' (hm.of_apply hP hs)

theorem Guards.handle {m : Tx ε σ α} {h : ε → Tx ε σ α} (hm : Guards P F m)
    (hh : ∀ e, F e → Guards P F (h e)) : Guards P F (Tx.handle m h) := by
  intro s hP
  rcases hs : m s with ⟨e | a, s'⟩
  · rw [handle_of_error hs]
    exact hh e (hm.of_error hP hs) s' (hm.of_apply hP hs)
  · rw [handle_of_ok hs]
    exact ⟨hm.of_apply hP hs, fun e he => by simp at he⟩

theorem Guards.forEach {f : α → Tx ε σ β} {as : List α} (hf : ∀ a, Guards P F (f a)) :
    Guards P F (Tx.forEach f as) := by
  induction as with
  | nil => exact Guards.pure []
  | cons a as ih => exact (hf a).bind fun b => ih.bind fun bs => Guards.pure (b :: bs)

end guards

/-- From a store that satisfies `P`, a value leads to a store that satisfies `Q`, and an exception
to one that satisfies `E`. -/
def Leads (P : σ → Prop) (Q : α → σ → Prop) (E : ε → σ → Prop) (m : Tx ε σ α) : Prop :=
  ∀ s, P s → (∀ a s', m s = (.ok a, s') → Q a s') ∧ ∀ e s', m s = (.error e, s') → E e s'

section leads

variable {P P' : σ → Prop} {Q : α → σ → Prop} {E : ε → σ → Prop} {F : ε → Prop}

theorem Guards.leads {m : Tx ε σ α} (h : Guards P F m) :
    Leads P (fun _ => P) (fun e s => P s ∧ F e) m :=
  fun _ hP => ⟨fun _ _ hs => h.of_apply hP hs, fun _ _ hs => ⟨h.of_apply hP hs, h.of_error hP hs⟩⟩

theorem Leads.guards {m : Tx ε σ α} (h : Leads P (fun _ => P) (fun e s => P s ∧ F e) m) :
    Guards P F m := by
  intro s hP
  rcases hs : m s with ⟨e | a, s'⟩
  · obtain ⟨hP', hF⟩ := (h s hP).2 e s' hs
    refine ⟨hP', fun e' he => ?_⟩
    obtain rfl : e = e' := by simpa using he
    exact hF
  · exact ⟨(h s hP).1 a s' hs, fun e he => by simp at he⟩

theorem Leads.conseq {m : Tx ε σ α} {Q' : α → σ → Prop} {E' : ε → σ → Prop} (h : Leads P Q E m)
    (hP : ∀ s, P' s → P s) (hQ : ∀ a s, Q a s → Q' a s) (hE : ∀ e s, E e s → E' e s) :
    Leads P' Q' E' m :=
  fun s hs => ⟨fun a s' hm => hQ a s' ((h s (hP s hs)).1 a s' hm),
    fun e s' hm => hE e s' ((h s (hP s hs)).2 e s' hm)⟩

/-- A fact that does not concern the store is taken out of the precondition. -/
theorem Leads.assume {m : Tx ε σ α} {c : Prop} (h : c → Leads P Q E m) :
    Leads (fun s => P s ∧ c) Q E m :=
  fun s hs => h hs.2 s hs.1

theorem Leads.bind {m : Tx ε σ α} {f : α → Tx ε σ β} {R : β → σ → Prop} (hm : Leads P Q E m)
    (hf : ∀ a, Leads (Q a) R E (f a)) : Leads P R E (m >>= f) := by
  intro s hP
  constructor
  · intro b s' hs
    obtain ⟨a, s₁, h₁, h₂⟩ := bind_eq_ok hs
    exact (hf a s₁ ((hm s hP).1 a s₁ h₁)).1 b s' h₂
  · intro e s' hs
    rcases bind_eq_error hs with h₁ | ⟨a, s₁, h₁, h₂⟩
    · exact (hm s hP).2 e s' h₁
    · exact (hf a s₁ ((hm s hP).1 a s₁ h₁)).2 e s' h₂

theorem Leads.handle {m : Tx ε σ α} {h : ε → Tx ε σ α} {E' : ε → σ → Prop} (hm : Leads P Q E m)
    (hh : ∀ e, Leads (E e) Q E' (h e)) : Leads P Q E' (Tx.handle m h) := by
  intro s hP
  rcases hs : m s with ⟨e | a, s₁⟩
  · have he := (hm s hP).2 e s₁ hs
    rw [handle_of_error hs]
    exact hh e s₁ he
  · have ha := (hm s hP).1 a s₁ hs
    rw [handle_of_ok hs]
    refine ⟨fun b s' hb => ?_, fun e s' he => by simp at he⟩
    obtain ⟨hab, rfl⟩ := Prod.mk.inj hb
    exact Except.ok.inj hab ▸ ha

theorem Leads.pure {a : α} (h : ∀ s, P s → Q a s) : Leads P Q E (Pure.pure a : Tx ε σ α) := by
  intro s hP
  refine ⟨fun b s' hs => ?_, fun e s' hs => by simp at hs⟩
  obtain ⟨ha, rfl⟩ := Prod.mk.inj hs
  exact Except.ok.inj ha ▸ h s hP

theorem Leads.gets {f : σ → α} (h : ∀ s, P s → Q (f s) s) : Leads P Q E (Tx.gets f : Tx ε σ α) := by
  intro s hP
  refine ⟨fun b s' hs => ?_, fun e s' hs => by simp at hs⟩
  obtain ⟨ha, rfl⟩ := Prod.mk.inj hs
  exact Except.ok.inj ha ▸ h s hP

theorem Leads.raise {e : ε} (h : ∀ s, P s → E e s) : Leads P Q E (Tx.raise e : Tx ε σ α) := by
  intro s hP
  refine ⟨fun b s' hs => by simp at hs, fun e' s' hs => ?_⟩
  obtain ⟨he, rfl⟩ := Prod.mk.inj hs
  exact Except.error.inj he ▸ h s hP

theorem Leads.orRaise {o : Option α} {e : ε} (h : ∀ a, o = some a → ∀ s, P s → Q a s)
    (he : ∀ s, P s → E e s) : Leads P Q E (Tx.orRaise o e : Tx ε σ α) := by
  cases o with
  | none => exact Leads.raise he
  | some a => exact Leads.pure (h a rfl)

theorem Leads.raiseSome {Q : PUnit → σ → Prop} {o : Option ε} (h : ∀ s, P s → Q PUnit.unit s)
    (he : ∀ e, o = some e → ∀ s, P s → E e s) : Leads P Q E (Tx.raiseSome o) := by
  cases o with
  | none => exact Leads.pure h
  | some e => exact Leads.raise (he e rfl)

end leads

/-! ### What a value tells of the store -/

/-- From a store that satisfies `P`, a value is returned only with a store that, with it, satisfies `Q`. -/
def Yields (P : σ → Prop) (Q : α → σ → Prop) (m : Tx ε σ α) : Prop :=
  ∀ s, P s → ∀ a s', m s = (.ok a, s') → Q a s'

section yields

variable {P P' : σ → Prop} {Q : α → σ → Prop}

theorem Yields.conseq {m : Tx ε σ α} {Q' : α → σ → Prop} (h : Yields P Q m) (hP : ∀ s, P' s → P s)
    (hQ : ∀ a s, Q a s → Q' a s) : Yields P' Q' m :=
  fun s hs a s' hm => hQ a s' (h s (hP s hs) a s' hm)

theorem Yields.bind {m : Tx ε σ α} {f : α → Tx ε σ β} {R : β → σ → Prop} (hm : Yields P Q m)
    (hf : ∀ a, Yields (Q a) R (f a)) : Yields P R (m >>= f) := by
  intro s hP b s' hs
  obtain ⟨a, s₁, h₁, h₂⟩ := bind_eq_ok hs
  exact hf a s₁ (hm s hP a s₁ h₁) b s' h₂

theorem Yields.modifyGet {f : σ → α × σ} (h : ∀ s, P s → Q (f s).1 (f s).2) :
    Yields P Q (Tx.modifyGet f : Tx ε σ α) := by
  intro s hP a s' hs
  obtain ⟨ha, rfl⟩ := Prod.mk.inj hs
  exact Except.ok.inj ha ▸ h s hP

theorem Yields.pure {a : α} (h : ∀ s, P s → Q a s) : Yields P Q (Pure.pure a : Tx ε σ α) :=
  Yields.modifyGet (f := fun s => (a, s)) h

theorem Yields.gets {f : σ → α} (h : ∀ s, P s → Q (f s) s) : Yields P Q (Tx.gets f : Tx ε σ α) :=
  Yields.modifyGet (f := fun s => (f s, s)) h

theorem Yields.modify {Q : PUnit → σ → Prop} {f : σ → σ} (h : ∀ s, P s → Q PUnit.unit (f s)) :
    Yields P Q (Tx.modify f : Tx ε σ PUnit) :=
  Yields.modifyGet (f := fun s => (PUnit.unit, f s)) h

theorem Yields.raise {e : ε} : Yields P Q (Tx.raise e : Tx ε σ α) :=
  fun _ _ _ _ hs => absurd hs (by simp)

theorem Yields.orRaise {o : Option α} {e : ε} (h : ∀ a, o = some a → ∀ s, P s → Q a s) :
    Yields P Q (Tx.orRaise o e : Tx ε σ α) := by
  cases o with
  | none => exact Yields.raise
  | some a => exact Yields.pure (h a rfl)

theorem Yields.raiseSome {Q : PUnit → σ → Prop} {o : Option ε} (h : o = none → ∀ s, P s → Q PUnit.unit s) :
    Yields P Q (Tx.raiseSome o) := by
  cases o with
  | none => exact Yields.pure (h rfl)
  | some e => exact Yields.raise

theorem Yields.raiseIf {Q : PUnit → σ → Prop} {c : Prop} [Decidable c] {e : ε}
    (h : ¬c → ∀ s, P s → Q PUnit.unit s) : Yields P Q (Tx.raiseIf c e) := by
  by_cases hc : c
  · rw [raiseIf_pos hc]
    exact Yields.raise
  · rw [raiseIf_neg hc]
    exact Yields.pure (h hc)

/-- What a computation keeps does not need to be watched. -/
theorem Keeps.yields {R : σ → σ → Prop} {m : Tx ε σ α} (hm : Keeps R m)
    (hP : ∀ s s', R s s' → P s → P s') : Yields P (fun _ => P) m := by
  intro s hs a s' hm'
  have hR := hm s
  rw [hm'] at hR
  exact hP s s' hR hs

end yields

/-! ### The end of a transaction -/

section session

variable {durable : ε → Prop} [DecidablePred durable] {rollback : σ → σ → σ}

theorem session_of_ok {m : Tx ε σ α} {s s' : σ} {a : α} (h : m s = (.ok a, s')) :
    session durable rollback m s = (.ok a, s') := by
  simp only [session, h]

theorem session_of_durable {m : Tx ε σ α} {s s' : σ} {e : ε} (h : m s = (.error e, s'))
    (hd : durable e) : session durable rollback m s = (.error e, s') := by
  simp only [session, h, if_pos hd]

theorem session_of_rollback {m : Tx ε σ α} {s s' : σ} {e : ε} (h : m s = (.error e, s'))
    (hd : ¬durable e) : session durable rollback m s = (.error e, rollback s s') := by
  simp only [session, h, if_neg hd]

theorem session_fst (m : Tx ε σ α) (s : σ) : (session durable rollback m s).1 = (m s).1 := by
  rcases h : m s with ⟨e | a, s'⟩ <;> simp only [session, h]

end session

end Tx
