import Mathlib.Data.Nat.Notation
import Mathlib.Data.List.Basic

/-! # Runs of a labelled system with conditions on its steps

A system is a partial step function `step : σ → α → Option σ`: `step s a` is the state
reached by the label `a`, or `none` when `a` cannot happen in `s`.  `run step s as` follows a
list of labels, and `Along step C s as` says that every step of that run is taken in a state
and by a label that satisfy the condition `C`.  The invariant rules turn a fact about one
step into a fact about every run. -/

namespace Runs

universe u v

variable {σ : Type u} {α : Type v} (step : σ → α → Option σ)

/-- The state reached by following the labels, if every one of them can happen. -/
def run : σ → List α → Option σ
  | s, [] => some s
  | s, a :: as => (step s a).bind fun s' => run s' as

/-- Every step of the run from `s` along the labels satisfies `C`. -/
def Along (C : σ → α → Prop) : σ → List α → Prop
  | _, [] => True
  | s, a :: as => C s a ∧ ∀ s', step s a = some s' → Along C s' as

/-- Every state of the run from `s` along the labels satisfies `P`. -/
def Always (P : σ → Prop) : σ → List α → Prop
  | s, [] => P s
  | s, a :: as => P s ∧ ∀ s', step s a = some s' → Always P s' as

variable {step}

@[simp] theorem run_nil (s : σ) : run step s [] = some s := rfl

theorem run_cons (s : σ) (a : α) (as : List α) :
    run step s (a :: as) = (step s a).bind fun s' => run step s' as := rfl

theorem run_cons_eq_some {s t : σ} {a : α} {as : List α} :
    run step s (a :: as) = some t ↔ ∃ s', step s a = some s' ∧ run step s' as = some t := by
  rw [run_cons, Option.bind_eq_some_iff]

theorem run_append (s : σ) (as bs : List α) :
    run step s (as ++ bs) = (run step s as).bind fun s' => run step s' bs := by
  induction as generalizing s with
  | nil => rfl
  | cons a as ih =>
      rw [List.cons_append, run_cons, run_cons, Option.bind_assoc]
      congr 1
      funext s'
      exact ih s'

theorem run_append_eq_some {s t : σ} {as bs : List α} :
    run step s (as ++ bs) = some t ↔ ∃ s', run step s as = some s' ∧ run step s' bs = some t := by
  rw [run_append, Option.bind_eq_some_iff]

theorem run_concat_eq_some {s t : σ} {as : List α} {a : α} :
    run step s (as ++ [a]) = some t ↔ ∃ s', run step s as = some s' ∧ step s' a = some t := by
  rw [run_append_eq_some]
  simp [run_cons]

section along

variable {C : σ → α → Prop}

theorem Along.append {s : σ} {as bs : List α} (h : Along step C s (as ++ bs)) :
    Along step C s as ∧ ∀ s', run step s as = some s' → Along step C s' bs := by
  induction as generalizing s with
  | nil =>
      refine ⟨trivial, ?_⟩
      rintro s' hs
      obtain rfl := Option.some.inj hs
      exact h
  | cons a as ih =>
      obtain ⟨h₁, h₂⟩ := h
      refine ⟨⟨h₁, fun s' hs => (ih (h₂ s' hs)).1⟩, ?_⟩
      intro t ht
      obtain ⟨s', hs, hr⟩ := run_cons_eq_some.mp ht
      exact (ih (h₂ s' hs)).2 t hr

theorem Along.mono {D : σ → α → Prop} (hCD : ∀ s a, C s a → D s a) {s : σ} {as : List α}
    (h : Along step C s as) : Along step D s as := by
  induction as generalizing s with
  | nil => trivial
  | cons a as ih => exact ⟨hCD s a h.1, fun s' hs => ih (h.2 s' hs)⟩

theorem Along.and {D : σ → α → Prop} {s : σ} {as : List α} (h : Along step C s as)
    (h' : Along step D s as) : Along step (fun s a => C s a ∧ D s a) s as := by
  induction as generalizing s with
  | nil => trivial
  | cons a as ih => exact ⟨⟨h.1, h'.1⟩, fun s' hs => ih (h.2 s' hs) (h'.2 s' hs)⟩

variable (step) in
/-- `Along` for a condition that can be evaluated. -/
def alongB (c : σ → α → Bool) : σ → List α → Bool
  | _, [] => true
  | s, a :: as => c s a && (step s a).all fun s' => alongB c s' as

theorem Along.of_alongB {c : σ → α → Bool} (hc : ∀ s a, c s a = true → C s a) {s : σ} {as : List α}
    (h : alongB step c s as = true) : Along step C s as := by
  induction as generalizing s with
  | nil => trivial
  | cons a as ih =>
      rw [alongB, Bool.and_eq_true] at h
      refine ⟨hc s a h.1, fun s' hs => ih ?_⟩
      have hall := h.2
      rwa [hs, Option.all_some] at hall

theorem Along.of_mem {P : α → Prop} {s : σ} {as : List α} (h : ∀ a ∈ as, P a) :
    Along step (fun _ a => P a) s as := by
  induction as generalizing s with
  | nil => trivial
  | cons a as ih =>
      exact ⟨h a List.mem_cons_self, fun _ _ => ih fun b hb => h b (List.mem_cons_of_mem _ hb)⟩

/-- A condition that follows from an invariant and another condition holds along a run. -/
theorem Along.of_inv {D : σ → α → Prop} {I : σ → Prop}
    (hstep : ∀ s a s', I s → C s a → step s a = some s' → I s')
    (hCD : ∀ s a, I s → C s a → D s a) {s : σ} {as : List α} (h₀ : I s) (h : Along step C s as) :
    Along step D s as := by
  induction as generalizing s with
  | nil => trivial
  | cons a as ih =>
      exact ⟨hCD s a h₀ h.1, fun s' hs => ih (hstep s a s' h₀ h.1 hs) (h.2 s' hs)⟩

/-- **Invariant rule**: what every step satisfying the condition preserves holds at the end of
every run whose steps all satisfy it. -/
theorem inv_of_along {I : σ → Prop}
    (hstep : ∀ s a s', I s → C s a → step s a = some s' → I s') {s t : σ} {as : List α}
    (h₀ : I s) (hC : Along step C s as) (hr : run step s as = some t) : I t := by
  induction as generalizing s with
  | nil => exact Option.some.inj hr ▸ h₀
  | cons a as ih =>
      obtain ⟨s', hs, hr'⟩ := run_cons_eq_some.mp hr
      exact ih (hstep s a s' h₀ hC.1 hs) (hC.2 s' hs) hr'

/-- The invariant rule for steps that need no condition. -/
theorem inv_of_run {I : σ → Prop} (hstep : ∀ s a s', I s → step s a = some s' → I s') {s t : σ}
    {as : List α} (h₀ : I s) (hr : run step s as = some t) : I t := by
  induction as generalizing s with
  | nil => exact Option.some.inj hr ▸ h₀
  | cons a as ih =>
      obtain ⟨s', hs, hr'⟩ := run_cons_eq_some.mp hr
      exact ih (hstep s a s' h₀ hs) hr'

end along

section always

variable {P : σ → Prop}

theorem Always.head {s : σ} {as : List α} (h : Always step P s as) : P s := by
  cases as with
  | nil => exact h
  | cons a as => exact h.1

/-- What holds in every state of a run holds at its end. -/
theorem Always.last {s t : σ} {as : List α} (h : Always step P s as) (hr : run step s as = some t) :
    P t := by
  induction as generalizing s with
  | nil => exact Option.some.inj hr ▸ h
  | cons a as ih =>
      obtain ⟨s', hs, hr'⟩ := run_cons_eq_some.mp hr
      exact ih (h.2 s' hs) hr'

/-- When a step from a good state leads to a good state exactly if it satisfies the condition,
the states of a run are all good exactly if its steps all satisfy it. -/
theorem always_iff_along {C : σ → α → Prop} {I : σ → Prop}
    (hI : ∀ s a s', I s → step s a = some s' → I s')
    (hP : ∀ s a, I s → P s → (C s a ↔ ∀ s', step s a = some s' → P s')) {s : σ} {as : List α}
    (h₀ : I s) (hs : P s) : Always step P s as ↔ Along step C s as := by
  induction as generalizing s with
  | nil => exact iff_of_true hs trivial
  | cons a as ih =>
      constructor
      · rintro ⟨-, h⟩
        refine ⟨(hP s a h₀ hs).mpr fun s' hs' => (h s' hs').head, fun s' hs' => ?_⟩
        exact (ih (hI s a s' h₀ hs') (h s' hs').head).mp (h s' hs')
      · rintro ⟨hC, h⟩
        refine ⟨hs, fun s' hs' => ?_⟩
        exact (ih (hI s a s' h₀ hs') ((hP s a h₀ hs).mp hC s' hs')).mpr (h s' hs')

end always

end Runs
