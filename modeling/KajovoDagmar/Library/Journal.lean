import KajovoDagmar.Library.Runs

/-! # Runs with a journal

Someone who watches a system notes something after each of its steps, from what was before and what is
there now.  The journal does not change what the system does. -/

namespace Runs

universe u v w

variable {σ : Type u} {α : Type v} {ν : Type w}

/-- A state of the system with the notes so far. -/
structure Watched (σ : Type u) (ν : Type w) where
  state : σ
  notes : ν

/-- A step that is watched. -/
def watch (step : σ → α → Option σ) (note : σ → α → σ → ν → ν) (x : Watched σ ν) (a : α) :
    Option (Watched σ ν) :=
  (step x.state a).map fun s => ⟨s, note x.state a s x.notes⟩

variable {step : σ → α → Option σ} {note : σ → α → σ → ν → ν}

theorem watch_eq_some {x y : Watched σ ν} {a : α} :
    watch step note x a = some y ↔
      step x.state a = some y.state ∧ y.notes = note x.state a y.state x.notes := by
  unfold watch
  rw [Option.map_eq_some_iff]
  constructor
  · rintro ⟨s, hs, rfl⟩
    exact ⟨hs, rfl⟩
  · rintro ⟨hs, hnotes⟩
    exact ⟨y.state, hs, by rw [← hnotes]⟩

/-- **Invariants of the journal**: an invariant of the system that holds along the run may be used. -/
theorem watch_inv {C : σ → α → Prop} {I : σ → Prop} {J : σ → ν → Prop}
    (hI : ∀ s a s', I s → C s a → step s a = some s' → I s')
    (hJ : ∀ s a s' n, I s → J s n → C s a → step s a = some s' → J s' (note s a s' n))
    {x y : Watched σ ν} {as : List α} (h₀ : I x.state) (h₁ : J x.state x.notes)
    (hC : Along (watch step note) (fun x a => C x.state a) x as)
    (hrun : run (watch step note) x as = some y) : I y.state ∧ J y.state y.notes := by
  refine inv_of_along (I := fun x => I x.state ∧ J x.state x.notes) ?_ ⟨h₀, h₁⟩ hC hrun
  rintro x a y ⟨hx, hnotes⟩ hCx hstep
  obtain ⟨hs, hy⟩ := watch_eq_some.mp hstep
  exact ⟨hI _ _ _ hx hCx hs, hy ▸ hJ _ _ _ _ hx hnotes hCx hs⟩

end Runs
