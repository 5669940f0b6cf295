import Mathlib.Order.Defs.PartialOrder
import Mathlib.Data.Nat.Notation

/-! # Custody

Things are held by custodians, and a thing is held by one custodian at most.  A step that only takes things out
of custody, or that hands one thing over to one custodian, keeps that (`Single.sub`, `Single.hand`). -/

namespace Custody

variable {κ σ : Type*}

/-- No thing has two custodians. -/
def Single (H : κ → σ → Prop) : Prop := ∀ k k' s, H k s → H k' s → k = k'

variable {H H' : κ → σ → Prop}

theorem Single.sub (h : Single H) (hsub : ∀ k s, H' k s → H k s) : Single H' :=
  fun k k' s hk hk' => h k k' s (hsub k s hk) (hsub k' s hk')

/-- **A thing is handed over**: whoever else holds something held it before, and it is another thing. -/
theorem Single.hand (h : Single H) {custodian : κ} {thing : σ}
    (hstep : ∀ k s, H' k s → k = custodian ∧ s = thing ∨ H k s ∧ s ≠ thing) : Single H' := by
  intro k k' s hk hk'
  rcases hstep k s hk with ⟨rfl, rfl⟩ | ⟨hold, hne⟩
  · rcases hstep k' s hk' with ⟨rfl, -⟩ | ⟨-, hne'⟩
    · rfl
    · exact absurd rfl hne'
  · rcases hstep k' s hk' with ⟨-, rfl⟩ | ⟨hold', -⟩
    · exact absurd rfl hne
    · exact h k k' s hold hold'

end Custody
