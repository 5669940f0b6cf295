import KajovoDagmar.Library.ReadCommitted
import Mathlib.Data.Int.Notation

/-! # Observed runs

An observer of a system reads a clock at some of its steps and records some of them in a log.  The clock does not
run backwards: a step whose reading is earlier than the last one does not happen.  Everything else that an observed
step does is a step of the system (`observe_eq_some`).  Transactions are observed at their statements
(`ReadCommitted.observer`). -/

universe u v w

/-- What is observed at a step: the reading of the clock, and the entries of the log. -/
structure Observer (σ : Type u) (ε : Type v) (ρ : Type w) where
  reading : σ → ε → Option ℤ
  record : σ → ε → List ρ

/-- A state of the system with the last reading of the clock and the log so far. -/
structure Observed (σ : Type u) (ρ : Type w) where
  state : σ
  clock : ℤ
  log : List ρ

namespace Observer

variable {σ : Type u} {ε : Type v} {ρ : Type w} (o : Observer σ ε ρ) (step : σ → ε → Option σ)

/-- An observed step. -/
def observe (w : Observed σ ρ) (e : ε) : Option (Observed σ ρ) :=
  if (o.reading w.state e).all fun now => w.clock ≤ now then
    (step w.state e).map fun s =>
      { state := s, clock := (o.reading w.state e).getD w.clock, log := w.log ++ o.record w.state e }
  else none

variable {o step}

/-- What an observed step does. -/
theorem observe_eq_some {w w' : Observed σ ρ} {e : ε} (h : o.observe step w e = some w') :
    step w.state e = some w'.state ∧ w.clock ≤ w'.clock ∧ (∀ now, o.reading w.state e = some now → w'.clock = now) ∧
      w'.log = w.log ++ o.record w.state e := by
  unfold observe at h
  split at h
  · next hclock =>
    obtain ⟨s, hs, rfl⟩ := Option.map_eq_some_iff.mp h
    refine ⟨hs, ?_, ?_, rfl⟩
    · cases hreading : o.reading w.state e with
      | none => simp
      | some now => simpa [hreading] using hclock
    · intro now hnow
      simp [hnow]
  · cases h

/-- A step without a reading is a step of the system, and the clock stands still. -/
theorem observe_of_silent {w : Observed σ ρ} {e : ε} (hreading : o.reading w.state e = none) {s : σ}
    (hstep : step w.state e = some s) : o.observe step w e = some ⟨s, w.clock, w.log ++ o.record w.state e⟩ := by
  simp [observe, hreading, hstep]

end Observer

namespace ReadCommitted

variable {κ : Type u} {σ : Type v} {τ : Type w} {ρ : Type u}

/-- What is observed of the statements that transactions execute. -/
def observer (reading : σ → τ → Option ℤ) (record : σ → τ → List ρ) : Observer (State κ σ τ) (Event τ) ρ where
  reading s
    | .exec i => (s.txn i).bind (reading s.store)
    | _ => none
  record s
    | .exec i => (s.txn i).elim [] (record s.store)
    | _ => []

/-- The record of commits: a transaction that commits leaves its entries, and nothing else leaves any. -/
def commits (stmt : τ → Stmt κ σ τ) (entries : τ → List ρ) (store : σ) (t : τ) : List ρ :=
  match stmt t with
  | .commit publish => if (publish store).isSome then entries t else []
  | _ => []

variable {reading : σ → τ → Option ℤ} {record : σ → τ → List ρ} {s : State κ σ τ} {i : ℕ} {t : τ}

theorem observer_reading (ht : s.txn i = some t) :
    (observer reading record).reading s (.exec i) = reading s.store t := by
  simp [observer, ht]

theorem observer_record (ht : s.txn i = some t) :
    (observer reading record).record s (.exec i) = record s.store t := by
  simp [observer, ht]

/-- A step leaves no entries and keeps the store, or it is the commit of a transaction that leaves its entries. -/
theorem record_or_commit [DecidableEq κ] {stmt : τ → Stmt κ σ τ} {initial : τ → Bool}
    (reading : σ → τ → Option ℤ) (entries : τ → List ρ) {s' : State κ σ τ} {e : Event τ}
    (h : step stmt initial s e = some s') :
    ((observer reading (commits stmt entries)).record s e = [] ∧ s'.store = s.store) ∨
      ∃ i t publish, s.txn i = some t ∧ stmt t = .commit publish ∧ publish s.store = some s'.store ∧
        (observer reading (commits stmt entries)).record s e = entries t := by
  cases moves_of_step h with
  | start hi ht => exact .inl ⟨rfl, rfl⟩
  | lock ht hstmt hk =>
      refine .inl ⟨(observer_record ht).trans ?_, rfl⟩
      unfold commits
      rw [hstmt]
  | read ht hstmt =>
      refine .inl ⟨(observer_record ht).trans ?_, rfl⟩
      unfold commits
      rw [hstmt]
  | @commit i t publish store ht hstmt hstore =>
      refine .inr ⟨i, t, publish, ht, hstmt, hstore, (observer_record ht).trans ?_⟩
      unfold commits
      rw [hstmt]
      exact if_pos (by rw [hstore]; rfl)
  | rollback ht hstmt hstore =>
      refine .inl ⟨(observer_record ht).trans ?_, rfl⟩
      unfold commits
      rw [hstmt]
      exact if_neg (by rw [hstore]; exact Bool.false_ne_true)
  | abort ht => exact .inl ⟨rfl, rfl⟩

end ReadCommitted
