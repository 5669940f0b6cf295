import KajovoDagmar.Library.ReadCommitted

/-! # Transactions that skip locked rows

A statement `SELECT … FOR UPDATE SKIP LOCKED` passes over a row that another transaction owns.
A row that is free it sees as last committed, and takes it if that still qualifies.  Otherwise
transactions run as in `ReadCommitted`: a statement reads the last committed store, what a
transaction writes is published by its commit, and its locks are kept to its end.

The two kinds of invariants are the same, rows that are owned (`ReadCommitted.Held`) and
assertions about them.  Here a commit may change the store beyond the rows it owns, as long as
every row that is not its own is `kept`. -/

namespace SkipLocked

open ReadCommitted (State Event Held Asserted txn_goOn txn_acquire txn_release)

universe u v w

/-- A statement of a transaction over the lockable rows `κ`, the stores `σ` and the program
states `τ`. -/
inductive Stmt (κ : Type u) (σ : Type v) (τ : Type w) where
  /-- Take the row if it is free and qualifies as last committed, else pass over it. -/
  | take (k : κ) (qualifies : σ → Bool) (taken : σ → τ) (skipped : τ)
  | read (next : σ → τ)
  /-- Publish the writes; `none` rolls back. -/
  | commit (publish : σ → Option σ)

variable {κ : Type u} {σ : Type v} {τ : Type w} [DecidableEq κ]

section steps

variable (stmt : τ → Stmt κ σ τ) (initial : τ → Bool)

/-- The next statement of a transaction that is at `t`. -/
def execute (s : State κ σ τ) (i : ℕ) (t : τ) : State κ σ τ :=
  match stmt t with
  | .take k qualifies taken skipped =>
    if (s.owner k = none ∨ s.owner k = some i) ∧ qualifies s.store then s.acquire i k (taken s.store)
    else s.goOn i skipped
  | .read next => s.goOn i (next s.store)
  | .commit publish =>
    match publish s.store with
    | some store => { s with store := store }.release i
    | none => s.release i

/-- A transaction starts in an initial state under a free number. -/
def step (s : State κ σ τ) : Event τ → Option (State κ σ τ)
  | .start i t => if (s.txn i).isNone && initial t then some (s.goOn i t) else none
  | .exec i => (s.txn i).map (execute stmt s i)
  | .abort i => (s.txn i).map fun _ => s.release i

/-- What one step does. -/
inductive Moves (s : State κ σ τ) : Event τ → State κ σ τ → Prop where
  | start {i : ℕ} {t : τ} (hi : s.txn i = none) (ht : initial t = true) :
      Moves s (.start i t) (s.goOn i t)
  | take {i : ℕ} {t : τ} {k : κ} {qualifies : σ → Bool} {taken : σ → τ} {skipped : τ}
      (ht : s.txn i = some t) (hstmt : stmt t = .take k qualifies taken skipped)
      (hk : s.owner k = none ∨ s.owner k = some i) (hq : qualifies s.store = true) :
      Moves s (.exec i) (s.acquire i k (taken s.store))
  | skip {i : ℕ} {t : τ} {k : κ} {qualifies : σ → Bool} {taken : σ → τ} {skipped : τ}
      (ht : s.txn i = some t) (hstmt : stmt t = .take k qualifies taken skipped) :
      Moves s (.exec i) (s.goOn i skipped)
  | read {i : ℕ} {t : τ} {next : σ → τ} (ht : s.txn i = some t) (hstmt : stmt t = .read next) :
      Moves s (.exec i) (s.goOn i (next s.store))
  | commit {i : ℕ} {t : τ} {publish : σ → Option σ} {store : σ} (ht : s.txn i = some t)
      (hstmt : stmt t = .commit publish) (hstore : publish s.store = some store) :
      Moves s (.exec i) ({ s with store := store }.release i)
  | rollback {i : ℕ} {t : τ} {publish : σ → Option σ} (ht : s.txn i = some t)
      (hstmt : stmt t = .commit publish) (hstore : publish s.store = none) :
      Moves s (.exec i) (s.release i)
  | abort {i : ℕ} {t : τ} (ht : s.txn i = some t) : Moves s (.abort i) (s.release i)

variable {stmt initial}

theorem moves_of_step {s s' : State κ σ τ} {e : Event τ} (h : step stmt initial s e = some s') :
    Moves stmt initial s e s' := by
  cases e with
  | start i t =>
      simp only [step] at h
      split at h
      · next hs =>
        obtain rfl := Option.some.inj h
        rw [Bool.and_eq_true, Option.isNone_iff_eq_none] at hs
        exact .start hs.1 hs.2
      · simp at h
  | exec i =>
      obtain ⟨t, ht, rfl⟩ := Option.map_eq_some_iff.mp h
      unfold execute
      split
      · next k qualifies taken skipped hstmt =>
        split
        · next hk => exact .take ht hstmt hk.1 hk.2
        · exact .skip ht hstmt
      · next next hstmt => exact .read ht hstmt
      · next publish hstmt =>
        split
        · next store hstore => exact .commit ht hstmt hstore
        · next hstore => exact .rollback ht hstmt hstore
  | abort i =>
      obtain ⟨t, ht, rfl⟩ := Option.map_eq_some_iff.mp h
      exact .abort ht

end steps

section invariants

variable {stmt : τ → Stmt κ σ τ} {initial : τ → Bool} {holds : τ → κ → Prop} {L : σ → τ → Prop}

/-- `holds` is the row ownership of a program: nothing at its start, and what it has taken. -/
structure Discipline (stmt : τ → Stmt κ σ τ) (initial : τ → Bool) (holds : τ → κ → Prop) : Prop where
  start : ∀ {t k}, initial t = true → ¬holds t k
  take : ∀ {t k qualifies taken skipped store k'}, stmt t = .take k qualifies taken skipped →
    holds (taken store) k' → k' = k ∨ holds t k'
  skip : ∀ {t k qualifies taken skipped k'}, stmt t = .take k qualifies taken skipped →
    holds skipped k' → holds t k'
  read : ∀ {t next store k}, stmt t = .read next → holds (next store) k → holds t k

omit [DecidableEq κ] in
/-- A transaction that goes on owning nothing new. -/
theorem held_goOn {s : State κ σ τ} {i : ℕ} {t u : τ} (h : Held holds s) (ht : s.txn i = some t)
    (hu : ∀ k, holds u k → holds t k) : Held holds (s.goOn i u) := by
  intro j v k hj hk
  rcases txn_goOn hj with ⟨rfl, rfl⟩ | ⟨-, hj⟩
  · exact h j t k ht (hu k hk)
  · exact h j v k hj hk

/-- **Step lemma**: every step keeps the ownership of the rows. -/
theorem held_of_step (hd : Discipline stmt initial holds) {s s' : State κ σ τ} {e : Event τ}
    (h : Held holds s) (hs : step stmt initial s e = some s') : Held holds s' := by
  cases moves_of_step hs with
  | @start i t hi ht =>
      intro j u k hj hk
      rcases txn_goOn hj with ⟨rfl, rfl⟩ | ⟨-, hj⟩
      · exact absurd hk (hd.start ht)
      · exact h j u k hj hk
  | @take i t k qualifies taken skipped ht hstmt hfree hq =>
      intro j u k' hj hk'
      rcases txn_acquire hj with ⟨rfl, rfl⟩ | ⟨hne, hj⟩
      · by_cases hkk : k' = k
        · subst hkk
          simp [State.acquire]
        · have howner := h j t k' ht ((hd.take hstmt hk').resolve_left hkk)
          simp only [State.acquire, Function.update_of_ne hkk, howner]
      · have howner := h j u k' hj hk'
        have hkk : k' ≠ k := by
          rintro rfl
          rw [howner] at hfree
          rcases hfree with hfree | hfree
          · simp at hfree
          · exact hne (Option.some.inj hfree)
        simp only [State.acquire, Function.update_of_ne hkk, howner]
  | @skip i t k qualifies taken skipped ht hstmt => exact held_goOn h ht fun k' => hd.skip hstmt
  | @read i t next ht hstmt => exact held_goOn h ht fun k => hd.read hstmt
  | @commit i t publish store ht hstmt hstore =>
      have hsame : Held holds { s with store := store } := h
      exact hsame.release i
  | @rollback i t publish ht hstmt hstore => exact h.release i
  | @abort i t ht => exact h.release i

/-- The rows that a commit leaves are those that its transaction does not hold. -/
def Local (stmt : τ → Stmt κ σ τ) (holds : τ → κ → Prop) (kept : σ → σ → κ → Prop)
    (L : σ → τ → Prop) : Prop :=
  ∀ ⦃t publish store store' k⦄, stmt t = .commit publish → L store t →
    publish store = some store' → ¬holds t k → kept store store' k

/-- The assertion is about the rows that the transaction holds. -/
def Stable (holds : τ → κ → Prop) (kept : σ → σ → κ → Prop) (L : σ → τ → Prop) : Prop :=
  ∀ ⦃t store store'⦄, (∀ k, holds t k → kept store store' k) → L store t → L store' t

/-- An assertion that follows along the statements of the program. -/
structure Follows (stmt : τ → Stmt κ σ τ) (initial : τ → Bool) (L : σ → τ → Prop) : Prop where
  start : ∀ store t, initial t = true → L store t
  take : ∀ store t k qualifies taken skipped, stmt t = .take k qualifies taken skipped →
    qualifies store = true → L store t → L store (taken store)
  skip : ∀ store t k qualifies taken skipped, stmt t = .take k qualifies taken skipped →
    L store t → L store skipped
  read : ∀ store t next, stmt t = .read next → L store t → L store (next store)

omit [DecidableEq κ] in
theorem asserted_goOn {s : State κ σ τ} {i : ℕ} {t : τ} (h : Asserted L s) (ht : L s.store t) :
    Asserted L (s.goOn i t) := by
  intro j u hj
  rcases txn_goOn hj with ⟨rfl, rfl⟩ | ⟨-, hj⟩
  · exact ht
  · exact h j u hj

/-- **Step lemma**: an assertion about held rows that follows along the own statements is safe from
the commits of others. -/
theorem asserted_of_step {kept : σ → σ → κ → Prop} {s s' : State κ σ τ} {e : Event τ}
    (hlocal : ∀ i t publish store k, s.txn i = some t → stmt t = .commit publish →
      publish s.store = some store → ¬holds t k → kept s.store store k)
    (hstable : Stable holds kept L) (hfollows : Follows stmt initial L) (hheld : Held holds s)
    (h : Asserted L s) (hs : step stmt initial s e = some s') : Asserted L s' := by
  cases moves_of_step hs with
  | @start i t hi ht => exact asserted_goOn h (hfollows.start _ _ ht)
  | @take i t k qualifies taken skipped ht hstmt hfree hq =>
      have hL := hfollows.take _ _ _ _ _ _ hstmt hq (h i t ht)
      exact asserted_goOn h hL
  | @skip i t k qualifies taken skipped ht hstmt =>
      exact asserted_goOn h (hfollows.skip _ _ _ _ _ _ hstmt (h i t ht))
  | @read i t next ht hstmt => exact asserted_goOn h (hfollows.read _ _ _ hstmt (h i t ht))
  | @commit i t publish store ht hstmt hstore =>
      intro j u hj
      obtain ⟨hne, hj⟩ := txn_release hj
      refine hstable (fun k hk => hlocal i t publish store k ht hstmt hstore fun hik => ?_) (h j u hj)
      exact hne (hheld.unique hj ht hk hik)
  | @rollback i t publish ht hstmt hstore =>
      intro j u hj
      exact h j u (txn_release hj).2
  | @abort i t ht =>
      intro j u hj
      exact h j u (txn_release hj).2

/-- The committed store changes only at a commit. -/
theorem store_eq_or_commit {s s' : State κ σ τ} {e : Event τ} (hs : step stmt initial s e = some s') :
    s'.store = s.store ∨ ∃ i t publish, s.txn i = some t ∧ stmt t = .commit publish ∧
      publish s.store = some s'.store := by
  cases moves_of_step hs with
  | start hi ht => exact .inl rfl
  | take ht hstmt hk hq => exact .inl rfl
  | skip ht hstmt => exact .inl rfl
  | read ht hstmt => exact .inl rfl
  | @commit i t publish store ht hstmt hstore => exact .inr ⟨i, t, publish, ht, hstmt, hstore⟩
  | rollback ht hstmt hstore => exact .inl rfl
  | abort ht => exact .inl rfl

/-- The rows that a run owns, what its transactions know, and what holds of the committed store. -/
structure Inv (holds : τ → κ → Prop) (L : σ → τ → Prop) (I : σ → Prop) (s : State κ σ τ) : Prop where
  held : Held holds s
  knows : Asserted L s
  store : I s.store

/-- **Run lemma**: an invariant of the store that every commit keeps, given what its transaction
knows.  What a commit leaves may rest on the invariant too. -/
theorem inv_of_run_of_kept {kept : σ → σ → κ → Prop} {I : σ → Prop} (hd : Discipline stmt initial holds)
    (hlocal : ∀ t publish store store' k, stmt t = .commit publish → L store t → I store →
      publish store = some store' → ¬holds t k → kept store store' k)
    (hstable : Stable holds kept L) (hfollows : Follows stmt initial L)
    (hcommit : ∀ t publish store store', stmt t = .commit publish → L store t → I store →
      publish store = some store' → I store') {s t : State κ σ τ} {es : List (Event τ)}
    (h₀ : Inv holds L I s) (hrun : Runs.run (step stmt initial) s es = some t) : Inv holds L I t := by
  refine Runs.inv_of_run (fun s e s' h hs => ?_) h₀ hrun
  have hkept : ∀ i t publish store k, s.txn i = some t → stmt t = .commit publish →
      publish s.store = some store → ¬holds t k → kept s.store store k :=
    fun i t publish store k ht hstmt hstore hnot =>
      hlocal t publish s.store store k hstmt (h.knows i t ht) h.store hstore hnot
  refine ⟨held_of_step hd h.held hs, asserted_of_step hkept hstable hfollows h.held h.knows hs, ?_⟩
  rcases store_eq_or_commit hs with hsame | ⟨i, u, publish, hu, hstmt, hstore⟩
  · rw [hsame]
    exact h.store
  · exact hcommit u publish s.store s'.store hstmt (h.knows i u hu) h.store hstore

/-- **Run lemma**: the same, where a commit leaves the rows of the others in any store. -/
theorem inv_of_run {kept : σ → σ → κ → Prop} {I : σ → Prop} (hd : Discipline stmt initial holds)
    (hlocal : Local stmt holds kept L) (hstable : Stable holds kept L) (hfollows : Follows stmt initial L)
    (hcommit : ∀ t publish store store', stmt t = .commit publish → L store t → I store →
      publish store = some store' → I store') {s t : State κ σ τ} {es : List (Event τ)}
    (h₀ : Inv holds L I s) (hrun : Runs.run (step stmt initial) s es = some t) : Inv holds L I t :=
  inv_of_run_of_kept (L := L) (I := I) hd
    (fun _ _ _ _ _ hstmt hL _ hstore hnot => hlocal hstmt hL hstore hnot) hstable hfollows hcommit h₀ hrun

end invariants

end SkipLocked
