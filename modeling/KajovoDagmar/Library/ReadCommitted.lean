import KajovoDagmar.Library.Runs
import Mathlib.Logic.Function.Basic

/-! # Transactions under READ COMMITTED

A transaction is a program whose state `t : τ` names its next statement.  A statement reads
the last committed store, and what a transaction has written itself is part of its state until
its commit publishes it.  A locking statement (`SELECT … FOR UPDATE`, or the row lock that an
`UPDATE` takes) waits until no other transaction owns the row and then sees the row as last
committed; locks are kept to the end of the transaction.  Transactions run interleaved, in any
order, and each of them may be aborted at any time.

`Moves` says everything that one step can do.  `Held` and `Asserted` are the two kinds of
invariants that a proof about interleavings rests on: which rows a transaction owns at which
point of its program, and what it knows there about the committed store. -/

namespace ReadCommitted

universe u v w

/-- A statement of a transaction over the lockable rows `κ`, the stores `σ` and the program
states `τ`. -/
inductive Stmt (κ : Type u) (σ : Type v) (τ : Type w) where
  /-- Wait for the row, then go on with the store as last committed. -/
  | lock (k : κ) (next : σ → τ)
  | read (next : σ → τ)
  /-- Publish the writes; `none` is a violated constraint, which rolls back. -/
  | commit (publish : σ → Option σ)

/-- A statement of a program that is part of another one. -/
def Stmt.map {κ : Type u} {σ : Type v} {τ ρ : Type w} (f : τ → ρ) : Stmt κ σ τ → Stmt κ σ ρ
  | .lock k next => .lock k fun store => f (next store)
  | .read next => .read fun store => f (next store)
  | .commit publish => .commit publish

/-- The committed store, the owner of every row and the transactions in flight. -/
structure State (κ : Type u) (σ : Type v) (τ : Type w) where
  store : σ
  owner : κ → Option ℕ
  txn : ℕ → Option τ

inductive Event (τ : Type w) where
  | start (i : ℕ) (t : τ)
  | exec (i : ℕ)
  | abort (i : ℕ)

variable {κ : Type u} {σ : Type v} {τ : Type w}

/-- No transaction is in flight. -/
def State.Quiet (s : State κ σ τ) : Prop := ∀ i, s.txn i = none

/-- The end of a transaction: it is gone and its rows are free. -/
def State.release (s : State κ σ τ) (i : ℕ) : State κ σ τ :=
  { s with
    owner := fun k => if s.owner k = some i then none else s.owner k
    txn := Function.update s.txn i none }

variable [DecidableEq κ]

/-- The transaction goes on as `t`, owning the row `k`. -/
def State.acquire (s : State κ σ τ) (i : ℕ) (k : κ) (t : τ) : State κ σ τ :=
  { s with
    owner := Function.update s.owner k (some i)
    txn := Function.update s.txn i (some t) }

omit [DecidableEq κ] in
/-- The transaction goes on as `t`. -/
def State.goOn (s : State κ σ τ) (i : ℕ) (t : τ) : State κ σ τ :=
  { s with txn := Function.update s.txn i (some t) }

section steps

variable (stmt : τ → Stmt κ σ τ) (initial : τ → Bool)

/-- The next statement of a transaction that is at `t`. -/
def execute (s : State κ σ τ) (i : ℕ) (t : τ) : Option (State κ σ τ) :=
  match stmt t with
  | .lock k next =>
    if s.owner k = none ∨ s.owner k = some i then some (s.acquire i k (next s.store)) else none
  | .read next => some (s.goOn i (next s.store))
  | .commit publish =>
    match publish s.store with
    | some store => some ({ s with store := store }.release i)
    | none => some (s.release i)

/-- A transaction starts in an initial state under a free number. -/
def step (s : State κ σ τ) : Event τ → Option (State κ σ τ)
  | .start i t => if (s.txn i).isNone && initial t then some (s.goOn i t) else none
  | .exec i => (s.txn i).bind (execute stmt s i)
  | .abort i => (s.txn i).map fun _ => s.release i

/-- What one step does. -/
inductive Moves (s : State κ σ τ) : Event τ → State κ σ τ → Prop where
  | start {i : ℕ} {t : τ} (hi : s.txn i = none) (ht : initial t = true) :
      Moves s (.start i t) (s.goOn i t)
  | lock {i : ℕ} {t : τ} {k : κ} {next : σ → τ} (ht : s.txn i = some t)
      (hstmt : stmt t = .lock k next) (hk : s.owner k = none ∨ s.owner k = some i) :
      Moves s (.exec i) (s.acquire i k (next s.store))
  | read {i : ℕ} {t : τ} {next : σ → τ} (ht : s.txn i = some t) (hstmt : stmt t = .read next) :
      Moves s (.exec i) (s.goOn i (next s.store))
  | commit {i : ℕ} {t : τ} {publish : σ → Option σ} {store : σ} (ht : s.txn i = some t)
      (hstmt : stmt t = .commit publish) (hstore : publish s.store = some store) :
      Moves s (.exec i) ({ s with store := store }.release i)
  | rollback {i : ℕ} {t : τ} {publish : σ → Option σ} (ht : s.txn i = some t)
      (hstmt : stmt t = .commit publish) (hstore : publish s.store = none) :
      Moves s (.exec i) (s.release i)
  | abort {i : ℕ} {t : τ} (ht : s.txn i = some t) : Moves s (.abort i) (s.release i)

variable {stmt initial}

theorem moves_of_step {s s' : State κ σ τ} {e : Event τ} (h : step stmt initial s e = some s') :
    Moves stmt initial s e s' := by
  cases e with
  | start i t =>
      simp only [step] at h
      split at h
      · next hs =>
        obtain rfl := Option.some.inj h
        rw [Bool.and_eq_true, Option.isNone_iff_eq_none] at hs
        exact .start hs.1 hs.2
      · simp at h
  | exec i =>
      obtain ⟨t, ht, h⟩ := Option.bind_eq_some_iff.mp h
      unfold execute at h
      split at h
      · next k next hstmt =>
        split at h
        · next hk =>
          obtain rfl := Option.some.inj h
          exact .lock ht hstmt hk
        · simp at h
      · next next hstmt =>
        obtain rfl := Option.some.inj h
        exact .read ht hstmt
      · next publish hstmt =>
        split at h
        · next store hstore =>
          obtain rfl := Option.some.inj h
          exact .commit ht hstmt hstore
        · next hstore =>
          obtain rfl := Option.some.inj h
          exact .rollback ht hstmt hstore
  | abort i =>
      obtain ⟨t, ht, rfl⟩ := Option.map_eq_some_iff.mp h
      exact .abort ht

end steps

/-! ### The transactions after a step -/

section frame

variable {s : State κ σ τ} {i j : ℕ} {t u : τ} {k : κ}

omit [DecidableEq κ] in
theorem txn_goOn (h : (s.goOn i t).txn j = some u) :
    (j = i ∧ u = t) ∨ (j ≠ i ∧ s.txn j = some u) := by
  by_cases hj : j = i
  · subst hj
    simp only [State.goOn, Function.update_self, Option.some.injEq] at h
    exact .inl ⟨rfl, h.symm⟩
  · simp only [State.goOn, Function.update_of_ne hj] at h
    exact .inr ⟨hj, h⟩

theorem txn_acquire (h : (s.acquire i k t).txn j = some u) :
    (j = i ∧ u = t) ∨ (j ≠ i ∧ s.txn j = some u) :=
  txn_goOn (s := s) h

omit [DecidableEq κ] in
theorem txn_release (h : (s.release i).txn j = some u) : j ≠ i ∧ s.txn j = some u := by
  by_cases hj : j = i
  · subst hj
    simp [State.release] at h
  · simp only [State.release, Function.update_of_ne hj] at h
    exact ⟨hj, h⟩

end frame

/-! ### Locks -/

section locks

variable {stmt : τ → Stmt κ σ τ} {initial : τ → Bool} {holds : τ → κ → Prop}

/-- `holds` is the row ownership of a program: nothing at its start, and what its locking
statements have taken. -/
structure Discipline (stmt : τ → Stmt κ σ τ) (initial : τ → Bool) (holds : τ → κ → Prop) : Prop where
  start : ∀ {t k}, initial t = true → ¬holds t k
  lock : ∀ {t k next store k'}, stmt t = .lock k next → holds (next store) k' → k' = k ∨ holds t k'
  read : ∀ {t next store k}, stmt t = .read next → holds (next store) k → holds t k

/-- Every transaction in flight owns the rows that it holds at its point of the program. -/
def Held (holds : τ → κ → Prop) (s : State κ σ τ) : Prop :=
  ∀ i t k, s.txn i = some t → holds t k → s.owner k = some i

omit [DecidableEq κ] in
/-- **Exclusion**: two transactions that hold one row are one transaction. -/
theorem Held.unique {s : State κ σ τ} (h : Held holds s) {i j : ℕ} {t u : τ} {k : κ}
    (hi : s.txn i = some t) (hj : s.txn j = some u) (hti : holds t k) (huj : holds u k) : i = j :=
  Option.some.inj ((h i t k hi hti).symm.trans (h j u k hj huj))

omit [DecidableEq κ] in
theorem Held.of_quiet {s : State κ σ τ} (h : s.Quiet) : Held holds s := by
  intro i t k ht
  rw [h i] at ht
  simp at ht

omit [DecidableEq κ] in
theorem Held.release {s : State κ σ τ} (h : Held holds s) (i : ℕ) : Held holds (s.release i) := by
  intro j u k hj hk
  obtain ⟨hne, hj⟩ := txn_release hj
  have howner := h j u k hj hk
  have hnot : s.owner k ≠ some i := by
    rw [howner]
    simpa using hne
  exact (if_neg hnot).trans howner

/-- **Step lemma**: every step keeps the ownership of the rows. -/
theorem Held.of_step (hd : Discipline stmt initial holds) {s s' : State κ σ τ} {e : Event τ}
    (h : Held holds s) (hs : step stmt initial s e = some s') : Held holds s' := by
  cases moves_of_step hs with
  | @start i t hi ht =>
      intro j u k hj hk
      rcases txn_goOn hj with ⟨rfl, rfl⟩ | ⟨-, hj⟩
      · exact absurd hk (hd.start ht)
      · exact h j u k hj hk
  | @lock i t k next ht hstmt hfree =>
      intro j u k' hj hk'
      rcases txn_acquire hj with ⟨rfl, rfl⟩ | ⟨hne, hj⟩
      · by_cases hkk : k' = k
        · subst hkk
          simp [State.acquire]
        · have howner := h j t k' ht ((hd.lock hstmt hk').resolve_left hkk)
          simp only [State.acquire, Function.update_of_ne hkk, howner]
      · have howner := h j u k' hj hk'
        have hkk : k' ≠ k := by
          rintro rfl
          rw [howner] at hfree
          rcases hfree with hfree | hfree
          · simp at hfree
          · exact hne (Option.some.inj hfree)
        simp only [State.acquire, Function.update_of_ne hkk, howner]
  | @read i t next ht hstmt =>
      intro j u k hj hk
      rcases txn_goOn hj with ⟨rfl, rfl⟩ | ⟨-, hj⟩
      · exact h j t k ht (hd.read hstmt hk)
      · exact h j u k hj hk
  | @commit i t publish store ht hstmt hstore =>
      have hsame : Held holds { s with store := store } := h
      exact hsame.release i
  | @rollback i t publish ht hstmt hstore => exact h.release i
  | @abort i t ht => exact h.release i

end locks

/-! ### Assertions -/

section assertions

variable {stmt : τ → Stmt κ σ τ} {initial : τ → Bool} {L : σ → τ → Prop}

/-- Every transaction in flight knows about the committed store what `L` asserts at its point
of the program. -/
def Asserted (L : σ → τ → Prop) (s : State κ σ τ) : Prop := ∀ i t, s.txn i = some t → L s.store t

omit [DecidableEq κ] in
theorem Asserted.of_quiet {s : State κ σ τ} (h : s.Quiet) : Asserted L s := by
  intro i t ht
  rw [h i] at ht
  simp at ht

/-- **Step lemma**: an assertion is kept when it holds at the start, follows along the own
statement of the transaction that moves, and survives the commit of another. -/
theorem Asserted.of_exec (hstart : ∀ store t, initial t = true → L store t)
    {s s' : State κ σ τ} {e : Event τ}
    (hlock : ∀ i t k next, e = .exec i → s.txn i = some t → stmt t = .lock k next →
      L s.store t → L s.store (next s.store))
    (hread : ∀ i t next, e = .exec i → s.txn i = some t → stmt t = .read next →
      L s.store t → L s.store (next s.store))
    (hcommit : ∀ i t publish store, e = .exec i → s.txn i = some t → stmt t = .commit publish →
      publish s.store = some store → ∀ j u, j ≠ i → s.txn j = some u → L s.store u → L store u)
    (h : Asserted L s) (hs : step stmt initial s e = some s') : Asserted L s' := by
  cases moves_of_step hs with
  | @start i t hi ht =>
      intro j u hj
      rcases txn_goOn hj with ⟨rfl, rfl⟩ | ⟨-, hj⟩
      · exact hstart _ _ ht
      · exact h j u hj
  | @lock i t k next ht hstmt hfree =>
      intro j u hj
      rcases txn_acquire hj with ⟨rfl, rfl⟩ | ⟨-, hj⟩
      · exact hlock j t k next rfl ht hstmt (h j t ht)
      · exact h j u hj
  | @read i t next ht hstmt =>
      intro j u hj
      rcases txn_goOn hj with ⟨rfl, rfl⟩ | ⟨-, hj⟩
      · exact hread j t next rfl ht hstmt (h j t ht)
      · exact h j u hj
  | @commit i t publish store ht hstmt hstore =>
      intro j u hj
      obtain ⟨hne, hj⟩ := txn_release hj
      exact hcommit i t publish store rfl ht hstmt hstore j u hne hj (h j u hj)
  | @rollback i t publish ht hstmt hstore =>
      intro j u hj
      exact h j u (txn_release hj).2
  | @abort i t ht =>
      intro j u hj
      exact h j u (txn_release hj).2

/-- The step lemma for an assertion that follows along every statement. -/
theorem Asserted.of_step (hstart : ∀ store t, initial t = true → L store t)
    (hlock : ∀ store t k next, stmt t = .lock k next → L store t → L store (next store))
    (hread : ∀ store t next, stmt t = .read next → L store t → L store (next store))
    {s s' : State κ σ τ} {e : Event τ}
    (hcommit : ∀ i t publish store, e = .exec i → s.txn i = some t → stmt t = .commit publish →
      publish s.store = some store → ∀ j u, j ≠ i → s.txn j = some u → L s.store u → L store u)
    (h : Asserted L s) (hs : step stmt initial s e = some s') : Asserted L s' :=
  h.of_exec hstart (fun _ t k next _ _ => hlock s.store t k next)
    (fun _ t next _ _ => hread s.store t next) hcommit hs

end assertions

/-! ### Parts of programs -/

section parts

variable {ρ : Type w} {f : τ → ρ} {st : Stmt κ σ τ}

omit [DecidableEq κ] in
theorem Stmt.map_eq_lock {k : κ} {next : σ → ρ} (h : st.map f = .lock k next) :
    ∃ next', st = .lock k next' ∧ next = fun store => f (next' store) := by
  cases st with
  | lock k' next' =>
      obtain ⟨rfl, rfl⟩ := Stmt.lock.inj h
      exact ⟨next', rfl, rfl⟩
  | read next' => simp [Stmt.map] at h
  | commit publish => simp [Stmt.map] at h

omit [DecidableEq κ] in
theorem Stmt.map_eq_read {next : σ → ρ} (h : st.map f = .read next) :
    ∃ next', st = .read next' ∧ next = fun store => f (next' store) := by
  cases st with
  | lock k' next' => simp [Stmt.map] at h
  | read next' =>
      obtain rfl := Stmt.read.inj h
      exact ⟨next', rfl, rfl⟩
  | commit publish => simp [Stmt.map] at h

omit [DecidableEq κ] in
theorem Stmt.map_eq_commit {publish : σ → Option σ} (h : st.map f = .commit publish) :
    st = .commit publish := by
  cases st with
  | lock k' next' => simp [Stmt.map] at h
  | read next' => simp [Stmt.map] at h
  | commit publish' =>
      obtain rfl := Stmt.commit.inj h
      rfl

end parts

/-! ### Frames -/

/-- The number of the transaction that an event is about. -/
def Event.index : Event τ → ℕ
  | .start i _ => i
  | .exec i => i
  | .abort i => i

/-- A step leaves the other transactions. -/
theorem txn_of_step {stmt : τ → Stmt κ σ τ} {initial : τ → Bool} {s s' : State κ σ τ} {e : Event τ}
    {j : ℕ} (hj : e.index ≠ j) (hs : step stmt initial s e = some s') : s'.txn j = s.txn j := by
  cases moves_of_step hs with
  | start hi ht => exact Function.update_of_ne hj.symm _ _
  | lock ht hstmt hk => exact Function.update_of_ne hj.symm _ _
  | read ht hstmt => exact Function.update_of_ne hj.symm _ _
  | commit ht hstmt hstore => exact Function.update_of_ne hj.symm _ _
  | rollback ht hstmt hstore => exact Function.update_of_ne hj.symm _ _
  | abort ht => exact Function.update_of_ne hj.symm _ _

theorem txn_of_run {stmt : τ → Stmt κ σ τ} {initial : τ → Bool} {s t : State κ σ τ}
    {es : List (Event τ)} {j : ℕ} (hj : ∀ e ∈ es, e.index ≠ j)
    (hr : Runs.run (step stmt initial) s es = some t) : t.txn j = s.txn j := by
  induction es generalizing s with
  | nil => rw [← Option.some.inj hr]
  | cons e es ih =>
      obtain ⟨s', hs, hr'⟩ := Runs.run_cons_eq_some.mp hr
      rw [ih (fun e he => hj e (List.mem_cons_of_mem _ he)) hr',
        txn_of_step (hj e List.mem_cons_self) hs]

/-! ### The committed store -/

/-- The committed store changes only at a commit. -/
theorem store_eq_or_commit {stmt : τ → Stmt κ σ τ} {initial : τ → Bool} {s s' : State κ σ τ}
    {e : Event τ} (hs : step stmt initial s e = some s') :
    s'.store = s.store ∨ ∃ i t publish, e = .exec i ∧ s.txn i = some t ∧
      stmt t = .commit publish ∧ publish s.store = some s'.store := by
  cases moves_of_step hs with
  | start hi ht => exact .inl rfl
  | lock ht hstmt hk => exact .inl rfl
  | read ht hstmt => exact .inl rfl
  | @commit i t publish store ht hstmt hstore => exact .inr ⟨i, t, publish, rfl, ht, hstmt, hstore⟩
  | rollback ht hstmt hstore => exact .inl rfl
  | abort ht => exact .inl rfl

/-! ### Local programs

A program is local when its commits change only rows that it holds.  What a transaction knows
about the rows that it holds is then safe from the others. -/

section locality

universe x

variable {ρ : Type x} {stmt : τ → Stmt κ σ τ} {initial : τ → Bool} {holds : τ → κ → Prop}
  {row : σ → κ → ρ} {L : σ → τ → Prop}

/-- A commit leaves the rows that its transaction does not hold. -/
def Local (stmt : τ → Stmt κ σ τ) (holds : τ → κ → Prop) (row : σ → κ → ρ) (L : σ → τ → Prop) :
    Prop :=
  ∀ ⦃t publish store store' k⦄, stmt t = .commit publish → L store t →
    publish store = some store' → ¬holds t k → row store' k = row store k

/-- The assertion is about the rows that the transaction holds. -/
def Stable (holds : τ → κ → Prop) (row : σ → κ → ρ) (L : σ → τ → Prop) : Prop :=
  ∀ ⦃t store store'⦄, (∀ k, holds t k → row store' k = row store k) → L store t → L store' t

/-- **Step lemma**: an assertion about held rows follows along the own statements alone. -/
theorem Asserted.of_local (hlocal : Local stmt holds row L) (hstable : Stable holds row L)
    (hstart : ∀ store t, initial t = true → L store t)
    (hlock : ∀ store t k next, stmt t = .lock k next → L store t → L store (next store))
    (hread : ∀ store t next, stmt t = .read next → L store t → L store (next store))
    {s s' : State κ σ τ} {e : Event τ} (hheld : Held holds s) (h : Asserted L s)
    (hs : step stmt initial s e = some s') : Asserted L s' := by
  refine h.of_step hstart hlock hread ?_ hs
  intro i t publish store _ ht hstmt hstore j u hne hj hu
  refine hstable (fun k hk => ?_) hu
  refine hlocal hstmt (h i t ht) hstore fun hik => ?_
  exact hne (hheld.unique hj ht hk hik)

/-- **Step lemma**: a row in a state in which no transaction commits while it holds the row
stays as it is. -/
theorem row_of_step {F : ρ → Prop} (hlocal : Local stmt holds row L)
    (hopen : ∀ t publish store k, stmt t = .commit publish → L store t → holds t k →
      ¬F (row store k)) {s s' : State κ σ τ} {e : Event τ} (h : Asserted L s)
    (hs : step stmt initial s e = some s') {k : κ} (hk : F (row s.store k)) :
    row s'.store k = row s.store k := by
  rcases store_eq_or_commit hs with hsame | ⟨i, t, publish, -, ht, hstmt, hstore⟩
  · rw [hsame]
  · have hL := h i t ht
    refine hlocal hstmt hL hstore fun hheld => ?_
    exact hopen t publish s.store k hstmt hL hheld hk

end locality

/-! ### A transaction alone -/

/-- On the given store, the statements from `t` on lead in `n` steps to `u`, and none of them is
a commit. -/
inductive Goes (stmt : τ → Stmt κ σ τ) (store : σ) : τ → ℕ → τ → Prop where
  | refl (t : τ) : Goes stmt store t 0 t
  | lock {t u : τ} {k : κ} {next : σ → τ} {n : ℕ} (hstmt : stmt t = .lock k next)
      (h : Goes stmt store (next store) n u) : Goes stmt store t (n + 1) u
  | read {t u : τ} {next : σ → τ} {n : ℕ} (hstmt : stmt t = .read next)
      (h : Goes stmt store (next store) n u) : Goes stmt store t (n + 1) u

omit [DecidableEq κ] in
/-- The statements of a part of a program lead on as they do by themselves. -/
theorem Goes.map {ρ : Type w} {stmt : τ → Stmt κ σ τ} {stmt' : ρ → Stmt κ σ ρ} {f : τ → ρ}
    (hmap : ∀ t, stmt' (f t) = (stmt t).map f) {store : σ} {t u : τ} {n : ℕ}
    (h : Goes stmt store t n u) : Goes stmt' store (f t) n (f u) := by
  induction h with
  | refl t => exact .refl _
  | @lock t u k next n hstmt _ ih =>
      have hstmt' : stmt' (f t) = .lock k fun store => f (next store) := by
        rw [hmap, hstmt]
        rfl
      exact .lock hstmt' ih
  | @read t u next n hstmt _ ih =>
      have hstmt' : stmt' (f t) = .read fun store => f (next store) := by
        rw [hmap, hstmt]
        rfl
      exact .read hstmt' ih

/-- Only the transaction `i` is in flight, at `t`, and all rows are its own or free. -/
structure Alone (s : State κ σ τ) (i : ℕ) (t : τ) : Prop where
  at_ : s.txn i = some t
  others : ∀ j, j ≠ i → s.txn j = none
  rows : ∀ k, s.owner k = none ∨ s.owner k = some i

section alone

variable {stmt : τ → Stmt κ σ τ} {initial : τ → Bool} {s : State κ σ τ} {i n : ℕ} {t u : τ}

omit [DecidableEq κ] in
theorem Alone.goOn (h : Alone s i t) (u : τ) : Alone (s.goOn i u) i u where
  at_ := Function.update_self _ _ _
  others j hj := (Function.update_of_ne hj _ _).trans (h.others j hj)
  rows := h.rows

theorem Alone.acquire (h : Alone s i t) (k : κ) (u : τ) : Alone (s.acquire i k u) i u where
  at_ := Function.update_self _ _ _
  others j hj := (Function.update_of_ne hj _ _).trans (h.others j hj)
  rows k' := by
    by_cases hk : k' = k
    · subst hk
      exact .inr (Function.update_self _ _ _)
    · simp only [State.acquire, Function.update_of_ne hk]
      exact h.rows k'

/-- A transaction that is alone gets every lock. -/
theorem Alone.run (h : Alone s i t) (hgoes : Goes stmt s.store t n u) :
    ∃ s', Runs.run (step stmt initial) s (List.replicate n (.exec i)) = some s' ∧ Alone s' i u ∧
      s'.store = s.store := by
  obtain ⟨store, hstore⟩ : ∃ store, s.store = store := ⟨_, rfl⟩
  rw [hstore] at hgoes ⊢
  induction hgoes generalizing s with
  | refl t => exact ⟨s, rfl, h, hstore⟩
  | @lock t u k next n hstmt _ ih =>
      have hstep : step stmt initial s (.exec i) = some (s.acquire i k (next store)) := by
        simp only [step, h.at_, Option.bind_some, execute, hstmt, if_pos (h.rows k), hstore]
      obtain ⟨s', hrun, halone, hs'⟩ := ih (h.acquire k _) hstore
      exact ⟨s', Runs.run_cons_eq_some.mpr ⟨_, hstep, hrun⟩, halone, hs'⟩
  | @read t u next n hstmt _ ih =>
      have hstep : step stmt initial s (.exec i) = some (s.goOn i (next store)) := by
        simp only [step, h.at_, Option.bind_some, execute, hstmt, hstore]
      obtain ⟨s', hrun, halone, hs'⟩ := ih (h.goOn _) hstore
      exact ⟨s', Runs.run_cons_eq_some.mpr ⟨_, hstep, hrun⟩, halone, hs'⟩

/-- No transaction is in flight and no row is owned. -/
structure Idle (s : State κ σ τ) : Prop where
  quiet : s.Quiet
  free : ∀ k, s.owner k = none

omit [DecidableEq κ] in
theorem Alone.release {store : σ} (h : Alone s i t) :
    Idle (State.release { s with store := store } i) where
  quiet j := by
    by_cases hj : j = i
    · subst hj
      exact Function.update_self _ _ _
    · exact (Function.update_of_ne hj _ _).trans (h.others j hj)
  free k := by
    change (if s.owner k = some i then none else s.owner k) = none
    rcases h.rows k with hk | hk
    · simp [hk]
    · simp [hk]

omit [DecidableEq κ] in
theorem Idle.alone (h : Idle s) (i : ℕ) (t : τ) : Alone (s.goOn i t) i t where
  at_ := Function.update_self _ _ _
  others j hj := (Function.update_of_ne hj _ _).trans (h.quiet j)
  rows k := .inl (h.free k)

/-- A transaction that starts. -/
theorem Idle.start (h : Idle s) (hinitial : initial t = true) :
    step stmt initial s (.start i t) = some (s.goOn i t) := by
  simp [step, h.quiet i, hinitial]

/-- The run of a whole transaction, up to and including its commit. -/
def whole (i : ℕ) (t : τ) (n : ℕ) : List (Event τ) :=
  .start i t :: (List.replicate n (.exec i) ++ [.exec i])

/-- A transaction that runs alone commits what it publishes. -/
theorem Idle.run (h : Idle s) (hinitial : initial t = true) (hgoes : Goes stmt s.store t n u)
    {publish : σ → Option σ} (hstmt : stmt u = .commit publish) {store : σ}
    (hpublish : publish s.store = some store) :
    ∃ s', Runs.run (step stmt initial) s (whole i t n) = some s' ∧ Idle s' ∧ s'.store = store := by
  obtain ⟨s₁, hrun, halone, hstore⟩ : ∃ s₁,
      Runs.run (step stmt initial) (s.goOn i t) (List.replicate n (.exec i)) = some s₁ ∧
        Alone s₁ i u ∧ s₁.store = s.store :=
    (h.alone i t).run hgoes
  have hcommit : step stmt initial s₁ (.exec i) = some (State.release { s₁ with store := store } i) := by
    have hpublish' : publish s₁.store = some store := by rw [hstore]; exact hpublish
    simp only [step, halone.at_, Option.bind_some, execute, hstmt, hpublish']
  refine ⟨_, ?_, halone.release, rfl⟩
  exact Runs.run_cons_eq_some.mpr ⟨_, h.start hinitial, Runs.run_concat_eq_some.mpr ⟨s₁, hrun, hcommit⟩⟩

end alone

end ReadCommitted
