import KajovoDagmar.Library.SkipLocked

/-! # Work on locked rows

Transactions that begin with a `SELECT … FOR UPDATE SKIP LOCKED LIMIT n`.  Such a statement takes a
snapshot of its candidates and then passes over those that are locked or do not qualify any more; what
the transaction does with the others is published by its commit.  A transaction without such a statement
has no candidates.

A transaction knows the rows that it has locked: they are still as they were when it locked them. -/

namespace SkipLocked

open ReadCommitted (State Event Held Asserted)

universe u v w x

/-- Transactions `β` that lock rows `ρ` of the stores `σ`. -/
structure Selection (κ : Type u) (σ : Type v) (ρ : Type w) (β : Type x) where
  key : ρ → κ
  find : σ → κ → Option ρ
  candidates : β → σ → List ρ
  qualifies : β → ρ → Bool
  /-- How many rows the transaction locks at most. -/
  room : β → ℕ
  publish : β → List ρ → σ → Option σ
  key_of_find : ∀ {store k r}, find store k = some r → key r = k
  nodup : ∀ b store, ((candidates b store).map key).Nodup

/-- A transaction, at its next statement. -/
inductive Stage (ρ : Type w) (β : Type x) where
  | opened (b : β)
  /-- The rest of the snapshot, and the rows that are locked, as last committed. -/
  | locking (b : β) (candidates taken : List ρ)

namespace Selection

variable {κ : Type u} {σ : Type v} {ρ : Type w} {β : Type x} (S : Selection κ σ ρ β)

/-- The next statement of a transaction. -/
def statement : Stage ρ β → Stmt κ σ (Stage ρ β)
  | .opened b => .read fun store => .locking b (S.candidates b store) []
  | .locking b candidates taken =>
    if taken.length = S.room b then .commit (S.publish b taken)
    else match candidates with
      | [] => .commit (S.publish b taken)
      | r :: rs =>
        .take (S.key r) (fun store => (S.find store (S.key r)).any (S.qualifies b))
          (fun store => .locking b rs (taken ++ (S.find store (S.key r)).toList)) (.locking b rs taken)

/-- A transaction starts with its first statement. -/
def starts : Stage ρ β → Bool
  | .opened _ => true
  | .locking _ _ _ => false

/-- A transaction owns the rows that it has locked. -/
def holds : Stage ρ β → κ → Prop
  | .opened _, _ => False
  | .locking _ _ taken, k => k ∈ taken.map S.key

/-- The locked rows, as last committed. -/
def Current (b : β) (taken : List ρ) (store : σ) : Prop :=
  (taken.map S.key).Nodup ∧ ∀ r ∈ taken, S.find store (S.key r) = some r ∧ S.qualifies b r = true

/-- A transaction knows its rows, and none of them is still among its candidates. -/
def knows (store : σ) : Stage ρ β → Prop
  | .opened _ => True
  | .locking b candidates taken =>
    ((taken ++ candidates).map S.key).Nodup ∧
      ∀ r ∈ taken, S.find store (S.key r) = some r ∧ S.qualifies b r = true

variable {S}

theorem knows.current {store : σ} {b : β} {candidates taken : List ρ}
    (h : S.knows store (.locking b candidates taken)) : S.Current b taken store := by
  obtain ⟨hnodup, htaken⟩ := h
  rw [List.map_append] at hnodup
  exact ⟨(List.nodup_append.mp hnodup).1, htaken⟩

theorem statement_nil (b : β) (taken : List ρ) :
    S.statement (.locking b [] taken) = .commit (S.publish b taken) := by
  rw [statement]
  split <;> rfl

theorem statement_cons (b : β) (r : ρ) (rs taken : List ρ) :
    S.statement (.locking b (r :: rs) taken) =
      if taken.length = S.room b then .commit (S.publish b taken)
      else .take (S.key r) (fun store => (S.find store (S.key r)).any (S.qualifies b))
        (fun store => .locking b rs (taken ++ (S.find store (S.key r)).toList)) (.locking b rs taken) := rfl

theorem statement_take {t skipped : Stage ρ β} {k : κ} {qualifies : σ → Bool} {won : σ → Stage ρ β}
    (h : S.statement t = .take k qualifies won skipped) :
    ∃ b r rs taken, t = .locking b (r :: rs) taken ∧ k = S.key r ∧
      qualifies = (fun store => (S.find store (S.key r)).any (S.qualifies b)) ∧
      skipped = .locking b rs taken ∧
      won = fun store => .locking b rs (taken ++ (S.find store (S.key r)).toList) := by
  match t with
  | .opened b => simp [statement] at h
  | .locking b [] taken =>
      rw [statement_nil] at h
      simp at h
  | .locking b (r :: rs) taken =>
      rw [statement_cons] at h
      split at h
      · simp at h
      · obtain ⟨rfl, rfl, rfl, rfl⟩ := Stmt.take.inj h
        exact ⟨b, r, rs, taken, rfl, rfl, rfl, rfl, rfl⟩

theorem statement_read {t : Stage ρ β} {next : σ → Stage ρ β} (h : S.statement t = .read next) :
    ∃ b, t = .opened b ∧ next = fun store => .locking b (S.candidates b store) [] := by
  match t with
  | .opened b => exact ⟨b, rfl, (Stmt.read.inj h).symm⟩
  | .locking b [] taken =>
      rw [statement_nil] at h
      simp at h
  | .locking b (r :: rs) taken =>
      rw [statement_cons] at h
      split at h
      · simp at h
      · simp at h

theorem statement_commit {t : Stage ρ β} {publish : σ → Option σ} (h : S.statement t = .commit publish) :
    ∃ b candidates taken, t = .locking b candidates taken ∧ publish = S.publish b taken := by
  match t with
  | .opened b => simp [statement] at h
  | .locking b [] taken =>
      rw [statement_nil] at h
      exact ⟨b, [], taken, rfl, (Stmt.commit.inj h).symm⟩
  | .locking b (r :: rs) taken =>
      rw [statement_cons] at h
      split at h
      · exact ⟨b, r :: rs, taken, rfl, (Stmt.commit.inj h).symm⟩
      · simp at h

theorem discipline : Discipline S.statement starts S.holds where
  start := by
    intro t k ht
    cases t with
    | opened b => exact id
    | locking b candidates taken => exact absurd ht (by simp [starts])
  take := by
    intro t k qualifies won skipped store k' hstmt hk
    obtain ⟨b, r, rs, taken, rfl, rfl, rfl, rfl, rfl⟩ := statement_take hstmt
    change k' ∈ (taken ++ (S.find store (S.key r)).toList).map S.key at hk
    rw [List.map_append, List.mem_append] at hk
    rcases hk with hk | hk
    · exact .inr hk
    · obtain ⟨row, hrow, rfl⟩ := List.mem_map.mp hk
      exact .inl (S.key_of_find (Option.mem_toList.mp hrow))
  skip := by
    intro t k qualifies won skipped k' hstmt hk
    obtain ⟨b, r, rs, taken, rfl, rfl, rfl, rfl, rfl⟩ := statement_take hstmt
    exact hk
  read := by
    intro t next store k hstmt hk
    obtain ⟨b, rfl, rfl⟩ := statement_read hstmt
    exact absurd hk List.not_mem_nil

theorem knows_follows : Follows S.statement starts S.knows where
  start := by
    intro store t ht
    cases t with
    | opened b => trivial
    | locking b candidates taken => exact absurd ht (by simp [starts])
  take := by
    intro store t k qualifies won skipped hstmt hqualifies hknows
    obtain ⟨b, r, rs, taken, rfl, rfl, rfl, rfl, rfl⟩ := statement_take hstmt
    obtain ⟨hnodup, htaken⟩ := hknows
    obtain ⟨row, hfind, hrow⟩ := (Option.any_eq_true _ _).mp hqualifies
    have hkey : S.key row = S.key r := S.key_of_find hfind
    change ((taken ++ (S.find store (S.key r)).toList ++ rs).map S.key).Nodup ∧ _
    rw [hfind]
    constructor
    · rw [List.append_assoc]
      simpa [hkey] using hnodup
    · intro x hx
      rcases List.mem_append.mp hx with hx | hx
      · exact htaken x hx
      · obtain rfl : x = row := by simpa using hx
        rw [hkey]
        exact ⟨hfind, hrow⟩
  skip := by
    intro store t k qualifies won skipped hstmt hknows
    obtain ⟨b, r, rs, taken, rfl, rfl, rfl, rfl, rfl⟩ := statement_take hstmt
    refine ⟨hknows.1.sublist (List.Sublist.map _ ?_), hknows.2⟩
    exact (List.Sublist.refl taken).append (List.sublist_cons_self r rs)
  read := by
    intro store t next hstmt hknows
    obtain ⟨b, rfl, rfl⟩ := statement_read hstmt
    exact ⟨S.nodup b store, fun r hr => absurd hr List.not_mem_nil⟩

variable [DecidableEq κ]

variable (S) in
/-- One step of the transactions. -/
def step (s : State κ σ (Stage ρ β)) (e : Event (Stage ρ β)) : Option (State κ σ (Stage ρ β)) :=
  SkipLocked.step S.statement starts s e

/-- **Run lemma**: an invariant of the store that a commit keeps, given that the rows it has locked are as
last committed.  Every other row that qualifies for a transaction must be left by the commit. -/
theorem inv_of_run {I : σ → Prop}
    (hleaves : ∀ b taken store store' k, S.Current b taken store → I store →
      S.publish b taken store = some store' → k ∉ taken.map S.key → ∀ b' r, S.find store k = some r →
        S.qualifies b' r = true → S.find store' k = some r)
    (hcommit : ∀ b taken store store', S.Current b taken store → I store →
      S.publish b taken store = some store' → I store') {s t : State κ σ (Stage ρ β)}
    {es : List (Event (Stage ρ β))} (h₀ : Inv S.holds S.knows I s) (hrun : Runs.run S.step s es = some t) :
    Inv S.holds S.knows I t := by
  have hstable : Stable S.holds (fun store store' k => ∀ b r, S.find store k = some r →
      S.qualifies b r = true → S.find store' k = some r) S.knows := by
    intro t store store' hkept hknows
    cases t with
    | opened b => trivial
    | locking b candidates taken =>
        refine ⟨hknows.1, fun r hr => ?_⟩
        obtain ⟨hfind, hqualifies⟩ := hknows.2 r hr
        exact ⟨hkept (S.key r) (List.mem_map_of_mem hr) b r hfind hqualifies, hqualifies⟩
  refine inv_of_run_of_kept discipline ?_ hstable knows_follows ?_ h₀ hrun
  · intro t publish store store' k hstmt hknows hI hpublish hnot
    obtain ⟨b, candidates, taken, rfl, rfl⟩ := statement_commit hstmt
    exact hleaves b taken store store' k hknows.current hI hpublish hnot
  · intro t publish store store' hstmt hknows hI hpublish
    obtain ⟨b, candidates, taken, rfl, rfl⟩ := statement_commit hstmt
    exact hcommit b taken store store' hknows.current hI hpublish

omit [DecidableEq κ] in
/-- Where no transaction is in flight there is nothing to know. -/
theorem inv_of_quiet {I : σ → Prop} {s : State κ σ (Stage ρ β)} (h : s.Quiet) (hI : I s.store) :
    Inv S.holds S.knows I s := ⟨.of_quiet h, .of_quiet h, hI⟩

end Selection

end SkipLocked
