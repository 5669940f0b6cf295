import KajovoDagmar.Identity.Passwords
import KajovoDagmar.Library.Observed
import Mathlib.Algebra.Group.Int.Defs

/-! # Login throttling

A login verifies its password and records the attempt under the lock of the account, and a failed attempt is
committed although the login is refused.  Along every run of logins, password changes and resets the counter of the
account is the number of failures since the last success, and from the fifth of them on no password is verified
before the delay has passed (`login_throttled`). -/

namespace KajovoDagmar.LoginThrottle

open IdentityService ReadCommitted

variable (ph : PasswordHasher)

/-! ### The attempts -/

/-- A committed verification of a password: a failure comes with the time from which it restricts. -/
inductive Attempt where
  | succeeded
  | failed (failedAt : Instant)

def Attempt.isFailed : Attempt → Bool
  | .succeeded => false
  | .failed _ => true

/-- The failures since the last success. -/
def failures (history : List Attempt) : ℕ := (history.reverse.takeWhile Attempt.isFailed).length

@[simp] theorem failures_succeeded (history : List Attempt) : failures (history ++ [.succeeded]) = 0 := by
  simp [failures, Attempt.isFailed]

@[simp] theorem failures_failed (history : List Attempt) (t : Instant) :
    failures (history ++ [.failed t]) = failures history + 1 := by
  unfold failures
  rw [List.reverse_append, List.reverse_singleton, List.singleton_append, List.takeWhile_cons_of_pos rfl,
    List.length_cons]

/-- The delay after `k` consecutive failures. -/
def delay (k : ℕ) : Instant := min 3600 (30 * 2 ^ min (k - 5) 7) * microsPerSecond

theorem restrictionUntil_of_le {k : ℕ} (h : 5 ≤ k) (t : Instant) : restrictionUntil t k = some (t + delay k) := by
  unfold restrictionUntil delay
  rw [if_neg (by omega)]

/-- The restriction that the last attempt leaves. -/
def restriction (history : List Attempt) : Option Instant :=
  match history.getLast? with
  | some (.failed t) => restrictionUntil t (failures history)
  | _ => none

theorem restriction_failed (history : List Attempt) (t : Instant) :
    restriction (history ++ [.failed t]) = restrictionUntil t (failures history + 1) := by
  unfold restriction
  rw [List.getLast?_concat, failures_failed]

theorem restriction_succeeded (history : List Attempt) : restriction (history ++ [.succeeded]) = none := by
  unfold restriction
  rw [List.getLast?_concat]

/-- The delay of every failure has passed. -/
def Passed (history : List Attempt) (clock : Instant) : Prop :=
  ∀ before t after, history = before ++ .failed t :: after → 5 ≤ failures (before ++ [.failed t]) →
    t + delay (failures (before ++ [.failed t])) ≤ clock

/-- The delay of every failure but the last attempt has passed. -/
def Spaced (history : List Attempt) (clock : Instant) : Prop := Passed history.dropLast clock

theorem Passed.mono {history : List Attempt} {clock clock' : Instant} (h : Passed history clock)
    (hle : clock ≤ clock') : Passed history clock' :=
  fun before t after heq hk => (h before t after heq hk).trans hle

/-- When the last restriction is over, every delay has passed. -/
theorem Spaced.passed {history : List Attempt} {clock : Instant} (h : Spaced history clock)
    (hover : ∀ u, restriction history = some u → u ≤ clock) : Passed history clock := by
  intro before t after heq hk
  rcases List.eq_nil_or_concat after with rfl | ⟨after', last, rfl⟩
  · apply hover
    rw [heq, restriction_failed, ← failures_failed before t]
    exact restrictionUntil_of_le hk t
  · refine h before t after' ?_ hk
    rw [heq, List.concat_eq_append, ← List.cons_append, ← List.append_assoc, List.dropLast_concat]

/-! ### What is observed -/

/-- Logins, password changes and resets, and no synchronisation by the deployment. -/
def unsynchronized : Point → Bool
  | .login _ | .change _ | .reset _ => true
  | _ => false

/-- The attempt that the commit of a login records. -/
def attemptOf (a : Login) : LoginOutcome → Option Attempt
  | .denied none => none
  | .denied (some _) => some (.failed a.failedAt)
  | .accepted _ _ _ => some .succeeded

/-- A login reads the clock when it has locked the account, and once more after a failed verification. -/
def reading (store : Store) : Point → Option Instant
  | .loginLock a => some a.now
  | .loginCredential a _ =>
    (store.credential.filter fun c => (ph.verifyPassword c.passwordHash a.password).1 = false).map fun _ => a.failedAt
  | _ => none

/-- The attempt that the commit of a transaction records. -/
def attempts : Point → List Attempt
  | .loginCommit a outcome => (attemptOf a outcome).toList
  | _ => []

/-- The clock of the logins, and the committed attempts. -/
def observer : Observer (State RowLock Store Point) (Event Point) Attempt :=
  ReadCommitted.observer (reading ph) (commits (stmt ph) attempts)

/-- The transactions of the account, observed. -/
abbrev observe := (observer ph).observe (ReadCommitted.step (stmt ph) unsynchronized)

variable {ph}

/-! ### The lock of the account -/

/-- Between the lock of the account and the commit, a login verifies. -/
def Verifying : Point → Prop
  | .loginCredential _ _ => True
  | .loginAudit _ outcome => outcome ≠ .denied none
  | .loginRehash _ outcome => outcome ≠ .denied none
  | .loginCommit _ outcome => outcome ≠ .denied none
  | _ => False

def Holds (t : Point) (k : RowLock) : Prop := k = .account ∧ Verifying t

theorem verifying_lock {t : Point} {k : RowLock} {next : Store → Point} {store : Store}
    (hstmt : stmt ph t = .lock k next) (h : Verifying (next store)) : (∃ a, t = .loginLock a) ∨ Verifying t := by
  cases t with
  | loginLock a => exact .inl ⟨a, rfl⟩
  | loginAudit a outcome =>
    obtain ⟨rfl, rfl⟩ := Stmt.lock.inj hstmt
    right
    cases outcome with
    | denied account => exact h
    | accepted account rehash epoch => simp [Verifying]
  | loginRehash a outcome =>
    obtain ⟨rfl, rfl⟩ := Stmt.lock.inj hstmt
    exact .inr h
  | changeLock a sessionId =>
    obtain ⟨rfl, rfl⟩ := Stmt.lock.inj hstmt
    simp only at h
    split at h
    · exact h.elim
    · split at h <;> exact h.elim
  | changeCredential a activity =>
    obtain ⟨rfl, rfl⟩ := Stmt.lock.inj hstmt
    unfold verifyChange at h
    split at h
    · exact h.elim
    split at h
    · exact h.elim
    split at h <;> exact h.elim
  | resetLock a tokenId =>
    obtain ⟨rfl, rfl⟩ := Stmt.lock.inj hstmt
    simp only at h
    split at h <;> exact h.elim
  | resetCredential a tokenId =>
    obtain ⟨rfl, rfl⟩ := Stmt.lock.inj hstmt
    simp only at h
    split at h <;> exact h.elim
  | synchronizeLock a =>
    obtain ⟨rfl, rfl⟩ := Stmt.lock.inj hstmt
    exact h.elim
  | synchronizeCredential a =>
    obtain ⟨rfl, rfl⟩ := Stmt.lock.inj hstmt
    simp only at h
    split at h <;> exact h.elim
  | revoke w seen todo marked =>
    cases todo with
    | nil =>
      obtain ⟨rfl, rfl⟩ := Stmt.lock.inj hstmt
      exact h.elim
    | cons sessionId todo =>
      obtain ⟨rfl, rfl⟩ := Stmt.lock.inj hstmt
      simp only at h
      split at h <;> exact h.elim
  | _ => simp [stmt] at hstmt

theorem verifying_read {t : Point} {next : Store → Point} {store : Store} (hstmt : stmt ph t = .read next)
    (h : Verifying (next store)) : Verifying t := by
  cases t with
  | login a =>
    obtain rfl := Stmt.read.inj hstmt
    simp only at h
    split at h
    · exact h.elim
    · exact h rfl
  | loginCredential a account => trivial
  | change a =>
    obtain rfl := Stmt.read.inj hstmt
    simp only at h
    split at h <;> exact h.elim
  | reset a =>
    obtain rfl := Stmt.read.inj hstmt
    simp only at h
    split at h
    · split at h <;> exact h.elim
    · exact h.elim
  | synchronize a =>
    obtain rfl := Stmt.read.inj hstmt
    simp only at h
    split at h <;> exact h.elim
  | scan w =>
    obtain rfl := Stmt.read.inj hstmt
    exact h.elim
  | revoke w seen todo marked => cases todo <;> simp [stmt] at hstmt
  | _ => simp [stmt] at hstmt

theorem discipline : Discipline (stmt ph) unsynchronized Holds where
  start := by
    rintro t k ht ⟨-, hk⟩
    cases t <;> simp [unsynchronized] at ht <;> exact hk
  lock := by
    rintro t k next store k' hstmt ⟨rfl, hk⟩
    rcases verifying_lock hstmt hk with ⟨a, rfl⟩ | hverifying
    · exact .inl (Stmt.lock.inj hstmt).1
    · exact .inr ⟨rfl, hverifying⟩
  read := by
    rintro t next store k hstmt ⟨rfl, hk⟩
    exact ⟨rfl, verifying_read hstmt hk⟩

/-! ### What a login knows -/

/-- No restriction of the account is in force when the login reads the clock. -/
def Open (a : Login) (account : AdministratorAccount) : Prop := ∀ u, account.restrictedUntil = some u → u ≤ a.now

/-- What an outcome makes of the account. -/
def Outcome (a : Login) (account : AdministratorAccount) : LoginOutcome → Prop
  | .denied none => True
  | .denied (some changed) => changed.failedLoginCount = account.failedLoginCount + 1 ∧
    changed.restrictedUntil = restrictionUntil a.failedAt (account.failedLoginCount + 1) ∧ Open a account
  | .accepted changed _ _ => changed.failedLoginCount = 0 ∧ changed.restrictedUntil = none ∧ Open a account

/-- A login that verifies knows the account, and no transaction synchronises the password. -/
def Knows (store : Store) : Point → Prop
  | .loginCredential a account => account = store.account ∧ Open a store.account
  | .loginAudit a outcome => Outcome a store.account outcome
  | .loginRehash a outcome => Outcome a store.account outcome
  | .loginCommit a outcome => Outcome a store.account outcome
  | .synchronize _ | .synchronizeLock _ | .synchronizeCredential _ => False
  | .scan w => w.origin ≠ .synchronize
  | .revoke w _ _ _ => w.origin ≠ .synchronize
  | .publish w _ _ => w.origin ≠ .synchronize
  | _ => True

theorem outcome_verifyLogin (a : Login) (account : AdministratorAccount) (credential : AccountCredential)
    (epoch : Epoch) (h : Open a account) : Outcome a account (verifyLogin ph a account credential epoch) := by
  unfold verifyLogin
  rcases ph.verifyPassword credential.passwordHash a.password with ⟨valid, rehash⟩
  cases valid with
  | false => exact ⟨rfl, rfl, h⟩
  | true => exact ⟨rfl, rfl, h⟩

theorem knows_lock (store : Store) (t : Point) (k : RowLock) (next : Store → Point)
    (hstmt : stmt ph t = .lock k next) (h : Knows store t) : Knows store (next store) := by
  cases t with
  | loginLock a =>
    obtain ⟨rfl, rfl⟩ := Stmt.lock.inj hstmt
    simp only
    split
    · trivial
    · next hopen =>
      refine ⟨rfl, fun u hu => ?_⟩
      rw [hu] at hopen
      simpa using hopen
  | loginAudit a outcome =>
    obtain ⟨rfl, rfl⟩ := Stmt.lock.inj hstmt
    cases outcome with
    | denied account => exact h
    | accepted account rehash epoch => cases rehash <;> exact h
  | loginRehash a outcome =>
    obtain ⟨rfl, rfl⟩ := Stmt.lock.inj hstmt
    exact h
  | changeLock a sessionId =>
    obtain ⟨rfl, rfl⟩ := Stmt.lock.inj hstmt
    simp only
    split
    · trivial
    · split <;> trivial
  | changeCredential a activity =>
    obtain ⟨rfl, rfl⟩ := Stmt.lock.inj hstmt
    unfold verifyChange
    split
    · trivial
    split
    · trivial
    split
    · trivial
    · simp [Knows]
  | resetLock a tokenId =>
    obtain ⟨rfl, rfl⟩ := Stmt.lock.inj hstmt
    simp only
    split <;> trivial
  | resetCredential a tokenId =>
    obtain ⟨rfl, rfl⟩ := Stmt.lock.inj hstmt
    simp only
    split
    · simp [Knows]
    · trivial
  | synchronizeLock a => exact h.elim
  | synchronizeCredential a => exact h.elim
  | revoke w seen todo marked =>
    cases todo with
    | nil =>
      obtain ⟨rfl, rfl⟩ := Stmt.lock.inj hstmt
      exact h
    | cons sessionId todo =>
      obtain ⟨rfl, rfl⟩ := Stmt.lock.inj hstmt
      simp only
      split <;> exact h
  | _ => simp [stmt] at hstmt

theorem knows_read (store : Store) (t : Point) (next : Store → Point) (hstmt : stmt ph t = .read next)
    (h : Knows store t) : Knows store (next store) := by
  cases t with
  | login a =>
    obtain rfl := Stmt.read.inj hstmt
    simp only
    split <;> trivial
  | loginCredential a account =>
    obtain rfl := Stmt.read.inj hstmt
    obtain ⟨rfl, hopen⟩ := h
    simp only
    split
    · trivial
    · exact outcome_verifyLogin a _ _ _ hopen
  | change a =>
    obtain rfl := Stmt.read.inj hstmt
    simp only
    split <;> trivial
  | reset a =>
    obtain rfl := Stmt.read.inj hstmt
    simp only
    split
    · split <;> trivial
    · trivial
  | synchronize a => exact h.elim
  | scan w =>
    obtain rfl := Stmt.read.inj hstmt
    exact h
  | revoke w seen todo marked => cases todo <;> simp [stmt] at hstmt
  | _ => simp [stmt] at hstmt

/-- A transaction that does not verify commits nothing about the account. -/
theorem account_of_commit {t : Point} {publish : Store → Option Store} {store store' : Store}
    (hstmt : stmt ph t = .commit publish) (hknows : Knows store t) (hverifying : ¬Verifying t)
    (hstore : publish store = some store') : store'.account = store.account := by
  rcases commit_cases hstmt with ⟨a, outcome, rfl, rfl⟩ | ⟨w, seen, marked, rfl, rfl⟩ |
    ⟨activity, rfl, rfl⟩ | ⟨rfl, rfl⟩
  · obtain rfl : outcome = .denied none := not_not.mp hverifying
    rw [← Option.some.inj hstore]
  · rw [← Option.some.inj hstore]
    exact if_neg hknows
  · rw [← Option.some.inj hstore]
    rfl
  · rw [← Option.some.inj hstore]

/-- What a transaction that does not verify knows does not depend on the account. -/
theorem Knows.of_not_verifying {store store' : Store} {t : Point} (h : Knows store t) (hnot : ¬Verifying t) :
    Knows store' t := by
  cases t with
  | loginCredential a account => exact (hnot trivial).elim
  | loginAudit a outcome => rw [not_not.mp hnot]; trivial
  | loginRehash a outcome => rw [not_not.mp hnot]; trivial
  | loginCommit a outcome => rw [not_not.mp hnot]; trivial
  | _ => exact h

theorem Knows.congr {store store' : Store} {t : Point} (h : Knows store t)
    (haccount : store'.account = store.account) : Knows store' t := by
  cases t with
  | loginCredential a account => simpa only [Knows, haccount] using h
  | loginAudit a outcome => simpa only [Knows, haccount] using h
  | loginRehash a outcome => simpa only [Knows, haccount] using h
  | loginCommit a outcome => simpa only [Knows, haccount] using h
  | _ => exact h

/-- **Step lemma**: every transaction goes on knowing what it knows at its point. -/
theorem asserted_of_step {s s' : State RowLock Store Point} {e : Event Point} (hheld : Held Holds s)
    (h : Asserted Knows s) (hs : ReadCommitted.step (stmt ph) unsynchronized s e = some s') : Asserted Knows s' := by
  refine h.of_step ?_ knows_lock knows_read ?_ hs
  · intro store t ht
    cases t <;> simp [unsynchronized] at ht <;> trivial
  · intro i t publish store _ ht hstmt hstore j u hij hj hu
    by_cases hverifying : Verifying u
    · refine hu.congr (account_of_commit hstmt (h i t ht) (fun hv => ?_) hstore)
      exact hij (hheld.unique hj ht ⟨rfl, hverifying⟩ ⟨rfl, hv⟩)
    · exact hu.of_not_verifying hverifying

/-! ### The clock of a login -/

def loginAt : Point → Option Login
  | .loginCredential a _ => some a
  | .loginAudit a _ => some a
  | .loginRehash a _ => some a
  | .loginCommit a _ => some a
  | _ => none

/-- A login that verifies has read the clock. -/
def Read (clock : Instant) (t : Point) : Prop := Verifying t → ∀ a, loginAt t = some a → a.now ≤ clock

theorem read_of_step {w w' : Observed (State RowLock Store Point) Attempt} {e : Event Point}
    (h : ∀ i t, w.state.txn i = some t → Read w.clock t) (hs : observe ph w e = some w') :
    ∀ i t, w'.state.txn i = some t → Read w'.clock t := by
  obtain ⟨hstep, hle, hreading, -⟩ := Observer.observe_eq_some hs
  have hbefore : Asserted (fun _ => Read w'.clock) w.state := fun i t ht hverifying a ha =>
    (h i t ht hverifying a ha).trans hle
  refine hbefore.of_exec ?_ ?_ ?_ ?_ hstep
  · intro store t ht hverifying
    cases t <;> simp [unsynchronized] at ht <;> exact hverifying.elim
  · intro i t k next he ht hstmt hread hverifying a ha
    cases t with
    | loginLock b =>
      obtain ⟨rfl, rfl⟩ := Stmt.lock.inj hstmt
      have hnow : w'.clock = b.now := by
        apply hreading
        rw [he]
        exact observer_reading ht
      rw [hnow]
      simp only at ha
      split at ha <;> rw [← Option.some.inj ha]
    | loginAudit b outcome =>
      obtain ⟨rfl, rfl⟩ := Stmt.lock.inj hstmt
      cases outcome with
      | denied account => exact hread hverifying a ha
      | accepted account rehash epoch => cases rehash <;> exact hread (by simp [Verifying]) a ha
    | loginRehash b outcome =>
      obtain ⟨rfl, rfl⟩ := Stmt.lock.inj hstmt
      exact hread hverifying a ha
    | loginCredential b account => cases hstmt
    | loginCommit b outcome => cases hstmt
    | _ =>
      rcases verifying_lock hstmt hverifying with ⟨b, hb⟩ | hverifying'
      · cases hb
      · exact hverifying'.elim
  · intro i t next he ht hstmt hread hverifying a ha
    cases t with
    | loginCredential b account =>
      obtain rfl := Stmt.read.inj hstmt
      simp only at ha
      split at ha
      · cases ha
      · exact hread trivial a ha
    | loginAudit b outcome => cases hstmt
    | loginRehash b outcome => cases hstmt
    | loginCommit b outcome => cases hstmt
    | _ => exact (verifying_read hstmt hverifying).elim
  · exact fun i t publish store _ _ _ _ j u _ _ hu => hu

/-! ### Runs -/

/-- A step records nothing and leaves the account, or it is the commit of a login that has verified. -/
theorem recorded_cases {s s' : State RowLock Store Point} {e : Event Point} (hknows : Asserted Knows s)
    (hs : ReadCommitted.step (stmt ph) unsynchronized s e = some s') :
    ((observer ph).record s e = [] ∧ s'.store.account = s.store.account) ∨
      ∃ i a outcome attempt, s.txn i = some (.loginCommit a outcome) ∧ attemptOf a outcome = some attempt ∧
        (observer ph).record s e = [attempt] ∧ publishLogin ph a outcome s.store = some s'.store := by
  rcases record_or_commit (reading ph) attempts hs with
    ⟨hnone, hstore⟩ | ⟨i, t, publish, ht, hstmt, hstore, hrecord⟩
  · exact .inl ⟨hnone, by rw [hstore]⟩
  · rcases commit_cases hstmt with ⟨a, outcome, rfl, rfl⟩ | ⟨w, seen, marked, rfl, rfl⟩ | ⟨activity, rfl, rfl⟩ |
      ⟨rfl, rfl⟩
    · cases hattempt : attemptOf a outcome with
      | some attempt =>
        refine .inr ⟨i, a, outcome, attempt, ht, hattempt, hrecord.trans ?_, hstore⟩
        show (attemptOf a outcome).toList = [attempt]
        rw [hattempt, Option.toList_some]
      | none =>
        obtain rfl : outcome = .denied none := by
          cases outcome with
          | denied account =>
            cases account with
            | none => rfl
            | some account => cases hattempt
          | accepted account rehash epoch => cases hattempt
        exact .inl ⟨hrecord, account_of_commit hstmt (hknows i _ ht) (fun h => h rfl) hstore⟩
    · exact .inl ⟨hrecord, account_of_commit hstmt (hknows i _ ht) id hstore⟩
    · exact .inl ⟨hrecord, account_of_commit hstmt (hknows i _ ht) id hstore⟩
    · exact .inl ⟨hrecord, account_of_commit hstmt (hknows i _ ht) id hstore⟩

/-- The account agrees with the committed attempts. -/
structure Throttled (w : Observed (State RowLock Store Point) Attempt) : Prop where
  held : Held Holds w.state
  knows : Asserted Knows w.state
  read : ∀ i t, w.state.txn i = some t → Read w.clock t
  count : w.state.store.account.failedLoginCount = failures w.log
  restricted : w.state.store.account.restrictedUntil = restriction w.log
  spaced : Spaced w.log w.clock

/-- A login that is open finds every delay passed. -/
theorem Throttled.passed {w : Observed (State RowLock Store Point) Attempt} (h : Throttled w) {a : Login}
    (hopen : Open a w.state.store.account) (hread : a.now ≤ w.clock) : Passed w.log w.clock := by
  refine h.spaced.passed fun u hu => ?_
  rw [← h.restricted] at hu
  exact (hopen u hu).trans hread

/-- **Step lemma**: the account goes on agreeing with the committed attempts. -/
theorem Throttled.of_step {w w' : Observed (State RowLock Store Point) Attempt} {e : Event Point}
    (h : Throttled w) (hs : observe ph w e = some w') : Throttled w' := by
  obtain ⟨hstep, hle, -, hlog⟩ := Observer.observe_eq_some hs
  have hheld := h.held.of_step discipline hstep
  have hknows := asserted_of_step h.held h.knows hstep
  have hread := read_of_step h.read hs
  have hlog' : w'.log = w.log ++ (observer ph).record w.state e := hlog
  rcases recorded_cases h.knows hstep with ⟨hnone, haccount⟩ | ⟨i, a, outcome, attempt, ht, hattempt, hrecord, hstore⟩
  · rw [hnone, List.append_nil] at hlog'
    refine ⟨hheld, hknows, hread, ?_, ?_, ?_⟩
    · rw [haccount, hlog', h.count]
    · rw [haccount, hlog', h.restricted]
    · rw [hlog']
      exact Passed.mono h.spaced hle
  · rw [hrecord] at hlog'
    have hspaced : ∀ (hopen : Open a w.state.store.account), Verifying (.loginCommit a outcome) →
        Spaced w'.log w'.clock := by
      intro hopen hverifying
      unfold Spaced
      rw [hlog', List.dropLast_concat]
      exact (h.passed hopen (h.read i _ ht hverifying a rfl)).mono hle
    have hknown : Outcome a w.state.store.account outcome := h.knows i _ ht
    cases outcome with
    | denied account =>
      cases account with
      | none => cases hattempt
      | some account =>
        obtain ⟨hcount, hrestricted, hopen⟩ := hknown
        obtain rfl := Option.some.inj hattempt
        have haccount : w'.state.store.account = account := by rw [← Option.some.inj hstore]
        refine ⟨hheld, hknows, hread, ?_, ?_, hspaced hopen (by simp [Verifying])⟩
        · rw [haccount, hlog', failures_failed, hcount, h.count]
        · rw [haccount, hlog', restriction_failed, hrestricted, h.count]
    | accepted account rehash epoch =>
      obtain ⟨hcount, hrestricted, hopen⟩ := hknown
      obtain rfl := Option.some.inj hattempt
      obtain ⟨sessions, -, hcommitted⟩ := publishLogin_accepted hstore
      have haccount : w'.state.store.account = account := by rw [hcommitted]
      refine ⟨hheld, hknows, hread, ?_, ?_, hspaced hopen (by simp [Verifying])⟩
      · rw [haccount, hlog', failures_succeeded, hcount]
      · rw [haccount, hlog', restriction_succeeded, hrestricted]

/-- **Logins are throttled**: from an account without failures, along every run of logins, password changes and
resets with a clock that does not run backwards, the counter is the number of the failures since the last success,
no two logins verify at a time, and a password is verified only after the delay of every failure. -/
theorem login_throttled {w₀ w : Observed (State RowLock Store Point) Attempt} {es : List (Event Point)}
    (hquiet : w₀.state.Quiet) (hcount : w₀.state.store.account.failedLoginCount = 0)
    (hfree : w₀.state.store.account.restrictedUntil = none) (hlog : w₀.log = [])
    (hrun : Runs.run (observe ph) w₀ es = some w) :
    w.state.store.account.failedLoginCount = failures w.log ∧
    (∀ i j t u, w.state.txn i = some t → w.state.txn j = some u → Verifying t → Verifying u → i = j) ∧
    ∀ i a account, w.state.txn i = some (.loginCredential a account) → Passed w.log w.clock := by
  have hstart : Throttled w₀ := by
    refine ⟨Held.of_quiet hquiet, Asserted.of_quiet hquiet, ?_, ?_, ?_, ?_⟩
    · intro i t ht
      rw [hquiet i] at ht
      cases ht
    · rw [hcount, hlog]
      rfl
    · rw [hfree, hlog]
      rfl
    · intro before t after heq
      rw [hlog] at heq
      simp at heq
  have h : Throttled w := Runs.inv_of_run (fun w e w' hw hs => hw.of_step hs) hstart hrun
  refine ⟨h.count, ?_, ?_⟩
  · intro i j t u hi hj ht hu
    exact h.held.unique hi hj ⟨rfl, ht⟩ ⟨rfl, hu⟩
  · intro i a account ht
    obtain ⟨-, hopen⟩ := h.knows i _ ht
    exact h.passed hopen (h.read i _ ht trivial a rfl)

/-- A login with a wrong password. -/
def guess (now : Instant) : Login := { sampleLogin with password := "spatne heslo", now := now, failedAt := now + 1 }

/-- Five wrong passwords, and after the delay a login that is about to verify its password. -/
def guesses : List (Event Point) :=
  runWhole 1 (.login (guess 1000)) 5 ++ runWhole 2 (.login (guess 2000)) 5 ++ runWhole 3 (.login (guess 3000)) 5 ++
    runWhole 4 (.login (guess 4000)) 5 ++ runWhole 5 (.login (guess 5000)) 5 ++
    runWhole 6 (.login { sampleLogin with now := 30005001 }) 2

def readsCredential : Point → Bool
  | .loginCredential _ _ => true
  | _ => false

theorem login_throttled_guesses : ∃ w, Runs.run (observe sampleHasher) ⟨sampleState, 0, []⟩ guesses = some w ∧
    w.log.length = 5 ∧ w.state.store.account.failedLoginCount = failures w.log ∧ Passed w.log w.clock := by
  have hrun : (Runs.run (observe sampleHasher) ⟨sampleState, 0, []⟩ guesses).any (fun w =>
      w.log.length = 5 ∧ (w.state.txn 6).any readsCredential) = true := by decide +kernel
  obtain ⟨w, hw, hend⟩ := (Option.any_eq_true _ _).mp hrun
  obtain ⟨hlength, hreads⟩ := of_decide_eq_true hend
  obtain ⟨t, ht, hcredential⟩ := (Option.any_eq_true _ _).mp hreads
  cases t with
  | loginCredential a account =>
    obtain ⟨hcount, -, hpassed⟩ := login_throttled (fun _ => rfl) rfl rfl rfl hw
    exact ⟨w, hw, hlength, hcount, hpassed 6 a account ht⟩
  | _ => cases hcredential

end KajovoDagmar.LoginThrottle
