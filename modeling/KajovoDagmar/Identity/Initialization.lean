import KajovoDagmar.Identity.SingleUse

/-! # The instance is initialised once

An instance starts with the digest of a secret and without an account.  `initialize` owns the row of the instance
from its check to its commit, so along every run one initialisation at most is committed, with the secret, and there
is an account exactly when there has been one (`initialized_once`). -/

namespace KajovoDagmar.Tokens

open ReadCommitted

variable {hs : Hashes}

/-- The request of an initialisation. -/
def Entry.initializes : Entry → Option Initialize
  | .initialized a => some a
  | _ => none

/-- The instance waits for its initialisation, and there is no account. -/
structure Fresh (digest : String) (store : Store) : Prop where
  row : ∃ row, store.systemInstance = some row ∧ row.state = "uninitialized" ∧
    row.initializationSecretConsumedAt = none ∧ row.initializationSecretDigest = digest
  accounts : store.accounts.rows = []
  credentials : store.credentials.rows = []
  profiles : store.profiles.rows = []

/-- The instance is active, and there is one account with one credential and one profile. -/
structure Active (store : Store) : Prop where
  row : ∃ row, store.systemInstance = some row ∧ row.state = "active" ∧ row.initializationSecretConsumedAt.isSome
  rows : ∃ account credential profile, store.accounts.rows = [account] ∧ store.credentials.rows = [credential] ∧
    store.profiles.rows = [profile] ∧ credential.accountId = account.id ∧ profile.accountId = account.id

/-- The secret of the request has the given digest. -/
def Secret (hs : Hashes) (digest : String) (a : Initialize) : Prop :=
  hs.tokenDigest a.initializationSecret "initialization" = digest

/-- A commit other than that of `initialize` adds nothing, and every credential and profile stays with its
account. -/
theorem rows_of_commit {t : Point} {publish : Store → Option Store} {store store' : Store}
    (hstmt : stmt hs t = .commit publish) (hstore : publish store = some store')
    (hnot : ∀ a, t ≠ .initializeCommit a) :
    store'.systemInstance = store.systemInstance ∧ store'.accounts = store.accounts ∧
      (∃ f hf, store'.credentials = store.credentials.mapRows f hf) ∧
      ∃ g hg, store'.profiles = store.profiles.mapRows g hg := by
  have hid : ∀ {R : Type} {key : R → Uuid} (table : Table key), table = table.mapRows id fun _ => rfl := by
    intro R key table
    apply Table.ext
    rw [Table.rows_mapRows, List.map_id]
  rcases commit_cases hstmt with ⟨a, rfl, rfl⟩ | ⟨v, seen, marked, rfl, rfl⟩ | ⟨a, tokenId, effect, rfl, rfl⟩ |
    ⟨rfl, rfl⟩
  · exact (hnot a rfl).elim
  · rw [(publishIssue_ok hstore).2]
    exact ⟨rfl, rfl, ⟨id, _, hid _⟩, requestEmail v, requestEmail_accountId v, rfl⟩
  · rw [← Option.some.inj hstore]
    cases effect with
    | ticket => exact ⟨rfl, rfl, ⟨id, _, hid _⟩, id, _, hid _⟩
    | password accountId =>
      exact ⟨rfl, rfl, ⟨replacePassword hs a accountId, replacePassword_accountId hs a accountId, rfl⟩, id, _, hid _⟩
    | email accountId email =>
      exact ⟨rfl, rfl, ⟨id, _, hid _⟩, verifyEmail a accountId email, verifyEmail_accountId a accountId email, rfl⟩
  · rw [← Option.some.inj hstore]
    exact ⟨rfl, rfl, ⟨id, _, hid _⟩, id, _, hid _⟩

theorem Fresh.commit {t : Point} {publish : Store → Option Store} {store store' : Store} {digest : String}
    (h : Fresh digest store) (hstmt : stmt hs t = .commit publish) (hstore : publish store = some store')
    (hnot : ∀ a, t ≠ .initializeCommit a) : Fresh digest store' := by
  obtain ⟨hinstance, haccounts, ⟨f, hf, hcredentials⟩, g, hg, hprofiles⟩ := rows_of_commit hstmt hstore hnot
  constructor
  · rw [hinstance]
    exact h.row
  · rw [haccounts]
    exact h.accounts
  · rw [hcredentials, Table.rows_mapRows, h.credentials, List.map_nil]
  · rw [hprofiles, Table.rows_mapRows, h.profiles, List.map_nil]

theorem Active.commit {t : Point} {publish : Store → Option Store} {store store' : Store} (h : Active store)
    (hstmt : stmt hs t = .commit publish) (hstore : publish store = some store')
    (hnot : ∀ a, t ≠ .initializeCommit a) : Active store' := by
  obtain ⟨hinstance, haccounts, ⟨f, hf, hcredentials⟩, g, hg, hprofiles⟩ := rows_of_commit hstmt hstore hnot
  obtain ⟨account, credential, profile, haccount, hcredential, hprofile, hc, hp⟩ := h.rows
  constructor
  · rw [hinstance]
    exact h.row
  · refine ⟨account, f credential, g profile, ?_, ?_, ?_, (hf credential).trans hc, (hg profile).trans hp⟩
    · rw [haccounts, haccount]
    · rw [hcredentials, Table.rows_mapRows, hcredential, List.map_singleton]
    · rw [hprofiles, Table.rows_mapRows, hprofile, List.map_singleton]

/-- An initialisation makes a fresh instance active. -/
theorem Fresh.activate {a : Initialize} {store store' : Store} {digest : String} (h : Fresh digest store)
    (hstore : publishInitialize hs a store = some store') : Active store' := by
  obtain ⟨haccounts, hcredentials, hprofiles, hinstance, -⟩ := publishInitialize_ok hstore
  obtain ⟨row, hrow, -⟩ := h.row
  constructor
  · exact ⟨activated a row, by rw [hinstance, hrow, Option.map_some], rfl, rfl⟩
  · refine ⟨newAccount a, newCredential hs a, newProfile a, ?_, ?_, ?_, rfl, rfl⟩
    · rw [haccounts, h.accounts, List.nil_append]
    · rw [hcredentials, h.credentials, List.nil_append]
    · rw [hprofiles, h.profiles, List.nil_append]

/-- Nothing has been initialised, or one request has initialised the instance. -/
def Settled (hs : Hashes) (digest : String) (w : Recorded) : Prop :=
  (w.log.filterMap Entry.initializes = [] ∧ Fresh digest w.state.store) ∨
    ∃ a, w.log.filterMap Entry.initializes = [a] ∧ Secret hs digest a ∧ Active w.state.store

/-- **Step lemma**: an instance that has been initialised is not initialised again. -/
theorem Settled.of_step {digest : String} {w w' : Recorded} {e : Event Point} (hsound : Sound hs w.state)
    (h : Settled hs digest w) (hstep : observe hs w e = some w') : Settled hs digest w' := by
  rcases recorded_cases hstep with ⟨hlog, hstore⟩ | ⟨i, t, publish, ht, hstmt, hstore, hlog⟩
  · unfold Settled
    rwa [hlog, hstore]
  by_cases hinitialize : ∃ a, t = .initializeCommit a
  · obtain ⟨a, rfl⟩ := hinitialize
    obtain rfl := Stmt.commit.inj hstmt
    obtain ⟨⟨row, hrow, hstate, -, hdigest⟩, -⟩ := hsound.knows i _ ht
    rcases h with ⟨hnone, hfresh⟩ | ⟨b, -, -, hactive⟩
    · refine .inr ⟨a, ?_, ?_, hfresh.activate hstore⟩
      · rw [hlog, List.filterMap_append, hnone]
        rfl
      · obtain ⟨row', hrow', -, -, hdigest'⟩ := hfresh.row
        obtain rfl : row' = row := Option.some.inj (hrow'.symm.trans hrow)
        exact hdigest.trans hdigest'
    · -- the instance is active, so the check of the request would have failed
      obtain ⟨row', hrow', hstate', -⟩ := hactive.row
      obtain rfl : row' = row := Option.some.inj (hrow'.symm.trans hrow)
      exact absurd (hstate.symm.trans hstate') (by decide)
  · have hnot : ∀ a, t ≠ .initializeCommit a := fun a ha => hinitialize ⟨a, ha⟩
    have hsame : w'.log.filterMap Entry.initializes = w.log.filterMap Entry.initializes := by
      rw [hlog, List.filterMap_append, List.append_right_eq_self, List.filterMap_eq_nil_iff]
      intro entry hentry
      cases entry with
      | initialized a => exact (hnot a (initialized_mem_entries hentry)).elim
      | _ => rfl
    unfold Settled
    rw [hsame]
    exact h.imp (And.imp_right fun hfresh => hfresh.commit hstmt hstore hnot)
      (Exists.imp fun a => And.imp_right (And.imp_right fun hactive => hactive.commit hstmt hstore hnot))

/-- **The instance is initialised once**: from a fresh instance, along every run of all transactions, either nothing
has been initialised and there is no account, or one initialisation has been committed, with the secret of the
bootstrap, and there is one account with one credential and one profile. -/
theorem initialized_once (secret : String) {w₀ w : Recorded} {es : List (Event Point)} (hquiet : w₀.state.Quiet)
    (hlog : w₀.log = []) (hfresh : Fresh (hs.tokenDigest secret "initialization") w₀.state.store)
    (hrun : Runs.run (observe hs) w₀ es = some w) :
    (w.log.filterMap Entry.initializes = [] ∧ Fresh (hs.tokenDigest secret "initialization") w.state.store) ∨
      ∃ a, w.log.filterMap Entry.initializes = [a] ∧ Secret hs (hs.tokenDigest secret "initialization") a ∧
        (Function.Injective hs.sha256 → a.initializationSecret = secret) ∧ Active w.state.store := by
  have hstart : Settled hs (hs.tokenDigest secret "initialization") w₀ := by
    refine .inl ⟨?_, hfresh⟩
    rw [hlog]
    rfl
  have h : Sound hs w.state ∧ Settled hs (hs.tokenDigest secret "initialization") w := by
    refine Runs.inv_of_run (I := fun w : Recorded => Sound hs w.state ∧
      Settled hs (hs.tokenDigest secret "initialization") w) ?_ ⟨Sound.of_quiet hquiet, hstart⟩ hrun
    rintro u e v ⟨hsound, hsettled⟩ hstep
    exact ⟨hsound.of_step (Observer.observe_eq_some hstep).1, hsettled.of_step hsound hstep⟩
  rcases h.2 with hnone | ⟨a, hone, hsecret, hactive⟩
  · exact .inl hnone
  · refine .inr ⟨a, hone, hsecret, fun hinjective => ?_, hactive⟩
    exact (String.append_right_inj _).mp (hinjective hsecret)

/-- An instance that has been bootstrapped with a secret. -/
def bootstrapped : Store where
  systemInstance := some { initializationSecretDigest := sampleHashes.tokenDigest "tajemstvi" "initialization" }
  accounts := .empty
  credentials := .empty
  profiles := .empty
  tokens := .empty

def sampleInitialize (secret : String) (accountId : Uuid) : Initialize :=
  { username := "Karmar78", initializationSecret := secret, password := "dlouhe heslo spravce"
    passwordConfirmation := "dlouhe heslo spravce", displayName := "Karel", accountId := accountId, salt := 1
    changedAt := 1000, initializedAt := 1000, consumedAt := 1000 }

/-- An attempt with a wrong secret, and two that overlap with the right one. -/
def attemptsToInitialize : List (Event Point) :=
  whole 1 (.initialization (sampleInitialize "jine tajemstvi" 1)) 3 ++
    [.start 2 (.initialization (sampleInitialize "tajemstvi" 2)), .exec 2,
      .start 3 (.initialization (sampleInitialize "tajemstvi" 3)), .exec 3, .exec 2, .exec 2, .exec 2, .exec 2,
      .exec 3, .exec 3]

theorem initialized_once_attempts :
    ∃ w a, Runs.run (observe sampleHashes) ⟨⟨bootstrapped, fun _ => none, fun _ => none⟩, 0, []⟩
        attemptsToInitialize = some w ∧
      w.log.filterMap Entry.initializes = [a] ∧ Active w.state.store := by
  have hrun : (Runs.run (observe sampleHashes) ⟨⟨bootstrapped, fun _ => none, fun _ => none⟩, 0, []⟩
      attemptsToInitialize).any (fun w => (w.log.filterMap Entry.initializes).length = 1) = true := by
    decide +kernel
  obtain ⟨w, hw, hend⟩ := (Option.any_eq_true _ _).mp hrun
  rcases initialized_once "tajemstvi" (fun _ => rfl) rfl ⟨⟨_, rfl, rfl, rfl, rfl⟩, rfl, rfl, rfl⟩ hw with
    ⟨hnone, -⟩ | ⟨a, hone, -, -, hactive⟩
  · rw [hnone] at hend
    simp at hend
  · exact ⟨w, a, hw, hone, hactive⟩

end KajovoDagmar.Tokens
