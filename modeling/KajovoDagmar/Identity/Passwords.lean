import KajovoDagmar.Identity.Service

/-! # A password that has been set stays set

The stored hash verifies exactly the password that was set last, in every state of a run,
exactly when every login that commits an upgraded hash still has the right password at that
moment.  A login reads the credential without a lock, so its password may have been replaced
in between; its flush then puts the old one back. -/

namespace KajovoDagmar.IdentityService

open ReadCommitted

variable {ph : PasswordHasher}

/-! ### Commits -/

/-- The commits of the programs. -/
theorem commit_cases {t : Point} {publish : Store → Option Store}
    (h : stmt ph t = .commit publish) :
    (∃ a outcome, t = .loginCommit a outcome ∧ publish = publishLogin ph a outcome) ∨
    (∃ w seen marked, t = .publish w seen marked ∧
      publish = fun store => some (publishSetting ph w marked store)) ∨
    (∃ activity, t = .touch activity ∧ publish = fun store => some (publishTouch activity store)) ∨
    (t = .refused ∧ publish = some) := by
  cases t with
  | loginCommit a outcome =>
      obtain rfl := Stmt.commit.inj h
      exact .inl ⟨a, outcome, rfl, rfl⟩
  | publish w seen marked =>
      obtain rfl := Stmt.commit.inj h
      exact .inr (.inl ⟨w, seen, marked, rfl, rfl⟩)
  | touch activity =>
      obtain rfl := Stmt.commit.inj h
      exact .inr (.inr (.inl ⟨activity, rfl, rfl⟩))
  | refused =>
      obtain rfl := Stmt.commit.inj h
      exact .inr (.inr (.inr ⟨rfl, rfl⟩))
  | revoke w seen todo marked => cases todo <;> simp [stmt] at h
  | _ => simp [stmt] at h

theorem publishLogin_accepted {a : Login} {account : AdministratorAccount} {rehash : Bool}
    {epoch : Epoch} {store store' : Store}
    (h : publishLogin ph a (.accepted account rehash epoch) store = some store') :
    ∃ sessions, createSession a epoch store.sessions = some sessions ∧ store' = { store with
      account := account
      credential := if rehash then some ⟨ph.hash a.password a.salt, a.now⟩ else store.credential
      sessions := sessions } := by
  obtain ⟨sessions, hsessions, rfl⟩ := Option.map_eq_some_iff.mp h
  exact ⟨sessions, hsessions, rfl⟩

/-- A denied login leaves everything but the account. -/
theorem publishLogin_denied {a : Login} {account : Option AdministratorAccount} {store store' : Store}
    (h : publishLogin ph a (.denied account) store = some store') :
    store' = { store with account := store'.account } := by
  cases account <;> obtain rfl := Option.some.inj h <;> rfl

/-! ### The stored hash -/

/-- The stored hash verifies `p` and no other password. -/
def Verifies (ph : PasswordHasher) (store : Store) (p : String) : Prop :=
  ∃ credential, store.credential = some credential ∧
    ∀ q, ph.verify credential.passwordHash q = true ↔ q = p

/-- The stored hash verifies exactly the password that was set last. -/
def Exact (ph : PasswordHasher) (s : State RowLock Store Point) : Prop :=
  ∀ p, s.store.lastSet = some p → Verifies ph s.store p

/-- A login that commits an upgraded hash still has the right password. -/
def UpgradesCurrent (ph : PasswordHasher) (s : State RowLock Store Point) (e : Event Point) : Prop :=
  ∀ i a account epoch, e = .exec i → s.txn i = some (.loginCommit a (.accepted account true epoch)) →
    (createSession a epoch s.store.sessions).isSome → ∀ p, s.store.lastSet = some p →
      ∃ credential, s.store.credential = some credential ∧
        ph.verify credential.passwordHash a.password = true

theorem verifies_hash (hph : ph.Sound) (p : String) (salt : ℕ) (now : Instant) {store : Store}
    (h : store.credential = some ⟨ph.hash p salt, now⟩) : Verifies ph store p :=
  ⟨_, h, fun q => hph p salt q⟩

/-- An accepted login without an upgrade leaves the credential, one with an upgrade stores a hash
of its own password. -/
theorem exact_publishLogin (hph : ph.Sound) {a : Login} {outcome : LoginOutcome}
    {s : State RowLock Store Point} {store' : Store} {i : ℕ} (h : Exact ph s)
    (hi : s.txn i = some (.loginCommit a outcome)) (hC : UpgradesCurrent ph s (.exec i))
    (hstore : publishLogin ph a outcome s.store = some store') {p : String}
    (hp : store'.lastSet = some p) : Verifies ph store' p := by
  cases outcome with
  | denied account =>
      rw [publishLogin_denied hstore] at hp ⊢
      exact h p hp
  | accepted account rehash epoch =>
      obtain ⟨sessions, hsessions, rfl⟩ := publishLogin_accepted hstore
      cases rehash with
      | false => exact h p hp
      | true =>
          obtain ⟨old, hold, hright⟩ := hC i a account epoch rfl hi (by rw [hsessions]; rfl) p hp
          obtain ⟨credential, hcredential, hexact⟩ := h p hp
          obtain rfl := Option.some.inj (hold.symm.trans hcredential)
          obtain rfl : a.password = p := (hexact a.password).mp hright
          exact verifies_hash hph _ _ _ rfl

/-- **Step lemma**: a step from a state with the right hash leads to one exactly when it does not
upgrade the hash of a replaced password. -/
theorem exact_step_iff (hph : ph.Sound) {s : State RowLock Store Point} {e : Event Point}
    (h : Exact ph s) : UpgradesCurrent ph s e ↔ ∀ s', step ph s e = some s' → Exact ph s' := by
  constructor
  · intro hC s' hs p hp
    rcases store_eq_or_commit hs with hsame | ⟨i, t, publish, rfl, ht, hstmt, hstore⟩
    · rw [hsame] at hp ⊢
      exact h p hp
    rcases commit_cases hstmt with ⟨a, outcome, rfl, rfl⟩ | ⟨w, seen, marked, rfl, rfl⟩ |
      ⟨activity, rfl, rfl⟩ | ⟨rfl, rfl⟩
    · exact exact_publishLogin hph h ht hC hstore hp
    · rw [← Option.some.inj hstore] at hp ⊢
      obtain rfl := Option.some.inj hp
      exact verifies_hash hph _ _ _ rfl
    · rw [← Option.some.inj hstore] at hp ⊢
      exact h p hp
    · rw [← Option.some.inj hstore] at hp ⊢
      exact h p hp
  · rintro hnext i a account epoch rfl ht hsession p hp
    obtain ⟨sessions, hsessions⟩ := Option.isSome_iff_exists.mp hsession
    have hstep : step ph s (.exec i) = some (State.release { s with store := { s.store with
        account := account
        credential := some ⟨ph.hash a.password a.salt, a.now⟩
        sessions := sessions } } i) := by
      simp [step, ReadCommitted.step, execute, ht, stmt, publishLogin, hsessions]
    obtain ⟨credential, hcredential, hexact⟩ := hnext _ hstep p hp
    -- the new hash verifies the login's password, so this is the password that was set
    obtain rfl := Option.some.inj hcredential
    obtain rfl : a.password = p := (hexact a.password).mp ((hph _ _ _).mpr rfl)
    obtain ⟨old, hold, hright⟩ := h _ hp
    exact ⟨old, hold, (hright _).mpr rfl⟩

/-- **A password change is never undone**, in a run from a state in which the stored hash
verifies exactly the password that was set last, exactly when no login of the run commits the
upgraded hash of a password that has been replaced. -/
theorem password_kept_iff (hph : ph.Sound) {s : State RowLock Store Point} {es : List (Event Point)}
    (h : Exact ph s) : Runs.Always (step ph) (Exact ph) s es ↔
      Runs.Along (step ph) (UpgradesCurrent ph) s es :=
  Runs.always_iff_along (fun _ _ _ _ _ => trivial)
    (fun _ _ (_ : True) hs => exact_step_iff hph hs) trivial h

/-! ### A reset that is undone -/

/-- A login reads the credential, a reset runs to its commit, and the login goes on to its
own. -/
def undone : List (Event Point) :=
  loginReads 1 ++ runWhole 2 (.reset sampleReset) 7 ++ List.replicate 3 (.exec 1)

/-- After the two commits the old password is the right one. -/
theorem undone_eq : ∃ s, Runs.run (step sampleHasher) sampleState undone = some s ∧
    s.store.lastSet = some "nove heslo" ∧
    s.store.credential.map AccountCredential.passwordHash = some "argon2id:stare heslo" := by
  have h : (match Runs.run (step sampleHasher) sampleState undone with
      | some s => decide (s.store.lastSet = some "nove heslo" ∧
          s.store.credential.map AccountCredential.passwordHash = some "argon2id:stare heslo")
      | none => false) = true := by
    decide +kernel
  rcases hr : Runs.run (step sampleHasher) sampleState undone with _ | s <;> simp only [hr] at h
  · simp at h
  · exact ⟨s, rfl, of_decide_eq_true h⟩

/-- A password change may be undone by a login that was in flight. -/
theorem password_undone : ¬∀ (ph : PasswordHasher) (s : State RowLock Store Point)
    (es : List (Event Point)), ph.Sound → s.Quiet → s.store.lastSet = none →
      Runs.Always (step ph) (Exact ph) s es := by
  intro h
  obtain ⟨s, hs, hset, hhash⟩ := undone_eq
  have hexact := (h sampleHasher sampleState undone sampleHasher_sound (fun _ => rfl) rfl).last hs
  obtain ⟨credential, hcredential, hverify⟩ := hexact _ hset
  rw [hcredential, Option.map_some, Option.some.injEq] at hhash
  have hold := (hverify "stare heslo").mp (by rw [hhash]; decide)
  simp at hold

/-- The equivalence at that run. -/
theorem password_kept_iff_undone :
    Runs.Always (step sampleHasher) (Exact sampleHasher) sampleState undone ↔
      Runs.Along (step sampleHasher) (UpgradesCurrent sampleHasher) sampleState undone :=
  password_kept_iff sampleHasher_sound fun p hp => by simp [sampleState, sampleStore] at hp

end KajovoDagmar.IdentityService
