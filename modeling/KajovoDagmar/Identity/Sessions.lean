import KajovoDagmar.Identity.Passwords

/-! # No session outlives its password

A setting revokes the sessions that its bulk update sees, which are those committed before the
statement.  A login and a deployment synchronisation exclude each other by the lock of the
account; a login and a change or a reset do not, so a session that is committed between the
revocation and its commit escapes.  When that does not happen, every session of an earlier
epoch is revoked, but for the one that changed the password (`Settled`). -/

namespace KajovoDagmar.IdentityService

open ReadCommitted

variable {ph : PasswordHasher}

/-- Every session relies on the current password, is revoked, or is the spared one. -/
def Settled (store : Store) : Prop :=
  ∀ r ∈ store.sessions, r.revokedAt.isSome ∨ r.epoch = store.epoch ∨ store.spared = some r.id

/-! ### Locks -/

theorem discipline : Discipline (stmt ph) initial Holds where
  start := by
    intro t k ht hk
    cases hk <;> simp [initial] at ht
  lock := by
    intro t k next store k' hstmt hk
    cases t with
    | loginLock a =>
        obtain ⟨rfl, rfl⟩ := Stmt.lock.inj hstmt
        simp only at hk
        split at hk
        · cases hk
        · cases hk
          exact .inl rfl
    | loginAudit a outcome =>
        obtain ⟨rfl, rfl⟩ := Stmt.lock.inj hstmt
        right
        cases outcome with
        | denied account => cases hk
        | accepted account rehash epoch => cases rehash <;> cases hk <;> constructor
    | loginRehash a outcome =>
        obtain ⟨rfl, rfl⟩ := Stmt.lock.inj hstmt
        cases hk
        exact .inr (.loginRehash _ _ _ _)
    | changeLock a sessionId =>
        obtain ⟨rfl, rfl⟩ := Stmt.lock.inj hstmt
        simp only at hk
        split at hk
        · cases hk
        · split at hk <;> cases hk
    | changeCredential a activity =>
        obtain ⟨rfl, rfl⟩ := Stmt.lock.inj hstmt
        unfold verifyChange at hk
        split at hk
        · cases hk
        split at hk
        · cases hk
        split at hk
        · cases hk
        · cases hk with
          | scan => exact .inl rfl
          | scanAccount _ h => simp at h
    | resetLock a tokenId =>
        obtain ⟨rfl, rfl⟩ := Stmt.lock.inj hstmt
        simp only at hk
        split at hk <;> cases hk
    | resetCredential a tokenId =>
        obtain ⟨rfl, rfl⟩ := Stmt.lock.inj hstmt
        simp only at hk
        split at hk
        · cases hk with
          | scan => exact .inl rfl
          | scanAccount _ h => simp at h
        · cases hk
    | synchronizeLock a =>
        obtain ⟨rfl, rfl⟩ := Stmt.lock.inj hstmt
        cases hk
        exact .inl rfl
    | synchronizeCredential a =>
        obtain ⟨rfl, rfl⟩ := Stmt.lock.inj hstmt
        simp only at hk
        split at hk
        · cases hk with
          | scan => exact .inl rfl
          | scanAccount _ h => exact .inr (.synchronizeCredential a)
        · cases hk
    | revoke w seen todo marked =>
        right
        cases todo with
        | nil =>
            obtain ⟨rfl, rfl⟩ := Stmt.lock.inj hstmt
            cases hk with
            | publish => exact .revoke _ _ _ _
            | publishAccount _ _ _ h => exact .revokeAccount _ _ _ _ h
        | cons sessionId todo =>
            obtain ⟨rfl, rfl⟩ := Stmt.lock.inj hstmt
            simp only at hk
            split at hk <;> cases hk with
            | revoke => exact .revoke _ _ _ _
            | revokeAccount _ _ _ _ h => exact .revokeAccount _ _ _ _ h
    | _ => simp [stmt] at hstmt
  read := by
    intro t next store k hstmt hk
    cases t with
    | login a =>
        obtain rfl := Stmt.read.inj hstmt
        simp only at hk
        split at hk <;> cases hk
    | loginCredential a account =>
        obtain rfl := Stmt.read.inj hstmt
        simp only at hk
        split at hk
        · cases hk
        · generalize verifyLogin ph a account _ store.epoch = outcome at hk
          cases hk
          exact .loginCredential a account
    | change a =>
        obtain rfl := Stmt.read.inj hstmt
        simp only at hk
        split at hk <;> cases hk
    | reset a =>
        obtain rfl := Stmt.read.inj hstmt
        simp only at hk
        split at hk
        · split at hk <;> cases hk
        · cases hk
    | synchronize a =>
        obtain rfl := Stmt.read.inj hstmt
        simp only at hk
        split at hk <;> cases hk
    | scan w =>
        obtain rfl := Stmt.read.inj hstmt
        cases hk with
        | revoke => exact .scan w
        | revokeAccount _ _ _ _ h => exact .scanAccount w h
    | revoke w seen todo marked => cases todo <;> simp [stmt] at hstmt
    | _ => simp [stmt] at hstmt

/-! ### What a transaction knows -/

/-- Among the sessions that the statement of a revocation has seen, those not among the given
ones are revoked or spared. -/
def Covers (store : Store) (w : Setting) (seen : ℕ) (ids : List Uuid) : Prop :=
  seen ≤ store.sessions.rows.length ∧ ∀ r ∈ store.sessions.rows.take seen,
    r.revokedAt.isSome ∨ r.id ∈ ids ∨ sparedSession w.origin = some r.id

/-- A login that was accepted knows that no deployment synchronisation has come after the
credential it read; a revocation covers the sessions it has seen, and one of a
synchronisation has seen them all. -/
def Knows (store : Store) : Point → Prop
  | .loginAudit _ (.accepted _ _ epoch) => epoch.synchronized = store.epoch.synchronized
  | .loginRehash _ (.accepted _ _ epoch) => epoch.synchronized = store.epoch.synchronized
  | .loginCommit _ (.accepted _ _ epoch) => epoch.synchronized = store.epoch.synchronized
  | .revoke w seen todo marked => Covers store w seen (todo ++ marked) ∧
    (w.origin = .synchronize → store.sessions.rows.length = seen)
  | .publish w seen marked => Covers store w seen marked ∧
    (w.origin = .synchronize → store.sessions.rows.length = seen)
  | _ => True

/-- What a revocation sees it covers. -/
theorem covers_scan (store : Store) (w : Setting) :
    Covers store w store.sessions.rows.length
      ((store.sessions.select (revocable w)).map AuthSession.id ++ []) := by
  refine ⟨le_refl _, ?_⟩
  intro r hr
  rw [List.take_length] at hr
  by_cases hrevocable : revocable w r = true
  · right; left
    rw [List.append_nil]
    exact List.mem_map_of_mem (List.mem_filter.mpr ⟨hr, hrevocable⟩)
  · simp only [revocable, decide_eq_true_eq, not_and_or, not_not, Option.isNone_iff_eq_none,
      ← ne_eq, Option.ne_none_iff_isSome] at hrevocable
    tauto

/-- A row that no longer satisfies the condition needs no mark. -/
theorem Covers.skip {store : Store} {w : Setting} {seen : ℕ} {sessionId : Uuid} {ids : List Uuid}
    (h : Covers store w seen (sessionId :: ids))
    (hnot : (store.sessions.find? sessionId).any (revocable w) = false) :
    Covers store w seen ids := by
  refine ⟨h.1, fun r hr => ?_⟩
  rcases h.2 r hr with hrevoked | hid | hspared
  · exact .inl hrevoked
  · rcases List.mem_cons.mp hid with rfl | hid
    · rw [Table.find?_of_mem (List.mem_of_mem_take hr)] at hnot
      simp only [Option.any_some, revocable, decide_eq_false_iff_not, not_and_or, not_not,
        Option.isNone_iff_eq_none, ← ne_eq, Option.ne_none_iff_isSome] at hnot
      tauto
    · exact .inr (.inl hid)
  · exact .inr (.inr hspared)

theorem Covers.perm {store : Store} {w : Setting} {seen : ℕ} {ids ids' : List Uuid}
    (h : Covers store w seen ids) (hsub : ids ⊆ ids') : Covers store w seen ids' := by
  refine ⟨h.1, fun r hr => ?_⟩
  rcases h.2 r hr with hrevoked | hid | hspared
  · exact .inl hrevoked
  · exact .inr (.inl (hsub hid))
  · exact .inr (.inr hspared)

/-- Sessions that come later do not matter. -/
theorem Covers.append {store store' : Store} {w : Setting} {seen : ℕ} {ids : List Uuid}
    {r : AuthSession} (h : Covers store w seen ids)
    (hrows : store'.sessions.rows = store.sessions.rows ++ [r]) : Covers store' w seen ids := by
  refine ⟨?_, ?_⟩
  · rw [hrows, List.length_append]
    exact Nat.le_add_right_of_le h.1
  · rw [hrows, List.take_append_of_le_length h.1]
    exact h.2

theorem touchSession_revokedAt (activity : Activity) (r : AuthSession) :
    (touchSession activity r).revokedAt = r.revokedAt := by
  unfold touchSession
  split <;> rfl

theorem Covers.touch {store : Store} {w : Setting} {seen : ℕ} {ids : List Uuid}
    (activity : Activity) (h : Covers store w seen ids) :
    Covers (publishTouch activity store) w seen ids := by
  refine ⟨?_, ?_⟩
  · simp only [publishTouch, Table.rows_mapRows, List.length_map]
    exact h.1
  · intro r hr
    simp only [publishTouch, Table.rows_mapRows, ← List.map_take, List.mem_map] at hr
    obtain ⟨x, hx, rfl⟩ := hr
    rw [touchSession_revokedAt, touchSession_id]
    exact h.2 x hx

/-- The own statements of a transaction keep what it knows. -/
theorem knows_lock (store : Store) (t : Point) (k : RowLock) (next : Store → Point)
    (hstmt : stmt ph t = .lock k next) (h : Knows store t) : Knows store (next store) := by
  cases t with
  | loginLock a =>
      obtain ⟨rfl, rfl⟩ := Stmt.lock.inj hstmt
      simp only
      split <;> trivial
  | loginAudit a outcome =>
      obtain ⟨rfl, rfl⟩ := Stmt.lock.inj hstmt
      cases outcome with
      | denied account => trivial
      | accepted account rehash epoch => cases rehash <;> exact h
  | loginRehash a outcome =>
      obtain ⟨rfl, rfl⟩ := Stmt.lock.inj hstmt
      cases outcome with
      | denied account => trivial
      | accepted account rehash epoch => exact h
  | changeLock a sessionId =>
      obtain ⟨rfl, rfl⟩ := Stmt.lock.inj hstmt
      simp only
      split
      · trivial
      · split <;> trivial
  | changeCredential a activity =>
      obtain ⟨rfl, rfl⟩ := Stmt.lock.inj hstmt
      unfold verifyChange
      split
      · trivial
      split
      · trivial
      split <;> trivial
  | resetLock a tokenId =>
      obtain ⟨rfl, rfl⟩ := Stmt.lock.inj hstmt
      simp only
      split <;> trivial
  | resetCredential a tokenId =>
      obtain ⟨rfl, rfl⟩ := Stmt.lock.inj hstmt
      simp only
      split <;> trivial
  | synchronizeLock a =>
      obtain ⟨rfl, rfl⟩ := Stmt.lock.inj hstmt
      trivial
  | synchronizeCredential a =>
      obtain ⟨rfl, rfl⟩ := Stmt.lock.inj hstmt
      simp only
      split <;> trivial
  | revoke w seen todo marked =>
      cases todo with
      | nil =>
          obtain ⟨rfl, rfl⟩ := Stmt.lock.inj hstmt
          exact h
      | cons sessionId todo =>
          obtain ⟨rfl, rfl⟩ := Stmt.lock.inj hstmt
          simp only
          split
          · refine ⟨h.1.perm ?_, h.2⟩
            intro id hid
            simp only [List.cons_append, List.mem_cons, List.mem_append] at hid ⊢
            tauto
          · next hnot =>
            exact ⟨h.1.skip (Bool.eq_false_of_not_eq_true hnot), h.2⟩
  | _ => simp [stmt] at hstmt

theorem knows_read (store : Store) (t : Point) (next : Store → Point)
    (hstmt : stmt ph t = .read next) : Knows store (next store) := by
  cases t with
  | login a =>
      obtain rfl := Stmt.read.inj hstmt
      simp only
      split <;> trivial
  | loginCredential a account =>
      obtain rfl := Stmt.read.inj hstmt
      simp only
      split
      · trivial
      · unfold verifyLogin
        simp only
        split
        · exact rfl
        · trivial
  | change a =>
      obtain rfl := Stmt.read.inj hstmt
      simp only
      split <;> trivial
  | reset a =>
      obtain rfl := Stmt.read.inj hstmt
      simp only
      split
      · split <;> trivial
      · trivial
  | synchronize a =>
      obtain rfl := Stmt.read.inj hstmt
      simp only
      split <;> trivial
  | scan w =>
      obtain rfl := Stmt.read.inj hstmt
      exact ⟨covers_scan store w, fun _ => rfl⟩
  | revoke w seen todo marked => cases todo <;> simp [stmt] at hstmt
  | _ => simp [stmt] at hstmt

theorem createSession_rows {a : Login} {epoch : Epoch} {sessions sessions' : Table AuthSession.id}
    (h : createSession a epoch sessions = some sessions') :
    sessions'.rows = sessions.rows ++ [newSession a epoch] := by
  unfold createSession at h
  split at h
  · exact (Table.insert?_eq_some h).1
  · simp at h

/-- What another transaction knows survives the commit of a login: a synchronisation, which
has seen every session, would own the account as the login does. -/
theorem knows_publishLogin {s : State RowLock Store Point} (hheld : Held Holds s) {i j : ℕ}
    {a : Login} {outcome : LoginOutcome} {u : Point} {store : Store} (hij : j ≠ i)
    (hi : s.txn i = some (.loginCommit a outcome)) (hj : s.txn j = some u)
    (hstore : publishLogin ph a outcome s.store = some store) (h : Knows s.store u) :
    Knows store u := by
  cases outcome with
  | denied account =>
      rw [publishLogin_denied hstore]
      exact h
  | accepted account rehash epoch =>
      obtain ⟨sessions, hsessions, rfl⟩ := publishLogin_accepted hstore
      have hrows := createSession_rows hsessions
      have hlogin : Holds (.loginCommit a (.accepted account rehash epoch)) .account :=
        .loginCommit a account rehash epoch
      cases u with
      | loginAudit b o => cases o <;> exact h
      | loginRehash b o => cases o <;> exact h
      | loginCommit b o => cases o <;> exact h
      | revoke w seen todo marked =>
          refine ⟨h.1.append hrows, fun hsync => absurd ?_ hij⟩
          exact hheld.unique hj hi (.revokeAccount w seen todo marked hsync) hlogin
      | publish w seen marked =>
          refine ⟨h.1.append hrows, fun hsync => absurd ?_ hij⟩
          exact hheld.unique hj hi (.publishAccount w seen marked hsync) hlogin
      | _ => trivial

/-- What another transaction knows survives the commit of a setting: another setting would own
the credential, and a login the account if the setting is a synchronisation. -/
theorem knows_publishSetting {s : State RowLock Store Point} (hheld : Held Holds s) {i j : ℕ}
    {w : Setting} {seen : ℕ} {marked : List Uuid} {u : Point} (hij : j ≠ i)
    (hi : s.txn i = some (.publish w seen marked)) (hj : s.txn j = some u) (h : Knows s.store u) :
    Knows (publishSetting ph w marked s.store) u := by
  have hlogin : ∀ {epoch : Epoch}, Holds u .account → epoch.synchronized = s.store.epoch.synchronized →
      epoch.synchronized = (publishSetting ph w marked s.store).epoch.synchronized := by
    intro epoch hu hepoch
    by_cases hsync : w.origin = .synchronize
    · exact absurd (hheld.unique hj hi hu (.publishAccount w seen marked hsync)) hij
    · rw [hepoch]
      unfold publishSetting nextEpoch
      cases hw : w.origin <;> first | exact absurd hw hsync | rfl
  cases u with
  | loginAudit b o =>
      cases o with
      | denied account => trivial
      | accepted account rehash epoch => exact hlogin (.loginAudit b account rehash epoch) h
  | loginRehash b o =>
      cases o with
      | denied account => trivial
      | accepted account rehash epoch => exact hlogin (.loginRehash b account rehash epoch) h
  | loginCommit b o =>
      cases o with
      | denied account => trivial
      | accepted account rehash epoch => exact hlogin (.loginCommit b account rehash epoch) h
  | revoke v n todo m =>
      exact absurd (hheld.unique hj hi (.revoke v n todo m) (.publish w seen marked)) hij
  | publish v n m =>
      exact absurd (hheld.unique hj hi (.publish v n m) (.publish w seen marked)) hij
  | _ => trivial

theorem knows_publishTouch {store : Store} {u : Point} (activity : Activity) (h : Knows store u) :
    Knows (publishTouch activity store) u := by
  have hlength : (publishTouch activity store).sessions.rows.length = store.sessions.rows.length := by
    simp only [publishTouch, Table.rows_mapRows, List.length_map]
  cases u with
  | loginAudit b o => cases o <;> exact h
  | loginRehash b o => cases o <;> exact h
  | loginCommit b o => cases o <;> exact h
  | revoke w seen todo marked => exact ⟨h.1.touch activity, fun hsync => hlength.trans (h.2 hsync)⟩
  | publish w seen marked => exact ⟨h.1.touch activity, fun hsync => hlength.trans (h.2 hsync)⟩
  | _ => trivial

/-- **Step lemma**: every transaction goes on knowing what it knows at its point. -/
theorem asserted_of_step {s s' : State RowLock Store Point} {e : Event Point} (hheld : Held Holds s)
    (h : Asserted Knows s) (hs : step ph s e = some s') : Asserted Knows s' := by
  refine Asserted.of_step ?_ knows_lock (fun store t next hstmt _ => knows_read store t next hstmt)
    ?_ h hs
  · intro store t ht
    cases t <;> trivial
  · rintro i t publish store rfl ht hstmt hstore j u hij hj hu
    rcases commit_cases hstmt with ⟨a, outcome, rfl, rfl⟩ | ⟨w, seen, marked, rfl, rfl⟩ |
      ⟨activity, rfl, rfl⟩ | ⟨rfl, rfl⟩
    · exact knows_publishLogin hheld hij ht hj hstore hu
    · obtain rfl := Option.some.inj hstore
      exact knows_publishSetting hheld hij ht hj hu
    · obtain rfl := Option.some.inj hstore
      exact knows_publishTouch activity hu
    · obtain rfl := Option.some.inj hstore
      exact hu

/-! ### Settled sessions -/

/-- At the commit of a login no password has been changed or reset since the credential was
read, and at the commit of a change or a reset no session has been opened since its
revocation. -/
def Separate (s : State RowLock Store Point) : Event Point → Prop
  | .exec i =>
    match s.txn i with
    | some (.loginCommit _ (.accepted _ _ epoch)) => epoch.set = s.store.epoch.set
    | some (.publish w seen _) =>
      w.origin ≠ .synchronize → s.store.sessions.rows.length = seen
    | _ => True
  | _ => True

instance (s : State RowLock Store Point) : DecidablePred (Separate s) := by
  intro e
  unfold Separate
  split
  · split <;> infer_instance
  · infer_instance

theorem settled_publishLogin {a : Login} {outcome : LoginOutcome} {s : State RowLock Store Point}
    {store : Store} {i : ℕ} (h : Settled s.store) (hknows : Asserted Knows s)
    (hi : s.txn i = some (.loginCommit a outcome)) (hC : Separate s (.exec i))
    (hstore : publishLogin ph a outcome s.store = some store) : Settled store := by
  cases outcome with
  | denied account =>
      rw [publishLogin_denied hstore]
      exact h
  | accepted account rehash epoch =>
      obtain ⟨sessions, hsessions, rfl⟩ := publishLogin_accepted hstore
      have hsynchronized : epoch.synchronized = s.store.epoch.synchronized := hknows i _ hi
      have hset : epoch.set = s.store.epoch.set := by
        simpa only [Separate, hi] using hC
      intro r hr
      have hr : r ∈ sessions.rows := hr
      rw [createSession_rows hsessions, List.mem_append, List.mem_singleton] at hr
      rcases hr with hr | rfl
      · exact h r hr
      · right; left
        show epoch = s.store.epoch
        cases hepoch : s.store.epoch
        rw [hepoch] at hsynchronized hset
        cases epoch
        simp_all

theorem settled_publishSetting {w : Setting} {seen : ℕ} {marked : List Uuid}
    {s : State RowLock Store Point} {i : ℕ} (hknows : Asserted Knows s)
    (hi : s.txn i = some (.publish w seen marked)) (hC : Separate s (.exec i)) :
    Settled (publishSetting ph w marked s.store) := by
  obtain ⟨hcovers, hsync⟩ := hknows i _ hi
  have hseen : s.store.sessions.rows.length = seen := by
    by_cases hw : w.origin = .synchronize
    · exact hsync hw
    · have hall : w.origin ≠ .synchronize → s.store.sessions.rows.length = seen := by
        simpa only [Separate, hi] using hC
      exact hall hw
  intro r hr
  simp only [publishSetting, Table.mem_def, Table.rows_mapRows, List.mem_map] at hr
  obtain ⟨x, hmem, rfl⟩ := hr
  have hx : x ∈ s.store.sessions.rows.take seen := by
    rw [← hseen, List.take_length]
    exact hmem
  rw [settleSession_id]
  by_cases hmarked : x.id ∈ marked
  · left
    simp only [settleSession, if_pos hmarked]
    rfl
  · rcases hcovers.2 x hx with hrevoked | hid | hspared
    · left
      unfold settleSession
      rw [if_neg hmarked]
      split
      · rw [touchSession_revokedAt]
        exact hrevoked
      · exact hrevoked
    · exact absurd hid hmarked
    · exact .inr (.inr hspared)

theorem settled_publishTouch {store : Store} (activity : Activity) (h : Settled store) :
    Settled (publishTouch activity store) := by
  intro r hr
  simp only [publishTouch, Table.mem_def, Table.rows_mapRows, List.mem_map] at hr
  obtain ⟨x, hx, rfl⟩ := hr
  rw [touchSession_revokedAt, touchSession_id]
  rcases h x hx with hrevoked | hepoch | hspared
  · exact .inl hrevoked
  · right; left
    unfold touchSession
    split <;> exact hepoch
  · exact .inr (.inr hspared)

/-- What holds in every state of a run whose logins and settings do not overlap. -/
structure Guarded (s : State RowLock Store Point) : Prop where
  held : Held Holds s
  knows : Asserted Knows s
  settled : Settled s.store

/-- **Step lemma**. -/
theorem Guarded.of_step {s s' : State RowLock Store Point} {e : Event Point} (h : Guarded s)
    (hC : Separate s e) (hs : step ph s e = some s') : Guarded s' := by
  refine ⟨h.held.of_step discipline hs, asserted_of_step h.held h.knows hs, ?_⟩
  rcases store_eq_or_commit hs with hsame | ⟨i, t, publish, rfl, ht, hstmt, hstore⟩
  · rw [hsame]
    exact h.settled
  rcases commit_cases hstmt with ⟨a, outcome, rfl, rfl⟩ | ⟨w, seen, marked, rfl, rfl⟩ |
    ⟨activity, rfl, rfl⟩ | ⟨rfl, rfl⟩
  · exact settled_publishLogin h.settled h.knows ht hC hstore
  · rw [← Option.some.inj hstore]
    exact settled_publishSetting h.knows ht hC
  · rw [← Option.some.inj hstore]
    exact settled_publishTouch activity h.settled
  · rw [← Option.some.inj hstore]
    exact h.settled

/-- **No session outlives its password**: after a run, started with no transaction in flight, in
which no login and no change or reset of the password overlap, every session that relies on
an earlier password is revoked, except the one that changed the password last. -/
theorem session_revoked {s t : State RowLock Store Point} {es : List (Event Point)}
    (hquiet : s.Quiet) (hsettled : Settled s.store)
    (hC : Runs.Along (step ph) Separate s es) (hrun : Runs.run (step ph) s es = some t) :
    ∀ r ∈ t.store.sessions, r.epoch ≠ t.store.epoch →
      r.revokedAt.isSome ∨ t.store.spared = some r.id := by
  have hguarded : Guarded t := Runs.inv_of_along (fun s e s' h hC hs => h.of_step hC hs)
    ⟨.of_quiet hquiet, .of_quiet hquiet, hsettled⟩ hC hrun
  intro r hr hepoch
  rcases hguarded.settled r hr with hrevoked | hsame | hspared
  · exact .inl hrevoked
  · exact absurd hsame hepoch
  · exact .inr hspared

/-! ### A session that survives a reset -/

/-- The sessions of the sample account rely on its password. -/
theorem settled_sample : Settled sampleState.store := by
  intro x hx
  obtain rfl := List.mem_singleton.mp hx
  exact .inr (.inl rfl)

/-- After a login has read the credential, a reset has run to its commit and the login to its
own, the login's session relies on the password before the reset. -/
theorem undone_session : ∃ s, Runs.run (step sampleHasher) sampleState undone = some s ∧ s.Quiet ∧
    ∃ r ∈ s.store.sessions, r.epoch ≠ s.store.epoch ∧ r.revokedAt.isSome = false ∧
      s.store.spared ≠ some r.id := by
  have h : (match Runs.run (step sampleHasher) sampleState undone with
      | some s => (s.txn 1).isNone && (s.txn 2).isNone && s.store.sessions.rows.any fun r =>
          r.epoch ≠ s.store.epoch ∧ r.revokedAt.isSome = false ∧ s.store.spared ≠ some r.id
      | none => false) = true := by
    decide +kernel
  rcases hr : Runs.run (step sampleHasher) sampleState undone with _ | s <;> simp only [hr] at h
  · simp at h
  rw [Bool.and_eq_true, Bool.and_eq_true, Option.isNone_iff_eq_none, Option.isNone_iff_eq_none] at h
  obtain ⟨⟨h₁, h₂⟩, hany⟩ := h
  obtain ⟨r, hmem, hr'⟩ := List.any_eq_true.mp hany
  refine ⟨s, rfl, fun i => ?_, r, hmem, of_decide_eq_true hr'⟩
  by_cases hi : i = 1 ∨ i = 2
  · rcases hi with rfl | rfl
    · exact h₁
    · exact h₂
  · have hindex : ∀ e ∈ undone, e.index = 1 ∨ e.index = 2 := by decide
    rw [txn_of_run (fun e he heq => hi (by rw [← heq]; exact hindex e he)) hr]
    rfl

/-- A session may outlive its password: that of a login which was in flight during a reset. -/
theorem session_outlives : ¬∀ (ph : PasswordHasher) (s t : State RowLock Store Point)
    (es : List (Event Point)), s.Quiet → Settled s.store →
      Runs.run (step ph) s es = some t → t.Quiet →
      ∀ r ∈ t.store.sessions, r.epoch ≠ t.store.epoch →
        r.revokedAt.isSome ∨ t.store.spared = some r.id := by
  intro h
  obtain ⟨s, hs, hquiet, r, hr, hepoch, hrevoked, hspared⟩ := undone_session
  rcases h sampleHasher sampleState s undone (fun _ => rfl) settled_sample hs hquiet r hr hepoch with
    hsome | hsame
  · rw [hrevoked] at hsome
    simp at hsome
  · exact hspared hsame

/-- The open session of the sample account does not survive a reset that no login overlaps. -/
theorem session_revoked_reset : ∃ t,
    Runs.run (step sampleHasher) sampleState (runWhole 2 (.reset sampleReset) 7) = some t ∧
    ∀ r ∈ t.store.sessions, r.epoch ≠ t.store.epoch →
      r.revokedAt.isSome ∨ t.store.spared = some r.id := by
  obtain ⟨t, ht⟩ : ∃ t, Runs.run (step sampleHasher) sampleState
      (runWhole 2 (.reset sampleReset) 7) = some t :=
    Option.isSome_iff_exists.mp (by decide +kernel)
  have hseparate : Runs.alongB (step sampleHasher) (fun s e => decide (Separate s e)) sampleState
      (runWhole 2 (.reset sampleReset) 7) = true := by
    decide +kernel
  exact ⟨t, ht, session_revoked (fun _ => rfl) settled_sample
    (.of_alongB (fun _ _ h => of_decide_eq_true h) hseparate) ht⟩

end KajovoDagmar.IdentityService
