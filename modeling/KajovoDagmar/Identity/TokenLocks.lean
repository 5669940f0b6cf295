import KajovoDagmar.Identity.Tokens
import KajovoDagmar.Library.Observed

/-! # The locks around tokens

A consumer owns the row of its token from the check to the commit, and the job and the change of the address own the
row of the account and of the profile, so two of them for one account exclude each other.  What a transaction has
found in the rows that it owns still holds when it commits (`Knows`). -/

namespace KajovoDagmar.Tokens

open ReadCommitted

variable {hs : Hashes}

/-! ### The rows that a transaction owns -/

/-- The row by which the issuers of a purpose exclude each other; the issuers of tickets have none. -/
def issuerLock (w : Issue) : Option RowLock :=
  match w.purpose with
  | .passwordReset => some (.account w.accountId)
  | .emailVerify => some (.profile w.accountId)
  | .realtimeTicket => none

def effectLock : Effect → Option RowLock
  | .ticket => none
  | .password accountId => some (.credential accountId)
  | .email accountId _ => some (.profile accountId)

def Holds : Point → RowLock → Prop
  | .initializeExisting _, k => k = .systemInstance
  | .initializeAudit _, k => k = .systemInstance
  | .initializeCommit _, k => k = .systemInstance
  | .resetProfile a, k => k = .account a.accountId
  | .scan w, k => issuerLock w = some k
  | .invalidate w _ _ marked, k => issuerLock w = some k ∨ ∃ id ∈ marked, k = .token id
  | .issueAudit w _ marked, k => issuerLock w = some k ∨ ∃ id ∈ marked, k = .token id
  | .issueCommit w _ marked, k => issuerLock w = some k ∨ ∃ id ∈ marked, k = .token id
  | .presentCredential _ tokenId _, k => k = .token tokenId
  | .presentProfile _ tokenId _, k => k = .token tokenId
  | .presentAudit _ tokenId effect, k => k = .token tokenId ∨ effectLock effect = some k
  | .presentCommit _ tokenId effect, k => k = .token tokenId ∨ effectLock effect = some k
  | _, _ => False

theorem holds_checkInstance {a : Initialize} {store : Store} {k : RowLock} (h : Holds (checkInstance hs a store) k) :
    k = .systemInstance := by
  unfold checkInstance at h
  split at h
  · exact h.elim
  split at h
  · exact h.elim
  split at h
  · exact h.elim
  · exact h

theorem holds_checkRecovery {a : ResetJob} {store : Store} {k : RowLock} (h : Holds (checkRecovery a store) k) :
    k = .account a.accountId := by
  unfold checkRecovery at h
  split at h
  · exact h.elim
  split at h
  · exact (Option.some.inj h).symm
  · exact h.elim

theorem holds_checkEmail {a : EmailChange} {store : Store} {k : RowLock} (h : Holds (checkEmail hs a store) k) :
    k = .profile a.accountId := by
  unfold checkEmail at h
  split at h
  · exact h.elim
  split at h
  · exact h.elim
  · exact (Option.some.inj h).symm

theorem holds_checkToken {a : Presentation} {store : Store} {tokenId : Uuid} {k : RowLock}
    (h : Holds (checkToken a store tokenId) k) : k = .token tokenId := by
  unfold checkToken at h
  split at h
  · exact h.elim
  split at h
  · rcases h with h | h
    · exact h
    · cases h
  · exact h
  · exact h

theorem holds_checkTarget {a : Presentation} {store : Store} {tokenId accountId : Uuid} {k : RowLock}
    (h : Holds (checkTarget hs a store tokenId accountId) k) : k = .token tokenId ∨ k = .profile accountId := by
  unfold checkTarget at h
  split at h
  · exact h.elim
  split at h
  · exact h.imp_right fun h => (Option.some.inj h).symm
  · exact h.elim

theorem discipline : Discipline (stmt hs) initial Holds where
  start := by
    intro t k ht hk
    cases t <;> simp [initial] at ht <;> exact hk
  lock := by
    intro t k next store k' hstmt hk
    cases t with
    | initializeLock a =>
      obtain ⟨rfl, rfl⟩ := Stmt.lock.inj hstmt
      exact .inl (holds_checkInstance hk)
    | initializeAudit a =>
      obtain ⟨rfl, rfl⟩ := Stmt.lock.inj hstmt
      exact .inr hk
    | resetJob a =>
      obtain ⟨rfl, rfl⟩ := Stmt.lock.inj hstmt
      simp only at hk
      split at hk
      · exact .inl hk
      · exact hk.elim
    | emailChange a =>
      obtain ⟨rfl, rfl⟩ := Stmt.lock.inj hstmt
      exact hk.elim
    | emailProfile a =>
      obtain ⟨rfl, rfl⟩ := Stmt.lock.inj hstmt
      exact .inl (holds_checkEmail hk)
    | ticket a =>
      obtain ⟨rfl, rfl⟩ := Stmt.lock.inj hstmt
      cases hk
    | invalidate w seen todo marked =>
      cases todo with
      | nil => cases hstmt
      | cons tokenId todo =>
        obtain ⟨rfl, rfl⟩ := Stmt.lock.inj hstmt
        simp only at hk
        split at hk
        · rcases hk with hk | ⟨id, hid, rfl⟩
          · exact .inr (.inl hk)
          · rcases List.mem_cons.mp hid with rfl | hid
            · exact .inl rfl
            · exact .inr (.inr ⟨id, hid, rfl⟩)
        · exact .inr hk
    | issueAudit w seen marked =>
      obtain ⟨rfl, rfl⟩ := Stmt.lock.inj hstmt
      exact .inr hk
    | presentLock a tokenId =>
      obtain ⟨rfl, rfl⟩ := Stmt.lock.inj hstmt
      exact .inl (holds_checkToken hk)
    | presentCredential a tokenId accountId =>
      obtain ⟨rfl, rfl⟩ := Stmt.lock.inj hstmt
      simp only at hk
      split at hk
      · rcases hk with hk | hk
        · exact .inr hk
        · exact .inl (Option.some.inj hk).symm
      · exact hk.elim
    | presentProfile a tokenId accountId =>
      obtain ⟨rfl, rfl⟩ := Stmt.lock.inj hstmt
      rcases holds_checkTarget hk with hk | hk
      · exact .inr hk
      · exact .inl hk
    | presentAudit a tokenId effect =>
      obtain ⟨rfl, rfl⟩ := Stmt.lock.inj hstmt
      exact .inr hk
    | denied =>
      obtain ⟨rfl, rfl⟩ := Stmt.lock.inj hstmt
      exact hk.elim
    | _ => cases hstmt
  read := by
    intro t next store k hstmt hk
    cases t with
    | initialization a =>
      obtain rfl := Stmt.read.inj hstmt
      simp only at hk
      split at hk <;> exact hk.elim
    | initializeExisting a =>
      obtain rfl := Stmt.read.inj hstmt
      simp only at hk
      split at hk
      · exact hk
      · exact hk.elim
    | resetProfile a =>
      obtain rfl := Stmt.read.inj hstmt
      exact holds_checkRecovery hk
    | emailCredential a =>
      obtain rfl := Stmt.read.inj hstmt
      simp only at hk
      split at hk
      · exact hk.elim
      · split at hk <;> exact hk.elim
    | scan w =>
      obtain rfl := Stmt.read.inj hstmt
      rcases hk with hk | ⟨id, hid, -⟩
      · exact hk
      · cases hid
    | invalidate w seen todo marked =>
      cases todo with
      | nil =>
        obtain rfl := Stmt.read.inj hstmt
        simp only at hk
        split at hk <;> exact hk
      | cons tokenId todo => cases hstmt
    | present a =>
      obtain rfl := Stmt.read.inj hstmt
      simp only at hk
      split at hk
      · exact hk.elim
      · split at hk <;> exact hk.elim
    | _ => cases hstmt

/-! ### Commits -/

theorem commit_cases {t : Point} {publish : Store → Option Store} (h : stmt hs t = .commit publish) :
    (∃ a, t = .initializeCommit a ∧ publish = publishInitialize hs a) ∨
    (∃ w seen marked, t = .issueCommit w seen marked ∧ publish = publishIssue hs w marked) ∨
    (∃ a tokenId effect, t = .presentCommit a tokenId effect ∧
      publish = fun store => some (publishUse hs a tokenId effect store)) ∨
    (t = .refused ∧ publish = some) := by
  cases t with
  | initializeCommit a =>
    obtain rfl := Stmt.commit.inj h
    exact .inl ⟨a, rfl, rfl⟩
  | issueCommit w seen marked =>
    obtain rfl := Stmt.commit.inj h
    exact .inr (.inl ⟨w, seen, marked, rfl, rfl⟩)
  | presentCommit a tokenId effect =>
    obtain rfl := Stmt.commit.inj h
    exact .inr (.inr (.inl ⟨a, tokenId, effect, rfl, rfl⟩))
  | refused =>
    obtain rfl := Stmt.commit.inj h
    exact .inr (.inr (.inr ⟨rfl, rfl⟩))
  | invalidate w seen todo marked => cases todo <;> cases h
  | _ => cases h

/-- A row of a token in a later store: its use and its invalidation are final, and the rest stays. -/
structure Continues (t t' : SecurityToken) : Prop where
  columns : t' = { t with usedAt := t'.usedAt, invalidatedAt := t'.invalidatedAt }
  used : t.usedAt.isSome → t'.usedAt.isSome
  invalidated : t.invalidatedAt.isSome → t'.invalidatedAt.isSome

theorem Continues.refl (t : SecurityToken) : Continues t t := ⟨rfl, id, id⟩

theorem invalidateToken_continues (w : Issue) (marked : List Uuid) (t : SecurityToken) :
    Continues t (invalidateToken w marked t) := by
  unfold invalidateToken
  split
  · exact ⟨rfl, id, fun _ => rfl⟩
  · exact Continues.refl t

theorem useToken_continues (a : Presentation) (tokenId : Uuid) (t : SecurityToken) :
    Continues t (useToken a tokenId t) := by
  unfold useToken
  split
  · exact ⟨rfl, fun _ => rfl, id⟩
  · exact Continues.refl t

/-- The rows of a later store: those of before, changed where the transaction owns them, and new ones. -/
structure Extends (held : Uuid → Prop) (store store' : Store) (f : SecurityToken → SecurityToken)
    (new : List SecurityToken) : Prop where
  rows : store'.tokens.rows = store.tokens.rows.map f ++ new
  continues : ∀ t, Continues t (f t)
  others : ∀ t, ¬held t.id → f t = t

theorem publishIssue_ok {w : Issue} {marked : List Uuid} {store store' : Store}
    (h : publishIssue hs w marked store = some store') :
    store'.tokens.rows = store.tokens.rows.map (invalidateToken w marked) ++ [newToken hs w] ∧
      store' = { store with
        tokens := store'.tokens
        profiles := store.profiles.mapRows (requestEmail w) (requestEmail_accountId w) } := by
  unfold publishIssue at h
  split at h
  · cases h
  obtain ⟨tokens, htokens, rfl⟩ := Option.map_eq_some_iff.mp h
  refine ⟨?_, rfl⟩
  rw [(Table.insert?_eq_some htokens).1, Table.rows_mapRows]

theorem publishInitialize_ok {a : Initialize} {store store' : Store} (h : publishInitialize hs a store = some store') :
    store'.accounts.rows = store.accounts.rows ++ [newAccount a] ∧
      store'.credentials.rows = store.credentials.rows ++ [newCredential hs a] ∧
      store'.profiles.rows = store.profiles.rows ++ [newProfile a] ∧
      store'.systemInstance = store.systemInstance.map (activated a) ∧ store'.tokens = store.tokens := by
  unfold publishInitialize at h
  split at h
  · cases h
  obtain ⟨accounts, haccounts, h⟩ := Option.bind_eq_some_iff.mp h
  obtain ⟨credentials, hcredentials, h⟩ := Option.bind_eq_some_iff.mp h
  obtain ⟨profiles, hprofiles, h⟩ := Option.bind_eq_some_iff.mp h
  obtain rfl := Option.some.inj h
  exact ⟨(Table.insert?_eq_some haccounts).1, (Table.insert?_eq_some hcredentials).1,
    (Table.insert?_eq_some hprofiles).1, rfl, rfl⟩

theorem publishUse_tokens (a : Presentation) (tokenId : Uuid) (effect : Effect) (store : Store) :
    (publishUse hs a tokenId effect store).tokens =
      store.tokens.mapRows (useToken a tokenId) (useToken_id a tokenId) := by
  cases effect <;> rfl

/-- **What a commit does to the tokens**: it changes those that the transaction owns, and an issuer adds its own. -/
theorem tokens_of_commit {t : Point} {publish : Store → Option Store} {store store' : Store}
    (hstmt : stmt hs t = .commit publish) (hstore : publish store = some store') :
    ∃ f new, Extends (fun id => Holds t (.token id)) store store' f new ∧
      (new = [] ∨ ∃ w seen marked, t = .issueCommit w seen marked ∧ new = [newToken hs w]) := by
  rcases commit_cases hstmt with ⟨a, rfl, rfl⟩ | ⟨w, seen, marked, rfl, rfl⟩ | ⟨a, tokenId, effect, rfl, rfl⟩ |
    ⟨rfl, rfl⟩
  · refine ⟨id, [], ⟨?_, Continues.refl, fun _ _ => rfl⟩, .inl rfl⟩
    rw [(publishInitialize_ok hstore).2.2.2.2, List.map_id, List.append_nil]
  · refine ⟨invalidateToken w marked, [newToken hs w], ⟨(publishIssue_ok hstore).1, invalidateToken_continues w marked,
      ?_⟩, .inr ⟨w, seen, marked, rfl, rfl⟩⟩
    intro t hnot
    exact if_neg fun hmem => hnot (.inr ⟨t.id, hmem, rfl⟩)
  · refine ⟨useToken a tokenId, [], ⟨?_, useToken_continues a tokenId, ?_⟩, .inl rfl⟩
    · rw [← Option.some.inj hstore, List.append_nil, publishUse_tokens, Table.rows_mapRows]
    · intro t hnot
      exact if_neg fun hid => hnot (.inl (by rw [hid]))
  · refine ⟨id, [], ⟨?_, Continues.refl, fun _ _ => rfl⟩, .inl rfl⟩
    rw [← Option.some.inj hstore, List.map_id, List.append_nil]

theorem Extends.mem {held : Uuid → Prop} {store store' : Store} {f : SecurityToken → SecurityToken}
    {new : List SecurityToken} (h : Extends held store store' f new) {t : SecurityToken} (ht : t ∈ store.tokens) :
    f t ∈ store'.tokens := by
  rw [Table.mem_def, h.rows]
  exact List.mem_append_left _ (List.mem_map_of_mem ht)

theorem Extends.cases {held : Uuid → Prop} {store store' : Store} {f : SecurityToken → SecurityToken}
    {new : List SecurityToken} (h : Extends held store store' f new) {t : SecurityToken} (ht : t ∈ store'.tokens) :
    (∃ old ∈ store.tokens, t = f old) ∨ t ∈ new := by
  rw [Table.mem_def, h.rows] at ht
  rcases List.mem_append.mp ht with hold | hnew
  · obtain ⟨old, hmem, rfl⟩ := List.mem_map.mp hold
    exact .inl ⟨old, hmem, rfl⟩
  · exact .inr hnew

/-! ### What a transaction knows -/

/-- The instance waits for its initialisation with the presented secret. -/
def Awaits (hs : Hashes) (store : Store) (a : Initialize) : Prop :=
  ∃ row, store.systemInstance = some row ∧ row.state = "uninitialized" ∧
    row.initializationSecretConsumedAt = none ∧
    hs.tokenDigest a.initializationSecret "initialization" = row.initializationSecretDigest

/-- The presented token, for the purpose for which it is presented. -/
def Found (hs : Hashes) (store : Store) (a : Presentation) (tokenId : Uuid) : Prop :=
  ∃ t ∈ store.tokens, t.id = tokenId ∧ t.purpose = a.purpose ∧
    t.tokenDigest = hs.tokenDigest a.token a.purpose.text

/-- The presented token of an account can be consumed. -/
def Presents (hs : Hashes) (store : Store) (a : Presentation) (tokenId accountId : Uuid) : Prop :=
  ∃ t ∈ store.tokens, t.id = tokenId ∧ t.accountId = accountId ∧ t.purpose = a.purpose ∧
    t.tokenDigest = hs.tokenDigest a.token a.purpose.text ∧ usable a t = true

/-- The presented token can be consumed with the effect. -/
def Supports (hs : Hashes) (store : Store) (a : Presentation) (tokenId : Uuid) : Effect → Prop
  | .ticket => a.purpose = .realtimeTicket ∧ ∃ accountId, Presents hs store a tokenId accountId
  | .password accountId => a.purpose = .passwordReset ∧ Presents hs store a tokenId accountId
  | .email accountId email => a.purpose = .emailVerify ∧ Presents hs store a tokenId accountId ∧
    ∃ p ∈ store.profiles, p.accountId = accountId ∧ p.pendingEmail = some email

/-- The token that one of the requests asks for. -/
def Requested (hs : Hashes) (w : Issue) : Prop :=
  (∃ a : ResetJob, w = a.issue) ∨ (∃ a : EmailChange, w = a.issue hs) ∨ ∃ a : TicketRequest, w = a.issue

/-- Only a token for an address has a target. -/
theorem Requested.email {w : Issue} (h : Requested hs w) (htarget : w.target.isSome) : w.purpose = .emailVerify := by
  rcases h with ⟨a, rfl⟩ | ⟨a, rfl⟩ | ⟨a, rfl⟩
  · cases htarget
  · rfl
  · cases htarget

theorem Requested.target {w : Issue} (h : Requested hs w) (hpurpose : w.purpose = .emailVerify) : w.target.isSome := by
  rcases h with ⟨a, rfl⟩ | ⟨a, rfl⟩ | ⟨a, rfl⟩
  · cases hpurpose
  · rfl
  · cases hpurpose

/-- Among the tokens that the bulk invalidation has seen, those that it replaces are among the given ones, and an
issuer that excludes others has seen all tokens of its account and purpose. -/
structure Covers (store : Store) (w : Issue) (seen : ℕ) (ids : List Uuid) : Prop where
  bounded : seen ≤ store.tokens.rows.length
  scanned : ∀ id ∈ ids, ∃ t ∈ store.tokens.rows.take seen, t.id = id
  covered : ∀ t ∈ store.tokens.rows.take seen, replaceable w t = true → t.id ∈ ids
  complete : (issuerLock w).isSome → ∀ t ∈ store.tokens.rows.drop seen,
    ¬(t.accountId = w.accountId ∧ t.purpose = w.purpose)

/-- What a transaction has found out at its point of the program. -/
def Knows (hs : Hashes) (store : Store) : Point → Prop
  | .initializeExisting a => Awaits hs store a
  | .initializeAudit a => Awaits hs store a ∧ store.accounts.rows = []
  | .initializeCommit a => Awaits hs store a ∧ store.accounts.rows = []
  | .scan w => Requested hs w
  | .invalidate w seen todo marked => Requested hs w ∧ Covers store w seen (todo ++ marked)
  | .issueAudit w seen marked => Requested hs w ∧ Covers store w seen marked
  | .issueCommit w seen marked => Requested hs w ∧ Covers store w seen marked
  | .presentLock a tokenId => Found hs store a tokenId
  | .presentCredential a tokenId accountId => a.purpose = .passwordReset ∧ Presents hs store a tokenId accountId
  | .presentProfile a tokenId accountId => a.purpose = .emailVerify ∧ Presents hs store a tokenId accountId
  | .presentAudit a tokenId effect => Supports hs store a tokenId effect
  | .presentCommit a tokenId effect => Supports hs store a tokenId effect
  | _ => True

/-- What the bulk invalidation sees it covers. -/
theorem covers_scan (store : Store) (w : Issue) : Covers store w store.tokens.rows.length
    ((store.tokens.select (replaceable w)).map SecurityToken.id ++ []) where
  bounded := le_refl _
  scanned := by
    intro id hid
    rw [List.append_nil] at hid
    obtain ⟨t, ht, rfl⟩ := List.mem_map.mp hid
    rw [List.take_length]
    exact ⟨t, (List.mem_filter.mp ht).1, rfl⟩
  covered := by
    intro t ht hreplaceable
    rw [List.take_length] at ht
    rw [List.append_nil]
    exact List.mem_map_of_mem (List.mem_filter.mpr ⟨ht, hreplaceable⟩)
  complete := by
    intro _ t ht
    rw [List.drop_length] at ht
    cases ht

/-- A row that no longer satisfies the condition needs no mark. -/
theorem Covers.skip {store : Store} {w : Issue} {seen : ℕ} {tokenId : Uuid} {ids : List Uuid}
    (h : Covers store w seen (tokenId :: ids)) (hnot : (store.tokens.find? tokenId).any (replaceable w) = false) :
    Covers store w seen ids := by
  refine ⟨h.bounded, fun id hid => h.scanned id (List.mem_cons_of_mem _ hid), fun t ht hreplaceable => ?_, h.complete⟩
  rcases List.mem_cons.mp (h.covered t ht hreplaceable) with rfl | hid
  · rw [Table.find?_of_mem (List.mem_of_mem_take ht), Option.any_some, hreplaceable] at hnot
    cases hnot
  · exact hid

theorem Covers.perm {store : Store} {w : Issue} {seen : ℕ} {ids ids' : List Uuid} (h : Covers store w seen ids)
    (hperm : ids.Perm ids') : Covers store w seen ids' :=
  ⟨h.bounded, fun id hid => h.scanned id (hperm.mem_iff.mpr hid),
    fun t ht hreplaceable => hperm.mem_iff.mp (h.covered t ht hreplaceable), h.complete⟩

theorem knows_checkToken {a : Presentation} {store : Store} {tokenId : Uuid} (h : Found hs store a tokenId) :
    Knows hs store (checkToken a store tokenId) := by
  unfold checkToken
  obtain ⟨t, ht, rfl, hpurpose, hdigest⟩ := h
  rw [Table.find?_of_mem ht]
  cases husable : (some t).filter (usable a) with
  | none => trivial
  | some t' =>
    obtain ⟨hsame, husable'⟩ := Option.filter_eq_some_iff.mp husable
    obtain rfl := Option.some.inj hsame
    have hpresents : Presents hs store a t.id t.accountId := ⟨t, ht, rfl, rfl, hpurpose, hdigest, husable'⟩
    cases hkind : a.purpose with
    | passwordReset => exact ⟨hkind, hpresents⟩
    | emailVerify => exact ⟨hkind, hpresents⟩
    | realtimeTicket => exact ⟨hkind, _, hpresents⟩

theorem knows_checkTarget {a : Presentation} {store : Store} {tokenId accountId : Uuid}
    (h : a.purpose = .emailVerify ∧ Presents hs store a tokenId accountId) :
    Knows hs store (checkTarget hs a store tokenId accountId) := by
  unfold checkTarget
  split
  · trivial
  · next pending hpending =>
    split
    · obtain ⟨p, hp, hfilter⟩ := Option.bind_eq_some_iff.mp hpending
      refine ⟨h.1, h.2, p, Table.mem_of_find? hp, Table.key_of_find? hp, ?_⟩
      exact (Option.filter_eq_some_iff.mp hfilter).1
    · trivial

theorem knows_lock (store : Store) (t : Point) (k : RowLock) (next : Store → Point)
    (hstmt : stmt hs t = .lock k next) (h : Knows hs store t) : Knows hs store (next store) := by
  cases t with
  | initializeLock a =>
    obtain ⟨rfl, rfl⟩ := Stmt.lock.inj hstmt
    unfold checkInstance
    split
    · trivial
    · next row hrow =>
      split
      · trivial
      · next hstate =>
        split
        · trivial
        · next hdigest =>
          rw [not_or, not_not, Bool.not_eq_true, Option.isSome_eq_false_iff, Option.isNone_iff_eq_none] at hstate
          exact ⟨row, hrow, hstate.1, hstate.2, not_not.mp hdigest⟩
  | initializeAudit a =>
    obtain ⟨rfl, rfl⟩ := Stmt.lock.inj hstmt
    exact h
  | resetJob a =>
    obtain ⟨rfl, rfl⟩ := Stmt.lock.inj hstmt
    simp only
    split <;> trivial
  | emailChange a =>
    obtain ⟨rfl, rfl⟩ := Stmt.lock.inj hstmt
    trivial
  | emailProfile a =>
    obtain ⟨rfl, rfl⟩ := Stmt.lock.inj hstmt
    unfold checkEmail
    split
    · trivial
    split
    · trivial
    · exact .inr (.inl ⟨a, rfl⟩)
  | ticket a =>
    obtain ⟨rfl, rfl⟩ := Stmt.lock.inj hstmt
    exact .inr (.inr ⟨a, rfl⟩)
  | invalidate w seen todo marked =>
    cases todo with
    | nil => cases hstmt
    | cons tokenId todo =>
      obtain ⟨rfl, rfl⟩ := Stmt.lock.inj hstmt
      obtain ⟨hrequested, hcovers⟩ := h
      simp only
      split
      · refine ⟨hrequested, hcovers.perm ?_⟩
        rw [List.cons_append]
        exact List.perm_middle.symm
      · next hnot => exact ⟨hrequested, hcovers.skip (Bool.not_eq_true _ ▸ hnot)⟩
  | issueAudit w seen marked =>
    obtain ⟨rfl, rfl⟩ := Stmt.lock.inj hstmt
    exact h
  | presentLock a tokenId =>
    obtain ⟨rfl, rfl⟩ := Stmt.lock.inj hstmt
    exact knows_checkToken h
  | presentCredential a tokenId accountId =>
    obtain ⟨rfl, rfl⟩ := Stmt.lock.inj hstmt
    simp only
    split
    · exact h
    · trivial
  | presentProfile a tokenId accountId =>
    obtain ⟨rfl, rfl⟩ := Stmt.lock.inj hstmt
    exact knows_checkTarget h
  | presentAudit a tokenId effect =>
    obtain ⟨rfl, rfl⟩ := Stmt.lock.inj hstmt
    exact h
  | denied =>
    obtain ⟨rfl, rfl⟩ := Stmt.lock.inj hstmt
    trivial
  | _ => cases hstmt

theorem knows_read (store : Store) (t : Point) (next : Store → Point) (hstmt : stmt hs t = .read next)
    (h : Knows hs store t) : Knows hs store (next store) := by
  cases t with
  | initialization a =>
    obtain rfl := Stmt.read.inj hstmt
    simp only
    split <;> trivial
  | initializeExisting a =>
    obtain rfl := Stmt.read.inj hstmt
    simp only
    split
    · next hnone => exact ⟨h, hnone.1⟩
    · trivial
  | resetProfile a =>
    obtain rfl := Stmt.read.inj hstmt
    unfold checkRecovery
    split
    · trivial
    split
    · exact .inl ⟨a, rfl⟩
    · trivial
  | emailCredential a =>
    obtain rfl := Stmt.read.inj hstmt
    simp only
    split
    · trivial
    · split <;> trivial
  | scan w =>
    obtain rfl := Stmt.read.inj hstmt
    exact ⟨h, covers_scan store w⟩
  | invalidate w seen todo marked =>
    cases todo with
    | nil =>
      obtain rfl := Stmt.read.inj hstmt
      simp only
      split <;> exact h
    | cons tokenId todo => cases hstmt
  | present a =>
    obtain rfl := Stmt.read.inj hstmt
    simp only
    split
    · trivial
    · split
      · trivial
      · next t ht =>
        obtain ⟨hmem, hselected⟩ := List.mem_filter.mp (List.mem_of_head? ht)
        obtain ⟨hdigest, hpurpose⟩ := of_decide_eq_true hselected
        exact ⟨t, hmem, rfl, hpurpose, hdigest⟩
  | _ => cases hstmt

/-! ### Commits of others -/

section others

variable {t : Point} {publish : Store → Option Store} {store store' : Store} (hstmt : stmt hs t = .commit publish)
  (hstore : publish store = some store') (hknows : Knows hs store t)

include hstmt hstore in
theorem Found.commit {a : Presentation} {tokenId : Uuid} (h : Found hs store a tokenId) :
    Found hs store' a tokenId := by
  obtain ⟨f, new, hextends, -⟩ := tokens_of_commit hstmt hstore
  obtain ⟨x, hx, hid, hpurpose, hdigest⟩ := h
  have hcolumns := (hextends.continues x).columns
  refine ⟨f x, hextends.mem hx, ?_, ?_, ?_⟩
  · rw [hcolumns]
    exact hid
  · rw [hcolumns]
    exact hpurpose
  · rw [hcolumns]
    exact hdigest

include hstmt hstore in
theorem Presents.commit {a : Presentation} {tokenId accountId : Uuid} (h : Presents hs store a tokenId accountId)
    (hnot : ¬Holds t (.token tokenId)) : Presents hs store' a tokenId accountId := by
  obtain ⟨f, new, hextends, -⟩ := tokens_of_commit hstmt hstore
  obtain ⟨x, hx, rfl, hrest⟩ := h
  refine ⟨x, ?_, rfl, hrest⟩
  have hmem := hextends.mem hx
  rwa [hextends.others x hnot] at hmem

include hstmt hstore hknows in
/-- The profiles that a transaction does not own stay. -/
theorem profile_of_commit {p : AdministratorProfile} (hp : p ∈ store.profiles)
    (hnot : ¬Holds t (.profile p.accountId)) : p ∈ store'.profiles := by
  rcases commit_cases hstmt with ⟨a, rfl, rfl⟩ | ⟨w, seen, marked, rfl, rfl⟩ | ⟨a, tokenId, effect, rfl, rfl⟩ |
    ⟨rfl, rfl⟩
  · rw [Table.mem_def, (publishInitialize_ok hstore).2.2.1]
    exact List.mem_append_left _ hp
  · rw [(publishIssue_ok hstore).2, Table.mem_def, Table.rows_mapRows]
    have hsame : requestEmail w p = p := by
      unfold requestEmail
      split
      · rfl
      · next email htarget =>
        refine if_neg fun haccount => hnot (.inl ?_)
        have hpurpose : w.purpose = .emailVerify := hknows.1.email (by rw [htarget]; rfl)
        unfold issuerLock
        rw [hpurpose, haccount]
    rw [← hsame]
    exact List.mem_map_of_mem hp
  · rw [← Option.some.inj hstore]
    cases effect with
    | ticket => exact hp
    | password accountId => exact hp
    | email accountId email =>
      have hsame : verifyEmail a accountId email p = p :=
        if_neg fun haccount => hnot (.inr (by rw [haccount]; rfl))
      rw [Table.mem_def]
      show p ∈ (store.profiles.mapRows (verifyEmail a accountId email) (verifyEmail_accountId a accountId email)).rows
      rw [Table.rows_mapRows, ← hsame]
      exact List.mem_map_of_mem hp
  · rw [← Option.some.inj hstore]
    exact hp

include hstmt hstore in
/-- The instance and the accounts stay unless the transaction owns the instance. -/
theorem instance_of_commit (hnot : ¬Holds t .systemInstance) :
    store'.systemInstance = store.systemInstance ∧ store'.accounts = store.accounts := by
  rcases commit_cases hstmt with ⟨a, rfl, rfl⟩ | ⟨w, seen, marked, rfl, rfl⟩ | ⟨a, tokenId, effect, rfl, rfl⟩ |
    ⟨rfl, rfl⟩
  · exact (hnot rfl).elim
  · rw [(publishIssue_ok hstore).2]
    exact ⟨rfl, rfl⟩
  · rw [← Option.some.inj hstore]
    cases effect <;> exact ⟨rfl, rfl⟩
  · rw [← Option.some.inj hstore]
    exact ⟨rfl, rfl⟩

/-- A row that satisfies the condition later has satisfied it before. -/
theorem replaceable_of_continues {w : Issue} {x y : SecurityToken} (h : Continues x y)
    (hreplaceable : replaceable w y = true) : replaceable w x = true ∧ y.id = x.id := by
  rw [h.columns] at hreplaceable ⊢
  refine ⟨?_, rfl⟩
  simp only [replaceable, SecurityToken.isOpen, Bool.decide_and, Bool.and_eq_true, decide_eq_true_eq] at hreplaceable ⊢
  obtain ⟨haccount, hpurpose, hused, hinvalidated⟩ := hreplaceable
  refine ⟨haccount, hpurpose, ?_, ?_⟩
  · cases hx : x.usedAt with
    | none => rfl
    | some u =>
      have := h.used (by rw [hx]; rfl)
      rw [Option.isNone_iff_eq_none] at hused
      rw [hused] at this
      cases this
  · cases hx : x.invalidatedAt with
    | none => rfl
    | some u =>
      have := h.invalidated (by rw [hx]; rfl)
      rw [Option.isNone_iff_eq_none] at hinvalidated
      rw [hinvalidated] at this
      cases this

include hstmt hstore in
theorem Covers.commit {w : Issue} {seen : ℕ} {ids : List Uuid} (h : Covers store w seen ids)
    (hnot : ∀ k, issuerLock w = some k → ¬Holds t k) : Covers store' w seen ids := by
  obtain ⟨f, new, hextends, hnew⟩ := tokens_of_commit hstmt hstore
  have hlength : seen ≤ (store.tokens.rows.map f).length := by
    rw [List.length_map]
    exact h.bounded
  constructor
  · rw [hextends.rows, List.length_append]
    exact Nat.le_add_right_of_le hlength
  · intro id hid
    obtain ⟨x, hx, rfl⟩ := h.scanned id hid
    refine ⟨f x, ?_, by rw [(hextends.continues x).columns]⟩
    rw [hextends.rows, List.take_append_of_le_length hlength, ← List.map_take]
    exact List.mem_map_of_mem hx
  · intro y hy hreplaceable
    rw [hextends.rows, List.take_append_of_le_length hlength, ← List.map_take] at hy
    obtain ⟨x, hx, rfl⟩ := List.mem_map.mp hy
    obtain ⟨hbefore, hid⟩ := replaceable_of_continues (hextends.continues x) hreplaceable
    rw [hid]
    exact h.covered x hx hbefore
  · intro hlock y hy hsame
    rw [hextends.rows, List.drop_append_of_le_length hlength, ← List.map_drop] at hy
    rcases List.mem_append.mp hy with hold | hadded
    · obtain ⟨x, hx, rfl⟩ := List.mem_map.mp hold
      rw [(hextends.continues x).columns] at hsame
      exact h.complete hlock x hx hsame
    · rcases hnew with rfl | ⟨w', seen', marked', rfl, rfl⟩
      · cases hadded
      · obtain rfl := List.mem_singleton.mp hadded
        obtain ⟨haccount, hpurpose⟩ := hsame
        obtain ⟨k, hk⟩ := Option.isSome_iff_exists.mp hlock
        refine hnot k hk (.inl ?_)
        rw [← hk]
        unfold issuerLock
        rw [show w'.purpose = w.purpose from hpurpose, show w'.accountId = w.accountId from haccount]

end others

/-- What a transaction knows survives the commit of another. -/
theorem knows_commit {s : State RowLock Store Point} {i j : ℕ} {t u : Point} {publish : Store → Option Store}
    {store : Store} (hheld : Held Holds s) (hij : j ≠ i) (hi : s.txn i = some t) (hj : s.txn j = some u)
    (hstmt : stmt hs t = .commit publish) (hstore : publish s.store = some store) (ht : Knows hs s.store t)
    (hu : Knows hs s.store u) : Knows hs store u := by
  have hexclusive : ∀ k, Holds u k → ¬Holds t k := fun k huk htk => hij (hheld.unique hj hi huk htk)
  have hawaits : ∀ {a}, Holds u .systemInstance → Awaits hs s.store a → Awaits hs store a := by
    intro a hk h
    unfold Awaits
    rw [(instance_of_commit hstmt hstore (hexclusive _ hk)).1]
    exact h
  have haccounts : Holds u .systemInstance → s.store.accounts.rows = [] → store.accounts.rows = [] := by
    intro hk h
    rw [(instance_of_commit hstmt hstore (hexclusive _ hk)).2]
    exact h
  have hsupports : ∀ {a tokenId effect}, Holds u (.token tokenId) →
      (∀ k, effectLock effect = some k → Holds u k) → Supports hs s.store a tokenId effect →
      Supports hs store a tokenId effect := by
    intro a tokenId effect hk heffect h
    have hpresents : ∀ {accountId}, Presents hs s.store a tokenId accountId →
        Presents hs store a tokenId accountId := fun h => h.commit hstmt hstore (hexclusive _ hk)
    cases effect with
    | ticket => exact ⟨h.1, h.2.imp fun _ => hpresents⟩
    | password accountId => exact ⟨h.1, hpresents h.2⟩
    | email accountId email =>
      obtain ⟨hpurpose, hpresent, p, hp, haccount, hpending⟩ := h
      refine ⟨hpurpose, hpresents hpresent, p, ?_, haccount, hpending⟩
      apply profile_of_commit hstmt hstore ht hp
      rw [haccount]
      exact hexclusive _ (heffect _ rfl)
  cases u with
  | initializeExisting a => exact hawaits rfl hu
  | initializeAudit a => exact ⟨hawaits rfl hu.1, haccounts rfl hu.2⟩
  | initializeCommit a => exact ⟨hawaits rfl hu.1, haccounts rfl hu.2⟩
  | invalidate w seen todo marked =>
    exact ⟨hu.1, hu.2.commit hstmt hstore fun k hk => hexclusive k (.inl hk)⟩
  | issueAudit w seen marked => exact ⟨hu.1, hu.2.commit hstmt hstore fun k hk => hexclusive k (.inl hk)⟩
  | issueCommit w seen marked => exact ⟨hu.1, hu.2.commit hstmt hstore fun k hk => hexclusive k (.inl hk)⟩
  | presentLock a tokenId => exact hu.commit hstmt hstore
  | presentCredential a tokenId accountId => exact ⟨hu.1, hu.2.commit hstmt hstore (hexclusive _ rfl)⟩
  | presentProfile a tokenId accountId => exact ⟨hu.1, hu.2.commit hstmt hstore (hexclusive _ rfl)⟩
  | presentAudit a tokenId effect => exact hsupports (.inl rfl) (fun k hk => .inr hk) hu
  | presentCommit a tokenId effect => exact hsupports (.inl rfl) (fun k hk => .inr hk) hu
  | _ => exact hu

/-- What holds in every state of a run, whatever the requests are. -/
structure Sound (hs : Hashes) (s : State RowLock Store Point) : Prop where
  held : Held Holds s
  knows : Asserted (Knows hs) s

theorem Sound.of_quiet {s : State RowLock Store Point} (h : s.Quiet) : Sound hs s :=
  ⟨Held.of_quiet h, Asserted.of_quiet h⟩

/-- **Step lemma**: every transaction goes on owning its rows and knowing what it has found in them. -/
theorem Sound.of_step {s s' : State RowLock Store Point} {e : Event Point} (h : Sound hs s)
    (hstep : step hs s e = some s') : Sound hs s' := by
  refine ⟨h.held.of_step discipline hstep, h.knows.of_step ?_ knows_lock knows_read ?_ hstep⟩
  · intro store t ht
    cases t <;> simp [initial] at ht <;> trivial
  · intro i t publish store _ ht hstmt hstore j u hij hj hu
    exact knows_commit h.held hij ht hj hstmt hstore (h.knows i t ht) hu

/-! ### What a commit leaves open -/

/-- A row that is open later has been open before. -/
theorem open_of_continues {x y : SecurityToken} (h : Continues x y) (hopen : y.isOpen = true) : x.isOpen = true := by
  simp only [SecurityToken.isOpen, Bool.decide_and, Bool.and_eq_true, decide_eq_true_eq,
    Option.isNone_iff_eq_none] at hopen ⊢
  obtain ⟨hused, hinvalidated⟩ := hopen
  constructor
  · by_contra hx
    have hy := h.used (Option.isSome_iff_ne_none.mpr hx)
    simp [hused] at hy
  · by_contra hx
    have hy := h.invalidated (Option.isSome_iff_ne_none.mpr hx)
    simp [hinvalidated] at hy

/-- An open token after a commit has been open before, or has just been issued. -/
theorem open_of_commit {t : Point} {publish : Store → Option Store} {store store' : Store}
    (hstmt : stmt hs t = .commit publish) (hstore : publish store = some store') {x : SecurityToken}
    (hx : x ∈ store'.tokens) (hopen : x.isOpen = true) :
    (∃ old ∈ store.tokens, old.isOpen = true ∧ Continues old x) ∨
      ∃ v seen marked, t = .issueCommit v seen marked ∧ x = newToken hs v := by
  obtain ⟨f, new, hextends, hnew⟩ := tokens_of_commit hstmt hstore
  rcases hextends.cases hx with ⟨old, hold, rfl⟩ | hadded
  · exact .inl ⟨old, hold, open_of_continues (hextends.continues old) hopen, hextends.continues old⟩
  · rcases hnew with rfl | ⟨v, seen, marked, rfl, rfl⟩
    · cases hadded
    · exact .inr ⟨v, seen, marked, rfl, List.mem_singleton.mp hadded⟩

/-- An issuer invalidates every open token of its account and purpose that its bulk invalidation has seen. -/
theorem open_of_issue {store store' : Store} {v : Issue} {seen : ℕ} {marked : List Uuid}
    (hcovers : Covers store v seen marked) (hstore : publishIssue hs v marked store = some store') {t : SecurityToken}
    (ht : t ∈ store'.tokens) (hopen : t.isOpen = true) (haccount : t.accountId = v.accountId)
    (hpurpose : t.purpose = v.purpose) :
    t = newToken hs v ∨ ∃ x ∈ store.tokens.rows.drop seen, x.isOpen = true ∧ Continues x t := by
  rw [Table.mem_def, (publishIssue_ok hstore).1] at ht
  rcases List.mem_append.mp ht with hold | hnew
  · right
    obtain ⟨x, hx, rfl⟩ := List.mem_map.mp hold
    have hcontinues := invalidateToken_continues v marked x
    have hbefore := open_of_continues hcontinues hopen
    rw [← List.take_append_drop seen store.tokens.rows] at hx
    rcases List.mem_append.mp hx with hseen | hunseen
    · rw [hcontinues.columns] at haccount hpurpose
      have hmarked : x.id ∈ marked := hcovers.covered x hseen (decide_eq_true ⟨haccount, hpurpose, hbefore⟩)
      unfold invalidateToken at hopen
      rw [if_pos hmarked] at hopen
      simp [SecurityToken.isOpen] at hopen
    · exact ⟨x, hunseen, hbefore, hcontinues⟩
  · exact .inl (List.mem_singleton.mp hnew)

/-- An issuer that excludes others invalidates every other open token of its account and purpose. -/
theorem open_of_exclusive {store store' : Store} {v : Issue} {seen : ℕ} {marked : List Uuid}
    (hcovers : Covers store v seen marked) (hlock : (issuerLock v).isSome)
    (hstore : publishIssue hs v marked store = some store') {t : SecurityToken} (ht : t ∈ store'.tokens)
    (hopen : t.isOpen = true) (haccount : t.accountId = v.accountId) (hpurpose : t.purpose = v.purpose) :
    t = newToken hs v := by
  refine (open_of_issue hcovers hstore ht hopen haccount hpurpose).resolve_right ?_
  rintro ⟨x, hx, -, hcontinues⟩
  rw [hcontinues.columns] at haccount hpurpose
  exact hcovers.complete hlock x hx ⟨haccount, hpurpose⟩

end KajovoDagmar.Tokens
