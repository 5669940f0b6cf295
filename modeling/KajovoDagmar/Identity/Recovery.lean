import KajovoDagmar.Identity.Addresses

/-! # Recovery while an address is changed

A profile keeps its verified address beside the pending one, but has one state for both.  `begin_email_change` sets
it to pending, and `process_password_reset` asks for a verified one.  So an account whose address was once verified
can be recovered exactly while no change of the address is unfinished (`recovery_iff`). -/

namespace KajovoDagmar.Tokens

open ReadCommitted

variable {hs : Hashes}

/-! ### The recipient -/

/-- The address that `process_password_reset` sends the link to. -/
def recipient (store : Store) (accountId : Uuid) : Option String :=
  (store.profiles.find? accountId).bind fun p =>
    if p.emailState = .verified then p.email.filter (· ≠ "") else none

/-- `process_password_reset` accepts an account that has a recipient. -/
theorem checkRecovery_iff {a : ResetJob} (hmailer : a.mailerAvailable = true) (store : Store) :
    checkRecovery a store = .scan a.issue ↔ (recipient store a.accountId).isSome := by
  unfold checkRecovery recipient
  cases store.profiles.find? a.accountId with
  | none => simp
  | some p =>
    by_cases hverified : p.emailState = .verified
    · simp [hverified, hmailer]
    · simp [hverified]

/-- `process_password_reset` accepts the account of the profile and sends to its address. -/
structure Recovers (store : Store) (p : AdministratorProfile) : Prop where
  addressed : p.email.isSome
  accepted : ∀ a : ResetJob, a.accountId = p.accountId → a.mailerAvailable = true →
    checkRecovery a store = .scan a.issue
  recipient : recipient store p.accountId = p.email

/-- The last change of the address of the account is begun, and its link has not been used. -/
def Unfinished (log : List Entry) (accountId : Uuid) : Prop :=
  ∃ v, lastChange log accountId = some v ∧ v.tokenId ∉ log.filterMap Entry.consumedToken

/-! ### Addresses are not empty -/

/-- An address that is about to be verified is not empty. -/
def Addressed (_ : Store) : Point → Prop
  | .presentAudit _ _ (.email _ email) => email ≠ ""
  | .presentCommit _ _ (.email _ email) => email ≠ ""
  | _ => True

theorem addressed_checkTarget (a : Presentation) (store : Store) (tokenId accountId : Uuid) :
    Addressed store (checkTarget hs a store tokenId accountId) := by
  unfold checkTarget
  split
  · trivial
  · next pending hpending =>
    split
    · obtain ⟨p, -, hfilter⟩ := Option.bind_eq_some_iff.mp hpending
      have hne : pending ≠ "" := of_decide_eq_true (Option.filter_eq_some_iff.mp hfilter).2
      exact hne
    · trivial

theorem addressed_checkToken (a : Presentation) (store : Store) (tokenId : Uuid) :
    Addressed store (checkToken a store tokenId) := by
  unfold checkToken
  split
  · trivial
  · cases a.purpose <;> trivial

theorem addressed_lock (store : Store) (t : Point) (k : RowLock) (next : Store → Point)
    (hstmt : stmt hs t = .lock k next) (h : Addressed store t) : Addressed store (next store) := by
  cases t with
  | initializeLock a =>
    obtain ⟨rfl, rfl⟩ := Stmt.lock.inj hstmt
    unfold checkInstance
    split
    · trivial
    · split
      · trivial
      · split <;> trivial
  | resetJob a =>
    obtain ⟨rfl, rfl⟩ := Stmt.lock.inj hstmt
    simp only
    split <;> trivial
  | emailProfile a =>
    obtain ⟨rfl, rfl⟩ := Stmt.lock.inj hstmt
    unfold checkEmail
    split
    · trivial
    · split <;> trivial
  | invalidate w seen todo marked =>
    cases todo with
    | nil => cases hstmt
    | cons tokenId todo =>
      obtain ⟨rfl, rfl⟩ := Stmt.lock.inj hstmt
      simp only
      split <;> trivial
  | presentLock a tokenId =>
    obtain ⟨rfl, rfl⟩ := Stmt.lock.inj hstmt
    exact addressed_checkToken a store tokenId
  | presentCredential a tokenId accountId =>
    obtain ⟨rfl, rfl⟩ := Stmt.lock.inj hstmt
    simp only
    split <;> trivial
  | presentProfile a tokenId accountId =>
    obtain ⟨rfl, rfl⟩ := Stmt.lock.inj hstmt
    exact addressed_checkTarget a store tokenId accountId
  | presentAudit a tokenId effect =>
    obtain ⟨rfl, rfl⟩ := Stmt.lock.inj hstmt
    cases effect <;> exact h
  | initializeAudit a => obtain ⟨rfl, rfl⟩ := Stmt.lock.inj hstmt; trivial
  | emailChange a => obtain ⟨rfl, rfl⟩ := Stmt.lock.inj hstmt; trivial
  | ticket a => obtain ⟨rfl, rfl⟩ := Stmt.lock.inj hstmt; trivial
  | issueAudit w seen marked => obtain ⟨rfl, rfl⟩ := Stmt.lock.inj hstmt; trivial
  | denied => obtain ⟨rfl, rfl⟩ := Stmt.lock.inj hstmt; trivial
  | _ => cases hstmt

/-- No read leads to an address that is verified. -/
theorem addressed_read (store : Store) (t : Point) (next : Store → Point) (hstmt : stmt hs t = .read next) :
    Addressed store (next store) := by
  cases t with
  | initialization a =>
    obtain rfl := Stmt.read.inj hstmt
    simp only
    split <;> trivial
  | initializeExisting a =>
    obtain rfl := Stmt.read.inj hstmt
    simp only
    split <;> trivial
  | resetProfile a =>
    obtain rfl := Stmt.read.inj hstmt
    unfold checkRecovery
    split
    · trivial
    · split <;> trivial
  | emailCredential a =>
    obtain rfl := Stmt.read.inj hstmt
    simp only
    split
    · trivial
    · split <;> trivial
  | scan w =>
    obtain rfl := Stmt.read.inj hstmt
    trivial
  | invalidate w seen todo marked =>
    cases todo with
    | nil =>
      obtain rfl := Stmt.read.inj hstmt
      simp only
      split <;> trivial
    | cons tokenId todo => cases hstmt
  | present a =>
    obtain rfl := Stmt.read.inj hstmt
    simp only
    split
    · trivial
    · split <;> trivial
  | _ => cases hstmt

theorem addressed_of_step {s s' : State RowLock Store Point} {e : Event Point} (h : Asserted Addressed s)
    (hstep : step hs s e = some s') : Asserted Addressed s' := by
  refine h.of_step ?_ addressed_lock (fun store t next hstmt _ => addressed_read store t next hstmt)
    (fun i t publish store _ _ _ _ j u _ _ hu => ?_) hstep
  · intro store t ht
    cases t <;> simp [initial] at ht <;> trivial
  · cases u <;> exact hu

/-! ### Runs -/

/-- A profile whose address was verified once has the state verified exactly while no change is unfinished. -/
structure Truthful (log : List Entry) (p : AdministratorProfile) : Prop where
  email : ∃ address, p.email = some address ∧ address ≠ ""
  state : p.emailState = .verified ↔ ¬Unfinished log p.accountId

structure Verifying (hs : Hashes) (w : Recorded) : Prop where
  linked : Linked hs w
  faithful : Faithful hs w
  addressed : Asserted Addressed w.state
  truthful : ∀ p ∈ w.state.store.profiles, p.emailVerifiedAt.isSome → Truthful w.log p

/-- A commit that neither changes the address of the account nor uses the link of its last change. -/
theorem unfinished_same {log : List Entry} {t : Point} {accountId : Uuid}
    (hchange : lastChange (log ++ entries t) accountId = lastChange log accountId)
    (hunused : ∀ v, lastChange log accountId = some v → v.tokenId ∉ (entries t).filterMap Entry.consumedToken) :
    Unfinished (log ++ entries t) accountId ↔ Unfinished log accountId := by
  unfold Unfinished
  rw [hchange, List.filterMap_append]
  refine exists_congr fun v => and_congr_right fun hv => not_congr ?_
  rw [List.mem_append]
  exact or_iff_left (hunused v hv)

theorem Truthful.of_same {log : List Entry} {t : Point} {p : AdministratorProfile} (h : Truthful log p)
    (hsame : Unfinished (log ++ entries t) p.accountId ↔ Unfinished log p.accountId) :
    Truthful (log ++ entries t) p :=
  ⟨h.email, h.state.trans (not_congr hsame.symm)⟩

/-- A token that is consumed for another purpose, or by another account, is not that of the last change. -/
theorem unused_of_other {w : Recorded} (h : Faithful hs w) {a : Presentation} {tokenId accountId : Uuid}
    {t : SecurityToken} (ht : t ∈ w.state.store.tokens) (hid : t.id = tokenId)
    (hother : t.purpose ≠ .emailVerify ∨ t.accountId ≠ accountId) {effect : Effect} :
    ∀ v, lastChange w.log accountId = some v →
      v.tokenId ∉ (entries (.presentCommit a tokenId effect)).filterMap Entry.consumedToken := by
  intro v hv hmem
  obtain rfl : v.tokenId = tokenId := List.mem_singleton.mp hmem
  obtain ⟨entry, hentry, hchanges⟩ := List.mem_filterMap.mp (List.mem_of_getLast? hv)
  cases entry with
  | issued v' =>
    obtain ⟨⟨hpurpose, haccount⟩, heq⟩ := Option.ite_none_right_eq_some.mp hchanges
    obtain rfl := Option.some.inj heq
    obtain ⟨x, hx, hxid, hxpurpose, hxaccount, -⟩ := h.issued v' hentry
    obtain rfl := Table.eq_of_key hx ht (hxid.trans hid.symm)
    rcases hother with hother | hother
    · exact hother (hxpurpose.trans hpurpose)
    · exact hother (hxaccount.trans haccount)
  | _ => cases hchanges

/-- The token of a committed issue is new. -/
theorem issue_fresh {v : Issue} {marked : List Uuid} {store store' : Store}
    (hstore : publishIssue hs v marked store = some store') : v.tokenId ∉ store.tokens.rows.map SecurityToken.id := by
  unfold publishIssue at hstore
  split at hstore
  · cases hstore
  obtain ⟨tokens, htokens, -⟩ := Option.map_eq_some_iff.mp hstore
  have hnew := (Table.insert?_eq_some htokens).2
  rw [Table.rows_mapRows, List.map_map] at hnew
  have hids : SecurityToken.id ∘ invalidateToken v marked = SecurityToken.id :=
    funext fun t => invalidateToken_id v marked t
  rwa [hids] at hnew

/-- An issue that is no change of the address leaves the profile. -/
theorem requestEmail_same {v : Issue} (h : Requested hs v) {p : AdministratorProfile}
    (hnot : ¬(v.purpose = .emailVerify ∧ v.accountId = p.accountId)) : requestEmail v p = p := by
  unfold requestEmail
  split
  · rfl
  · next email htarget =>
    exact if_neg fun haccount => hnot ⟨h.email (by rw [htarget]; rfl), haccount.symm⟩

/-- A change of the address is unfinished once it is committed. -/
theorem truthful_issued {w : Recorded} (h : Faithful hs w) {v : Issue} {marked : List Uuid} {store' : Store}
    (hrequested : Requested hs v) (hpurpose : v.purpose = .emailVerify)
    (hstore : publishIssue hs v marked w.state.store = some store') {p : AdministratorProfile}
    (haccount : v.accountId = p.accountId) (hp : Truthful w.log p) :
    Truthful (w.log ++ [.issued v]) (requestEmail v p) := by
  obtain ⟨target, htarget⟩ := Option.isSome_iff_exists.mp (hrequested.target hpurpose)
  have hrequest : requestEmail v p =
      { p with pendingEmail := some target, emailState := .pending, version := p.version + 1 } := by
    unfold requestEmail
    rw [htarget]
    exact if_pos haccount.symm
  have hunused : v.tokenId ∉ (w.log ++ [Entry.issued v]).filterMap Entry.consumedToken := by
    intro hmem
    rw [List.filterMap_append] at hmem
    rcases List.mem_append.mp hmem with hmem | hmem
    · obtain ⟨entry, hentry, htoken⟩ := List.mem_filterMap.mp hmem
      cases entry with
      | consumed a tokenId =>
        obtain rfl := Option.some.inj htoken
        obtain ⟨x, hx, hid, -⟩ := h.consumed a _ hentry
        exact issue_fresh hstore (List.mem_map.mpr ⟨x, hx, hid⟩)
      | _ => cases htoken
    · cases hmem
  rw [hrequest]
  refine ⟨hp.email, iff_of_false EmailState.noConfusion (not_not.mpr ⟨v, ?_, hunused⟩)⟩
  have hlast := lastChange_issued hpurpose w.log
  rwa [haccount] at hlast

/-- The consumption of the link finishes the last change. -/
theorem finished_of_consumed {w : Recorded} (h : Linked hs w) {a : Presentation} {tokenId accountId : Uuid}
    {effect : Effect} (hpurpose : a.purpose = .emailVerify)
    (hpresents : Presents hs w.state.store a tokenId accountId) :
    ¬Unfinished (w.log ++ entries (.presentCommit a tokenId effect)) accountId := by
  rintro ⟨v, hv, hunused⟩
  obtain ⟨x, hx, hid, haccount, hkind, -, husable⟩ := hpresents
  obtain ⟨v', hv', htoken, -⟩ := h.token x hx (hkind.trans hpurpose) (of_decide_eq_true husable).1
  rw [lastChange_same w.log fun v seen marked hpoint => Point.noConfusion hpoint] at hv
  rw [haccount] at hv'
  obtain rfl := Option.some.inj (hv.symm.trans hv')
  refine hunused ?_
  rw [htoken, hid, List.filterMap_append]
  exact List.mem_append_right _ (List.mem_singleton_self _)

/-- **Step lemma**: the states of the profiles stay truthful. -/
theorem Verifying.of_step {w w' : Recorded} {e : Event Point} (h : Verifying hs w) (hstep : observe hs w e = some w') :
    Verifying hs w' := by
  refine ⟨h.linked.of_step hstep, h.faithful.of_step hstep,
    addressed_of_step h.addressed (Observer.observe_eq_some hstep).1, ?_⟩
  rcases recorded_cases hstep with ⟨hlog, hstore⟩ | ⟨i, t, publish, ht, hstmt, hstore, hlog⟩
  · rw [hlog, hstore]
    exact h.truthful
  rw [hlog]
  have hknows := h.linked.sound.knows i t ht
  intro p hp hverified
  rcases commit_cases hstmt with ⟨a, rfl, rfl⟩ | ⟨v, seen, marked, rfl, rfl⟩ | ⟨a, tokenId, effect, rfl, rfl⟩ |
    ⟨rfl, rfl⟩
  · rw [Table.mem_def, (publishInitialize_ok hstore).2.2.1] at hp
    rcases List.mem_append.mp hp with hold | hnew
    · refine (h.truthful p hold hverified).of_same (unfinished_same ?_ fun _ _ => List.not_mem_nil)
      exact lastChange_same w.log fun v seen marked hpoint => Point.noConfusion hpoint
    · rw [List.mem_singleton.mp hnew] at hverified
      cases hverified
  · rw [(publishIssue_ok hstore).2, Table.mem_def, Table.rows_mapRows] at hp
    obtain ⟨old, hold, rfl⟩ := List.mem_map.mp hp
    by_cases hchange : v.purpose = .emailVerify ∧ v.accountId = old.accountId
    · have hbefore : old.emailVerifiedAt.isSome := by
        unfold requestEmail at hverified
        split at hverified
        · exact hverified
        · split at hverified <;> exact hverified
      exact truthful_issued h.faithful hknows.1 hchange.1 hstore hchange.2 (h.truthful old hold hbefore)
    · rw [requestEmail_same hknows.1 hchange] at hverified ⊢
      refine (h.truthful old hold hverified).of_same (unfinished_same ?_ fun _ _ => List.not_mem_nil)
      refine lastChange_same w.log fun v' seen' marked' hpoint => ?_
      obtain ⟨rfl, -, -⟩ := Point.issueCommit.inj hpoint
      exact hchange
  · rw [← Option.some.inj hstore] at hp
    have hsame : ∀ accountId, lastChange (w.log ++ entries (.presentCommit a tokenId effect)) accountId =
        lastChange w.log accountId :=
      fun accountId => lastChange_same w.log fun v seen marked hpoint => Point.noConfusion hpoint
    cases effect with
    | ticket =>
      obtain ⟨hpurpose, -, x, hx, hid, -, hkind, -⟩ := hknows
      refine (h.truthful p hp hverified).of_same (unfinished_same (hsame _) ?_)
      exact unused_of_other h.faithful hx hid (.inl (by rw [hkind, hpurpose]; exact Purpose.noConfusion))
    | password accountId =>
      obtain ⟨hpurpose, x, hx, hid, -, hkind, -⟩ := hknows
      refine (h.truthful p hp hverified).of_same (unfinished_same (hsame _) ?_)
      exact unused_of_other h.faithful hx hid (.inl (by rw [hkind, hpurpose]; exact Purpose.noConfusion))
    | email accountId email =>
      obtain ⟨old, hold, rfl⟩ := List.mem_map.mp hp
      obtain ⟨hpurpose, hpresents, -⟩ := hknows
      by_cases haccount : old.accountId = accountId
      · rw [verifyEmail, if_pos haccount]
        refine ⟨⟨email, rfl, h.addressed i _ ht⟩, iff_of_true rfl ?_⟩
        rw [← haccount] at hpresents ⊢
        exact finished_of_consumed h.linked hpurpose hpresents
      · rw [verifyEmail, if_neg haccount] at hverified ⊢
        obtain ⟨x, hx, hid, hother, -⟩ := hpresents
        refine (h.truthful old hold hverified).of_same (unfinished_same (hsame _) ?_)
        exact unused_of_other h.faithful hx hid (.inr (by rw [hother]; exact Ne.symm haccount))
  · rw [← Option.some.inj hstore] at hp
    refine (h.truthful p hp hverified).of_same (unfinished_same ?_ fun _ _ => List.not_mem_nil)
    exact lastChange_same w.log fun v seen marked hpoint => Point.noConfusion hpoint

/-- **An account whose address was verified once can be recovered exactly while no change of the address is
unfinished.** -/
theorem recovery_iff {w₀ w : Recorded} {es : List (Event Point)} (hquiet : w₀.state.Quiet) (hlog : w₀.log = [])
    (hclosed : ∀ t ∈ w₀.state.store.tokens, t.purpose = .emailVerify → t.isOpen = false)
    (hpending : ∀ p ∈ w₀.state.store.profiles, p.pendingEmail = none)
    (hproven : ∀ p ∈ w₀.state.store.profiles, p.emailVerifiedAt.isSome →
      p.emailState = .verified ∧ ∃ address, p.email = some address ∧ address ≠ "")
    (hrun : Runs.run (observe hs) w₀ es = some w) {p : AdministratorProfile} (hp : p ∈ w.state.store.profiles)
    (hverified : p.emailVerifiedAt.isSome) :
    Recovers w.state.store p ↔ ¬Unfinished w.log p.accountId := by
  have hstart : Verifying hs w₀ := by
    refine ⟨⟨Sound.of_quiet hquiet, ?_, ?_, ?_⟩, ⟨Sound.of_quiet hquiet, ?_, ?_, ?_⟩, Asserted.of_quiet hquiet, ?_⟩
    · rw [hlog]
      exact fun v hmem => absurd hmem List.not_mem_nil
    · exact fun t ht hpurpose hopen => absurd hopen (by rw [hclosed t ht hpurpose]; exact Bool.false_ne_true)
    · exact fun p hp email hemail => absurd hemail (by rw [hpending p hp]; simp)
    · rw [hlog]
      exact List.nodup_nil
    · rw [hlog]
      exact fun a tokenId hmem => absurd hmem List.not_mem_nil
    · rw [hlog]
      exact fun v hmem => absurd hmem List.not_mem_nil
    · intro p hp hset
      obtain ⟨hstate, hemail⟩ := hproven p hp hset
      refine ⟨hemail, iff_of_true hstate ?_⟩
      rintro ⟨v, hv, -⟩
      rw [hlog] at hv
      cases hv
  have h : Verifying hs w := Runs.inv_of_run (fun w e w' hw hs => hw.of_step hs) hstart hrun
  obtain ⟨⟨address, haddress, hne⟩, hstate⟩ := h.truthful p hp hverified
  have hfind : w.state.store.profiles.find? p.accountId = some p := Table.find?_of_mem hp
  have hrecipient : recipient w.state.store p.accountId = if p.emailState = .verified then some address else none := by
    rw [recipient, hfind, Option.bind_some, haddress, Option.filter_some, if_pos (decide_eq_true hne)]
  rw [← hstate]
  constructor
  · intro hrecovers
    by_contra hnot
    have haccepted := hrecovers.recipient
    rw [hrecipient, if_neg hnot, haddress] at haccepted
    cases haccepted
  · intro hset
    rw [if_pos hset] at hrecipient
    refine ⟨by rw [haddress]; rfl, fun a haccount hmailer => ?_, hrecipient.trans haddress.symm⟩
    rw [checkRecovery_iff hmailer, haccount, hrecipient]
    rfl

/-- A change of the address, begun and abandoned. -/
def abandonedChange : List (Event Point) := whole 1 (.emailChange (sampleChange "nova@example.cz" 7 "odkaz" 1000)) 6

def abandonedProfile : AdministratorProfile :=
  { sampleProfile with pendingEmail := some "nova@example.cz", emailState := .pending, version := 2 }

/-- The verified address is still there, and the account can no longer be recovered. -/
theorem recovery_lost_abandoned : ∃ w, Runs.run (observe sampleHashes) ⟨sampleState, 0, []⟩ abandonedChange = some w ∧
    abandonedProfile ∈ w.state.store.profiles ∧ abandonedProfile.email = sampleProfile.email ∧
    abandonedProfile.emailVerifiedAt.isSome ∧ ¬Recovers w.state.store abandonedProfile := by
  have hrun : (Runs.run (observe sampleHashes) ⟨sampleState, 0, []⟩ abandonedChange).any (fun w =>
      decide (abandonedProfile ∈ w.state.store.profiles.rows) && (recipient w.state.store 1).isNone) = true := by
    decide +kernel
  obtain ⟨w, hw, hend⟩ := (Option.any_eq_true _ _).mp hrun
  obtain ⟨hmem, hnone⟩ := Bool.and_eq_true_iff.mp hend
  have hp : abandonedProfile ∈ w.state.store.profiles.rows := of_decide_eq_true hmem
  refine ⟨w, hw, hp, rfl, rfl, fun h => ?_⟩
  have hrecipient : recipient w.state.store 1 = some "karel@example.cz" := h.recipient
  rw [hrecipient] at hnone
  cases hnone

/-- After the second change is completed the account can be recovered again. -/
theorem recovery_iff_completed : ∃ w, Runs.run (observe sampleHashes) ⟨sampleState, 0, []⟩
      (changesOfAddress ++ [.exec 4]) = some w ∧
    (Recovers w.state.store verifiedProfile ↔ ¬Unfinished w.log 1) := by
  have hrun : (Runs.run (observe sampleHashes) ⟨sampleState, 0, []⟩ (changesOfAddress ++ [.exec 4])).any (fun w =>
      decide (verifiedProfile ∈ w.state.store.profiles.rows)) = true := by decide +kernel
  obtain ⟨w, hw, hmem⟩ := (Option.any_eq_true _ _).mp hrun
  have hp : verifiedProfile ∈ w.state.store.profiles.rows := of_decide_eq_true hmem
  refine ⟨w, hw, recovery_iff (fun _ => rfl) rfl (fun t ht => by cases ht) (fun p hp => ?_) (fun p hp _ => ?_) hw hp
    rfl⟩
  · rw [List.mem_singleton.mp hp]
    rfl
  · rw [List.mem_singleton.mp hp]
    exact ⟨rfl, _, rfl, by decide⟩

end KajovoDagmar.Tokens
