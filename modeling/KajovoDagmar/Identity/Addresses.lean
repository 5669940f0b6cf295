import KajovoDagmar.Identity.SingleUse

/-! # Verified addresses

A change of the address leaves a token and a pending address, which live in two rows and are changed by two
operations in opposite orders.  Along every run the open token and the pending address of an account are those of
its last committed change, so a link verifies the address that it was sent to and no other, and an older link
verifies none (`verified_address_proven`). -/

namespace KajovoDagmar.Tokens

open ReadCommitted

variable {hs : Hashes}

/-! ### The last change of the address -/

/-- The change of the address of an account that an entry commits. -/
def Entry.changes (accountId : Uuid) : Entry → Option Issue
  | .issued v => if v.purpose = .emailVerify ∧ v.accountId = accountId then some v else none
  | _ => none

def lastChange (log : List Entry) (accountId : Uuid) : Option Issue :=
  (log.filterMap (Entry.changes accountId)).getLast?

theorem lastChange_append (log new : List Entry) (accountId : Uuid) :
    lastChange (log ++ new) accountId = (lastChange new accountId).or (lastChange log accountId) := by
  unfold lastChange
  rw [List.filterMap_append, List.getLast?_append]

theorem lastChange_issued {v : Issue} (hpurpose : v.purpose = .emailVerify) (log : List Entry) :
    lastChange (log ++ [.issued v]) v.accountId = some v := by
  rw [lastChange_append]
  simp [lastChange, Entry.changes, hpurpose]

theorem mem_of_lastChange {log : List Entry} {accountId : Uuid} {v : Issue} (h : lastChange log accountId = some v) :
    Entry.issued v ∈ log := by
  obtain ⟨entry, hentry, hchanges⟩ := List.mem_filterMap.mp (List.mem_of_getLast? h)
  cases entry with
  | issued v' =>
    obtain ⟨-, hsame⟩ := Option.ite_none_right_eq_some.mp hchanges
    rwa [← Option.some.inj hsame]
  | _ => cases hchanges

/-- A commit that changes no address of the account leaves its last change. -/
theorem lastChange_same {t : Point} {accountId : Uuid} (log : List Entry)
    (h : ∀ v seen marked, t = .issueCommit v seen marked → ¬(v.purpose = .emailVerify ∧ v.accountId = accountId)) :
    lastChange (log ++ entries t) accountId = lastChange log accountId := by
  have hnone : (entries t).filterMap (Entry.changes accountId) = [] := by
    refine List.filterMap_eq_nil_iff.mpr fun entry hentry => ?_
    cases entry with
    | issued v =>
      obtain ⟨seen, marked, rfl⟩ := issued_mem_entries hentry
      exact if_neg (h v seen marked rfl)
    | _ => rfl
  rw [lastChange_append]
  unfold lastChange
  rw [hnone, List.getLast?_nil, Option.none_or]

/-! ### What a commit does to the profiles -/

/-- A pending address after a commit has been pending before, or has just been asked for. -/
theorem pending_of_commit {t : Point} {publish : Store → Option Store} {store store' : Store}
    (hstmt : stmt hs t = .commit publish) (hstore : publish store = some store') {p : AdministratorProfile}
    {email : String} (hp : p ∈ store'.profiles) (hpending : p.pendingEmail = some email) :
    (∃ old ∈ store.profiles, old.accountId = p.accountId ∧ old.pendingEmail = some email ∧
        ∀ v seen marked, t = .issueCommit v seen marked → ¬(v.target.isSome ∧ v.accountId = p.accountId)) ∨
      ∃ v seen marked, t = .issueCommit v seen marked ∧ v.accountId = p.accountId ∧ v.target = some email := by
  rcases commit_cases hstmt with ⟨a, rfl, rfl⟩ | ⟨v, seen, marked, rfl, rfl⟩ | ⟨a, tokenId, effect, rfl, rfl⟩ |
    ⟨rfl, rfl⟩
  · rw [Table.mem_def, (publishInitialize_ok hstore).2.2.1] at hp
    rcases List.mem_append.mp hp with hold | hnew
    · exact .inl ⟨p, hold, rfl, hpending, fun _ _ _ h => Point.noConfusion h⟩
    · rw [List.mem_singleton.mp hnew] at hpending
      cases hpending
  · rw [(publishIssue_ok hstore).2, Table.mem_def, Table.rows_mapRows] at hp
    obtain ⟨old, hold, rfl⟩ := List.mem_map.mp hp
    cases htarget : v.target with
    | none =>
      have hsame : requestEmail v old = old := by
        unfold requestEmail
        rw [htarget]
      rw [hsame] at hpending ⊢
      refine .inl ⟨old, hold, rfl, hpending, ?_⟩
      rintro v' seen' marked' hpoint ⟨hsome, -⟩
      obtain ⟨rfl, -, -⟩ := Point.issueCommit.inj hpoint
      rw [htarget] at hsome
      cases hsome
    | some target =>
      by_cases haccount : old.accountId = v.accountId
      · refine .inr ⟨v, seen, marked, rfl, (requestEmail_accountId v old ▸ haccount).symm, ?_⟩
        simp only [requestEmail, htarget, if_pos haccount] at hpending
        exact htarget.trans hpending
      · have hsame : requestEmail v old = old := by
          unfold requestEmail
          rw [htarget]
          exact if_neg haccount
        rw [hsame] at hpending ⊢
        refine .inl ⟨old, hold, rfl, hpending, ?_⟩
        rintro v' seen' marked' hpoint ⟨-, hsame'⟩
        obtain ⟨rfl, -, -⟩ := Point.issueCommit.inj hpoint
        exact haccount hsame'.symm
  · rw [← Option.some.inj hstore] at hp
    cases effect with
    | ticket => exact .inl ⟨p, hp, rfl, hpending, fun _ _ _ h => Point.noConfusion h⟩
    | password accountId => exact .inl ⟨p, hp, rfl, hpending, fun _ _ _ h => Point.noConfusion h⟩
    | email accountId address =>
      obtain ⟨old, hold, rfl⟩ := List.mem_map.mp hp
      unfold verifyEmail at hpending ⊢
      split at hpending
      · cases hpending
      · next hnot =>
        rw [if_neg hnot]
        exact .inl ⟨old, hold, rfl, hpending, fun _ _ _ h => Point.noConfusion h⟩
  · rw [← Option.some.inj hstore] at hp
    exact .inl ⟨p, hp, rfl, hpending, fun _ _ _ h => Point.noConfusion h⟩

/-- Only the presentation of a token verifies an address. -/
theorem verified_of_commit {t : Point} {publish : Store → Option Store} {store store' : Store}
    (hstmt : stmt hs t = .commit publish) (hstore : publish store = some store') {p : AdministratorProfile}
    (hp : p ∈ store'.profiles) (hverified : p.emailState = .verified) (hnew : p ∉ store.profiles) :
    ∃ a tokenId email, t = .presentCommit a tokenId (.email p.accountId email) ∧ p.email = some email := by
  rcases commit_cases hstmt with ⟨a, rfl, rfl⟩ | ⟨v, seen, marked, rfl, rfl⟩ | ⟨a, tokenId, effect, rfl, rfl⟩ |
    ⟨rfl, rfl⟩
  · rw [Table.mem_def, (publishInitialize_ok hstore).2.2.1] at hp
    rcases List.mem_append.mp hp with hold | hadded
    · exact (hnew hold).elim
    · rw [List.mem_singleton.mp hadded] at hverified
      unfold newProfile at hverified
      split at hverified <;> cases hverified
  · rw [(publishIssue_ok hstore).2, Table.mem_def, Table.rows_mapRows] at hp
    obtain ⟨old, hold, rfl⟩ := List.mem_map.mp hp
    unfold requestEmail at hverified hnew
    split at hnew
    · exact (hnew hold).elim
    · split at hnew
      · next target htarget haccount =>
        rw [htarget] at hverified
        simp [haccount] at hverified
      · exact (hnew hold).elim
  · rw [← Option.some.inj hstore] at hp
    cases effect with
    | ticket => exact (hnew hp).elim
    | password accountId => exact (hnew hp).elim
    | email accountId email =>
      obtain ⟨old, hold, rfl⟩ := List.mem_map.mp hp
      unfold verifyEmail at hnew ⊢
      split at hnew
      · next haccount =>
        rw [if_pos haccount, haccount]
        exact ⟨a, tokenId, email, rfl, rfl⟩
      · exact (hnew hold).elim
  · rw [← Option.some.inj hstore] at hp
    exact (hnew hp).elim

/-! ### Runs -/

/-- The open tokens and the pending addresses are those of the last change. -/
structure Linked (hs : Hashes) (w : Recorded) : Prop where
  sound : Sound hs w.state
  requested : ∀ v, Entry.issued v ∈ w.log → Requested hs v
  token : ∀ t ∈ w.state.store.tokens, t.purpose = .emailVerify → t.isOpen = true →
    ∃ v, lastChange w.log t.accountId = some v ∧ v.tokenId = t.id ∧ IssuedBy hs v t
  pending : ∀ p ∈ w.state.store.profiles, ∀ email, p.pendingEmail = some email →
    ∃ v, lastChange w.log p.accountId = some v ∧ v.target = some email

/-- **Step lemma**: they go on being those of the last change. -/
theorem Linked.of_step {w w' : Recorded} {e : Event Point} (h : Linked hs w) (hstep : observe hs w e = some w') :
    Linked hs w' := by
  have hsound := h.sound.of_step (Observer.observe_eq_some hstep).1
  rcases recorded_cases hstep with ⟨hlog, hstore⟩ | ⟨i, t, publish, ht, hstmt, hstore, hlog⟩
  · refine ⟨hsound, ?_, ?_, ?_⟩
    · rw [hlog]
      exact h.requested
    · rw [hlog, hstore]
      exact h.token
    · rw [hlog, hstore]
      exact h.pending
  have hknows := h.sound.knows i t ht
  refine ⟨hsound, ?_, ?_, ?_⟩ <;> rw [hlog]
  · intro v hmem
    rcases List.mem_append.mp hmem with hmem | hmem
    · exact h.requested v hmem
    · obtain ⟨seen, marked, rfl⟩ := issued_mem_entries hmem
      exact hknows.1
  · intro x hx hpurpose hopen
    by_cases hchange : ∃ v seen marked, t = .issueCommit v seen marked ∧ v.purpose = .emailVerify ∧
        v.accountId = x.accountId
    · obtain ⟨v, seen, marked, rfl, hemail, haccount⟩ := hchange
      obtain rfl := Stmt.commit.inj hstmt
      have hlock : (issuerLock v).isSome := by
        unfold issuerLock
        rw [hemail]
        rfl
      obtain rfl := open_of_exclusive hknows.2 hlock hstore hx hopen haccount.symm (hpurpose.trans hemail.symm)
      exact ⟨v, lastChange_issued hemail w.log, rfl, rfl, rfl, rfl, rfl⟩
    · have hsame : lastChange (w.log ++ entries t) x.accountId = lastChange w.log x.accountId := by
        refine lastChange_same w.log fun v seen marked hpoint hv => hchange ?_
        exact ⟨v, seen, marked, hpoint, hv⟩
      rw [hsame]
      rcases open_of_commit hstmt hstore hx hopen with ⟨old, hold, holdOpen, hcontinues⟩ |
        ⟨v, seen, marked, rfl, rfl⟩
      · have hcolumns := hcontinues.columns
        obtain ⟨v, hv, hid, hissued⟩ := h.token old hold (by rw [hcolumns] at hpurpose; exact hpurpose) holdOpen
        refine ⟨v, ?_, ?_, issuedBy_lasting v old x hcontinues hissued⟩
        · rw [hcolumns]
          exact hv
        · rw [hcolumns]
          exact hid
      · exact (hchange ⟨v, seen, marked, rfl, hpurpose, rfl⟩).elim
  · intro p hp email hpending
    rcases pending_of_commit hstmt hstore hp hpending with ⟨old, hold, haccount, holdPending, hnot⟩ |
      ⟨v, seen, marked, rfl, haccount, htarget⟩
    · have hsame : lastChange (w.log ++ entries t) p.accountId = lastChange w.log p.accountId := by
        refine lastChange_same w.log fun v seen marked hpoint hv => hnot v seen marked hpoint ⟨?_, hv.2⟩
        subst hpoint
        exact hknows.1.target hv.1
      rw [hsame, ← haccount]
      exact h.pending old hold email holdPending
    · have hemail : v.purpose = .emailVerify := hknows.1.email (by rw [htarget]; rfl)
      refine ⟨v, ?_, htarget⟩
      rw [← haccount]
      exact lastChange_issued hemail w.log

/-- **Only a proven address is verified**: when the row of a profile becomes verified, this is the consumption of
the token that the last committed change of the address has issued, and the address is the one of that change. -/
theorem verified_address_proven {w₀ w w' : Recorded} {es : List (Event Point)} {e : Event Point}
    (hquiet : w₀.state.Quiet) (hlog : w₀.log = [])
    (hclosed : ∀ t ∈ w₀.state.store.tokens, t.purpose = .emailVerify → t.isOpen = false)
    (hpending : ∀ p ∈ w₀.state.store.profiles, p.pendingEmail = none)
    (hrun : Runs.run (observe hs) w₀ es = some w) (hstep : observe hs w e = some w')
    {p : AdministratorProfile} (hp : p ∈ w'.state.store.profiles) (hverified : p.emailState = .verified)
    (hnew : p ∉ w.state.store.profiles) :
    ∃ (a : Presentation) (b : EmailChange), w'.log = w.log ++ [.consumed a b.tokenId] ∧ a.purpose = .emailVerify ∧
      hs.tokenDigest a.token "email_verify" = hs.tokenDigest b.token "email_verify" ∧
      lastChange w.log p.accountId = some (b.issue hs) ∧ p.email = some (hs.normalize b.email) := by
  have hstart : Linked hs w₀ := by
    refine ⟨Sound.of_quiet hquiet, ?_, ?_, ?_⟩
    · intro v hmem
      rw [hlog] at hmem
      cases hmem
    · intro t ht hpurpose hopen
      rw [hclosed t ht hpurpose] at hopen
      cases hopen
    · intro p hp email hemail
      rw [hpending p hp] at hemail
      cases hemail
  have h : Linked hs w := Runs.inv_of_run (fun w e w' hw hs => hw.of_step hs) hstart hrun
  rcases recorded_cases hstep with ⟨-, hstore⟩ | ⟨i, t, publish, ht, hstmt, hstore, hcommitted⟩
  · rw [hstore] at hp
    exact (hnew hp).elim
  obtain ⟨a, tokenId, email, rfl, hemail⟩ := verified_of_commit hstmt hstore hp hverified hnew
  obtain ⟨hpurpose, ⟨x, hx, rfl, haccount, hkind, hdigest, husable⟩, q, hq, hqaccount, hqpending⟩ :=
    h.sound.knows i _ ht
  obtain ⟨v, hv, hid, -, -, hissued, -⟩ := h.token x hx (hkind.trans hpurpose) (of_decide_eq_true husable).1
  obtain ⟨v', hv', htarget⟩ := h.pending q hq email hqpending
  rw [haccount] at hv
  rw [hqaccount] at hv'
  obtain rfl : v = v' := Option.some.inj (hv.symm.trans hv')
  have hmem : Entry.issued v ∈ w.log := mem_of_lastChange hv
  rcases h.requested v hmem with ⟨b, rfl⟩ | ⟨b, rfl⟩ | ⟨b, rfl⟩
  · cases htarget
  · refine ⟨a, b, ?_, hpurpose, ?_, hv, ?_⟩
    · rw [hcommitted, show b.tokenId = x.id from hid]
      rfl
    · rw [hpurpose] at hdigest
      exact hdigest.symm.trans hissued
    · rw [hemail, ← htarget]
      rfl
  · cases htarget

def sampleChange (email : String) (tokenId : Uuid) (token : String) (now : Instant) : EmailChange :=
  { sessionId := 100, accountId := 1, email := email, currentPassword := "heslo", tokenId := tokenId, token := token
    invalidatedAt := now, issuedAt := now }

def sampleVerification (token : String) (now : Instant) : Presentation :=
  { purpose := .emailVerify, token := token, now := now }

/-- Two changes of the address, and the link of the first one. -/
def changesOfAddress : List (Event Point) :=
  whole 1 (.emailChange (sampleChange " stara@example.cz" 7 "prvni odkaz" 1000)) 6 ++
    whole 2 (.emailChange (sampleChange "nova@example.cz" 8 "druhy odkaz" 2000)) 7 ++
    whole 3 (.present (sampleVerification "prvni odkaz" 3000)) 2 ++
    .start 4 (.present (sampleVerification "druhy odkaz" 4000)) :: List.replicate 4 (.exec 4)

def verifiedProfile : AdministratorProfile :=
  { sampleProfile with email := some "nova@example.cz", emailVerifiedAt := some 4000, version := 4 }

theorem verified_address_proven_nova : ∃ w w' b, Runs.run (observe sampleHashes) ⟨sampleState, 0, []⟩
      changesOfAddress = some w ∧ observe sampleHashes w (.exec 4) = some w' ∧
    lastChange w.log 1 = some (EmailChange.issue sampleHashes b) ∧
    verifiedProfile.email = some (sampleHashes.normalize b.email) := by
  have hrun : (Runs.run (observe sampleHashes) ⟨sampleState, 0, []⟩ changesOfAddress).any (fun w =>
      decide (verifiedProfile ∉ w.state.store.profiles.rows) && (observe sampleHashes w (.exec 4)).any fun w' =>
        verifiedProfile ∈ w'.state.store.profiles.rows) = true := by
    decide +kernel
  obtain ⟨w, hw, hend⟩ := (Option.any_eq_true _ _).mp hrun
  obtain ⟨hnew, hafter⟩ := Bool.and_eq_true_iff.mp hend
  obtain ⟨w', hw', hp⟩ := (Option.any_eq_true _ _).mp hafter
  have hbefore : verifiedProfile ∉ w.state.store.profiles.rows := of_decide_eq_true hnew
  have hverified : verifiedProfile ∈ w'.state.store.profiles.rows := of_decide_eq_true hp
  obtain ⟨a, b, -, -, -, hlast, hemail⟩ := verified_address_proven (fun _ => rfl) rfl
    (fun t ht => by cases ht) (fun p hp => by rw [List.mem_singleton.mp hp]; rfl) hw hw' hverified rfl
    hbefore
  exact ⟨w, w', b, hw, hw', hlast, hemail⟩

end KajovoDagmar.Tokens
