import KajovoDagmar.Identity.TokenLocks

/-! # Tokens are used once

The history of the tokens: who initialised the instance, which tokens were issued and which were consumed.  Along
every run a token is consumed by one transaction at most, for its purpose, before it expires and not after its
invalidation (`tokens_single_use`). -/

namespace KajovoDagmar.Tokens

open ReadCommitted

/-! ### The history -/

/-- A commit that matters for the tokens. -/
inductive Entry where
  | initialized (a : Initialize)
  | issued (w : Issue)
  | consumed (a : Presentation) (tokenId : Uuid)

def entries : Point → List Entry
  | .initializeCommit a => [.initialized a]
  | .issueCommit w _ _ => [.issued w]
  | .presentCommit a tokenId _ => [.consumed a tokenId]
  | _ => []

/-- The token that an entry consumes. -/
def Entry.consumedToken : Entry → Option Uuid
  | .consumed _ tokenId => some tokenId
  | _ => none

theorem consumed_mem_entries {t : Point} {a : Presentation} {tokenId : Uuid}
    (h : Entry.consumed a tokenId ∈ entries t) :
    ∃ effect, t = .presentCommit a tokenId effect := by
  cases t with
  | presentCommit a' tokenId' effect =>
    obtain ⟨rfl, rfl⟩ := Entry.consumed.inj (List.mem_singleton.mp h)
    exact ⟨effect, rfl⟩
  | initializeCommit a' => cases List.mem_singleton.mp h
  | issueCommit w seen marked => cases List.mem_singleton.mp h
  | _ => cases h

theorem issued_mem_entries {t : Point} {w : Issue} (h : Entry.issued w ∈ entries t) :
    ∃ seen marked, t = .issueCommit w seen marked := by
  cases t with
  | issueCommit w' seen marked =>
    obtain rfl := Entry.issued.inj (List.mem_singleton.mp h)
    exact ⟨seen, marked, rfl⟩
  | initializeCommit a => cases List.mem_singleton.mp h
  | presentCommit a tokenId effect => cases List.mem_singleton.mp h
  | _ => cases h

theorem initialized_mem_entries {t : Point} {a : Initialize} (h : Entry.initialized a ∈ entries t) :
    t = .initializeCommit a := by
  cases t with
  | initializeCommit a' => rw [Entry.initialized.inj (List.mem_singleton.mp h)]
  | issueCommit w seen marked => cases List.mem_singleton.mp h
  | presentCommit a' tokenId effect => cases List.mem_singleton.mp h
  | _ => cases h

variable (hs : Hashes)

/-- The committed history. -/
def observer : Observer (State RowLock Store Point) (Event Point) Entry :=
  ReadCommitted.observer (fun _ _ => none) (commits (stmt hs) entries)

/-- The transactions, observed. -/
abbrev observe := (observer hs).observe (step hs)

/-- A run with its history. -/
abbrev Recorded := Observed (State RowLock Store Point) Entry

variable {hs}

/-- What an observed step commits. -/
theorem recorded_cases {w w' : Recorded} {e : Event Point} (h : observe hs w e = some w') :
    (w'.log = w.log ∧ w'.state.store = w.state.store) ∨
      ∃ i t publish, w.state.txn i = some t ∧ stmt hs t = .commit publish ∧
        publish w.state.store = some w'.state.store ∧ w'.log = w.log ++ entries t := by
  obtain ⟨hstep, -, -, hlog⟩ := Observer.observe_eq_some h
  rcases record_or_commit (fun _ _ => none) entries hstep with
    ⟨hnone, hstore⟩ | ⟨i, t, publish, ht, hstmt, hstore, hrecord⟩
  · refine .inl ⟨hlog.trans ?_, hstore⟩
    rw [show (observer hs).record w.state e = [] from hnone, List.append_nil]
  · refine .inr ⟨i, t, publish, ht, hstmt, hstore, hlog.trans ?_⟩
    rw [show (observer hs).record w.state e = entries t from hrecord]

/-! ### Rows of tokens -/

/-- A row of the token satisfies `P`. -/
def HasToken (store : Store) (tokenId : Uuid) (P : SecurityToken → Prop) : Prop :=
  ∃ t ∈ store.tokens, t.id = tokenId ∧ P t

/-- What later versions of a row inherit. -/
def Lasting (P : SecurityToken → Prop) : Prop := ∀ t t', Continues t t' → P t → P t'

theorem HasToken.commit {t : Point} {publish : Store → Option Store} {store store' : Store}
    (hstmt : stmt hs t = .commit publish) (hstore : publish store = some store') {tokenId : Uuid}
    {P : SecurityToken → Prop} (hP : Lasting P) (h : HasToken store tokenId P) : HasToken store' tokenId P := by
  obtain ⟨f, new, hextends, -⟩ := tokens_of_commit hstmt hstore
  obtain ⟨x, hx, hid, hx'⟩ := h
  refine ⟨f x, hextends.mem hx, ?_, hP x (f x) (hextends.continues x) hx'⟩
  rw [(hextends.continues x).columns]
  exact hid

/-- What a row inherits lasts along an observed step. -/
theorem HasToken.of_step {w w' : Recorded} {e : Event Point} (hstep : observe hs w e = some w') {tokenId : Uuid}
    {P : SecurityToken → Prop} (hP : Lasting P) (h : HasToken w.state.store tokenId P) :
    HasToken w'.state.store tokenId P := by
  rcases recorded_cases hstep with ⟨-, hstore⟩ | ⟨i, t, publish, -, hstmt, hstore, -⟩
  · rwa [hstore]
  · exact h.commit hstmt hstore hP

/-- The row of a token that has been consumed by the presentation. -/
def ConsumedBy (hs : Hashes) (a : Presentation) (t : SecurityToken) : Prop :=
  t.purpose = a.purpose ∧ t.tokenDigest = hs.tokenDigest a.token a.purpose.text ∧ a.now < t.expiresAt ∧
    t.usedAt.isSome

/-- The row of a token that has been issued so. -/
def IssuedBy (hs : Hashes) (w : Issue) (t : SecurityToken) : Prop :=
  t.purpose = w.purpose ∧ t.accountId = w.accountId ∧ t.tokenDigest = hs.tokenDigest w.token w.purpose.text ∧
    t.expiresAt = w.issuedAt + lifetime w.purpose * IdentityService.microsPerSecond

theorem consumedBy_lasting (a : Presentation) : Lasting (ConsumedBy hs a) := by
  intro t t' hcontinues h
  unfold ConsumedBy
  rw [hcontinues.columns]
  exact ⟨h.1, h.2.1, h.2.2.1, hcontinues.used h.2.2.2⟩

theorem issuedBy_lasting (w : Issue) : Lasting (IssuedBy hs w) := by
  intro t t' hcontinues h
  unfold IssuedBy
  rw [hcontinues.columns]
  exact h

theorem invalidated_lasting : Lasting fun t => t.invalidatedAt.isSome :=
  fun _ _ hcontinues h => hcontinues.invalidated h

/-! ### Runs -/

/-- The history agrees with the rows. -/
structure Faithful (hs : Hashes) (w : Recorded) : Prop where
  sound : Sound hs w.state
  once : (w.log.filterMap Entry.consumedToken).Nodup
  consumed : ∀ a tokenId, Entry.consumed a tokenId ∈ w.log → HasToken w.state.store tokenId (ConsumedBy hs a)
  issued : ∀ v, Entry.issued v ∈ w.log → HasToken w.state.store v.tokenId (IssuedBy hs v)

/-- A consumer that commits finds its token open, and leaves it used. -/
theorem presents_of_commit {w w' : Recorded} (h : Sound hs w.state) {i : ℕ} {a : Presentation} {tokenId : Uuid}
    {effect : Effect} (ht : w.state.txn i = some (.presentCommit a tokenId effect))
    (hstore : some (publishUse hs a tokenId effect w.state.store) = some w'.state.store) :
    ∃ t ∈ w.state.store.tokens, t.id = tokenId ∧ t.isOpen = true ∧
      HasToken w'.state.store tokenId (ConsumedBy hs a) := by
  have hpresents : ∃ accountId, Presents hs w.state.store a tokenId accountId := by
    have hknows : Supports hs w.state.store a tokenId effect := h.knows i _ ht
    cases effect with
    | ticket => exact hknows.2
    | password accountId => exact ⟨accountId, hknows.2⟩
    | email accountId email => exact ⟨accountId, hknows.2.1⟩
  obtain ⟨accountId, x, hx, rfl, -, hpurpose, hdigest, husable⟩ := hpresents
  obtain ⟨hopen, hnow⟩ := of_decide_eq_true husable
  refine ⟨x, hx, rfl, hopen, useToken a x.id x, ?_, useToken_id a x.id x, ?_⟩
  · rw [← Option.some.inj hstore, publishUse_tokens, Table.mem_def, Table.rows_mapRows]
    exact List.mem_map_of_mem hx
  · unfold useToken
    rw [if_pos rfl]
    exact ⟨hpurpose, hdigest, hnow, rfl⟩

/-- **Step lemma**: the history goes on agreeing with the rows. -/
theorem Faithful.of_step {w w' : Recorded} {e : Event Point} (h : Faithful hs w) (hstep : observe hs w e = some w') :
    Faithful hs w' := by
  have hsound := h.sound.of_step (Observer.observe_eq_some hstep).1
  have hconsumed : ∀ a tokenId, Entry.consumed a tokenId ∈ w.log →
      HasToken w'.state.store tokenId (ConsumedBy hs a) := fun a tokenId hmem =>
    (h.consumed a tokenId hmem).of_step hstep (consumedBy_lasting a)
  have hissued : ∀ v, Entry.issued v ∈ w.log → HasToken w'.state.store v.tokenId (IssuedBy hs v) := fun v hmem =>
    (h.issued v hmem).of_step hstep (issuedBy_lasting v)
  rcases recorded_cases hstep with ⟨hlog, -⟩ | ⟨i, t, publish, ht, hstmt, hstore, hlog⟩
  · exact ⟨hsound, by rw [hlog]; exact h.once, by rw [hlog]; exact hconsumed, by rw [hlog]; exact hissued⟩
  refine ⟨hsound, ?_, ?_, ?_⟩ <;> rw [hlog]
  · have hnew : ((entries t).filterMap Entry.consumedToken).Nodup := by
      cases t <;> simp [entries, List.filterMap_cons, Entry.consumedToken]
    rw [List.filterMap_append]
    refine List.nodup_append'.mpr ⟨h.once, hnew, ?_⟩
    -- a token that is consumed now is open, so it has not been consumed before
    intro tokenId hbefore hnow
    obtain ⟨before, hmemBefore, hbeforeToken⟩ := List.mem_filterMap.mp hbefore
    obtain ⟨now, hmemNow, hnowToken⟩ := List.mem_filterMap.mp hnow
    cases before with
    | consumed a tokenId' =>
      obtain rfl := Option.some.inj hbeforeToken
      cases now with
      | consumed b tokenId' =>
        obtain rfl := Option.some.inj hnowToken
        obtain ⟨effect, rfl⟩ := consumed_mem_entries hmemNow
        obtain rfl := Stmt.commit.inj hstmt
        obtain ⟨x, hx, hid, hopen, -⟩ := presents_of_commit h.sound ht hstore
        obtain ⟨y, hy, hid', -, -, -, hused⟩ := h.consumed a _ hmemBefore
        obtain rfl := Table.eq_of_key hy hx (hid'.trans hid.symm)
        simp [SecurityToken.isOpen, Option.isSome_iff_ne_none.mp hused] at hopen
      | _ => cases hnowToken
    | _ => cases hbeforeToken
  · intro a tokenId hmem
    rcases List.mem_append.mp hmem with hmem | hmem
    · exact hconsumed a tokenId hmem
    · obtain ⟨effect, rfl⟩ := consumed_mem_entries hmem
      obtain rfl := Stmt.commit.inj hstmt
      obtain ⟨-, -, -, -, hused⟩ := presents_of_commit h.sound ht hstore
      exact hused
  · intro v hmem
    rcases List.mem_append.mp hmem with hmem | hmem
    · exact hissued v hmem
    · obtain ⟨seen, marked, rfl⟩ := issued_mem_entries hmem
      obtain rfl := Stmt.commit.inj hstmt
      refine ⟨newToken hs v, ?_, rfl, rfl, rfl, rfl, rfl⟩
      rw [Table.mem_def, (publishIssue_ok hstore).1]
      exact List.mem_append_right _ (List.mem_singleton_self _)

/-- From an invalidated token on, no consumption of it is committed. -/
theorem consumed_of_invalidated {w w' : Recorded} {es : List (Event Point)} (h : Sound hs w.state)
    (hrun : Runs.run (observe hs) w es = some w') {tokenId : Uuid}
    (hinvalidated : HasToken w.state.store tokenId fun t => t.invalidatedAt.isSome) :
    ∃ later, w'.log = w.log ++ later ∧ ∀ a, Entry.consumed a tokenId ∉ later := by
  have hlater : Sound hs w'.state ∧ HasToken w'.state.store tokenId (fun t => t.invalidatedAt.isSome) ∧
      ∃ later, w'.log = w.log ++ later ∧ ∀ a, Entry.consumed a tokenId ∉ later := by
    refine Runs.inv_of_run (I := fun w' : Recorded => Sound hs w'.state ∧
      HasToken w'.state.store tokenId (fun t => t.invalidatedAt.isSome) ∧
      ∃ later, w'.log = w.log ++ later ∧ ∀ a, Entry.consumed a tokenId ∉ later) ?_
      ⟨h, hinvalidated, [], (List.append_nil _).symm, fun _ => List.not_mem_nil⟩ hrun
    rintro u e v ⟨hsound, hu, later, hlog, hnot⟩ hstep
    refine ⟨hsound.of_step (Observer.observe_eq_some hstep).1, hu.of_step hstep invalidated_lasting, ?_⟩
    rcases recorded_cases hstep with ⟨hsame, -⟩ | ⟨i, t, publish, ht, hstmt, hstore, hnext⟩
    · exact ⟨later, hsame.trans hlog, hnot⟩
    · refine ⟨later ++ entries t, by rw [hnext, hlog, List.append_assoc], fun a hmem => ?_⟩
      rcases List.mem_append.mp hmem with hmem | hmem
      · exact hnot a hmem
      · obtain ⟨effect, rfl⟩ := consumed_mem_entries hmem
        obtain rfl := Stmt.commit.inj hstmt
        obtain ⟨x, hx, hid, hopen, -⟩ := presents_of_commit hsound ht hstore
        obtain ⟨y, hy, hid', hclosed⟩ := hu
        obtain rfl := Table.eq_of_key hy hx (hid'.trans hid.symm)
        simp [SecurityToken.isOpen, Option.isSome_iff_ne_none.mp hclosed] at hopen
  exact hlater.2.2

/-- **Tokens are used once**: along every run a token is consumed by one committed transaction at most, with the
purpose and before the end that it was issued with, and never once its invalidation has been committed. -/
theorem tokens_single_use {w₀ w : Recorded} {es : List (Event Point)} (hquiet : w₀.state.Quiet) (hlog : w₀.log = [])
    (hrun : Runs.run (observe hs) w₀ es = some w) :
    (w.log.filterMap Entry.consumedToken).Nodup ∧
    (∀ a tokenId, Entry.consumed a tokenId ∈ w.log →
      HasToken w.state.store tokenId fun t => t.purpose = a.purpose ∧
        t.tokenDigest = hs.tokenDigest a.token a.purpose.text ∧ a.now < t.expiresAt) ∧
    (∀ v a, Entry.issued v ∈ w.log → Entry.consumed a v.tokenId ∈ w.log →
      a.purpose = v.purpose ∧ a.now < v.issuedAt + lifetime v.purpose * IdentityService.microsPerSecond) ∧
    ∀ tokenId, HasToken w.state.store tokenId (fun t => t.invalidatedAt.isSome) →
      ∀ es' w', Runs.run (observe hs) w es' = some w' →
        ∃ later, w'.log = w.log ++ later ∧ ∀ a, Entry.consumed a tokenId ∉ later := by
  have hstart : Faithful hs w₀ := by
    refine ⟨Sound.of_quiet hquiet, ?_, ?_, ?_⟩ <;> rw [hlog]
    · exact List.nodup_nil
    · intro a tokenId hmem
      cases hmem
    · intro v hmem
      cases hmem
  have h : Faithful hs w := Runs.inv_of_run (fun w e w' hw hs => hw.of_step hs) hstart hrun
  refine ⟨h.once, ?_, ?_, ?_⟩
  · intro a tokenId hmem
    obtain ⟨t, ht, hid, hpurpose, hdigest, hnow, -⟩ := h.consumed a tokenId hmem
    exact ⟨t, ht, hid, hpurpose, hdigest, hnow⟩
  · intro v a hissued hconsumed
    obtain ⟨t, ht, hid, hpurpose, -, hnow, -⟩ := h.consumed a _ hconsumed
    obtain ⟨t', ht', hid', hpurpose', -, -, hexpires⟩ := h.issued v hissued
    obtain rfl := Table.eq_of_key ht ht' (hid.trans hid'.symm)
    exact ⟨hpurpose.symm.trans hpurpose', by rwa [← hexpires]⟩
  · intro tokenId hinvalidated es' w' hrun'
    exact consumed_of_invalidated h.sound hrun' hinvalidated

/-- A ticket is issued, used and presented again. -/
def ticketUsed : List (Event Point) :=
  whole 1 (.ticket (sampleTicket 100 7 "listek" 1000)) 3 ++ whole 2 (.present (sampleUse "listek" 2000)) 2 ++
    whole 3 (.present (sampleUse "listek" 3000)) 2

theorem tokens_single_use_ticket : ∃ w, Runs.run (observe sampleHashes) ⟨sampleState, 0, []⟩ ticketUsed = some w ∧
    w.log.filterMap Entry.consumedToken = [7] ∧ (w.log.filterMap Entry.consumedToken).Nodup := by
  have hrun : (Runs.run (observe sampleHashes) ⟨sampleState, 0, []⟩ ticketUsed).any (fun w =>
      w.log.filterMap Entry.consumedToken = [7]) = true := by decide +kernel
  obtain ⟨w, hw, hend⟩ := (Option.any_eq_true _ _).mp hrun
  exact ⟨w, hw, of_decide_eq_true hend, (tokens_single_use (fun _ => rfl) rfl hw).1⟩

end KajovoDagmar.Tokens
