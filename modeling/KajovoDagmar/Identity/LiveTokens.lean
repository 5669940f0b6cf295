import KajovoDagmar.Identity.SingleUse

/-! # Live tokens

An issuer invalidates the earlier tokens of its account and purpose and adds its own.  The issuers of resets and of
changes of the address exclude each other by a row that they lock, so they leave one live token at most.  The issuers
of tickets lock only their browser session: two of them that overlap do not see each other's ticket.  A run keeps at
most one live token exactly if no issuer of a ticket commits next to a live ticket that was committed since its bulk
invalidation (`live_tokens_iff`). -/

namespace KajovoDagmar.Tokens

open ReadCommitted

variable (hs : Hashes)

/-! ### The clock -/

/-- The clock readings: the time of the invalidation, the time of the issue and the time of the check of a token. -/
def clock (_ : Store) : Point → Option Instant
  | .scan w => some w.invalidatedAt
  | .invalidate w _ [] _ => some w.issuedAt
  | .presentLock a _ => some a.now
  | _ => none

/-- The clock, and the committed history. -/
def clockObserver : Observer (State RowLock Store Point) (Event Point) Entry :=
  ReadCommitted.observer clock (commits (stmt hs) entries)

/-- The transactions with their clock. -/
abbrev observeClock := (clockObserver hs).observe (step hs)

/-- A token that can be used at the time. -/
def Live (now : Instant) (t : SecurityToken) : Prop := t.isOpen = true ∧ now < t.expiresAt

/-- At most one token of each account and purpose is live. -/
def OneLive (w : Recorded) : Prop :=
  ∀ t ∈ w.state.store.tokens, ∀ t' ∈ w.state.store.tokens, Live w.clock t → Live w.clock t' →
    t.accountId = t'.accountId → t.purpose = t'.purpose → t = t'

/-- The step is not the commit of a ticket that is live next to a live ticket of the account which was committed
since the bulk invalidation of the issuer. -/
def Serialized (w : Recorded) : Event Point → Prop
  | .exec i => ∀ v seen marked, w.state.txn i = some (.issueCommit v seen marked) → v.purpose = .realtimeTicket →
    (publishIssue hs v marked w.state.store).isSome → Live w.clock (newToken hs v) →
    ∀ t ∈ w.state.store.tokens.rows.drop seen, t.accountId = v.accountId → t.purpose = .realtimeTicket →
      ¬Live w.clock t
  | _ => True

variable {hs}

theorem Live.mono {now later : Instant} {x y : SecurityToken} (h : Live later y) (hle : now ≤ later)
    (hcontinues : Continues x y) : Live now x := by
  refine ⟨open_of_continues hcontinues h.1, ?_⟩
  have hexpires := h.2
  rw [hcontinues.columns] at hexpires
  exact hle.trans_lt hexpires

theorem issuerLock_isSome {v : Issue} (h : v.purpose ≠ .realtimeTicket) : (issuerLock v).isSome := by
  unfold issuerLock
  cases hpurpose : v.purpose with
  | realtimeTicket => exact (h hpurpose).elim
  | _ => rfl

/-! ### One step -/

/-- A live token next to the one that is issued contradicts the condition. -/
theorem eq_newToken {w w' : Recorded} {i : ℕ} {v : Issue} {seen : ℕ} {marked : List Uuid} (hsound : Sound hs w.state)
    (hserialized : Serialized hs w (.exec i)) (ht : w.state.txn i = some (.issueCommit v seen marked))
    (hstore : publishIssue hs v marked w.state.store = some w'.state.store) (hle : w.clock ≤ w'.clock)
    (hnew : Live w'.clock (newToken hs v)) {t : SecurityToken} (hmem : t ∈ w'.state.store.tokens)
    (hlive : Live w'.clock t) (haccount : t.accountId = v.accountId) (hpurpose : t.purpose = v.purpose) :
    t = newToken hs v := by
  obtain ⟨-, hcovers⟩ := hsound.knows i _ ht
  by_cases hticket : v.purpose = .realtimeTicket
  · refine (open_of_issue hcovers hstore hmem hlive.1 haccount hpurpose).resolve_right ?_
    rintro ⟨x, hx, -, hcontinues⟩
    rw [hcontinues.columns] at haccount hpurpose
    exact hserialized v seen marked ht hticket (by rw [hstore]; rfl) (hnew.mono hle (Continues.refl _)) x hx haccount
      (hpurpose.trans hticket) (hlive.mono hle hcontinues)
  · exact open_of_exclusive hcovers (issuerLock_isSome hticket) hstore hmem hlive.1 haccount hpurpose

/-- A step that meets the condition keeps one live token at most. -/
theorem OneLive.of_step {w w' : Recorded} {e : Event Point} (hsound : Sound hs w.state) (h : OneLive w)
    (hserialized : Serialized hs w e) (hstep : observeClock hs w e = some w') : OneLive w' := by
  obtain ⟨hmoves, hle, -, -⟩ := Observer.observe_eq_some hstep
  intro t ht t' ht' hlive hlive' haccount hpurpose
  rcases store_eq_or_commit hmoves with hstore | ⟨i, p, publish, rfl, hp, hstmt, hstore⟩
  · rw [hstore] at ht ht'
    exact h t ht t' ht' (hlive.mono hle (Continues.refl t)) (hlive'.mono hle (Continues.refl t')) haccount hpurpose
  rcases open_of_commit hstmt hstore ht hlive.1 with ⟨old, hold, -, hcontinues⟩ | ⟨v, seen, marked, rfl, rfl⟩
  · rcases open_of_commit hstmt hstore ht' hlive'.1 with ⟨old', hold', -, hcontinues'⟩ | ⟨v, seen, marked, rfl, rfl⟩
    · have hcolumns := hcontinues.columns
      have hcolumns' := hcontinues'.columns
      rw [hcolumns, hcolumns'] at haccount hpurpose
      have hsame : old = old' := h old hold old' hold' (hlive.mono hle hcontinues) (hlive'.mono hle hcontinues')
        haccount hpurpose
      refine Table.eq_of_key ht ht' ?_
      rw [hcolumns, hcolumns', hsame]
    · obtain rfl := Stmt.commit.inj hstmt
      exact eq_newToken hsound hserialized hp hstore hle hlive' ht hlive haccount hpurpose
  · obtain rfl := Stmt.commit.inj hstmt
    exact (eq_newToken hsound hserialized hp hstore hle hlive ht' hlive' haccount.symm hpurpose.symm).symm

/-- A step that does not meet the condition leaves two live tickets. -/
theorem Serialized.of_oneLive {w : Recorded} {e : Event Point} (hsound : Sound hs w.state)
    (h : ∀ w', observeClock hs w e = some w' → OneLive w') : Serialized hs w e := by
  cases e with
  | start i t => trivial
  | abort i => trivial
  | exec i =>
    intro v seen marked ht hticket hsome hnew t hmem haccount hpurpose hlive
    obtain ⟨store, hstore⟩ := Option.isSome_iff_exists.mp hsome
    have hcommit : step hs w.state (.exec i) = some ({ w.state with store := store }.release i) := by
      show (w.state.txn i).bind _ = _
      rw [ht, Option.bind_some]
      unfold execute stmt
      simp only [hstore]
    have hstep := Observer.observe_of_silent (o := clockObserver hs) (observer_reading ht) hcommit
    obtain ⟨-, hcovers⟩ := hsound.knows i _ ht
    have hmemTable : t ∈ w.state.store.tokens := List.mem_of_mem_drop hmem
    -- the ticket is not among the rows that the issuer has seen, so it is not marked
    have hunmarked : t.id ∉ marked := by
      intro hid
      obtain ⟨x, hx, hxid⟩ := hcovers.scanned t.id hid
      have hsame : x = t := Table.eq_of_key (List.mem_of_mem_take hx) hmemTable hxid
      have hnodup : w.state.store.tokens.rows.Nodup := w.state.store.tokens.nodup.of_map
      rw [← List.take_append_drop seen w.state.store.tokens.rows] at hnodup
      exact (List.nodup_append'.mp hnodup).2.2 hx (hsame ▸ hmem)
    obtain ⟨hrows, -⟩ := publishIssue_ok hstore
    have hkept : t ∈ store.tokens := by
      rw [Table.mem_def, hrows]
      refine List.mem_append_left _ (List.mem_map.mpr ⟨t, hmemTable, if_neg hunmarked⟩)
    have hadded : newToken hs v ∈ store.tokens := by
      rw [Table.mem_def, hrows]
      exact List.mem_append_right _ (List.mem_singleton_self _)
    have hsame := h _ hstep t hkept _ hadded hlive hnew haccount (hpurpose.trans hticket.symm)
    have hnodup := store.tokens.nodup
    rw [hrows, List.map_append, List.map_map] at hnodup
    refine (List.nodup_append'.mp hnodup).2.2 (List.mem_map.mpr ⟨t, hmemTable, ?_⟩) (List.mem_singleton_self _)
    rw [Function.comp_apply, invalidateToken_id, hsame]

/-! ### Runs -/

/-- **One live token**: from at most one live token of each account and purpose, a run has at most one in every
state exactly if every step meets the condition. -/
theorem live_tokens_iff {w₀ : Recorded} (hquiet : w₀.state.Quiet) (hstart : OneLive w₀) (es : List (Event Point)) :
    Runs.Always (observeClock hs) OneLive w₀ es ↔ Runs.Along (observeClock hs) (Serialized hs) w₀ es := by
  refine Runs.always_iff_along (I := fun w : Recorded => Sound hs w.state) ?_ ?_ (Sound.of_quiet hquiet) hstart
  · intro w e w' hsound hstep
    exact hsound.of_step (Observer.observe_eq_some hstep).1
  · intro w e hsound hone
    constructor
    · intro hserialized w' hstep
      exact hone.of_step hsound hserialized hstep
    · exact Serialized.of_oneLive hsound

/-- Two browser sessions ask for a ticket at the same time. -/
def overlappingTickets : List (Event Point) :=
  [.start 1 (.ticket (sampleTicket 100 7 "prvni listek" 1000)), .exec 1, .exec 1,
    .start 2 (.ticket (sampleTicket 101 8 "druhy listek" 1000)), .exec 2, .exec 2, .exec 1, .exec 1, .exec 2, .exec 2]

/-- The ticket of a sample request. -/
def ticketOf (sessionId tokenId : Uuid) (token : String) (now : Instant) : SecurityToken :=
  newToken sampleHashes (sampleTicket sessionId tokenId token now).issue

/-- Both tickets of the overlapping requests are live. -/
theorem tickets_overlap : ∃ w, Runs.run (observeClock sampleHashes) ⟨sampleState, 0, []⟩ overlappingTickets = some w ∧
    w.state.store.tokens.rows = [ticketOf 100 7 "prvni listek" 1000, ticketOf 101 8 "druhy listek" 1000] ∧
    ¬OneLive w := by
  have hrun : (Runs.run (observeClock sampleHashes) ⟨sampleState, 0, []⟩ overlappingTickets).any (fun w =>
      decide (w.clock = 1000) && decide (w.state.store.tokens.rows =
        [ticketOf 100 7 "prvni listek" 1000, ticketOf 101 8 "druhy listek" 1000])) = true := by
    decide +kernel
  obtain ⟨w, hw, hend⟩ := (Option.any_eq_true _ _).mp hrun
  obtain ⟨hclock, hrows⟩ := Bool.and_eq_true_iff.mp hend
  have hclock' := of_decide_eq_true hclock
  have hrows' := of_decide_eq_true hrows
  refine ⟨w, hw, hrows', fun hone => ?_⟩
  have hsame := hone (ticketOf 100 7 "prvni listek" 1000) (by rw [Table.mem_def, hrows']; simp)
    (ticketOf 101 8 "druhy listek" 1000) (by rw [Table.mem_def, hrows']; simp)
    ⟨rfl, by rw [hclock']; exact Int.lt_of_add_one_le (by decide)⟩
    ⟨rfl, by rw [hclock']; exact Int.lt_of_add_one_le (by decide)⟩ rfl rfl
  exact absurd (congrArg SecurityToken.id hsame) (by decide : (7 : Uuid) ≠ 8)

/-- No token is live at the start. -/
theorem oneLive_start : OneLive ⟨sampleState, 0, []⟩ := by
  intro t ht
  cases ht

theorem live_tokens_iff_successive : (∃ w, Runs.run (observeClock sampleHashes) ⟨sampleState, 0, []⟩
      (whole 1 (.ticket (sampleTicket 100 7 "listek" 1000)) 3) = some w ∧
      w.state.store.tokens.rows = [ticketOf 100 7 "listek" 1000]) ∧
    (Runs.Always (observeClock sampleHashes) OneLive ⟨sampleState, 0, []⟩
        (whole 1 (.ticket (sampleTicket 100 7 "listek" 1000)) 3) ↔
      Runs.Along (observeClock sampleHashes) (Serialized sampleHashes) ⟨sampleState, 0, []⟩
        (whole 1 (.ticket (sampleTicket 100 7 "listek" 1000)) 3)) := by
  refine ⟨?_, live_tokens_iff (fun _ => rfl) oneLive_start _⟩
  have hrun : (Runs.run (observeClock sampleHashes) ⟨sampleState, 0, []⟩
      (whole 1 (.ticket (sampleTicket 100 7 "listek" 1000)) 3)).any (fun w =>
        w.state.store.tokens.rows = [ticketOf 100 7 "listek" 1000]) = true := by
    decide +kernel
  obtain ⟨w, hw, hend⟩ := (Option.any_eq_true _ _).mp hrun
  exact ⟨w, hw, of_decide_eq_true hend⟩

end KajovoDagmar.Tokens
