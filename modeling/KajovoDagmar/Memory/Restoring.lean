import KajovoDagmar.Memory.Live

/-! # A deletion and its restoration

`soft_delete` writes the state over and keeps every other column of the item; the state that the
item had is nowhere in its row.  `restore` gives the columns back and makes the item active, as
the restoration of a deleted item is meant to, whatever it was before. -/

namespace KajovoDagmar.MemoryService

variable {rt : Runtime}

/-! ### Rows as the driver stores them -/

theorem bindDatetime_bindDatetime (d : DateTime) :
    MemoryItem.bindDatetime rt (MemoryItem.bindDatetime rt d) = MemoryItem.bindDatetime rt d := by
  simp [MemoryItem.bindDatetime, DateTime.utc]

theorem bind_bind (item : MemoryItem) : (item.bind rt).bind rt = item.bind rt := by
  simp [MemoryItem.bind, Function.comp_def, bindDatetime_bindDatetime]

/-- The dates of every item are the instants that the driver stored. -/
def Bound (rt : Runtime) (db : Db) : Prop := ∀ item ∈ db.memoryItems, item.bind rt = item

theorem Write.bound {db db' : Db} (h : Write rt db db') (hb : Bound rt db) : Bound rt db' := by
  cases h with
  | create h => exact h.forall hb (bind_bind _)
  | revise h =>
      refine h.forall hb fun _ => ?_
      have hrow := @bind_bind rt
      simp only [rowOf, MemoryItem.bind, MemoryItem.mk.injEq] at hrow ⊢
      simpa using hrow _
  | quiet h =>
      obtain ⟨hitems, -⟩ := Prod.mk.inj h
      rw [Bound, hitems]
      exact hb

theorem Bound.writes {db db' : Db} (h : Bound rt db) (hw : Relation.ReflTransGen (Write rt) db db') :
    Bound rt db' := by
  induction hw with
  | refl => exact h
  | tail _ hw ih => exact hw.bound ih

/-- **Step lemma**: the rows of every call hold the instants of the driver. -/
theorem Bound.of_step {s s' : Session} {call : Call} (h : Bound rt s.db)
    (hs : step rt s call = some s') : Bound rt s'.db := by
  rcases step_cases hs with hdb | ⟨a, hwork⟩
  · rw [hdb]
    exact h
  · have hbegan : Bound rt { s with began := call.began }.db := h
    exact hbegan.writes (Call.work_writes hwork)

theorem NoMemories.bound {db : Db} (h : NoMemories db) : Bound rt db := by
  intro x hx
  have hnone : x ∈ db.memoryItems.rows := hx
  rw [h.items] at hnone
  exact absurd hnone List.not_mem_nil

/-! ### What the operations return -/

/-- The closing audit event and the refresh return the row of the item. -/
theorem close_returns {context : AuditContext} {eventType result : String} {targetType : Option String}
    {targetId : Option Uuid} {details : List (String × Json)} {id : Uuid} {s s' : Session}
    {a : MemoryItem} (h : (do
      let _ ← AuditService.append rt context eventType result targetType targetId details
      refresh id : Work MemoryItem) s = (.ok a, s')) : s'.db.memoryItems.find? id = some a := by
  obtain ⟨event, s₁, -, h⟩ := Tx.bind_eq_ok h
  rw [refresh, Relation.find, Tx.gets_bind_apply] at h
  obtain ⟨hfind, rfl⟩ := Tx.orRaise_eq_ok h
  exact hfind

/-- `soft_delete` of an item that is not deleted returns the row that it has written. -/
theorem softDelete_returns {accountId memoryId : Uuid} {expectedVersion retentionDays : ℤ}
    {context : AuditContext} {s s' : Session} {item a : MemoryItem}
    (hitem : item? s.db accountId memoryId = some item) (hstate : item.state ≠ .deleted)
    (h : softDelete rt accountId memoryId expectedVersion retentionDays context s = (.ok a, s')) :
    ∃ deletedAt purgeAfter, s'.db.memoryItems.find? item.id = some a ∧
      a = rowOf rt s.began { item with
        state := .deleted, deletedAt := some deletedAt, purgeAfter := some purgeAfter
        version := item.version + 1 } := by
  obtain ⟨item', hitem', -, ⟨hdeleted, -⟩ | ⟨-, deletedAt, purgeAfter, hrevises⟩⟩ := softDelete_ok h
  · obtain rfl : item = item' := Option.some.inj (hitem.symm.trans hitem')
    exact absurd hdeleted hstate
  obtain rfl : item = item' := Option.some.inj (hitem.symm.trans hitem')
  refine ⟨deletedAt, purgeAfter, ?_⟩
  have hfound : s'.db.memoryItems.find? item.id = some a := by
    obtain ⟨item', hitem', -, h⟩ := locked_ok h
    obtain rfl : item = item' := Option.some.inj (hitem.symm.trans hitem')
    rw [if_neg hstate] at h
    obtain ⟨_, s₁, -, h⟩ := Tx.bind_eq_ok h
    obtain ⟨_, s₂, -, h⟩ := Tx.bind_eq_ok h
    obtain ⟨_, s₃, -, h⟩ := Tx.bind_eq_ok h
    obtain ⟨_, s₄, -, h⟩ := Tx.bind_eq_ok h
    exact close_returns h
  refine ⟨hfound, ?_⟩
  have hput := Table.find?_put_self (r := rowOf rt s.began { item with
    state := .deleted, deletedAt := some deletedAt, purgeAfter := some purgeAfter
    version := item.version + 1 }) hrevises.found
  rw [← hrevises.items] at hput
  exact Option.some.inj (hfound.symm.trans hput)

/-! ### The restoration -/

/-- The item two versions later: the same but for its state and its timestamps. -/
structure GivenBack (item restored : MemoryItem) : Prop where
  same : restored = { item with
    state := restored.state, version := item.version + 2, updatedAt := restored.updatedAt
    deletedAt := none, purgeAfter := none }
  current : item.state = .active ∨ item.state = .outdated → restored.state = .active

theorem restore_returns {accountId memoryId : Uuid} {expectedVersion : ℤ} {context : AuditContext}
    {s s' : Session} {item a : MemoryItem} (hitem : item? s.db accountId memoryId = some item)
    (h : restore rt accountId memoryId expectedVersion context s = (.ok a, s')) :
    s'.db.memoryItems.find? item.id = some a ∧ a = rowOf rt s.began { item with
      state := .active, deletedAt := none, purgeAfter := none, version := item.version + 1 } := by
  obtain ⟨item', hitem', -, -, hrevises⟩ := restore_ok h
  obtain rfl : item = item' := Option.some.inj (hitem.symm.trans hitem')
  have hfound : s'.db.memoryItems.find? item.id = some a := by
    obtain ⟨item', hitem', -, h⟩ := locked_ok h
    obtain rfl : item = item' := Option.some.inj (hitem.symm.trans hitem')
    obtain ⟨_, s₁, -, h⟩ := Tx.bind_eq_ok h
    obtain ⟨-, h⟩ := Tx.raiseIf_bind_eq_ok h
    obtain ⟨_, s₂, -, h⟩ := Tx.bind_eq_ok h
    obtain ⟨_, s₃, -, h⟩ := Tx.bind_eq_ok h
    obtain ⟨_, s₄, -, h⟩ := Tx.bind_eq_ok h
    exact close_returns h
  refine ⟨hfound, ?_⟩
  have hput := Table.find?_put_self (r := rowOf rt s.began { item with
    state := .active, deletedAt := none, purgeAfter := none, version := item.version + 1 }) hrevises.found
  rw [← hrevises.items] at hput
  exact Option.some.inj (hfound.symm.trans hput)

/-- What `restore` does with an item that it does not refuse raises no domain error. -/
theorem restoreItem_noDomain {accountId : Uuid} {item : MemoryItem} {context : AuditContext}
    {s : Session} {e : Exc} (hopen : unrestorable item (.utc (rt.clock s.tick)) = false)
    (h : (restoreItem rt accountId item context s).1 = .error e) : ¬e.IsDomain := by
  have hnow : utcNow rt s = (.ok (.utc (rt.clock s.tick)), { s with tick := s.tick + 1 }) := rfl
  rw [restoreItem, Tx.bind_of_ok hnow, Tx.raiseIf_bind_of_not (by simp [hopen])] at h
  have hclose : NoDomain (do
      let updated := { item with
        state := .active, deletedAt := none, purgeAfter := none, version := item.version + 1 }
      store rt item updated
      recordVersion rt updated accountId "restored"
      requestIndex rt updated
      let _ ← AuditService.append rt context "memory.restored" "success" none (some item.id)
      refresh item.id) := by
    refine (store_noDomain _ _).bind fun _ => (recordVersion_noDomain _ _ _).bind fun _ => ?_
    exact (requestIndex_noDomain _).bind fun _ => close_noDomain
  exact hclose _ e h

theorem before_iff {a b : DateTime} : a.before b = true ↔ b.le a = false := by
  simp only [DateTime.before, DateTime.le, decide_eq_true_eq, decide_eq_false_iff_not, not_le]

/-- **A deletion and its restoration before the deadline**, in whatever state the item was and
after any other calls that leave its row alone: the item comes back with every column but its
state, version and timestamps, and an active or outdated one comes back active.  The restoration
can fail only as any write of the database can, and then changes nothing. -/
theorem deletion_undone {s₀ s s₁ s₂ s₃ : Session} {calls : List Call} {accountId memoryId : Uuid}
    {item deleted : MemoryItem} {retentionDays : ℤ} {context context' : AuditContext}
    {began began' deadline : DateTime} {outcome : Except Exc MemoryItem}
    (h₀ : NoMemories s₀.db) (hrun : Runs.run (step rt) s₀ calls = some s)
    (hitem : item? s.db accountId memoryId = some item) (hstate : item.state ≠ .deleted)
    (hdelete : Call.perform rt ⟨.softDelete memoryId item.version retentionDays, accountId, context,
      began⟩ s = (.ok deleted, s₁))
    (hkept : item? s₂.db accountId memoryId = item? s₁.db accountId memoryId)
    (hpurge : deleted.purgeAfter = some deadline)
    (hbefore : (DateTime.utc (rt.clock s₂.tick)).before deadline = true)
    (hrestore : Call.perform rt ⟨.restore memoryId deleted.version, accountId, context', began'⟩ s₂ =
      (outcome, s₃)) :
    (∃ restored, outcome = .ok restored ∧ item? s₃.db accountId memoryId = some restored ∧
      GivenBack item restored) ∨
    ∃ e, outcome = .error e ∧ ¬e.IsDomain ∧ s₃.db = s₂.db := by
  obtain ⟨hid, haccount⟩ : item.id = memoryId ∧ item.accountId = accountId := by
    obtain ⟨hfind, hown⟩ := Option.filter_eq_some_iff.mp hitem
    exact ⟨Table.key_of_find? hfind, of_decide_eq_true hown⟩
  have hbound : item.bind rt = item :=
    Runs.inv_of_run (I := fun s => Bound rt s.db) (fun _ _ _ h hs => h.of_step hs) h₀.bound hrun item
      (Table.mem_of_find? (item?_mem hitem))
  -- what the deletion has left in the row
  obtain ⟨deletedAt, purgeAfter, hfound, hdeleted⟩ :=
    softDelete_returns (s := { s with began := began }) hitem hstate (Database.session_eq_ok hdelete)
  obtain rfl : purgeAfter = deadline := by
    rw [hdeleted] at hpurge
    exact Option.some.inj hpurge
  have hrow : item? s₂.db accountId memoryId = some deleted := by
    rw [hkept, item?, ← hid, hfound, Option.filter_some, if_pos]
    rw [hdeleted]
    exact decide_eq_true haccount
  have hopen : unrestorable deleted (.utc (rt.clock s₂.tick)) = false := by
    have hle := before_iff.mp hbefore
    simp [hdeleted, unrestorable, rowOf, MemoryItem.bind, hle]
  rcases hr : restore rt accountId memoryId deleted.version context' { s₂ with began := began' } with
    ⟨e | restored, s₄⟩
  · have hdomain : ¬e.IsDomain := by
      obtain ⟨s', hlocked⟩ : ∃ s', restoreItem rt accountId deleted context'
          { s₂ with began := began' } = (.error e, s') := by
        rw [restore_eq] at hr
        have hlock : lockItem accountId memoryId { s₂ with began := began' } =
            (.ok deleted, { s₂ with began := began' }) := by
          rw [lockItem, Tx.gets_bind_apply]
          change Tx.orRaise (item? s₂.db accountId memoryId) notFound _ = _
          rw [hrow]
          rfl
        rw [Tx.bind_of_ok hlock, versionGuard, Tx.raiseIf_bind_of_not (by simp)] at hr
        exact ⟨_, hr⟩
      exact restoreItem_noDomain (s := { s₂ with began := began' }) hopen (congrArg Prod.fst hlocked)
    have hrolled := Database.session_of_rollback hr fun hd => hdomain hd.isDomain
    obtain ⟨rfl, rfl⟩ := Prod.mk.inj (hrolled.symm.trans hrestore)
    exact .inr ⟨e, rfl, hdomain, rfl⟩
  · have hcommitted := Database.session_of_ok hr
    obtain ⟨rfl, rfl⟩ := Prod.mk.inj (hcommitted.symm.trans hrestore)
    obtain ⟨hfound', hrestored⟩ := restore_returns (s := { s₂ with began := began' }) hrow hr
    refine .inl ⟨restored, rfl, ?_, ?_⟩
    · rw [item?, ← hid]
      have hsame : deleted.id = item.id := by rw [hdeleted]; rfl
      rw [← hsame, hfound', Option.filter_some, if_pos]
      rw [hrestored, hdeleted]
      exact decide_eq_true haccount
    · refine ⟨?_, fun _ => congrArg MemoryItem.state hrestored⟩
      have hversion : restored.version = item.version + 2 := by
        rw [hrestored, hdeleted]
        change item.version + 1 + 1 = item.version + 2
        ring
      have hevent : item.eventAt.map (MemoryItem.bindDatetime rt) = item.eventAt :=
        congrArg MemoryItem.eventAt hbound
      have hfrom : item.validFrom.map (MemoryItem.bindDatetime rt) = item.validFrom :=
        congrArg MemoryItem.validFrom hbound
      have huntil : item.validUntil.map (MemoryItem.bindDatetime rt) = item.validUntil :=
        congrArg MemoryItem.validUntil hbound
      rw [← hversion, hrestored, hdeleted]
      simp only [rowOf, MemoryItem.bind, hevent, hfrom, huntil]

/-! ### An outdated meeting -/

theorem firstVersion : (1 : ℤ) ≤ 1 := le_rfl

/-- The meeting is entered and then marked as outdated. -/
def outdating : List Call :=
  [callOf (.create meeting), callOf (.update (2 ^ 64 + 1)
    { expectedVersion := ⟨1, firstVersion⟩, content := none, category := none, eventAt := none
      validFrom := none, validUntil := none, markOutdated := true })]

def outdatedContext : AuditContext := { actorType := "user", actorId := some 1 }

def outdatedSession : Session := (Runs.run (step zonedRuntime) emptySession outdating).getD emptySession

/-- The outdated meeting is deleted for thirty days. -/
def outdatedDeletion : Except Exc MemoryItem × Session :=
  (callOf (.softDelete (2 ^ 64 + 1) 2 30)).perform zonedRuntime outdatedSession

/-- The deleted meeting is restored at once. -/
def outdatedRestoration : Except Exc MemoryItem × Session :=
  (callOf (.restore (2 ^ 64 + 1) 3)).perform zonedRuntime outdatedDeletion.2

theorem outdating_run : Runs.run (step zonedRuntime) emptySession outdating = some outdatedSession := rfl

/-- The outdated meeting is restored as an active one. -/
theorem outdated_restored : ∃ item deleted deadline restored,
    item? outdatedSession.db 1 (2 ^ 64 + 1) = some item ∧ item.state = .outdated ∧
    Call.perform zonedRuntime ⟨.softDelete (2 ^ 64 + 1) item.version 30, 1, outdatedContext,
      .utc 1767225600000000⟩ outdatedSession = (.ok deleted, outdatedDeletion.2) ∧
    deleted.purgeAfter = some deadline ∧
    (DateTime.utc (zonedRuntime.clock outdatedDeletion.2.tick)).before deadline = true ∧
    Call.perform zonedRuntime ⟨.restore (2 ^ 64 + 1) deleted.version, 1, outdatedContext,
      .utc 1767225600000000⟩ outdatedDeletion.2 = (.ok restored, outdatedRestoration.2) ∧
    restored.state = .active := by
  have h : ((item? outdatedSession.db 1 (2 ^ 64 + 1)).any fun item =>
      outdatedDeletion.1.toOption.any fun deleted => deleted.purgeAfter.any fun deadline =>
        outdatedRestoration.1.toOption.any fun restored =>
          decide (item.state = .outdated ∧ item.version = 2 ∧ deleted.version = 3 ∧
            (DateTime.utc (zonedRuntime.clock outdatedDeletion.2.tick)).before deadline = true ∧
            restored.state = .active)) = true := by
    decide +kernel
  obtain ⟨item, hitem, h⟩ := (Option.any_eq_true _ _).mp h
  obtain ⟨deleted, hdeleted, h⟩ := (Option.any_eq_true _ _).mp h
  obtain ⟨deadline, hdeadline, h⟩ := (Option.any_eq_true _ _).mp h
  obtain ⟨restored, hrestored, h⟩ := (Option.any_eq_true _ _).mp h
  obtain ⟨hstate, hversion, hnext, hbefore, hactive⟩ := of_decide_eq_true h
  have hok : ∀ {r : Except Exc MemoryItem} {a : MemoryItem}, r.toOption = some a → r = .ok a := by
    intro r a hr
    cases r with
    | error e => simp [Except.toOption] at hr
    | ok a' => exact congrArg Except.ok (Option.some.inj hr)
  refine ⟨item, deleted, deadline, restored, hitem, hstate, ?_, hdeadline, hbefore, ?_, hactive⟩
  · rw [hversion, ← hok hdeleted]
    rfl
  · rw [hnext, ← hok hrestored]
    rfl

/-- A restored item need not have the state that it had before its deletion. -/
theorem outdated_becomes_active : ¬∀ (rt : Runtime) (s₀ s s₁ s₃ : Session) (calls : List Call)
    (accountId memoryId : Uuid) (item deleted restored : MemoryItem) (retentionDays : ℤ)
    (context context' : AuditContext) (began began' deadline : DateTime),
    NoMemories s₀.db → Runs.run (step rt) s₀ calls = some s →
    item? s.db accountId memoryId = some item → item.state ≠ .deleted →
    Call.perform rt ⟨.softDelete memoryId item.version retentionDays, accountId, context, began⟩ s =
      (.ok deleted, s₁) →
    deleted.purgeAfter = some deadline → (DateTime.utc (rt.clock s₁.tick)).before deadline = true →
    Call.perform rt ⟨.restore memoryId deleted.version, accountId, context', began'⟩ s₁ = (.ok restored, s₃) →
    restored.state = item.state := by
  intro h
  obtain ⟨item, deleted, deadline, restored, hitem, hstate, hdelete, hdeadline, hbefore, hrestore, hactive⟩ :=
    outdated_restored
  have hsame := h _ _ _ _ _ _ _ _ _ _ _ _ _ _ _ _ _ emptySession_noMemories outdating_run hitem
    (by rw [hstate]; decide) hdelete hdeadline hbefore hrestore
  rw [hactive, hstate] at hsame
  exact absurd hsame (by decide)

/-- The same round trip, with everything but the state as it was. -/
theorem deletion_undone_outdated : ∃ item restored,
    item? outdatedSession.db 1 (2 ^ 64 + 1) = some item ∧
      item? outdatedRestoration.2.db 1 (2 ^ 64 + 1) = some restored ∧ GivenBack item restored := by
  obtain ⟨item, deleted, deadline, restored, hitem, hstate, hdelete, hdeadline, hbefore, hrestore, hactive⟩ :=
    outdated_restored
  rcases deletion_undone emptySession_noMemories outdating_run hitem (by rw [hstate]; decide) hdelete rfl
    hdeadline hbefore hrestore with ⟨restored', hok, hrow, hback⟩ | ⟨e, he, -⟩
  · exact ⟨item, restored', hitem, hrow, hback⟩
  · exact absurd he (by simp)

end KajovoDagmar.MemoryService
