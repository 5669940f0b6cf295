import KajovoDagmar.Memory.Ledger

/-! # Live memories

Which items come to be active or pending, over every sequence of operations.  An item becomes
active by a creation, a confirmation or a restoration.  The first two see to it that an active
item has been confirmed, was not merged and repeats no other live item; `restore` looks at none of
this, and `update` compares a new content with one of the other live items only, whichever the
database gives. -/

namespace KajovoDagmar.MemoryService

variable {rt : Runtime}

/-! ### Properties of every item -/

section every

variable {P : MemoryItem → Prop} {db db' : Db}

theorem Creates.forall {item : MemoryItem} (h : Creates rt item db db')
    (hP : ∀ x ∈ db.memoryItems, P x) (hitem : P (item.bind rt)) : ∀ x ∈ db'.memoryItems, P x := by
  intro x hx
  rcases (Table.mem_insert? h.items).mp hx with hx | rfl
  · exact hP x hx
  · exact hitem

theorem Revises.forall {began : DateTime} {old new : MemoryItem} {indexed : Bool}
    (h : Revises rt began old new indexed db db') (hP : ∀ x ∈ db.memoryItems, P x)
    (hnew : P old → P (rowOf rt began new)) : ∀ x ∈ db'.memoryItems, P x := by
  intro x hx
  rw [h.items] at hx
  rcases Table.mem_put_iff.mp hx with ⟨hx, -⟩ | ⟨rfl, -⟩
  · exact hP x hx
  · exact hnew (hP old (Table.mem_of_find? h.found))

theorem Merges.forall {mergedId : Uuid} {sources : List MemoryItem}
    (h : Merges rt mergedId sources db db') (hP : ∀ x ∈ db.memoryItems, P x)
    (hmerged : ∀ began source, P (rowOf rt began (mergedItem source mergedId))) :
    ∀ x ∈ db'.memoryItems, P x := by
  induction h with
  | nil hrows =>
      rw [(Prod.mk.inj hrows).1]
      exact hP
  | cons hrevises _ ih => exact ih (hrevises.forall hP fun _ => hmerged _ _)

end every

/-! ### Active items have been confirmed -/

/-- An active item has been confirmed, and neither it nor a pending one has been merged. -/
structure Sound (item : MemoryItem) : Prop where
  confirmed : item.state = .active → item.confirmedAt ≠ none
  unmerged : item.state = .active ∨ item.state = .pending → item.mergedIntoId = none

/-- The call restores a deleted item that was never confirmed or that has been merged. -/
def RevivesUnsound (rt : Runtime) (s : Session) (call : Call) : Prop :=
  match call.operation with
  | .restore memoryId expectedVersion => ∃ item ∈ item? s.db call.accountId memoryId,
      item.version = expectedVersion ∧ unrestorable item (.utc (rt.clock s.tick)) = false ∧
      (item.confirmedAt = none ∨ item.mergedIntoId ≠ none)
  | _ => False

instance (rt : Runtime) (s : Session) : DecidablePred (RevivesUnsound rt s)
  | ⟨.restore memoryId expectedVersion, accountId, _, _⟩ =>
    inferInstanceAs (Decidable (∃ item ∈ item? s.db accountId memoryId,
      item.version = expectedVersion ∧ unrestorable item (.utc (rt.clock s.tick)) = false ∧
      (item.confirmedAt = none ∨ item.mergedIntoId ≠ none)))
  | ⟨.create _, _, _, _⟩ => isFalse id
  | ⟨.confirm _ _, _, _, _⟩ => isFalse id
  | ⟨.update _ _, _, _, _⟩ => isFalse id
  | ⟨.softDelete _ _ _, _, _, _⟩ => isFalse id
  | ⟨.merge _ _, _, _, _⟩ => isFalse id

theorem CreatesFrom.sound {accountId : Uuid} {request : MemoryCreate} {began : DateTime}
    {item : MemoryItem} {db db' : Db} (h : CreatesFrom rt accountId request began item db db')
    (hs : ∀ x ∈ db.memoryItems, Sound x) : ∀ x ∈ db'.memoryItems, Sound x := by
  refine h.toCreates.forall hs ?_
  obtain ⟨id, now, rfl⟩ := h.item_eq
  constructor
  · intro hactive
    change initialState request = .active at hactive
    change (if initialState request = .active then some now else none) ≠ none
    rw [if_pos hactive]
    exact Option.some_ne_none now
  · exact fun _ => rfl

/-- **Step lemma**: a call that does not revive an unsound item keeps every item sound. -/
theorem Call.work_sound {call : Call} {s s' : Session} {a : MemoryItem}
    (h : call.work rt s = (.ok a, s')) (hcall : ¬RevivesUnsound rt s call)
    (hs : ∀ x ∈ s.db.memoryItems, Sound x) : ∀ x ∈ s'.db.memoryItems, Sound x := by
  obtain ⟨operation, accountId, context, began⟩ := call
  cases operation with
  | create request =>
      obtain ⟨item, hcreates, -⟩ := create_ok h
      exact hcreates.sound hs
  | confirm memoryId expectedVersion =>
      obtain ⟨item, now, -, -, hpending, hrevises⟩ := confirm_ok h
      refine hrevises.forall hs fun hold => ⟨fun _ => Option.some_ne_none now, fun _ => ?_⟩
      exact hold.unmerged (.inr hpending)
  | update memoryId request =>
      obtain ⟨item, content, -, -, hrevises⟩ := update_ok h
      refine hrevises.forall hs fun hold => ⟨fun hactive => ?_, fun hlive => ?_⟩
      · change (if request.markOutdated then MemoryState.outdated else item.state) = .active at hactive
        split at hactive
        · simp at hactive
        · exact hold.confirmed hactive
      · change (if request.markOutdated then MemoryState.outdated else item.state) = .active ∨
          (if request.markOutdated then MemoryState.outdated else item.state) = .pending at hlive
        split at hlive
        · simp at hlive
        · exact hold.unmerged hlive
  | softDelete memoryId expectedVersion retentionDays =>
      obtain ⟨item, -, -, ⟨-, rfl⟩ | ⟨-, deletedAt, purgeAfter, hrevises⟩⟩ := softDelete_ok h
      · exact hs
      · exact hrevises.forall hs fun _ =>
          ⟨fun hactive => MemoryState.noConfusion hactive, fun hlive => by rcases hlive with h | h <;> cases h⟩
  | restore memoryId expectedVersion =>
      obtain ⟨item, hitem, hversion, hrestorable, hrevises⟩ := restore_ok h
      have hgood : item.confirmedAt ≠ none ∧ item.mergedIntoId = none := by
        by_contra hbad
        refine hcall ⟨item, hitem, hversion, hrestorable, ?_⟩
        rw [not_and_or, not_not] at hbad
        exact hbad
      exact hrevises.forall hs fun _ => ⟨fun _ => hgood.1, fun _ => hgood.2⟩
  | merge sourceIds target =>
      obtain ⟨-, item, db₁, hcreates, hmerges⟩ := merge_ok h
      refine hmerges.forall (hcreates.sound hs) fun began source => ?_
      exact ⟨fun hactive => MemoryState.noConfusion hactive,
        fun hlive => by rcases hlive with h | h <;> cases h⟩

/-- **Only confirmed, unmerged items are active** after every sequence of operations that revives no
deleted item which was never confirmed or has been merged. -/
theorem active_confirmed {s t : Session} {calls : List Call} (h₀ : NoMemories s.db)
    (hcond : Runs.Along (step rt) (fun s call => ¬RevivesUnsound rt s call) s calls)
    (hrun : Runs.run (step rt) s calls = some t) :
    ∀ item ∈ t.db.memoryItems, item.state = .active →
      item.confirmedAt ≠ none ∧ item.mergedIntoId = none := by
  have hsound : ∀ x ∈ t.db.memoryItems, Sound x := by
    refine Runs.inv_of_along (I := fun s => ∀ x ∈ s.db.memoryItems, Sound x) ?_ ?_ hcond hrun
    · intro s call s' hs hcall hstep
      rcases step_cases hstep with hdb | ⟨a, hwork⟩
      · rw [hdb]
        exact hs
      · exact Call.work_sound hwork hcall hs
    · intro x hx
      have hnone : x ∈ s.db.memoryItems.rows := hx
      rw [h₀.items] at hnone
      exact absurd hnone List.not_mem_nil
  exact fun item hitem hactive => ⟨(hsound item hitem).confirmed hactive,
    (hsound item hitem).unmerged (.inl hactive)⟩

/-- A call that revives an unsound item makes it active when it returns. -/
theorem Call.work_revives {call : Call} {s s' : Session} {a : MemoryItem}
    (h : call.work rt s = (.ok a, s')) (hcall : RevivesUnsound rt s call) :
    ∃ item ∈ s'.db.memoryItems, item.state = .active ∧
      (item.confirmedAt = none ∨ item.mergedIntoId ≠ none) := by
  obtain ⟨operation, accountId, context, began⟩ := call
  cases operation with
  | restore memoryId expectedVersion =>
      obtain ⟨item, hitem, -, -, hbad⟩ := hcall
      obtain ⟨item', hitem', -, -, hrevises⟩ := restore_ok h
      obtain rfl : item = item' := Option.some.inj (hitem.symm.trans hitem')
      refine ⟨rowOf rt s.began { item with
        state := .active, deletedAt := none, purgeAfter := none, version := item.version + 1 }, ?_, rfl, hbad⟩
      rw [hrevises.items]
      exact Table.mem_of_find? (Table.find?_put_self hrevises.found)
  | _ => exact absurd hcall id

/-! ### A suggestion that is deleted and restored -/

/-- A suggestion of the assistant, to be confirmed. -/
def suggestion : MemoryCreate :=
  { meeting with originType := .assistantSuggestion, confirmed := false }

/-- The suggestion is deleted and restored instead of being confirmed. -/
def revival : List Call :=
  [callOf (.create suggestion), callOf (.softDelete (2 ^ 64 + 1) 1 30), callOf (.restore (2 ^ 64 + 1) 2)]

/-- An item can become active without having been confirmed. -/
theorem revived_unconfirmed : ¬∀ (rt : Runtime) (s t : Session) (calls : List Call),
    NoMemories s.db → Runs.run (step rt) s calls = some t →
      ∀ item ∈ t.db.memoryItems, item.state = .active →
        item.confirmedAt ≠ none ∧ item.mergedIntoId = none := by
  intro h
  have hrun : (match Runs.run (step zonedRuntime) emptySession revival with
      | some t => t.db.memoryItems.rows.any fun item =>
          decide (item.state = .active ∧ item.confirmedAt = none)
      | none => false) = true := by
    decide +kernel
  rcases ht : Runs.run (step zonedRuntime) emptySession revival with _ | t <;> simp only [ht] at hrun
  · simp at hrun
  obtain ⟨item, hitem, hbad⟩ := List.any_eq_true.mp hrun
  obtain ⟨hactive, hnone⟩ := of_decide_eq_true hbad
  exact (h zonedRuntime emptySession t revival emptySession_noMemories ht item hitem hactive).1 hnone

/-- A confirmed item is deleted and restored. -/
theorem active_confirmed_restoring : ∃ t, Runs.run (step zonedRuntime) emptySession
      [callOf (.create meeting), callOf (.softDelete (2 ^ 64 + 1) 1 30),
        callOf (.restore (2 ^ 64 + 1) 2)] = some t ∧
    t.db.memoryItems.rows.map MemoryItem.version = [3] ∧
    ∀ item ∈ t.db.memoryItems, item.state = .active →
      item.confirmedAt ≠ none ∧ item.mergedIntoId = none := by
  have hrun : (match Runs.run (step zonedRuntime) emptySession
        [callOf (.create meeting), callOf (.softDelete (2 ^ 64 + 1) 1 30),
          callOf (.restore (2 ^ 64 + 1) 2)] with
      | some t => decide (t.db.memoryItems.rows.map MemoryItem.version = [3])
      | none => false) = true := by
    decide +kernel
  rcases ht : Runs.run (step zonedRuntime) emptySession
      [callOf (.create meeting), callOf (.softDelete (2 ^ 64 + 1) 1 30),
        callOf (.restore (2 ^ 64 + 1) 2)] with _ | t <;> simp only [ht] at hrun
  · simp at hrun
  refine ⟨t, rfl, of_decide_eq_true hrun, active_confirmed emptySession_noMemories ?_ ht⟩
  refine Runs.Along.of_alongB (c := fun s call => decide ¬RevivesUnsound zonedRuntime s call)
    (fun _ _ => of_decide_eq_true) ?_
  decide +kernel

/-! ### Live items do not repeat each other -/

/-- No two live items of an account have the same canonical content. -/
def Distinct (rt : Runtime) (db : Db) : Prop :=
  ∀ accountId, ∀ x ∈ db.memoryItems, ∀ y ∈ db.memoryItems, x.id ≠ y.id →
    standing accountId x = true → standing accountId y = true →
      canonicalContent rt x.content ≠ canonicalContent rt y.content

/-- The live items of an account beside the given one. -/
def othersOf (db : Db) (accountId : Uuid) (item : MemoryItem) : List MemoryItem :=
  db.memoryItems.select fun other => standing accountId other ∧ other.id ≠ item.id

/-- Some other live item of the account repeats the content. -/
def Repeats (rt : Runtime) (db : Db) (accountId : Uuid) (item : MemoryItem) (content : String) : Prop :=
  ∃ other ∈ othersOf db accountId item, canonicalContent rt other.content = canonicalContent rt content

instance (rt : Runtime) (db : Db) (accountId : Uuid) (item : MemoryItem) (content : String) :
    Decidable (Repeats rt db accountId item content) :=
  inferInstanceAs (Decidable (∃ other ∈ othersOf db accountId item, _))

/-- The update of a live item to `content` may pass its checks although another live item repeats the
content: there is still another one that does not, with which it may be compared. -/
def Overlooks (rt : Runtime) (db : Db) (accountId : Uuid) (request : MemoryUpdate) (item : MemoryItem)
    (content : String) : Prop :=
  item.version = request.expectedVersion.val ∧ standing accountId item = true ∧
  request.markOutdated = false ∧ containsSecretInstruction rt content = false ∧
  (inverted (assign item request content).validFrom (assign item request content).validUntil).toOption =
    some false ∧
  (∃ third ∈ othersOf db accountId item, canonicalContent rt third.content ≠ canonicalContent rt content) ∧
  Repeats rt db accountId item content

instance (rt : Runtime) (db : Db) (accountId : Uuid) (request : MemoryUpdate) (item : MemoryItem)
    (content : String) : Decidable (Overlooks rt db accountId request item content) :=
  inferInstanceAs (Decidable (_ ∧ _ ∧ _ ∧ _ ∧ _ ∧ _ ∧ _))

/-- The call updates or restores an item to a content that another live item repeats, and its own
checks may not see it. -/
def RepeatsUnseen (rt : Runtime) (s : Session) (call : Call) : Prop :=
  match call.operation with
  | .update memoryId request => ∃ item ∈ item? s.db call.accountId memoryId,
      ∃ content ∈ request.content, Overlooks rt s.db call.accountId request item content.val
  | .restore memoryId expectedVersion => ∃ item ∈ item? s.db call.accountId memoryId,
      item.version = expectedVersion ∧ unrestorable item (.utc (rt.clock s.tick)) = false ∧
      Repeats rt s.db call.accountId item item.content
  | _ => False

instance (rt : Runtime) (s : Session) : DecidablePred (RepeatsUnseen rt s)
  | ⟨.update memoryId request, accountId, _, _⟩ =>
    inferInstanceAs (Decidable (∃ item ∈ item? s.db accountId memoryId, ∃ content ∈ request.content,
      Overlooks rt s.db accountId request item content.val))
  | ⟨.restore memoryId expectedVersion, accountId, _, _⟩ =>
    inferInstanceAs (Decidable (∃ item ∈ item? s.db accountId memoryId,
      item.version = expectedVersion ∧ unrestorable item (.utc (rt.clock s.tick)) = false ∧
      Repeats rt s.db accountId item item.content))
  | ⟨.create _, _, _, _⟩ => isFalse id
  | ⟨.confirm _ _, _, _, _⟩ => isFalse id
  | ⟨.softDelete _ _ _, _, _, _⟩ => isFalse id
  | ⟨.merge _ _, _, _, _⟩ => isFalse id

theorem standing_iff {accountId : Uuid} {item : MemoryItem} : standing accountId item = true ↔
    item.accountId = accountId ∧ (item.state = .active ∨ item.state = .pending) := by
  simp [standing]

theorem mem_othersOf {db : Db} {accountId : Uuid} {item other : MemoryItem} :
    other ∈ othersOf db accountId item ↔
      other ∈ db.memoryItems ∧ standing accountId other = true ∧ other.id ≠ item.id := by
  simp [othersOf, Table.select, Table.mem_def]

/-- A new item that repeats none of the live ones. -/
theorem Distinct.creates {accountId : Uuid} {request : MemoryCreate} {began : DateTime}
    {item : MemoryItem} {db db' : Db} (hd : Distinct rt db)
    (h : CreatesFrom rt accountId request began item db db') : Distinct rt db' := by
  have hnew : ∀ account, ∀ x ∈ db.memoryItems, standing account x = true →
      standing account (item.bind rt) = true →
      canonicalContent rt x.content ≠ canonicalContent rt (item.bind rt).content := by
    obtain ⟨id, now, rfl⟩ := h.item_eq
    intro account x hx hstanding hitem
    obtain rfl : accountId = account := (standing_iff.mp hitem).1
    change _ ≠ canonicalContent rt (PythonText.strip request.content.val)
    rw [request.content.property.2.2]
    exact h.distinct x hx hstanding
  intro account x hx y hy hne hsx hsy
  rcases (Table.mem_insert? h.items).mp hx with hx | rfl <;>
    rcases (Table.mem_insert? h.items).mp hy with hy | rfl
  · exact hd account x hx y hy hne hsx hsy
  · exact hnew account x hx hsx hsy
  · exact (hnew account y hy hsy hsx).symm
  · exact absurd rfl hne

/-- A revised item that is not live, keeps its content while live, or repeats no other live item. -/
theorem Distinct.revises {began : DateTime} {old new : MemoryItem} {indexed : Bool} {db db' : Db}
    (hd : Distinct rt db) (h : Revises rt began old new indexed db db')
    (hnew : ∀ account, standing account new = true → ∀ x ∈ db.memoryItems, x.id ≠ new.id →
      standing account x = true → canonicalContent rt x.content ≠ canonicalContent rt new.content) :
    Distinct rt db' := by
  intro account x hx y hy hne hsx hsy
  rw [h.items] at hx hy
  rcases Table.mem_put_iff.mp hx with ⟨hx, hxn⟩ | ⟨rfl, -⟩ <;>
    rcases Table.mem_put_iff.mp hy with ⟨hy, hyn⟩ | ⟨rfl, -⟩
  · exact hd account x hx y hy hne hsx hsy
  · exact hnew account hsy x hx hxn hsx
  · exact (hnew account hsx y hy hyn hsy).symm
  · exact absurd rfl hne

/-- A revision that leaves the content and makes nothing live that was not. -/
theorem Distinct.revises_within {began : DateTime} {old new : MemoryItem} {indexed : Bool} {db db' : Db}
    (hd : Distinct rt db) (h : Revises rt began old new indexed db db')
    (hlive : ∀ account, standing account new = true → standing account old = true)
    (hcontent : new.content = old.content) : Distinct rt db' := by
  refine hd.revises h fun account hs x hx hxn hsx => ?_
  rw [hcontent]
  have hkey := Table.key_of_find? h.found
  exact hd account x hx old (Table.mem_of_find? h.found) (fun he => hxn (he.trans hkey)) hsx
    (hlive account hs)

theorem Distinct.merges {mergedId : Uuid} {sources : List MemoryItem} {db db' : Db}
    (h : Merges rt mergedId sources db db') (hd : Distinct rt db) : Distinct rt db' := by
  induction h with
  | nil hrows =>
      unfold Distinct
      rw [(Prod.mk.inj hrows).1]
      exact hd
  | cons hrevises _ ih =>
      refine ih (hd.revises hrevises fun account hs => ?_)
      rcases (standing_iff.mp hs).2 with h | h <;> cases h

theorem exists_limitOne (rt : Runtime) (db : Db) {rows : List MemoryItem} (h : rows ≠ []) :
    ∃ item ∈ rows, limitOne rt db rows = some item := by
  have hlt : rt.limitOne db.memoryItems.rows % rows.length < rows.length :=
    Nat.mod_lt _ (List.length_pos_iff.mpr h)
  exact ⟨_, List.getElem_mem hlt, List.getElem?_eq_getElem hlt⟩

/-- A new content that passes the check of `update` is not that of the item it is compared with. -/
theorem updatedContent_ok {db : Db} {accountId : Uuid} {item : MemoryItem} {request : MemoryUpdate}
    {content : String} (h : updatedContent rt db accountId item request = .ok content) :
    (request.content = none ∧ content = item.content) ∨
    ∃ value ∈ request.content, content = value.val ∧ containsSecretInstruction rt value.val = false ∧
      ∀ other ∈ limitOne rt db (othersOf db accountId item),
        canonicalContent rt other.content ≠ canonicalContent rt value.val := by
  unfold updatedContent at h
  split at h
  · next hnone => exact .inl ⟨hnone, (Except.ok.inj h).symm⟩
  · next value hvalue =>
    simp only at h
    split at h
    · simp at h
    · next hsecret =>
      split at h
      · simp at h
      · next hrepeated =>
        refine .inr ⟨value, hvalue, ?_, Bool.eq_false_iff.mpr hsecret, ?_⟩
        · exact (Except.ok.inj h).symm.trans value.property.2.2
        · intro other hother he
          rw [Option.filter_eq_none_iff] at hrepeated
          exact hrepeated other hother (decide_eq_true he)

/-- A content without a secret passes if it is not that of the item it is compared with. -/
theorem updatedContent_of_differs {db : Db} {accountId : Uuid} {item : MemoryItem} {request : MemoryUpdate}
    {content : { s : String // validContent s }} (hcontent : request.content = some content)
    (hsecret : containsSecretInstruction rt content.val = false)
    (hdiffers : ∀ other ∈ limitOne rt db (othersOf db accountId item),
      canonicalContent rt other.content ≠ canonicalContent rt content.val) :
    updatedContent rt db accountId item request = .ok content.val := by
  have hnone : (limitOne rt db (othersOf db accountId item)).filter
      (fun duplicate => canonicalContent rt duplicate.content = canonicalContent rt content.val) = none :=
    Option.filter_eq_none_iff.mpr fun other hother he => hdiffers other hother (of_decide_eq_true he)
  unfold othersOf at hnone
  unfold updatedContent
  simp only [hcontent, hsecret, hnone, content.property.2.2, Bool.false_eq_true, if_false]

/-- **Step lemma**: a call that repeats nothing unseen keeps the live items distinct. -/
theorem Call.work_distinct {call : Call} {s s' : Session} {a : MemoryItem}
    (h : call.work rt s = (.ok a, s')) (hcall : ¬RepeatsUnseen rt s call) (hd : Distinct rt s.db) :
    Distinct rt s'.db := by
  obtain ⟨operation, accountId, context, began⟩ := call
  cases operation with
  | create request =>
      obtain ⟨item, hcreates, -⟩ := create_ok h
      exact hd.creates hcreates
  | confirm memoryId expectedVersion =>
      obtain ⟨item, now, -, -, hpending, hrevises⟩ := confirm_ok h
      refine hd.revises_within hrevises (fun account hs => ?_) rfl
      exact standing_iff.mpr ⟨(standing_iff.mp hs).1, .inr hpending⟩
  | update memoryId request =>
      obtain ⟨item, content, hed, hvalid, hrevises⟩ := update_ok h
      have haccount : item.accountId = accountId :=
        of_decide_eq_true (Option.filter_eq_some_iff.mp hed.found).2
      have hstate : ∀ account, standing account (updatedItem item request content) = true →
          request.markOutdated = false ∧ standing account item = true := by
        intro account hs
        obtain ⟨hsame, hlive⟩ := standing_iff.mp hs
        change (if request.markOutdated then MemoryState.outdated else item.state) = .active ∨
          (if request.markOutdated then MemoryState.outdated else item.state) = .pending at hlive
        split at hlive
        · simp at hlive
        · next hmark => exact ⟨Bool.eq_false_iff.mpr hmark, standing_iff.mpr ⟨hsame, hlive⟩⟩
      rcases updatedContent_ok hed.content with ⟨-, hcontent⟩ | ⟨value, hvalue, rfl, hsecret, hcompared⟩
      · exact hd.revises_within hrevises (fun account hs => (hstate account hs).2) hcontent
      · refine hd.revises hrevises fun account hs x hx hxn hsx he => ?_
        obtain ⟨hmark, hitem⟩ := hstate account hs
        obtain rfl : accountId = account := haccount.symm.trans (standing_iff.mp hitem).1
        have hother : x ∈ othersOf s.db accountId item := mem_othersOf.mpr ⟨hx, hsx, hxn⟩
        refine hcall ⟨item, hed.found, value, hvalue, hed.version, hitem, hmark, hsecret, ?_, ?_, x, hother, he⟩
        · rw [hvalid]
          rfl
        · -- the item that it has been compared with is the one that differs
          obtain ⟨third, hthird, hgiven⟩ := exists_limitOne rt s.db (List.ne_nil_of_mem hother)
          exact ⟨third, hthird, hcompared third hgiven⟩
  | softDelete memoryId expectedVersion retentionDays =>
      obtain ⟨item, -, -, ⟨-, rfl⟩ | ⟨-, deletedAt, purgeAfter, hrevises⟩⟩ := softDelete_ok h
      · exact hd
      · refine hd.revises_within hrevises (fun account hs => ?_) rfl
        rcases (standing_iff.mp hs).2 with h | h <;> cases h
  | restore memoryId expectedVersion =>
      obtain ⟨item, hitem, hversion, hrestorable, hrevises⟩ := restore_ok h
      have haccount : item.accountId = accountId :=
        of_decide_eq_true (Option.filter_eq_some_iff.mp hitem).2
      refine hd.revises hrevises fun account hs x hx hxn hsx he => ?_
      obtain rfl : accountId = account := haccount.symm.trans (standing_iff.mp hs).1
      exact hcall ⟨item, hitem, hversion, hrestorable, x, mem_othersOf.mpr ⟨hx, hsx, hxn⟩, he⟩
  | merge sourceIds target =>
      obtain ⟨-, item, db₁, hcreates, hmerges⟩ := merge_ok h
      exact (hd.creates hcreates).merges hmerges

/-- The database may give `update` an item that lets an overlooked repetition pass. -/
theorem Overlooks.passes {db : Db} {accountId : Uuid} {request : MemoryUpdate} {item : MemoryItem}
    {content : { s : String // validContent s }} (h : Overlooks rt db accountId request item content.val)
    (hcontent : request.content = some content) :
    ∃ order, updatedContent { rt with limitOne := order } db accountId item request = .ok content.val := by
  obtain ⟨-, -, -, hsecret, -, ⟨third, hthird, hne⟩, -⟩ := h
  obtain ⟨i, hi, rfl⟩ := List.mem_iff_getElem.mp hthird
  refine ⟨fun _ => i, ?_⟩
  have hgiven : limitOne { rt with limitOne := fun _ => i } db (othersOf db accountId item) =
      some (othersOf db accountId item)[i] := by
    rw [limitOne, Nat.mod_eq_of_lt hi, List.getElem?_eq_getElem hi]
  have hsecret' : containsSecretInstruction { rt with limitOne := fun _ => i } content.val = false := hsecret
  refine updatedContent_of_differs hcontent hsecret' ?_
  rw [hgiven]
  intro other hother
  obtain rfl := Option.some.inj hother
  exact hne

/-- A call that repeats a live item unseen leaves two live items with the same content when it
returns. -/
theorem Call.work_repeats {call : Call} {s s' : Session} {a : MemoryItem}
    (h : call.work rt s = (.ok a, s')) (hcall : RepeatsUnseen rt s call) : ¬Distinct rt s'.db := by
  have hclash : ∀ {began old new indexed account other},
      Revises rt began old new indexed s.db s'.db → standing account new = true →
      other ∈ othersOf s.db account new →
      canonicalContent rt other.content = canonicalContent rt new.content → ¬Distinct rt s'.db := by
    intro began old new indexed account other hrevises hnew hother he hd
    obtain ⟨hmem, hstanding, hne⟩ := mem_othersOf.mp hother
    have hkept : other ∈ s'.db.memoryItems := by
      rw [hrevises.items]
      exact Table.mem_put_iff.mpr (.inl ⟨hmem, hne⟩)
    have hwritten : rowOf rt began new ∈ s'.db.memoryItems := by
      rw [hrevises.items]
      exact Table.mem_of_find? (Table.find?_put_self hrevises.found)
    exact hd account other hkept _ hwritten hne hstanding hnew he
  obtain ⟨operation, accountId, context, began⟩ := call
  cases operation with
  | update memoryId request =>
      obtain ⟨item, hitem, value, hvalue, -, hlive, hmark, -, -, -, other, hother, he⟩ := hcall
      obtain ⟨item', content, hed, -, hrevises⟩ := update_ok h
      obtain rfl : item = item' := Option.some.inj (Eq.trans (Eq.symm hitem) hed.found)
      have hcontent : content = value.val := by
        rcases updatedContent_ok hed.content with ⟨hnone, -⟩ | ⟨value', hvalue', rfl, -, -⟩
        · rw [hnone] at hvalue
          simp at hvalue
        · rw [Option.some.inj (Eq.trans (Eq.symm hvalue) hvalue')]
      subst hcontent
      obtain ⟨haccount, hstate⟩ := standing_iff.mp hlive
      refine hclash hrevises (standing_iff.mpr ⟨haccount, ?_⟩) hother he
      change (if request.markOutdated then MemoryState.outdated else item.state) = .active ∨
        (if request.markOutdated then MemoryState.outdated else item.state) = .pending
      rw [hmark]
      exact hstate
  | restore memoryId expectedVersion =>
      obtain ⟨item, hitem, -, -, other, hother, he⟩ := hcall
      obtain ⟨item', hitem', -, -, hrevises⟩ := restore_ok h
      obtain rfl : item = item' := Option.some.inj (Eq.trans (Eq.symm hitem) hitem')
      have haccount : item.accountId = accountId := of_decide_eq_true (Option.filter_eq_some_iff.mp hitem').2
      exact hclash hrevises (standing_iff.mpr ⟨haccount, .inl rfl⟩) hother he
  | _ => exact absurd hcall id

/-- **The live items of an account never repeat each other** after every sequence of operations of
which no update and no restoration repeats a live item unseen. -/
theorem live_distinct {s t : Session} {calls : List Call} (h₀ : NoMemories s.db)
    (hcond : Runs.Along (step rt) (fun s call => ¬RepeatsUnseen rt s call) s calls)
    (hrun : Runs.run (step rt) s calls = some t) : Distinct rt t.db := by
  refine Runs.inv_of_along (I := fun s => Distinct rt s.db) ?_ ?_ hcond hrun
  · intro s call s' hd hcall hstep
    rcases step_cases hstep with hdb | ⟨a, hwork⟩
    · rw [hdb]
      exact hd
    · exact Call.work_distinct hwork hcall hd
  · intro account x hx
    have hnone : x ∈ s.db.memoryItems.rows := hx
    rw [h₀.items] at hnone
    exact absurd hnone List.not_mem_nil

/-! ### A content that repeats the second of the other items -/

def noteOf (content : { s : String // validContent s }) : MemoryCreate :=
  { meeting with content := content, category := .note, eventAt := none }

def correctionTo (expectedVersion : { n : ℤ // 1 ≤ n }) (content : { s : String // validContent s }) :
    MemoryUpdate where
  expectedVersion := expectedVersion
  content := some content
  category := none
  eventAt := none
  validFrom := none
  validUntil := none
  markOutdated := false

/-- Three notes, and an update of the third to the given content. -/
def noteTaking (content : { s : String // validContent s }) : List Call :=
  [callOf (.create (noteOf ⟨"Jana pije kávu", by decide +kernel⟩)),
   callOf (.create (noteOf ⟨"Petr pije čaj", by decide +kernel⟩)),
   callOf (.create (noteOf ⟨"Eva pije vodu", by decide +kernel⟩)),
   callOf (.update (2 ^ 64 + 13) (correctionTo ⟨1, Int.le_refl 1⟩ content))]

/-- The third note becomes a repetition of the second. -/
theorem update_repeats : ¬∀ (rt : Runtime) (s t : Session) (calls : List Call),
    NoMemories s.db → Runs.run (step rt) s calls = some t → Distinct rt t.db := by
  intro h
  have hrun : (match Runs.run (step zonedRuntime) emptySession
        (noteTaking ⟨"Petr pije čaj", by decide +kernel⟩) with
      | some t => t.db.memoryItems.rows.any fun x => t.db.memoryItems.rows.any fun y =>
          decide (x.id ≠ y.id ∧ standing 1 x = true ∧ standing 1 y = true ∧
            canonicalContent zonedRuntime x.content = canonicalContent zonedRuntime y.content)
      | none => false) = true := by
    decide +kernel
  rcases ht : Runs.run (step zonedRuntime) emptySession
      (noteTaking ⟨"Petr pije čaj", by decide +kernel⟩) with _ | t <;> simp only [ht] at hrun
  · simp at hrun
  obtain ⟨x, hx, hany⟩ := List.any_eq_true.mp hrun
  obtain ⟨y, hy, hbad⟩ := List.any_eq_true.mp hany
  obtain ⟨hne, hsx, hsy, he⟩ := of_decide_eq_true hbad
  exact h zonedRuntime emptySession t _ emptySession_noMemories ht 1 x hx y hy hne hsx hsy he

/-- The third note gets a content of its own. -/
theorem live_distinct_correcting : ∃ t, Runs.run (step zonedRuntime) emptySession
      (noteTaking ⟨"Eva pije víno", by decide +kernel⟩) = some t ∧
    t.db.memoryItems.rows.map MemoryItem.version = [1, 1, 2] ∧ Distinct zonedRuntime t.db := by
  have hrun : (match Runs.run (step zonedRuntime) emptySession
        (noteTaking ⟨"Eva pije víno", by decide +kernel⟩) with
      | some t => decide (t.db.memoryItems.rows.map MemoryItem.version = [1, 1, 2])
      | none => false) = true := by
    decide +kernel
  rcases ht : Runs.run (step zonedRuntime) emptySession
      (noteTaking ⟨"Eva pije víno", by decide +kernel⟩) with _ | t <;> simp only [ht] at hrun
  · simp at hrun
  refine ⟨t, rfl, of_decide_eq_true hrun, live_distinct emptySession_noMemories ?_ ht⟩
  refine Runs.Along.of_alongB (c := fun s call => decide ¬RepeatsUnseen zonedRuntime s call)
    (fun _ _ => of_decide_eq_true) ?_
  decide +kernel

end KajovoDagmar.MemoryService
