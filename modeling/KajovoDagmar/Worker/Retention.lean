import KajovoDagmar.Conversations.Closing
import KajovoDagmar.Files.Service
import KajovoDagmar.Memory.Revisions
import Mathlib.Data.Int.ConditionallyCompleteOrder

/-! # The retention of deleted rows

A deleted memory item or conversation is kept until its `purge_after`, and the worker's
`purge_expired` removes it then.  `Tenure` is what a row shows of this; every operation moves the
tenure of every row by a step of `Tenure.Step`, except that `HistoryService.soft_delete` gives a
conversation that is deleted already a new deadline, also when the old one has passed. -/

namespace KajovoDagmar

/-! ### The deletion of rows with what refers to them -/

namespace Db

/-- `delete(MemoryItem).where(p)`. -/
def deleteMemoryItems (p : MemoryItem → Bool) (db : Db) : Db :=
  let gone (id : Uuid) : Bool := db.memoryItems.rows.any fun i => i.id = id ∧ p i
  { db with
    memoryItems := (db.memoryItems.filter fun i => !p i).mapRows
      (fun i => { i with mergedIntoId := i.mergedIntoId.filter (!gone ·) }) fun _ => rfl
    memoryVersions := db.memoryVersions.filter fun v => !gone v.memoryId
    memorySources := db.memorySources.filter fun o => !gone o.memoryId }

/-- `delete(Conversation).where(p)`. -/
def deleteConversations (p : Conversation → Bool) (db : Db) : Db :=
  let gone (id : Uuid) : Bool := db.conversations.rows.any fun c => c.id = id ∧ p c
  let goneMessage (id : Uuid) : Bool :=
    db.conversationMessages.rows.any fun m => m.id = id ∧ gone m.conversationId
  let goneRun (id : Uuid) : Bool := db.orchestrationRuns.rows.any fun r =>
    r.id = id ∧ (gone r.conversationId ∨ goneMessage r.sourceMessageId)
  { db with
    conversations := (db.conversations.filter fun c => !p c).mapRows
      (fun c => { c with continuationOfId := c.continuationOfId.filter (!gone ·) }) fun _ => rfl
    conversationMessages := db.conversationMessages.filter fun m => !gone m.conversationId
    orchestrationRuns := (db.orchestrationRuns.filter fun r => !goneRun r.id).mapRows
      (fun r => { r with responseMessageId := r.responseMessageId.filter (!goneMessage ·) }) fun _ => rfl
    orchestrationAttempts := db.orchestrationAttempts.filter fun a => !goneRun a.runId
    toolActions := db.toolActions.filter fun a => !goneRun a.runId
    messageRevisions := db.messageRevisions.filter fun r => !goneMessage r.messageId
    conversationLinks := db.conversationLinks.filter fun l => !gone l.sourceId && !gone l.targetId
    conversationSummaries := db.conversationSummaries.filter fun x => !gone x.conversationId
    memorySources := db.memorySources.mapRows (fun o => { o with
      conversationId := o.conversationId.filter (!gone ·)
      messageId := o.messageId.filter (!goneMessage ·) }) fun _ => rfl }

/-- `delete(SearchDocument).where(p)`. -/
def deleteSearchDocuments (p : SearchDocument → Bool) (db : Db) : Db :=
  let gone (id : Uuid) : Bool := db.searchDocuments.rows.any fun d => d.id = id ∧ p d
  { db with
    searchDocuments := db.searchDocuments.filter fun d => !p d
    searchEmbeddings := db.searchEmbeddings.filter fun e => !gone e.documentId }

end Db

namespace Worker

variable (rt : Runtime) (storage : Storage)

/-- `MemoryItem.state == "deleted", MemoryItem.purge_after <= utc_now()`. -/
def dueMemory (now : DateTime) (item : MemoryItem) : Bool :=
  item.state = .deleted ∧ item.purgeAfter.any (·.le now)

/-- `Conversation.state == "deleted", Conversation.purge_after <= utc_now()`. -/
def dueConversation (now : DateTime) (row : Conversation) : Bool :=
  row.state = .deleted ∧ row.purgeAfter.any (·.le now)

/-- The documents of the given rows. -/
def documentOf (memoryIds conversationIds : List Uuid) (d : SearchDocument) : Bool :=
  (d.ownerType = "memory" ∧ d.ownerId ∈ memoryIds) ∨
    (d.ownerType = "conversation" ∧ d.ownerId ∈ conversationIds)

/-- The part of `purge_expired` that deletes the documents of the rows that are due. -/
def purgeDocuments : Work PUnit := do
  let now ← utcNow rt
  let memories ← Db.memoryItem.select (dueMemory now)
  let now ← utcNow rt
  let conversations ← Db.conversation.select (dueConversation now)
  let memoryIds := memories.map MemoryItem.id
  let conversationIds := conversations.map Conversation.id
  if memoryIds = [] ∧ conversationIds = [] then pure ⟨⟩
  else Tx.modify fun s =>
    { s with db := s.db.deleteSearchDocuments (documentOf memoryIds conversationIds) }

/-- The handler `purge_expired`. -/
def purgeExpired : Work PUnit := do
  purgeDocuments rt
  let now ← utcNow rt
  Tx.modify fun s => { s with db := s.db.deleteMemoryItems (dueMemory now) }
  let now ← utcNow rt
  Tx.modify fun s => { s with db := s.db.deleteConversations (dueConversation now) }
  ExportService.purgeExpired rt storage

end Worker

/-! ### The tenures of a row -/

/-- What a row shows of its retention. -/
inductive Tenure where
  | absent
  | standing
  | kept (deadline : DateTime)
deriving DecidableEq

namespace Tenure

/-- Why an operation takes a deadline away from a row that stays. -/
inductive Cause where
  | restoration
  | redeletion

/-- What an operation does to the tenure of a row: `causes` says whether it restores the row or deletes
it once more, and `clock` gives the readings of the clock from its beginning `now` on. -/
inductive Step (clock : ℕ → DateTime) (now : ℕ) (causes : Cause → Prop) : Tenure → Tenure → Prop
  | same (tenure : Tenure) : Step clock now causes tenure tenure
  | create : Step clock now causes absent standing
  | delete (deadline : DateTime) : Step clock now causes standing (kept deadline)
  | restore (deadline : DateTime) (hr : causes .restoration) (h : deadline.le (clock now) = false) :
      Step clock now causes (kept deadline) standing
  | redelete (deadline deadline' : DateTime) (hr : causes .redeletion) :
      Step clock now causes (kept deadline) (kept deadline')
  | purge (deadline : DateTime) (reading : ℕ) (hreading : now ≤ reading)
      (h : deadline.le (clock reading) = true) : Step clock now causes (kept deadline) absent

variable {clock : ℕ → DateTime} {now : ℕ} {causes : Cause → Prop} {tenure' : Tenure} {deadline : DateTime}

/-- The row is removed at a reading of the clock that has reached the deadline. -/
def RemovedAt (clock : ℕ → DateTime) (now : ℕ) (deadline : DateTime) (tenure : Tenure) : Prop :=
  tenure = .absent ∧ ∃ reading, now ≤ reading ∧ deadline.le (clock reading) = true

/-- **A deadline changes only by a restoration**, or with the row, unless the row is deleted again. -/
theorem Step.kept (h : Step clock now causes (.kept deadline) tenure') (hd : ¬causes .redeletion)
    (hr : ¬causes .restoration) : tenure' = .kept deadline ∨ RemovedAt clock now deadline tenure' := by
  cases h with
  | same => exact .inl rfl
  | restore _ hrestores => exact absurd hrestores hr
  | redelete _ _ hredeletes => exact absurd hredeletes hd
  | purge _ reading hreading hdue => exact .inr ⟨rfl, reading, hreading, hdue⟩

/-- A deadline that has been reached is not left by a restoration either. -/
theorem Step.reached (h : Step clock now causes (.kept deadline) tenure') (hd : ¬causes .redeletion)
    (hdue : deadline.le (clock now) = true) :
    tenure' = .kept deadline ∨ RemovedAt clock now deadline tenure' := by
  cases h with
  | same => exact .inl rfl
  | restore _ _ hfuture =>
      rw [hdue] at hfuture
      exact absurd hfuture (by decide)
  | redelete _ _ hredeletes => exact absurd hredeletes hd
  | purge _ reading hreading hdue => exact .inr ⟨rfl, reading, hreading, hdue⟩

theorem Step.mono {causes' : Cause → Prop} {tenure : Tenure} (h : Step clock now causes tenure tenure')
    (hcauses : ∀ cause, causes cause → causes' cause) : Step clock now causes' tenure tenure' := by
  cases h with
  | same => exact .same _
  | create => exact .create
  | delete deadline => exact .delete deadline
  | restore deadline hr hfuture => exact .restore deadline (hcauses _ hr) hfuture
  | redelete deadline deadline' hr => exact .redelete deadline deadline' (hcauses _ hr)
  | purge deadline reading hreading hdue => exact .purge deadline reading hreading hdue

end Tenure

namespace Retention

/-- The tenure of an item: it has a deadline exactly if it is deleted. -/
def memoryTenure? (item : MemoryItem) : Option Tenure :=
  match item.purgeAfter with
  | some deadline => if item.state = .deleted then some (.kept deadline) else none
  | none => if item.state = .deleted then none else some .standing

/-- The tenure of a conversation: it has a deadline exactly if it is deleted and hidden. -/
def conversationTenure? (row : Conversation) : Option Tenure :=
  match row.purgeAfter with
  | some deadline => if row.state = .deleted ∧ row.deletedAt ≠ none then some (.kept deadline) else none
  | none => if row.state ≠ .deleted ∧ row.deletedAt = none then some .standing else none

/-- Whose retention it is. -/
inductive Owner where
  | memory
  | conversation
deriving DecidableEq

/-- The tenure of a row that may be there. -/
def tenure? (db : Db) (id : Uuid) : Owner → Option Tenure
  | .memory => (db.memoryItems.find? id).elim (some .absent) memoryTenure?
  | .conversation => (db.conversations.find? id).elim (some .absent) conversationTenure?

/-- Every row shows a tenure: it has a deadline exactly if it is deleted. -/
def Retained (db : Db) : Prop := ∀ id owner, tenure? db id owner ≠ none

/-- Every row of the owner has made a step of its tenure. -/
def Steps (clock : ℕ → DateTime) (now : ℕ) (causes : Uuid → Tenure.Cause → Prop) (owner : Owner)
    (db db' : Db) : Prop :=
  ∀ id tenure, tenure? db id owner = some tenure →
    ∃ tenure', tenure? db' id owner = some tenure' ∧ Tenure.Step clock now (causes id) tenure tenure'

/-- No row of the owner has changed its tenure. -/
def Calm (owner : Owner) (db db' : Db) : Prop := ∀ id, tenure? db' id owner = tenure? db id owner

variable {clock : ℕ → DateTime} {now : ℕ} {causes : Uuid → Tenure.Cause → Prop} {owner : Owner} {db db' db'' : Db}

theorem Calm.of_items (h : db'.memoryItems = db.memoryItems) : Calm .memory db db' := by
  intro id
  rw [tenure?, tenure?, h]

theorem Calm.of_conversations (h : db'.conversations = db.conversations) : Calm .conversation db db' := by
  intro id
  rw [tenure?, tenure?, h]

theorem Calm.trans (h : Calm owner db db') (h' : Calm owner db' db'') : Calm owner db db'' :=
  fun id => (h' id).trans (h id)

theorem Steps.trans_calm (h : Steps clock now causes owner db db') (h' : Calm owner db' db'') :
    Steps clock now causes owner db db'' := by
  intro id tenure htenure
  obtain ⟨tenure', htenure', hstep⟩ := h id tenure htenure
  exact ⟨tenure', (h' id).trans htenure', hstep⟩

theorem Calm.steps (h : Calm owner db db') : Steps clock now causes owner db db' :=
  fun id tenure htenure => ⟨tenure, (h id).trans htenure, .same tenure⟩

theorem Steps.mono {causes' : Uuid → Tenure.Cause → Prop} (h : Steps clock now causes owner db db')
    (hcauses : ∀ id cause, causes id cause → causes' id cause) : Steps clock now causes' owner db db' := by
  intro id tenure htenure
  obtain ⟨tenure', htenure', hstep⟩ := h id tenure htenure
  exact ⟨tenure', htenure', hstep.mono (hcauses id)⟩

/-! #### One row -/

/-- What becomes of the tenure of a row when one row is stored. -/
theorem tenure?_putItem {old new : MemoryItem} (hitems : db'.memoryItems = db.memoryItems.put new)
    (hfind : db.memoryItems.find? new.id = some old) (id : Uuid) :
    tenure? db' id .memory = if id = new.id then memoryTenure? new else tenure? db id .memory := by
  rw [tenure?, hitems]
  split
  · next hid =>
    rw [hid, Table.find?_put_self hfind]
    rfl
  · next hid =>
    rw [Table.find?_put_of_ne hid]
    rfl

theorem tenure?_putConversation {old new : Conversation}
    (hconversations : db'.conversations = db.conversations.put new)
    (hfind : db.conversations.find? new.id = some old) (id : Uuid) :
    tenure? db' id .conversation =
      if id = new.id then conversationTenure? new else tenure? db id .conversation := by
  rw [tenure?, hconversations]
  split
  · next hid =>
    rw [hid, Table.find?_put_self hfind]
    rfl
  · next hid =>
    rw [Table.find?_put_of_ne hid]
    rfl

/-- A row that is stored makes its own step. -/
theorem Steps.put {key : Uuid} {old new : Option Tenure} (hold : tenure? db key owner = old)
    (hafter : ∀ id, tenure? db' id owner = if id = key then new else tenure? db id owner)
    (hrow : ∀ tenure, old = some tenure →
      ∃ tenure', new = some tenure' ∧ Tenure.Step clock now (causes key) tenure tenure') :
    Steps clock now causes owner db db' := by
  intro id tenure htenure
  rw [hafter]
  split
  · next hid =>
    rw [hid, hold] at htenure
    rw [hid]
    exact hrow tenure htenure
  · exact ⟨tenure, htenure, .same tenure⟩

theorem Steps.putItem {old new : MemoryItem} (hitems : db'.memoryItems = db.memoryItems.put new)
    (hfind : db.memoryItems.find? new.id = some old)
    (hrow : ∀ tenure, memoryTenure? old = some tenure →
      ∃ tenure', memoryTenure? new = some tenure' ∧ Tenure.Step clock now (causes new.id) tenure tenure') :
    Steps clock now causes .memory db db' := by
  refine Steps.put ?_ (tenure?_putItem hitems hfind) hrow
  rw [tenure?, hfind]
  rfl

theorem Steps.putConversation {old new : Conversation}
    (hconversations : db'.conversations = db.conversations.put new)
    (hfind : db.conversations.find? new.id = some old)
    (hrow : ∀ tenure, conversationTenure? old = some tenure →
      ∃ tenure', conversationTenure? new = some tenure' ∧
        Tenure.Step clock now (causes new.id) tenure tenure') :
    Steps clock now causes .conversation db db' := by
  refine Steps.put ?_ (tenure?_putConversation hconversations hfind) hrow
  rw [tenure?, hfind]
  rfl

/-- A row that is stored with the tenure that it has. -/
theorem Calm.putConversation {old new : Conversation}
    (hconversations : db'.conversations = db.conversations.put new)
    (hfind : db.conversations.find? new.id = some old)
    (hrow : conversationTenure? new = conversationTenure? old) : Calm .conversation db db' := by
  intro id
  rw [tenure?_putConversation hconversations hfind]
  split
  · next hid =>
    rw [hrow, hid, tenure?, hfind]
    rfl
  · rfl

/-- A row that is added is new. -/
theorem find?_eq_none_of_insert? {R : Type} {key : R → ℕ} {t t' : Table key} {r : R}
    (h : t.insert? r = some t') : t.find? (key r) = none := by
  rw [Table.find?_eq_none]
  intro x hx hid
  exact (Table.insert?_eq_some h).2 (List.mem_map.mpr ⟨x, hx, hid⟩)

theorem Steps.addItem {new : MemoryItem} (hitems : db.memoryItems.insert? new = some db'.memoryItems)
    (hnew : memoryTenure? new = some .standing) : Steps clock now causes .memory db db' := by
  intro id tenure htenure
  rw [tenure?]
  by_cases hid : id = new.id
  · rw [hid, tenure?, find?_eq_none_of_insert? hitems] at htenure
    rw [hid, Table.find?_insert?_self hitems]
    obtain rfl := Option.some.inj htenure
    exact ⟨.standing, hnew, .create⟩
  · rw [Table.find?_insert?_of_ne hitems hid]
    exact ⟨tenure, htenure, .same tenure⟩

theorem Steps.addConversation {new : Conversation}
    (hconversations : db.conversations.insert? new = some db'.conversations)
    (hnew : conversationTenure? new = some .standing) :
    Steps clock now causes .conversation db db' := by
  intro id tenure htenure
  rw [tenure?]
  by_cases hid : id = new.id
  · rw [hid, tenure?, find?_eq_none_of_insert? hconversations] at htenure
    rw [hid, Table.find?_insert?_self hconversations]
    obtain rfl := Option.some.inj htenure
    exact ⟨.standing, hnew, .create⟩
  · rw [Table.find?_insert?_of_ne hconversations hid]
    exact ⟨tenure, htenure, .same tenure⟩

/-! #### The tenures of rows -/

theorem memoryTenure?_standing {item : MemoryItem} (hstate : item.state ≠ .deleted)
    (hpurge : item.purgeAfter = none) : memoryTenure? item = some .standing := by
  rw [memoryTenure?, hpurge]
  exact if_neg hstate

theorem memoryTenure?_cases {item : MemoryItem} {tenure : Tenure} (h : memoryTenure? item = some tenure) :
    (item.state ≠ .deleted ∧ item.purgeAfter = none ∧ tenure = .standing) ∨
      ∃ deadline, item.state = .deleted ∧ item.purgeAfter = some deadline ∧ tenure = .kept deadline := by
  unfold memoryTenure? at h
  cases hpurge : item.purgeAfter with
  | none =>
      rw [hpurge] at h
      simp only at h
      split at h
      · simp at h
      · next hstate => exact .inl ⟨hstate, rfl, (Option.some.inj h).symm⟩
  | some deadline =>
      rw [hpurge] at h
      simp only at h
      split at h
      · next hstate => exact .inr ⟨deadline, hstate, rfl, (Option.some.inj h).symm⟩
      · simp at h

theorem conversationTenure?_cases {row : Conversation} {tenure : Tenure}
    (h : conversationTenure? row = some tenure) :
    (row.state ≠ .deleted ∧ row.deletedAt = none ∧ row.purgeAfter = none ∧ tenure = .standing) ∨
      ∃ deadline, row.state = .deleted ∧ row.deletedAt ≠ none ∧ row.purgeAfter = some deadline ∧
        tenure = .kept deadline := by
  unfold conversationTenure? at h
  cases hpurge : row.purgeAfter with
  | none =>
      rw [hpurge] at h
      simp only at h
      split at h
      · next hrow => exact .inl ⟨hrow.1, hrow.2, rfl, (Option.some.inj h).symm⟩
      · simp at h
  | some deadline =>
      rw [hpurge] at h
      simp only at h
      split at h
      · next hrow => exact .inr ⟨deadline, hrow.1, hrow.2, rfl, (Option.some.inj h).symm⟩
      · simp at h

/-- A write that leaves the columns of the retention as they are. -/
theorem conversationTenure?_congr {row updated : Conversation} (hstate : updated.state = row.state)
    (hdeleted : updated.deletedAt = row.deletedAt) (hpurge : updated.purgeAfter = row.purgeAfter) :
    conversationTenure? updated = conversationTenure? row := by
  rw [conversationTenure?, conversationTenure?, hstate, hdeleted, hpurge]

/-- A write after which a conversation that was not deleted is not deleted either. -/
theorem conversationTenure?_open {row updated : Conversation} (hstate : row.state ≠ .deleted)
    (hupdated : updated.state ≠ .deleted) (hdeleted : updated.deletedAt = row.deletedAt)
    (hpurge : updated.purgeAfter = row.purgeAfter) :
    conversationTenure? updated = conversationTenure? row := by
  rw [conversationTenure?, conversationTenure?, hdeleted, hpurge]
  simp only [hstate, hupdated, false_and, if_false, ne_eq, not_false_eq_true, true_and]

theorem conversationTenure?_standing {c : Conversation} (hstate : c.state ≠ .deleted)
    (hdeleted : c.deletedAt = none) (hpurge : c.purgeAfter = none) :
    conversationTenure? c = some .standing := by
  rw [conversationTenure?, hpurge]
  exact if_pos ⟨hstate, hdeleted⟩

end Retention

/-! ### The operations of the memory -/

namespace MemoryService

open Retention

variable {rt : Runtime} {clock : ℕ → DateTime} {now : ℕ} {causes : Uuid → Tenure.Cause → Prop} {db db' : Db}

theorem conversations_hidden : Hidden Db.conversations :=
  ⟨fun _ _ => rfl, fun _ _ => rfl, fun _ _ => rfl, fun _ _ => rfl, fun _ _ => rfl⟩

theorem Call.work_keeps {γ : Type} {view : Db → γ} (hv : Hidden view) (call : Call) :
    Tx.Keeps (Same view) (call.work rt) := by
  unfold Call.work
  split
  · exact create_keeps hv _ _ _
  · exact confirm_keeps hv _ _ _ _
  · exact update_keeps hv _ _ _ _
  · exact softDelete_keeps hv _ _ _ _ _
  · exact restore_keeps hv _ _ _ _
  · exact merge_keeps hv _ _ _ _

/-- A version that keeps the columns of the retention. -/
theorem Revises.calm {began : DateTime} {old new : MemoryItem} {indexed : Bool}
    (h : Revises rt began old new indexed db db') (hrow : memoryTenure? new = memoryTenure? old) :
    Calm .memory db db' := by
  have hfind : db.memoryItems.find? (rowOf rt began new).id = some old := h.found
  intro id
  rw [tenure?_putItem h.items hfind]
  split
  · next hid =>
    rw [tenure?, hid, hfind]
    exact hrow
  · rfl

/-- An item that is not deleted stands, and so does a version of it that is not deleted either. -/
theorem memoryTenure?_open {item updated : MemoryItem} (hstate : item.state ≠ .deleted)
    (hupdated : updated.state ≠ .deleted) (hpurge : updated.purgeAfter = item.purgeAfter) :
    memoryTenure? updated = memoryTenure? item := by
  rw [memoryTenure?, memoryTenure?, hpurge]
  simp only [if_neg hstate, if_neg hupdated]

theorem memoryTenure?_newItem (id accountId : Uuid) (request : MemoryCreate)
    (confirmedAt : Option DateTime) (began : DateTime) :
    memoryTenure? (newItem id accountId request (initialState request) confirmedAt began) =
      some .standing := by
  refine memoryTenure?_standing ?_ rfl
  change initialState request ≠ .deleted
  unfold initialState
  split <;> decide

theorem CreatesFrom.steps {accountId : Uuid} {request : MemoryCreate} {began : DateTime}
    {item : MemoryItem} (h : CreatesFrom rt accountId request began item db db') :
    Steps clock now causes .memory db db' := by
  obtain ⟨id, instant, rfl⟩ := h.item_eq
  have hnew := memoryTenure?_newItem id accountId request
    (if initialState request = .active then some instant else none) began
  exact Steps.addItem h.items hnew

/-- The sources of a merge stay standing. -/
theorem Merges.calm {mergedId : Uuid} {sources : List MemoryItem}
    (h : Merges rt mergedId sources db db')
    (hopen : ∀ source ∈ sources, source.state = .active ∨ source.state = .outdated) :
    Calm .memory db db' := by
  induction h with
  | nil hrows => exact .of_items (congrArg Prod.fst hrows)
  | cons hrevises _ ih =>
      refine (hrevises.calm ?_).trans (ih fun source hsource => hopen source (List.mem_cons_of_mem _ hsource))
      have hstate := hopen _ List.mem_cons_self
      refine memoryTenure?_open ?_ (fun h => nomatch h) rfl
      rcases hstate with h | h <;> rw [h] <;> decide

/-- The call restores the item. -/
def Call.RestoresItem (call : Call) (id : Uuid) (cause : Tenure.Cause) : Prop :=
  cause = .restoration ∧ ∃ expectedVersion, call.operation = .restore id expectedVersion

theorem id_of_item? {accountId memoryId : Uuid} {item : MemoryItem} {db : Db}
    (h : item? db accountId memoryId = some item) : item.id = memoryId :=
  Table.key_of_find? (Option.filter_eq_some_iff.mp h).1

/-- A deleted item is restored before its deadline. -/
theorem restorable_cases {item : MemoryItem} {instant : DateTime} {tenure : Tenure}
    (h : unrestorable item instant = false) (htenure : memoryTenure? item = some tenure) :
    ∃ deadline, tenure = .kept deadline ∧ deadline.le instant = false := by
  rw [unrestorable, decide_eq_false_iff_not, not_or, not_not] at h
  rcases memoryTenure?_cases htenure with ⟨hstate, -, -⟩ | ⟨deadline, -, hpurge, rfl⟩
  · exact absurd h.1 hstate
  · rw [hpurge] at h
    exact ⟨deadline, rfl, Bool.eq_false_iff.mpr h.2⟩

/-- **Step lemma**: a call on the memory that returns makes a step of every item. -/
theorem Call.work_steps {call : Call} {s s' : Session} {a : MemoryItem}
    (h : call.work rt s = (.ok a, s')) :
    Steps (fun n => .utc (rt.clock n)) s.tick call.RestoresItem .memory s.db s'.db := by
  obtain ⟨operation, accountId, context, began⟩ := call
  cases operation with
  | create request =>
      obtain ⟨item, hcreates, -⟩ := create_ok h
      exact hcreates.steps
  | confirm memoryId expectedVersion =>
      obtain ⟨item, instant, -, -, hstate, hrevises⟩ := confirm_ok h
      refine (hrevises.calm (memoryTenure?_open ?_ (fun h => nomatch h) rfl)).steps
      rw [hstate]
      decide
  | update memoryId request =>
      obtain ⟨item, content, heditable, -, hrevises⟩ := update_ok h
      refine (hrevises.calm (memoryTenure?_open heditable.notDeleted ?_ rfl)).steps
      change (if request.markOutdated then MemoryState.outdated else item.state) ≠ .deleted
      split
      · decide
      · exact heditable.notDeleted
  | softDelete memoryId expectedVersion retentionDays =>
      obtain ⟨item, -, -, ⟨-, rfl⟩ | ⟨hstate, deletedAt, purgeAfter, hrevises⟩⟩ := softDelete_ok h
      · exact (Calm.of_items rfl).steps
      · refine Steps.putItem hrevises.items hrevises.found ?_
        intro tenure htenure
        rcases memoryTenure?_cases htenure with ⟨-, -, rfl⟩ | ⟨deadline, hdeleted, -, -⟩
        · exact ⟨.kept purgeAfter, rfl, .delete purgeAfter⟩
        · exact absurd hdeleted hstate
  | restore memoryId expectedVersion =>
      obtain ⟨item, hitem, -, hrestorable, hrevises⟩ := restore_ok h
      refine Steps.putItem hrevises.items hrevises.found ?_
      intro tenure htenure
      obtain ⟨deadline, rfl, hfuture⟩ := restorable_cases hrestorable htenure
      refine ⟨.standing, rfl, .restore deadline ⟨rfl, expectedVersion, ?_⟩ hfuture⟩
      change Operation.restore memoryId expectedVersion = .restore item.id expectedVersion
      rw [id_of_item? hitem]
  | merge sourceIds target =>
      obtain ⟨hopen, item, db₁, hcreates, hmerges⟩ := merge_ok h
      exact hcreates.steps.trans_calm (hmerges.calm hopen)

end MemoryService

/-! ### The operations on conversations -/

namespace Retention

open ConversationService HistoryService

variable {rt : Runtime} {clock : ℕ → DateTime} {now : ℕ} {causes : Uuid → Tenure.Cause → Prop} {db db' : Db}

/-- What an operation does to the table of the conversations: it leaves them, adds one that stands, or
stores one with the tenure that it has. -/
inductive Touches (t t' : Table Conversation.id) : Prop
  | none (h : t' = t)
  | add (c : Conversation) (hinsert : t.insert? c = some t') (hnew : conversationTenure? c = some .standing)
  | keep (row updated : Conversation) (hfind : t.find? updated.id = some row) (hput : t' = t.put updated)
      (hrow : conversationTenure? updated = conversationTenure? row)

theorem Touches.steps (h : Touches db.conversations db'.conversations) :
    Steps clock now causes .conversation db db' := by
  cases h with
  | none h => exact (Calm.of_conversations h).steps
  | add c hinsert hnew => exact Steps.addConversation hinsert hnew
  | keep row updated hfind hput hrow => exact (Calm.putConversation hput hfind hrow).steps

theorem Touches.insert {c : Conversation} {s s' : Session} {t : Table Conversation.id} {u : PUnit}
    (h : Db.conversation.add rt c s = (.ok u, s')) (hrest : t = s'.db.conversations)
    (hnew : conversationTenure? c = some .standing) : Touches s.db.conversations t := by
  obtain ⟨t', ht, rfl⟩ := Relation.add_eq_ok h
  obtain rfl := hrest
  exact .add c (Relation.insertRow_eq_ok ht).1 hnew

theorem Touches.save {row updated : Conversation} {s s' : Session} {t : Table Conversation.id} {u : PUnit}
    (h : Db.conversation.save rt updated s = (.ok u, s')) (hrest : t = s'.db.conversations)
    (hfind : s.db.conversations.find? updated.id = some row)
    (hrow : conversationTenure? updated = conversationTenure? row) : Touches s.db.conversations t := by
  obtain rfl := Relation.save_eq_ok h
  exact .keep row updated hfind hrest hrow

/-- The conversations stay as they are while messages, links, summaries, events and audit events are
written. -/
abbrev Leaves {α : Type} (m : Work α) : Prop := Tx.Keeps (Same Db.conversations) m

theorem append_leaves {context : AuditContext} {eventType result : String}
    {targetType : Option String} {targetId : Option Uuid} {details : List (String × Json)} :
    Leaves (AuditService.append rt context eventType result targetType targetId details) :=
  AuditService.append_keeps fun _ _ => rfl

theorem publish_leaves (aggregateId : Uuid) (eventType : String) (payload : Json) (q : ℤ) :
    Leaves (publish rt aggregateId eventType payload q) :=
  (Same.newUuid rt).bind fun _ => (Tx.Keeps.gets _).bind fun _ => Relation.add_keeps (fun _ _ => rfl) _

theorem start_touches {accountId : Uuid} {request : ConversationStart} {context : AuditContext}
    {s s' : Session} {c : Conversation}
    (h : ConversationService.start rt accountId request context s = (.ok c, s')) :
    Touches s.db.conversations s'.db.conversations := by
  obtain ⟨originals, s₁, horiginals, h₁⟩ := Tx.bind_eq_ok h
  obtain ⟨-, rfl⟩ := Prod.mk.inj horiginals
  obtain ⟨-, h₂⟩ := Tx.raiseIf_bind_eq_ok h₁
  obtain ⟨id, s₃, hid, h₃⟩ := Tx.bind_eq_ok h₂
  obtain ⟨-, rfl⟩ := Prod.mk.inj hid
  rw [Tx.gets_bind_apply] at h₃
  obtain ⟨u, s₄, hadd, h₄⟩ := Tx.bind_eq_ok h₃
  have hrest : Same Db.conversations s₄ s' := by
    refine Tx.Keeps.of_apply ?_ h₄
    cases request.continuationOfId with
    | none => exact append_leaves.bind fun _ => Tx.Keeps.pure _
    | some source =>
        refine (Same.newUuid rt).bind fun _ => (Relation.add_keeps (fun _ _ => rfl) _).bind fun _ => ?_
        exact append_leaves.bind fun _ => Tx.Keeps.pure _
  have htouches := Touches.insert hadd hrest (conversationTenure?_standing (fun h => nomatch h) rfl rfl)
  exact htouches

theorem continueFrom_touches {accountId conversationId : Uuid} {context : AuditContext}
    {s s' : Session} {c : Conversation}
    (h : continueFrom rt accountId conversationId context s = (.ok c, s')) :
    Touches s.db.conversations s'.db.conversations := by
  obtain ⟨original, s₁, hdetail, h₁⟩ := Tx.bind_eq_ok h
  have hread : Same id s s₁ := (detail_keeps _ _ _).of_apply hdetail
  have hdb : s₁.db = s.db := hread
  obtain ⟨id, s₃, hid, h₃⟩ := Tx.bind_eq_ok h₁
  obtain ⟨-, rfl⟩ := Prod.mk.inj hid
  rw [Tx.gets_bind_apply] at h₃
  obtain ⟨u, s₄, hadd, h₄⟩ := Tx.bind_eq_ok h₃
  have hrest : Same Db.conversations s₄ s' := by
    refine Tx.Keeps.of_apply ?_ h₄
    refine (Same.newUuid rt).bind fun _ => (Relation.add_keeps (fun _ _ => rfl) _).bind fun _ => ?_
    exact append_leaves.bind fun _ => Tx.Keeps.pure _
  rw [← hdb]
  have htouches := Touches.insert hadd hrest (conversationTenure?_standing (fun h => nomatch h) rfl rfl)
  exact htouches

/-- An appended message leaves the tenure of its conversation. -/
theorem appendMessage_touches {c updated : Conversation} {message : ConversationMessage} {s s' : Session}
    {t : Table Conversation.id} (h : appendMessage rt c message s = (.ok updated, s'))
    (hc : s.db.conversations.find? c.id = some c) (hrest : t = s'.db.conversations) :
    Touches s.db.conversations t := by
  obtain ⟨u, s₁, hadd, h₁⟩ := Tx.bind_eq_ok h
  obtain ⟨t, -, rfl⟩ := Relation.add_eq_ok hadd
  obtain ⟨now, s₂, hnow, h₂⟩ := Tx.bind_eq_ok h₁
  obtain ⟨-, rfl⟩ := Prod.mk.inj hnow
  obtain ⟨u', s₃, hsave, h₃⟩ := Tx.bind_eq_ok h₂
  obtain ⟨-, rfl⟩ := Prod.mk.inj h₃
  have htouches := Touches.save hsave hrest hc (conversationTenure?_congr rfl rfl rfl)
  exact htouches

theorem addUserTurn_touches {accountId conversationId : Uuid} {request : UserTurn}
    {context : AuditContext} {s s' : Session} {m : ConversationMessage}
    (h : addUserTurn rt accountId conversationId request context s = (.ok m, s')) :
    Touches s.db.conversations s'.db.conversations := by
  obtain ⟨c, s₁, hlock, h₁⟩ := Tx.bind_eq_ok h
  obtain ⟨rfl, -, hc⟩ := Closing.lockConversation_eq_ok hlock
  obtain ⟨-, h₂⟩ := Tx.raiseIf_bind_eq_ok h₁
  obtain ⟨existing, s₂, hkey, h₃⟩ := Tx.bind_eq_ok h₂
  obtain rfl := byIdempotencyKey_ok hkey
  cases existing with
  | some message =>
      obtain ⟨-, hpure⟩ := Tx.raiseIf_bind_eq_ok h₃
      obtain ⟨-, rfl⟩ := Prod.mk.inj hpure
      exact .none rfl
  | none =>
      change insertUserTurn rt c request context _ = _ at h₃
      rw [insertUserTurn, Tx.gets_bind_apply] at h₃
      obtain ⟨id, s₄, hid, h₄⟩ := Tx.bind_eq_ok h₃
      obtain ⟨-, rfl⟩ := Prod.mk.inj hid
      obtain ⟨now, s₅, hnow, h₅⟩ := Tx.bind_eq_ok h₄
      obtain ⟨-, rfl⟩ := Prod.mk.inj hnow
      obtain ⟨updated, s₆, happend, h₆⟩ := Tx.bind_eq_ok h₅
      have hrest : Same Db.conversations s₆ s' := by
        refine Tx.Keeps.of_apply ?_ h₆
        exact (publish_leaves _ _ _ _).bind fun _ => append_leaves.bind fun _ => Tx.Keeps.pure _
      have htouches := appendMessage_touches happend hc hrest
      exact htouches

theorem addAssistantTurn_touches {conversationId : Uuid} {content idempotencyKey : String} {runId : Uuid}
    {interrupted : Bool} {s s' : Session} {m : ConversationMessage}
    (h : addAssistantTurn rt conversationId content idempotencyKey runId interrupted s = (.ok m, s')) :
    Touches s.db.conversations s'.db.conversations := by
  rw [addAssistantTurn, Relation.find, Tx.gets_bind_apply] at h
  obtain ⟨c, hc, h₁⟩ := Tx.orRaise_bind_eq_ok h
  obtain ⟨existing, s₂, hkey, h₂⟩ := Tx.bind_eq_ok h₁
  obtain rfl := byIdempotencyKey_ok hkey
  cases existing with
  | some message =>
      obtain ⟨-, rfl⟩ := Prod.mk.inj h₂
      exact .none rfl
  | none =>
      change (Tx.gets _ >>= _) _ = _ at h₂
      rw [Tx.gets_bind_apply] at h₂
      obtain ⟨id, s₃, hid, h₃⟩ := Tx.bind_eq_ok h₂
      obtain ⟨-, rfl⟩ := Prod.mk.inj hid
      obtain ⟨now, s₄, hnow, h₄⟩ := Tx.bind_eq_ok h₃
      obtain ⟨-, rfl⟩ := Prod.mk.inj hnow
      obtain ⟨updated, s₅, happend, h₅⟩ := Tx.bind_eq_ok h₄
      obtain ⟨-, rfl⟩ := Prod.mk.inj h₅
      have hrow : (Db.conversation.get s₂.db).find? c.id = some c := by
        rw [Table.key_of_find? hc]
        exact hc
      have htouches := appendMessage_touches happend hrow rfl
      exact htouches

theorem finish_touches {accountId conversationId : Uuid} {reason : String} {context : AuditContext}
    {s s' : Session} {c : Conversation}
    (h : finish rt accountId conversationId reason context s = (.ok c, s')) :
    Touches s.db.conversations s'.db.conversations := by
  obtain ⟨row, s₁, hlock, h₁⟩ := Tx.bind_eq_ok h
  obtain ⟨rfl, -, hrow⟩ := Closing.lockConversation_eq_ok hlock
  split at h₁
  · next hactive =>
    obtain ⟨endedAt, s₂, hnow, h₂⟩ := Tx.bind_eq_ok h₁
    obtain ⟨-, rfl⟩ := Prod.mk.inj hnow
    obtain ⟨lastActivityAt, s₃, hnow', h₃⟩ := Tx.bind_eq_ok h₂
    obtain ⟨-, rfl⟩ := Prod.mk.inj hnow'
    obtain ⟨u, s₄, hsave, h₄⟩ := Tx.bind_eq_ok h₃
    have hrest : Same Db.conversations s₄ s' := by
      refine Tx.Keeps.of_apply ?_ h₄
      exact (publish_leaves _ _ _ _).bind fun _ => append_leaves.bind fun _ => Tx.Keeps.pure _
    have hopen : row.state ≠ .deleted := by
      rw [hactive]
      decide
    have hclosed : (if reason = "user_ended" then ConversationState.completed else .interrupted) ≠
        .deleted := by
      split <;> decide
    have htouches := Touches.save hsave hrest hrow (conversationTenure?_open hopen hclosed rfl rfl)
    exact htouches
  · obtain ⟨-, rfl⟩ := Prod.mk.inj h₁
    exact .none rfl

theorem updateMetadata_touches {accountId conversationId : Uuid} {request : MetadataUpdate}
    {context : AuditContext} {s s' : Session} {c : Conversation}
    (h : updateMetadata rt accountId conversationId request context s = (.ok c, s')) :
    Touches s.db.conversations s'.db.conversations := by
  obtain ⟨row, s₁, hlock, h₁⟩ := Tx.bind_eq_ok h
  obtain ⟨rfl, -, hrow⟩ := Closing.lockConversation_eq_ok hlock
  obtain ⟨-, h₂⟩ := Tx.raiseIf_bind_eq_ok h₁
  obtain ⟨u, s₂, hsave, h₃⟩ := Tx.bind_eq_ok h₂
  have hrest : Same Db.conversations s₂ s' := by
    refine Tx.Keeps.of_apply ?_ h₃
    refine (Same.newUuid rt).bind fun _ => (Relation.add_keeps (fun _ _ => rfl) _).bind fun _ => ?_
    exact append_leaves.bind fun _ => Tx.Keeps.pure _
  exact Touches.save hsave hrest hrow (conversationTenure?_congr rfl rfl rfl)

/-- A conversation is deleted, possibly once more. -/
theorem softDelete_steps {accountId conversationId : Uuid} {expectedVersion retentionDays : ℤ}
    {context : AuditContext} {s s' : Session} {c : Conversation}
    (h : HistoryService.softDelete rt accountId conversationId expectedVersion retentionDays context s =
      (.ok c, s'))
    (hredeletes : ∀ row, conversation? s.db accountId conversationId = some row →
      row.version = expectedVersion → row.purgeAfter ≠ none → causes conversationId .redeletion) :
    Steps clock now causes .conversation s.db s'.db := by
  obtain ⟨row, s₁, hlock, h₁⟩ := Tx.bind_eq_ok h
  obtain ⟨hs, hlocked, hrow⟩ := Closing.lockConversation_eq_ok hlock
  subst hs
  obtain ⟨hversion, h₂⟩ := Tx.raiseIf_bind_eq_ok h₁
  obtain ⟨deletedAt, s₂, hnow, h₃⟩ := Tx.bind_eq_ok h₂
  obtain ⟨-, rfl⟩ := Prod.mk.inj hnow
  obtain ⟨instant, s₃, hnow', h₄⟩ := Tx.bind_eq_ok h₃
  obtain ⟨-, rfl⟩ := Prod.mk.inj hnow'
  obtain ⟨u, s₄, hsave, h₅⟩ := Tx.bind_eq_ok h₄
  obtain rfl := Relation.save_eq_ok hsave
  have hrest := Tx.Keeps.of_apply (R := Same Db.conversations)
    (append_leaves.bind fun _ => Tx.Keeps.pure _) h₅
  have hid : row.id = conversationId := Table.key_of_find? (Option.filter_eq_some_iff.mp hlocked).1
  refine Steps.putConversation hrest hrow ?_
  intro tenure htenure
  rcases conversationTenure?_cases htenure with ⟨-, -, -, rfl⟩ | ⟨deadline, -, -, hpurge, rfl⟩
  · exact ⟨.kept _, rfl, .delete _⟩
  · have hset : row.purgeAfter ≠ none := by
      rw [hpurge]
      exact Option.some_ne_none _
    have hcause : causes row.id .redeletion := by
      rw [hid]
      exact hredeletes row hlocked (not_not.mp hversion) hset
    exact ⟨.kept _, rfl, .redelete deadline _ hcause⟩

/-- A conversation is restored before its deadline. -/
theorem restore_steps {accountId conversationId : Uuid} {expectedVersion : ℤ} {context : AuditContext}
    {s s' : Session} {c : Conversation}
    (h : HistoryService.restore rt accountId conversationId expectedVersion context s = (.ok c, s'))
    (hrestores : causes conversationId .restoration) :
    Steps (fun n => .utc (rt.clock n)) s.tick causes .conversation s.db s'.db := by
  obtain ⟨row, s₁, hlock, h₁⟩ := Tx.bind_eq_ok h
  obtain ⟨hs, hlocked, hrow⟩ := Closing.lockConversation_eq_ok hlock
  subst hs
  obtain ⟨-, h₂⟩ := Tx.raiseIf_bind_eq_ok h₁
  obtain ⟨instant, s₂, hnow, h₃⟩ := Tx.bind_eq_ok h₂
  obtain ⟨hclock, rfl⟩ := Prod.mk.inj hnow
  obtain rfl := Except.ok.inj hclock
  obtain ⟨hrestorable, h₄⟩ := Tx.raiseIf_bind_eq_ok h₃
  obtain ⟨u, s₄, hsave, h₅⟩ := Tx.bind_eq_ok h₄
  obtain rfl := Relation.save_eq_ok hsave
  have hrest := Tx.Keeps.of_apply (R := Same Db.conversations)
    (append_leaves.bind fun _ => Tx.Keeps.pure _) h₅
  have hid : row.id = conversationId := Table.key_of_find? (Option.filter_eq_some_iff.mp hlocked).1
  refine Steps.putConversation hrest hrow ?_
  intro tenure htenure
  rw [Bool.not_eq_true, HistoryService.unrestorable, decide_eq_false_iff_not, not_or] at hrestorable
  rcases conversationTenure?_cases htenure with ⟨-, hdeleted, -, -⟩ | ⟨deadline, -, -, hpurge, rfl⟩
  · exact absurd hdeleted hrestorable.1
  · rw [hpurge] at hrestorable
    have hopen : (if row.endedAt = none then ConversationState.interrupted else .completed) ≠ .deleted := by
      split <;> decide
    have hrow : causes row.id .restoration := by
      rw [hid]
      exact hrestores
    exact ⟨.standing, conversationTenure?_standing hopen rfl rfl,
      .restore deadline hrow (Bool.eq_false_iff.mpr hrestorable.2)⟩

/-! ### The purge -/

/-- An operation of the exports leaves the memory items and the conversations alone. -/
theorem exports_keep {storage : Storage} {γ : Type} {view : Db → γ}
    (hv : ∀ t db, view (Db.exportRecord.set t db) = view db) :
    Tx.Keeps (Same view) (ExportService.purgeExpired rt storage) := by
  refine (Same.utcNow rt).bind fun _ => (Relation.select_keeps _).bind fun rows => ?_
  refine Tx.Keeps.bind (Tx.Keeps.forEach fun record => ?_) fun _ => Tx.Keeps.pure _
  refine Tx.Keeps.bind ?_ fun _ => Relation.save_keeps fun db => hv _ db
  refine (Tx.Keeps.gets _).bind fun files => ?_
  split
  · exact Tx.Keeps.pure _
  · dsimp only
    split
    · intro s
      unfold Storage.change
      split <;> rfl
    · exact Tx.Keeps.pure _

theorem purgeDocuments_ok {s s' : Session} {u : PUnit} (h : Worker.purgeDocuments rt s = (.ok u, s')) :
    s'.db.memoryItems = s.db.memoryItems ∧ s'.db.conversations = s.db.conversations ∧
      s'.tick = s.tick + 2 := by
  obtain ⟨now, s₁, hnow, h₁⟩ := Tx.bind_eq_ok h
  obtain ⟨-, rfl⟩ := Prod.mk.inj hnow
  obtain ⟨memories, s₂, hmemories, h₂⟩ := Tx.bind_eq_ok h₁
  obtain ⟨-, rfl⟩ := Prod.mk.inj hmemories
  obtain ⟨now', s₃, hnow', h₃⟩ := Tx.bind_eq_ok h₂
  obtain ⟨-, rfl⟩ := Prod.mk.inj hnow'
  obtain ⟨conversations, s₄, hconversations, h₄⟩ := Tx.bind_eq_ok h₃
  obtain ⟨-, rfl⟩ := Prod.mk.inj hconversations
  dsimp only at h₄
  split at h₄
  · obtain ⟨-, rfl⟩ := Prod.mk.inj h₄
    exact ⟨rfl, rfl, rfl⟩
  · obtain ⟨-, rfl⟩ := Prod.mk.inj h₄
    exact ⟨rfl, rfl, rfl⟩

theorem tenure?_deleteMemoryItems (p : MemoryItem → Bool) (db : Db) (id : Uuid) :
    tenure? (db.deleteMemoryItems p) id .memory =
      ((db.memoryItems.find? id).filter fun i => !p i).elim (some .absent) memoryTenure? := by
  unfold tenure? Db.deleteMemoryItems
  dsimp only
  rw [Table.find?_mapRows, Table.find?_filter]
  cases (db.memoryItems.find? id).filter _ <;> rfl

theorem tenure?_deleteConversations (p : Conversation → Bool) (db : Db) (id : Uuid) :
    tenure? (db.deleteConversations p) id .conversation =
      ((db.conversations.find? id).filter fun c => !p c).elim (some .absent) conversationTenure? := by
  unfold tenure? Db.deleteConversations
  dsimp only
  rw [Table.find?_mapRows, Table.find?_filter]
  cases (db.conversations.find? id).filter _ <;> rfl

/-- **What `purge_expired` removes**: the deleted rows whose deadline its readings of the clock have
reached. -/
theorem purgeExpired_ok {storage : Storage} {s s' : Session} {u : PUnit}
    (h : Worker.purgeExpired rt storage s = (.ok u, s')) (id : Uuid) :
    tenure? s'.db id .memory = ((s.db.memoryItems.find? id).filter fun i =>
        !Worker.dueMemory (.utc (rt.clock (s.tick + 2))) i).elim (some .absent) memoryTenure? ∧
      tenure? s'.db id .conversation = ((s.db.conversations.find? id).filter fun c =>
        !Worker.dueConversation (.utc (rt.clock (s.tick + 3))) c).elim (some .absent) conversationTenure? := by
  obtain ⟨u, s₁, hdocuments, h₁⟩ := Tx.bind_eq_ok h
  obtain ⟨hitems, hconversations, htick⟩ := purgeDocuments_ok hdocuments
  obtain ⟨instant, s₂, hinstant, h₂⟩ := Tx.bind_eq_ok h₁
  obtain ⟨hreading, rfl⟩ := Prod.mk.inj hinstant
  obtain rfl := Except.ok.inj hreading
  rw [Tx.modify_bind_apply] at h₂
  obtain ⟨instant', s₃, hinstant', h₃⟩ := Tx.bind_eq_ok h₂
  obtain ⟨hreading', rfl⟩ := Prod.mk.inj hinstant'
  obtain rfl := Except.ok.inj hreading'
  rw [Tx.modify_bind_apply] at h₃
  have hkept : Same (fun db => (db.memoryItems, db.conversations)) _ s' :=
    (exports_keep fun _ _ => rfl).of_apply h₃
  obtain ⟨hitems', hconversations'⟩ := Prod.mk.inj hkept
  have htick' : s.tick + 3 = s₁.tick + 1 := by omega
  rw [htick', ← htick, ← hitems, ← hconversations]
  constructor
  · exact (Calm.of_items hitems' id).trans (tenure?_deleteMemoryItems _ _ _)
  · exact (Calm.of_conversations hconversations' id).trans (tenure?_deleteConversations _ _ _)

/-- A purge takes a step of every row. -/
theorem purgeExpired_steps {storage : Storage} {s s' : Session} {u : PUnit} (owner : Owner)
    (h : Worker.purgeExpired rt storage s = (.ok u, s')) :
    Steps (fun n => .utc (rt.clock n)) s.tick causes owner s.db s'.db := by
  intro id tenure htenure
  obtain ⟨hmemory, hconversation⟩ := purgeExpired_ok h id
  cases owner with
  | memory =>
      rw [hmemory]
      unfold tenure? at htenure
      cases hfind : s.db.memoryItems.find? id with
      | none =>
          rw [hfind] at htenure
          exact ⟨tenure, htenure, .same tenure⟩
      | some item =>
          rw [hfind] at htenure
          cases hdue : Worker.dueMemory (.utc (rt.clock (s.tick + 2))) item with
          | false =>
              rw [Option.filter_some_pos (by simp [hdue])]
              exact ⟨tenure, htenure, .same tenure⟩
          | true =>
              rw [Option.filter_some_neg (by simp [hdue])]
              obtain ⟨-, hreached⟩ := of_decide_eq_true hdue
              rcases memoryTenure?_cases htenure with ⟨-, hpurge, -⟩ | ⟨deadline, -, hpurge, rfl⟩
              · rw [hpurge] at hreached
                exact absurd hreached (by simp)
              · rw [hpurge] at hreached
                exact ⟨.absent, rfl, .purge deadline _ (Nat.le_add_right _ _) hreached⟩
  | conversation =>
      rw [hconversation]
      unfold tenure? at htenure
      cases hfind : s.db.conversations.find? id with
      | none =>
          rw [hfind] at htenure
          exact ⟨tenure, htenure, .same tenure⟩
      | some row =>
          rw [hfind] at htenure
          cases hdue : Worker.dueConversation (.utc (rt.clock (s.tick + 3))) row with
          | false =>
              rw [Option.filter_some_pos (by simp [hdue])]
              exact ⟨tenure, htenure, .same tenure⟩
          | true =>
              rw [Option.filter_some_neg (by simp [hdue])]
              obtain ⟨-, hreached⟩ := of_decide_eq_true hdue
              rcases conversationTenure?_cases htenure with ⟨-, -, hpurge, -⟩ | ⟨deadline, -, -, hpurge, rfl⟩
              · rw [hpurge] at hreached
                exact absurd hreached (by simp)
              · rw [hpurge] at hreached
                exact ⟨.absent, rfl, .purge deadline _ (Nat.le_add_right _ _) hreached⟩

theorem le_utc_mono {d : DateTime} {x y : ℤ} (h : d.le (.utc x) = true) (hxy : x ≤ y) :
    d.le (.utc y) = true := by
  have hx : d.wall - d.utcoffset.getD 0 ≤ x - 0 := of_decide_eq_true h
  exact decide_eq_true (hx.trans (Int.sub_le_sub_right hxy 0))

/-- A purge removes a row whose deadline has been reached. -/
theorem purgeExpired_removes {storage : Storage} {s s' : Session} {u : PUnit} {id : Uuid} {owner : Owner}
    {deadline : DateTime} (hclock : Monotone rt.clock)
    (h : Worker.purgeExpired rt storage s = (.ok u, s'))
    (hkept : tenure? s.db id owner = some (.kept deadline))
    (hdue : deadline.le (.utc (rt.clock s.tick)) = true) : tenure? s'.db id owner = some .absent := by
  obtain ⟨hmemory, hconversation⟩ := purgeExpired_ok h id
  have hlater : ∀ n, deadline.le (.utc (rt.clock (s.tick + n))) = true := by
    intro n
    exact le_utc_mono hdue (hclock (Nat.le_add_right s.tick n))
  cases owner with
  | memory =>
      rw [hmemory]
      unfold tenure? at hkept
      cases hfind : s.db.memoryItems.find? id with
      | none => rfl
      | some item =>
          rw [hfind] at hkept
          rcases memoryTenure?_cases hkept with ⟨-, -, hne⟩ | ⟨deadline', hstate, hpurge, heq⟩
          · exact absurd hne (by simp)
          · obtain rfl := Tenure.kept.inj heq
            rw [Option.filter_some_neg]
            · rfl
            · simp [Worker.dueMemory, hstate, hpurge, hlater]
  | conversation =>
      rw [hconversation]
      unfold tenure? at hkept
      cases hfind : s.db.conversations.find? id with
      | none => rfl
      | some row =>
          rw [hfind] at hkept
          rcases conversationTenure?_cases hkept with ⟨-, -, -, hne⟩ | ⟨deadline', hstate, -, hpurge, heq⟩
          · exact absurd hne (by simp)
          · obtain rfl := Tenure.kept.inj heq
            rw [Option.filter_some_neg]
            · rfl
            · simp [Worker.dueConversation, hstate, hpurge, hlater]

end Retention

end KajovoDagmar
