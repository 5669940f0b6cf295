import KajovoDagmar.Library.TwoRuns
import KajovoDagmar.Orchestration.Atomicity
import KajovoDagmar.Orchestration.Proposals

/-! # Previews and effects

The administrator confirms the preview of an action, and `_execute_state_action` acts on its
arguments.  The preview leaves arguments out: two proposals with the same preview have the same
effect as long as they agree in those (`SameBeyondPreview`). -/

namespace KajovoDagmar.OrchestrationService

variable {out : Outside}

/-! ### What a preview leaves out -/

section arguments

variable (out)

/-- The validation of an optional datetime among the arguments. -/
def dateOf (args : Json) (key : String) : Option (Option DateTime) :=
  validateOptional out.validateDatetime (args.getD key .null)

def dateKeys : List String := ["event_at", "valid_from", "valid_until"]

/-- The memory or the conversation that the arguments name. -/
def targetOf (args : Json) (key : String) : Option Uuid :=
  out.parseUuid (pyStr out (args.getD key .null))

/-- The memories that are to be merged. -/
def sourcesOf (args : Json) : Option (List Uuid) :=
  (listItems (args.getD "source_ids" (.arr []))).bind (parseUuids out)

/-- The two calls agree in the arguments that reach the operation but not the preview. -/
def SameBeyondPreview (name : ToolName) (args args' : Json) : Prop :=
  match name with
  | .memoryCreate => ∀ key ∈ dateKeys, dateOf out args key = dateOf out args' key
  | .memoryUpdate =>
    targetOf out args "memory_id" = targetOf out args' "memory_id" ∧
    validateOptional validateContent (args.getD "content" .null) =
      validateOptional validateContent (args'.getD "content" .null) ∧
    validateOptional validateCategory (args.getD "category" .null) =
      validateOptional validateCategory (args'.getD "category" .null) ∧
    ∀ key ∈ dateKeys, dateOf out args key = dateOf out args' key
  | .memoryMarkOutdated | .memoryDelete | .memoryRestore =>
    targetOf out args "memory_id" = targetOf out args' "memory_id"
  | .memoryMerge =>
    sourcesOf out args = sourcesOf out args' ∧
    validateCategory (.str (pyStr out (args.getD "category" (.str "other")))) =
      validateCategory (.str (pyStr out (args'.getD "category" (.str "other"))))
  | .historyContinue | .historyDelete | .historyRestore =>
    targetOf out args "conversation_id" = targetOf out args' "conversation_id"
  | .memorySearch | .historySearch | .none => True

end arguments

/-! ### Validated requests -/

/-- A request that is validated carries the values of its fields. -/
theorem make_ok {rt : Runtime} {content category originType : Json}
    {conversationId messageId : Option Uuid}
    {originalExpression eventAt validFrom validUntil keywords confirmed : Json} {r : MemoryCreate}
    (h : MemoryCreate.make rt content category originType conversationId messageId originalExpression
      eventAt validFrom validUntil keywords confirmed = some r) :
    validateContent content = some r.content ∧ validateCategory category = some r.category ∧
      validateOrigin originType = some r.originType ∧ r.sourceConversationId = conversationId ∧
      r.sourceMessageId = messageId ∧
      validateOptional (validateText 10000) originalExpression = some r.originalExpression ∧
      validateOptional rt.validateDatetime eventAt = some r.eventAt ∧
      validateOptional rt.validateDatetime validFrom = some r.validFrom ∧
      validateOptional rt.validateDatetime validUntil = some r.validUntil ∧
      validateKeywords keywords = some r.keywords ∧ rt.validateBool confirmed = some r.confirmed := by
  unfold MemoryCreate.make at h
  obtain ⟨content', hcontent, h⟩ := Option.bind_eq_some_iff.mp h
  obtain ⟨category', hcategory, h⟩ := Option.bind_eq_some_iff.mp h
  obtain ⟨origin', horigin, h⟩ := Option.bind_eq_some_iff.mp h
  obtain ⟨expression', hexpression, h⟩ := Option.bind_eq_some_iff.mp h
  obtain ⟨eventAt', heventAt, h⟩ := Option.bind_eq_some_iff.mp h
  obtain ⟨validFrom', hvalidFrom, h⟩ := Option.bind_eq_some_iff.mp h
  obtain ⟨validUntil', hvalidUntil, h⟩ := Option.bind_eq_some_iff.mp h
  obtain ⟨keywords', hkeywords, h⟩ := Option.bind_eq_some_iff.mp h
  obtain ⟨confirmed', hconfirmed, h⟩ := Option.bind_eq_some_iff.mp h
  obtain rfl := Option.some.inj h
  exact ⟨hcontent, hcategory, horigin, rfl, rfl, hexpression, heventAt, hvalidFrom, hvalidUntil,
    hkeywords, hconfirmed⟩

/-! ### Equal previews -/

section normalised

variable {accountId : Uuid} {conversation : Conversation} {sourceMessage : ConversationMessage}
  {args args' : Json} {s t t' : Session} {n n' : NormalizedAction}

theorem create_same
    (h : normalizeCreate out args conversation sourceMessage s = (.ok n, t))
    (h' : normalizeCreate out args' conversation sourceMessage s = (.ok n', t'))
    (hpreview : n.preview = n'.preview) (hsame : SameBeyondPreview out .memoryCreate args args') :
    n = n' := by
  unfold normalizeCreate at h h'
  obtain ⟨r, hmake, hn⟩ := Tx.orRaise_bind_eq_ok h
  obtain ⟨r', hmake', hn'⟩ := Tx.orRaise_bind_eq_ok h'
  obtain rfl := Except.ok.inj (Prod.mk.inj hn).1
  obtain rfl := Except.ok.inj (Prod.mk.inj hn').1
  simp only [Json.obj.injEq, List.cons.injEq, Prod.mk.injEq, Json.str.injEq, true_and, and_true] at hpreview
  obtain ⟨hcontent, hcategory⟩ := hpreview
  have hrequest : r = r' := by
    rw [← hcontent, ← hcategory] at hmake'
    obtain ⟨hc, hk, ho, hi, hm, hx, he, hf, hu, hw, hd⟩ := make_ok hmake
    obtain ⟨hc', hk', ho', hi', hm', hx', he', hf', hu', hw', hd'⟩ := make_ok hmake'
    have heventAt := hsame "event_at" (by decide)
    have hvalidFrom := hsame "valid_from" (by decide)
    have hvalidUntil := hsame "valid_until" (by decide)
    unfold dateOf at heventAt hvalidFrom hvalidUntil
    cases r
    cases r'
    simp_all
  subst hrequest
  rw [hcontent, hcategory]

/-- The item of a call on one memory, and what the call becomes. -/
theorem normalizeMemory_ok {name : ToolName}
    (h : normalizeMemory out accountId name args s = (.ok n, t)) :
    ∃ memoryId item, targetOf out args "memory_id" = some memoryId ∧
      (MemoryService.item? s.db accountId memoryId).filter (fun item => true = true ∨ item.state ≠ .deleted) =
        some item ∧
      n.arguments = .obj ([("memory_id", .str (out.strUuid item.id)),
        ("expected_version", .int item.version)] ++
          (if name = .memoryUpdate then
            ["content", "category", "event_at", "valid_from", "valid_until"].filterMap fun key =>
              (args.get? key).map fun v => (key, v)
          else [])) ∧
      n.preview = .obj [("operation", .str name.text), ("target", .str item.content),
        ("state", .str item.state.text), ("impact", .str (impact name))] ∧
      n.targetVersion = some item.version := by
  unfold normalizeMemory MemoryService.get at h
  obtain ⟨memoryId, hid, h₁⟩ := Tx.orRaise_bind_eq_ok h
  obtain ⟨item, s₂, hget, h₂⟩ := Tx.bind_eq_ok h₁
  rw [Tx.gets_bind_apply] at hget
  obtain ⟨hitem, rfl⟩ := Tx.orRaise_eq_ok hget
  obtain ⟨expected, -, h₃⟩ := Tx.orRaise_bind_eq_ok h₂
  obtain ⟨-, h₄⟩ := Tx.raiseIf_bind_eq_ok h₃
  obtain rfl := Except.ok.inj (Prod.mk.inj h₄).1
  exact ⟨memoryId, item, hid, hitem, rfl, rfl, rfl⟩

/-- Two calls on the same memory. -/
theorem memory_item {name : ToolName}
    (h : normalizeMemory out accountId name args s = (.ok n, t))
    (h' : normalizeMemory out accountId name args' s = (.ok n', t'))
    (hsame : targetOf out args "memory_id" = targetOf out args' "memory_id") :
    ∃ item : MemoryItem, n.preview = n'.preview ∧ n.targetVersion = n'.targetVersion ∧
      n.arguments = .obj ([("memory_id", .str (out.strUuid item.id)),
        ("expected_version", .int item.version)] ++
          (if name = .memoryUpdate then
            ["content", "category", "event_at", "valid_from", "valid_until"].filterMap fun key =>
              (args.get? key).map fun v => (key, v)
          else [])) ∧
      n'.arguments = .obj ([("memory_id", .str (out.strUuid item.id)),
        ("expected_version", .int item.version)] ++
          (if name = .memoryUpdate then
            ["content", "category", "event_at", "valid_from", "valid_until"].filterMap fun key =>
              (args'.get? key).map fun v => (key, v)
          else [])) := by
  obtain ⟨memoryId, item, hid, hitem, harguments, hpreview, hversion⟩ := normalizeMemory_ok h
  obtain ⟨memoryId', item', hid', hitem', harguments', hpreview', hversion'⟩ := normalizeMemory_ok h'
  obtain rfl : memoryId = memoryId' := Option.some.inj (hid.symm.trans (hsame.trans hid'))
  obtain rfl : item = item' := Option.some.inj (hitem.symm.trans hitem')
  exact ⟨item, hpreview.trans hpreview'.symm, hversion.trans hversion'.symm, harguments, harguments'⟩

theorem memory_same {name : ToolName} (hname : name ≠ .memoryUpdate)
    (h : normalizeMemory out accountId name args s = (.ok n, t))
    (h' : normalizeMemory out accountId name args' s = (.ok n', t'))
    (hsame : targetOf out args "memory_id" = targetOf out args' "memory_id") : n = n' := by
  obtain ⟨item, hpreview, hversion, harguments, harguments'⟩ := memory_item h h' hsame
  rw [if_neg hname] at harguments harguments'
  obtain ⟨arguments, preview, targetVersion⟩ := n
  obtain ⟨arguments', preview', targetVersion'⟩ := n'
  simp only at hpreview hversion harguments harguments'
  rw [hpreview, hversion, harguments, harguments']

theorem merge_same
    (h : normalizeMerge out accountId args conversation sourceMessage s = (.ok n, t))
    (h' : normalizeMerge out accountId args' conversation sourceMessage s = (.ok n', t'))
    (hpreview : n.preview = n'.preview) (hsame : SameBeyondPreview out .memoryMerge args args') :
    n = n' := by
  obtain ⟨hsources, hcategory⟩ := hsame
  unfold normalizeMerge at h h'
  obtain ⟨raw, hraw, h₁⟩ := Tx.orRaise_bind_eq_ok h
  obtain ⟨raw', hraw', h₁'⟩ := Tx.orRaise_bind_eq_ok h'
  obtain ⟨ids, hids, h₂⟩ := Tx.orRaise_bind_eq_ok h₁
  obtain ⟨ids', hids', h₂'⟩ := Tx.orRaise_bind_eq_ok h₁'
  obtain rfl : ids = ids' := by
    unfold sourcesOf at hsources
    rw [hraw, hraw', Option.bind_some, Option.bind_some, hids, hids'] at hsources
    exact Option.some.inj hsources
  obtain ⟨-, h₃⟩ := Tx.raiseIf_bind_eq_ok h₂
  obtain ⟨-, h₃'⟩ := Tx.raiseIf_bind_eq_ok h₂'
  rw [Relation.select, Tx.gets_bind_apply] at h₃ h₃'
  obtain ⟨-, h₄⟩ := Tx.raiseIf_bind_eq_ok h₃
  obtain ⟨-, h₄'⟩ := Tx.raiseIf_bind_eq_ok h₃'
  obtain ⟨r, hmake, hn⟩ := Tx.orRaise_bind_eq_ok h₄
  obtain ⟨r', hmake', hn'⟩ := Tx.orRaise_bind_eq_ok h₄'
  obtain rfl := Except.ok.inj (Prod.mk.inj hn).1
  obtain rfl := Except.ok.inj (Prod.mk.inj hn').1
  simp only [Json.obj.injEq, List.cons.injEq, Prod.mk.injEq, Json.str.injEq, true_and, and_true] at hpreview
  have hrequest : r = r' := by
    obtain ⟨hc, hk, ho, hi, hm, hx, he, hf, hu, hw, hd⟩ := make_ok hmake
    obtain ⟨hc', hk', ho', hi', hm', hx', he', hf', hu', hw', hd'⟩ := make_ok hmake'
    have hcontent : r.content = r'.content := Subtype.ext hpreview
    cases r
    cases r'
    simp_all
  rw [hrequest]

theorem history_same {name : ToolName}
    (h : normalizeHistory out accountId name args s = (.ok n, t))
    (h' : normalizeHistory out accountId name args' s = (.ok n', t'))
    (hsame : targetOf out args "conversation_id" = targetOf out args' "conversation_id") : n = n' := by
  unfold normalizeHistory at h h'
  obtain ⟨id, hid, h₁⟩ := Tx.orRaise_bind_eq_ok h
  obtain ⟨id', hid', h₁'⟩ := Tx.orRaise_bind_eq_ok h'
  obtain rfl : id = id' := Option.some.inj (hid.symm.trans (hsame.trans hid'))
  obtain ⟨⟨target, messages⟩, s₂, hdetail, h₂⟩ := Tx.bind_eq_ok h₁
  obtain ⟨⟨target', messages'⟩, s₂', hdetail', h₂'⟩ := Tx.bind_eq_ok h₁'
  rw [hdetail] at hdetail'
  obtain ⟨htarget, -⟩ := Prod.mk.inj hdetail'
  obtain ⟨rfl, -⟩ := Prod.mk.inj (Except.ok.inj htarget)
  obtain ⟨expected, -, h₃⟩ := Tx.orRaise_bind_eq_ok h₂
  obtain ⟨expected', -, h₃'⟩ := Tx.orRaise_bind_eq_ok h₂'
  obtain ⟨-, h₄⟩ := Tx.raiseIf_bind_eq_ok h₃
  obtain ⟨-, h₄'⟩ := Tx.raiseIf_bind_eq_ok h₃'
  obtain rfl := Except.ok.inj (Prod.mk.inj h₄).1
  obtain rfl := Except.ok.inj (Prod.mk.inj h₄').1
  rfl

end normalised

/-! ### The arguments of an update -/

/-- Entries that are copied from the arguments are found as in the arguments. -/
theorem find?_copied (args : Json) {keys : List String} {key : String} (hkey : key ∈ keys) :
    ((keys.filterMap fun k => (args.get? k).map fun v => (k, v)).find? fun kv => kv.1 = key).map Prod.snd =
      args.get? key := by
  induction keys with
  | nil => simp at hkey
  | cons k keys ih =>
      by_cases hk : k = key
      · subst hk
        cases hget : args.get? k with
        | some v => simp [hget]
        | none =>
            have hnone : (keys.filterMap fun k => (args.get? k).map fun v => (k, v)).find?
                (fun kv => kv.1 = k) = none := by
              rw [List.find?_eq_none]
              intro kv hkv
              obtain ⟨k', -, hk'⟩ := List.mem_filterMap.mp hkv
              obtain ⟨v, hv, rfl⟩ := Option.map_eq_some_iff.mp hk'
              rw [decide_eq_true_iff]
              rintro rfl
              simp [hget] at hv
            rw [List.filterMap_cons_none (by rw [hget]; rfl), hnone]
            rfl
      · have hmem : key ∈ keys := (List.mem_cons.mp hkey).resolve_left fun h => hk h.symm
        cases hget : args.get? k with
        | none => rw [List.filterMap_cons_none (by rw [hget]; rfl), ih hmem]
        | some v =>
            rw [List.filterMap_cons_some (b := (k, v)) (by rw [hget]; rfl),
              List.find?_cons_of_neg (by simpa using hk), ih hmem]

def changeKeys : List String := ["content", "category", "event_at", "valid_from", "valid_until"]

/-- The stored arguments of an update hold the changes that were asked for. -/
theorem getD_changes (args memoryId version : Json) {key : String} (hkey : key ∈ changeKeys) :
    (Json.obj ([("memory_id", memoryId), ("expected_version", version)] ++
      changeKeys.filterMap fun k => (args.get? k).map fun v => (k, v))).getD key .null =
        args.getD key .null := by
  have hfirst : key ≠ "memory_id" := by
    rintro rfl
    exact absurd hkey (by decide)
  have hsecond : key ≠ "expected_version" := by
    rintro rfl
    exact absurd hkey (by decide)
  unfold Json.getD
  refine congrArg (fun o : Option Json => o.getD .null) ?_
  rw [← find?_copied args hkey]
  change (List.find? _ (_ :: _ :: _)).map _ = _
  rw [List.find?_cons_of_neg (by simpa using hfirst.symm),
    List.find?_cons_of_neg (by simpa using hsecond.symm)]
  rfl

/-- Proposals that agree beyond the preview ask for the same update. -/
theorem updateArguments_same {accountId : Uuid} {args args' : Json} {s t t' : Session}
    {n n' : NormalizedAction} (markOutdated : Bool)
    (h : normalizeMemory out accountId .memoryUpdate args s = (.ok n, t))
    (h' : normalizeMemory out accountId .memoryUpdate args' s = (.ok n', t'))
    (hsame : SameBeyondPreview out .memoryUpdate args args') :
    updateArguments out n.arguments markOutdated = updateArguments out n'.arguments markOutdated := by
  obtain ⟨htarget, hcontent, hcategory, hdates⟩ := hsame
  obtain ⟨item, -, -, harguments, harguments'⟩ := memory_item h h' htarget
  rw [if_pos rfl] at harguments harguments'
  have heventAt := hdates "event_at" (by decide)
  have hvalidFrom := hdates "valid_from" (by decide)
  have hvalidUntil := hdates "valid_until" (by decide)
  unfold dateOf at heventAt hvalidFrom hvalidUntil
  have hmake : ∀ version, MemoryUpdate.make out.toRuntime version (n.arguments.getD "content" .null)
      (n.arguments.getD "category" .null) (n.arguments.getD "event_at" .null)
      (n.arguments.getD "valid_from" .null) (n.arguments.getD "valid_until" .null) markOutdated =
      MemoryUpdate.make out.toRuntime version (n'.arguments.getD "content" .null)
      (n'.arguments.getD "category" .null) (n'.arguments.getD "event_at" .null)
      (n'.arguments.getD "valid_from" .null) (n'.arguments.getD "valid_until" .null) markOutdated := by
    intro version
    have hget : ∀ key ∈ changeKeys, n.arguments.getD key .null = args.getD key .null ∧
        n'.arguments.getD key .null = args'.getD key .null := by
      intro key hkey
      rw [harguments, harguments']
      exact ⟨getD_changes _ _ _ hkey, getD_changes _ _ _ hkey⟩
    unfold MemoryUpdate.make
    rw [(hget "content" (by decide)).1, (hget "content" (by decide)).2,
      (hget "category" (by decide)).1, (hget "category" (by decide)).2,
      (hget "event_at" (by decide)).1, (hget "event_at" (by decide)).2,
      (hget "valid_from" (by decide)).1, (hget "valid_from" (by decide)).2,
      (hget "valid_until" (by decide)).1, (hget "valid_until" (by decide)).2,
      hcontent, hcategory, heventAt, hvalidFrom, hvalidUntil]
  have hid : argument n.arguments "memory_id" = argument n'.arguments "memory_id" := by
    rw [harguments, harguments']
    rfl
  have hversion : argument n.arguments "expected_version" = argument n'.arguments "expected_version" := by
    rw [harguments, harguments']
    rfl
  unfold updateArguments
  simp only [hid, hversion, hmake]

/-! ### One action, two proposals -/

section worlds

variable (out)

/-- A stored action with another proposal in it. -/
def carrying (n : NormalizedAction) (key : String) (a : ToolAction) : ToolAction :=
  { a with
    arguments := n.arguments
    argumentsHash := out.sha256 n.arguments.dumpsSorted
    preview := n.preview
    expectedTargetVersion := n.targetVersion
    idempotencyKey := key }

def swapped (actionId : Uuid) (n : NormalizedAction) (key : String) (a : ToolAction) : ToolAction :=
  if a.id = actionId then carrying out n key a else a

theorem swapped_id (actionId : Uuid) (n : NormalizedAction) (key : String) (a : ToolAction) :
    (swapped out actionId n key a).id = a.id := by
  unfold swapped
  split <;> rfl

/-- The actions, with another proposal in one of them. -/
def swappedActions (actionId : Uuid) (n : NormalizedAction) (key : String) (t : Table ToolAction.id) :
    Table ToolAction.id :=
  t.mapRows (swapped out actionId n key) (swapped_id out actionId n key)

/-- What the driver does not look at: the stored actions when it inserts a row, since no table
refers to them, and the proposal of an action when it updates the action, since the proposal is
not among the changed columns. -/
structure Driver : Prop where
  inserts : ∀ db t row, out.rejectsInsert { db with toolActions := t } row = out.rejectsInsert db row
  updates : ∀ a n key, out.rejectsUpdate (.toolAction (carrying out n key a)) =
    out.rejectsUpdate (.toolAction a)

/-- Two sessions that differ in the proposal of one action only. -/
structure Worlds (actionId : Uuid) (name : String) (n n' : NormalizedAction) (key : String)
    (s s' : Session) : Prop where
  rest : s' = { s with db := { s.db with toolActions := swappedActions out actionId n' key s.db.toolActions } }
  held : ∀ a ∈ s.db.toolActions, a.id = actionId → a.name = name ∧ a.arguments = n.arguments ∧
    a.argumentsHash = out.sha256 n.arguments.dumpsSorted

end worlds

/-- A table beside that of the actions. -/
structure Besides {R : Type} {key : R → ℕ} (rel : Relation key) : Prop where
  get : ∀ db t, rel.get { db with toolActions := t } = rel.get db
  set : ∀ db t x, rel.set x { db with toolActions := t } = { rel.set x db with toolActions := t }
  actions : ∀ db x, (rel.set x db).toolActions = db.toolActions

section apart

variable {actionId : Uuid} {name : String} {n n' : NormalizedAction} {key : String}

/-- A computation that goes alike in both sessions. -/
abbrev Apart (out : Outside) (actionId : Uuid) (name : String) (n n' : NormalizedAction) (key : String)
    {α : Type} (m : Work α) : Prop := Tx.Alike (Worlds out actionId name n n' key) Eq m m

theorem gets_apart {α : Type} {f : Session → α}
    (h : ∀ s t, f { s with db := { s.db with toolActions := t } } = f s) :
    Apart out actionId name n n' key (Tx.gets f) := by
  refine Tx.Alike.gets ?_
  rintro s s' ⟨rfl, -⟩
  exact (h s _).symm

theorem newUuid_apart : Apart out actionId name n n' key (newUuid out.toRuntime) := by
  rintro s s' ⟨rfl, hheld⟩
  exact ⟨.ok rfl, rfl, hheld⟩

theorem utcNow_apart : Apart out actionId name n n' key (utcNow out.toRuntime) := by
  rintro s s' ⟨rfl, hheld⟩
  exact ⟨.ok rfl, rfl, hheld⟩

variable {R : Type} {k : R → ℕ} {rel : Relation k}

theorem Worlds.get {s s' : Session} (h : Worlds out actionId name n n' key s s') (hrel : Besides rel) :
    rel.get s'.db = rel.get s.db := by
  rw [h.rest]
  exact hrel.get _ _

/-- A table beside that of the actions is written in both sessions. -/
theorem Worlds.write {s s' : Session} (h : Worlds out actionId name n n' key s s') (hrel : Besides rel)
    (t : Table k) : Worlds out actionId name n n' key { s with db := rel.set t s.db }
      { s' with db := rel.set t s'.db } := by
  obtain ⟨rfl, hheld⟩ := h
  have hset := hrel.set s.db (swappedActions out actionId n' key s.db.toolActions) t
  have hactions := hrel.actions s.db t
  constructor
  · dsimp only
    rw [hactions]
    exact congrArg (fun db => ({ s with db := db } : Session)) hset
  · dsimp only
    rw [hactions]
    exact hheld

theorem add_apart (hdriver : Driver out) (hrel : Besides rel) (r : R) :
    Apart out actionId name n n' key (rel.add out.toRuntime r) := by
  intro s s' h
  have hinserts : out.rejectsInsert s'.db (rel.row r) = out.rejectsInsert s.db (rel.row r) := by
    rw [h.rest]
    exact hdriver.inserts _ _ _
  unfold Relation.add
  rw [hinserts, h.get hrel]
  cases out.rejectsInsert s.db (rel.row r) with
  | some c => exact ⟨.error _, h⟩
  | none =>
      cases rel.insertRow (rel.get s.db) r with
      | error e => exact ⟨.error e, h⟩
      | ok t => exact ⟨.ok rfl, h.write hrel t⟩

theorem save_apart (hrel : Besides rel) (r : R) :
    Apart out actionId name n n' key (rel.save out.toRuntime r) := by
  intro s s' h
  unfold Relation.save
  rw [h.get hrel]
  cases out.rejectsUpdate (rel.row r) with
  | some c => exact ⟨.error _, h⟩
  | none => exact ⟨.ok rfl, h.write hrel _⟩

theorem append_apart (hdriver : Driver out) {context : AuditContext} {eventType result : String}
    {targetType : Option String} {targetId : Option Uuid} {details : List (String × Json)} :
    Apart out actionId name n n' key
      (AuditService.append out.toRuntime context eventType result targetType targetId details) := by
  unfold AuditService.append
  refine Tx.Alike.bind_eq (gets_apart fun _ _ => rfl) fun previous => ?_
  refine Tx.Alike.bind_eq utcNow_apart fun now => ?_
  refine Tx.Alike.bind_eq (add_apart hdriver ?_ _) fun _ => Tx.Alike.pure rfl
  constructor <;> intros <;> rfl

theorem store_apart (old new : MemoryItem) :
    Apart out actionId name n n' key (MemoryService.store out.toRuntime old new) := by
  intro s s' h
  have hbegan : s'.began = s.began := by rw [h.rest]
  unfold MemoryService.store
  split
  · exact ⟨.ok rfl, h⟩
  · rw [hbegan]
    exact save_apart ⟨fun _ _ => rfl, fun _ _ _ => rfl, fun _ _ => rfl⟩ _ s s' h

/-- An update of a memory goes alike. -/
theorem update_apart (hdriver : Driver out) (accountId memoryId : Uuid) (request : MemoryUpdate)
    (context : AuditContext) : Apart out actionId name n n' key
      (MemoryService.update out.toRuntime accountId memoryId request context) := by
  unfold MemoryService.update MemoryService.checkUpdate MemoryService.lockItem MemoryService.versionGuard
    MemoryService.checkValidity MemoryService.finishUpdate MemoryService.recordVersion
    MemoryService.requestIndex MemoryService.refresh
  refine Tx.Alike.bind_eq ?_ fun checked => ?_
  · refine Tx.Alike.bind_eq (Tx.Alike.bind_eq (gets_apart fun _ _ => rfl) fun item =>
      Tx.Alike.require _ _) fun item => ?_
    refine Tx.Alike.bind_eq (Tx.Alike.raiseIf Iff.rfl _) fun _ => ?_
    refine Tx.Alike.bind_eq (Tx.Alike.raiseIf Iff.rfl _) fun _ => ?_
    refine Tx.Alike.bind_eq (gets_apart fun _ _ => rfl) fun content => ?_
    exact Tx.Alike.bind_eq (Tx.Alike.ofExcept _) fun content => Tx.Alike.pure rfl
  refine Tx.Alike.bind_eq (store_apart _ _) fun _ => ?_
  refine Tx.Alike.bind_eq (Tx.Alike.bind_eq (Tx.Alike.ofExcept _) fun bad =>
    Tx.Alike.raiseIf Iff.rfl _) fun _ => ?_
  refine Tx.Alike.bind_eq (store_apart _ _) fun _ => ?_
  refine Tx.Alike.bind_eq (Tx.Alike.bind_eq newUuid_apart fun id => add_apart hdriver ?_ _) fun _ => ?_
  · constructor <;> intros <;> rfl
  refine Tx.Alike.bind_eq (Tx.Alike.bind_eq newUuid_apart fun id =>
    Tx.Alike.bind_eq (gets_apart fun _ _ => rfl) fun began => add_apart hdriver ?_ _) fun _ => ?_
  · constructor <;> intros <;> rfl
  refine Tx.Alike.bind_eq (append_apart hdriver) fun _ => ?_
  exact Tx.Alike.bind_eq (gets_apart fun _ _ => rfl) fun row => Tx.Alike.require _ _

/-- The action that holds the first proposal, and the same action with the second one. -/
def Twins (out : Outside) (actionId : Uuid) (name : String) (n n' : NormalizedAction) (key : String)
    (a a' : ToolAction) : Prop :=
  a' = carrying out n' key a ∧ a.id = actionId ∧ a.name = name ∧ a.arguments = n.arguments ∧
    a.argumentsHash = out.sha256 n.arguments.dumpsSorted

/-- The action is found in both sessions, or in neither. -/
theorem Worlds.find? {s s' : Session} (h : Worlds out actionId name n n' key s s') :
    Option.Rel (Twins out actionId name n n' key) (s.db.toolActions.find? actionId)
      (s'.db.toolActions.find? actionId) := by
  have hfind : s'.db.toolActions.find? actionId =
      (s.db.toolActions.find? actionId).map (swapped out actionId n' key) := by
    rw [h.rest]
    exact Table.find?_mapRows _ _ (swapped_id out actionId n' key) _
  rw [hfind]
  cases ha : s.db.toolActions.find? actionId with
  | none => exact .none
  | some a =>
      have hid : a.id = actionId := Table.key_of_find? ha
      obtain ⟨hname, harguments, hhash⟩ := h.held a (Table.mem_of_find? ha) hid
      refine .some ⟨?_, hid, hname, harguments, hhash⟩
      exact if_pos hid

/-- An update of the action that leaves its proposal alone. -/
theorem updateAction_apart (hdriver : Driver out) {f : ToolAction → ToolAction}
    (hcarrying : ∀ a, f (carrying out n' key a) = carrying out n' key (f a))
    (hid : ∀ a, (f a).id = a.id)
    (hheld : ∀ a, (f a).name = a.name ∧ (f a).arguments = a.arguments ∧
      (f a).argumentsHash = a.argumentsHash) :
    Tx.Alike (Worlds out actionId name n n' key) (Twins out actionId name n n' key)
      (updateAction out actionId f) (updateAction out actionId f) := by
  unfold updateAction
  refine Tx.Alike.bind (Tx.Alike.gets fun s s' h => h.find?) fun row row' hrow => ?_
  refine Tx.Alike.bind (Tx.Alike.orRaise hrow _) fun a a' htwins => ?_
  obtain ⟨rfl, rfl, hname, harguments, hhash⟩ := htwins
  have hf : ({ f (carrying out n' key a) with id := (carrying out n' key a).id } : ToolAction) =
      carrying out n' key { f a with id := a.id } := by
    rw [hcarrying]
    rfl
  obtain ⟨hname', harguments', hhash'⟩ := hheld a
  refine Tx.Alike.bind (Q := fun _ _ => True) ?_ fun _ _ _ => Tx.Alike.pure ?_
  · intro s s' h
    rw [hf]
    unfold Relation.save
    have hupdates := hdriver.updates { f a with id := a.id } n' key
    simp only [Db.toolAction]
    rw [hupdates]
    cases out.rejectsUpdate (.toolAction { f a with id := a.id }) with
    | some c => exact ⟨.error _, h⟩
    | none =>
        refine ⟨.ok trivial, ?_, ?_⟩
        · rw [h.rest]
          unfold swappedActions
          rw [Table.mapRows_put]
          have hswap : swapped out a.id n' key { f a with id := a.id } =
              carrying out n' key { f a with id := a.id } := if_pos rfl
          rw [hswap]
        · intro x hx hxid
          rcases Table.mem_put_iff.mp hx with ⟨hx, -⟩ | ⟨rfl, -⟩
          · exact h.held x hx hxid
          · exact ⟨hname'.trans hname, harguments'.trans harguments, hhash'.trans hhash⟩
  · exact ⟨hcarrying a, hid a, hname'.trans hname, harguments'.trans harguments, hhash'.trans hhash⟩

theorem completeRun_apart (a : ToolAction) :
    Tx.Alike (Worlds out actionId name n n' key) Eq (completeRun out a)
      (completeRun out (carrying out n' key a)) := by
  unfold completeRun
  refine Tx.Alike.bind_eq (gets_apart fun _ _ => rfl) fun row => ?_
  cases row with
  | none => exact Tx.Alike.pure rfl
  | some run =>
      refine Tx.Alike.bind (Q := fun xs ys => ys = xs.map (swapped out actionId n' key)) ?_
        fun xs ys hxs => ?_
      · refine Tx.Alike.gets fun s s' h => ?_
        rw [h.rest]
        unfold Table.select
        change List.filter _ (List.map _ _) = _
        rw [List.filter_map]
        refine congrArg (List.map _) (List.filter_congr fun x _ => ?_)
        unfold swapped
        simp only [Function.comp]
        split <;> rfl
      · rw [hxs, if_congr List.map_eq_nil_iff rfl rfl]
        split
        · exact save_apart ⟨fun _ _ => rfl, fun _ _ _ => rfl, fun _ _ => rfl⟩ _
        · exact Tx.Alike.pure rfl

/-- The execution of the two proposals goes alike. -/
def ExecuteAlike (out : Outside) (actionId : Uuid) (name : String) (n n' : NormalizedAction)
    (key : String) (accountId : Uuid) (context : AuditContext) : Prop :=
  Tx.Alike (Worlds out actionId name n n' key) Eq (dispatch out accountId name n.arguments context)
    (dispatch out accountId name n'.arguments context)

theorem executeStateAction_apart {accountId : Uuid} {context : AuditContext} {a a' : ToolAction}
    (hexecute : ExecuteAlike out actionId name n n' key accountId context)
    (htwins : Twins out actionId name n n' key a a') :
    Tx.Alike (Worlds out actionId name n n' key) Eq (executeStateAction out accountId a context)
      (executeStateAction out accountId a' context) := by
  obtain ⟨rfl, -, hname, harguments, hhash⟩ := htwins
  unfold executeStateAction
  refine Tx.Alike.bind_eq ?_ fun _ => ?_
  · refine Tx.Alike.raiseIf (iff_of_false ?_ ?_) _
    · rw [harguments, hhash]
      exact fun h => h rfl
    · exact fun h => h rfl
  · rw [hname, harguments]
    have hname' : (carrying out n' key a).name = name := hname
    rw [hname']
    exact hexecute

theorem executeConfirmed_apart (hdriver : Driver out) {accountId : Uuid} {context : AuditContext}
    {a a' : ToolAction} (hexecute : ExecuteAlike out actionId name n n' key accountId context)
    (htwins : Twins out actionId name n n' key a a') :
    Tx.Alike (Worlds out actionId name n n' key) (Twins out actionId name n n' key)
      (executeConfirmed out accountId a context) (executeConfirmed out accountId a' context) := by
  have hid : a.id = actionId := htwins.2.1
  have hid' : a'.id = actionId := by rw [htwins.1, ← hid]; rfl
  unfold executeConfirmed
  refine Tx.Alike.bind_eq (executeStateAction_apart hexecute htwins) fun result => ?_
  refine Tx.Alike.bind_eq utcNow_apart fun now => ?_
  rw [hid, hid']
  refine Tx.Alike.bind (updateAction_apart hdriver (fun _ => rfl) (fun _ => rfl)
    fun _ => ⟨rfl, rfl, rfl⟩) fun b b' hb => ?_
  obtain ⟨rfl, hb⟩ := hb
  refine Tx.Alike.bind_eq (completeRun_apart b) fun _ => ?_
  exact Tx.Alike.bind_eq (append_apart hdriver) fun _ => Tx.Alike.pure ⟨rfl, hb⟩

theorem failAction_apart (hdriver : Driver out) (context : AuditContext) (e : Exc) :
    Apart out actionId name n n' key (failAction out actionId context e) := by
  unfold failAction
  refine Tx.Alike.bind (updateAction_apart hdriver (fun _ => rfl) (fun _ => rfl)
    fun _ => ⟨rfl, rfl, rfl⟩) fun b b' hb => ?_
  obtain ⟨rfl, hb⟩ := hb
  exact Tx.Alike.bind_eq (append_apart hdriver) fun _ => Tx.Alike.pure rfl

theorem runAction_apart (hdriver : Driver out) {accountId : Uuid} {context : AuditContext}
    {a a' : ToolAction} (hexecute : ExecuteAlike out actionId name n n' key accountId context)
    (htwins : Twins out actionId name n n' key a a') :
    Tx.Alike (Worlds out actionId name n n' key) (Twins out actionId name n n' key)
      (runAction out accountId a context) (runAction out accountId a' context) := by
  have hid : a.id = actionId := htwins.2.1
  have hid' : a'.id = actionId := by rw [htwins.1, ← hid]; rfl
  unfold runAction
  refine Tx.Alike.bind_eq utcNow_apart fun confirmedAt => ?_
  rw [hid, hid']
  refine Tx.Alike.bind (updateAction_apart hdriver (fun _ => rfl) (fun _ => rfl)
    fun _ => ⟨rfl, rfl, rfl⟩) fun b b' hb => ?_
  refine Tx.Alike.handle (executeConfirmed_apart hdriver hexecute hb) fun e => ?_
  have hb' : b'.id = actionId := by rw [hb.1, ← hb.2.1]; rfl
  rw [hb.2.1, hb']
  exact Tx.Alike.bind_eq (failAction_apart hdriver context e) fun _ => Tx.Alike.raise _

theorem lockAction_apart (accountId : Uuid) :
    Tx.Alike (Worlds out actionId name n n' key) (Twins out actionId name n n' key)
      (lockAction accountId actionId) (lockAction accountId actionId) := by
  unfold lockAction
  refine Tx.Alike.bind (Tx.Alike.gets (Q := Option.Rel (Twins out actionId name n n' key)) ?_)
    fun row row' hrow => Tx.Alike.orRaise hrow _
  intro s s' h
  have hruns : s'.db.orchestrationRuns = s.db.orchestrationRuns := by rw [h.rest]
  have hfind := h.find?
  unfold action?
  rw [hruns]
  generalize s.db.toolActions.find? actionId = o, s'.db.toolActions.find? actionId = o' at hfind ⊢
  cases hfind with
  | none => exact .none
  | some htwins =>
      rename_i a a'
      obtain ⟨rfl, hheld⟩ := htwins
      have hrun : (carrying out n' key a).runId = a.runId := rfl
      rw [Option.filter_some, Option.filter_some, hrun]
      split
      · exact .some ⟨rfl, hheld⟩
      · exact .none

theorem confirmAction_apart (hdriver : Driver out) {accountId : Uuid} (expectedActionVersion : ℤ)
    {context : AuditContext} (hexecute : ExecuteAlike out actionId name n n' key accountId context) :
    Tx.Alike (Worlds out actionId name n n' key) (Twins out actionId name n n' key)
      (confirmAction out accountId actionId expectedActionVersion context)
      (confirmAction out accountId actionId expectedActionVersion context) := by
  unfold confirmAction
  refine Tx.Alike.bind (lockAction_apart accountId) fun a a' htwins => ?_
  have hid : a.id = actionId := htwins.2.1
  obtain ⟨rfl, hheld⟩ := htwins
  have hstate : (carrying out n' key a).state = a.state := rfl
  rw [hstate]
  split
  · exact Tx.Alike.pure ⟨rfl, hheld⟩
  refine Tx.Alike.bind_eq (Tx.Alike.raiseIf Iff.rfl _) fun _ => ?_
  refine Tx.Alike.bind_eq (Tx.Alike.raiseIf Iff.rfl _) fun _ => ?_
  refine Tx.Alike.bind_eq utcNow_apart fun now => ?_
  have hexpired : expired (carrying out n' key a) now = expired a now := rfl
  rw [hexpired]
  split
  · have hid' : (carrying out n' key a).id = actionId := hid
    unfold expireAction
    rw [hid, hid']
    exact Tx.Alike.bind (updateAction_apart hdriver (fun _ => rfl) (fun _ => rfl)
      fun _ => ⟨rfl, rfl, rfl⟩) fun _ _ _ => Tx.Alike.raise _
  · exact runAction_apart hdriver hexecute ⟨rfl, hheld⟩

end apart

/-! ### What a confirmation does -/

/-- A memory, without its identifier and its history. -/
def memoryEffect (m : MemoryItem) := (m.content, m.category, m.eventAt, m.validFrom, m.validUntil, m.state)

/-- A conversation up to its identifier and its times. -/
def conversationEffect (c : Conversation) : Conversation :=
  { c with
    id := 0
    startedAt := .utc 0
    endedAt := c.endedAt.map fun _ => .utc 0
    lastActivityAt := .utc 0
    deletedAt := c.deletedAt.map fun _ => .utc 0
    purgeAfter := c.purgeAfter.map fun _ => .utc 0 }

/-- The memories and the conversations, up to fresh identifiers and times. -/
def effects (db : Db) := (db.memoryItems.rows.map memoryEffect, db.conversations.rows.map conversationEffect)

section proposing

variable (out) (a : ToolAction) (index : ℕ) (name : ToolName) (n : NormalizedAction)

/-- A stored action with a proposal of its own. -/
def holding : ToolAction := carrying out n (actionKey out a.runId index name n) { a with name := name.text }

/-- The session in which an action is stored with a proposal. -/
def proposing (s : Session) : Session :=
  { s with db := { s.db with toolActions := s.db.toolActions.put (holding out a index name n) } }

end proposing

theorem proposing_worlds (s : Session) (a : ToolAction) (index : ℕ) (name : ToolName)
    (n n' : NormalizedAction) : Worlds out a.id name.text n n' (actionKey out a.runId index name n')
      (proposing out a index name n s) (proposing out a index name n' s) := by
  constructor
  · unfold proposing
    refine congrArg (fun t => ({ s with db := { s.db with toolActions := t } } : Session)) ?_
    unfold swappedActions
    apply Table.ext
    rw [Table.rows_mapRows, Table.rows_put, Table.rows_put, List.map_map]
    apply List.map_congr_left
    intro x _
    by_cases hx : x.id = a.id
    · have hover : ∀ m, Table.overwrite ToolAction.id (holding out a index name m) x =
          holding out a index name m := fun m => if_pos hx
      rw [Function.comp, hover, hover]
      exact (if_pos rfl).symm
    · have hover : ∀ m, Table.overwrite ToolAction.id (holding out a index name m) x = x :=
        fun m => if_neg hx
      rw [Function.comp, hover, hover]
      exact (if_neg hx).symm
  · intro x hx hid
    rcases Table.mem_put_iff.mp hx with ⟨-, hne⟩ | ⟨rfl, -⟩
    · exact absurd hid hne
    · exact ⟨rfl, rfl, rfl⟩

/-- The same memory is updated alike. -/
theorem executeUpdate_alike (hdriver : Driver out) {actionId accountId : Uuid} {n n' : NormalizedAction}
    {key : String} {context : AuditContext}
    (harguments : updateArguments out n.arguments false = updateArguments out n'.arguments false) :
    ExecuteAlike out actionId ToolName.memoryUpdate.text n n' key accountId context := by
  have hname : IsUpdate ToolName.memoryUpdate.text := .inl rfl
  unfold ExecuteAlike
  rw [dispatch_of_isUpdate hname, dispatch_of_isUpdate hname]
  have hmark : decide (ToolName.memoryUpdate.text = "memory_mark_outdated") = false := by decide
  rw [hmark]
  unfold executeUpdate
  rw [harguments]
  refine Tx.Alike.bind_eq (Tx.Alike.ofExcept _) fun request => ?_
  exact Tx.Alike.bind_eq (update_apart hdriver _ _ _ _) fun item => Tx.Alike.pure rfl

/-- Proposals of the same tool with the same preview either are the same, or ask for the same
update. -/
theorem same_or_update {accountId : Uuid} {c c' : ToolCallDecision} {conversation : Conversation}
    {sourceMessage : ConversationMessage} {s : Session} {n n' : NormalizedAction} (hname : c.name = c'.name)
    (hn : (normalizeAction out accountId c conversation sourceMessage s).1 = .ok n)
    (hn' : (normalizeAction out accountId c' conversation sourceMessage s).1 = .ok n')
    (hpreview : n.preview = n'.preview)
    (hsame : SameBeyondPreview out c.name (.obj c.arguments) (.obj c'.arguments)) :
    n = n' ∨ c.name = .memoryUpdate ∧
      updateArguments out n.arguments false = updateArguments out n'.arguments false := by
  have h : normalizeAction out accountId c conversation sourceMessage s = (.ok n, s) :=
    Prod.ext hn (normalizeAction_reads _ _ _ _ s).1
  have h' : normalizeAction out accountId c' conversation sourceMessage s = (.ok n', s) :=
    Prod.ext hn' (normalizeAction_reads _ _ _ _ s).1
  obtain ⟨name, arguments⟩ := c
  obtain ⟨name', arguments'⟩ := c'
  simp only at hname hsame ⊢
  subst hname
  unfold normalizeAction at h h'
  cases name with
  | memoryCreate => exact .inl (create_same h h' hpreview hsame)
  | memoryUpdate => exact .inr ⟨rfl, updateArguments_same false h h' hsame⟩
  | memoryMarkOutdated => exact .inl (memory_same (by simp) h h' hsame)
  | memoryDelete => exact .inl (memory_same (by simp) h h' hsame)
  | memoryRestore => exact .inl (memory_same (by simp) h h' hsame)
  | memoryMerge => exact .inl (merge_same h h' hpreview hsame)
  | historyContinue => exact .inl (history_same h h' hsame)
  | historyDelete => exact .inl (history_same h h' hsame)
  | historyRestore => exact .inl (history_same h h' hsame)
  | memorySearch => simp at h
  | historySearch => simp at h
  | none => simp at h

/-- **What is previewed is what is done** for proposals that agree in what the preview leaves
out: two proposals of one tool, made on the same message in the same state, that have the same
preview have the same effect when they are confirmed. -/
theorem effects_of_preview (hdriver : Driver out) {accountId : Uuid} {c c' : ToolCallDecision}
    {conversation : Conversation} {sourceMessage : ConversationMessage} {s : Session}
    {n n' : NormalizedAction} (hname : c.name = c'.name)
    (hn : (normalizeAction out accountId c conversation sourceMessage s).1 = .ok n)
    (hn' : (normalizeAction out accountId c' conversation sourceMessage s).1 = .ok n')
    (hsame : SameBeyondPreview out c.name (.obj c.arguments) (.obj c'.arguments))
    (hpreview : n.preview = n'.preview) (t : Session) (a : ToolAction) (index : ℕ)
    (expectedActionVersion : ℤ) (context : AuditContext) :
    effects (Database.session (confirmAction out accountId a.id expectedActionVersion context)
      (proposing out a index c.name n t)).2.db =
    effects (Database.session (confirmAction out accountId a.id expectedActionVersion context)
      (proposing out a index c.name n' t)).2.db := by
  rcases same_or_update hname hn hn' hpreview hsame with rfl | ⟨hupdate, harguments⟩
  · rfl
  · rw [hupdate]
    have hexecute : ExecuteAlike out a.id ToolName.memoryUpdate.text n n'
        (actionKey out a.runId index .memoryUpdate n') accountId context :=
      executeUpdate_alike hdriver harguments
    have halike := @Tx.Alike.session _ _ _ _ _ _ Exc.Durable _ Session.rollback _ _
      (confirmAction_apart hdriver expectedActionVersion hexecute) ?_
    · obtain ⟨-, hworlds⟩ := halike _ _ (proposing_worlds t a index .memoryUpdate n n')
      have hrest := congrArg (fun x : Session => effects x.db) hworlds.rest
      exact hrest.symm
    · rintro s s' t t' ⟨rfl, hs⟩ ⟨rfl, -⟩
      exact ⟨rfl, hs⟩

/-! ### Two contents, one preview -/

def movingOutside : Outside := .sample (.sample 1767268800000000 [])
  (fun _ _ => .error (.other "NotImplementedError")) (fun _ => .error .null)

theorem movingOutside_driver : Driver movingOutside := ⟨fun _ _ _ => rfl, fun _ _ _ => rfl⟩

/-- An action that awaits its confirmation. -/
def movingAction : ToolAction :=
  { id := 30, runId := 20, name := "memory_update", arguments := .null, argumentsHash := ""
    sideEffect := "state_change", confirmationRequired := true, state := .pendingConfirmation
    idempotencyKey := "", createdAt := .utc 1767268800000000 }

/-- A memory, and a run that awaits the confirmation of an action. -/
def movingSession : Session where
  began := .utc 1767268800000000
  db := { Db.sample (.singleton (.sample "Zapiš, kam se stěhuji.")) with
    memoryItems := .singleton
      { id := 10, accountId := 1, content := "Brno", category := .personalFact, state := .active
        originType := .manual, updatedAt := .utc 1735689600000000 }
    orchestrationRuns := .singleton
      { id := 20, accountId := 1, conversationId := 2, sourceMessageId := 3
        state := .awaitingConfirmation, orchestrationVersion := orchestrationVersion
        promptVersion := promptVersion }
    toolActions := .singleton movingAction }

/-- The update of the memory, with its changes. -/
def movingCall (changes : List (String × Json)) : ToolCallDecision :=
  ⟨.memoryUpdate, ("memory_id", .str "00000000-0000-0000-0000-00000000000a") :: changes⟩

/-- What the update becomes: the changes do not show in the preview. -/
def movingProposal (changes : List (String × Json)) : NormalizedAction where
  arguments := .obj ([("memory_id", .str "00000000-0000-0000-0000-00000000000a"),
    ("expected_version", .int 1)] ++ changes)
  preview := .obj [("operation", .str "memory_update"), ("target", .str "Brno"), ("state", .str "active"),
    ("impact", .str "Položka dostane novou auditovatelnou verzi.")]
  targetVersion := some 1

def toPrague : List (String × Json) := [("content", .str "Praha")]

def toOstrava : List (String × Json) := [("content", .str "Ostrava")]

/-- The move to Prague, with an argument that says nothing. -/
def toPragueSometime : List (String × Json) := [("content", .str "Praha"), ("event_at", .null)]

/-- The proposal of a call on the memory. -/
def movingOutcome (changes : List (String × Json)) : Except Exc NormalizedAction :=
  (normalizeAction movingOutside 1 (movingCall changes)
    { id := 2, accountId := 1, startedAt := .utc 1767265200000000
      lastActivityAt := .utc 1767265200000000, messageCount := 1 }
    (.sample "Zapiš, kam se stěhuji.") movingSession).1

/-- The memories after the confirmation of a proposal. -/
def movingEffects (changes : List (String × Json)) :=
  effects (Database.session
    (confirmAction movingOutside 1 movingAction.id 1 ⟨"user", some 1, none, none, none⟩)
    (proposing movingOutside movingAction 0 (movingCall toPrague).name (movingProposal changes)
      movingSession)).2.db

theorem movingEffects_toPrague : (movingEffects toPrague).1.map Prod.fst = ["Praha"] := by
  decide +kernel

theorem movingEffects_toOstrava : (movingEffects toOstrava).1.map Prod.fst = ["Ostrava"] := by
  decide +kernel

/-- What is previewed does not determine what is done: the new content of a memory is not part
of the preview. -/
theorem preview_hides : ¬∀ (out : Outside) (accountId : Uuid) (c c' : ToolCallDecision)
    (conversation : Conversation) (sourceMessage : ConversationMessage) (s : Session)
    (n n' : NormalizedAction), Driver out → c.name = c'.name →
      (normalizeAction out accountId c conversation sourceMessage s).1 = .ok n →
      (normalizeAction out accountId c' conversation sourceMessage s).1 = .ok n' →
      n.preview = n'.preview → ∀ (t : Session) (a : ToolAction) (index : ℕ)
        (expectedActionVersion : ℤ) (context : AuditContext),
      effects (Database.session (confirmAction out accountId a.id expectedActionVersion context)
        (proposing out a index c.name n t)).2.db =
      effects (Database.session (confirmAction out accountId a.id expectedActionVersion context)
        (proposing out a index c.name n' t)).2.db := by
  intro h
  have hproposal : movingOutcome toPrague = .ok (movingProposal toPrague) := rfl
  have hproposal' : movingOutcome toOstrava = .ok (movingProposal toOstrava) := rfl
  have heffects : movingEffects toPrague = movingEffects toOstrava := by
    unfold movingEffects
    exact h movingOutside 1 (movingCall toPrague) (movingCall toOstrava) _ _ movingSession
      (movingProposal toPrague) (movingProposal toOstrava) movingOutside_driver rfl hproposal hproposal' rfl
      movingSession movingAction 0 1 _
  have hcontents := movingEffects_toPrague
  rw [heffects, movingEffects_toOstrava] at hcontents
  exact absurd hcontents (by decide)

/-- The same content is stored for both ways of asking for the move. -/
theorem effects_of_preview_moving : movingEffects toPrague = movingEffects toPragueSometime := by
  have hsame : SameBeyondPreview movingOutside .memoryUpdate (.obj (movingCall toPrague).arguments)
      (.obj (movingCall toPragueSometime).arguments) := by
    refine ⟨rfl, rfl, rfl, ?_⟩
    decide
  have hproposal : movingOutcome toPrague = .ok (movingProposal toPrague) := rfl
  have hproposal' : movingOutcome toPragueSometime = .ok (movingProposal toPragueSometime) := rfl
  have hname : (movingCall toPrague).name = (movingCall toPragueSometime).name := rfl
  unfold movingOutcome at hproposal hproposal'
  unfold movingEffects
  exact effects_of_preview movingOutside_driver hname hproposal hproposal' hsame rfl movingSession
    movingAction 0 1 _

end KajovoDagmar.OrchestrationService
