import KajovoDagmar.Orchestration.Locks
import KajovoDagmar.Orchestration.Previews
import Mathlib.Data.List.Dedup

/-! # Confirmations act on what was previewed

Every target of a confirmed action is acted on in the version that its preview was made of, in
every run in which no conversation that is about to be continued and no memory that is about to
be merged is in another version or gets one between its reading and its locking.  All other
operations lock their target first and compare its version then, and nobody else changes a
locked row.  `continue_from` neither locks nor compares. -/

namespace KajovoDagmar

/-- The texts of identifiers and integers are read back. -/
structure Runtime.RoundTrips (rt : Runtime) : Prop where
  pyInt : ∀ n, rt.pyInt (.int n) = .ok n
  parseUuid : ∀ {s u}, rt.parseUuid s = some u → rt.parseUuid (rt.strUuid u) = some u

namespace Confirmations

open OrchestrationService ReadCommitted

variable {out : Outside}

/-! ### Previews -/

/-- The action was proposed on the given rows. -/
def Previewed (out : Outside) (accountId : Uuid) (a : ToolAction) (db : Db) : Prop :=
  ∃ call conversation message s s' n, s.db = db ∧ a.name = call.name.text ∧
    normalizeAction out accountId call conversation message s = (.ok n, s') ∧ a.arguments = n.arguments

def memoryNames : List String :=
  ["memory_update", "memory_mark_outdated", "memory_delete", "memory_restore"]

def historyNames : List String := ["history_continue", "history_delete", "history_restore"]

/-- The conversation that the arguments name. -/
def conversationArgument (out : Outside) (args : Json) : Except Exc Uuid :=
  (argument args "conversation_id").bind (uuidOf out)

/-- The memories that the arguments name as the sources of a merge. -/
def sourceArguments (out : Outside) (args : Json) : Except Exc (List Uuid) :=
  ((argument args "source_ids").bind iterate).bind (uuidsOf out)

/-- The rows that an action is about. -/
def targetsOf (out : Outside) (a : ToolAction) : List Target :=
  if a.name ∈ memoryNames then
    ((targetArguments out a.arguments "memory_id").toOption.map fun t => Target.memory t.1).toList
  else if a.name ∈ historyNames then
    ((conversationArgument out a.arguments).toOption.map Target.conversation).toList
  else if a.name = "memory_merge" then
    ((sourceArguments out a.arguments).toOption.getD []).map Target.memory
  else []

/-- The calls of the eight kinds, by their names. -/
theorem name_of_memory {name : ToolName} (h : name.text ∈ memoryNames) :
    name = .memoryUpdate ∨ name = .memoryMarkOutdated ∨ name = .memoryDelete ∨ name = .memoryRestore := by
  cases name <;> simp [memoryNames, ToolName.text] at h ⊢

theorem name_of_history {name : ToolName} (h : name.text ∈ historyNames) :
    name = .historyContinue ∨ name = .historyDelete ∨ name = .historyRestore := by
  cases name <;> simp [historyNames, ToolName.text] at h ⊢

theorem name_of_merge {name : ToolName} (h : name.text = "memory_merge") : name = .memoryMerge := by
  cases name <;> simp [ToolName.text] at h ⊢

theorem targetArguments_eq_ok {args : Json} {key : String} {id : Uuid} {v : ℤ}
    (h : targetArguments out args key = .ok (id, v)) :
    (argument args key).bind (uuidOf out) = .ok id ∧
      (argument args "expected_version").bind (intOf out) = .ok v := by
  obtain ⟨rawId, hrawId, h⟩ := Tx.except_bind_eq_ok.mp h
  obtain ⟨id', hid, h⟩ := Tx.except_bind_eq_ok.mp h
  obtain ⟨rawVersion, hrawVersion, h⟩ := Tx.except_bind_eq_ok.mp h
  obtain ⟨v', hv, h⟩ := Tx.except_bind_eq_ok.mp h
  obtain ⟨rfl, rfl⟩ := Prod.mk.inj (Except.ok.inj h)
  exact ⟨Tx.except_bind_eq_ok.mpr ⟨rawId, hrawId, hid⟩,
    Tx.except_bind_eq_ok.mpr ⟨rawVersion, hrawVersion, hv⟩⟩

theorem validated_eq_ok {α : Type} {o : Option α} {x : α} : validated o = .ok x ↔ o = some x := by
  cases o <;> simp [validated]

theorem make_expectedVersion {rt : Runtime} {v : ℤ} {content category eventAt validFrom validUntil : Json}
    {markOutdated : Bool} {r : MemoryUpdate}
    (h : MemoryUpdate.make rt v content category eventAt validFrom validUntil markOutdated = some r) :
    r.expectedVersion.val = v := by
  unfold MemoryUpdate.make at h
  by_cases hv : 1 ≤ v
  · simp only [dif_pos hv] at h
    obtain ⟨version, hversion, h⟩ := Option.bind_eq_some_iff.mp h
    obtain ⟨content, -, h⟩ := Option.bind_eq_some_iff.mp h
    obtain ⟨category, -, h⟩ := Option.bind_eq_some_iff.mp h
    obtain ⟨eventAt, -, h⟩ := Option.bind_eq_some_iff.mp h
    obtain ⟨validFrom, -, h⟩ := Option.bind_eq_some_iff.mp h
    obtain ⟨validUntil, -, h⟩ := Option.bind_eq_some_iff.mp h
    obtain rfl := Option.some.inj h
    obtain rfl := Option.some.inj hversion
    rfl
  · simp [dif_neg hv] at h

/-- An update names its item as the other operations do. -/
theorem updateArguments_eq_ok {args : Json} {markOutdated : Bool} {id : Uuid} {request : MemoryUpdate}
    (h : updateArguments out args markOutdated = .ok (id, request)) :
    targetArguments out args "memory_id" = .ok (id, request.expectedVersion.val) := by
  obtain ⟨rawId, hrawId, h⟩ := Tx.except_bind_eq_ok.mp h
  obtain ⟨id', hid, h⟩ := Tx.except_bind_eq_ok.mp h
  obtain ⟨rawVersion, hrawVersion, h⟩ := Tx.except_bind_eq_ok.mp h
  obtain ⟨v, hv, h⟩ := Tx.except_bind_eq_ok.mp h
  obtain ⟨request', hrequest, h⟩ := Tx.except_bind_eq_ok.mp h
  obtain ⟨rfl, rfl⟩ := Prod.mk.inj (Except.ok.inj h)
  have hversion : request'.expectedVersion.val = v := make_expectedVersion (validated_eq_ok.mp hrequest)
  rw [hversion]
  exact Tx.except_bind_eq_ok.mpr ⟨rawId, hrawId, Tx.except_bind_eq_ok.mpr ⟨id', hid,
    Tx.except_bind_eq_ok.mpr ⟨rawVersion, hrawVersion, Tx.except_bind_eq_ok.mpr ⟨v, hv, rfl⟩⟩⟩⟩

section previews

variable (hrt : out.RoundTrips) {accountId : Uuid} {a : ToolAction} {db : Db}

include hrt

/-- What the identifier and the version of a row are read back as. -/
theorem targetArguments_obj {key : String} {id : Uuid} {v : ℤ} {s : String}
    (hid : out.parseUuid s = some id) (hkey : key ≠ "expected_version") (rest : List (String × Json)) :
    targetArguments out (.obj ([(key, .str (out.strUuid id)), ("expected_version", .int v)] ++ rest)) key =
      .ok (id, v) := by
  have huuid : uuidOf out (.str (out.strUuid id)) = .ok id := by
    simp [uuidOf, hrt.parseUuid hid]
  have hint : intOf out (.int v) = .ok v := by
    simp [intOf, hrt.pyInt, Except.mapError]
  simp [targetArguments, argument, Json.get?, Json.entries, hkey, huuid, hint, bind, Except.bind,
    pure, Except.pure]

/-- The version that the arguments of an action on a memory item carry is that of the item when
the action was proposed. -/
theorem Previewed.memory (h : Previewed out accountId a db) (hname : a.name ∈ memoryNames)
    {id : Uuid} {v : ℤ} (ht : targetArguments out a.arguments "memory_id" = .ok (id, v)) :
    db.versionOf (.memory id) = some v := by
  obtain ⟨call, conversation, message, s, s', n, rfl, hcall, hn, hargs⟩ := h
  have hmemory : normalizeMemory out accountId call.name (.obj call.arguments) s = (.ok n, s') := by
    rw [hcall] at hname
    unfold normalizeAction at hn
    rcases name_of_memory hname with hc | hc | hc | hc <;> simpa only [hc] using hn
  obtain ⟨memoryId, item, hid, hitem, harguments, -⟩ := normalizeMemory_ok hmemory
  have hfind := (Option.filter_eq_some_iff.mp (Option.filter_eq_some_iff.mp hitem).1).1
  obtain rfl : item.id = memoryId := Table.key_of_find? hfind
  rw [hargs, harguments, targetArguments_obj hrt hid (by decide)] at ht
  obtain ⟨rfl, rfl⟩ := Prod.mk.inj (Except.ok.inj ht)
  rw [Db.versionOf_memory, hfind, Option.map_some]

/-- The arguments of an action on a conversation name a conversation and its version when the
action was proposed. -/
theorem Previewed.conversation (h : Previewed out accountId a db) (hname : a.name ∈ historyNames) :
    ∃ id v, targetArguments out a.arguments "conversation_id" = .ok (id, v) ∧
      db.versionOf (.conversation id) = some v := by
  obtain ⟨call, conversation, message, s, s', n, rfl, hcall, hn, hargs⟩ := h
  have hhistory : normalizeHistory out accountId call.name (.obj call.arguments) s = (.ok n, s') := by
    rw [hcall] at hname
    unfold normalizeAction at hn
    rcases name_of_history hname with hc | hc | hc <;> simpa only [hc] using hn
  unfold normalizeHistory HistoryService.detail at hhistory
  obtain ⟨conversationId, hid, h₁⟩ := Tx.orRaise_bind_eq_ok hhistory
  obtain ⟨⟨target, messages⟩, s₂, hdetail, h₂⟩ := Tx.bind_eq_ok h₁
  rw [Tx.gets_bind_apply] at hdetail
  obtain ⟨row, hrow, hmessages⟩ := Tx.orRaise_bind_eq_ok hdetail
  rw [Tx.gets_bind_apply] at hmessages
  obtain ⟨rfl, -⟩ := Prod.mk.inj (Except.ok.inj (Prod.mk.inj hmessages).1)
  obtain ⟨expected, -, h₃⟩ := Tx.orRaise_bind_eq_ok h₂
  obtain ⟨-, h₄⟩ := Tx.raiseIf_bind_eq_ok h₃
  obtain rfl := Except.ok.inj (Prod.mk.inj h₄).1
  have hfind := (Option.filter_eq_some_iff.mp (Option.filter_eq_some_iff.mp hrow).1).1
  obtain rfl : row.id = conversationId := Table.key_of_find? hfind
  refine ⟨row.id, row.version, ?_, ?_⟩
  · rw [hargs]
    exact targetArguments_obj hrt hid (by decide) []
  · rw [Db.versionOf_conversation, hfind, Option.map_some]

/-- The texts of identifiers that were read are read back. -/
theorem uuidsOf_map {values : List Json} {ids : List Uuid} (h : parseUuids out values = some ids) :
    uuidsOf out (ids.map fun id => .str (out.strUuid id)) = .ok ids := by
  induction values generalizing ids with
  | nil =>
      obtain rfl := Option.some.inj h
      rfl
  | cons value values ih =>
      obtain ⟨id, hid, h⟩ := Option.bind_eq_some_iff.mp h
      obtain ⟨rest, hrest, rfl⟩ := Option.map_eq_some_iff.mp h
      rw [List.map_cons]
      refine Tx.except_bind_eq_ok.mpr ⟨id, ?_, Tx.except_bind_eq_ok.mpr ⟨rest, ih hrest, rfl⟩⟩
      simp [uuidOf, hrt.parseUuid hid]

omit hrt in
theorem exists_text_of_mem {values : List Json} {ids : List Uuid} (h : parseUuids out values = some ids)
    {id : Uuid} (hid : id ∈ ids) : ∃ s, out.parseUuid s = some id := by
  induction values generalizing ids with
  | nil =>
      obtain rfl := Option.some.inj h
      simp at hid
  | cons value values ih =>
      obtain ⟨first, hfirst, h⟩ := Option.bind_eq_some_iff.mp h
      obtain ⟨rest, hrest, rfl⟩ := Option.map_eq_some_iff.mp h
      rcases List.mem_cons.mp hid with rfl | hid
      · exact ⟨_, hfirst⟩
      · exact ih hrest hid

omit hrt in
/-- As many distinct elements as a list has are all of its elements. -/
theorem subset_of_dedup_length {l k : List ℕ} (hl : l.Nodup) (hsub : l ⊆ k)
    (hlength : l.length = k.dedup.length) : k ⊆ l := by
  have hperm : List.Perm l k.dedup := by
    refine (List.subperm_of_subset hl fun x hx => ?_).perm_of_length_le hlength.ge
    exact List.mem_dedup.mpr (hsub hx)
  intro x hx
  exact hperm.mem_iff.mpr (List.mem_dedup.mpr hx)

/-- The arguments of a merge name its sources, and the versions that these had when the merge
was proposed. -/
theorem Previewed.merge (h : Previewed out accountId a db) (hname : a.name = "memory_merge") :
    ∃ (sourceIds : List Uuid) (rows : List MemoryItem),
      sourceArguments out a.arguments = .ok sourceIds ∧
      (argument a.arguments "source_versions").bind itemsOf =
        .ok (rows.map fun row => (out.strUuid row.id, .int row.version)) ∧
      (∀ row ∈ rows, uuidOf out (.str (out.strUuid row.id)) = .ok row.id ∧
        db.versionOf (.memory row.id) = some row.version) ∧
      ∀ id ∈ sourceIds, ∃ row ∈ rows, row.id = id := by
  obtain ⟨call, conversation, message, s, s', n, rfl, hcall, hn, hargs⟩ := h
  have hmerge : normalizeMerge out accountId (.obj call.arguments) conversation message s =
      (.ok n, s') := by
    rw [hcall] at hname
    unfold normalizeAction at hn
    simpa only [name_of_merge hname] using hn
  unfold normalizeMerge at hmerge
  obtain ⟨raw, -, h₁⟩ := Tx.orRaise_bind_eq_ok hmerge
  obtain ⟨ids, hids, h₂⟩ := Tx.orRaise_bind_eq_ok h₁
  obtain ⟨-, h₃⟩ := Tx.raiseIf_bind_eq_ok h₂
  rw [Relation.select, Tx.gets_bind_apply] at h₃
  obtain ⟨hlength, h₄⟩ := Tx.raiseIf_bind_eq_ok h₃
  obtain ⟨request, -, hn'⟩ := Tx.orRaise_bind_eq_ok h₄
  obtain rfl := Except.ok.inj (Prod.mk.inj hn').1
  obtain ⟨rows, hrows⟩ : ∃ rows, rows = s.db.memoryItems.select fun m =>
      decide (m.accountId = accountId ∧ m.id ∈ ids) := ⟨_, rfl⟩
  have hrow : ∀ row ∈ rows, row.id ∈ ids ∧ s.db.memoryItems.find? row.id = some row := by
    intro row hr
    rw [hrows, Table.select, List.mem_filter, decide_eq_true_iff] at hr
    exact ⟨hr.2.2, Table.find?_of_mem hr.1⟩
  have hnodup : (rows.map MemoryItem.id).Nodup := by
    rw [hrows]
    exact (List.Sublist.map _ List.filter_sublist).nodup s.db.memoryItems.nodup
  have hall : ids ⊆ rows.map MemoryItem.id := by
    refine subset_of_dedup_length hnodup ?_ ?_
    · intro id hid
      obtain ⟨row, hr, rfl⟩ := List.mem_map.mp hid
      exact (hrow row hr).1
    · rw [List.length_map, hrows]
      exact not_not.mp hlength
  refine ⟨ids, rows, ?_, ?_, ?_, ?_⟩
  · rw [hargs]
    exact uuidsOf_map hrt hids
  · rw [hargs, hrows]
    rfl
  · intro row hr
    obtain ⟨hid, hfind⟩ := hrow row hr
    obtain ⟨text, htext⟩ := exists_text_of_mem hids hid
    refine ⟨?_, ?_⟩
    · simp [uuidOf, hrt.parseUuid htext]
    · rw [Db.versionOf_memory, hfind, Option.map_some]
  · intro id hid
    obtain ⟨row, hr, hrid⟩ := List.mem_map.mp (hall hid)
    exact ⟨row, hr, hrid⟩

end previews

/-! ### What a confirmation knows -/

/-- The arguments of the action name the target and its version. -/
inductive Names (out : Outside) (a : ToolAction) : Target → ℤ → Prop where
  | memory {id : Uuid} {v : ℤ} (hname : a.name ∈ memoryNames)
      (h : targetArguments out a.arguments "memory_id" = .ok (id, v)) : Names out a (.memory id) v
  | conversation {id : Uuid} {v : ℤ} (hname : a.name ∈ historyNames)
      (h : targetArguments out a.arguments "conversation_id" = .ok (id, v)) :
      Names out a (.conversation id) v

/-- The action continues the conversation. -/
def Continues (out : Outside) (a : ToolAction) (id : Uuid) : Prop :=
  a.name = "history_continue" ∧ conversationArgument out a.arguments = .ok id

/-- The sources of a merge have been loaded in the versions of the arguments, but for those that
are left. -/
def Loads (out : Outside) (a : ToolAction) (todo : List (String × Json)) (loaded : List MemoryItem) :
    Prop :=
  a.name = "memory_merge" ∧
  ∃ done, (argument a.arguments "source_versions").bind itemsOf = .ok (done ++ todo) ∧
    ∀ source ∈ done, ∃ item ∈ loaded, uuidOf out (.str source.1) = .ok item.id ∧
      eqVersion out item.version source.2 = true

/-- A merge has locked sources in the versions in which they were loaded. -/
structure Merging (out : Outside) (a : ToolAction) (m : Merge) (todo : List Uuid) : Prop where
  loads : Loads out a [] m.loaded
  sourceIds : sourceArguments out a.arguments = .ok m.sourceIds
  sources : m.sources.map MemoryItem.id = m.taken.map Prod.fst
  nodup : (m.taken.map Prod.fst ++ todo).Nodup
  subset : m.taken.map Prod.fst ++ todo ⊆ m.sourceIds
  version : ∀ t ∈ m.taken, ∀ item ∈ m.loaded, item.id = t.1 → item.version = t.2

/-- An operation acts in the version of the arguments. -/
def Plan.Agrees (out : Outside) (a : ToolAction) : Plan → Prop
  | .create _ _ => a.name = "memory_create"
  | .update item _ _ | .delete item _ | .restore item => Names out a (.memory item.id) item.version
  | .merge m _ => Merging out a m []
  | .continueFrom original => Continues out a original.id ∧
    ∀ v, targetArguments out a.arguments "conversation_id" = .ok (original.id, v) → original.version = v
  | .deleteConversation row _ | .restoreConversation row =>
    Names out a (.conversation row.id) row.version

/-- What a transaction knows about its arguments. -/
def Informed (out : Outside) : Stage → Prop
  | .retention _ a => a.name = "memory_delete" ∨ a.name = "history_delete"
  | .lockMemory _ a id expected _ => Names out a (.memory id) expected
  | .checkContent _ a item _ => Names out a (.memory item.id) item.version
  | .checkCreated _ a _ => a.name = "memory_create"
  | .loadSource _ a id source todo loaded =>
    Loads out a (source :: todo) loaded ∧ uuidOf out (.str source.1) = .ok id
  | .selectSources _ a m => Merging out a m [] ∧ m.taken = []
  | .lockSource _ a m id todo => Merging out a m (id :: todo)
  | .checkMerged _ a m => Merging out a m []
  | .readOriginal _ a id => Continues out a id
  | .lockConversation _ a id expected _ => Names out a (.conversation id) expected
  | .finish _ a plan => Plan.Agrees out a plan
  | .change o todo held => ∀ k ∈ o.rows, k ∈ todo ∨ k ∈ held
  | _ => True

/-- The targets that a transaction has locked, with the versions it has seen. -/
def seen : Stage → List (Target × ℤ)
  | .checkContent _ _ item _ => [(.memory item.id, item.version)]
  | .lockSource _ _ m _ _ | .checkMerged _ _ m => m.taken.map fun t => (.memory t.1, t.2)
  | .finish _ _ (.continueFrom _) => []
  | .finish _ _ plan => plan.acted
  | _ => []

/-- No item is in another version than the one it was loaded in. -/
def Current (db : Db) (loaded : List MemoryItem) : Prop :=
  ∀ item ∈ loaded, ∀ w, db.versionOf (.memory item.id) = some w → w = item.version

/-- What a transaction relies on without a lock. -/
def Trusts (out : Outside) (db : Db) : Stage → Prop
  | .loadSource _ _ _ _ _ loaded => Current db loaded
  | .selectSources _ _ m | .lockSource _ _ m _ _ => Current db m.loaded
  | .readOriginal _ a id => ∀ v, targetArguments out a.arguments "conversation_id" = .ok (id, v) →
    ∀ w, db.versionOf (.conversation id) = some w → w = v
  | _ => True

/-- What a transaction knows at its point of the program. -/
structure Knows (out : Outside) (db : Db) (t : Stage) : Prop where
  informed : Informed out t
  locked : ∀ p ∈ seen t, db.versionOf p.1 = some p.2
  trusts : Trusts out db t

/-- A locked target is owned. -/
theorem held_of_seen {t : Stage} {p : Target × ℤ} (hp : p ∈ seen t) : .target p.1 ∈ held t := by
  cases t with
  | checkContent c a item request =>
      obtain rfl := List.mem_singleton.mp hp
      simp [held]
  | lockSource c a m id todo =>
      obtain ⟨t, ht, rfl⟩ := List.mem_map.mp hp
      exact List.mem_cons_of_mem _ (List.mem_map.mpr ⟨t, ht, rfl⟩)
  | checkMerged c a m =>
      obtain ⟨t, ht, rfl⟩ := List.mem_map.mp hp
      exact List.mem_cons_of_mem _ (List.mem_map.mpr ⟨t, ht, rfl⟩)
  | finish c a plan =>
      refine List.mem_cons_of_mem _ (List.mem_map.mpr ⟨p.1, ?_, rfl⟩)
      cases plan with
      | continueFrom original => exact absurd hp List.not_mem_nil
      | _ => exact List.mem_map.mpr ⟨p, hp, rfl⟩
  | _ => exact absurd hp List.not_mem_nil

/-! ### From one statement to the next -/

section statements

variable {c : ConfirmRequest} {a : ToolAction} {db : Db}

/-- A transaction that has nothing locked and relies on nothing. -/
theorem Knows.of_informed {t : Stage} (hseen : seen t = []) (htrusts : Trusts out db t)
    (h : Informed out t) : Knows out db t :=
  ⟨h, by rw [hseen]; exact fun p hp => absurd hp List.not_mem_nil, htrusts⟩

theorem fail_knows (e : Exc) : Knows out db (.fail c e) := .of_informed rfl trivial trivial

theorem refused_knows : Knows out db .refused := .of_informed rfl trivial trivial

theorem nextSource_knows {todo : List (String × Json)} {loaded : List MemoryItem}
    (h : Loads out a todo loaded) (hcurrent : Current db loaded) :
    Knows out db (nextSource out c a todo loaded) := by
  cases todo with
  | cons source todo =>
      simp only [nextSource]
      split
      · exact fail_knows _
      · next id hid => exact .of_informed rfl hcurrent ⟨h, hid⟩
  | nil =>
      simp only [nextSource]
      split
      · exact fail_knows _
      next sourceIds hids =>
      split
      · exact fail_knows _
      split
      · exact fail_knows _
      · refine .of_informed rfl hcurrent ⟨⟨h, hids, rfl, List.nodup_nil, List.nil_subset _, ?_⟩, rfl⟩
        exact fun t ht => absurd ht List.not_mem_nil

theorem nextLock_knows {m : Merge} {todo : List Uuid} (h : Merging out a m todo)
    (hcurrent : Current db m.loaded)
    (hlocked : ∀ t ∈ m.taken, db.versionOf (.memory t.1) = some t.2) :
    Knows out db (nextLock c a m todo) := by
  have hseen : ∀ p ∈ m.taken.map (fun t => (Target.memory t.1, t.2)), db.versionOf p.1 = some p.2 := by
    intro p hp
    obtain ⟨t, ht, rfl⟩ := List.mem_map.mp hp
    exact hlocked t ht
  cases todo with
  | nil => exact ⟨h, hseen, trivial⟩
  | cons id todo => exact ⟨h, hseen, hcurrent⟩

/-- A locked source is taken in the version in which it was loaded. -/
theorem Merging.take {m : Merge} {todo : List Uuid} {row : MemoryItem}
    (h : Merging out a m (row.id :: todo)) (hcurrent : Current db m.loaded)
    (hrow : db.memoryItems.find? row.id = some row) :
    Merging out a (takeSource c m row) todo where
  loads := h.loads
  sourceIds := h.sourceIds
  sources := by
    have hobject : (sourceObject c m row).id = row.id := by
      unfold sourceObject
      cases hfind : (m.loaded.find? fun item => item.id = row.id).filter fun _ => c.alive row.id with
      | none => rfl
      | some item =>
          have := List.find?_some (Option.filter_eq_some_iff.mp hfind).1
          simpa using this
    simp only [takeSource, List.map_append, List.map_cons, List.map_nil, h.sources, hobject]
  nodup := by
    have := h.nodup
    simpa [takeSource, List.append_assoc] using this
  subset := by
    have := h.subset
    simpa [takeSource, List.append_assoc] using this
  version := by
    intro t ht item hitem hid
    rcases List.mem_append.mp ht with ht | ht
    · exact h.version t ht item hitem hid
    · obtain rfl := List.mem_singleton.mp ht
      refine (hcurrent item hitem row.version ?_).symm
      rw [hid, Db.versionOf_memory, hrow, Option.map_some]

theorem onMemory_knows {item : MemoryItem} (op : MemoryOperation)
    (h : Names out a (.memory item.id) item.version)
    (hitem : db.versionOf (.memory item.id) = some item.version) :
    Knows out db (onMemory c a item op) := by
  have hseen : ∀ p ∈ [(Target.memory item.id, item.version)], db.versionOf p.1 = some p.2 := by
    intro p hp
    rw [List.mem_singleton.mp hp]
    exact hitem
  cases op <;> exact ⟨h, hseen, trivial⟩

theorem onConversation_knows {row : Conversation} (op : HistoryOperation)
    (h : Names out a (.conversation row.id) row.version)
    (hrow : db.versionOf (.conversation row.id) = some row.version) :
    Knows out db (onConversation c a row op) := by
  have hseen : ∀ p ∈ [(Target.conversation row.id, row.version)], db.versionOf p.1 = some p.2 := by
    intro p hp
    rw [List.mem_singleton.mp hp]
    exact hrow
  cases op <;> exact ⟨h, hseen, trivial⟩

/-- The first statement of an action knows its arguments; one that continues a conversation
relies on the version of the conversation. -/
theorem executeFirst_knows
    (h : ∀ id v, executeFirst out c a = .readOriginal c a id →
      targetArguments out a.arguments "conversation_id" = .ok (id, v) →
      ∀ w, db.versionOf (.conversation id) = some w → w = v) :
    Knows out db (executeFirst out c a) := by
  unfold executeFirst at h ⊢
  split
  · exact fail_knows _
  next hhash =>
  rw [if_neg hhash] at h
  split
  · next hname =>
    split
    · exact fail_knows _
    · exact .of_informed rfl trivial hname
  next hcreate =>
  rw [if_neg hcreate] at h
  split
  · next hname =>
    split
    · exact fail_knows _
    · next id request hargs =>
      refine .of_informed rfl trivial (.memory ?_ (updateArguments_eq_ok hargs))
      rcases hname with hname | hname <;> simp [memoryNames, hname]
  next hupdate =>
  rw [if_neg hupdate] at h
  split
  · next hname => exact .of_informed rfl trivial hname
  next hdelete =>
  rw [if_neg hdelete] at h
  split
  · next hname =>
    split
    · exact fail_knows _
    · next id expected hargs =>
      exact .of_informed rfl trivial (.memory (by simp [memoryNames, hname]) hargs)
  next hrestore =>
  rw [if_neg hrestore] at h
  split
  · next hname =>
    split
    · exact fail_knows _
    · next versions hversions =>
      refine nextSource_knows ⟨hname, [], hversions, ?_⟩ ?_
      · exact fun source hs => absurd hs List.not_mem_nil
      · exact fun item hi => absurd hi List.not_mem_nil
  next hmerge =>
  rw [if_neg hmerge] at h
  split
  · next hname =>
    rw [if_pos hname] at h
    split
    · exact fail_knows _
    · next id hid =>
      simp only [hid] at h
      exact .of_informed rfl (fun v hv => h id v rfl hv) ⟨hname, hid⟩
  next hcontinue =>
  split
  · next hname =>
    split
    · exact fail_knows _
    · next id expected hargs =>
      exact .of_informed rfl trivial (.conversation (by simp [historyNames, hname]) hargs)
  · exact fail_knows _

theorem retained_knows (h : a.name = "memory_delete" ∨ a.name = "history_delete") :
    Knows out db (retained out c a db) := by
  unfold retained
  split
  · next hname =>
    split
    · exact fail_knows _
    · next retention id expected hargs =>
      obtain ⟨_, -, hargs⟩ := Tx.except_bind_eq_ok.mp hargs
      obtain ⟨⟨id', expected'⟩, htarget, hpure⟩ := Tx.except_bind_eq_ok.mp hargs
      cases hpure
      exact .of_informed rfl trivial (.memory (by simp [memoryNames, hname]) htarget)
  · next hname =>
    split
    · exact fail_knows _
    · next retention id expected hargs =>
      obtain ⟨_, -, hargs⟩ := Tx.except_bind_eq_ok.mp hargs
      obtain ⟨⟨id', expected'⟩, htarget, hpure⟩ := Tx.except_bind_eq_ok.mp hargs
      cases hpure
      exact .of_informed rfl trivial
        (.conversation (by simp [historyNames, h.resolve_left hname]) htarget)

end statements

/-! ### Interleavings -/

/-- The targets that a transaction relies on without a lock. -/
def trusted : Stage → List Target
  | .loadSource _ _ _ _ _ loaded => loaded.map fun item => .memory item.id
  | .selectSources _ _ m | .lockSource _ _ m _ _ => m.loaded.map fun item => .memory item.id
  | .readOriginal _ _ id => [.conversation id]
  | _ => []

/-- A step that leads no confirmation to act on another version: a continuation begins only on
a conversation that is still in the version of its arguments, and no commit changes the version
of a target that another transaction relies on without a lock. -/
structure Undisturbed (out : Outside) (s : State Lockable Db Stage) (e : Event Stage) : Prop where
  begins : ∀ i c a runId id v, e = .exec i → s.txn i = some (.lockRun c runId) →
    confirmed out c s.store = .readOriginal c a id →
    targetArguments out a.arguments "conversation_id" = .ok (id, v) →
    ∀ w, s.store.versionOf (.conversation id) = some w → w = v
  commits : ∀ i t publish db, e = .exec i → s.txn i = some t → stmt out t = .commit publish →
    publish s.store = some db → ∀ j u, j ≠ i → s.txn j = some u → ∀ k ∈ trusted u,
    ∀ w, db.versionOf k = some w → s.store.versionOf k = some w

/-- A confirmation that commits an action as completed has acted on every target of the action,
in the version that the preview was made of; a target that it has locked is still in this
version. -/
def ActsOnPreviewed (out : Outside) (s : State Lockable Db Stage) (e : Event Stage) : Prop :=
  ∀ i c a plan db, e = .exec i → s.txn i = some (.finish c a plan) →
    Completes out c (planWork out c plan) s.store → Previewed out c.accountId a db →
    (∀ k ∈ targetsOf out a, ∃ v, (k, v) ∈ plan.acted) ∧
    ∀ p ∈ plan.acted, db.versionOf p.1 = some p.2 ∧
      (p.1 ∈ plan.locks → s.store.versionOf p.1 = some p.2)

section interleaving

variable {s s' : State Lockable Db Stage} {e : Event Stage}

/-- A commit leaves alone every target that the transaction does not own. -/
theorem target?_of_commit {t : Stage} {publish : Db → Option Db} {db db' : Db} {k : Target}
    {r : MemoryItem ⊕ Conversation} (hknows : Knows out db t) (hstmt : stmt out t = .commit publish)
    (hdb : publish db = some db') (hk : .target k ∉ held t) (hr : db.target? k = some r) :
    db'.target? k = some r := by
  cases t with
  | finish c a plan =>
      obtain rfl := Stmt.commit.inj hstmt
      obtain rfl := Option.some.inj hdb
      refine target?_publishWork (planWork_stays ?_) ?_ hr
      · rintro m checked rfl source hs
        have hm : Merging out a m [] := hknows.informed
        have hid : source.id ∈ m.taken.map Prod.fst := by
          rw [← hm.sources]
          exact List.mem_map.mpr ⟨source, hs, rfl⟩
        exact List.mem_map.mp hid
      · intro hlock
        exact hk (List.mem_cons_of_mem _ (List.mem_map.mpr ⟨k, hlock, rfl⟩))
  | fail c e =>
      obtain rfl := Stmt.commit.inj hstmt
      obtain rfl := Option.some.inj hdb
      exact target?_publishWork (Tx.Keeps.raise _) (@List.not_mem_nil _ k) hr
  | expire c =>
      obtain rfl := Stmt.commit.inj hstmt
      obtain rfl := Option.some.inj hdb
      exact target?_publishExpiry hr
  | refused =>
      obtain rfl := Stmt.commit.inj hstmt
      obtain rfl := Option.some.inj hdb
      exact hr
  | change o todo held =>
      cases todo with
      | cons k₀ todo => simp [stmt] at hstmt
      | nil =>
          obtain rfl := Stmt.commit.inj hstmt
          refine o.only db db' k r hdb (fun hmem => hk ?_) hr
          exact ((hknows.informed _ hmem).resolve_left List.not_mem_nil)
  | _ => simp [stmt] at hstmt

/-- What another transaction knows survives a commit. -/
theorem Knows.of_commit {t u : Stage} {publish : Db → Option Db} {db db' : Db}
    (ht : Knows out db t) (hu : Knows out db u) (hstmt : stmt out t = .commit publish)
    (hdb : publish db = some db') (hexclusive : ∀ k, Holds t k → ¬Holds u k)
    (htrusted : ∀ k ∈ trusted u, ∀ w, db'.versionOf k = some w → db.versionOf k = some w) :
    Knows out db' u where
  informed := hu.informed
  locked := by
    intro p hp
    obtain ⟨r, hr, hv⟩ := Option.map_eq_some_iff.mp (hu.locked p hp)
    have hkeep := target?_of_commit ht hstmt hdb (fun h => hexclusive _ h (held_of_seen hp)) hr
    exact Option.map_eq_some_iff.mpr ⟨r, hkeep, hv⟩
  trusts := by
    have htrusts := hu.trusts
    cases u with
    | loadSource c a id source todo loaded =>
        intro item hitem w hw
        exact htrusts item hitem w (htrusted _ (List.mem_map.mpr ⟨item, hitem, rfl⟩) w hw)
    | selectSources c a m =>
        intro item hitem w hw
        exact htrusts item hitem w (htrusted _ (List.mem_map.mpr ⟨item, hitem, rfl⟩) w hw)
    | lockSource c a m id todo =>
        intro item hitem w hw
        exact htrusts item hitem w (htrusted _ (List.mem_map.mpr ⟨item, hitem, rfl⟩) w hw)
    | readOriginal c a id =>
        intro v hv w hw
        exact htrusts v hv w (htrusted _ List.mem_cons_self w hw)
    | _ => trivial

/-- What a transaction knows after a locking statement. -/
theorem Knows.of_lock {t : Stage} {k : Lockable} {next : Db → Stage} {db : Db}
    (h : Knows out db t) (hstmt : stmt out t = .lock k next)
    (hbegins : ∀ c a runId id v, t = .lockRun c runId → confirmed out c db = .readOriginal c a id →
      targetArguments out a.arguments "conversation_id" = .ok (id, v) →
      ∀ w, db.versionOf (.conversation id) = some w → w = v) : Knows out db (next db) := by
  cases t with
  | confirm c =>
      obtain ⟨rfl, rfl⟩ := Stmt.lock.inj hstmt
      dsimp only
      split
      · exact refused_knows
      · exact .of_informed rfl trivial trivial
  | lockRun c runId =>
      obtain ⟨rfl, rfl⟩ := Stmt.lock.inj hstmt
      unfold confirmed
      split
      · exact refused_knows
      next a ha =>
      split
      · exact refused_knows
      next hopen =>
      split
      · exact .of_informed rfl trivial trivial
      next hexpired =>
      have hfirst : confirmed out c db = executeFirst out c a := by
        simp only [confirmed, ha, if_neg hopen, if_neg hexpired]
      exact executeFirst_knows fun id v hread hv =>
        hbegins c a runId id v rfl (hfirst.trans hread) hv
  | lockMemory c a id expected op =>
      obtain ⟨rfl, rfl⟩ := Stmt.lock.inj hstmt
      dsimp only
      split
      · exact fail_knows _
      next item hitem =>
      split
      · exact fail_knows _
      next u hguard =>
      have hversion : item.version = expected := by
        by_contra hne
        simp [MemoryService.versionGuard, hne] at hguard
      have hnames : Names out a (.memory id) expected := h.informed
      obtain rfl := id_of_item? hitem
      subst hversion
      refine onMemory_knows op hnames ?_
      rw [Db.versionOf_memory, (Option.filter_eq_some_iff.mp hitem).1, Option.map_some]
  | lockSource c a m id todo =>
      obtain ⟨rfl, rfl⟩ := Stmt.lock.inj hstmt
      have hmerging : Merging out a m (id :: todo) := h.informed
      have hlocked : ∀ t ∈ m.taken, db.versionOf (.memory t.1) = some t.2 := fun t ht =>
        h.locked (.memory t.1, t.2) (List.mem_map.mpr ⟨t, ht, rfl⟩)
      dsimp only
      split
      · refine nextLock_knows { hmerging with nodup := ?_, subset := ?_ } h.trusts hlocked
        · exact hmerging.nodup.sublist (List.Sublist.append (List.Sublist.refl _)
            (List.sublist_cons_self _ _))
        · intro x hx
          rcases List.mem_append.mp hx with hx | hx
          · exact hmerging.subset (List.mem_append.mpr (.inl hx))
          · exact hmerging.subset (List.mem_append.mpr (.inr (List.mem_cons_of_mem _ hx)))
      · next row hrow =>
        obtain rfl := id_of_item? hrow
        have hfind := (Option.filter_eq_some_iff.mp hrow).1
        refine nextLock_knows (hmerging.take h.trusts hfind) h.trusts fun t ht => ?_
        rcases List.mem_append.mp ht with ht | ht
        · exact hlocked t ht
        · obtain rfl := List.mem_singleton.mp ht
          rw [Db.versionOf_memory, hfind, Option.map_some]
  | lockConversation c a id expected op =>
      obtain ⟨rfl, rfl⟩ := Stmt.lock.inj hstmt
      dsimp only
      split
      · exact fail_knows _
      next row hrow =>
      split
      · exact fail_knows _
      next hversion =>
      have hnames : Names out a (.conversation id) expected := h.informed
      obtain rfl := id_of_conversation? hrow
      obtain rfl := not_not.mp hversion
      refine onConversation_knows op hnames ?_
      rw [Db.versionOf_conversation, (Option.filter_eq_some_iff.mp hrow).1, Option.map_some]
  | change o todo held =>
      cases todo with
      | nil => simp [stmt] at hstmt
      | cons k₀ todo =>
          obtain ⟨rfl, rfl⟩ := Stmt.lock.inj hstmt
          refine .of_informed rfl trivial fun k hk => ?_
          rcases h.informed k hk with hk | hk
          · rcases List.mem_cons.mp hk with rfl | hk
            · exact .inr List.mem_cons_self
            · exact .inl hk
          · exact .inr (List.mem_cons_of_mem _ hk)
  | _ => simp [stmt] at hstmt

/-- What a transaction knows after a reading statement. -/
theorem Knows.of_read {t : Stage} {next : Db → Stage} {db : Db} (h : Knows out db t)
    (hstmt : stmt out t = .read next) : Knows out db (next db) := by
  cases t with
  | retention c a =>
      obtain rfl := Stmt.read.inj hstmt
      exact retained_knows h.informed
  | checkContent c a item request =>
      obtain rfl := Stmt.read.inj hstmt
      exact ⟨h.informed, h.locked, trivial⟩
  | checkCreated c a request =>
      obtain rfl := Stmt.read.inj hstmt
      exact .of_informed rfl trivial h.informed
  | loadSource c a id source todo loaded =>
      obtain rfl := Stmt.read.inj hstmt
      obtain ⟨⟨hname, done, hversions, hdone⟩, hid⟩ := h.informed
      dsimp only
      split
      · exact fail_knows _
      next item hitem =>
      split
      · next heq =>
        obtain rfl := id_of_item? hitem
        refine nextSource_knows ⟨hname, done ++ [source], ?_, ?_⟩ ?_
        · rw [hversions, List.append_assoc]
          rfl
        · intro source' hs
          rcases List.mem_append.mp hs with hs | hs
          · obtain ⟨item', hmem, hrest⟩ := hdone source' hs
            exact ⟨item', List.mem_append.mpr (.inl hmem), hrest⟩
          · obtain rfl := List.mem_singleton.mp hs
            exact ⟨item, List.mem_append.mpr (.inr List.mem_cons_self), hid, heq⟩
        · intro item' hi w hw
          rcases List.mem_append.mp hi with hi | hi
          · exact h.trusts item' hi w hw
          · obtain rfl := List.mem_singleton.mp hi
            rw [Db.versionOf_memory, (Option.filter_eq_some_iff.mp hitem).1, Option.map_some] at hw
            exact (Option.some.inj hw).symm
      · exact fail_knows _
  | selectSources c a m =>
      obtain rfl := Stmt.read.inj hstmt
      obtain ⟨hmerging, htaken⟩ := h.informed
      refine nextLock_knows { hmerging with nodup := ?_, subset := ?_ } h.trusts ?_
      · rw [htaken, List.map_nil, List.nil_append]
        exact (List.Sublist.map _ List.filter_sublist).nodup db.memoryItems.nodup
      · rw [htaken, List.map_nil, List.nil_append]
        intro x hx
        obtain ⟨row, hrow, rfl⟩ := List.mem_map.mp hx
        rw [Table.select, List.mem_filter, decide_eq_true_iff] at hrow
        exact hrow.2.2
      · rw [htaken]
        exact fun t ht => absurd ht List.not_mem_nil
  | checkMerged c a m =>
      obtain rfl := Stmt.read.inj hstmt
      exact ⟨h.informed, h.locked, trivial⟩
  | readOriginal c a id =>
      obtain rfl := Stmt.read.inj hstmt
      dsimp only
      split
      · exact fail_knows _
      next original horiginal =>
      have hrow := (Option.filter_eq_some_iff.mp horiginal).1
      obtain rfl := id_of_conversation? hrow
      refine .of_informed rfl trivial ⟨h.informed, fun v hv => h.trusts v hv _ ?_⟩
      rw [Db.versionOf_conversation, (Option.filter_eq_some_iff.mp hrow).1, Option.map_some]
  | change o todo held => cases todo <;> simp [stmt] at hstmt
  | _ => simp [stmt] at hstmt

/-- Every transaction owns its rows and knows what its point of the program asserts. -/
structure Sound (out : Outside) (s : State Lockable Db Stage) : Prop where
  held : Held Holds s
  knows : Asserted (Knows out) s

theorem Sound.of_quiet (h : s.Quiet) : Sound out s := ⟨.of_quiet h, .of_quiet h⟩

/-- **Step lemma**: an undisturbed step keeps what the transactions know. -/
theorem Sound.of_step (h : Sound out s) (hu : Undisturbed out s e) (hs : step out s e = some s') :
    Sound out s' := by
  refine ⟨h.held.of_step discipline hs, h.knows.of_exec ?_ ?_ ?_ ?_ hs⟩
  · intro db t ht
    cases t with
    | confirm c => exact .of_informed rfl trivial trivial
    | change o todo held =>
        refine .of_informed rfl trivial fun k hk => .inl ?_
        simp only [initial, Bool.decide_and, Bool.and_eq_true, decide_eq_true_eq] at ht
        rwa [ht.1]
    | _ => simp [initial] at ht
  · rintro i t k next rfl ht hstmt hknows
    refine hknows.of_lock hstmt ?_
    rintro c a runId id v rfl
    exact hu.begins i c a runId id v rfl ht
  · rintro i t next rfl ht hstmt hknows
    exact hknows.of_read hstmt
  · rintro i t publish db rfl ht hstmt hdb j u hj hju hknows
    refine (h.knows i t ht).of_commit hknows hstmt hdb (fun k hik hjk => ?_) ?_
    · exact hj (h.held.unique hju ht hjk hik)
    · exact hu.commits i t publish db rfl ht hstmt hdb j u hj hju

end interleaving

/-! ### What a completed confirmation has acted on -/

section completed

variable {c : ConfirmRequest} {a : ToolAction} {plan : Plan} {db db₀ : Db}

/-- A confirmation completes when its operation returns. -/
theorem Completes.work {work : Work Json} (h : Completes out c work db) :
    ∃ x s s', work s = (.ok x, s') := by
  obtain ⟨action, s₁, h⟩ := h
  unfold concludeAction at h
  obtain ⟨confirmedAt, s₂, -, h⟩ := Tx.bind_eq_ok h
  obtain ⟨running, s₃, -, h⟩ := Tx.bind_eq_ok h
  rcases Tx.handle_cases h with ⟨a', hbody, -⟩ | ⟨e, s₄, -, hhandler⟩
  · obtain ⟨x, s₅, hwork, -⟩ := Tx.bind_eq_ok hbody
    exact ⟨x, s₃, s₅, hwork⟩
  · obtain ⟨u, s₅, -, hraise⟩ := Tx.bind_eq_ok hhandler
    simp at hraise

/-- A completed merge has taken all of its sources. -/
theorem Merging.complete {m : Merge} {checked : Except Exc PUnit} (h : Merging out a m [])
    (hc : Completes out c (planWork out c (.merge m checked)) db) :
    m.sourceIds ⊆ m.taken.map Prod.fst := by
  obtain ⟨x, s, s', hwork⟩ := hc.work
  obtain ⟨item, s₁, hmerge, -⟩ := Tx.bind_eq_ok hwork
  obtain ⟨hcheck, -⟩ := Tx.raiseIf_bind_eq_ok hmerge
  rw [not_or] at hcheck
  have hlength : m.sources.length = m.sourceIds.dedup.length := not_not.mp hcheck.1
  have hnodup := h.nodup
  have hsubset := h.subset
  rw [List.append_nil] at hnodup hsubset
  refine subset_of_dedup_length hnodup hsubset ?_
  rw [← h.sources, List.length_map, hlength]

/-- A target that an action names is the one it is about. -/
theorem Names.targetsOf {k : Target} {v : ℤ} (h : Names out a k v) : targetsOf out a = [k] := by
  cases h with
  | memory hname hargs =>
      rw [Confirmations.targetsOf, if_pos hname, hargs]
      rfl
  | @conversation id v hname hargs =>
      have hmemory : a.name ∉ memoryNames := by
        intro hm
        simp only [historyNames, memoryNames, List.mem_cons, List.not_mem_nil, or_false] at hname hm
        rcases hname with hn | hn | hn <;> simp [hn] at hm
      have hid : conversationArgument out a.arguments = .ok id := (targetArguments_eq_ok hargs).1
      rw [Confirmations.targetsOf, if_neg hmemory, if_pos hname, hid]
      rfl

/-- A completed operation has acted on every target of its action. -/
theorem Plan.Agrees.covers (h : Plan.Agrees out a plan)
    (hc : Completes out c (planWork out c plan) db) :
    ∀ k ∈ targetsOf out a, ∃ v, (k, v) ∈ plan.acted := by
  have hone : ∀ {k' : Target} {v : ℤ}, Names out a k' v → plan.acted = [(k', v)] →
      ∀ k ∈ targetsOf out a, ∃ v, (k, v) ∈ plan.acted := by
    intro k' v hnames hacted k hk
    rw [hnames.targetsOf, List.mem_singleton] at hk
    rw [hk, hacted]
    exact ⟨v, List.mem_cons_self⟩
  cases plan with
  | create request checked =>
      have hname : a.name = "memory_create" := h
      intro k hk
      simp [targetsOf, hname, memoryNames, historyNames] at hk
  | update item request checked => exact hone h rfl
  | delete item retentionDays => exact hone h rfl
  | restore item => exact hone h rfl
  | deleteConversation row retentionDays => exact hone h rfl
  | restoreConversation row => exact hone h rfl
  | continueFrom original =>
      obtain ⟨⟨hname, hid⟩, -⟩ := h
      intro k hk
      simp only [targetsOf, hname, hid, memoryNames, historyNames] at hk
      obtain rfl : k = .conversation original.id := by simpa [Except.toOption, eq_comm] using hk
      exact ⟨original.version, List.mem_cons_self⟩
  | merge m checked =>
      have hmerging : Merging out a m [] := h
      intro k hk
      simp only [targetsOf, hmerging.loads.1, hmerging.sourceIds, memoryNames, historyNames] at hk
      obtain ⟨id, hid, rfl⟩ : ∃ id ∈ m.sourceIds, Target.memory id = k := by
        simpa [Except.toOption] using hk
      obtain ⟨t, ht, rfl⟩ := List.mem_map.mp (hmerging.complete hc hid)
      exact ⟨t.2, List.mem_map.mpr ⟨t, ht, rfl⟩⟩

/-- An operation acts in the versions of the preview. -/
theorem Plan.Agrees.version (hrt : out.RoundTrips) (h : Plan.Agrees out a plan)
    (hp : Previewed out c.accountId a db₀) : ∀ p ∈ plan.acted, db₀.versionOf p.1 = some p.2 := by
  have hone : ∀ {k : Target} {v : ℤ}, Names out a k v → plan.acted = [(k, v)] →
      ∀ p ∈ plan.acted, db₀.versionOf p.1 = some p.2 := by
    intro k v hnames hacted p hmem
    rw [hacted, List.mem_singleton] at hmem
    rw [hmem]
    cases hnames with
    | memory hname hargs => exact hp.memory hrt hname hargs
    | conversation hname hargs =>
        obtain ⟨id', v', hargs', hv⟩ := hp.conversation hrt hname
        obtain ⟨rfl, rfl⟩ := Prod.mk.inj (Except.ok.inj (hargs.symm.trans hargs'))
        exact hv
  cases plan with
  | create request checked => exact fun p hmem => absurd hmem List.not_mem_nil
  | update item request checked => exact hone h rfl
  | delete item retentionDays => exact hone h rfl
  | restore item => exact hone h rfl
  | deleteConversation row retentionDays => exact hone h rfl
  | restoreConversation row => exact hone h rfl
  | continueFrom original =>
      obtain ⟨⟨hname, hid⟩, hversion⟩ := h
      intro p hmem
      rw [List.mem_singleton.mp hmem]
      obtain ⟨id', v', hargs, hv⟩ := hp.conversation hrt (by simp [historyNames, hname])
      have hid' : conversationArgument out a.arguments = .ok id' := (targetArguments_eq_ok hargs).1
      obtain rfl := Except.ok.inj (hid.symm.trans hid')
      rw [hversion v' hargs]
      exact hv
  | merge m checked =>
      have hmerging : Merging out a m [] := h
      obtain ⟨hname, done, hversions, hdone⟩ := hmerging.loads
      obtain ⟨sourceIds, rows, hids, hrows, hrow, hall⟩ := hp.merge hrt hname
      obtain rfl := Except.ok.inj (hmerging.sourceIds.symm.trans hids)
      rw [List.append_nil] at hversions
      obtain rfl := Except.ok.inj (hversions.symm.trans hrows)
      intro p hmem
      obtain ⟨t, ht, rfl⟩ := List.mem_map.mp hmem
      have hsource : t.1 ∈ m.sourceIds :=
        hmerging.subset (List.mem_append.mpr (.inl (List.mem_map.mpr ⟨t, ht, rfl⟩)))
      obtain ⟨row, hmemrow, hrowid⟩ := hall t.1 hsource
      obtain ⟨huuid, hv⟩ := hrow row hmemrow
      obtain ⟨item, hitem, hitemid, heq⟩ := hdone _ (List.mem_map.mpr ⟨row, hmemrow, rfl⟩)
      have hid : item.id = row.id := (Except.ok.inj (huuid.symm.trans hitemid)).symm
      have hloaded : item.version = row.version := by simpa [eqVersion] using heq
      have htaken := hmerging.version t ht item hitem (hid.trans hrowid)
      rw [← htaken, hloaded, ← hrowid]
      exact hv

/-- The locked targets of an operation are those whose versions it has seen. -/
theorem mem_seen_of_locks {p : Target × ℤ} (hp : p ∈ plan.acted) (hlock : p.1 ∈ plan.locks) :
    p ∈ seen (.finish c a plan) := by
  cases plan with
  | continueFrom original => exact absurd hlock List.not_mem_nil
  | _ => exact hp

/-- A completed confirmation acts on what was previewed. -/
theorem Sound.acts {s : State Lockable Db Stage} {e : Event Stage} (hrt : out.RoundTrips)
    (h : Sound out s) : ActsOnPreviewed out s e := by
  rintro i c a plan db₀ rfl ht hc hp
  have hknows := h.knows i _ ht
  have hagrees : Plan.Agrees out a plan := hknows.informed
  refine ⟨hagrees.covers hc, fun p hmem => ⟨hagrees.version hrt hp p hmem, fun hlock => ?_⟩⟩
  exact hknows.locked p (mem_seen_of_locks hmem hlock)

end completed

/-- **Confirmations act on what was previewed**: in every run whose steps are undisturbed, every
action that is committed as completed has acted on all of its targets, in the versions that
they had when the preview was made. -/
theorem acts_on_previewed (hrt : out.RoundTrips) {s : State Lockable Db Stage} (hs : s.Quiet)
    {es : List (Event Stage)} (h : Runs.Along (step out) (Undisturbed out) s es) :
    Runs.Along (step out) (ActsOnPreviewed out) s es :=
  h.of_inv (I := Sound out) (fun _ _ _ hsound hu hstep => hsound.of_step hu hstep)
    (fun _ _ hsound _ => hsound.acts hrt) (.of_quiet hs)

/-! ### A conversation that has changed -/

/-- An action that continues conversation 2, proposed when the conversation was in version 1. -/
def continuing : Outside :=
  .sample (.sample 1767265200000000 []) (fun _ _ => .error (.other "ConnectError"))
    fun _ => .error .null

theorem continuing_parseUuid : continuing.parseUuid = Runtime.parseUuidText := rfl

theorem continuing_strUuid : continuing.strUuid = Runtime.uuidText := rfl

theorem continuing_roundTrips : continuing.RoundTrips where
  pyInt _ := rfl
  parseUuid := by
    intro s u h
    rw [continuing_parseUuid] at h ⊢
    rw [continuing_strUuid]
    exact Runtime.parseUuidText_uuidText h

def continuingCall : ToolCallDecision :=
  ⟨.historyContinue, [("conversation_id", .str "00000000-0000-0000-0000-000000000002")]⟩

def continuingAction : ToolAction :=
  { id := 30, runId := 20, name := "history_continue"
    arguments := .obj [("conversation_id", .str "00000000-0000-0000-0000-000000000002"),
      ("expected_version", .int 1)]
    argumentsHash := "87933656e6590d44d6bc96fd977c003708f34bf6f86594b29f2876a2f6366947"
    sideEffect := "state_change", confirmationRequired := true, state := .pendingConfirmation
    expectedTargetVersion := some 1, idempotencyKey := "continue", createdAt := .utc 1767265200000000 }

def continuingDb : Db :=
  { Db.sample (.singleton (.sample "Pokracuj v rozhovoru o Praze.")) with
    orchestrationRuns := .singleton
      { id := 20, accountId := 1, conversationId := 2, sourceMessageId := 3
        state := .awaitingConfirmation, orchestrationVersion := "1", promptVersion := "1" }
    toolActions := .singleton continuingAction }

/-- The conversation with a new title. -/
def retitled (row : Conversation) : Conversation :=
  if row.id = 2 then { row with title := some "Praha", version := row.version + 1 } else row

theorem retitled_id (row : Conversation) : (retitled row).id = row.id := by
  unfold retitled
  split <;> rfl

def retitle (db : Db) : Db :=
  { db with conversations := db.conversations.mapRows retitled retitled_id }

/-- `update_metadata` of conversation 2. -/
def retitling : Change where
  rows := [.target (.conversation 2)]
  apply db := some (retitle db)
  only := by
    rintro db db' k r hdb hk hr
    obtain rfl := Option.some.inj hdb
    cases k with
    | memory id => exact hr
    | conversation id =>
        obtain ⟨row, hrow, rfl⟩ := Option.map_eq_some_iff.mp hr
        refine Option.map_eq_some_iff.mpr ⟨row, ?_, rfl⟩
        have hne : row.id ≠ 2 := by
          rintro h
          rw [← Table.key_of_find? hrow, h] at hk
          exact hk List.mem_cons_self
        change (db.conversations.mapRows retitled retitled_id).find? id = some row
        rw [Table.find?_mapRows, hrow, Option.map_some, retitled, if_neg hne]

def continuingRequest : ConfirmRequest :=
  { accountId := 1, actionId := 30, expectedActionVersion := 1
    context := { actorType := "administrator" }, began := .utc 1767265260000000, tick := 0
    alive := fun _ => true }

def continuingState (db : Db) : State Lockable Db Stage := ⟨db, fun _ => none, fun _ => none⟩

theorem continuingState_idle (db : Db) : Idle (continuingState db) := ⟨fun _ => rfl, fun _ => rfl⟩

/-- The call was previewed on the conversation in version 1. -/
theorem continuing_previewed : Previewed continuing 1 continuingAction continuingDb :=
  ⟨continuingCall, { id := 2, accountId := 1, startedAt := .utc 0, lastActivityAt := .utc 0 },
    .sample "Pokracuj v rozhovoru o Praze.", { db := continuingDb, began := .utc 0 }, _, _, rfl, rfl,
    rfl, rfl⟩

theorem continuing_hash : continuing.sha256 continuingAction.arguments.dumpsSorted =
    continuingAction.argumentsHash := by
  decide +kernel

/-- The conversation as it is stored. -/
def continuingConversation : Conversation :=
  { id := 2, accountId := 1, startedAt := .utc 1767265200000000
    lastActivityAt := .utc 1767265200000000, messageCount := 1 }

/-- The statements of the confirmation, on any store with the action and the conversation. -/
theorem continuing_goes {db : Db} {row : Conversation}
    (haction : action? db 1 30 = some continuingAction)
    (hrow : HistoryService.conversation? db 1 2 = some row) (hopen : row.deletedAt = none) :
    Goes (stmt continuing) db (.confirm continuingRequest) 3
      (.finish continuingRequest continuingAction (.continueFrom row)) := by
  have haction' : action? db continuingRequest.accountId continuingRequest.actionId =
      some continuingAction := haction
  have hfirst : confirmed continuing continuingRequest db =
      .readOriginal continuingRequest continuingAction 2 := by
    unfold confirmed executeFirst
    simp only [haction', if_neg (not_not.mpr continuing_hash)]
    rfl
  refine .lock rfl ?_
  simp only [haction']
  refine .lock rfl ?_
  rw [hfirst]
  refine .read rfl ?_
  have hread : (HistoryService.conversation? db continuingRequest.accountId 2).filter
      (fun row => row.deletedAt = none) = some row := by
    have hrow' : HistoryService.conversation? db continuingRequest.accountId 2 = some row := hrow
    rw [hrow', Option.filter_some, if_pos (decide_eq_true hopen)]
  simp only [hread]
  exact .refl _

/-- The confirmation completes on the stored conversation and on its new version. -/
theorem continuing_completes {row : Conversation} {db : Db}
    (h : (concludeAction continuing 30 continuingRequest.context
      (planWork continuing continuingRequest (.continueFrom row))
      (continuingRequest.session db)).1.isOk = true) :
    Completes continuing continuingRequest
      (planWork continuing continuingRequest (.continueFrom row)) db := by
  rcases hr : concludeAction continuing 30 continuingRequest.context
    (planWork continuing continuingRequest (.continueFrom row)) (continuingRequest.session db) with ⟨e | a, s⟩
  · rw [hr] at h
    simp [Except.isOk, Except.toBool] at h
  · exact ⟨a, s, hr⟩

/-- A conversation may be continued in another version than the one that was previewed. -/
theorem changed_target_continued : ¬∀ (out : Outside) (s : State Lockable Db Stage)
    (es : List (Event Stage)), out.RoundTrips → s.Quiet →
      Runs.Along (step out) (ActsOnPreviewed out) s es := by
  intro h
  obtain ⟨s₁, hrun₁, hidle₁, hstore₁⟩ : ∃ s₁, Runs.run (step continuing)
      (continuingState continuingDb) (whole 1 (.change retitling retitling.rows []) 1) = some s₁ ∧
        Idle s₁ ∧ s₁.store = retitle continuingDb :=
    (continuingState_idle continuingDb).run rfl (.lock rfl (.refl _)) rfl rfl
  have hgoes : Goes (stmt continuing) s₁.store (.confirm continuingRequest) 3
      (.finish continuingRequest continuingAction (.continueFrom (retitled continuingConversation))) := by
    rw [hstore₁]
    exact continuing_goes rfl rfl rfl
  obtain ⟨s₂, hrun₂, halone₂, hstore₂⟩ : ∃ s₂, Runs.run (step continuing)
      (s₁.goOn 2 (.confirm continuingRequest)) (List.replicate 3 (.exec 2)) = some s₂ ∧
        Alone s₂ 2 (.finish continuingRequest continuingAction
          (.continueFrom (retitled continuingConversation))) ∧ s₂.store = s₁.store :=
    (hidle₁.alone 2 (.confirm continuingRequest)).run hgoes
  have hrun : Runs.run (step continuing) (continuingState continuingDb)
      (whole 1 (.change retitling retitling.rows []) 1 ++
        (.start 2 (.confirm continuingRequest) :: List.replicate 3 (.exec 2))) = some s₂ :=
    Runs.run_append_eq_some.mpr ⟨s₁, hrun₁, Runs.run_cons_eq_some.mpr ⟨_, hidle₁.start rfl, hrun₂⟩⟩
  have hlast := (h continuing (continuingState continuingDb)
    (whole 1 (.change retitling retitling.rows []) 1 ++
      (.start 2 (.confirm continuingRequest) :: List.replicate 3 (.exec 2)) ++ [.exec 2])
    continuing_roundTrips (continuingState_idle continuingDb).quiet).append.2 s₂ hrun
  have hstore : s₂.store = retitle continuingDb := by
    rw [hstore₂]
    exact hstore₁
  have hcompletes : Completes continuing continuingRequest (planWork continuing continuingRequest
      (.continueFrom (retitled continuingConversation))) s₂.store := by
    rw [hstore]
    exact continuing_completes (by decide +kernel)
  have hacted := (hlast.1 2 _ _ _ continuingDb rfl halone₂.at_ hcompletes continuing_previewed).2
    (.conversation 2, 2) List.mem_cons_self
  simp [continuingDb, Db.sample, Table.find?, Table.singleton] at hacted

theorem undisturbed_ended {s : State Lockable Db Stage} {i : ℕ} (h : s.txn i = none) (n : ℕ) :
    Runs.Along (step out) (Undisturbed out) s (List.replicate n (.exec i)) := by
  cases n with
  | zero => trivial
  | succ n =>
      refine ⟨⟨?_, ?_⟩, fun s' hs => ?_⟩
      · rintro _ c a runId id v he ht
        obtain rfl := Event.exec.inj he
        simp [h] at ht
      · rintro _ t publish db he ht
        obtain rfl := Event.exec.inj he
        simp [h] at ht
      · simp [ReadCommitted.step, h] at hs

/-- A transaction that is alone is undisturbed when no continuation begins on a conversation in
another version. -/
theorem undisturbed_alone {s : State Lockable Db Stage} {i : ℕ} {t : Stage} (h : Alone s i t)
    (hbegins : ∀ c a id v, confirmed out c s.store = .readOriginal c a id →
      targetArguments out a.arguments "conversation_id" = .ok (id, v) →
      ∀ w, s.store.versionOf (.conversation id) = some w → w = v) (n : ℕ) :
    Runs.Along (step out) (Undisturbed out) s (List.replicate n (.exec i)) := by
  induction n generalizing s t with
  | zero => trivial
  | succ n ih =>
      have hundisturbed : Undisturbed out s (.exec i) := by
        refine ⟨fun _ c a _ id v _ _ => hbegins c a id v, ?_⟩
        rintro _ _ _ _ he - - - j u hj hju
        obtain rfl := Event.exec.inj he
        rw [h.others j hj] at hju
        simp at hju
      refine ⟨hundisturbed, fun s' hs => ?_⟩
      cases moves_of_step hs with
      | lock ht hstmt hk => exact ih (h.acquire _ _) hbegins
      | read ht hstmt => exact ih (h.goOn _) hbegins
      | commit ht hstmt hstore => exact undisturbed_ended (h.release.quiet i) n
      | rollback ht hstmt hstore => exact undisturbed_ended (h.release.quiet i) n

/-- A confirmation that reads an original conversation has loaded the action. -/
theorem action_of_readOriginal {c : ConfirmRequest} {a : ToolAction} {db : Db} {id : Uuid}
    (h : confirmed out c db = .readOriginal c a id) :
    action? db c.accountId c.actionId = some a ∧
      conversationArgument out a.arguments = .ok id := by
  unfold confirmed at h
  split at h
  · simp at h
  next b hb =>
  split at h
  · simp at h
  split at h
  · simp at h
  unfold executeFirst at h
  split at h
  · simp at h
  split at h
  · split at h <;> simp at h
  split at h
  · split at h <;> simp at h
  split at h
  · simp at h
  split at h
  · split at h <;> simp at h
  split at h
  · split at h
    · simp at h
    · next versions _ =>
      cases versions <;> simp only [nextSource] at h
      · split at h
        · simp at h
        split at h
        · simp at h
        split at h <;> simp at h
      · split at h <;> simp at h
  split at h
  · split at h
    · simp at h
    · next id' hid =>
      obtain ⟨-, rfl, rfl⟩ := Stage.readOriginal.inj h
      exact ⟨hb, hid⟩
  split at h
  · split at h <;> simp at h
  · simp at h

/-- The continuation of the unchanged conversation. -/
theorem acts_on_previewed_continuing : Runs.Along (step continuing) (ActsOnPreviewed continuing)
    (continuingState continuingDb) (whole 1 (.confirm continuingRequest) 3) := by
  refine acts_on_previewed continuing_roundTrips (fun _ => rfl) ⟨⟨?_, ?_⟩, fun s' hs => ?_⟩
  · rintro i c a runId id v he
    simp at he
  · rintro i t publish db he
    simp at he
  · obtain rfl := Option.some.inj (((continuingState_idle continuingDb).start rfl).symm.trans hs)
    rw [← List.replicate_succ']
    refine undisturbed_alone ((continuingState_idle continuingDb).alone 1 _) ?_ 4
    intro c a id v hread hv w hw
    obtain ⟨ha, hid⟩ := action_of_readOriginal hread
    have hmem : a ∈ continuingDb.toolActions := Table.mem_of_find? (Option.filter_eq_some_iff.mp ha).1
    obtain rfl : a = continuingAction := List.mem_singleton.mp hmem
    have hargs : targetArguments continuing continuingAction.arguments "conversation_id" = .ok (2, 1) := rfl
    obtain ⟨rfl, rfl⟩ := Prod.mk.inj (Except.ok.inj (hargs.symm.trans hv))
    have hversion : continuingDb.versionOf (.conversation 2) = some 1 := by
      simp [continuingDb, Db.sample, Table.find?, Table.singleton]
    exact Option.some.inj (hw.symm.trans hversion)

end Confirmations

end KajovoDagmar
