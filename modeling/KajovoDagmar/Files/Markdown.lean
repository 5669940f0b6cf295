import KajovoDagmar.Db.Sample
import KajovoDagmar.Library.JsonReads
import KajovoDagmar.Library.Markdown

/-! # Exports in Markdown

The items that `_payload` collects, and the text that `_markdown` makes of them: a heading with the free text of
the item, and the item as JSON in a fenced code block.  The blocks cannot be forged or broken from inside: a line of
the JSON never begins with a character of a fence.  The heading is put in as it is, with its line breaks.

If no line of a heading begins an HTML block, a quotation or a list, the text is read back exactly if every heading
is quiet, that is, leaves a reader of Markdown in the text and closes no block of its own in which JSON is announced
(`readsBack_iff`).  A heading without a line break is of this kind (`readsBack_of_line`). -/

namespace KajovoDagmar

def TextSource.text : TextSource → String
  | automatic => "automatic"
  | manual => "manual"
  | system => "system"

namespace ExportService

/-! ### The rows and their items -/

/-- A conversation with its messages and the times at which these were created. -/
structure HistoryRow where
  conversation : Conversation
  messages : List (ConversationMessage × DateTime)

/-- A memory item with its sources and with its versions and the times of their changes. -/
structure MemoryRow where
  memory : MemoryItem
  versions : List (MemoryVersion × DateTime)
  sources : List MemorySource

/-- A setting with the version of its schema. -/
structure SettingRow where
  setting : ApplicationSetting
  schemaVersion : ℤ

/-- The rows that are loaded for an export. -/
inductive Loaded where
  | history (rows : List HistoryRow)
  | memory (rows : List MemoryRow)
  | audit (rows : List AuditEvent)
  | configuration (rows : List SettingRow)

def Loaded.kind : Loaded → String
  | history _ => "history"
  | memory _ => "memory"
  | audit _ => "audit"
  | configuration _ => "configuration"

section items

variable (rt : Runtime)

/-- `str` of a datetime: the ISO text with a space for the `T`. -/
def strDatetime (d : DateTime) : String :=
  String.ofList ((rt.isoformat d).toList.map fun c => if c = 'T' then ' ' else c)

/-- A datetime, as `default=str` writes it. -/
def dateOf (d : DateTime) : Json := .str (strDatetime rt d)

def dateOf? (d : Option DateTime) : Json := Json.ofOption (d.map (dateOf rt))

/-- `str(id) if id else None`. -/
def idOf? (id : Option Uuid) : Json := Json.ofStr? (id.map rt.strUuid)

def messageItem (row : ConversationMessage × DateTime) : Json :=
  .obj [("id", .str (rt.strUuid row.1.id)), ("sequence", .int row.1.sequence), ("role", .str row.1.role.text),
    ("content", .str row.1.content), ("status", .str row.1.status), ("interrupted", .bool row.1.interrupted),
    ("created_at", dateOf rt row.2), ("version", .int row.1.version)]

def historyItem (row : HistoryRow) : Json :=
  .obj [("id", .str (rt.strUuid row.conversation.id)), ("state", .str row.conversation.state.text),
    ("title", Json.ofStr? row.conversation.title), ("summary", Json.ofStr? row.conversation.summary),
    ("summary_source", .str row.conversation.summarySource.text),
    ("started_at", dateOf rt row.conversation.startedAt),
    ("ended_at", dateOf? rt row.conversation.endedAt),
    ("continuation_of_id", idOf? rt row.conversation.continuationOfId),
    ("version", .int row.conversation.version),
    ("messages", .arr (row.messages.map (messageItem rt)))]

def versionItem (row : MemoryVersion × DateTime) : Json :=
  .obj [("number", .int row.1.versionNumber), ("content", .str row.1.content), ("category", .str row.1.category.text),
    ("state", .str row.1.state.text), ("changed_at", dateOf rt row.2)]

def sourceItem (source : MemorySource) : Json :=
  .obj [("type", .str source.sourceType), ("conversation_id", idOf? rt source.conversationId),
    ("message_id", idOf? rt source.messageId), ("quoted_text", Json.ofStr? source.sourceExcerpt)]

def memoryItem (row : MemoryRow) : Json :=
  .obj [("id", .str (rt.strUuid row.memory.id)), ("content", .str row.memory.content),
    ("category", .str row.memory.category.text), ("state", .str row.memory.state.text),
    ("origin_type", .str row.memory.originType.text), ("event_at", dateOf? rt row.memory.eventAt),
    ("valid_from", dateOf? rt row.memory.validFrom),
    ("valid_until", dateOf? rt row.memory.validUntil),
    ("created_at", dateOf rt row.memory.createdAt), ("updated_at", dateOf rt row.memory.updatedAt),
    ("version", .int row.memory.version), ("versions", .arr (row.versions.map (versionItem rt))),
    ("sources", .arr (row.sources.map (sourceItem rt)))]

def auditItem (event : AuditEvent) : Json :=
  .obj [("id", .int event.id), ("occurred_at", dateOf rt event.occurredAt),
    ("event_name", .str event.eventType), ("actor_type", .str event.actorType), ("actor_id", idOf? rt event.actorId),
    ("target_type", Json.ofStr? event.targetType), ("target_id", idOf? rt event.targetId),
    ("result", .str event.result), ("correlation_id", Json.ofStr? event.correlationId), ("details", event.details),
    ("event_hash", .str event.eventHash)]

def settingItem (row : SettingRow) : Json :=
  .obj [("area", .str row.setting.area), ("key", .str row.setting.key), ("value", row.setting.value),
    ("schema_version", .int row.schemaVersion), ("version", .int row.setting.version)]

/-- Settings whose key speaks of a secret or a password are left out. -/
def exported (row : SettingRow) : Bool :=
  !PythonText.contains (rt.casefold row.setting.key) "secret" &&
    !PythonText.contains (rt.casefold row.setting.key) "password"

/-- `payload["items"]`. -/
def Loaded.items : Loaded → List Json
  | history rows => rows.map (historyItem rt)
  | memory rows => rows.map (memoryItem rt)
  | audit rows => rows.map (auditItem rt)
  | configuration rows => (rows.filter (exported rt)).map settingItem

end items

/-! ### The text -/

/-- `item.get("title") or item.get("content") or item.get("key") or item.get("id")`. -/
def headingOf (item : Json) : Json :=
  if (item.getD "title" .null).truthy then item.getD "title" .null
  else if (item.getD "content" .null).truthy then item.getD "content" .null
  else if (item.getD "key" .null).truthy then item.getD "key" .null
  else item.getD "id" .null

/-- The text of a heading, which is a string, a number or `None`. -/
def headingText : Json → List Char
  | .str s => s.toList
  | .int n => Json.chars (.int n)
  | _ => "None".toList

/-- The lines of an item. -/
def sectionOf (item : Json) : List (List Char) :=
  ["## ".toList ++ headingText (headingOf item), [], "```json".toList, Json.indented 0 item, "```".toList, []]

def markdownLines (kind generatedAt : String) (items : List Json) : List (List Char) :=
  [("# Export KájovoDagmar – " ++ kind).toList, [], ("Vytvořeno: " ++ generatedAt).toList, []] ++
    items.flatMap sectionOf

/-- `_markdown`. -/
def markdown (kind generatedAt : String) (items : List Json) : String :=
  String.ofList (List.intercalate ['\n'] (markdownLines kind generatedAt items))

/-! ### Reading it back -/

open Markdown TextLines

/-- The block is announced as JSON. -/
def isJson (b : Block) : Bool := b.language = "json".toList

/-- What the JSON blocks of a text say. -/
def readJson (text : String) : List (Option Json) :=
  ((blocks text.toList).filter isJson).map fun b => Json.loads b.text

/-- The text has nothing but headings, paragraphs and fenced blocks. -/
def Legible (text : String) : Prop := legible .text (lines text.toList) = true

/-- The JSON blocks of a text are the items, one each and in order. -/
def ReadsBack (text : String) (items : List Json) : Prop := Legible text ∧ readJson text = items.map some

/-- The JSON blocks of a text are not the items. -/
def Lost (text : String) (items : List Json) : Prop := Legible text ∧ readJson text ≠ items.map some

/-- No line of a heading, outside of the fenced blocks in it, begins a block of another kind. -/
def Flat (heading : List Char) : Prop := legible .text (lines ("## ".toList ++ heading ++ ['\n'])) = true

/-- The lines of a heading leave a reader in the text, and none of the blocks that they close is JSON. -/
def Quiet (heading : List Char) : Prop :=
  (scan .text (lines ("## ".toList ++ heading ++ ['\n']))).1 = .text ∧
    (scan .text (lines ("## ".toList ++ heading ++ ['\n']))).2.filter isJson = []

/-! ### The lines of the text -/

/-- The lines of an item, with the empty line before them and without the one after them. -/
def shifted (item : Json) : List (List Char) :=
  [[], "## ".toList ++ headingText (headingOf item), [], "```json".toList, Json.indented 0 item, "```".toList]

/-- The lines of a heading, as a reader sees them. -/
def headingLines (item : Json) : List Line := lines ("## ".toList ++ headingText (headingOf item) ++ ['\n'])

/-- The lines of the JSON of an item, as a reader sees them. -/
def dumpLines (item : Json) : List Line := lines (Json.indented 0 item ++ ['\n'])

/-- The lines of an item, as a reader sees them. -/
def itemLines (item : Json) : List Line :=
  [] :: (headingLines item ++ ([] :: "```json".toList :: (dumpLines item ++ ["```".toList])))

theorem lines_shifted (item : Json) : ((shifted item).flatMap fun l => lines (l ++ ['\n'])) = itemLines item := by
  have hopen : lines ("```json".toList ++ ['\n']) = ["```json".toList] := by decide
  have hclose : lines ("```".toList ++ ['\n']) = ["```".toList] := by decide
  have hempty : lines ([] ++ ['\n']) = [[]] := rfl
  simp only [shifted, List.flatMap_cons, List.flatMap_nil, hopen, hclose, hempty, List.append_nil,
    List.singleton_append, itemLines, headingLines, dumpLines]

/-- Texts that are joined by line breaks, the last of them empty. -/
theorem intercalate_last (ls : List (List Char)) : List.intercalate ['\n'] (ls ++ [[]]) = unlines ls := by
  induction ls with
  | nil => rfl
  | cons l ls ih =>
      rw [unlines_cons, ← ih]
      cases ls with
      | nil => rfl
      | cons m ls => rfl

theorem sections_shifted (items : List Json) : [] :: items.flatMap sectionOf = items.flatMap shifted ++ [[]] := by
  induction items with
  | nil => rfl
  | cons item items ih =>
      rw [List.flatMap_cons, List.flatMap_cons, List.append_assoc, ← ih]
      rfl

/-- **The lines of the text**, as a reader sees them. -/
theorem lines_markdown {kind generatedAt : String} (hkind : ∀ c ∈ kind.toList, ¬EndsLine c)
    (hdate : ∀ c ∈ generatedAt.toList, ¬EndsLine c) (items : List Json) :
    lines (markdown kind generatedAt items).toList =
      ["# Export KájovoDagmar – ".toList ++ kind.toList, [], "Vytvořeno: ".toList ++ generatedAt.toList] ++
        items.flatMap itemLines := by
  have htitle : lines (("# Export KájovoDagmar – " ++ kind).toList ++ ['\n']) =
      ["# Export KájovoDagmar – ".toList ++ kind.toList] := by
    rw [String.toList_append]
    refine lines_of_notMem fun c hc => ?_
    have hline : ∀ c ∈ "# Export KájovoDagmar – ".toList, ¬EndsLine c := Json.line_of_all (by decide)
    exact (List.mem_append.mp hc).elim (hline c) (hkind c)
  have hcreated : lines (("Vytvořeno: " ++ generatedAt).toList ++ ['\n']) =
      ["Vytvořeno: ".toList ++ generatedAt.toList] := by
    rw [String.toList_append]
    refine lines_of_notMem fun c hc => ?_
    have hline : ∀ c ∈ "Vytvořeno: ".toList, ¬EndsLine c := Json.line_of_all (by decide)
    exact (List.mem_append.mp hc).elim (hline c) (hdate c)
  have hjoin : markdownLines kind generatedAt items =
      ([("# Export KájovoDagmar – " ++ kind).toList, [], ("Vytvořeno: " ++ generatedAt).toList] ++
        items.flatMap shifted) ++ [[]] := by
    rw [List.append_assoc, ← sections_shifted]
    rfl
  have hempty : lines ([] ++ ['\n']) = [[]] := rfl
  rw [markdown, String.toList_ofList, hjoin, intercalate_last, unlines, lines_flatMap, List.flatMap_append,
    List.flatMap_cons, List.flatMap_cons, List.flatMap_cons, List.flatMap_nil, htitle, hcreated, hempty,
    List.flatMap_assoc]
  simp only [lines_shifted]
  rfl

/-! ### What a reader makes of the lines of an item -/

theorem backtick_fences : backtick = backtick ∨ backtick = '~' := .inl rfl

/-- The fence that `_markdown` writes. -/
def jsonFence : Fence := ⟨backtick, 3, 0, backtick_fences, Nat.le_refl 3⟩

/-- A line that begins with another character opens no block. -/
theorem opens_other {c : Char} (hspace : c ≠ ' ') (hback : c ≠ backtick) (htilde : c ≠ '~') (l : Line) :
    opens (c :: l) = none := by
  have htrimmed : trimmed (c :: l) = c :: l := by
    rw [trimmed, List.dropWhile_cons, if_neg (by simpa using hspace)]
  have hrun : ∀ d, c ≠ d → runOf d (trimmed (c :: l)) < 3 := by
    intro d hd
    rw [htrimmed, runOf, List.takeWhile_cons, if_neg (by simpa using hd)]
    exact Nat.zero_lt_succ 2
  exact opens_eq_none (hrun backtick hback) (hrun '~' htilde)

theorem step_text {l : Line} (h : opens l = none) : step .text l = (.text, []) := by rw [step, h]

theorem step_hash (l : Line) : step .text ('#' :: l) = (.text, []) :=
  step_text (opens_other (by decide) (by decide) (by decide) l)

theorem opensOther_hash (l : Line) : opensOther ('#' :: l) = false :=
  opensOther_cons (by decide) (by decide) (by decide) l

/-- The first line of a heading opens no block, and the others are those of its text. -/
theorem scan_heading (heading : List Char) : ∃ l ls, lines (heading ++ ['\n']) = l :: ls ∧
    scan .text (lines ("## ".toList ++ heading ++ ['\n'])) = scan .text ls ∧
    legible .text (lines ("## ".toList ++ heading ++ ['\n'])) = legible .text ls := by
  have hne : heading ++ ['\n'] ≠ [] := by simp
  obtain ⟨l, ls, hls⟩ := List.exists_cons_of_ne_nil (lines_ne_nil hne)
  refine ⟨l, ls, hls, ?_⟩
  have hlines : lines ("## ".toList ++ heading ++ ['\n']) = ('#' :: '#' :: ' ' :: l) :: ls := by
    change lines ('#' :: '#' :: ' ' :: (heading ++ ['\n'])) = _
    rw [lines_cons (by decide), lines_cons (by decide), lines_cons (by decide), hls]
    rfl
  rw [hlines, scan, step_hash, List.nil_append, legible, opensOther_hash, step_hash]
  exact ⟨rfl, rfl⟩

/-- A heading on one line is quiet. -/
theorem quiet_of_line {heading : List Char} (h : ∀ c ∈ heading, ¬EndsLine c) : Quiet heading := by
  obtain ⟨l, ls, hls, hscan, -⟩ := scan_heading heading
  rw [lines_of_notMem h] at hls
  obtain ⟨-, rfl⟩ := List.cons.inj hls
  rw [Quiet, hscan]
  exact ⟨rfl, rfl⟩

theorem flat_of_line {heading : List Char} (h : ∀ c ∈ heading, ¬EndsLine c) : Flat heading := by
  obtain ⟨l, ls, hls, -, hlegible⟩ := scan_heading heading
  rw [lines_of_notMem h] at hls
  obtain ⟨-, rfl⟩ := List.cons.inj hls
  exact hlegible

/-- The blocks that a heading closes are no longer than its text. -/
theorem length_heading {heading : List Char} {b : Block}
    (h : b ∈ (scan .text (lines ("## ".toList ++ heading ++ ['\n']))).2) : b.text.toList.length ≤ heading.length := by
  obtain ⟨l, ls, hls, hscan, -⟩ := scan_heading heading
  have hle := length_unlines_lines_le heading
  have hblock := length_text_le (hscan ▸ h)
  rw [hls, unlines_cons, List.length_append, List.length_cons] at hle
  omega

theorem dropWhile_blank {l : Line} {c : Char} (h : (trimmed l).head? = some c) (hc : Json.isBlank c = false) :
    (l.dropWhile Json.isBlank).head? = some c := by
  induction l with
  | nil => exact absurd h (by simp [trimmed])
  | cons d l ih =>
      by_cases hd : d = ' '
      · subst hd
        exact ih h
      · have hhead : (trimmed (d :: l)).head? = some d := by
          rw [trimmed, List.dropWhile_cons, if_neg (by simpa using hd)]
          rfl
        obtain rfl := Option.some.inj (hhead.symm.trans h)
        rw [List.dropWhile_cons, if_neg (by rw [hc]; exact Bool.false_ne_true)]
        rfl

/-- A line of JSON closes no block. -/
theorem closes_native {l : Line} (h : Native Json.isBlank Json.foreign l) (f : Fence) : f.closes l = false := by
  refine Fence.closes_of_ne fun hhead => ?_
  have hforeign : Json.isBlank f.char = false ∧ Json.foreign f.char = true := by
    rcases f.char_mem with hc | hc
    · rw [hc]
      decide
    · rw [hc]
      decide
  exact absurd (h _ (dropWhile_blank hhead hforeign.1)) (by rw [hforeign.2]; exact Bool.true_eq_false_eq_False)

section item

variable {item : Json} (hitem : item.Written)
include hitem

/-- The JSON of an item is read back, with the line break after it. -/
theorem loads_dump : Json.loads (String.ofList (unlines (dumpLines item))) = some item := by
  rw [dumpLines, unlines_lines (Json.indented_cr hitem)]
  exact Json.loads_indented hitem (fun _ _ h => .inr (List.cons.inj h).1.symm) rfl

theorem closes_dump (f : Fence) : ∀ l ∈ dumpLines item, f.closes l = false := by
  intro l hl
  have hloads : Json.loads (String.ofList (Json.indented 0 item ++ ['\n'])) = some item :=
    Json.loads_indented hitem (fun _ _ h => .inr (List.cons.inj h).1.symm) rfl
  have hwalk := Json.loads_lines hloads
  rw [String.toList_ofList] at hwalk
  exact closes_native (walk_lines hwalk l hl) f

/-- **A quiet heading** lets the block of its item be read. -/
theorem scan_item (hquiet : Quiet (headingText (headingOf item))) :
    scan .text (itemLines item) = (.text, (scan .text (headingLines item)).2 ++
      [⟨"json".toList, dumpLines item⟩]) := by
  have hstrip : (dumpLines item).map jsonFence.strip = dumpLines item := by
    have hone : ∀ l : Line, jsonFence.strip l = l := fun l => by
      have hindent : jsonFence.indent = 0 := rfl
      rw [Fence.strip, hindent, Nat.zero_min]
      rfl
    rw [funext hone, List.map_id']
  have hfence : scan (.fenced jsonFence ⟨"json".toList, []⟩) (dumpLines item) =
      (.fenced jsonFence ⟨"json".toList, dumpLines item⟩, []) := by
    rw [scan_fenced (closes_dump hitem jsonFence), hstrip, List.nil_append]
  have hclose : step (.fenced jsonFence ⟨"json".toList, dumpLines item⟩) "```".toList =
      (.text, [⟨"json".toList, dumpLines item⟩]) := rfl
  have hopen : step .text "```json".toList = (.fenced jsonFence ⟨"json".toList, []⟩, []) := rfl
  have hempty : step .text [] = (.text, []) := rfl
  have hheading : (scan .text (headingLines item)).1 = .text := hquiet.1
  rw [itemLines, scan, hempty, scan_append, hheading, scan, hempty, scan, hopen, scan_append, hfence, scan, hclose]
  rfl

/-- The JSON blocks of an item with a quiet heading: one, and it is the item. -/
theorem reads_item (hquiet : Quiet (headingText (headingOf item))) :
    (((scan .text (itemLines item)).2.filter isJson).map fun b => Json.loads b.text) = [some item] := by
  have hheading : (scan .text (headingLines item)).2.filter isJson = [] := hquiet.2
  rw [scan_item hitem hquiet, List.filter_append, hheading]
  change [Json.loads (String.ofList (unlines (dumpLines item)))] = _
  rw [loads_dump hitem]

/-- No line of an item closes a block that its heading leaves open, but the last one. -/
theorem closes_item (f : Fence) : ∀ l ∈ [] :: "```json".toList :: dumpLines item, f.closes l = false := by
  intro l hl
  rcases List.mem_cons.mp hl with rfl | hl
  · exact Fence.closes_of_ne (by simp [trimmed])
  rcases List.mem_cons.mp hl with rfl | hl
  · rcases f with ⟨c, n, i, rfl | rfl, hn⟩
    · exact Bool.and_false _
    · have hhead : (trimmed "```json".toList).head? ≠ some '~' := by decide
      exact Fence.closes_of_ne hhead
  · exact closes_dump hitem f l hl

/-- An item whose heading is flat is legible. -/
theorem legible_item (hflat : Flat (headingText (headingOf item))) : legible .text (itemLines item) = true := by
  have hheading : legible .text (headingLines item) = true := hflat
  have hempty : step .text [] = (.text, []) := rfl
  have hopen : step .text "```json".toList = (.fenced jsonFence ⟨"json".toList, []⟩, []) := rfl
  have hnone : opensOther [] = false := rfl
  have hjson : opensOther "```json".toList = false := by decide
  rw [itemLines, legible, hnone, hempty, legible_append, hheading, Bool.not_false, Bool.true_and, Bool.true_and]
  rcases (scan .text (headingLines item)).1 with _ | ⟨f, b⟩
  · rw [legible, hnone, hempty, legible, hjson, hopen, legible_fenced (closes_dump hitem jsonFence)]
    rfl
  · exact legible_fenced (closes_item hitem f) b _

/-- A heading that leaves a block open: its item is in that block, after a line of backticks. -/
theorem blocks_open {f : Fence} {b : Block} (hopen : (scan .text (headingLines item)).1 = .fenced f b) :
    ∃ more, blocksFrom .text (itemLines item) = (scan .text (headingLines item)).2 ++
      [{ b with content := b.content ++ ([] :: "```json".toList :: more) }] := by
  have hin := closes_item hitem f
  obtain ⟨more, hmore⟩ := blocksFrom_fenced f
    { b with content := b.content ++ ([] :: "```json".toList :: dumpLines item).map f.strip } "```".toList
  refine ⟨(dumpLines item).map f.strip ++ more, ?_⟩
  have hempty : step .text [] = (.text, []) := rfl
  have hstrip : f.strip [] = [] := List.drop_nil
  have hjson : f.strip "```json".toList = "```json".toList := by
    have hindent : indentOf "```json".toList = 0 := rfl
    rw [Fence.strip, hindent, Nat.min_zero]
    rfl
  have hlines : itemLines item = [] :: (headingLines item ++ (([] :: "```json".toList :: dumpLines item) ++
      ["```".toList])) := rfl
  rw [hlines, blocksFrom, scan, hempty, List.nil_append]
  change blocksFrom .text _ = _
  rw [blocksFrom_append, hopen, blocksFrom_append, scan_fenced hin, hmore, List.map_cons, List.map_cons, hstrip, hjson]
  simp

end item

/-- A block with a line of backticks in it, after an empty one, is not JSON. -/
theorem loads_broken {b : Block} {more : List Line} :
    Json.loads (String.ofList (unlines (b.content ++ ([] :: "```json".toList :: more)))) = none := by
  rcases hloads : Json.loads (String.ofList (unlines (b.content ++ ([] :: "```json".toList :: more)))) with _ | j
  · rfl
  · refine absurd ?_ (Json.loads_lines hloads)
    rw [String.toList_ofList, unlines_append, walk_append]
    rcases walk Json.isBlank Json.foreign true (unlines b.content) with _ | start
    · rfl
    · rfl

/-- The text of a heading is a value of its item. -/
theorem mem_heading {kvs : List (String × Json)} {s : String} (h : headingOf (.obj kvs) = .str s) :
    ∃ key, (key, Json.str s) ∈ kvs := by
  have hkey : ∀ key, (Json.obj kvs).getD key .null = .str s → ∃ key, (key, Json.str s) ∈ kvs := by
    intro key hget
    rw [Json.getD, Json.get?] at hget
    rcases hfind : (Json.obj kvs).entries.find? fun kv => kv.1 = key with _ | kv
    · rw [hfind] at hget
      exact absurd hget Json.noConfusion
    · rw [hfind] at hget
      exact ⟨kv.1, hget ▸ List.mem_of_find?_eq_some hfind⟩
  unfold headingOf at h
  split at h
  · exact hkey _ h
  split at h
  · exact hkey _ h
  split at h
  · exact hkey _ h
  · exact hkey _ h

/-- Only a string has line breaks. -/
theorem headingText_line {j : Json} (h : ∀ s, j ≠ .str s) : ∀ c ∈ headingText j, ¬EndsLine c := by
  have hnone : ∀ c ∈ "None".toList, ¬EndsLine c := Json.line_of_all (by decide)
  cases j with
  | str s => exact absurd rfl (h s)
  | int n => exact Json.scanNumber_line (Json.scanNumber_int n)
  | null => exact hnone
  | bool b => exact hnone
  | float text => exact hnone
  | arr xs => exact hnone
  | obj kvs => exact hnone

/-- No block of a heading is its item: it is too short. -/
theorem loads_heading {kvs : List (String × Json)} {s : String} (hheading : headingOf (.obj kvs) = .str s) {b : Block}
    (hb : b ∈ (scan .text (headingLines (.obj kvs))).2) : Json.loads b.text ≠ some (.obj kvs) := by
  intro hloads
  obtain ⟨key, hmem⟩ := mem_heading hheading
  have hentry := Json.loads_entry hloads hmem
  have hlength := length_heading hb
  rw [hheading] at hlength
  change b.text.toList.length ≤ s.toList.length at hlength
  omega

/-- **Only a quiet heading** lets the block of its item be read. -/
theorem quiet_of_reads {kvs : List (String × Json)} (hitem : (Json.obj kvs).Written)
    (hreads : ((blocksFrom .text (itemLines (.obj kvs))).filter isJson).map (fun b => Json.loads b.text) =
      [some (.obj kvs)]) : Quiet (headingText (headingOf (.obj kvs))) := by
  by_cases hstr : ∀ s, headingOf (.obj kvs) ≠ .str s
  · exact quiet_of_line (headingText_line hstr)
  push Not at hstr
  obtain ⟨s, hheading⟩ := hstr
  have hread : ∀ b ∈ blocksFrom .text (itemLines (.obj kvs)), isJson b = true →
      Json.loads b.text = some (.obj kvs) := by
    intro b hb hjson
    have hmap : Json.loads b.text ∈ ((blocksFrom .text (itemLines (.obj kvs))).filter isJson).map
        fun b => Json.loads b.text := List.mem_map_of_mem (List.mem_filter.mpr ⟨hb, hjson⟩)
    rw [hreads] at hmap
    exact List.mem_singleton.mp hmap
  have hsplit : blocksFrom .text (itemLines (.obj kvs)) = (scan .text (headingLines (.obj kvs))).2 ++
      blocksFrom (scan .text (headingLines (.obj kvs))).1
        ([] :: "```json".toList :: (dumpLines (.obj kvs) ++ ["```".toList])) := by
    rw [← blocksFrom_append]
    rfl
  have hforged : (scan .text (headingLines (.obj kvs))).2.filter isJson = [] := by
    refine List.filter_eq_nil_iff.mpr fun b hb hjson => loads_heading hheading hb (hread b ?_ hjson)
    rw [hsplit]
    exact List.mem_append_left _ hb
  refine ⟨?_, hforged⟩
  rcases hopen : (scan .text (headingLines (.obj kvs))).1 with _ | ⟨f, b⟩
  · exact hopen
  -- the block of the item is in the one that the heading leaves open
  exfalso
  obtain ⟨more, hblocks⟩ := blocks_open hitem hopen
  have hlast : isJson { b with content := b.content ++ ([] :: "```json".toList :: more) } = false := by
    by_contra hjson
    have hloads := hread _ (hblocks ▸ List.mem_append_right _ List.mem_cons_self) (Bool.not_eq_false _ |>.mp hjson)
    rw [Block.text, loads_broken] at hloads
    exact absurd hloads (by simp)
  rw [hblocks, List.filter_append, hforged, List.nil_append, List.filter_cons_of_neg (by rw [hlast]; decide)] at hreads
  exact absurd hreads (by simp)

/-! ### All items -/

/-- The items are objects with the text of their heading in them, and their JSON is read back. -/
def Sound (items : List Json) : Prop := ∀ item ∈ items, ∃ kvs, item = .obj kvs ∧ item.Written

/-- **Run lemma**: items with quiet headings are read back, and the reader is in the text after each. -/
theorem scan_items {items : List Json} (hsound : Sound items)
    (hquiet : ∀ item ∈ items, Quiet (headingText (headingOf item))) :
    (scan .text (items.flatMap itemLines)).1 = .text ∧
      ((scan .text (items.flatMap itemLines)).2.filter isJson).map (fun b => Json.loads b.text) =
        items.map some := by
  induction items with
  | nil => exact ⟨rfl, rfl⟩
  | cons item items ih =>
      obtain ⟨kvs, -, hitem⟩ := hsound item List.mem_cons_self
      obtain ⟨hrest, hreads⟩ := ih (fun i hi => hsound i (List.mem_cons_of_mem _ hi))
        fun i hi => hquiet i (List.mem_cons_of_mem _ hi)
      have hitemQuiet := hquiet item List.mem_cons_self
      have htext : (scan .text (itemLines item)).1 = .text := by rw [scan_item hitem hitemQuiet]
      rw [List.flatMap_cons, scan_append, htext]
      refine ⟨hrest, ?_⟩
      dsimp only
      rw [List.filter_append, List.map_append, reads_item hitem hitemQuiet, hreads]
      rfl

/-- Items with flat headings are legible up to the first one that is not quiet. -/
theorem legible_items {items : List Json} {item : Json} (hsound : Sound (items ++ [item]))
    (hquiet : ∀ i ∈ items, Quiet (headingText (headingOf i)))
    (hflat : ∀ i ∈ items ++ [item], Flat (headingText (headingOf i))) :
    legible .text ((items ++ [item]).flatMap itemLines) = true := by
  induction items with
  | nil =>
      obtain ⟨kvs, -, hitem⟩ := hsound item List.mem_cons_self
      rw [List.nil_append, List.flatMap_cons, List.flatMap_nil, List.append_nil]
      exact legible_item hitem (hflat item List.mem_cons_self)
  | cons first items ih =>
      obtain ⟨kvs, -, hitem⟩ := hsound first List.mem_cons_self
      have htext : (scan .text (itemLines first)).1 = .text := by
        rw [scan_item hitem (hquiet first List.mem_cons_self)]
      have hrest := ih (fun i hi => hsound i (List.mem_cons_of_mem _ hi))
        (fun i hi => hquiet i (List.mem_cons_of_mem _ hi)) fun i hi => hflat i (List.mem_cons_of_mem _ hi)
      rw [List.cons_append, List.flatMap_cons, legible_append, htext, hrest, Bool.and_true]
      exact legible_item hitem (hflat first List.mem_cons_self)

theorem step_title (l : Line) : step .text ("# Export KájovoDagmar – ".toList ++ l) = (.text, []) := step_hash _

theorem step_created (l : Line) : step .text ("Vytvořeno: ".toList ++ l) = (.text, []) :=
  step_text (opens_other (by decide) (by decide) (by decide) _)

/-- The lines before the items open no block. -/
theorem blocks_markdown {kind generatedAt : String} (hkind : ∀ c ∈ kind.toList, ¬EndsLine c)
    (hdate : ∀ c ∈ generatedAt.toList, ¬EndsLine c) (items : List Json) :
    blocks (markdown kind generatedAt items).toList = blocksFrom .text (items.flatMap itemLines) := by
  have hempty : step .text [] = (.text, []) := rfl
  rw [blocks, lines_markdown hkind hdate, blocksFrom_append, scan, step_title, scan, hempty, scan, step_created]
  rfl

theorem legible_markdown {kind generatedAt : String} (hkind : ∀ c ∈ kind.toList, ¬EndsLine c)
    (hdate : ∀ c ∈ generatedAt.toList, ¬EndsLine c) (items : List Json) :
    Legible (markdown kind generatedAt items) ↔ legible .text (items.flatMap itemLines) = true := by
  have hempty : step .text [] = (.text, []) := rfl
  have hnone : opensOther [] = false := rfl
  have htitle : opensOther ("# Export KájovoDagmar – ".toList ++ kind.toList) = false := opensOther_hash _
  have hcreated : opensOther ("Vytvořeno: ".toList ++ generatedAt.toList) = false :=
    opensOther_cons (by decide) (by decide) (by decide) _
  rw [Legible, lines_markdown hkind hdate, List.cons_append, List.cons_append, List.cons_append, List.nil_append,
    legible, htitle, step_title, legible, hnone, hempty, legible, hcreated, step_created]
  simp only [Bool.not_false, Bool.true_and]

/-- The items up to the first one that is not quiet make a legible text. -/
theorem legible_export {kind generatedAt : String} (hkind : ∀ c ∈ kind.toList, ¬EndsLine c)
    (hdate : ∀ c ∈ generatedAt.toList, ¬EndsLine c) {items : List Json} {item : Json}
    (hsound : Sound (items ++ [item])) (hquiet : ∀ i ∈ items, Quiet (headingText (headingOf i)))
    (hflat : ∀ i ∈ items ++ [item], Flat (headingText (headingOf i))) :
    Legible (markdown kind generatedAt (items ++ [item])) :=
  (legible_markdown hkind hdate _).mpr (legible_items hsound hquiet hflat)

theorem readsBack_of_quiet {kind generatedAt : String} (hkind : ∀ c ∈ kind.toList, ¬EndsLine c)
    (hdate : ∀ c ∈ generatedAt.toList, ¬EndsLine c) {items : List Json} (hsound : Sound items)
    (hquiet : ∀ item ∈ items, Quiet (headingText (headingOf item)))
    (hflat : ∀ item ∈ items, Flat (headingText (headingOf item))) :
    ReadsBack (markdown kind generatedAt items) items := by
  obtain ⟨htext, hreads⟩ := scan_items hsound hquiet
  constructor
  · rcases List.eq_nil_or_concat' items with rfl | ⟨before, item, rfl⟩
    · exact (legible_markdown hkind hdate []).mpr rfl
    · exact legible_export hkind hdate hsound (fun i hi => hquiet i (List.mem_append_left _ hi)) hflat
  · rw [readJson, blocks_markdown hkind hdate, blocksFrom, htext, State.rest, List.append_nil, hreads]

/-- The heading after quiet ones is quiet too, if the items up to it are read back. -/
theorem quiet_of_readsBack {kind generatedAt : String} (hkind : ∀ c ∈ kind.toList, ¬EndsLine c)
    (hdate : ∀ c ∈ generatedAt.toList, ¬EndsLine c) {items : List Json} {item : Json}
    (hsound : Sound (items ++ [item])) (hquiet : ∀ i ∈ items, Quiet (headingText (headingOf i)))
    (hreads : readJson (markdown kind generatedAt (items ++ [item])) = (items ++ [item]).map some) :
    Quiet (headingText (headingOf item)) := by
  obtain ⟨htext, hbefore⟩ := scan_items (fun i hi => hsound i (List.mem_append_left _ hi)) hquiet
  obtain ⟨kvs, rfl, hitem⟩ := hsound item (List.mem_append_right _ List.mem_cons_self)
  rw [readJson, blocks_markdown hkind hdate, List.flatMap_append, blocksFrom_append, htext, List.filter_append,
    List.map_append, hbefore, List.map_append] at hreads
  have hlast := List.append_cancel_left hreads
  rw [List.flatMap_cons, List.flatMap_nil, List.append_nil] at hlast
  exact quiet_of_reads hitem hlast

/-! ### The exports -/

/-- The JSON that rows carry: no key is repeated, and the floats are texts of floats. -/
def Loaded.Stored : Loaded → Prop
  | history _ => True
  | memory _ => True
  | audit rows => ∀ event ∈ rows, event.details.Written
  | configuration rows => ∀ row ∈ rows, row.setting.value.Written

theorem written_ofStr? (o : Option String) : (Json.ofStr? o).Written := by
  cases o with
  | none => trivial
  | some s => trivial

section items

variable (rt : Runtime)

theorem written_dateOf? (d : Option DateTime) : (dateOf? rt d).Written := by
  cases d with
  | none => trivial
  | some d => trivial

theorem written_idOf? (id : Option Uuid) : (idOf? rt id).Written := written_ofStr? _

theorem written_messages (rows : List (ConversationMessage × DateTime)) :
    Json.WrittenItems (rows.map (messageItem rt)) := by
  refine Json.writtenItems_iff.mpr fun x hx => ?_
  obtain ⟨row, -, rfl⟩ := List.mem_map.mp hx
  refine ⟨?_, trivial, trivial, trivial, trivial, trivial, trivial, trivial, trivial, trivial⟩
  change ["id", "sequence", "role", "content", "status", "interrupted", "created_at", "version"].Nodup
  decide

theorem written_history (row : HistoryRow) : (historyItem rt row).Written := by
  refine ⟨?_, trivial, trivial, written_ofStr? _, written_ofStr? _, trivial, trivial, written_dateOf? rt _,
    written_idOf? rt _, trivial, written_messages rt _, trivial⟩
  change ["id", "state", "title", "summary", "summary_source", "started_at", "ended_at", "continuation_of_id",
    "version", "messages"].Nodup
  decide

theorem written_versions (rows : List (MemoryVersion × DateTime)) :
    Json.WrittenItems (rows.map (versionItem rt)) := by
  refine Json.writtenItems_iff.mpr fun x hx => ?_
  obtain ⟨row, -, rfl⟩ := List.mem_map.mp hx
  refine ⟨?_, trivial, trivial, trivial, trivial, trivial, trivial⟩
  change ["number", "content", "category", "state", "changed_at"].Nodup
  decide

theorem written_sources (rows : List MemorySource) : Json.WrittenItems (rows.map (sourceItem rt)) := by
  refine Json.writtenItems_iff.mpr fun x hx => ?_
  obtain ⟨row, -, rfl⟩ := List.mem_map.mp hx
  refine ⟨?_, trivial, written_idOf? rt _, written_idOf? rt _, written_ofStr? _, trivial⟩
  change ["type", "conversation_id", "message_id", "quoted_text"].Nodup
  decide

theorem written_memory (row : MemoryRow) : (memoryItem rt row).Written := by
  refine ⟨?_, trivial, trivial, trivial, trivial, trivial, written_dateOf? rt _, written_dateOf? rt _,
    written_dateOf? rt _, trivial, trivial, trivial, written_versions rt _, written_sources rt _, trivial⟩
  change ["id", "content", "category", "state", "origin_type", "event_at", "valid_from", "valid_until", "created_at",
    "updated_at", "version", "versions", "sources"].Nodup
  decide

theorem written_audit {event : AuditEvent} (h : event.details.Written) : (auditItem rt event).Written := by
  refine ⟨?_, trivial, trivial, trivial, trivial, written_idOf? rt _, written_ofStr? _, written_idOf? rt _, trivial,
    written_ofStr? _, h, trivial, trivial⟩
  change ["id", "occurred_at", "event_name", "actor_type", "actor_id", "target_type", "target_id", "result",
    "correlation_id", "details", "event_hash"].Nodup
  decide

theorem written_setting {row : SettingRow} (h : row.setting.value.Written) : (settingItem row).Written := by
  refine ⟨?_, trivial, trivial, h, trivial, trivial, trivial⟩
  change ["area", "key", "value", "schema_version", "version"].Nodup
  decide

/-- The items of an export are objects whose JSON is read back. -/
theorem items_sound {loaded : Loaded} (h : loaded.Stored) : Sound (loaded.items rt) := by
  intro item hitem
  cases loaded with
  | history rows =>
      obtain ⟨row, -, rfl⟩ := List.mem_map.mp hitem
      exact ⟨_, rfl, written_history rt row⟩
  | memory rows =>
      obtain ⟨row, -, rfl⟩ := List.mem_map.mp hitem
      exact ⟨_, rfl, written_memory rt row⟩
  | audit rows =>
      obtain ⟨event, hmem, rfl⟩ := List.mem_map.mp hitem
      exact ⟨_, rfl, written_audit rt (h event hmem)⟩
  | configuration rows =>
      obtain ⟨row, hmem, rfl⟩ := List.mem_map.mp hitem
      exact ⟨_, rfl, written_setting (h row (List.mem_of_mem_filter hmem))⟩

theorem strDatetime_line {d : DateTime} (h : ∀ c ∈ (rt.isoformat d).toList, ¬EndsLine c) :
    ∀ c ∈ (strDatetime rt d).toList, ¬EndsLine c := by
  intro c hc
  rw [strDatetime, String.toList_ofList] at hc
  obtain ⟨c', hc', rfl⟩ := List.mem_map.mp hc
  split
  · decide
  · exact h c' hc'

end items

theorem Loaded.kind_line (loaded : Loaded) : ∀ c ∈ loaded.kind.toList, ¬EndsLine c := by
  cases loaded with
  | history rows =>
      have hline : ∀ c ∈ "history".toList, ¬EndsLine c := Json.line_of_all (by decide)
      exact hline
  | memory rows =>
      have hline : ∀ c ∈ "memory".toList, ¬EndsLine c := Json.line_of_all (by decide)
      exact hline
  | audit rows =>
      have hline : ∀ c ∈ "audit".toList, ¬EndsLine c := Json.line_of_all (by decide)
      exact hline
  | configuration rows =>
      have hline : ∀ c ∈ "configuration".toList, ¬EndsLine c := Json.line_of_all (by decide)
      exact hline

/-- Among items whose headings are not all quiet there is a first one. -/
theorem exists_first {p : Json → Prop} {items : List Json} (h : ¬∀ item ∈ items, p item) :
    ∃ n item, items.take (n + 1) = items.take n ++ [item] ∧ (∀ i ∈ items.take n, p i) ∧ ¬p item := by
  induction items with
  | nil => exact absurd (fun _ hi => absurd hi List.not_mem_nil) h
  | cons first items ih =>
      by_cases hfirst : p first
      · obtain ⟨n, item, htake, hbefore, hitem⟩ := ih fun hall => h (List.forall_mem_cons.mpr ⟨hfirst, hall⟩)
        refine ⟨n + 1, item, ?_, ?_, hitem⟩
        · rw [List.take_succ_cons, htake]
          rfl
        · rw [List.take_succ_cons]
          exact List.forall_mem_cons.mpr ⟨hfirst, hbefore⟩
      · exact ⟨0, first, rfl, fun _ hi => absurd hi List.not_mem_nil, hfirst⟩

/-- Headings without a line break are read back. -/
theorem readsBack_of_line (rt : Runtime) (loaded : Loaded) (generatedAt : DateTime)
    (hiso : ∀ c ∈ (rt.isoformat generatedAt).toList, ¬EndsLine c) (hstored : loaded.Stored)
    (hline : ∀ item ∈ loaded.items rt, ∀ c ∈ headingText (headingOf item), ¬EndsLine c) :
    ReadsBack (markdown loaded.kind (strDatetime rt generatedAt) (loaded.items rt)) (loaded.items rt) :=
  readsBack_of_quiet loaded.kind_line (strDatetime_line rt hiso) (items_sound rt hstored)
    (fun item hitem => quiet_of_line (hline item hitem)) fun item hitem => flat_of_line (hline item hitem)

/-! ### Two exports -/

def notedAt : DateTime := .utc 1767268800000000

def exportRuntime : Runtime := .sample 1767268800000000 []

/-- A memory item with its content. -/
def notedRow (content : String) : MemoryRow :=
  ⟨{ id := 2, accountId := 1, content := content, category := .note, state := .active, originType := .manual,
     updatedAt := notedAt }, [], []⟩

def noted (content : String) : Loaded := .memory [notedRow content]

/-- The heading of a memory item is its content. -/
theorem headingOf_memory (rt : Runtime) {row : MemoryRow} (h : row.memory.content ≠ "") :
    headingOf (memoryItem rt row) = .str row.memory.content := by
  simp [headingOf, memoryItem, Json.getD, Json.get?, Json.entries, Json.truthy, h]

end ExportService

end KajovoDagmar
