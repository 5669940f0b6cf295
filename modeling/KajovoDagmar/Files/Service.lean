import KajovoDagmar.Audit.Service
import KajovoDagmar.Jobs.Service

/-! # Exports

`ExportService`: requesting an export, generating its file and expiring it.  The assignments of
`generate` and `purge_expired` reach the row when their savepoint is released, so each record is
saved once, with its last values. -/

namespace KajovoDagmar

/-! ### Files -/

namespace FileOp

/-- The texts of the files after an operation on one of them. -/
def apply (texts : String → Option String) : FileOp → String → Option String
  | write path text => Function.update texts path (some text)
  | replace source target => Function.update (Function.update texts source none) target (texts source)
  | unlink path => Function.update texts path none

/-- The text that a file has after the given operations. -/
def textOf (ops : List FileOp) : String → Option String := ops.foldl apply fun _ => none

/-- A text that is written to a file, which then replaces another one, is the text of that one. -/
theorem textOf_replaced (ops : List FileOp) (source target text : String) :
    textOf (ops ++ [.write source text, .replace source target]) target = some text := by
  simp [textOf, apply, List.foldl_append]

end FileOp

/-- An absolute path, as its components. -/
abbrev FilePath := List String

namespace FilePath

def str (path : FilePath) : String := "/" ++ String.intercalate "/" path

/-- `Path(s)`. -/
def ofStr (s : String) : FilePath := (s.splitOn "/").filter fun c => c ≠ "" ∧ c ≠ "."

/-- `root in path.parents`. -/
def isParent (root path : FilePath) : Bool := root.isPrefixOf path ∧ root ≠ path

end FilePath

/-- Why an operation on a file fails, and the text that a failed write has left in it. -/
structure FileFault where
  code : String
  left : Option String := none

/-- The directory of the exports and the operating system below it. -/
structure Storage where
  exportRoot : FilePath
  /-- `path.resolve()`. -/
  resolve : FilePath → FilePath
  /-- The fault of an operation on a file at each reading. -/
  fault : ℕ → Option FileFault

namespace Storage

variable (storage : Storage)

/-- An operation on the file system that changes no file: `mkdir`, `chmod`. -/
def prepare : Work PUnit := fun s =>
  match storage.fault s.tick with
  | some f => (.error (.other f.code), { s with tick := s.tick + 1 })
  | none => (.ok ⟨⟩, { s with tick := s.tick + 1 })

def writeBytes (path : FilePath) (text : String) : Work PUnit := fun s =>
  match storage.fault s.tick with
  | some f => (.error (.other f.code), { s with
      tick := s.tick + 1, files := s.files ++ (f.left.toList.map (.write path.str)) })
  | none => (.ok ⟨⟩, { s with tick := s.tick + 1, files := s.files ++ [.write path.str text] })

/-- An operation that happens to a file or fails and changes none. -/
def change (op : FileOp) : Work PUnit := fun s =>
  match storage.fault s.tick with
  | some f => (.error (.other f.code), { s with tick := s.tick + 1 })
  | none => (.ok ⟨⟩, { s with tick := s.tick + 1, files := s.files ++ [op] })

end Storage

namespace ExportService

variable (rt : Runtime)

def kinds : List String := ["history", "memory", "configuration", "audit"]

def formats : List String := ["json", "markdown"]

def request (accountId : Uuid) (kind format : String) (scope : Json) (context : AuditContext) :
    Work ExportRecord := do
  Tx.raiseIf (kind ∉ kinds) (.domain (.conflict "Tento druh exportu není podporován."))
  Tx.raiseIf (format ∉ formats) (.domain (.conflict "Export lze vytvořit jako JSON nebo Markdown."))
  let now ← utcNow rt
  let id ← newUuid rt
  let record : ExportRecord :=
    { id := id
      accountId := accountId
      kind := kind
      state := "queued"
      format := format
      scope := scope
      expiresAt := some (now.addMicros (24 * 60 * 60 * 1000000)) }
  Db.exportRecord.add rt record
  let _ ← JobService.enqueue rt "export_generate" (.obj [("export_id", .str (rt.strUuid record.id))])
    100 0 context.correlationId
  let _ ← AuditService.append rt context "export.requested" "success" (some "export_record")
    (some record.id) [("kind", .str kind), ("format", .str format)]
  pure record

section generate

variable (storage : Storage)
  -- `_payload` of the rows, at the time of its making, in the format of the record
  (render : Db → DateTime → ExportRecord → Except Exc String)

def expired (record : ExportRecord) (now : DateTime) : Bool := record.expiresAt.any (·.le now)

/-- `target.with_suffix(target.suffix + ".tmp")`. -/
def temporary (target : FilePath) : FilePath := target.dropLast ++ [target.getLastD "" ++ ".tmp"]

/-- The target of the file of a record, below the directory of its account. -/
def targetOf (record : ExportRecord) : Except Exc (FilePath × FilePath) :=
  let extension := if record.format = "json" then "json" else "md"
  let accountDir := storage.resolve (storage.exportRoot ++ [rt.strUuid record.accountId])
  if ¬FilePath.isParent storage.exportRoot accountDir then .error (.other "RuntimeError")
  else .ok (accountDir,
    storage.resolve (accountDir ++ [rt.strUuid record.id ++ "." ++ extension]))

/-- The record of a file that has been written. -/
def finished (record : ExportRecord) (target : FilePath) (text : String) (now : DateTime) :
    ExportRecord :=
  { record with
    filePath := some target.str
    fileDigest := some (rt.sha256 text)
    state := "completed"
    completedAt := some now
    version := record.version + 1 }

/-- The part of `generate` that writes a text to its file. -/
def writeFile (record : ExportRecord) (accountDir target : FilePath) (text : String) : Work PUnit := do
  storage.prepare
  Tx.raiseIf (FilePath.isParent accountDir target = false) (.other "RuntimeError")
  storage.writeBytes (temporary target) text
  storage.prepare
  storage.change (.replace (temporary target).str target.str)
  let completedAt ← utcNow rt
  Db.exportRecord.save rt (finished rt record target text completedAt)

/-- The part of `generate` that makes the text of a record and writes it. -/
def generateFile (record : ExportRecord) : Work PUnit := do
  let now ← utcNow rt
  let text ← Tx.gets fun s => render s.db now record
  let text ← Tx.ofExcept text
  let (accountDir, target) ← Tx.ofExcept (targetOf rt storage record)
  writeFile rt storage record accountDir target text

/-- `generate` of a record that is not completed. -/
def generateRow (record : ExportRecord) : Work PUnit := do
  let now ← utcNow rt
  if expired record now then Db.exportRecord.save rt { record with state := "expired" }
  else generateFile rt storage render record

def generate (exportId : Uuid) : Work PUnit := do
  let row ← Db.exportRecord.find exportId
  match row with
  | none => pure ⟨⟩
  | some record =>
    if record.state = "completed" then pure ⟨⟩ else generateRow rt storage render record

end generate

section purge

variable (storage : Storage)

def purgeable (now : DateTime) (record : ExportRecord) : Bool :=
  expired record now ∧ record.state ∈ ["queued", "running", "completed", "failed"]

/-- `path.unlink()` of the file of a record that is there. -/
def unlink (record : ExportRecord) : Work PUnit := do
  let files ← Tx.gets Session.files
  match record.filePath with
  | none => pure ⟨⟩
  | some text =>
    let path := storage.resolve (FilePath.ofStr text)
    if FilePath.isParent storage.exportRoot path ∧ (FileOp.textOf files path.str).isSome then
      storage.change (.unlink path.str)
    else pure ⟨⟩

/-- One record of `purge_expired`. -/
def expire (record : ExportRecord) : Work PUnit := do
  unlink storage record
  Db.exportRecord.save rt { record with
    state := "expired", filePath := none, version := record.version + 1 }

def purgeExpired : Work PUnit := do
  let now ← utcNow rt
  let rows ← Db.exportRecord.select (purgeable now)
  let _ ← Tx.forEach (expire rt storage) rows
  pure ⟨⟩

end purge

end ExportService

/-! ### What the operations on files do -/

namespace Storage

variable {storage : Storage} {s : Session}

theorem prepare_of_none (h : storage.fault s.tick = none) :
    storage.prepare s = (.ok ⟨⟩, { s with tick := s.tick + 1 }) := by
  rw [prepare, h]

theorem prepare_of_ne_none (h : storage.fault s.tick ≠ none) :
    ∃ e, storage.prepare s = (.error e, { s with tick := s.tick + 1 }) := by
  obtain ⟨f, hf⟩ := Option.ne_none_iff_exists'.mp h
  rw [prepare, hf]
  exact ⟨_, rfl⟩

theorem writeBytes_of_none {path : FilePath} {text : String} (h : storage.fault s.tick = none) :
    storage.writeBytes path text s =
      (.ok ⟨⟩, { s with tick := s.tick + 1, files := s.files ++ [.write path.str text] }) := by
  rw [writeBytes, h]

theorem writeBytes_of_ne_none (path : FilePath) (text : String) (h : storage.fault s.tick ≠ none) :
    ∃ e s', storage.writeBytes path text s = (.error e, s') ∧ s.files <+: s'.files := by
  obtain ⟨f, hf⟩ := Option.ne_none_iff_exists'.mp h
  rw [writeBytes, hf]
  exact ⟨_, _, rfl, List.prefix_append _ _⟩

theorem change_of_none (op : FileOp) (h : storage.fault s.tick = none) :
    storage.change op s = (.ok ⟨⟩, { s with tick := s.tick + 1, files := s.files ++ [op] }) := by
  rw [change, h]

theorem change_of_ne_none (op : FileOp) (h : storage.fault s.tick ≠ none) :
    ∃ e, storage.change op s = (.error e, { s with tick := s.tick + 1 }) := by
  obtain ⟨f, hf⟩ := Option.ne_none_iff_exists'.mp h
  rw [change, hf]
  exact ⟨_, rfl⟩

end Storage

/-! ### When a file is written -/

namespace ExportService

variable {rt : Runtime} {storage : Storage} {render : Db → DateTime → ExportRecord → Except Exc String}

/-- Something keeps a text from being written to its file. -/
def WriteObstructed (rt : Runtime) (storage : Storage) (record : ExportRecord) (accountDir target : FilePath)
    (text : String) (s : Session) : Prop :=
  storage.fault s.tick ≠ none ∨ FilePath.isParent accountDir target = false ∨
    storage.fault (s.tick + 1) ≠ none ∨ storage.fault (s.tick + 2) ≠ none ∨
    storage.fault (s.tick + 3) ≠ none ∨
    rt.rejectsUpdate (.exportRecord (finished rt record target text (.utc (rt.clock (s.tick + 4))))) ≠ none

/-- The session after a text has been written to its file. -/
def writtenSession (rt : Runtime) (record : ExportRecord) (target : FilePath) (text : String) (s : Session) :
    Session :=
  let row := finished rt record target text (.utc (rt.clock (s.tick + 4)))
  let ops := [FileOp.write (temporary target).str text, .replace (temporary target).str target.str]
  { s with
    db := { s.db with exportRecords := s.db.exportRecords.put row }
    tick := s.tick + 5
    files := s.files ++ ops }

variable (rt storage) in
/-- **A file is written** exactly if nothing keeps it from being written. -/
theorem writeFile_cases (record : ExportRecord) (accountDir target : FilePath) (text : String) (s : Session) :
    (¬WriteObstructed rt storage record accountDir target text s ∧
      writeFile rt storage record accountDir target text s =
        (.ok ⟨⟩, writtenSession rt record target text s)) ∨
    (WriteObstructed rt storage record accountDir target text s ∧
      ∃ e s', writeFile rt storage record accountDir target text s = (.error e, s') ∧
        s.files <+: s'.files) := by
  unfold WriteObstructed writeFile
  by_cases h₁ : storage.fault s.tick = none
  swap
  · obtain ⟨e, h⟩ := Storage.prepare_of_ne_none h₁
    exact .inr ⟨.inl h₁, e, _, Tx.bind_of_error h, List.prefix_refl _⟩
  rw [Tx.bind_of_ok (Storage.prepare_of_none h₁)]
  cases hparent : FilePath.isParent accountDir target with
  | false => exact .inr ⟨.inr (.inl rfl), _, _, rfl, List.prefix_refl _⟩
  | true =>
      rw [Tx.raiseIf_neg (by simp), Tx.pure_bind]
      by_cases h₂ : storage.fault (s.tick + 1) = none
      swap
      · obtain ⟨e, s', h, hfiles⟩ := Storage.writeBytes_of_ne_none
          (s := { s with tick := s.tick + 1 }) (temporary target) text h₂
        exact .inr ⟨.inr (.inr (.inl h₂)), e, s', Tx.bind_of_error h, hfiles⟩
      rw [Tx.bind_of_ok (Storage.writeBytes_of_none (s := { s with tick := s.tick + 1 }) h₂)]
      have hmore : s.files <+: s.files ++ [FileOp.write (temporary target).str text] :=
        List.prefix_append _ _
      by_cases h₃ : storage.fault (s.tick + 2) = none
      swap
      · obtain ⟨e, h⟩ := Storage.prepare_of_ne_none
          (s := { s with tick := s.tick + 2, files := s.files ++ [.write (temporary target).str text] }) h₃
        exact .inr ⟨.inr (.inr (.inr (.inl h₃))), e, _, Tx.bind_of_error h, hmore⟩
      rw [Tx.bind_of_ok (Storage.prepare_of_none (s := { s with
        tick := s.tick + 2, files := s.files ++ [.write (temporary target).str text] }) h₃)]
      by_cases h₄ : storage.fault (s.tick + 3) = none
      swap
      · obtain ⟨e, h⟩ := Storage.change_of_ne_none
          (.replace (temporary target).str target.str)
          (s := { s with tick := s.tick + 3, files := s.files ++ [.write (temporary target).str text] }) h₄
        exact .inr ⟨.inr (.inr (.inr (.inr (.inl h₄)))), e, _, Tx.bind_of_error h, hmore⟩
      rw [Tx.bind_of_ok (Storage.change_of_none (.replace (temporary target).str target.str)
        (s := { s with tick := s.tick + 3, files := s.files ++ [.write (temporary target).str text] }) h₄)]
      rw [List.append_assoc]
      rw [Tx.bind_of_ok (m := utcNow rt) rfl]
      rcases hreject : rt.rejectsUpdate
        (.exportRecord (finished rt record target text (.utc (rt.clock (s.tick + 4))))) with _ | code
      · refine .inl ⟨by simp [h₁, h₂, h₃, h₄], ?_⟩
        rw [Relation.save_of_accepted hreject]
        rfl
      · have hsome : (some code : Option String) ≠ none := Option.some_ne_none code
        exact .inr ⟨.inr (.inr (.inr (.inr (.inr hsome)))), .other code, _,
          Relation.save_of_rejected hreject, List.prefix_append _ _⟩

/-- Something keeps the text of a record from being made or written. -/
def FileObstructed (rt : Runtime) (storage : Storage)
    (render : Db → DateTime → ExportRecord → Except Exc String) (record : ExportRecord) (s : Session) : Prop :=
  match render s.db (.utc (rt.clock s.tick)) record, targetOf rt storage record with
  | .ok text, .ok (accountDir, target) =>
    WriteObstructed rt storage record accountDir target text { s with tick := s.tick + 1 }
  | _, _ => True

variable (rt storage render) in
theorem generateFile_cases (record : ExportRecord) (s : Session) :
    (¬FileObstructed rt storage render record s ∧ ∃ target text,
      generateFile rt storage render record s =
        (.ok ⟨⟩, writtenSession rt record target text { s with tick := s.tick + 1 })) ∨
    (FileObstructed rt storage render record s ∧
      ∃ e s', generateFile rt storage render record s = (.error e, s') ∧ s.files <+: s'.files) := by
  unfold FileObstructed generateFile
  rw [Tx.bind_of_ok (m := utcNow rt) (s := s) rfl, Tx.gets_bind_apply]
  change (_ ∧ ∃ target text, (Tx.ofExcept (render s.db (.utc (rt.clock s.tick)) record) >>= _) _ = _) ∨
    (_ ∧ ∃ e s', (Tx.ofExcept (render s.db (.utc (rt.clock s.tick)) record) >>= _) _ = _ ∧ _)
  cases render s.db (.utc (rt.clock s.tick)) record with
  | error e => exact .inr ⟨trivial, e, _, rfl, List.prefix_refl _⟩
  | ok text =>
      cases targetOf rt storage record with
      | error e => exact .inr ⟨trivial, e, _, rfl, List.prefix_refl _⟩
      | ok path =>
          obtain ⟨accountDir, target⟩ := path
          rcases writeFile_cases rt storage record accountDir target text
            { s with tick := s.tick + 1 } with ⟨hfree, h⟩ | ⟨hobstructed, e, s', h, hfiles⟩
          · exact .inl ⟨hfree, target, text, h⟩
          · exact .inr ⟨hobstructed, e, s', h, hfiles⟩

/-- The record names the file that it was written to, with the digest of the text that was written. -/
def Written (rt : Runtime) (files : List FileOp) (record : ExportRecord) : Prop :=
  ∃ path text ops, record.filePath = some path ∧ record.fileDigest = some (rt.sha256 text) ∧
    ops <+: files ∧ FileOp.textOf ops path = some text

theorem Written.mono {files files' : List FileOp} {record : ExportRecord} (h : Written rt files record)
    (hfiles : files <+: files') : Written rt files' record := by
  obtain ⟨path, text, ops, hpath, hdigest, hops, htext⟩ := h
  exact ⟨path, text, ops, hpath, hdigest, hops.trans hfiles, htext⟩

/-- What a generation that returns makes of a record. -/
structure Regenerates (rt : Runtime) (record record' : ExportRecord) (s s' : Session) : Prop where
  id : record'.id = record.id
  db : s'.db = { s.db with exportRecords := s.db.exportRecords.put record' }
  files : s.files <+: s'.files
  state : record'.state = "expired" ∨ record'.state = "completed" ∧ Written rt s'.files record'

/-- Something keeps an unfinished record from being expired or completed. -/
def Obstructed (rt : Runtime) (storage : Storage)
    (render : Db → DateTime → ExportRecord → Except Exc String) (record : ExportRecord) (s : Session) : Prop :=
  if expired record (.utc (rt.clock s.tick)) then
    rt.rejectsUpdate (.exportRecord { record with state := "expired" }) ≠ none
  else FileObstructed rt storage render record { s with tick := s.tick + 1 }

variable (rt storage render) in
/-- **An unfinished record** is expired or completed unless something keeps it from that. -/
theorem generateRow_cases (record : ExportRecord) (s : Session) :
    (¬Obstructed rt storage render record s ∧ ∃ record' s',
      generateRow rt storage render record s = (.ok ⟨⟩, s') ∧ Regenerates rt record record' s s') ∨
    (Obstructed rt storage render record s ∧ ∃ e s',
      generateRow rt storage render record s = (.error e, s') ∧ s.files <+: s'.files) := by
  unfold generateRow Obstructed
  rw [Tx.bind_of_ok (m := utcNow rt) (s := s) rfl]
  cases hexpired : expired record (.utc (rt.clock s.tick)) with
  | true =>
      rw [if_pos rfl, if_pos rfl]
      cases hreject : rt.rejectsUpdate (.exportRecord { record with state := "expired" }) with
      | none =>
          refine .inl ⟨by simp, { record with state := "expired" }, _, Relation.save_of_accepted hreject, ?_⟩
          exact ⟨rfl, rfl, List.prefix_refl _, .inl rfl⟩
      | some code =>
          exact .inr ⟨Option.some_ne_none code, .other code, _, Relation.save_of_rejected hreject,
            List.prefix_refl _⟩
  | false =>
      rw [if_neg (by simp), if_neg (by simp)]
      rcases generateFile_cases rt storage render record
        { s with tick := s.tick + 1 } with ⟨hfree, target, text, h⟩ | ⟨hobstructed, e, s', h, hfiles⟩
      · refine .inl ⟨hfree, finished rt record target text (.utc (rt.clock (s.tick + 1 + 1 + 4))), _, h, rfl,
          rfl, List.prefix_append _ _, .inr ⟨rfl, ?_⟩⟩
        exact ⟨_, text, _, rfl, rfl, List.prefix_refl _, FileOp.textOf_replaced _ _ _ _⟩
      · exact .inr ⟨hobstructed, e, s', h, hfiles⟩

/-- **`generate`** of a record that is there. -/
theorem generate_of_found {exportId : Uuid} {record : ExportRecord} {s : Session}
    (hfind : s.db.exportRecords.find? exportId = some record) :
    generate rt storage render exportId s =
      if record.state = "completed" then (.ok ⟨⟩, s) else generateRow rt storage render record s := by
  unfold generate
  rw [Relation.find, Tx.gets_bind_apply]
  change (match s.db.exportRecords.find? exportId with
    | none => pure ⟨⟩
    | some record => _ : Work PUnit) s = _
  rw [hfind]
  dsimp only
  split <;> rfl

theorem generate_of_absent {exportId : Uuid} {s : Session}
    (hfind : s.db.exportRecords.find? exportId = none) :
    generate rt storage render exportId s = (.ok ⟨⟩, s) := by
  unfold generate
  rw [Relation.find, Tx.gets_bind_apply]
  change (match s.db.exportRecords.find? exportId with
    | none => pure ⟨⟩
    | some record => _ : Work PUnit) s = _
  rw [hfind]
  rfl

/-! ### What expires -/

/-- Records may have become expired, and files have been deleted; the jobs are as they were. -/
structure Expiring (s s' : Session) : Prop where
  records : ∀ id record', s'.db.exportRecords.find? id = some record' →
    record'.state = "expired" ∨ s.db.exportRecords.find? id = some record'
  found : ∀ id, s.db.exportRecords.find? id ≠ none → s'.db.exportRecords.find? id ≠ none
  jobs : s'.db.backgroundJobs = s.db.backgroundJobs
  files : s.files <+: s'.files

theorem Expiring.of_same {s s' : Session}
    (h : Same (fun db => (db.exportRecords, db.backgroundJobs)) s s') (hfiles : s.files <+: s'.files) :
    Expiring s s' := by
  obtain ⟨hrecords, hjobs⟩ := Prod.mk.inj h
  refine ⟨fun id record' hfind => .inr ?_, fun id hid => ?_, hjobs, hfiles⟩
  · rw [← hrecords]
    exact hfind
  · rw [hrecords]
    exact hid

instance : Std.Refl Expiring := ⟨fun _ => .of_same rfl (List.prefix_refl _)⟩

instance : IsTrans Session Expiring where
  trans _ _ _ h h' :=
    { records := fun id record' hfind => (h'.records id record' hfind).elim .inl (h.records id record')
      found := fun id hid => h'.found id (h.found id hid)
      jobs := h'.jobs.trans h.jobs
      files := h.files.trans h'.files }

theorem change_expiring (op : FileOp) : Tx.Keeps Expiring (storage.change op) := by
  intro s
  unfold Storage.change
  split
  · exact .of_same rfl (List.prefix_refl _)
  · exact .of_same rfl (List.prefix_append _ _)

theorem unlink_expiring (record : ExportRecord) : Tx.Keeps Expiring (unlink storage record) := by
  refine (Tx.Keeps.gets _).bind fun files => ?_
  split
  · exact Tx.Keeps.pure _
  · dsimp only
    split
    · exact change_expiring _
    · exact Tx.Keeps.pure _

theorem saveExpired_expiring {record : ExportRecord} (hstate : record.state = "expired") :
    Tx.Keeps Expiring (Db.exportRecord.save rt record) := by
  intro s
  unfold Relation.save
  split
  · exact .of_same rfl (List.prefix_refl _)
  · refine ⟨fun id record' hfind => ?_, fun id hid => ?_, rfl, List.prefix_refl _⟩
    · rcases Table.mem_put_iff.mp (Table.mem_of_find? hfind) with ⟨hmem, -⟩ | ⟨rfl, -⟩
      · right
        rw [← Table.key_of_find? hfind]
        exact Table.find?_of_mem hmem
      · exact .inl hstate
    · obtain ⟨old, hold⟩ := Option.ne_none_iff_exists'.mp hid
      change (s.db.exportRecords.put record).find? id ≠ none
      by_cases heq : id = record.id
      · rw [heq] at hold ⊢
        rw [Table.find?_put_self hold]
        exact Option.some_ne_none _
      · rw [Table.find?_put_of_ne heq]
        exact hid

theorem purgeExpired_expiring : Tx.Keeps Expiring (purgeExpired rt storage) := by
  have hnow : Tx.Keeps Expiring (utcNow rt) := fun _ => .of_same rfl (List.prefix_refl _)
  refine hnow.bind fun now => (Tx.Keeps.gets _).bind fun rows => ?_
  refine Tx.Keeps.bind (Tx.Keeps.forEach fun record => ?_) fun _ => Tx.Keeps.pure _
  exact (unlink_expiring _).bind fun _ => saveExpired_expiring rfl

end ExportService

end KajovoDagmar
