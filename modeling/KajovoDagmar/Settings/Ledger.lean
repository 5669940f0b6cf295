import KajovoDagmar.Db.Sample
import KajovoDagmar.Library.ReadCommitted
import KajovoDagmar.Library.VersionLedger
import KajovoDagmar.Providers.Recommendations

/-! # The ledger of the settings

The transactions of `update_area`, `restore_revision` and `apply_recommended` on the settings under READ
COMMITTED.  A session knows the objects that it has loaded as long as something holds them: a row that it loads
again, now locked, has the attributes of the earlier load if its object is still alive, and its own otherwise.  So
the version that is checked and counted up may be an earlier one; the revision number that follows it is taken
then, and the transaction rolls back.

The check of the selected model, the audit events and the requests to index the memory concern other tables;
they can raise, which is an abort. -/

namespace KajovoDagmar.SettingsService

open SettingsCatalog ReadCommitted

/-! ### What a transaction writes -/

/-- Area and key of a setting. -/
abbrev Place := String × String

inductive ChangeKind where
  | changed
  | restored
  | automaticRecommendation

def ChangeKind.text : ChangeKind → String
  | changed => "changed"
  | restored => "restored"
  | automaticRecommendation => "automatic_recommendation"

/-- A setting that a transaction writes: its row object, if there is one, and the new value.  `base` is the
version that the caller has seen; the recommendations have none. -/
structure SettingWrite where
  d : SettingDefinition
  value : Json
  accountId : Uuid
  found : Option ApplicationSetting
  base : Option ℤ
  kind : ChangeKind

namespace SettingWrite

def place (w : SettingWrite) : Place := (w.d.area, w.d.key)

/-- The setting and the version that the caller has seen. -/
def based (w : SettingWrite) : Option (Place × ℤ) := w.base.map fun base => (w.place, base)

def saveRestored (rt : Runtime) (row : ApplicationSetting) : Work ApplicationSetting := do
  Db.applicationSetting.save rt row
  pure row

/-- The row as it is written. -/
def put (rt : Runtime) (w : SettingWrite) : Work ApplicationSetting :=
  match w.kind, w.found with
  | .restored, some row => saveRestored rt (restored row w.d w.value w.accountId)
  | _, found => storeSetting rt w.d w.value w.accountId found

/-- The row and its revision. -/
def perform (rt : Runtime) (w : SettingWrite) : Work PUnit := do
  let row ← w.put rt
  addRevision rt row w.value w.d.effectBoundary w.kind.text w.accountId

end SettingWrite

/-! ### The programs -/

/-- A setting that a transaction is asked to write. -/
inductive SettingTask where
  | change (area : String) (accountId : Uuid) (key : String) (request : Json)
  | restore (area : String) (accountId : Uuid) (key : String) (revisionNumber expectedVersion : ℤ)
  | recommend (accountId : Uuid) (key modelId : String)

namespace SettingTask

def place : SettingTask → Place
  | change area _ key _ => (area, key)
  | restore area _ key _ _ => (area, key)
  | recommend _ key _ => ("models", key)

def accountId : SettingTask → Uuid
  | change _ accountId _ _ => accountId
  | restore _ accountId _ _ _ => accountId
  | recommend accountId _ _ => accountId

/-- What is known before the row is read: the definition, the value unless it is that of a revision, and the
expected version. -/
structure Prepared where
  d : SettingDefinition
  value : Option Json
  expected : Option ℤ

def prepare (rt : Runtime) : SettingTask → Except Exc Prepared
  | change area _ key request =>
    match byKey area key with
    | none => .error (settingUnknown area key)
    | some d => do
      let value ← validateValue d (request.getD "value" .null)
      let expected ← pyInt rt (request.getD "version" (.int 0))
      pure ⟨d, some value, some expected⟩
  | restore area _ key _ expectedVersion =>
    match byKey area key with
    | none => .error (settingUnknown area key)
    | some d => pure ⟨d, none, some expectedVersion⟩
  | recommend _ key modelId =>
    match byKey "models" key with
    | none => .error (.other "KeyError")
    | some d => pure ⟨d, some (.str modelId), none⟩

def kind : SettingTask → ChangeKind
  | change .. => .changed
  | restore .. => .restored
  | recommend .. => .automaticRecommendation

/-- The number of the revision whose value is restored. -/
def revisionNumber : SettingTask → Option ℤ
  | restore _ _ _ revisionNumber _ => some revisionNumber
  | _ => none

end SettingTask

/-- A call of one of the services; `roles` are the options that the recommendations are taken from. -/
inductive SettingCall where
  | updateArea (area : String) (changes : List (String × Json)) (accountId : Uuid)
  | restoreRevision (area key : String) (revisionNumber expectedVersion : ℤ) (accountId : Uuid)
  | applyRecommended (roles : List RoleOptions) (accountId : Uuid)

namespace SettingCall

def tasks : SettingCall → List SettingTask
  | updateArea area changes accountId => changes.map fun c => .change area accountId c.1 c.2
  | restoreRevision area key revisionNumber expectedVersion accountId =>
    [.restore area accountId key revisionNumber expectedVersion]
  | applyRecommended roles accountId =>
    roles.filterMap fun role => role.recommendedModelId.map fun modelId => .recommend accountId role.role modelId

/-- The settings that the call loads before it locks any. -/
def reads : SettingCall → List Place
  | applyRecommended roles _ => roles.map fun role => ("models", role.role)
  | _ => []

end SettingCall

/-- The session of a transaction: the objects that it has loaded, the last one first, and what it is going to
commit.  `alive n id` says whether the object of the row `id` is still alive after `n` loads; nothing is assumed
of it. -/
structure Opened where
  alive : ℕ → Uuid → Bool
  objects : List ApplicationSetting := []
  writes : List SettingWrite := []

/-- The object of a row: the one that was loaded before, if it is still alive. -/
def Opened.object (o : Opened) (row : ApplicationSetting) : ApplicationSetting :=
  ((o.objects.find? fun x => x.id = row.id).filter fun _ => o.alive o.objects.length row.id).getD row

/-- A row is loaded. -/
def Opened.load (o : Opened) (row : ApplicationSetting) : Opened := { o with objects := o.object row :: o.objects }

/-- The points of a transaction. -/
inductive SettingTxn where
  /-- A session that has read `seen` before it calls the service. -/
  | opening (alive : ℕ → Uuid → Bool) (seen : List Place) (call : SettingCall)
  | loading (o : Opened) (places : List Place) (tasks : List SettingTask)
  | running (o : Opened) (tasks : List SettingTask)
  | locking (o : Opened) (task : SettingTask) (p : SettingTask.Prepared) (tasks : List SettingTask)
  | restoring (o : Opened) (task : SettingTask) (p : SettingTask.Prepared) (row : ApplicationSetting)
      (number : ℤ) (tasks : List SettingTask)
  | failed

/-- The committed rows, and the settings with the base versions of the calls that have committed. -/
structure SettingStore where
  session : Session
  commits : List (Place × ℤ) := []

namespace SettingTxn

variable (rt : Runtime)

def written (task : SettingTask) (p : SettingTask.Prepared) (found : Option ApplicationSetting)
    (value : Json) : SettingWrite :=
  { d := p.d, value := value, accountId := task.accountId, found := found, base := p.expected
    kind := task.kind }

/-- The checks on the row object, and what is written then. -/
def checked (o : Opened) (task : SettingTask) (p : SettingTask.Prepared) (found : Option ApplicationSetting)
    (tasks : List SettingTask) : SettingTxn :=
  if p.expected.any (fun expected => versionOf found ≠ expected) then failed
  else
    match task.revisionNumber, found, p.value with
    | some number, some row, _ => restoring o task p row number tasks
    | none, found, some value => running { o with writes := o.writes ++ [written task p found value] } tasks
    | _, _, _ => failed

/-- The value of a revision is written back. -/
def restoredFrom (o : Opened) (task : SettingTask) (p : SettingTask.Prepared) (row : ApplicationSetting)
    (tasks : List SettingTask) (revision : Option ApplicationSettingRevision) : SettingTxn :=
  match revision with
  | none => failed
  | some revision =>
    match validateValue p.d (revision.value.getD "value" .null) with
    | .error _ => failed
    | .ok value => running { o with writes := o.writes ++ [written task p (some row) value] } tasks

/-- All the writes in one go, each with its base version on record. -/
def publish (writes : List SettingWrite) (store : SettingStore) : Option SettingStore :=
  match Tx.forEach (SettingWrite.perform rt) writes store.session with
  | (.ok _, session) =>
    some ⟨session, store.commits ++ writes.filterMap SettingWrite.based⟩
  | (.error _, _) => none

def revision? (db : Db) (settingId : Uuid) (number : ℤ) : Option ApplicationSettingRevision :=
  (db.applicationSettingRevisions.select fun r => r.settingId = settingId ∧ r.revisionNumber = number).head?

def stmt : SettingTxn → Stmt Place SettingStore SettingTxn
  | opening alive seen call => .read fun _ => loading { alive := alive } (seen ++ call.reads) call.tasks
  | loading o [] tasks => .read fun _ => running o tasks
  | loading o (place :: places) tasks => .read fun store =>
    match store.session.db.setting? place.1 place.2 with
    | none => loading o places tasks
    | some row => loading (o.load row) places tasks
  | running o [] => .commit (publish rt o.writes)
  | running o (task :: tasks) => .read fun store =>
    match task.prepare rt with
    | .error _ => failed
    | .ok p =>
      -- A row that is not there is not locked.
      match store.session.db.setting? task.place.1 task.place.2 with
      | none => checked o task p none tasks
      | some _ => locking o task p tasks
  | locking o task p tasks => .lock task.place fun store =>
    checked o task p ((store.session.db.setting? task.place.1 task.place.2).map o.object) tasks
  | restoring o task p row number tasks => .read fun store =>
    restoredFrom o task p row tasks (revision? store.session.db row.id number)
  | failed => .commit fun _ => none

/-- The settings of a call are distinct: they are the keys of a dictionary or the roles. -/
def initial : SettingTxn → Bool
  | opening _ _ call => decide (call.tasks.map SettingTask.place).Nodup
  | _ => false

def step := ReadCommitted.step (stmt rt) initial

end SettingTxn

/-! ### The ledger -/

/-- Settings and their revisions. -/
def settingVersioning : Versioning ApplicationSetting ApplicationSettingRevision Uuid where
  key := ApplicationSetting.id
  version := ApplicationSetting.version
  owner := ApplicationSettingRevision.settingId
  number := ApplicationSettingRevision.revisionNumber
  Describes r row := r.value = row.value

def settingLedger (db : Db) : Ledger settingVersioning :=
  ⟨db.applicationSettings, db.applicationSettingRevisions.rows⟩

def placeOf (row : ApplicationSetting) : Place := (row.area, row.key)

/-- No two settings have one place. -/
def Distinct (db : Db) : Prop :=
  ∀ r ∈ db.applicationSettings, ∀ r' ∈ db.applicationSettings, placeOf r = placeOf r' → r = r'

/-- What holds of every committed state. -/
structure Kept (store : SettingStore) : Prop where
  complete : (settingLedger store.session.db).Complete
  distinct : Distinct store.session.db
  based : ∀ c ∈ store.commits, ∃ row ∈ store.session.db.applicationSettings,
    placeOf row = c.1 ∧ c.2 < row.version
  once : store.commits.Nodup

/-- The object is the row as it stands, or was loaded in an earlier version of it. -/
def LoadedSetting (db : Db) (x : ApplicationSetting) : Prop :=
  ∃ row, db.applicationSettings.find? x.id = some row ∧ placeOf row = placeOf x ∧
    (x = row ∨ 1 ≤ x.version ∧ x.version < row.version)

/-- The rows stay, in their places, and change only to later versions. -/
def Grown (db db' : Db) : Prop :=
  ∀ id row, db.applicationSettings.find? id = some row → ∃ row',
    db'.applicationSettings.find? id = some row' ∧ placeOf row' = placeOf row ∧
    (row' = row ∨ row.version < row'.version)

theorem Grown.refl (db : Db) : Grown db db := fun _ row hrow => ⟨row, hrow, rfl, .inl rfl⟩

theorem Grown.trans {db db' db'' : Db} (h : Grown db db') (h' : Grown db' db'') : Grown db db'' := by
  intro id row hrow
  obtain ⟨row₁, hrow₁, hplace₁, hfirst⟩ := h id row hrow
  obtain ⟨row₂, hrow₂, hplace₂, hsecond⟩ := h' id row₁ hrow₁
  refine ⟨row₂, hrow₂, hplace₂.trans hplace₁, ?_⟩
  rcases hfirst with rfl | hlt
  · exact hsecond
  · rcases hsecond with rfl | hlt'
    · exact .inr hlt
    · exact .inr (hlt.trans hlt')

/-- A loaded object stays a row or an earlier version of it. -/
theorem LoadedSetting.grown {db db' : Db} {x : ApplicationSetting} (h : LoadedSetting db x)
    (hc : (settingLedger db).Complete) (hg : Grown db db') : LoadedSetting db' x := by
  obtain ⟨row, hrow, hplace, hx⟩ := h
  have hpos : 1 ≤ row.version := hc.version_pos (Table.mem_of_find? hrow)
  obtain ⟨row', hrow', hplace', hchange⟩ := hg x.id row hrow
  refine ⟨row', hrow', hplace'.trans hplace, ?_⟩
  rcases hchange with rfl | hlt
  · exact hx
  · rcases hx with rfl | ⟨h₁, h₂⟩
    · exact .inr ⟨hpos, hlt⟩
    · exact .inr ⟨h₁, h₂.trans hlt⟩

/-- What a transaction knows about a write that is to come. -/
structure SettingWrite.Known (db : Db) (w : SettingWrite) : Prop where
  loaded : ∀ x, w.found = some x → LoadedSetting db x ∧ placeOf x = w.place
  base : ∀ base, w.base = some base → base = versionOf w.found

theorem SettingWrite.Known.grown {db db' : Db} {w : SettingWrite} (h : w.Known db)
    (hc : (settingLedger db).Complete) (hg : Grown db db') : w.Known db' where
  loaded x hx := ⟨(h.loaded x hx).1.grown hc hg, (h.loaded x hx).2⟩
  base := h.base

/-! ### One write -/

variable {rt : Runtime}

/-- A revision that is added has a free number. -/
theorem addRevision_ok {row : ApplicationSetting} {value : Json} {effectBoundary kind : String}
    {accountId : Uuid} {s s' : Session} {u : PUnit}
    (h : addRevision rt row value effectBoundary kind accountId s = (.ok u, s')) :
    s'.db.applicationSettings = s.db.applicationSettings ∧ ∃ id,
      s'.db.applicationSettingRevisions.rows = s.db.applicationSettingRevisions.rows ++
        [revisionOf id row value effectBoundary kind accountId] ∧
      row.version ∉ ((settingLedger s.db).recordsOf row.id).map ApplicationSettingRevision.revisionNumber := by
  obtain ⟨id, s₁, hid, hadd⟩ := Tx.bind_eq_ok h
  obtain ⟨-, rfl⟩ := Prod.mk.inj hid
  obtain ⟨t, ht, rfl⟩ := Relation.add_eq_ok hadd
  obtain ⟨hinsert, hclash⟩ := Relation.insertRow_eq_ok ht
  refine ⟨rfl, _, (Table.insert?_eq_some hinsert).1, ?_⟩
  intro hmem
  obtain ⟨r, hr, hnumber⟩ := List.mem_map.mp hmem
  obtain ⟨hr, howner⟩ := List.mem_filter.mp hr
  have hnone := hclash r hr
  simp only [Db.applicationSettingRevision] at hnone
  rw [if_pos ⟨of_decide_eq_true howner, hnumber⟩] at hnone
  simp at hnone

/-- What one write has done: the next version of the row that stands, or a new row. -/
structure Performed (w : SettingWrite) (db db' : Db) : Prop where
  step : Ledger.Step (settingLedger db) (settingLedger db')
  grown : Grown db db'
  distinct : Distinct db'
  /-- The object was the row as it stands, and nothing stood in the place of a new row. -/
  current : ∀ row ∈ db.applicationSettings, placeOf row = w.place → row.version = versionOf w.found
  written : ∃ row ∈ db'.applicationSettings, placeOf row = w.place ∧ row.version = versionOf w.found + 1

/-- An object whose next version has no revision is the row as it stands. -/
theorem LoadedSetting.current {db : Db} {x : ApplicationSetting} (h : LoadedSetting db x)
    (hc : (settingLedger db).Complete)
    (hfree : x.version + 1 ∉ ((settingLedger db).recordsOf x.id).map ApplicationSettingRevision.revisionNumber) :
    db.applicationSettings.find? x.id = some x := by
  obtain ⟨row, hrow, -, rfl | ⟨hpos, hlt⟩⟩ := h
  · exact hrow
  · have hmem : row ∈ (settingLedger db).rows := Table.mem_of_find? hrow
    have hid : row.id = x.id := Table.key_of_find? hrow
    have hsame : x.version = row.version := by
      refine hc.eq_version_of_free hmem (by omega) hlt.le ?_
      show x.version + 1 ∉ ((settingLedger db).recordsOf row.id).map ApplicationSettingRevision.revisionNumber
      rw [hid]
      exact hfree
    omega

/-- The next version of a loaded object is written to its row, with its revision. -/
theorem performed_of_save {w : SettingWrite} {x row : ApplicationSetting} {effectBoundary kind : String}
    {s s₁ s' : Session} {u v : PUnit} (hc : (settingLedger s.db).Complete) (hdistinct : Distinct s.db)
    (hfound : w.found = some x) (hl : LoadedSetting s.db x) (hplace : placeOf x = w.place)
    (hid : row.id = x.id) (hversion : row.version = x.version + 1) (hsame : placeOf row = placeOf x)
    (hvalue : row.value = stored w.value)
    (hsave : Db.applicationSetting.save rt row s = (.ok v, s₁))
    (hadd : addRevision rt row w.value effectBoundary kind w.accountId s₁ = (.ok u, s')) :
    Performed w s.db s'.db := by
  obtain rfl := Relation.save_eq_ok hsave
  obtain ⟨hsettings, id, hrevisions, hfree⟩ := addRevision_ok hadd
  have hrows : s'.db.applicationSettings = s.db.applicationSettings.put row := hsettings
  have hcurrent : s.db.applicationSettings.find? x.id = some x := by
    refine hl.current hc ?_
    rw [← hversion, ← hid]
    exact hfree
  have hold : x ∈ s.db.applicationSettings := Table.mem_of_find? hcurrent
  constructor
  · have hafter : settingLedger s'.db = ⟨(settingLedger s.db).rows.put row, (settingLedger s.db).records ++
        [revisionOf id row w.value effectBoundary kind w.accountId]⟩ := by
      unfold settingLedger
      rw [hrows, hrevisions]
      rfl
    rw [hafter]
    have hfind : (settingLedger s.db).rows.find? row.id = some x := by
      rw [hid]
      exact hcurrent
    exact .revise (L := settingLedger s.db) hfind hversion ⟨rfl, rfl, hvalue.symm⟩
  · intro k y hy
    rw [hrows]
    by_cases hk : k = row.id
    · subst hk
      obtain rfl : y = x := Option.some.inj (hy.symm.trans (hid ▸ hcurrent))
      exact ⟨row, Table.find?_put_self hy, hsame, .inr (by omega)⟩
    · exact ⟨y, (Table.find?_put_of_ne (by exact hk)).trans hy, rfl, .inl rfl⟩
  · -- The row keeps its place, so its place is that of the object alone.
    have hback : ∀ r ∈ s'.db.applicationSettings,
        ∃ r₀ ∈ s.db.applicationSettings, placeOf r₀ = placeOf r ∧ r₀.id = r.id := by
      intro r hr
      rw [hrows] at hr
      rcases Table.mem_put_iff.mp hr with ⟨hr, -⟩ | ⟨rfl, -⟩
      · exact ⟨r, hr, rfl, rfl⟩
      · exact ⟨x, hold, hsame.symm, hid.symm⟩
    intro r hr r' hr' hplaces
    obtain ⟨r₀, hr₀, hp, hi⟩ := hback r hr
    obtain ⟨r₀', hr₀', hp', hi'⟩ := hback r' hr'
    obtain rfl := hdistinct r₀ hr₀ r₀' hr₀' (hp.trans (hplaces.trans hp'.symm))
    exact Table.eq_of_key hr hr' (hi.symm.trans hi')
  · intro r hr hplaced
    obtain rfl := hdistinct r hr x hold (hplaced.trans hplace.symm)
    rw [hfound]
    rfl
  · refine ⟨row, ?_, hsame.trans hplace, ?_⟩
    · rw [hrows]
      exact Table.mem_put_iff.mpr (.inr ⟨rfl, x, hold, hid.symm⟩)
    · rw [hfound]
      exact hversion

/-- A new setting is added, with its first revision. -/
theorem performed_of_add {w : SettingWrite} {row : ApplicationSetting} {effectBoundary kind : String}
    {s s₁ s' : Session} {u v : PUnit} (hdistinct : Distinct s.db) (hfound : w.found = none)
    (hplace : placeOf row = w.place) (hversion : row.version = 1) (hvalue : row.value = stored w.value)
    (hinsert : Db.applicationSetting.add rt row s = (.ok v, s₁))
    (hadd : addRevision rt row w.value effectBoundary kind w.accountId s₁ = (.ok u, s')) :
    Performed w s.db s'.db := by
  obtain ⟨t, ht, rfl⟩ := Relation.add_eq_ok hinsert
  obtain ⟨hrow, hclash⟩ := Relation.insertRow_eq_ok ht
  obtain ⟨hsettings, id, hrevisions, -⟩ := addRevision_ok hadd
  have hrows : s'.db.applicationSettings = t := hsettings
  have hfree : ∀ r ∈ s.db.applicationSettings, placeOf r ≠ placeOf row := by
    intro r hr hplaces
    have hnone := hclash r hr
    simp only [Db.applicationSetting] at hnone
    rw [if_pos (Prod.mk.inj hplaces)] at hnone
    simp at hnone
  have hmem : ∀ r, r ∈ s'.db.applicationSettings ↔ r ∈ s.db.applicationSettings ∨ r = row := by
    intro r
    rw [hrows]
    exact Table.mem_insert? hrow
  constructor
  · have hafter : settingLedger s'.db = ⟨t, (settingLedger s.db).records ++
        [revisionOf id row w.value effectBoundary kind w.accountId]⟩ := by
      unfold settingLedger
      rw [hrows, hrevisions]
      rfl
    rw [hafter]
    exact .create (L := settingLedger s.db) hrow hversion ⟨rfl, rfl, hvalue.symm⟩
  · intro k y hy
    rw [hrows]
    exact ⟨y, Table.find?_insert? hrow hy, rfl, .inl rfl⟩
  · intro r hr r' hr' hplaces
    rcases (hmem r).mp hr with hr | rfl <;> rcases (hmem r').mp hr' with hr' | rfl
    · exact hdistinct r hr r' hr' hplaces
    · exact absurd hplaces (hfree r hr)
    · exact absurd hplaces.symm (hfree r' hr')
    · rfl
  · intro r hr hplaced
    exact absurd (hplaced.trans hplace.symm) (hfree r hr)
  · refine ⟨row, (hmem row).mpr (.inr rfl), hplace, ?_⟩
    rw [hfound, hversion]
    rfl

/-- **A write that is performed** has written the next version of the row that stands, or a new row. -/
theorem SettingWrite.performed {w : SettingWrite} {s s' : Session} {u : PUnit}
    (hc : (settingLedger s.db).Complete) (hdistinct : Distinct s.db) (hk : w.Known s.db)
    (h : w.perform rt s = (.ok u, s')) : Performed w s.db s'.db := by
  obtain ⟨row, s₁, hput, hadd⟩ := Tx.bind_eq_ok h
  have hsaved : ∀ x row', w.found = some x → row'.id = x.id → row'.version = x.version + 1 →
      placeOf row' = placeOf x → row'.value = stored w.value →
      (do
        Db.applicationSetting.save rt row'
        pure row' : Work ApplicationSetting) s = (.ok row, s₁) → Performed w s.db s'.db := by
    intro x row' hfound hid hversion hsame hvalue hsave
    obtain ⟨hl, hplace⟩ := hk.loaded x hfound
    obtain ⟨v, s₂, hsave, hpure⟩ := Tx.bind_eq_ok hsave
    cases hpure
    exact performed_of_save hc hdistinct hfound hl hplace hid hversion hsame hvalue hsave hadd
  have hstored : ∀ found, w.found = found → storeSetting rt w.d w.value w.accountId found s = (.ok row, s₁) →
      Performed w s.db s'.db := by
    intro found hfound hstored
    cases found with
    | none =>
      obtain ⟨id, s₂, hid, hstored⟩ := Tx.bind_eq_ok hstored
      obtain ⟨-, rfl⟩ := Prod.mk.inj hid
      obtain ⟨v, s₃, hinsert, hpure⟩ := Tx.bind_eq_ok hstored
      cases hpure
      exact performed_of_add (s := { s with tick := s.tick + 1 }) hdistinct hfound rfl rfl rfl hinsert hadd
    | some x => exact hsaved x (changed x w.value w.accountId) hfound rfl rfl rfl rfl hstored
  rw [put] at hput
  cases hkind : w.kind <;> cases hfound : w.found <;> rw [hkind, hfound] at hput
  case restored.some x => exact hsaved x (restored x w.d w.value w.accountId) hfound rfl rfl rfl rfl hput
  all_goals exact hstored _ hfound hput

/-! ### The writes of one transaction -/

/-- **Step lemma**: one write keeps the ledger and takes a base version that no call has committed on. -/
theorem Kept.perform {w : SettingWrite} {s s' : Session} {u : PUnit} {commits : List (Place × ℤ)}
    (h : Kept ⟨s, commits⟩) (hk : w.Known s.db) (hperform : w.perform rt s = (.ok u, s')) :
    Kept ⟨s', commits ++ w.based.toList⟩ ∧ Grown s.db s'.db := by
  have hp := SettingWrite.performed h.complete h.distinct hk hperform
  refine ⟨⟨h.complete.step hp.step, hp.distinct, ?_, ?_⟩, hp.grown⟩
  · intro c hc
    rcases List.mem_append.mp hc with hc | hc
    · obtain ⟨row, hrow, hplace, hlt⟩ := h.based c hc
      obtain ⟨row', hrow', hplace', hchange⟩ := hp.grown row.id row (Table.find?_of_mem hrow)
      refine ⟨row', Table.mem_of_find? hrow', hplace'.trans hplace, ?_⟩
      rcases hchange with rfl | hlt'
      · exact hlt
      · exact hlt.trans hlt'
    · obtain ⟨base, hbase, rfl⟩ := Option.map_eq_some_iff.mp (Option.mem_toList.mp hc)
      obtain ⟨row, hrow, hplace, hversion⟩ := hp.written
      refine ⟨row, hrow, hplace, ?_⟩
      rw [hversion, ← hk.base base hbase]
      exact Int.lt_succ base
  · refine List.nodup_append.mpr ⟨h.once, ?_, ?_⟩
    · cases w.based with
      | none => exact List.nodup_nil
      | some c => exact List.nodup_singleton c
    · -- What was committed on is a version before the one that stands.
      rintro c hc c' hc' rfl
      obtain ⟨base, hbase, rfl⟩ := Option.map_eq_some_iff.mp (Option.mem_toList.mp hc')
      obtain ⟨row, hrow, hplace, hlt⟩ := h.based _ hc
      have hcurrent := hp.current row hrow hplace
      rw [hcurrent, ← hk.base base hbase] at hlt
      exact lt_irrefl _ hlt

theorem Kept.performAll {writes : List SettingWrite} {s s' : Session} {us : List PUnit}
    {commits : List (Place × ℤ)} (h : Kept ⟨s, commits⟩) (hk : ∀ w ∈ writes, w.Known s.db)
    (hperform : Tx.forEach (SettingWrite.perform rt) writes s = (.ok us, s')) :
    Kept ⟨s', commits ++ writes.filterMap SettingWrite.based⟩ ∧ Grown s.db s'.db := by
  induction writes generalizing s us commits with
  | nil =>
    obtain ⟨-, rfl⟩ := Prod.mk.inj hperform
    rw [List.filterMap_nil, List.append_nil]
    exact ⟨h, .refl _⟩
  | cons w rest ih =>
    obtain ⟨u, s₁, hfirst, hrest⟩ := Tx.bind_eq_ok hperform
    obtain ⟨us', s₂, hall, hpure⟩ := Tx.bind_eq_ok hrest
    obtain ⟨-, rfl⟩ := Prod.mk.inj hpure
    obtain ⟨hkept, hgrown⟩ := h.perform (hk w List.mem_cons_self) hfirst
    have hknown : ∀ w' ∈ rest, w'.Known s₁.db :=
      fun w' hw' => (hk w' (List.mem_cons_of_mem _ hw')).grown h.complete hgrown
    obtain ⟨hkept', hgrown'⟩ := ih hkept hknown hall
    have hbased : commits ++ (w :: rest).filterMap SettingWrite.based =
        commits ++ w.based.toList ++ rest.filterMap SettingWrite.based := by
      rw [List.append_assoc]
      cases hw : w.based <;> simp [hw]
    rw [hbased]
    exact ⟨hkept', hgrown.trans hgrown'⟩

theorem Kept.publish {writes : List SettingWrite} {store store' : SettingStore} (h : Kept store)
    (hk : ∀ w ∈ writes, w.Known store.session.db) (hpublish : SettingTxn.publish rt writes store = some store') :
    Kept store' ∧ Grown store.session.db store'.session.db := by
  rw [SettingTxn.publish] at hpublish
  rcases hall : Tx.forEach (SettingWrite.perform rt) writes store.session with ⟨e | us, session⟩ <;>
    rw [hall] at hpublish
  · cases hpublish
  · obtain rfl := Option.some.inj hpublish
    exact Kept.performAll h hk hall

/-! ### What a transaction knows -/

structure Opened.Known (db : Db) (o : Opened) : Prop where
  objects : ∀ x ∈ o.objects, LoadedSetting db x
  writes : ∀ w ∈ o.writes, w.Known db

theorem Opened.Known.grown {db db' : Db} {o : Opened} (h : o.Known db) (hc : (settingLedger db).Complete)
    (hg : Grown db db') : o.Known db' where
  objects x hx := (h.objects x hx).grown hc hg
  writes w hw := (h.writes w hw).grown hc hg

theorem mem_of_setting? {db : Db} {area key : String} {row : ApplicationSetting}
    (h : db.setting? area key = some row) :
    db.applicationSettings.find? row.id = some row ∧ placeOf row = (area, key) := by
  have hmem := List.mem_of_mem_head? (Option.mem_def.mpr h)
  obtain ⟨hrow, hplace⟩ := List.mem_filter.mp hmem
  obtain ⟨harea, hkey⟩ := of_decide_eq_true hplace
  exact ⟨Table.find?_of_mem hrow, Prod.ext harea hkey⟩

theorem LoadedSetting.of_find? {db : Db} {row : ApplicationSetting}
    (h : db.applicationSettings.find? row.id = some row) : LoadedSetting db row := ⟨row, h, rfl, .inl rfl⟩

/-- The object of a row is the row or an earlier version of it. -/
theorem Opened.Known.object {db : Db} {o : Opened} {row : ApplicationSetting} (h : o.Known db)
    (hrow : db.applicationSettings.find? row.id = some row) :
    LoadedSetting db (o.object row) ∧ placeOf (o.object row) = placeOf row := by
  rw [Opened.object]
  cases hfind : (o.objects.find? fun x => x.id = row.id).filter fun _ => o.alive o.objects.length row.id with
  | none => exact ⟨.of_find? hrow, rfl⟩
  | some x =>
    have hsome := (Option.filter_eq_some_iff.mp hfind).1
    have hfound := List.find?_some hsome
    have hid : x.id = row.id := of_decide_eq_true hfound
    have hloaded := h.objects x (List.mem_of_find?_eq_some hsome)
    obtain ⟨row', hrow', hplace, hversion⟩ := hloaded
    obtain rfl : row' = row := Option.some.inj (hrow'.symm.trans (hid ▸ hrow))
    exact ⟨⟨row', hrow', hplace, hversion⟩, hplace.symm⟩

theorem prepare_place {task : SettingTask} {p : SettingTask.Prepared} (h : task.prepare rt = .ok p) :
    (p.d.area, p.d.key) = task.place := by
  have hbyKey : ∀ {area key : String} {d : SettingDefinition}, byKey area key = some d →
      (d.area, d.key) = (area, key) := by
    intro area key d hd
    have hfound := List.find?_some hd
    obtain ⟨harea, hkey⟩ := of_decide_eq_true hfound
    exact Prod.ext harea hkey
  cases task with
  | change area accountId key request =>
    rw [SettingTask.prepare] at h
    cases hd : byKey area key with
    | none =>
      rw [hd] at h
      cases h
    | some d =>
      simp only [hd] at h
      rcases hvalue : validateValue d (request.getD "value" .null) with e | value <;>
        simp only [hvalue, bind, Except.bind] at h
      · cases h
      rcases hexpected : pyInt rt (request.getD "version" (.int 0)) with e | expected <;>
        simp only [hexpected] at h
      · cases h
      · cases h
        exact hbyKey hd
  | restore area accountId key number expectedVersion =>
    rw [SettingTask.prepare] at h
    cases hd : byKey area key with
    | none =>
      rw [hd] at h
      cases h
    | some d =>
      rw [hd] at h
      cases h
      exact hbyKey hd
  | recommend accountId key modelId =>
    rw [SettingTask.prepare] at h
    cases hd : byKey "models" key with
    | none =>
      rw [hd] at h
      cases h
    | some d =>
      rw [hd] at h
      cases h
      exact hbyKey hd

/-- The row object of a setting, at its place and in the version that the caller has seen. -/
structure AtPlace (db : Db) (task : SettingTask) (p : SettingTask.Prepared) (found : Option ApplicationSetting) :
    Prop where
  prepared : (p.d.area, p.d.key) = task.place
  loaded : ∀ x, found = some x → LoadedSetting db x ∧ placeOf x = task.place

/-- What a transaction knows about the committed state at each point. -/
def SettingTxn.Knows (rt : Runtime) (store : SettingStore) : SettingTxn → Prop
  | opening _ _ _ => True
  | loading o _ _ => o.Known store.session.db
  | running o _ => o.Known store.session.db
  | locking o task p _ => o.Known store.session.db ∧ task.prepare rt = .ok p
  | restoring o task p row _ _ => o.Known store.session.db ∧ AtPlace store.session.db task p (some row) ∧
      ∀ base, p.expected = some base → base = row.version
  | failed => True

theorem Opened.Known.write {db : Db} {o : Opened} {task : SettingTask} {p : SettingTask.Prepared}
    {found : Option ApplicationSetting} {value : Json} (h : o.Known db) (hat : AtPlace db task p found)
    (hbase : ∀ base, p.expected = some base → base = versionOf found) :
    Opened.Known db { o with writes := o.writes ++ [SettingTxn.written task p found value] } where
  objects := h.objects
  writes w hw := by
    rcases List.mem_append.mp hw with hw | hw
    · exact h.writes w hw
    · obtain rfl := List.mem_singleton.mp hw
      refine ⟨fun x hx => ⟨(hat.loaded x hx).1, (hat.loaded x hx).2.trans hat.prepared.symm⟩, hbase⟩

theorem knows_checked {store : SettingStore} {o : Opened} {task : SettingTask} {p : SettingTask.Prepared}
    {found : Option ApplicationSetting} {tasks : List SettingTask} (h : o.Known store.session.db)
    (hat : AtPlace store.session.db task p found) :
    (SettingTxn.checked o task p found tasks).Knows rt store := by
  unfold SettingTxn.checked
  by_cases hexpected : p.expected.any (fun expected => versionOf found ≠ expected) = true
  · rw [if_pos hexpected]
    trivial
  rw [if_neg hexpected]
  have hbase : ∀ base, p.expected = some base → base = versionOf found := by
    intro base hsome
    rw [hsome, Option.any_some, decide_eq_true_eq, not_not] at hexpected
    exact hexpected.symm
  cases htask : task.revisionNumber with
  | none =>
    cases hvalue : p.value with
    | none => cases found <;> trivial
    | some value => exact h.write hat hbase
  | some number =>
    cases found with
    | none => trivial
    | some row => exact ⟨h, hat, hbase⟩

theorem knows_restoredFrom {store : SettingStore} {o : Opened} {task : SettingTask} {p : SettingTask.Prepared}
    {row : ApplicationSetting} {tasks : List SettingTask} {revision : Option ApplicationSettingRevision}
    (h : o.Known store.session.db) (hat : AtPlace store.session.db task p (some row))
    (hbase : ∀ base, p.expected = some base → base = row.version) :
    (SettingTxn.restoredFrom o task p row tasks revision).Knows rt store := by
  unfold SettingTxn.restoredFrom
  split
  · trivial
  · split
    · trivial
    · exact h.write hat hbase

/-- The row object that is found under the lock, or none. -/
theorem atPlace_locked {store : SettingStore} {o : Opened} {task : SettingTask} {p : SettingTask.Prepared}
    (h : o.Known store.session.db) (hp : task.prepare rt = .ok p) :
    AtPlace store.session.db task p
      ((store.session.db.setting? task.place.1 task.place.2).map o.object) where
  prepared := prepare_place hp
  loaded x hx := by
    obtain ⟨row, hrow, rfl⟩ := Option.map_eq_some_iff.mp hx
    obtain ⟨hfind, hplace⟩ := mem_of_setting? hrow
    obtain ⟨hloaded, hsame⟩ := h.object hfind
    exact ⟨hloaded, hsame.trans hplace⟩

theorem knows_lock {store : SettingStore} {t : SettingTxn} {place : Place} {next : SettingStore → SettingTxn}
    (hstmt : SettingTxn.stmt rt t = .lock place next) (h : t.Knows rt store) : (next store).Knows rt store := by
  cases t with
  | locking o task p tasks =>
    obtain ⟨-, rfl⟩ := Stmt.lock.inj hstmt
    exact knows_checked h.1 (atPlace_locked h.1 h.2)
  | opening alive seen call => cases hstmt
  | loading o places tasks => cases places <;> cases hstmt
  | running o tasks => cases tasks <;> cases hstmt
  | restoring o task p row number tasks => cases hstmt
  | failed => cases hstmt

theorem knows_read {store : SettingStore} {t : SettingTxn} {next : SettingStore → SettingTxn}
    (hstmt : SettingTxn.stmt rt t = .read next) (h : t.Knows rt store) : (next store).Knows rt store := by
  cases t with
  | opening alive seen call =>
    obtain rfl := Stmt.read.inj hstmt
    exact ⟨fun x hx => absurd hx List.not_mem_nil, fun w hw => absurd hw List.not_mem_nil⟩
  | loading o places tasks =>
    cases places with
    | nil =>
      obtain rfl := Stmt.read.inj hstmt
      exact h
    | cons place places =>
      obtain rfl := Stmt.read.inj hstmt
      beta_reduce
      cases hrow : store.session.db.setting? place.1 place.2 with
      | none => exact h
      | some row =>
        refine ⟨fun x hx => ?_, h.writes⟩
        rcases List.mem_cons.mp hx with rfl | hx
        · exact (Opened.Known.object h (mem_of_setting? hrow).1).1
        · exact h.objects x hx
  | running o tasks =>
    cases tasks with
    | nil => cases hstmt
    | cons task tasks =>
      obtain rfl := Stmt.read.inj hstmt
      beta_reduce
      cases hp : task.prepare rt with
      | error e => trivial
      | ok p =>
        cases hrow : store.session.db.setting? task.place.1 task.place.2 with
        | none => exact knows_checked h ⟨prepare_place hp, fun x hx => by cases hx⟩
        | some row => exact ⟨h, hp⟩
  | locking o task p tasks => cases hstmt
  | restoring o task p row number tasks =>
    obtain rfl := Stmt.read.inj hstmt
    exact knows_restoredFrom h.1 h.2.1 h.2.2
  | failed => cases hstmt

/-- What is known survives the commit of another transaction. -/
theorem Knows.grown {store store' : SettingStore} {t : SettingTxn} (h : t.Knows rt store)
    (hc : (settingLedger store.session.db).Complete) (hg : Grown store.session.db store'.session.db) :
    t.Knows rt store' := by
  cases t with
  | opening alive seen call => trivial
  | loading o places tasks => exact Opened.Known.grown h hc hg
  | running o tasks => exact Opened.Known.grown h hc hg
  | locking o task p tasks => exact ⟨h.1.grown hc hg, h.2⟩
  | restoring o task p row number tasks =>
    obtain ⟨ho, hat, hbase⟩ := h
    refine ⟨ho.grown hc hg, ⟨hat.prepared, fun x hx => ?_⟩, hbase⟩
    exact ⟨(hat.loaded x hx).1.grown hc hg, (hat.loaded x hx).2⟩
  | failed => trivial

/-- A commit keeps the ledger. -/
theorem Kept.commit {store store' : SettingStore} {t : SettingTxn}
    {publish : SettingStore → Option SettingStore} (h : Kept store) (hk : t.Knows rt store)
    (hstmt : SettingTxn.stmt rt t = .commit publish) (hpublish : publish store = some store') :
    Kept store' ∧ Grown store.session.db store'.session.db := by
  cases t with
  | running o tasks =>
    cases tasks with
    | nil =>
      obtain rfl := Stmt.commit.inj hstmt
      exact h.publish hk.writes hpublish
    | cons task tasks => cases hstmt
  | failed =>
    obtain rfl := Stmt.commit.inj hstmt
    cases hpublish
  | opening alive seen call => cases hstmt
  | loading o places tasks => cases places <;> cases hstmt
  | locking o task p tasks => cases hstmt
  | restoring o task p row number tasks => cases hstmt

/-! ### Every interleaving -/

/-- The committed state and what the transactions know about it. -/
def Ledgered (rt : Runtime) (s : State Place SettingStore SettingTxn) : Prop :=
  Kept s.store ∧ Asserted (SettingTxn.Knows rt) s

/-- **Step lemma** of the interleavings. -/
theorem Ledgered.of_step {s s' : State Place SettingStore SettingTxn} {e : Event SettingTxn}
    (h : Ledgered rt s) (hs : SettingTxn.step rt s e = some s') : Ledgered rt s' := by
  constructor
  · rcases store_eq_or_commit hs with hsame | ⟨i, t, publish, rfl, ht, hstmt, hpublish⟩
    · rw [hsame]
      exact h.1
    · exact (h.1.commit (h.2 i t ht) hstmt hpublish).1
  · refine h.2.of_step ?_ (fun store t k next => knows_lock) (fun store t next => knows_read) ?_ hs
    · intro store t ht
      cases t with
      | opening alive seen call => trivial
      | _ => cases ht
    · intro i t publish store he ht hstmt hpublish j u hj hu hk
      exact Knows.grown hk h.1.complete (h.1.commit (h.2 i t ht) hstmt hpublish).2

/-- No setting has been created yet. -/
structure NoSettings (store : SettingStore) : Prop where
  settings : store.session.db.applicationSettings = .empty
  revisions : store.session.db.applicationSettingRevisions.rows = []
  commits : store.commits = []

theorem NoSettings.kept {store : SettingStore} (h : NoSettings store) : Kept store where
  complete := by
    have hempty : settingLedger store.session.db = ⟨.empty, []⟩ := by
      rw [settingLedger, h.settings, h.revisions]
      rfl
    rw [hempty]
    exact .empty
  distinct := by
    intro r hr
    rw [h.settings] at hr
    exact absurd hr List.not_mem_nil
  based := by
    intro c hc
    rw [h.commits] at hc
    exact absurd hc List.not_mem_nil
  once := by
    rw [h.commits]
    exact List.nodup_nil

/-- The revisions of a setting. -/
def revisionsOf (db : Db) (settingId : Uuid) : List ApplicationSettingRevision :=
  db.applicationSettingRevisions.rows.filter fun r => r.settingId = settingId

/-- **The ledger of the settings in every interleaving**: the revisions of a setting carry the numbers from 1 to
its version, the last of them has its value, and no two calls have committed on one version of a setting. -/
theorem settings_ledger {s t : State Place SettingStore SettingTxn} {es : List (Event SettingTxn)}
    (h₀ : NoSettings s.store) (hquiet : s.Quiet) (hrun : Runs.run (SettingTxn.step rt) s es = some t) :
    (∀ row ∈ t.store.session.db.applicationSettings,
      (revisionsOf t.store.session.db row.id).map ApplicationSettingRevision.revisionNumber =
        Ledger.upTo row.version ∧
      ∃ r, (revisionsOf t.store.session.db row.id).getLast? = some r ∧ r.value = row.value) ∧
    t.store.commits.Nodup := by
  have hstart : Ledgered rt s := ⟨h₀.kept, .of_quiet hquiet⟩
  have h := Runs.inv_of_run (I := Ledgered rt) (fun _ _ _ h hs => h.of_step hs) hstart hrun
  refine ⟨fun row hrow => ⟨h.1.complete.numbers row hrow, ?_⟩, h.1.once⟩
  obtain ⟨r, hlast, hof⟩ := h.1.complete.latest row hrow
  exact ⟨r, hlast, hof.describes⟩

/-- The volume is set by a caller who has seen a version of it, in a session that does not keep what it reads. -/
def volumeSet (seen : List Place) (value version : ℤ) : SettingTxn :=
  .opening (fun _ _ => false) seen
    (.updateArea "voice" [("output_volume", .obj [("value", .int value), ("version", .int version)])] 1)

/-- Two callers create the setting at once.  Then two sessions read it, one of them changes it, and the other one
loads it anew and changes that version. -/
def volumeEvents : List (Event SettingTxn) :=
  [.start 0 (volumeSet [] 50 0), .start 1 (volumeSet [] 60 0),
    .exec 0, .exec 1, .exec 0, .exec 1, .exec 0, .exec 1, .exec 0, .exec 1,
    .start 2 (volumeSet [("voice", "output_volume")] 70 1), .start 3 (volumeSet [("voice", "output_volume")] 80 2),
    .exec 2, .exec 3, .exec 2, .exec 3, .exec 2, .exec 3, .exec 2, .exec 3,
    .exec 2, .exec 2, .exec 3, .exec 3]

def noSettings : State Place SettingStore SettingTxn where
  store := ⟨{ began := .utc 1767268800000000, db := {} }, []⟩
  owner _ := none
  txn _ := none

theorem settings_ledger_volume : ∃ t,
    Runs.run (SettingTxn.step (.sample 1767268800000000 [])) noSettings volumeEvents = some t ∧
    t.store.commits =
      [(("voice", "output_volume"), 0), (("voice", "output_volume"), 1), (("voice", "output_volume"), 2)] ∧
    (∀ row ∈ t.store.session.db.applicationSettings,
      (revisionsOf t.store.session.db row.id).map ApplicationSettingRevision.revisionNumber =
        Ledger.upTo row.version ∧
      ∃ r, (revisionsOf t.store.session.db row.id).getLast? = some r ∧ r.value = row.value) ∧
    t.store.commits.Nodup := by
  have hrun : (match Runs.run (SettingTxn.step (.sample 1767268800000000 [])) noSettings volumeEvents with
      | some t => decide (t.store.commits =
          [(("voice", "output_volume"), 0), (("voice", "output_volume"), 1), (("voice", "output_volume"), 2)])
      | none => false) = true := by
    decide +kernel
  rcases ht : Runs.run (SettingTxn.step (.sample 1767268800000000 [])) noSettings volumeEvents with _ | t <;>
    simp only [ht] at hrun
  · simp at hrun
  · exact ⟨t, rfl, of_decide_eq_true hrun, settings_ledger ⟨rfl, rfl, rfl⟩ (fun _ => rfl) ht⟩

end KajovoDagmar.SettingsService
