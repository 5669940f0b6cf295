import KajovoDagmar.Db.Sample
import KajovoDagmar.Library.SqlText
import KajovoDagmar.Library.TopRows
import KajovoDagmar.Memory.Service

/-! # Searching the memory

The whole `search`, with categories and a window of dates.  The bounds of the window are tested one by one on
both dates of an item, and the terms of the query are patterns of `LIKE`.  An item is astray if this selects
it and the window and the substrings do not, or the other way round; a search returns what it says exactly if
enough items on which both agree come before every astray one (`search_eq_expected_iff`). -/

namespace KajovoDagmar

structure MemorySearch where
  query : { s : String // s.length ≤ 500 } := ⟨"", by decide⟩
  categories : List MemoryCategory := []
  states : List String := ["active"]
  fromAt : Option DateTime := none
  toAt : Option DateTime := none
  limit : { n : ℕ // 1 ≤ n ∧ n ≤ 100 } := ⟨20, by decide⟩

namespace MemoryService

variable (rt : Runtime) (accountId : Uuid) (request : MemorySearch)

/-! ### The query -/

def searchTerms : List String := PythonText.split (PythonText.strip request.query.val)

/-- Some date of the item is as required. -/
def someDate (p : DateTime → Bool) (item : MemoryItem) : Bool := item.eventAt.any p || p item.createdAt

def fromAt : Option DateTime := request.fromAt.map (MemoryItem.bindDatetime rt)

def toAt : Option DateTime := request.toAt.map (MemoryItem.bindDatetime rt)

/-- The clauses on the account, the states and the categories. -/
def requested (item : MemoryItem) : Bool :=
  item.accountId = accountId ∧ item.state.text ∈ request.states ∧
    (request.categories = [] ∨ item.category ∈ request.categories)

/-- The clauses on the dates. -/
def inBounds (item : MemoryItem) : Bool :=
  (fromAt rt request).all (fun a => someDate a.le item) && (toAt rt request).all fun b => someDate (·.le b) item

/-- Some term matches as a pattern. -/
def matched (item : MemoryItem) : Bool :=
  (searchTerms request).any fun term => SqlText.contains (rt.lower item.content) (rt.casefold term)

/-- `MemoryService.search`. -/
def searchRequest (ranked : List Uuid) : Work (List MemoryItem) := do
  let blank := (searchTerms request).isEmpty
  let rows ← Db.memoryItem.select fun item =>
    requested accountId request item && inBounds rt request item &&
      (blank || matched rt request item || decide (item.id ∈ ranked))
  pure ((rows.insertionSort fun a b => searchOrder (if blank then [] else ranked) a b = true).take
    request.limit.val)

/-! ### What is asked for -/

/-- One date of the item lies in the window. -/
def inWindow (item : MemoryItem) : Bool :=
  someDate (fun d => (fromAt rt request).all (·.le d) && (toAt rt request).all d.le) item

/-- Some term occurs in the content, whatever the letter case. -/
def occurs (item : MemoryItem) : Bool :=
  (searchTerms request).any fun term => PythonText.contains (rt.casefold item.content) (rt.casefold term)

/-- The items that a request asks for, the latest change first. -/
def expected (items : List MemoryItem) : List MemoryItem :=
  ((items.filter fun item => requested accountId request item && inWindow rt request item &&
      ((searchTerms request).isEmpty || occurs rt request item)).insertionSort
    fun a b => searchOrder [] a b = true).take request.limit.val

/-! ### Astray items -/

/-- One date of the item is too early for the window and the other too late, though not for the other
bound. -/
def Straddles (item : MemoryItem) : Prop :=
  ∃ a ∈ fromAt rt request, ∃ b ∈ toAt rt request, ∃ e ∈ item.eventAt,
    e.before a ∧ e.le b ∧ b.before item.createdAt ∧ a.le item.createdAt ∨
    item.createdAt.before a ∧ item.createdAt.le b ∧ b.before e ∧ a.le e

instance (item : MemoryItem) : Decidable (Straddles rt request item) :=
  inferInstanceAs (Decidable (∃ a ∈ fromAt rt request, ∃ b ∈ toAt rt request, ∃ e ∈ item.eventAt, _))

/-- The dates of the item straddle the window, or a term matches as a pattern and none occurs, or the other
way round. -/
def Astray (item : MemoryItem) : Prop :=
  requested accountId request item = true ∧
    (Straddles rt request item ∧ ((searchTerms request).isEmpty || matched rt request item) = true ∨
      inWindow rt request item = true ∧ (searchTerms request).isEmpty = false ∧
        matched rt request item ≠ occurs rt request item)

instance (item : MemoryItem) : Decidable (Astray rt accountId request item) :=
  inferInstanceAs (Decidable (_ ∧ _))

/-- The item is asked for and selected. -/
def agreed (item : MemoryItem) : Bool :=
  requested accountId request item && inWindow rt request item &&
    ((searchTerms request).isEmpty || matched rt request item && occurs rt request item)

variable {rt accountId request}

theorem inBounds_iff (item : MemoryItem) :
    inBounds rt request item = true ↔ inWindow rt request item = true ∨ Straddles rt request item := by
  unfold inBounds inWindow Straddles someDate DateTime.le DateTime.before
  cases hfrom : fromAt rt request with
  | none =>
      cases hto : toAt rt request with
      | none => simp
      | some b => simp
  | some a =>
      cases hto : toAt rt request with
      | none => simp
      | some b =>
          cases he : item.eventAt with
          | none => simp
          | some e =>
              simp only [Option.all_some, Option.any_some, Bool.and_eq_true, Bool.or_eq_true, decide_eq_true_eq,
                Option.mem_def, Option.some.injEq, exists_eq_left']
              omega

theorem not_inWindow_of_straddles {item : MemoryItem} (h : Straddles rt request item) :
    inWindow rt request item = false := by
  obtain ⟨a, ha, b, hb, e, he, h⟩ := h
  unfold DateTime.le DateTime.before at h
  unfold inWindow someDate DateTime.le
  rw [Option.mem_def.mp ha, Option.mem_def.mp hb, Option.mem_def.mp he]
  simp only [decide_eq_true_eq] at h
  simp only [Option.all_some, Option.any_some, Bool.or_eq_false_iff, Bool.and_eq_false_iff, decide_eq_false_iff_not]
  omega

/-! ### The order of a search -/

/-- The instant of a datetime, for the order of the database. -/
def instantOf (d : DateTime) : ℤ := d.wall - d.utcoffset.getD 0

theorem searchOrder_nil_iff (a b : MemoryItem) : searchOrder [] a b = true ↔
    instantOf b.updatedAt < instantOf a.updatedAt ∨
      ¬instantOf a.updatedAt < instantOf b.updatedAt ∧ a.id ≤ b.id := by
  simp [searchOrder, DateTime.before, instantOf]

instance : Std.Total fun a b : MemoryItem => searchOrder [] a b = true where
  total a b := by
    have htotal : ∀ (x y : ℤ) (i j : ℕ), (y < x ∨ ¬x < y ∧ i ≤ j) ∨ (x < y ∨ ¬y < x ∧ j ≤ i) := by omega
    rw [searchOrder_nil_iff, searchOrder_nil_iff]
    exact htotal _ _ a.id b.id

instance : IsTrans MemoryItem fun a b => searchOrder [] a b = true where
  trans a b c := by
    have htrans : ∀ (x y z : ℤ) (i j k : ℕ), (y < x ∨ ¬x < y ∧ i ≤ j) → (z < y ∨ ¬y < z ∧ j ≤ k) →
        (z < x ∨ ¬x < z ∧ i ≤ k) := by omega
    rw [searchOrder_nil_iff, searchOrder_nil_iff, searchOrder_nil_iff]
    exact htrans _ _ _ a.id b.id c.id

/-- The order has no ties, since the identifiers differ. -/
theorem searchOrder_antisymm {a b : MemoryItem} (h : searchOrder [] a b = true) (h' : searchOrder [] b a = true) :
    a.id = b.id := by
  have hantisymm : ∀ (x y : ℤ) (i j : ℕ), (y < x ∨ ¬x < y ∧ i ≤ j) → (x < y ∨ ¬y < x ∧ j ≤ i) → i = j := by omega
  rw [searchOrder_nil_iff] at h h'
  exact hantisymm _ _ a.id b.id h h'

/-! ### What a search returns -/

/-- The request selects the item and asks for it alike, unless the item is astray. -/
theorem selected_ne_iff (item : MemoryItem) :
    (requested accountId request item && inBounds rt request item &&
        ((searchTerms request).isEmpty || matched rt request item)) ≠
      (requested accountId request item && inWindow rt request item &&
        ((searchTerms request).isEmpty || occurs rt request item)) ↔ Astray rt accountId request item := by
  unfold Astray
  cases hrequested : requested accountId request item with
  | false => simp
  | true =>
      by_cases hstraddles : Straddles rt request item
      · have hbounds : inBounds rt request item = true := (inBounds_iff item).mpr (.inr hstraddles)
        rw [hbounds, not_inWindow_of_straddles hstraddles]
        simp only [Bool.true_and, Bool.false_and, hstraddles, true_and, Bool.false_eq_true, false_and, or_false, ne_eq,
          Bool.not_eq_false]
      · have hbounds : inBounds rt request item = inWindow rt request item := by
          rw [Bool.eq_iff_iff, inBounds_iff, or_iff_left hstraddles]
        rw [hbounds]
        cases inWindow rt request item <;> cases (searchTerms request).isEmpty <;> simp [hstraddles]

theorem selected_and_eq (item : MemoryItem) :
    ((requested accountId request item && inBounds rt request item &&
        ((searchTerms request).isEmpty || matched rt request item)) &&
      (requested accountId request item && inWindow rt request item &&
        ((searchTerms request).isEmpty || occurs rt request item))) = agreed rt accountId request item := by
  have hbounds : (inBounds rt request item && inWindow rt request item) = inWindow rt request item := by
    rw [Bool.and_eq_right_iff_imp]
    exact fun hwindow => (inBounds_iff item).mpr (.inl hwindow)
  unfold agreed
  rw [← hbounds]
  cases requested accountId request item <;> cases inBounds rt request item <;>
    cases inWindow rt request item <;> cases (searchTerms request).isEmpty <;> simp

theorem searchRequest_apply (s : Session) : searchRequest rt accountId request [] s =
    (.ok (((s.db.memoryItems.rows.filter fun item => requested accountId request item &&
      inBounds rt request item && ((searchTerms request).isEmpty || matched rt request item)).insertionSort
        fun a b => searchOrder [] a b = true).take request.limit.val), s) := by
  simp only [searchRequest, List.not_mem_nil, decide_false, Bool.or_false, ite_self]
  rfl

/-- **A search returns what it says** exactly if as many items as it may return, on which the patterns and
the substrings agree, come before every astray item. -/
theorem search_eq_expected_iff (accountId : Uuid) (request : MemorySearch) (s : Session) :
    searchRequest rt accountId request [] s =
        (.ok (expected rt accountId request s.db.memoryItems.rows), s) ↔
      ∀ x ∈ s.db.memoryItems.rows, Astray rt accountId request x → request.limit.val ≤
        s.db.memoryItems.rows.countP fun y => agreed rt accountId request y && !searchOrder [] x y := by
  have hties : s.db.memoryItems.rows.Pairwise fun a b => ¬(searchOrder [] a b = true ∧ searchOrder [] b a = true) :=
    (List.pairwise_map.mp s.db.memoryItems.nodup).imp fun hne h => hne (searchOrder_antisymm h.1 h.2)
  rw [searchRequest_apply, Prod.mk.injEq, and_iff_left rfl, Except.ok.injEq, expected,
    TopRows.take_sorted_eq_iff _ _ _ hties]
  simp only [selected_ne_iff, selected_and_eq, Bool.decide_eq_true]

/-- A request with one bound at most and plain terms goes astray only where the database folds letter case
in another way. -/
theorem not_astray_of_plain {item : MemoryItem} (hbounds : request.fromAt = none ∨ request.toAt = none)
    (hterms : ∀ term ∈ searchTerms request, SqlText.Plain (rt.casefold term))
    (hfold : rt.lower item.content = rt.casefold item.content) : ¬Astray rt accountId request item := by
  have hmatched : matched rt request item = occurs rt request item := by
    unfold matched occurs
    have hterm : ∀ term ∈ searchTerms request, SqlText.contains (rt.lower item.content) (rt.casefold term) =
        PythonText.contains (rt.casefold item.content) (rt.casefold term) := by
      intro term hterm
      rw [Bool.eq_iff_iff, SqlText.contains_iff_of_plain (hterms term hterm), hfold]
      exact decide_eq_true_iff.symm
    rw [Bool.eq_iff_iff, List.any_eq_true, List.any_eq_true]
    exact exists_congr fun term => and_congr_right fun hmem => by rw [hterm term hmem]
  rintro ⟨-, ⟨⟨a, ha, b, hb, -⟩, -⟩ | ⟨-, -, hne⟩⟩
  · rcases hbounds with hnone | hnone
    · simp [fromAt, hnone] at ha
    · simp [toAt, hnone] at hb
  · exact hne hmatched

/-- Without categories and bounds this is the search of the orchestration. -/
theorem searchRequest_eq_search (hlike : rt.like = SqlText.like) (query : { s : String // s.length ≤ 500 })
    (states : List MemoryState) (limit : { n : ℕ // 1 ≤ n ∧ n ≤ 100 }) (ranked : List Uuid) :
    searchRequest rt accountId { query, states := states.map MemoryState.text, limit } ranked =
      search rt accountId query.val states limit.val ranked := by
  have htext : Function.Injective MemoryState.text := by
    intro a b h
    cases a <;> cases b <;> first | rfl | exact absurd h (by decide)
  have hrequested : ∀ item : MemoryItem, requested accountId
      { query, states := states.map MemoryState.text, limit } item =
        decide (item.accountId = accountId ∧ item.state ∈ states) := by
    intro item
    simp [requested, List.mem_map_of_injective htext]
  have hmatched : ∀ item : MemoryItem, matched rt { query, states := states.map MemoryState.text, limit } item =
      (PythonText.split (PythonText.strip query.val)).any fun term =>
        rt.like (rt.lower item.content) ("%" ++ rt.casefold term ++ "%") := by
    intro item
    rw [hlike]
    rfl
  unfold searchRequest search
  dsimp only [searchTerms]
  congr 2
  funext item
  rw [hrequested, hmatched, Bool.eq_iff_iff]
  simp [inBounds, fromAt, toAt, and_assoc, or_assoc]

/-! ### A memory with two astray items -/

/-- A trip of January 2020, noted in January 2026. -/
def trip : MemoryItem where
  id := 1
  accountId := 1
  content := "Výlet na Sněžku"
  category := .event
  state := .active
  originType := .manual
  eventAt := some (.utc 1577836800000000)
  updatedAt := .utc 1767268800000000

def tripSession : Session := { began := .utc 1767268800000000, db := { memoryItems := .singleton trip } }

def tripRuntime : Runtime := { Runtime.sample 1767268800000000 [] with like := SqlText.like }

/-- A search for the year 2023 finds the trip, and so does a search for an underscore. -/
theorem search_finds_trip :
    (searchRequest tripRuntime 1 { fromAt := some (.utc 1672531200000000), toAt := some (.utc 1704067199000000) } []
      tripSession).1 = .ok [trip] ∧
    expected tripRuntime 1 { fromAt := some (.utc 1672531200000000), toAt := some (.utc 1704067199000000) }
      tripSession.db.memoryItems.rows = [] ∧
    (searchRequest tripRuntime 1 { query := ⟨"_", by decide⟩ } [] tripSession).1 = .ok [trip] ∧
    expected tripRuntime 1 { query := ⟨"_", by decide⟩ } tripSession.db.memoryItems.rows = [] := by
  rw [searchRequest_apply, searchRequest_apply]
  exact ⟨congrArg Except.ok (by decide +kernel), by decide +kernel, congrArg Except.ok (by decide +kernel),
    by decide +kernel⟩

end MemoryService

end KajovoDagmar
