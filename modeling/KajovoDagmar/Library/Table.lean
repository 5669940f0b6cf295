import Mathlib.Data.List.Nodup
import Mathlib.Data.Nat.Notation

/-! # Tables with a primary key

A `Table key` is a list of rows in which no two rows have the same `key`.  Rows keep the
order in which they were inserted; `put` replaces the row that has the given row's key, and
`insert?` adds a row unless its key is taken. -/

universe u v

/-- Rows with pairwise different keys, in the order of insertion. -/
structure Table {R : Type u} {K : Type v} (key : R → K) where
  rows : List R
  nodup : (rows.map key).Nodup

namespace Table

variable {R : Type u} {K : Type v} {key : R → K}

@[ext] theorem ext {t t' : Table key} (h : t.rows = t'.rows) : t = t' := by
  cases t
  cases t'
  cases h
  rfl

instance [DecidableEq R] : DecidableEq (Table key) := fun t t' =>
  decidable_of_iff (t.rows = t'.rows) ⟨ext, fun h => h ▸ rfl⟩

instance : Membership R (Table key) := ⟨fun t r => r ∈ t.rows⟩

theorem mem_def {t : Table key} {r : R} : r ∈ t ↔ r ∈ t.rows := Iff.rfl

def empty : Table key := ⟨[], List.nodup_nil⟩

def singleton (r : R) : Table key := ⟨[r], List.nodup_singleton _⟩

instance : Inhabited (Table key) := ⟨empty⟩

theorem eq_of_key {t : Table key} {r r' : R} (h : r ∈ t) (h' : r' ∈ t) (hk : key r = key r') :
    r = r' :=
  List.inj_on_of_nodup_map t.nodup h h' hk

variable [DecidableEq K]

/-- The row with key `k`. -/
def find? (t : Table key) (k : K) : Option R := t.rows.find? fun r => key r = k

/-- The rows satisfying `p`, in order. -/
def select (t : Table key) (p : R → Bool) : List R := t.rows.filter p

/-- Replace `x` by `r` when they have the same key. -/
def overwrite (key : R → K) (r x : R) : R := if key x = key r then r else x

theorem key_overwrite (r x : R) : key (overwrite key r x) = key x := by
  unfold overwrite
  split
  · next h => exact h.symm
  · rfl

/-- Store `r` in place of the row that has its key. -/
def put (t : Table key) (r : R) : Table key where
  rows := t.rows.map (overwrite key r)
  nodup := by
    have h : key ∘ overwrite key r = key := funext fun x => key_overwrite r x
    rw [List.map_map, h]
    exact t.nodup

/-- Add `r` after all other rows. -/
def insert (t : Table key) (r : R) (h : key r ∉ t.rows.map key) : Table key where
  rows := t.rows ++ [r]
  nodup := by
    rw [List.map_append, List.nodup_append]
    refine ⟨t.nodup, by simp, ?_⟩
    rintro a ha b hb rfl
    simp only [List.map_cons, List.map_nil, List.mem_singleton] at hb
    exact h (hb ▸ ha)

/-- Add `r` unless its key is taken. -/
def insert? (t : Table key) (r : R) : Option (Table key) :=
  if h : key r ∈ t.rows.map key then none else some (t.insert r h)

/-- The rows satisfying `p`, as a table. -/
def filter (t : Table key) (p : R → Bool) : Table key where
  rows := t.rows.filter p
  nodup := (List.filter_sublist.map _).nodup t.nodup

/-! ### Looking rows up -/

theorem mem_of_find? {t : Table key} {k : K} {r : R} (h : t.find? k = some r) : r ∈ t :=
  List.mem_of_find?_eq_some h

theorem key_of_find? {t : Table key} {k : K} {r : R} (h : t.find? k = some r) : key r = k := by
  simpa using List.find?_some h

theorem find?_of_mem {t : Table key} {r : R} (h : r ∈ t) : t.find? (key r) = some r := by
  cases hf : t.find? (key r) with
  | none =>
      have := List.find?_eq_none.mp hf r h
      simp at this
  | some r' => rw [eq_of_key h (mem_of_find? hf) (key_of_find? hf).symm]

theorem find?_eq_none {t : Table key} {k : K} : t.find? k = none ↔ ∀ r ∈ t, key r ≠ k := by
  simp [find?, mem_def]

/-! ### Storing rows -/

@[simp] theorem rows_put (t : Table key) (r : R) : (t.put r).rows = t.rows.map (overwrite key r) := rfl

theorem keys_put (t : Table key) (r : R) : (t.put r).rows.map key = t.rows.map key := by
  rw [rows_put, List.map_map]
  exact congrArg (List.map · t.rows) (funext fun x => key_overwrite r x)

/-- A column that the stored row shares with the row it replaces does not change. -/
theorem map_put {α : Type*} {g : R → α} {t : Table key} {r old : R} (hold : old ∈ t)
    (hk : key r = key old) (hg : g r = g old) : (t.put r).rows.map g = t.rows.map g := by
  rw [rows_put, List.map_map]
  apply List.map_congr_left
  intro x hx
  simp only [Function.comp, overwrite]
  split
  · next h => rw [hg, eq_of_key hx hold (h.trans hk)]
  · rfl

/-- Every row changed in place. -/
def mapRows (t : Table key) (f : R → R) (hf : ∀ r, key (f r) = key r) : Table key where
  rows := t.rows.map f
  nodup := by
    rw [List.map_map]
    have hkey : key ∘ f = key := funext hf
    rw [hkey]
    exact t.nodup

omit [DecidableEq K] in
@[simp] theorem rows_mapRows (t : Table key) (f : R → R) (hf : ∀ r, key (f r) = key r) :
    (t.mapRows f hf).rows = t.rows.map f := rfl

theorem find?_mapRows (t : Table key) (f : R → R) (hf : ∀ r, key (f r) = key r) (k : K) :
    (t.mapRows f hf).find? k = (t.find? k).map f := by
  unfold find?
  rw [rows_mapRows, List.find?_map]
  congr 1
  exact congrArg (List.find? · t.rows) (funext fun r => by simp [hf])

theorem mapRows_put (t : Table key) (f : R → R) (hf : ∀ r, key (f r) = key r) (r : R) :
    (t.put r).mapRows f hf = (t.mapRows f hf).put (f r) := by
  apply ext
  rw [rows_mapRows, rows_put, rows_put, rows_mapRows, List.map_map, List.map_map]
  apply List.map_congr_left
  intro x _
  simp only [Function.comp, overwrite, hf]
  split <;> rfl

theorem mapRows_insert? {t t' : Table key} (f : R → R) (hf : ∀ r, key (f r) = key r) {r : R}
    (h : t.insert? r = some t') :
    (t.mapRows f hf).insert? (f r) = some (t'.mapRows f hf) := by
  unfold insert? at h ⊢
  split at h
  · simp at h
  · next hk =>
    obtain rfl := Option.some.inj h
    have hk' : key (f r) ∉ (t.mapRows f hf).rows.map key := by
      rw [rows_mapRows, List.map_map, hf]
      have hkey : key ∘ f = key := funext hf
      rwa [hkey]
    rw [dif_neg hk']
    congr 1
    apply ext
    change t.rows.map f ++ [f r] = (t.rows ++ [r]).map f
    rw [List.map_append]
    rfl

theorem mem_put_iff {t : Table key} {r x : R} :
    x ∈ t.put r ↔ (x ∈ t ∧ key x ≠ key r) ∨ (x = r ∧ ∃ y ∈ t, key y = key r) := by
  simp only [mem_def, rows_put, List.mem_map, overwrite]
  constructor
  · rintro ⟨y, hy, rfl⟩
    by_cases h : key y = key r
    · rw [if_pos h]
      exact Or.inr ⟨rfl, y, hy, h⟩
    · rw [if_neg h]
      exact Or.inl ⟨hy, h⟩
  · rintro (⟨hx, h⟩ | ⟨rfl, y, hy, h⟩)
    · exact ⟨x, hx, if_neg h⟩
    · exact ⟨y, hy, if_pos h⟩

theorem find?_put_self {t : Table key} {r old : R} (h : t.find? (key r) = some old) :
    (t.put r).find? (key r) = some r := by
  apply find?_of_mem
  rw [mem_put_iff]
  exact Or.inr ⟨rfl, old, mem_of_find? h, key_of_find? h⟩

theorem find?_put_of_ne {t : Table key} {r : R} {k : K} (h : k ≠ key r) :
    (t.put r).find? k = t.find? k := by
  cases hf : t.find? k with
  | none =>
      rw [find?_eq_none] at hf ⊢
      intro x hx
      rcases mem_put_iff.mp hx with ⟨hx, -⟩ | ⟨rfl, -⟩
      · exact hf x hx
      · exact fun he => h he.symm
  | some x =>
      obtain rfl := key_of_find? hf
      exact find?_of_mem (mem_put_iff.mpr (Or.inl ⟨mem_of_find? hf, h⟩))

/-- Storing a row that is already there changes nothing. -/
theorem put_of_mem {t : Table key} {r : R} (h : r ∈ t) : t.put r = t := by
  apply ext
  rw [rows_put]
  conv_rhs => rw [← List.map_id t.rows]
  apply List.map_congr_left
  intro x hx
  unfold overwrite
  split
  · next hk => exact eq_of_key h hx hk.symm
  · rfl

theorem put_put {t : Table key} {r r' : R} (h : key r = key r') : (t.put r).put r' = t.put r' := by
  apply ext
  rw [rows_put, rows_put, rows_put, List.map_map]
  apply List.map_congr_left
  intro x _
  simp only [Function.comp, overwrite, h]
  by_cases hx : key x = key r'
  · simp [hx, h]
  · simp [hx]

/-- Storing a row changes the table exactly when it differs from the row it replaces. -/
theorem put_eq_iff {t : Table key} {r old : R} (h : t.find? (key r) = some old) :
    t.put r = t ↔ r = old := by
  constructor
  · intro he
    have := find?_put_self h
    rw [he, h] at this
    simpa using this.symm
  · rintro rfl
    exact put_of_mem (mem_of_find? h)

omit [DecidableEq K] in
theorem mem_filter {t : Table key} {p : R → Bool} {r : R} : r ∈ t.filter p ↔ r ∈ t ∧ p r = true := by
  simp [mem_def, filter]

theorem find?_filter (t : Table key) (p : R → Bool) (k : K) :
    (t.filter p).find? k = (t.find? k).filter p := by
  cases hx : t.find? k with
  | none =>
      rw [Option.filter_none, find?_eq_none]
      intro x hx'
      exact find?_eq_none.mp hx x (mem_filter.mp hx').1
  | some x =>
      obtain rfl := key_of_find? hx
      cases hp : p x with
      | true =>
          rw [Option.filter_some_pos hp]
          exact find?_of_mem (mem_filter.mpr ⟨mem_of_find? hx, hp⟩)
      | false =>
          rw [Option.filter_some_neg (by simp [hp]), find?_eq_none]
          intro y hy hkey
          obtain ⟨hmem, hpy⟩ := mem_filter.mp hy
          rw [eq_of_key hmem (mem_of_find? hx) hkey, hp] at hpy
          exact absurd hpy Bool.false_ne_true

theorem insert?_eq_some {t t' : Table key} {r : R} (h : t.insert? r = some t') :
    t'.rows = t.rows ++ [r] ∧ key r ∉ t.rows.map key := by
  unfold insert? at h
  split at h
  · simp at h
  · next hk =>
    obtain rfl := Option.some.inj h
    exact ⟨rfl, hk⟩

theorem insert?_eq_none_iff {t : Table key} {r : R} :
    t.insert? r = none ↔ ∃ x ∈ t, key x = key r := by
  unfold insert?
  split
  · next h => simpa [mem_def] using h
  · next h => simpa [mem_def] using h

theorem mem_insert? {t t' : Table key} {r x : R} (h : t.insert? r = some t') :
    x ∈ t' ↔ x ∈ t ∨ x = r := by
  simp [mem_def, (insert?_eq_some h).1]

/-- A new row replaces none. -/
theorem find?_insert? {t t' : Table key} {r x : R} {k : K} (h : t.insert? r = some t')
    (hx : t.find? k = some x) : t'.find? k = some x := by
  rw [← key_of_find? hx]
  exact find?_of_mem ((mem_insert? h).mpr (.inl (mem_of_find? hx)))

theorem find?_insert?_of_ne {t t' : Table key} {r : R} {k : K} (h : t.insert? r = some t')
    (hk : k ≠ key r) : t'.find? k = t.find? k := by
  simp only [find?, (insert?_eq_some h).1, List.find?_append]
  cases t.rows.find? (fun x => key x = k) <;> simp [Ne.symm hk]

theorem find?_insert?_self {t t' : Table key} {r : R} (h : t.insert? r = some t') :
    t'.find? (key r) = some r :=
  find?_of_mem ((mem_insert? h).mpr (Or.inr rfl))

end Table
