import KajovoDagmar.Library.Table
import Mathlib.Data.Int.Notation
import Mathlib.Logic.Relation

/-! # Ledgers of versions

A store of rows with version numbers and an append-only list of records, each of which belongs
to a row, carries the number of one of its versions and describes it.  A new row comes with
the record of its version 1, and a revision replaces a row by its next version together with
the record of that version.  A ledger built so is complete (`Ledger.Complete`): the records of a
row carry the numbers from 1 to its version in order, and the last one describes the row as it
stands.  Hence a revision whose number is still free was made from the version that stands. -/

universe u v w

/-- How rows and the records of their versions are read. -/
structure Versioning (R : Type u) (V : Type v) (K : Type w) where
  key : R → K
  version : R → ℤ
  owner : V → K
  number : V → ℤ
  Describes : V → R → Prop

/-- The record `v` is made of the row `r`. -/
structure Versioning.Of {R : Type u} {V : Type v} {K : Type w} (G : Versioning R V K) (v : V) (r : R) :
    Prop where
  owner : G.owner v = G.key r
  number : G.number v = G.version r
  describes : G.Describes v r

/-- Rows and the records of their versions, oldest first. -/
structure Ledger {R : Type u} {V : Type v} {K : Type w} (G : Versioning R V K) where
  rows : Table G.key
  records : List V

namespace Ledger

variable {R : Type u} {V : Type v} {K : Type w} [DecidableEq K] {G : Versioning R V K}

/-- The records of the row with key `k`. -/
def recordsOf (L : Ledger G) (k : K) : List V := L.records.filter fun v => G.owner v = k

/-- The numbers `1, …, n`. -/
def upTo (n : ℤ) : List ℤ := (List.range n.toNat).map fun i : ℕ => (i : ℤ) + 1

/-- A new row or the next version of a row, and its record. -/
inductive Step : Ledger G → Ledger G → Prop
  | create {L : Ledger G} {r : R} {v : V} {t : Table G.key} (hrows : L.rows.insert? r = some t)
      (hversion : G.version r = 1) (hv : G.Of v r) : Step L ⟨t, L.records ++ [v]⟩
  | revise {L : Ledger G} {r old : R} {v : V} (hfind : L.rows.find? (G.key r) = some old)
      (hversion : G.version r = G.version old + 1) (hv : G.Of v r) :
      Step L ⟨L.rows.put r, L.records ++ [v]⟩

structure Complete (L : Ledger G) : Prop where
  numbers : ∀ r ∈ L.rows, (L.recordsOf (G.key r)).map G.number = upTo (G.version r)
  latest : ∀ r ∈ L.rows, ∃ v, (L.recordsOf (G.key r)).getLast? = some v ∧ G.Of v r
  owned : ∀ v ∈ L.records, ∃ r ∈ L.rows, G.key r = G.owner v

/-! ### Numbers -/

omit [DecidableEq K] in
theorem upTo_succ {n : ℤ} (h : 0 ≤ n) : upTo (n + 1) = upTo n ++ [n + 1] := by
  have hn : (n + 1).toNat = n.toNat + 1 := by omega
  rw [upTo, hn, List.range_succ, List.map_append]
  simp only [upTo, List.map_cons, List.map_nil, List.append_cancel_left_eq, List.cons.injEq, and_true]
  omega

theorem mem_upTo {n i : ℤ} : i ∈ upTo n ↔ 1 ≤ i ∧ i ≤ n := by
  simp only [upTo, List.mem_map, List.mem_range]
  constructor
  · rintro ⟨j, hj, rfl⟩
    omega
  · rintro ⟨h₁, h₂⟩
    exact ⟨(i - 1).toNat, by omega, by omega⟩

theorem nodup_upTo (n : ℤ) : (upTo n).Nodup :=
  List.nodup_range.map fun i j (h : (i : ℤ) + 1 = j + 1) => by omega

/-! ### Records of one row -/

theorem recordsOf_append (L : Ledger G) (t : Table G.key) (v : V) (k : K) :
    (⟨t, L.records ++ [v]⟩ : Ledger G).recordsOf k =
      L.recordsOf k ++ if G.owner v = k then [v] else [] := by
  unfold recordsOf
  rw [List.filter_append]
  congr 1
  by_cases h : G.owner v = k <;> simp [h]

theorem recordsOf_append_self {L : Ledger G} {t : Table G.key} {v : V} {k : K} (h : G.owner v = k) :
    (⟨t, L.records ++ [v]⟩ : Ledger G).recordsOf k = L.recordsOf k ++ [v] := by
  rw [recordsOf_append, if_pos h]

theorem recordsOf_append_of_ne {L : Ledger G} {t : Table G.key} {v : V} {k : K} (h : G.owner v ≠ k) :
    (⟨t, L.records ++ [v]⟩ : Ledger G).recordsOf k = L.recordsOf k := by
  rw [recordsOf_append, if_neg h, List.append_nil]

namespace Complete

variable {L L' : Ledger G}

/-- A row has at least its first version. -/
theorem version_pos (h : L.Complete) {r : R} (hr : r ∈ L.rows) : 1 ≤ G.version r := by
  obtain ⟨v, hv, -⟩ := h.latest r hr
  have hmem : G.number v ∈ upTo (G.version r) := by
    rw [← h.numbers r hr]
    exact List.mem_map_of_mem (List.mem_of_getLast? hv)
  have := mem_upTo.mp hmem
  omega

/-- A key that is not taken has no records. -/
theorem recordsOf_eq_nil (h : L.Complete) {k : K} (hk : k ∉ L.rows.rows.map G.key) :
    L.recordsOf k = [] := by
  rw [recordsOf, List.filter_eq_nil_iff]
  intro v hv hkey
  obtain ⟨r, hr, hrk⟩ := h.owned v hv
  exact hk (List.mem_map.mpr ⟨r, hr, hrk.trans (of_decide_eq_true hkey)⟩)

/-- **Step lemma**: a new row and a revision keep a ledger complete. -/
theorem step (h : L.Complete) (hs : Step L L') : L'.Complete := by
  cases hs with
  | @create r v t hrows hversion hv =>
      have hfresh := (Table.insert?_eq_some hrows).2
      have hnil := h.recordsOf_eq_nil hfresh
      have hne : ∀ x ∈ L.rows, G.owner v ≠ G.key x := by
        rintro x hx he
        rw [hv.owner] at he
        exact hfresh (he ▸ List.mem_map_of_mem hx)
      constructor
      · intro x hx
        rcases (Table.mem_insert? hrows).mp hx with hx | rfl
        · rw [recordsOf_append_of_ne (hne x hx)]
          exact h.numbers x hx
        · rw [recordsOf_append_self hv.owner, hnil, hversion]
          simp only [List.nil_append, List.map_cons, List.map_nil, hv.number, hversion]
          rfl
      · intro x hx
        rcases (Table.mem_insert? hrows).mp hx with hx | rfl
        · rw [recordsOf_append_of_ne (hne x hx)]
          exact h.latest x hx
        · rw [recordsOf_append_self hv.owner]
          exact ⟨v, List.getLast?_concat .., hv⟩
      · intro w hw
        rcases List.mem_append.mp hw with hw | hw
        · obtain ⟨x, hx, hk⟩ := h.owned w hw
          exact ⟨x, (Table.mem_insert? hrows).mpr (.inl hx), hk⟩
        · obtain rfl := List.mem_singleton.mp hw
          exact ⟨r, (Table.mem_insert? hrows).mpr (.inr rfl), hv.owner.symm⟩
  | @revise r old v hfind hversion hv =>
      have hold := Table.mem_of_find? hfind
      have hkey := Table.key_of_find? hfind
      constructor
      · intro x hx
        rcases Table.mem_put_iff.mp hx with ⟨hx, hne⟩ | ⟨rfl, -⟩
        · rw [recordsOf_append_of_ne (fun he => hne (he.symm.trans hv.owner))]
          exact h.numbers x hx
        · rw [recordsOf_append_self hv.owner, List.map_append, ← hkey, h.numbers old hold, hversion,
            upTo_succ (by have := h.version_pos hold; omega)]
          simp only [List.map_cons, List.map_nil, hv.number, hversion]
      · intro x hx
        rcases Table.mem_put_iff.mp hx with ⟨hx, hne⟩ | ⟨rfl, -⟩
        · rw [recordsOf_append_of_ne (fun he => hne (he.symm.trans hv.owner))]
          exact h.latest x hx
        · rw [recordsOf_append_self hv.owner]
          exact ⟨v, List.getLast?_concat .., hv⟩
      · intro w hw
        rcases List.mem_append.mp hw with hw | hw
        · obtain ⟨x, hx, hk⟩ := h.owned w hw
          by_cases hxr : G.key x = G.key r
          · exact ⟨r, Table.mem_put_iff.mpr (.inr ⟨rfl, x, hx, hxr⟩), hxr.symm.trans hk⟩
          · exact ⟨x, Table.mem_put_iff.mpr (.inl ⟨hx, hxr⟩), hk⟩
        · obtain rfl := List.mem_singleton.mp hw
          exact ⟨r, Table.mem_put_iff.mpr (.inr ⟨rfl, old, hold, hkey⟩), hv.owner.symm⟩

/-- A version whose successor has no record yet is the one that stands. -/
theorem eq_version_of_free (h : L.Complete) {r : R} (hr : r ∈ L.rows) {n : ℤ} (h₁ : 0 ≤ n)
    (hn : n ≤ G.version r) (hfree : n + 1 ∉ (L.recordsOf (G.key r)).map G.number) :
    n = G.version r := by
  rw [h.numbers r hr, mem_upTo] at hfree
  omega

theorem empty : (⟨.empty, []⟩ : Ledger G).Complete where
  numbers := fun _ hr => absurd hr List.not_mem_nil
  latest := fun _ hr => absurd hr List.not_mem_nil
  owned := fun _ hv => absurd hv List.not_mem_nil

end Complete

end Ledger
