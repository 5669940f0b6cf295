import KajovoDagmar.Library.JsonParser
import KajovoDagmar.Library.PythonFormat
import Mathlib.Tactic.IntervalCases

/-! # A JSON text is one line

The text of a value has no control characters (`control_of_mem_chars`), so it is one line whatever strings the
value holds, and the value is read back from that line. -/

namespace Json

/-- A character that is not a control character of ASCII. -/
def Plain (c : Char) : Prop := 32 ≤ c.toNat

instance : DecidablePred Plain := fun c => inferInstanceAs (Decidable (32 ≤ c.toNat))

theorem plain_digitChar : ∀ n < 16, Plain (Nat.digitChar n) := by decide

/-- An escape has no control characters, whichever character it stands for. -/
theorem plain_escapeChar (c : Char) : ∀ d ∈ escapeChar c, Plain d := by
  have hpair : ∀ x y : Char, Plain x → Plain y → ∀ d ∈ [x, y], Plain d := by
    intro x y hx hy d hd
    rcases List.mem_pair.mp hd with rfl | rfl
    · exact hx
    · exact hy
  unfold escapeChar
  split_ifs with _ _ _ _ _ _ _ hlow
  any_goals exact hpair _ _ (by decide) (by decide)
  · -- the characters without a short escape are written with their four hexadecimal digits
    have hhigh : Plain (Nat.digitChar (c.toNat / 16)) := plain_digitChar _ (by omega)
    have hdigit : Plain (Nat.digitChar (c.toNat % 16)) := plain_digitChar _ (by omega)
    intro d hd
    simp only [List.mem_cons, List.not_mem_nil, or_false] at hd
    rcases hd with rfl | rfl | rfl | rfl | rfl | rfl
    any_goals decide
    · exact hhigh
    · exact hdigit
  · intro d hd
    rw [List.mem_singleton.mp hd]
    exact Nat.not_lt.mp hlow

theorem plain_quote (s : String) : ∀ c ∈ quote s, Plain c := by
  intro c hc
  simp only [quote, escape, List.mem_cons, List.mem_append, List.mem_flatMap, List.not_mem_nil,
    or_false] at hc
  rcases hc with rfl | ⟨d, -, hc⟩ | rfl
  · decide
  · exact plain_escapeChar d c hc
  · decide

theorem plain_isDigit {c : Char} (h : c.isDigit = true) : Plain c := by
  simp only [Char.isDigit, Bool.and_eq_true, decide_eq_true_eq] at h
  have hlow : 48 ≤ c.toNat := h.1
  show 32 ≤ c.toNat
  omega

theorem plain_atom {j : Json} (hp : j.Printed) (ha : j.Atom) : ∀ c ∈ chars j, Plain c := by
  cases j with
  | null => exact List.all_iff_forall_prop.mp (by decide)
  | bool b => cases b <;> exact List.all_iff_forall_prop.mp (by decide)
  | int n =>
    intro c hc
    rcases mem_chars_int hc with hdigit | rfl
    · exact plain_isDigit hdigit
    · decide
  | float r =>
    rcases hp with hp | ⟨hall, -⟩
    · simp only [List.mem_cons, List.not_mem_nil, or_false] at hp
      rcases hp with rfl | rfl | rfl <;> exact List.all_iff_forall_prop.mp (by decide)
    · intro c hc
      rcases hall c hc with hdigit | hsign
      · exact plain_isDigit hdigit
      · simp only [List.mem_cons, List.not_mem_nil, or_false] at hsign
        rcases hsign with rfl | rfl | rfl | rfl <;> decide
  | str s => exact ha.elim
  | arr xs => exact ha.elim
  | obj kvs => exact ha.elim

/-- Characters around and between plain ones. -/
theorem plain_cons {c : Char} {cs : List Char} (hc : Plain c) (hcs : ∀ d ∈ cs, Plain d) :
    ∀ d ∈ c :: cs, Plain d := by
  intro d hd
  rcases List.mem_cons.mp hd with rfl | hd
  · exact hc
  · exact hcs d hd

theorem plain_append {cs ds : List Char} (hcs : ∀ d ∈ cs, Plain d) (hds : ∀ d ∈ ds, Plain d) :
    ∀ d ∈ cs ++ ds, Plain d := by
  intro d hd
  rcases List.mem_append.mp hd with hd | hd
  · exact hcs d hd
  · exact hds d hd

mutual

/-- The text of a value has no control characters. -/
theorem plain_chars : ∀ {j : Json}, j.Printed → ∀ c ∈ chars j, Plain c
  | null, h => plain_atom h trivial
  | bool _, h => plain_atom h trivial
  | int _, h => plain_atom h trivial
  | float _, h => plain_atom h trivial
  | str s, _ => plain_quote s
  | arr _, h =>
    plain_cons (by decide) (plain_append (plain_charsItems h) (plain_cons (by decide) (by simp)))
  | obj _, h =>
    plain_cons (by decide) (plain_append (plain_charsEntries h) (plain_cons (by decide) (by simp)))

theorem plain_charsItems : ∀ {xs : List Json}, PrintedItems xs → ∀ c ∈ charsItems xs, Plain c
  | [], _ => by simp [charsItems]
  | [_], h => plain_chars h.1
  | _ :: _ :: _, h => plain_append (plain_chars h.1) (plain_cons (by decide) (plain_charsItems h.2))

theorem plain_charsEntries : ∀ {kvs : List (String × Json)}, PrintedEntries kvs →
    ∀ c ∈ charsEntries kvs, Plain c
  | [], _ => by simp [charsEntries]
  | [(k, _)], h => plain_append (plain_quote k) (plain_cons (by decide) (plain_chars h.1))
  | (k, _) :: _ :: _, h =>
    plain_append (plain_quote k) (plain_cons (by decide)
      (plain_append (plain_chars h.1) (plain_cons (by decide) (plain_charsEntries h.2))))

end

/-- **A JSON text is one line.** -/
theorem newline_notMem_dumps {j : Json} (h : j.Printed) : '\n' ∉ j.dumps.toList := by
  intro hmem
  rw [dumps, String.toList_ofList] at hmem
  exact absurd (plain_chars h _ hmem) (by decide)

/-! ### Values that are read back -/

theorem exactItems_iff {xs : List Json} : ExactItems xs ↔ ∀ x ∈ xs, x.Exact := by
  induction xs with
  | nil => simp [ExactItems]
  | cons x xs ih => rw [ExactItems, ih, List.forall_mem_cons]

theorem exact_arr {xs : List Json} (h : ∀ x ∈ xs, x.Exact) : (arr xs).Exact := exactItems_iff.mpr h

theorem exactEntries_iff {kvs : List (String × Json)} : ExactEntries kvs ↔ ∀ kv ∈ kvs, kv.2.Exact := by
  induction kvs with
  | nil => simp [ExactEntries]
  | cons kv kvs ih => rw [ExactEntries, ih, List.forall_mem_cons]

/-- An object without a repeated key is read back if its values are. -/
theorem exact_obj {kvs : List (String × Json)} (hkeys : (kvs.map Prod.fst).Nodup)
    (h : ∀ kv ∈ kvs, kv.2.Exact) : (obj kvs).Exact := ⟨hkeys, exactEntries_iff.mpr h⟩

theorem exact_ofStr? (o : Option String) : (ofStr? o).Exact := by
  cases o <;> trivial

end Json
