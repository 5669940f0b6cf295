import Mathlib.Data.List.DropRight
import Mathlib.Data.List.Sort
import Mathlib.Data.Nat.Notation
import Mathlib.Data.Char
import Mathlib.Data.List.Infix
import Mathlib.Data.List.Lex

/-! # Python text

The string operations of Python that programs use to bring text into a canonical form:
`str.isspace`, `str.strip`, `str.split` without a separator, `str.join`, `len`, `in`, slices,
and `sorted(set(…))` of strings.  A Lean `Char` is a Unicode scalar value, so lengths and
slices count the same units as Python's. -/

namespace PythonText

/-- The characters that `str.isspace` accepts. -/
def isSpace (c : Char) : Bool :=
  let n := c.toNat
  (9 ≤ n && n ≤ 13) || (28 ≤ n && n ≤ 32) || n == 0x85 || n == 0xA0 || n == 0x1680 ||
    (0x2000 ≤ n && n ≤ 0x200A) || n == 0x2028 || n == 0x2029 || n == 0x202F || n == 0x205F ||
    n == 0x3000

/-- `s.strip()`. -/
def strip (s : String) : String :=
  String.ofList (((s.toList.dropWhile isSpace).reverse.dropWhile isSpace).reverse)

/-- The leading characters of a text without leading space do not begin with space either. -/
theorem dropWhile_of_prefix {p : Char → Bool} {l ds : List Char} (h : l <+: ds.dropWhile p) :
    l.dropWhile p = l := by
  rw [List.dropWhile_eq_self_iff]
  intro hl
  obtain ⟨rest, hrest⟩ := h
  have hlong : 0 < (ds.dropWhile p).length := by
    rw [← hrest, List.length_append]
    omega
  have hhead := List.dropWhile_get_zero_not p ds hlong
  simp only [← hrest, List.get_eq_getElem, List.getElem_append_left hl] at hhead
  exact hhead

/-- A stripped text has nothing to strip. -/
theorem strip_strip (s : String) : strip (strip s) = strip s := by
  have hstrip : ∀ s, (strip s).toList = (s.toList.dropWhile isSpace).rdropWhile isSpace :=
    fun s => String.toList_ofList
  have hhead : (strip s).toList.dropWhile isSpace = (strip s).toList := by
    rw [hstrip]
    exact dropWhile_of_prefix (List.rdropWhile_prefix _ _)
  apply String.toList_injective
  rw [hstrip (strip s), hhead, hstrip, List.rdropWhile_idempotent]

/-- The words of a text, given the word read so far in reverse. -/
def words : List Char → List Char → List (List Char)
  | [], cur => if cur.isEmpty then [] else [cur.reverse]
  | c :: cs, cur =>
      if isSpace c then (if cur.isEmpty then words cs [] else cur.reverse :: words cs [])
      else words cs (c :: cur)

/-- `s.split()`. -/
def split (s : String) : List String := (words s.toList []).map String.ofList

/-- `" ".join(xs)`. -/
def unwords (xs : List String) : String := String.ofList (List.intercalate [' '] (xs.map String.toList))

/-- `sub in s`. -/
def contains (s sub : String) : Bool := decide (sub.toList <:+: s.toList)

/-- `s[:n]`. -/
def take (s : String) (n : ℕ) : String := String.ofList (s.toList.take n)

/-- `sorted(set(xs))`. -/
def sortedSet (xs : List String) : List String :=
  (xs.dedup).insertionSort fun a b => a.toList ≤ b.toList

end PythonText
