import Mathlib.Data.List.Infix
import Mathlib.Data.Nat.Notation

/-! # Patterns of `LIKE`

`text LIKE pattern` of PostgreSQL with the default escape character: `%` stands for any stretch, `_` for any
character, and a character after a backslash for itself.  `column.contains(x)` is the pattern `%x%` with the
characters of `x` as they are, so it finds the texts with the stretch `x` only if `x` is free of these three. -/

namespace SqlText

inductive Wild where
  | run
  | one
  | char (c : Char)

/-- The pattern read from the left. A backslash at its end, which the database refuses, stands for itself. -/
def parse : List Char → List Wild
  | [] => []
  | '\\' :: c :: p => .char c :: parse p
  | c :: p => (if c = '%' then .run else if c = '_' then .one else .char c) :: parse p

def accepts : List Wild → List Char → Bool
  | [], t => t.isEmpty
  | .run :: w, t => t.tails.any (accepts w)
  | .one :: w, t => t.tail?.any (accepts w)
  | .char c :: w, t => t.head? = some c && t.tail?.any (accepts w)

/-- `text LIKE pattern`. -/
def like (text pattern : String) : Bool := accepts (parse pattern.toList) text.toList

/-- `column.contains(term)`. -/
def contains (text term : String) : Bool := like text ("%" ++ term ++ "%")

/-- The term has none of the characters that `LIKE` reads in its own way. -/
def Plain (term : String) : Prop := ∀ c ∈ term.toList, c ≠ '%' ∧ c ≠ '_' ∧ c ≠ '\\'

instance (term : String) : Decidable (Plain term) := inferInstanceAs (Decidable (∀ c ∈ term.toList, _))

theorem parse_cons_of_plain {c : Char} (h : c ≠ '%' ∧ c ≠ '_' ∧ c ≠ '\\') (p : List Char) :
    parse (c :: p) = .char c :: parse p := by
  rw [parse, if_neg h.1, if_neg h.2.1]
  rintro d q hbackslash -
  exact h.2.2 hbackslash

/-- A plain stretch before a final `%` accepts what begins with it. -/
theorem accepts_parse_iff {term : List Char} (h : ∀ c ∈ term, c ≠ '%' ∧ c ≠ '_' ∧ c ≠ '\\') (t : List Char) :
    accepts (parse (term ++ ['%'])) t = true ↔ term <+: t := by
  induction term generalizing t with
  | nil =>
      have hrun : accepts (parse ['%']) t = true := by
        have hnil : [] ∈ t.tails := (List.mem_tails [] t).mpr (List.nil_suffix)
        exact List.any_eq_true.mpr ⟨[], hnil, rfl⟩
      exact iff_of_true hrun List.nil_prefix
  | cons c term ih =>
      have ih := ih fun d hd => h d (List.mem_cons_of_mem c hd)
      rw [List.cons_append, parse_cons_of_plain (h c List.mem_cons_self)]
      cases t with
      | nil => simp [accepts]
      | cons d t =>
          rw [accepts, Bool.and_eq_true, List.cons_prefix_cons]
          simp only [List.head?_cons, Option.some.injEq, decide_eq_true_eq, List.tail?_cons, Option.any_some, ih]
          exact and_congr_left fun _ => eq_comm

/-- **Substring search**: a plain term is found exactly in the texts that have it as a stretch. -/
theorem contains_iff_of_plain {term : String} (h : Plain term) (text : String) :
    contains text term = true ↔ term.toList <:+: text.toList := by
  have hparse : parse ("%" ++ term ++ "%").toList = .run :: parse (term.toList ++ ['%']) := by
    rw [String.toList_append, String.toList_append]
    rfl
  unfold contains like
  rw [hparse, accepts, List.any_eq_true, List.infix_iff_prefix_suffix]
  constructor
  · rintro ⟨t, ht, haccepted⟩
    exact ⟨t, (accepts_parse_iff h t).mp haccepted, (List.mem_tails _ _).mp ht⟩
  · rintro ⟨t, hstart, ht⟩
    exact ⟨t, (List.mem_tails _ _).mpr ht, (accepts_parse_iff h t).mpr hstart⟩

example : contains "100 percent" "%" = true ∧ contains "snake case" "e_c" = true ∧ contains "100%" "\\" = true := by
  decide +kernel

end SqlText
