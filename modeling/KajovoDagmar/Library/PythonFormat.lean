import Mathlib.Data.List.Basic
import Mathlib.Data.Nat.Notation

/-! # Formatted text

`str.format` with named fields, and the newline-separated lines of a text.  The values of the fields are
inserted as they are: only the template is read for braces. -/

namespace PythonText

/-- A part of a template: a character, or a field to be filled in. -/
inductive Piece where
  | char (c : Char)
  | field (name : String)
deriving DecidableEq

/-- The parts of a template.  The second argument is the name of the field that is being read, backwards.
Conversions, format specifications and attributes of fields are not read. -/
def pieces : List Char → Option (List Char) → Option (List Piece)
  | [], none => some []
  | [], some _ => none
  | c :: cs, some name =>
    if c = '\x7d' then (pieces cs none).map (.field (String.ofList name.reverse) :: ·)
    else if c ∈ ['\x7b', '!', ':', '.', '['] then none
    else pieces cs (some (c :: name))
  | '\x7b' :: '\x7b' :: cs, none => (pieces cs none).map (.char '\x7b' :: ·)
  | '\x7d' :: '\x7d' :: cs, none => (pieces cs none).map (.char '\x7d' :: ·)
  | c :: cs, none =>
    if c = '\x7b' then pieces cs (some [])
    else if c = '\x7d' then none
    else (pieces cs none).map (.char c :: ·)

/-- The text of the parts, with the values of the fields. -/
def fill (fields : List (String × String)) : List Piece → Option (List Char)
  | [] => some []
  | .char c :: ps => (fill fields ps).map (c :: ·)
  | .field name :: ps => (fields.lookup name).bind fun value => (fill fields ps).map (value.toList ++ ·)

/-- `template.format(**fields)`. -/
def format (template : String) (fields : List (String × String)) : Option String :=
  ((pieces template.toList none).bind (fill fields)).map String.ofList

section format

variable {fields : List (String × String)}

theorem pieces_open {d : Char} (cs : List Char) (h : d ≠ '\x7b') :
    pieces ('\x7b' :: d :: cs) none = pieces (d :: cs) (some []) := by
  conv_lhs => rw [pieces.eq_6 _ _ (fun _ _ heq => h (List.cons.inj heq).1) (fun _ heq => absurd heq (by decide))]
  exact if_pos rfl

theorem pieces_char {c : Char} (cs : List Char) (hopen : c ≠ '\x7b') (hclose : c ≠ '\x7d') :
    pieces (c :: cs) none = (pieces cs none).map (.char c :: ·) := by
  rw [pieces, if_neg hopen, if_neg hclose]
  · exact fun _ heq => absurd heq hopen
  · exact fun _ heq => absurd heq hclose

/-- The parts of two templates, one after the other: a field or an escape does not go beyond the first. -/
theorem pieces_append {cs rest : List Char} {name : Option (List Char)} {ps : List Piece}
    (h : pieces cs name = some ps) : pieces (cs ++ rest) name = (pieces rest none).map (ps ++ ·) := by
  fun_induction pieces cs name generalizing ps with
  | case1 =>
    obtain rfl := Option.some.inj h
    simp
  | case2 name => cases h
  | case3 cs name ih =>
    obtain ⟨qs, hqs, rfl⟩ := Option.map_eq_some_iff.mp h
    simp [pieces, ih hqs, Function.comp_def]
  | case4 c cs name hclose hspecial => cases h
  | case5 c cs name hclose hspecial ih =>
    rw [List.cons_append, pieces, if_neg hclose, if_neg hspecial]
    exact ih h
  | case6 cs ih =>
    obtain ⟨qs, hqs, rfl⟩ := Option.map_eq_some_iff.mp h
    simp [pieces, ih hqs, Function.comp_def]
  | case7 cs ih =>
    obtain ⟨qs, hqs, rfl⟩ := Option.map_eq_some_iff.mp h
    simp [pieces, ih hqs, Function.comp_def]
  | case8 cs hescape _ ih =>
    cases cs with
    | nil => cases h
    | cons d cs =>
      have hd : d ≠ '\x7b' := fun heq => hescape cs rfl (by rw [heq])
      have hopen : pieces ('\x7b' :: d :: cs ++ rest) none = pieces (d :: cs ++ rest) (some []) :=
        pieces_open (cs ++ rest) hd
      rw [hopen]
      exact ih h
  | case9 => cases h
  | case10 c cs hopenEscape hcloseEscape hopen hclose ih =>
    obtain ⟨qs, hqs, rfl⟩ := Option.map_eq_some_iff.mp h
    rw [List.cons_append, pieces_char _ hopen hclose, ih hqs, Option.map_map]
    rfl

/-- A template without braces is its own text. -/
theorem pieces_of_plain {cs : List Char} (h : ∀ c ∈ cs, c ≠ '\x7b' ∧ c ≠ '\x7d') :
    pieces cs none = some (cs.map .char) := by
  induction cs with
  | nil => rfl
  | cons c cs ih =>
    obtain ⟨hopen, hclose⟩ := h c List.mem_cons_self
    have hrest := ih fun d hd => h d (List.mem_cons_of_mem c hd)
    rw [pieces_char cs hopen hclose, hrest]
    rfl

theorem fill_append {ps qs : List Piece} {cs : List Char} (h : fill fields ps = some cs) :
    fill fields (ps ++ qs) = (fill fields qs).map (cs ++ ·) := by
  induction ps generalizing cs with
  | nil =>
    obtain rfl := Option.some.inj h
    simp
  | cons p ps ih =>
    cases p with
    | char c =>
      obtain ⟨rest, hrest, rfl⟩ := Option.map_eq_some_iff.mp h
      show (fill fields (ps ++ qs)).map (c :: ·) = _
      rw [ih hrest, Option.map_map]
      rfl
    | field name =>
      obtain ⟨value, hvalue, hmap⟩ := Option.bind_eq_some_iff.mp h
      obtain ⟨rest, hrest, rfl⟩ := Option.map_eq_some_iff.mp hmap
      show (fields.lookup name).bind (fun value => (fill fields (ps ++ qs)).map (value.toList ++ ·)) = _
      rw [hvalue, Option.bind_some, ih hrest, Option.map_map]
      simp [Function.comp_def, List.append_assoc]

theorem fill_chars (cs : List Char) : fill fields (cs.map .char) = some cs := by
  induction cs with
  | nil => rfl
  | cons c cs ih =>
    show (fill fields (cs.map .char)).map (c :: ·) = _
    rw [ih]
    rfl

/-- The texts of templates, one after the other. -/
theorem format_join {templates texts : List String}
    (h : List.Forall₂ (fun template text => format template fields = some text) templates texts) :
    format (String.join templates) fields = some (String.join texts) := by
  induction h with
  | nil => rfl
  | @cons template text templates texts hfirst _ ih =>
    obtain ⟨first, hparts, rfl⟩ := Option.map_eq_some_iff.mp hfirst
    obtain ⟨rest, hmore, hjoin⟩ := Option.map_eq_some_iff.mp ih
    obtain ⟨ps, hps, hfill⟩ := Option.bind_eq_some_iff.mp hparts
    obtain ⟨qs, hqs, hrest⟩ := Option.bind_eq_some_iff.mp hmore
    have htemplates : (String.join (template :: templates)).toList =
        template.toList ++ (String.join templates).toList := by
      rw [String.toList_join, List.flatMap_cons, String.toList_join]
    unfold format
    rw [htemplates, pieces_append hps, hqs, Option.map_some, Option.bind_some, fill_append hfill, hrest,
      Option.map_some, Option.map_some]
    congr 1
    apply String.toList_injective
    rw [String.toList_ofList, String.toList_join, List.flatMap_cons, String.toList_ofList, ← String.toList_join,
      ← hjoin, String.toList_ofList]

/-- A text that is written line by line. -/
def unlines (ls : List String) : String := String.join (ls.map (· ++ "\n"))

theorem format_unlines {templates texts : List String}
    (h : List.Forall₂ (fun template text => format template fields = some text) templates texts) :
    format (unlines templates) fields = some (unlines texts) := by
  have hnewline : format "\n" fields = some "\n" := by
    unfold format
    rw [show pieces "\n".toList none = some [.char '\n'] by decide]
    rfl
  apply format_join
  induction h with
  | nil => exact .nil
  | @cons template text templates texts hfirst _ ih =>
    refine .cons ?_ ih
    have hpair : List.Forall₂ (fun template text => format template fields = some text) [template, "\n"]
        [text, "\n"] := .cons hfirst (.cons hnewline .nil)
    have hjoin : ∀ a b : String, String.join [a, b] = a ++ b := by
      intro a b
      apply String.toList_injective
      simp
    have hformat := format_join hpair
    rwa [hjoin, hjoin] at hformat

theorem format_of_plain {s : String} (h : ∀ c ∈ s.toList, c ≠ '\x7b' ∧ c ≠ '\x7d') :
    format s fields = some s := by
  unfold format
  rw [pieces_of_plain h, Option.bind_some, fill_chars, Option.map_some, String.ofList_toList]

end format

example : format "a\x7b\x7b\x7bx\x7d" [("x", "\x7by\x7d")] = some "a\x7b\x7by\x7d" := by decide +kernel

/-! ### Lines -/

/-- The newline-separated lines of a text. -/
def lines (s : String) : List String := (s.toList.splitOn '\n').map String.ofList

theorem lines_of_notMem {s : String} (h : '\n' ∉ s.toList) : lines s = [s] := by
  unfold lines
  rw [List.splitOn_eq_singleton h, List.map_singleton, String.ofList_toList]

theorem lines_append_newline (s t : String) : lines (s ++ "\n" ++ t) = lines s ++ lines t := by
  have hlist : (s ++ "\n" ++ t).toList = s.toList ++ '\n' :: t.toList := by
    rw [String.toList_append, String.toList_append, List.append_assoc]
    rfl
  unfold lines
  rw [hlist, List.splitOn_append_cons_self, List.map_append]

/-- The lines of a text that was written line by line, with the empty line after the last newline. -/
theorem lines_unlines (ls : List String) : lines (unlines ls) = ls.flatMap lines ++ [""] := by
  induction ls with
  | nil => rfl
  | cons l ls ih =>
    have hcons : unlines (l :: ls) = l ++ "\n" ++ unlines ls := by
      apply String.toList_injective
      simp [unlines, String.toList_join]
    rw [hcons, lines_append_newline, ih, List.flatMap_cons, List.append_assoc]

/-- Texts without newlines are their own lines. -/
theorem flatMap_lines {ls : List String} (h : ∀ l ∈ ls, '\n' ∉ l.toList) : ls.flatMap lines = ls := by
  induction ls with
  | nil => rfl
  | cons l ls ih =>
    rw [List.flatMap_cons, lines_of_notMem (h l List.mem_cons_self),
      ih fun x hx => h x (List.mem_cons_of_mem l hx)]
    rfl

end PythonText
