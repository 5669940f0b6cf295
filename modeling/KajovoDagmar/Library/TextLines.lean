import Mathlib.Data.List.TakeWhile
import Mathlib.Data.Nat.Notation

/-! # The lines of a text

A line is ended by `\n`, by `\r\n` or by `\r`, and the last one by the end of the text.  `walk` reads a text
from its beginning and stops where a line begins, after its blanks, with a given character
(`walk_lines`). -/

namespace TextLines

/-- The character ends a line. -/
def EndsLine (c : Char) : Prop := c = '\n' ∨ c = '\r'

instance : DecidablePred EndsLine := fun _ => inferInstanceAs (Decidable (_ ∨ _))

/-- A character before the lines that follow it. -/
def prepend (c : Char) : List (List Char) → List (List Char)
  | [] => [[c]]
  | l :: ls => (c :: l) :: ls

def lines : List Char → List (List Char)
  | [] => []
  | '\r' :: '\n' :: cs => [] :: lines cs
  | c :: cs => if EndsLine c then [] :: lines cs else prepend c (lines cs)

example : lines "a\r\n\rb\n".toList = ["a".toList, [], "b".toList] := by decide

theorem lines_crlf (cs : List Char) : lines ('\r' :: '\n' :: cs) = [] :: lines cs := rfl

theorem lines_newline (cs : List Char) : lines ('\n' :: cs) = [] :: lines cs := rfl

/-- The end of a line, unless it is the first half of `\r\n`. -/
theorem lines_end {c : Char} {cs : List Char} (hc : EndsLine c)
    (hnot : ∀ rest, c = '\r' → cs = '\n' :: rest → False) : lines (c :: cs) = [] :: lines cs := by
  rw [lines, if_pos hc]
  exact hnot

theorem lines_cr {cs : List Char} (h : cs.head? ≠ some '\n') : lines ('\r' :: cs) = [] :: lines cs :=
  lines_end (.inr rfl) fun _ _ hcs => h (by rw [hcs]; rfl)

theorem lines_cons {c : Char} (hc : ¬EndsLine c) (cs : List Char) : lines (c :: cs) = prepend c (lines cs) := by
  rw [lines, if_neg hc]
  rintro rest rfl
  exact absurd (.inr rfl) hc

theorem prepend_ne_nil (c : Char) (ls : List (List Char)) : prepend c ls ≠ [] := by
  cases ls with
  | nil => exact List.cons_ne_nil _ _
  | cons l ls => exact List.cons_ne_nil _ _

theorem prepend_append {ls : List (List Char)} (h : ls ≠ []) (c : Char) (ms : List (List Char)) :
    prepend c (ls ++ ms) = prepend c ls ++ ms := by
  cases ls with
  | nil => exact absurd rfl h
  | cons l ls => rfl

theorem lines_ne_nil {cs : List Char} (h : cs ≠ []) : lines cs ≠ [] := by
  cases cs with
  | nil => exact absurd rfl h
  | cons c cs =>
      unfold lines
      split
      · next heq => exact absurd heq (by simp)
      · exact List.cons_ne_nil _ _
      · split
        · exact List.cons_ne_nil _ _
        · exact prepend_ne_nil _ _

/-- **A line break separates the lines** before it from those after it. -/
theorem lines_append (cs ds : List Char) : lines (cs ++ '\n' :: ds) = lines (cs ++ ['\n']) ++ lines ds := by
  induction cs using lines.induct with
  | case1 => rfl
  | case2 cs ih =>
      change [] :: lines (cs ++ '\n' :: ds) = ([] :: lines (cs ++ ['\n'])) ++ lines ds
      rw [ih]
      rfl
  | case3 c cs hnot hc ih =>
      rcases hc with rfl | rfl
      · change [] :: lines (cs ++ '\n' :: ds) = ([] :: lines (cs ++ ['\n'])) ++ lines ds
        rw [ih]
        rfl
      · cases cs with
        | nil => rfl
        | cons d cs =>
            have hd : ∀ es, (d :: (cs ++ es)).head? ≠ some '\n' := by
              rintro es heq
              obtain rfl := Option.some.inj heq
              exact hnot cs rfl rfl
            rw [List.cons_append, List.cons_append] at ih
            rw [List.cons_append, List.cons_append, List.cons_append, List.cons_append, lines_cr (hd _),
              lines_cr (hd _), ih]
            rfl
  | case4 c cs hnot hc ih =>
      rw [List.cons_append, List.cons_append, lines_cons hc, lines_cons hc, ih,
        prepend_append (lines_ne_nil (by simp))]

/-- The lines of texts that are each ended by a line break. -/
theorem lines_flatMap {α : Type*} (f : α → List Char) (xs : List α) :
    lines (xs.flatMap fun x => f x ++ ['\n']) = xs.flatMap fun x => lines (f x ++ ['\n']) := by
  induction xs with
  | nil => rfl
  | cons x xs ih =>
      rw [List.flatMap_cons, List.flatMap_cons, ← ih, List.append_assoc, List.singleton_append, lines_append]

/-- A text on one line. -/
theorem lines_of_notMem {cs : List Char} (h : ∀ c ∈ cs, ¬EndsLine c) : lines (cs ++ ['\n']) = [cs] := by
  induction cs with
  | nil => rfl
  | cons c cs ih =>
      rw [List.cons_append, lines_cons (h c List.mem_cons_self), ih fun d hd => h d (List.mem_cons_of_mem _ hd)]
      rfl

/-- Lines, each ended by a line break. -/
def unlines (ls : List (List Char)) : List Char := ls.flatMap fun l => l ++ ['\n']

theorem unlines_cons (l : List Char) (ls : List (List Char)) : unlines (l :: ls) = l ++ '\n' :: unlines ls := by
  rw [unlines, List.flatMap_cons, List.append_assoc]
  rfl

theorem unlines_append (ls ms : List (List Char)) : unlines (ls ++ ms) = unlines ls ++ unlines ms :=
  List.flatMap_append

/-- The lines of a text are no longer than the text, where it ends with a line break. -/
theorem length_unlines_lines_le (cs : List Char) : (unlines (lines (cs ++ ['\n']))).length ≤ cs.length + 1 := by
  induction cs using lines.induct with
  | case1 => exact Nat.le_refl _
  | case2 cs ih =>
      change (unlines ([] :: lines (cs ++ ['\n']))).length ≤ _
      rw [unlines_cons, List.nil_append, List.length_cons, List.length_cons, List.length_cons]
      omega
  | case3 c cs hnot hc ih =>
      have hline : (unlines ([] :: lines (cs ++ ['\n']))).length ≤ (c :: cs).length + 1 := by
        rw [unlines_cons, List.nil_append, List.length_cons, List.length_cons]
        omega
      rcases hc with rfl | rfl
      · exact hline
      · cases cs with
        | nil => exact Nat.le_succ 1
        | cons d cs =>
            have hd : (d :: (cs ++ ['\n'])).head? ≠ some '\n' := by
              intro heq
              obtain rfl := Option.some.inj heq
              exact hnot cs rfl rfl
            rw [List.cons_append, List.cons_append, lines_cr hd]
            exact hline
  | case4 c cs hnot hc ih =>
      rw [List.cons_append, lines_cons hc]
      rcases hl : lines (cs ++ ['\n']) with _ | ⟨l, ls⟩
      · exact absurd hl (lines_ne_nil (by simp))
      · rw [hl, unlines_cons, List.length_append, List.length_cons] at ih
        rw [prepend, unlines_cons, List.length_append, List.length_cons, List.length_cons, List.length_cons]
        omega

/-- A text without `\r` is that of its lines. -/
theorem unlines_lines {cs : List Char} (h : '\r' ∉ cs) : unlines (lines (cs ++ ['\n'])) = cs ++ ['\n'] := by
  induction cs with
  | nil => rfl
  | cons c cs ih =>
      rw [List.mem_cons, not_or] at h
      by_cases hc : EndsLine c
      · obtain rfl := hc.resolve_right (Ne.symm h.1)
        rw [List.cons_append, lines_newline, unlines_cons, ih h.2]
        rfl
      · rw [List.cons_append, lines_cons hc]
        rcases hl : lines (cs ++ ['\n']) with _ | ⟨l, ls⟩
        · exact absurd hl (lines_ne_nil (by simp))
        · have hih := ih h.2
          rw [hl, unlines_cons] at hih
          rw [prepend, unlines_cons, List.cons_append, hih]

/-! ### How lines begin -/

section walk

variable (blank foreign : Char → Bool)

/-- Whether a line has only blanks so far, at the end of a text; `none` if a line of it begins with a foreign
character after its blanks. -/
def walk (start : Bool) : List Char → Option Bool
  | [] => some start
  | c :: cs =>
    if EndsLine c then walk true cs
    else if start && blank c then walk true cs
    else if start && foreign c then none
    else walk false cs

variable {blank foreign}

theorem walk_append (start : Bool) (cs ds : List Char) :
    walk blank foreign start (cs ++ ds) =
      (walk blank foreign start cs).bind fun start' => walk blank foreign start' ds := by
  induction cs generalizing start with
  | nil => rfl
  | cons c cs ih =>
      rw [List.cons_append, walk, walk]
      split
      · exact ih true
      split
      · exact ih true
      split
      · rfl
      · exact ih false

/-- Blanks are no foreign characters. -/
theorem walk_blanks {cs : List Char} (h : ∀ c ∈ cs, blank c = true ∧ foreign c = false) (start : Bool) :
    ∃ start', walk blank foreign start cs = some start' := by
  induction cs generalizing start with
  | nil => exact ⟨start, rfl⟩
  | cons c cs ih =>
      have hrest := ih fun d hd => h d (List.mem_cons_of_mem _ hd)
      rw [walk, (h c List.mem_cons_self).2, Bool.and_false, if_neg Bool.false_ne_true]
      split
      · exact hrest true
      split
      · exact hrest true
      · exact hrest false

/-- Inside of a line everything may stand. -/
theorem walk_inside {cs : List Char} (h : ∀ c ∈ cs, ¬EndsLine c) : walk blank foreign false cs = some false := by
  induction cs with
  | nil => rfl
  | cons c cs ih =>
      rw [walk, if_neg (h c List.mem_cons_self), Bool.false_and, Bool.false_and, if_neg Bool.false_ne_true,
        if_neg Bool.false_ne_true]
      exact ih fun d hd => h d (List.mem_cons_of_mem _ hd)

/-- A line that does not begin with a foreign character after its blanks. -/
def Native (blank foreign : Char → Bool) (l : List Char) : Prop :=
  ∀ c, (l.dropWhile blank).head? = some c → foreign c = false

theorem native_nil : Native blank foreign [] := fun _ h => absurd h (by simp)

theorem mem_cases {α : Type*} {x : α} {xs : List α} (h : x ∈ xs) : x ∈ xs.head? ∨ x ∈ xs.tail := by
  cases xs with
  | nil => exact absurd h List.not_mem_nil
  | cons y ys => exact (List.mem_cons.mp h).imp (fun heq => by rw [heq]; rfl) id

/-- Where the walk goes on, every line that begins behind it is native, and so is the line that it is in, if
that has only blanks so far. -/
theorem walk_tail {start : Bool} {cs : List Char} (h : walk blank foreign start cs ≠ none) :
    (∀ l ∈ (lines cs).tail, Native blank foreign l) ∧
      (start = true → ∀ l ∈ (lines cs).head?, Native blank foreign l) := by
  induction cs using lines.induct generalizing start with
  | case1 => exact ⟨fun _ hl => absurd hl List.not_mem_nil, fun _ _ hl => absurd hl (by simp [lines])⟩
  | case2 cs ih =>
      have hrest : walk blank foreign true cs ≠ none := by
        rwa [walk, if_pos (.inr rfl), walk, if_pos (.inl rfl)] at h
      obtain ⟨htail, hhead⟩ := ih hrest
      rw [lines_crlf]
      refine ⟨fun l hl => (mem_cases hl).elim (hhead rfl l) (htail l), fun _ l hl => ?_⟩
      obtain rfl := Option.some.inj hl
      exact native_nil
  | case3 c cs hnot hc ih =>
      have hrest : walk blank foreign true cs ≠ none := by rwa [walk, if_pos hc] at h
      obtain ⟨htail, hhead⟩ := ih hrest
      rw [lines_end hc hnot]
      refine ⟨fun l hl => (mem_cases hl).elim (hhead rfl l) (htail l), fun _ l hl => ?_⟩
      obtain rfl := Option.some.inj hl
      exact native_nil
  | case4 c cs hnot hc ih =>
      rw [lines_cons hc]
      rw [walk, if_neg hc] at h
      have htails : (prepend c (lines cs)).tail = (lines cs).tail := by
        cases lines cs with
        | nil => rfl
        | cons l ls => rfl
      split at h
      · next hblank =>
        -- the line has only blanks up to here
        rw [Bool.and_eq_true] at hblank
        obtain ⟨htail, hhead⟩ := ih h
        refine ⟨by rwa [htails], fun _ l hl => ?_⟩
        rcases hls : lines cs with _ | ⟨l', ls⟩
        · rw [hls] at hl
          obtain rfl := Option.some.inj hl
          intro d hd
          simp [hblank.2] at hd
        · rw [hls] at hl hhead
          obtain rfl := Option.some.inj hl
          intro d hd
          rw [List.dropWhile_cons, if_pos hblank.2] at hd
          exact hhead rfl l' rfl d hd
      · next hblank =>
        split at h
        · exact absurd rfl h
        · next hforeign =>
          refine ⟨by rw [htails]; exact (ih h).1, fun hstart l hl => ?_⟩
          rw [hstart, Bool.true_and] at hblank hforeign
          have hhead : ∃ l', l = c :: l' := by
            rcases hls : lines cs with _ | ⟨l', ls⟩
            · rw [hls] at hl
              exact ⟨[], (Option.some.inj hl).symm⟩
            · rw [hls] at hl
              exact ⟨l', (Option.some.inj hl).symm⟩
          obtain ⟨l', rfl⟩ := hhead
          intro d hd
          rw [List.dropWhile_cons, if_neg hblank] at hd
          obtain rfl := Option.some.inj hd
          exact Bool.not_eq_true _ |>.mp hforeign

/-- **Every line of a text that is walked through is native.** -/
theorem walk_lines {cs : List Char} (h : walk blank foreign true cs ≠ none) :
    ∀ l ∈ lines cs, Native blank foreign l :=
  fun l hl => (mem_cases hl).elim ((walk_tail h).2 rfl l) ((walk_tail h).1 l)

end walk

end TextLines
