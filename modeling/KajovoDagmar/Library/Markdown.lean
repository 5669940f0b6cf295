import KajovoDagmar.Library.TextLines

/-! # Fenced code blocks

A Markdown text is read line by line.  A line of at least three backticks or tildes opens a block, a line of
at least as many of the same closes it, and a block that is still open ends with the text.  Both may be
indented by up to three spaces, and the lines of the block lose the indentation of its first line.  The rest
of the first line says what the block contains; it has no backtick if the fence is of backticks.  Every other
line is text, in a text that is `legible`: outside of the blocks no line begins an HTML block, a quotation or an item
of a list.  What stands in one of these is not read here.

The text of a block is no longer than the lines that it is read from (`length_text_le`). -/

namespace Markdown

open TextLines

abbrev Line := List Char

def backtick : Char := Char.ofNat 96

/-- The line that opens a block. -/
structure Fence where
  char : Char
  length : ℕ
  indent : ℕ
  char_mem : char = backtick ∨ char = '~'
  long : 3 ≤ length

/-- A fenced code block: the rest of its first line, and its lines. -/
structure Block where
  info : Line
  content : List Line

def isBlank (c : Char) : Bool := c = ' ' || c = '\t'

/-- The first word of the first line. -/
def Block.language (b : Block) : Line := (b.info.dropWhile isBlank).takeWhile fun c => !isBlank c

def Block.text (b : Block) : String := String.ofList (unlines b.content)

/-- The spaces before a line. -/
def indentOf (l : Line) : ℕ := (l.takeWhile fun c => c = ' ').length

/-- A line after its spaces. -/
def trimmed (l : Line) : Line := l.dropWhile fun c => c = ' '

/-- How often a character is repeated at the beginning of a line. -/
def runOf (c : Char) (l : Line) : ℕ := (l.takeWhile fun d => d = c).length

/-- The fence of a character, and the rest of its line. -/
def fenceOf (c : Char) (hc : c = backtick ∨ c = '~') (l : Line) : Option (Fence × Line) :=
  if h : 3 ≤ runOf c (trimmed l) then
    if indentOf l ≤ 3 ∧ (c = backtick → backtick ∉ (trimmed l).drop (runOf c (trimmed l))) then
      some (⟨c, runOf c (trimmed l), indentOf l, hc, h⟩, (trimmed l).drop (runOf c (trimmed l)))
    else none
  else none

/-- The block that a line opens. -/
def opens (l : Line) : Option (Fence × Line) :=
  (fenceOf backtick (.inl rfl) l).or (fenceOf '~' (.inr rfl) l)

/-- The line closes the block of a fence. -/
def Fence.closes (f : Fence) (l : Line) : Bool :=
  indentOf l ≤ 3 && f.length ≤ runOf f.char (trimmed l) &&
    ((trimmed l).drop (runOf f.char (trimmed l))).all isBlank

/-- A line of the block of a fence. -/
def Fence.strip (f : Fence) (l : Line) : Line := l.drop (min f.indent (indentOf l))

/-- Where a reader is: in the text, or in a block. -/
inductive State where
  | text
  | fenced (f : Fence) (block : Block)

/-- What a line changes, and the block that it closes. -/
def step : State → Line → State × List Block
  | .text, l =>
    match opens l with
    | some (f, info) => (.fenced f ⟨info, []⟩, [])
    | none => (.text, [])
  | .fenced f b, l =>
    if f.closes l then (.text, [b]) else (.fenced f { b with content := b.content ++ [f.strip l] }, [])

/-- What lines change, and the blocks that they close. -/
def scan : State → List Line → State × List Block
  | s, [] => (s, [])
  | s, l :: ls => ((scan (step s l).1 ls).1, (step s l).2 ++ (scan (step s l).1 ls).2)

/-- The block that the end of the text closes. -/
def State.rest : State → List Block
  | .text => []
  | .fenced _ b => [b]

/-- The blocks of lines, from a state to the end. -/
def blocksFrom (s : State) (ls : List Line) : List Block := (scan s ls).2 ++ (scan s ls).1.rest

/-- The fenced code blocks of a text. -/
def blocks (cs : List Char) : List Block := blocksFrom .text (lines cs)

/-- The mark of an item, and a space or the end of the line. -/
def isBullet : Line → Bool
  | [] => false
  | c :: rest => (c = '-' || c = '+' || c = '*') && rest.head?.all isBlank

/-- The number of an item. -/
def isNumbered (l : Line) : Bool :=
  match l.dropWhile Char.isDigit with
  | [] => false
  | c :: rest => l.head?.any Char.isDigit && (c = '.' || c = ')') && rest.head?.all isBlank

/-- A line that may begin an HTML block, a quotation or an item of a list. -/
def opensOther (l : Line) : Bool :=
  indentOf l ≤ 3 && ((trimmed l).head?.any (fun c => c = '<' || c = '>') || isBullet (trimmed l) ||
    isNumbered (trimmed l))

/-- No line that is read as text begins another block. -/
def legible : State → List Line → Bool
  | _, [] => true
  | .text, l :: ls => !opensOther l && legible (step .text l).1 ls
  | .fenced f b, l :: ls => legible (step (.fenced f b) l).1 ls

theorem scan_append (s : State) (ls ms : List Line) :
    scan s (ls ++ ms) = ((scan (scan s ls).1 ms).1, (scan s ls).2 ++ (scan (scan s ls).1 ms).2) := by
  induction ls generalizing s with
  | nil => rfl
  | cons l ls ih =>
      rw [List.cons_append, scan, ih, scan]
      simp only [List.append_assoc]

theorem blocksFrom_append (s : State) (ls ms : List Line) :
    blocksFrom s (ls ++ ms) = (scan s ls).2 ++ blocksFrom (scan s ls).1 ms := by
  rw [blocksFrom, scan_append, blocksFrom, List.append_assoc]

/-! ### Lines without a fence -/

theorem opens_eq_none {l : Line} (hback : runOf backtick (trimmed l) < 3) (htilde : runOf '~' (trimmed l) < 3) :
    opens l = none := by
  rw [opens, fenceOf, dif_neg (Nat.not_le.mpr hback), fenceOf, dif_neg (Nat.not_le.mpr htilde)]
  rfl

/-- A line that does not begin with the character of the fence is in its block. -/
theorem Fence.closes_of_ne {f : Fence} {l : Line} (h : (trimmed l).head? ≠ some f.char) : f.closes l = false := by
  have hrun : runOf f.char (trimmed l) = 0 := by
    rw [runOf]
    rcases htrimmed : trimmed l with _ | ⟨c, cs⟩
    · rfl
    · have hc : c ≠ f.char := fun heq => h (by rw [htrimmed, heq]; rfl)
      rw [List.takeWhile_cons, if_neg (by simpa using hc)]
      rfl
  have hlong := f.long
  rw [Fence.closes, hrun, decide_eq_false (by omega : ¬f.length ≤ 0), Bool.and_false, Bool.false_and]

/-- Lines that do not close a block are in it. -/
theorem scan_fenced {f : Fence} {ls : List Line} (h : ∀ l ∈ ls, f.closes l = false) (b : Block) :
    scan (.fenced f b) ls = (.fenced f { b with content := b.content ++ ls.map f.strip }, []) := by
  induction ls generalizing b with
  | nil => rw [scan, List.map_nil, List.append_nil]
  | cons l ls ih =>
      have hstep : step (.fenced f b) l = (.fenced f { b with content := b.content ++ [f.strip l] }, []) := by
        rw [step, h l List.mem_cons_self, if_neg Bool.false_ne_true]
      rw [scan, hstep, ih fun m hm => h m (List.mem_cons_of_mem _ hm)]
      dsimp only
      rw [List.map_cons, List.append_assoc, List.singleton_append, List.append_nil]

/-- The last line of a text is in the block that it ends, unless it closes it. -/
theorem blocksFrom_fenced (f : Fence) (b : Block) (l : Line) :
    ∃ more, blocksFrom (.fenced f b) [l] = [{ b with content := b.content ++ more }] := by
  by_cases h : f.closes l = true
  · refine ⟨[], ?_⟩
    rw [blocksFrom, scan, step, if_pos h, List.append_nil]
    rfl
  · refine ⟨[f.strip l], ?_⟩
    rw [blocksFrom, scan, step, if_neg h]
    rfl

/-! ### Legible lines -/

theorem opensOther_cons {c : Char} (hspace : c ≠ ' ') (hmark : c ∉ ['<', '>', '-', '+', '*'])
    (hdigit : c.isDigit = false) (l : Line) : opensOther (c :: l) = false := by
  have htrimmed : trimmed (c :: l) = c :: l := by
    rw [trimmed, List.dropWhile_cons, if_neg (by simpa using hspace)]
  simp only [List.mem_cons, List.not_mem_nil, or_false, not_or] at hmark
  simp [opensOther, htrimmed, isBullet, isNumbered, hmark, hdigit]

theorem legible_append (s : State) (ls ms : List Line) :
    legible s (ls ++ ms) = (legible s ls && legible (scan s ls).1 ms) := by
  induction ls generalizing s with
  | nil =>
      rw [List.nil_append, legible, Bool.true_and]
      rfl
  | cons l ls ih =>
      rw [List.cons_append, scan]
      cases s with
      | text => rw [legible, legible, ih, Bool.and_assoc]
      | fenced f b => rw [legible, legible, ih]

/-- What is in a block is legible, with the line that ends it. -/
theorem legible_fenced {f : Fence} {ls : List Line} (h : ∀ l ∈ ls, f.closes l = false) (b : Block) (last : Line) :
    legible (.fenced f b) (ls ++ [last]) = true := by
  induction ls generalizing b with
  | nil => rw [List.nil_append, legible, legible]
  | cons l ls ih =>
      rw [List.cons_append, legible, step, h l List.mem_cons_self, if_neg Bool.false_ne_true]
      exact ih (fun m hm => h m (List.mem_cons_of_mem _ hm)) _

/-! ### The length of blocks -/

theorem length_strip_le (f : Fence) (l : Line) : (f.strip l).length ≤ l.length := by
  rw [Fence.strip, List.length_drop]
  omega

/-- The length of the text that a state has kept. -/
def State.size : State → ℕ
  | .text => 0
  | .fenced _ b => (unlines b.content).length

theorem length_unlines_singleton (l : Line) : (unlines [l]).length = l.length + 1 := by
  rw [unlines_cons, List.length_append]
  rfl

/-- **Step lemma**: a block grows by no more than the line. -/
theorem step_size (s : State) (l : Line) : (step s l).1.size ≤ s.size + (l.length + 1) ∧
    ∀ b ∈ (step s l).2, (unlines b.content).length ≤ s.size := by
  cases s with
  | text =>
      rw [step]
      split
      · exact ⟨Nat.zero_le _, fun _ hb => absurd hb List.not_mem_nil⟩
      · exact ⟨Nat.zero_le _, fun _ hb => absurd hb List.not_mem_nil⟩
  | fenced f b =>
      rw [step]
      split
      · refine ⟨Nat.zero_le _, fun b' hb => ?_⟩
        rw [List.mem_singleton.mp hb]
        exact Nat.le_refl _
      · refine ⟨?_, fun _ hb => absurd hb List.not_mem_nil⟩
        have hstrip := length_strip_le f l
        rw [State.size, State.size, unlines_append, List.length_append, length_unlines_singleton]
        omega

/-- **Run lemma**: the blocks of lines are no longer than the lines. -/
theorem scan_size (s : State) (ls : List Line) : (scan s ls).1.size ≤ s.size + (unlines ls).length ∧
    ∀ b ∈ (scan s ls).2, (unlines b.content).length ≤ s.size + (unlines ls).length := by
  induction ls generalizing s with
  | nil => exact ⟨Nat.le_add_right _ _, fun _ hb => absurd hb List.not_mem_nil⟩
  | cons l ls ih =>
      obtain ⟨hsize, hblocks⟩ := step_size s l
      obtain ⟨hrest, hrestBlocks⟩ := ih (step s l).1
      rw [unlines_cons, List.length_append, List.length_cons]
      refine ⟨by rw [scan]; dsimp only; omega, fun b hb => ?_⟩
      rw [scan] at hb
      rcases List.mem_append.mp hb with hb | hb
      · have hle := hblocks b hb
        omega
      · have hle := hrestBlocks b hb
        omega

theorem length_text_le {ls : List Line} {b : Block} (h : b ∈ (scan .text ls).2) :
    b.text.toList.length ≤ (unlines ls).length := by
  have hle := (scan_size .text ls).2 b h
  rw [State.size, Nat.zero_add] at hle
  rw [Block.text, String.toList_ofList]
  exact hle

end Markdown
