import KajovoDagmar.Library.JsonIndent
import KajovoDagmar.Library.TextLines

/-! # The texts that are read as JSON

In a text that is read, a string has no line break: so every line begins inside of no string, and never with
a character that no part of a value begins with (`loads_lines`).  A string is no longer than the text that it
is read from (`loads_entry`). -/

namespace Json

open TextLines

/-! ### Lines -/

/-- The characters that no part of a value begins with, among those that mean something to other formats. -/
def foreign (c : Char) : Bool := c = Char.ofNat 96 || c = '~'

/-- A blank is not foreign. -/
theorem foreign_of_blank {c : Char} (h : isBlank c = true) : foreign c = false := by
  simp only [isBlank, Bool.or_eq_true, decide_eq_true_eq] at h
  rcases h with ((rfl | rfl) | rfl) | rfl
  · decide
  · decide
  · decide
  · decide

/-- A part of a value: wherever it begins, it ends inside of a line. -/
def Tidy (cs : List Char) : Prop := ∀ start, walk isBlank foreign start cs = some false

theorem Tidy.append {cs ds : List Char} (hc : Tidy cs) (hd : Tidy ds) : Tidy (cs ++ ds) := by
  intro start
  rw [walk_append, hc start, Option.bind_some]
  exact hd false

/-- Blanks may stand before a part. -/
theorem Tidy.blanks {cs ds : List Char} (hc : ∀ c ∈ cs, isBlank c = true) (hd : Tidy ds) : Tidy (cs ++ ds) := by
  intro start
  obtain ⟨start', hwalk⟩ := walk_blanks (fun c hmem => ⟨hc c hmem, foreign_of_blank (hc c hmem)⟩) start
  rw [walk_append, hwalk, Option.bind_some]
  exact hd start'

/-- A word has no line break. -/
theorem line_of_all {cs : List Char} (h : (cs.all fun c => decide ¬EndsLine c) = true) : ∀ c ∈ cs, ¬EndsLine c :=
  fun c hc => of_decide_eq_true (List.all_eq_true.mp h c hc)

/-- A character that is neither blank nor foreign, and the rest of a line. -/
theorem tidy_cons {c : Char} {cs : List Char} (hline : ¬EndsLine c) (hblank : isBlank c = false)
    (hforeign : foreign c = false) (h : ∀ d ∈ cs, ¬EndsLine d) : Tidy (c :: cs) := by
  intro start
  rw [walk, if_neg hline, hblank, hforeign, Bool.and_false, if_neg Bool.false_ne_true,
    if_neg Bool.false_ne_true]
  exact walk_inside h

theorem span_blanks (cs : List Char) :
    ∃ blanks, cs = blanks ++ skipBlanks cs ∧ ∀ c ∈ blanks, isBlank c = true :=
  ⟨cs.takeWhile isBlank, List.takeWhile_append_dropWhile.symm, fun _ hc => List.all_eq_true.mp List.all_takeWhile _ hc⟩

/-! ### Strings -/

variable {cs r : List Char}

theorem hexValue_line {c : Char} {n : ℕ} (h : hexValue c = some n) : ¬EndsLine c := by
  have hn : hexValue '\n' = none := by decide
  have hr : hexValue '\r' = none := by decide
  rintro (rfl | rfl)
  · exact absurd (hn.symm.trans h) (by simp)
  · exact absurd (hr.symm.trans h) (by simp)

/-- The part of a line that a scanner has read. -/
def Reads (cs r : List Char) : Prop := ∃ used, cs = used ++ r ∧ ∀ c ∈ used, ¬EndsLine c

theorem Reads.refl (cs : List Char) : Reads cs cs := ⟨[], rfl, fun _ h => absurd h List.not_mem_nil⟩

theorem Reads.cons {c : Char} (hc : ¬EndsLine c) (h : Reads cs r) : Reads (c :: cs) r := by
  obtain ⟨used, rfl, hused⟩ := h
  exact ⟨c :: used, rfl, fun d hd => (List.mem_cons.mp hd).elim (fun heq => heq ▸ hc) (hused d)⟩

theorem Reads.trans {t : List Char} (h : Reads cs t) (h' : Reads t r) : Reads cs r := by
  obtain ⟨used, rfl, hused⟩ := h
  obtain ⟨used', rfl, hused'⟩ := h'
  refine ⟨used ++ used', (List.append_assoc _ _ _).symm, fun c hc => ?_⟩
  rcases List.mem_append.mp hc with hc | hc
  · exact hused c hc
  · exact hused' c hc

theorem Reads.length_le (h : Reads cs r) : r.length ≤ cs.length := by
  obtain ⟨used, rfl, -⟩ := h
  rw [List.length_append]
  omega

theorem reads_digits (cs : List Char) : Reads cs (cs.dropWhile Char.isDigit) := by
  refine ⟨cs.takeWhile Char.isDigit, List.takeWhile_append_dropWhile.symm, fun c hc => ?_⟩
  have hdigit := List.all_eq_true.mp List.all_takeWhile c hc
  rintro (rfl | rfl)
  · exact absurd hdigit (by decide)
  · exact absurd hdigit (by decide)

theorem scanHex_reads {n : ℕ} (h : scanHex cs = some (n, r)) : Reads cs r := by
  unfold scanHex at h
  split at h
  · next a b c d rest =>
    obtain ⟨a', ha, h⟩ := Option.bind_eq_some_iff.mp h
    obtain ⟨b', hb, h⟩ := Option.bind_eq_some_iff.mp h
    obtain ⟨c', hc, h⟩ := Option.bind_eq_some_iff.mp h
    obtain ⟨d', hd, h⟩ := Option.bind_eq_some_iff.mp h
    obtain ⟨-, rfl⟩ := Prod.mk.inj (Option.some.inj h)
    exact ((Reads.refl _).cons (hexValue_line hd) |>.cons (hexValue_line hc) |>.cons (hexValue_line hb)).cons
      (hexValue_line ha)
  · exact absurd h (by simp)

theorem scanLow_reads {n : ℕ} (h : scanLow cs = some (n, r)) : Reads cs r := by
  unfold scanLow at h
  split at h
  · next rest =>
    obtain ⟨hscan, -⟩ := Option.filter_eq_some_iff.mp h
    exact ((scanHex_reads hscan).cons (by decide)).cons (by decide)
  · exact absurd h (by simp)

theorem scanUnicode_reads {c : Char} (h : scanUnicode cs = some (c, r)) : Reads cs r := by
  obtain ⟨⟨u, t⟩, hscan, hvalue⟩ := Option.map_eq_some_iff.mp h
  have hreads := scanHex_reads hscan
  dsimp only at hvalue
  split at hvalue
  · split at hvalue
    · next v t' hlow =>
      obtain ⟨-, rfl⟩ := Prod.mk.inj hvalue
      exact hreads.trans (scanLow_reads hlow)
    · obtain ⟨-, rfl⟩ := Prod.mk.inj hvalue
      exact hreads
  · split at hvalue
    · obtain ⟨-, rfl⟩ := Prod.mk.inj hvalue
      exact hreads
    · obtain ⟨-, rfl⟩ := Prod.mk.inj hvalue
      exact hreads

theorem scanEscape_reads {c : Char} (h : scanEscape cs = some (c, r)) : Reads cs r := by
  unfold scanEscape at h
  split at h
  case h_9 rest => exact (scanUnicode_reads h).cons (by decide)
  case h_10 => exact absurd h (by simp)
  all_goals
    obtain ⟨-, rfl⟩ := Prod.mk.inj (Option.some.inj h)
    exact (Reads.refl _).cons (by decide)

/-- The next character of a string takes at least one character of its line. -/
theorem scanChar_reads {c : Char} (h : scanChar cs = some (c, r)) : Reads cs r ∧ r.length < cs.length := by
  unfold scanChar at h
  split at h
  · exact absurd h (by simp)
  · next d rest =>
    split at h
    · next hslash =>
      subst hslash
      have hreads := scanEscape_reads h
      exact ⟨hreads.cons (by decide), Nat.lt_succ_of_le hreads.length_le⟩
    · split at h
      · exact absurd h (by simp)
      · next hcontrol =>
        obtain ⟨-, rfl⟩ := Prod.mk.inj (Option.some.inj h)
        refine ⟨(Reads.refl _).cons ?_, Nat.lt_succ_self _⟩
        rintro (rfl | rfl)
        · exact hcontrol (by decide)
        · exact hcontrol (by decide)

/-- A string is shorter than what it is read from, and that has no line break. -/
theorem scanString_reads {n : ℕ} {s : List Char} (h : scanString n cs = some (s, r)) :
    Reads cs r ∧ s.length + r.length < cs.length := by
  induction n generalizing cs s with
  | zero => exact absurd h (by simp [scanString])
  | succ n ih =>
      rw [scanString] at h
      split at h
      · next hquote =>
        obtain ⟨rfl, rfl⟩ := Prod.mk.inj (Option.some.inj h)
        obtain ⟨ds, rfl⟩ := List.head?_eq_some_iff.mp hquote
        exact ⟨(Reads.refl _).cons (by decide), by simp⟩
      · obtain ⟨⟨c, t⟩, hchar, h⟩ := Option.bind_eq_some_iff.mp h
        obtain ⟨⟨s', u⟩, hrest, h⟩ := Option.bind_eq_some_iff.mp h
        obtain ⟨rfl, rfl⟩ := Prod.mk.inj (Option.some.inj h)
        obtain ⟨hreads, hlength⟩ := scanChar_reads hchar
        obtain ⟨hreads', hlength'⟩ := ih hrest
        refine ⟨hreads.trans hreads', ?_⟩
        rw [List.length_cons]
        omega

/-! ### Numbers and constants -/

theorem scanNat_reads {w : List Char} (h : scanNat cs = some (w, r)) : Reads cs r ∧ r.length < cs.length := by
  unfold scanNat at h
  split at h
  · obtain ⟨-, rfl⟩ := Prod.mk.inj (Option.some.inj h)
    exact ⟨(Reads.refl _).cons (by decide), Nat.lt_succ_self _⟩
  · split at h
    · exact absurd h (by simp)
    · next hne =>
      obtain ⟨-, rfl⟩ := Prod.mk.inj (Option.some.inj h)
      refine ⟨reads_digits cs, ?_⟩
      have hlength := congrArg List.length (List.takeWhile_append_dropWhile (p := Char.isDigit) (l := cs))
      have hpos := List.length_pos_iff.mpr hne
      rw [List.length_append] at hlength
      omega

theorem scanFraction_reads (cs : List Char) : Reads cs (scanFraction cs).2 := by
  unfold scanFraction
  split
  · next rest =>
    split
    · exact Reads.refl _
    · exact (reads_digits rest).cons (by decide)
  · exact Reads.refl _

theorem scanSign_reads (cs : List Char) : Reads cs (scanSign cs).2 := by
  unfold scanSign
  split
  · exact (Reads.refl _).cons (by decide)
  · exact (Reads.refl _).cons (by decide)
  · exact Reads.refl _

theorem scanExponent_reads (cs : List Char) : Reads cs (scanExponent cs).2 := by
  unfold scanExponent
  split
  · exact Reads.refl _
  · next e rest =>
    split
    · next hexponent =>
      refine Reads.cons ?_ ((scanSign_reads rest).trans (reads_digits _))
      rcases hexponent.1 with rfl | rfl
      · decide
      · decide
    · exact Reads.refl _

theorem scanUnsigned_reads {negative : Bool} {j : Json} (h : scanUnsigned negative cs = some (j, r)) :
    Reads cs r ∧ r.length < cs.length ∧ (∀ s, j ≠ str s) ∧ ∀ kvs, j ≠ obj kvs := by
  obtain ⟨⟨whole, t⟩, hnat, hvalue⟩ := Option.map_eq_some_iff.mp h
  obtain ⟨hwhole, hlt⟩ := scanNat_reads hnat
  have hrest := (scanFraction_reads t).trans (scanExponent_reads _)
  dsimp only at hvalue
  split at hvalue
  · obtain ⟨rfl, rfl⟩ := Prod.mk.inj hvalue
    exact ⟨hwhole.trans hrest, Nat.lt_of_le_of_lt hrest.length_le hlt, by simp, by simp⟩
  · obtain ⟨rfl, rfl⟩ := Prod.mk.inj hvalue
    exact ⟨hwhole.trans hrest, Nat.lt_of_le_of_lt hrest.length_le hlt, by simp, by simp⟩

/-- A part of a value that a scanner has read. -/
def Takes (cs r : List Char) : Prop := ∃ used, cs = used ++ r ∧ Tidy used

theorem Reads.takes {c : Char} (hline : ¬EndsLine c) (hblank : isBlank c = false) (hforeign : foreign c = false)
    (h : Reads cs r) : Takes (c :: cs) r := by
  obtain ⟨used, rfl, hused⟩ := h
  exact ⟨c :: used, rfl, tidy_cons hline hblank hforeign hused⟩

/-- A number begins with a digit. -/
theorem Reads.takes_digit {d : Char} (hd : d.isDigit = true) (h : Reads (d :: cs) r)
    (hlt : r.length < (d :: cs).length) : Takes (d :: cs) r := by
  have hne : ∀ b : Char, b.isDigit = false → d ≠ b := by
    rintro b hb rfl
    rw [hd] at hb
    exact absurd hb (by decide)
  have hforeign : foreign d = false := by simp [foreign, hne '~' rfl, hne (Char.ofNat 96) (by decide)]
  have hblank : isBlank d = false := by
    simp [isBlank, hne ' ' rfl, hne '\t' rfl, hne '\n' rfl, hne '\r' rfl]
  obtain ⟨used, hcs, hused⟩ := h
  cases used with
  | nil =>
      rw [List.nil_append] at hcs
      rw [hcs] at hlt
      exact absurd hlt (Nat.lt_irrefl _)
  | cons c used =>
      obtain ⟨rfl, rfl⟩ := List.cons.inj hcs
      refine Reads.takes (hused d List.mem_cons_self) hblank hforeign ⟨used, rfl, fun x hx => ?_⟩
      exact hused x (List.mem_cons_of_mem _ hx)

theorem scanNumber_takes {j : Json} (h : scanNumber cs = some (j, r)) :
    Takes cs r ∧ (∀ s, j ≠ str s) ∧ ∀ kvs, j ≠ obj kvs := by
  obtain ⟨d, ds, hd, rfl | rfl⟩ := scanNumber_head h
  · rw [scanNumber_digit hd] at h
    obtain ⟨hreads, hlt, hstr⟩ := scanUnsigned_reads h
    exact ⟨hreads.takes_digit hd hlt, hstr⟩
  · have hscan : scanUnsigned true (d :: ds) = some (j, r) := h
    obtain ⟨hreads, -, hstr⟩ := scanUnsigned_reads hscan
    exact ⟨hreads.takes (by decide) (by decide) (by decide), hstr⟩

theorem scanAtom_takes {j : Json} (h : scanAtom cs = some (j, r)) :
    Takes cs r ∧ (∀ s, j ≠ str s) ∧ ∀ kvs, j ≠ obj kvs := by
  unfold scanAtom at h
  split at h
  · next w hfind =>
    obtain ⟨rfl, rfl⟩ := Prod.mk.inj (Option.some.inj h)
    have hprefix := List.find?_some hfind
    have hmem := List.mem_of_find?_eq_some hfind
    obtain ⟨rest, rfl⟩ := List.isPrefixOf_iff_prefix.mp hprefix
    have hconstant : Tidy w.1.toList ∧ (∀ s, w.2 ≠ str s) ∧ ∀ kvs, w.2 ≠ obj kvs := by
      simp only [constants, List.mem_cons, List.not_mem_nil, or_false] at hmem
      rcases hmem with rfl | rfl | rfl | rfl | rfl | rfl
      all_goals exact ⟨tidy_cons (by decide) (by decide) (by decide) (line_of_all (by decide)), by simp, by simp⟩
    refine ⟨⟨w.1.toList, ?_, hconstant.1⟩, hconstant.2⟩
    have hlength : w.1.length = w.1.toList.length := String.length_toList.symm
    rw [hlength, List.drop_left]
  · exact scanNumber_takes h

/-! ### What is written has no other line breaks -/

theorem scanNumber_line {j : Json} (h : scanNumber cs = some (j, [])) : ∀ c ∈ cs, ¬EndsLine c := by
  have hunsigned : ∀ {negative : Bool} {us : List Char}, scanUnsigned negative us = some (j, []) →
      ∀ c ∈ us, ¬EndsLine c := by
    intro negative us hus
    obtain ⟨⟨used, rfl, hused⟩, -⟩ := scanUnsigned_reads hus
    rwa [List.append_nil]
  obtain ⟨d, ds, hd, rfl | rfl⟩ := scanNumber_head h
  · rw [scanNumber_digit hd] at h
    exact hunsigned h
  · have hscan : scanUnsigned true (d :: ds) = some (j, []) := h
    intro c hc
    rcases List.mem_cons.mp hc with rfl | hc
    · decide
    · exact hunsigned hscan c hc

theorem quote_line (s : String) : ∀ c ∈ quote s, ¬EndsLine c := by
  intro c hc
  have hreads := (scanString_reads (scanString_quote s [])).1
  obtain ⟨used, hused, hline⟩ := hreads
  rw [List.append_nil] at hused
  rw [quote, List.mem_cons] at hc
  rcases hc with rfl | hc
  · decide
  · exact hline c (hused ▸ hc)

theorem newline_cr (level : ℕ) : '\r' ∉ newline level := by
  intro h
  rcases List.mem_cons.mp h with heq | h
  · exact absurd heq (by decide)
  · exact absurd (List.eq_of_mem_replicate h) (by decide)

mutual

/-- An indented text has the line breaks `\n` only. -/
theorem indented_cr : ∀ {j : Json} {level : ℕ}, j.Written → '\r' ∉ indented level j
  | null, _, _ => by
    change '\r' ∉ ['n', 'u', 'l', 'l']
    decide
  | bool true, _, _ => by
    change '\r' ∉ ['t', 'r', 'u', 'e']
    decide
  | bool false, _, _ => by
    change '\r' ∉ ['f', 'a', 'l', 's', 'e']
    decide
  | int n, _, _ => fun h => scanNumber_line (scanNumber_int n) _ h (.inr rfl)
  | float text, _, h => by
    rcases h with hconstant | hnumber
    · simp only [List.mem_cons, List.not_mem_nil, or_false] at hconstant
      change '\r' ∉ text.toList
      rcases hconstant with rfl | rfl | rfl
      · decide
      · decide
      · decide
    · exact fun hmem => scanNumber_line hnumber _ hmem (.inr rfl)
  | str s, _, _ => fun h => quote_line s _ h (.inr rfl)
  | arr [], _, _ => by
    change '\r' ∉ ['[', ']']
    decide
  | arr (x :: xs), level, h => by
    have hitems : '\r' ∉ indentedItems (level + 1) (x :: xs) := indentedItems_cr h
    have hopen := newline_cr (level + 1)
    have hclose := newline_cr level
    rw [indented]
    simp only [List.mem_cons, List.mem_append, List.not_mem_nil, or_false, not_or]
    exact ⟨by decide, hopen, hitems, hclose, by decide⟩
  | obj [], _, _ => by
    change '\r' ∉ ['\x7b', '\x7d']
    decide
  | obj (kv :: kvs), level, h => by
    have hentries : '\r' ∉ indentedEntries (level + 1) (kv :: kvs) := indentedEntries_cr h.2
    have hopen := newline_cr (level + 1)
    have hclose := newline_cr level
    rw [indented]
    simp only [List.mem_cons, List.mem_append, List.not_mem_nil, or_false, not_or]
    exact ⟨by decide, hopen, hentries, hclose, by decide⟩

theorem indentedItems_cr : ∀ {xs : List Json} {level : ℕ}, WrittenItems xs → '\r' ∉ indentedItems level xs
  | [], _, _ => List.not_mem_nil
  | [x], level, h => by
    rw [indentedItems]
    exact indented_cr h.1
  | x :: y :: xs, level, h => by
    rw [indentedItems]
    simp only [List.mem_cons, List.mem_append, not_or]
    exact ⟨indented_cr h.1, by decide, newline_cr level, indentedItems_cr h.2⟩

theorem indentedEntries_cr : ∀ {kvs : List (String × Json)} {level : ℕ}, WrittenEntries kvs →
    '\r' ∉ indentedEntries level kvs
  | [], _, _ => List.not_mem_nil
  | [(k, v)], level, h => by
    rw [indentedEntries]
    simp only [List.mem_cons, List.mem_append, not_or]
    exact ⟨fun hmem => quote_line k _ hmem (.inr rfl), by decide, by decide, indented_cr h.1⟩
  | (k, v) :: kv :: kvs, level, h => by
    rw [indentedEntries]
    simp only [List.mem_cons, List.mem_append, not_or]
    exact ⟨fun hmem => quote_line k _ hmem (.inr rfl), by decide, by decide, indented_cr h.1, by decide,
      newline_cr level, indentedEntries_cr h.2⟩

end

/-! ### Values -/

theorem Takes.length_le (h : Takes cs r) : r.length ≤ cs.length := by
  obtain ⟨used, rfl, -⟩ := h
  rw [List.length_append]
  omega

/-- Two parts with blanks between them. -/
theorem Takes.next {t : List Char} (h : Takes cs t) (h' : Takes (skipBlanks t) r) : Takes cs r := by
  obtain ⟨used, rfl, hused⟩ := h
  obtain ⟨used', hskip, hused'⟩ := h'
  obtain ⟨blanks, ht, hblanks⟩ := span_blanks t
  refine ⟨used ++ (blanks ++ used'), ?_, hused.append (.blanks hblanks hused')⟩
  rw [ht, hskip]
  simp

/-- A bracket, a brace, a colon or a comma. -/
theorem takes_mark {c : Char} (hc : c ∈ ['[', ']', '\x7b', '\x7d', ':', ',']) (r : List Char) : Takes (c :: r) r := by
  simp only [List.mem_cons, List.not_mem_nil, or_false] at hc
  rcases hc with rfl | rfl | rfl | rfl | rfl | rfl
  all_goals exact (Reads.refl r).takes (by decide) (by decide) (by decide)

theorem length_skipBlanks_le (cs : List Char) : (skipBlanks cs).length ≤ cs.length := by
  obtain ⟨blanks, hcs, -⟩ := span_blanks cs
  have hlength := congrArg List.length hcs
  rw [List.length_append] at hlength
  omega

theorem mem_setEntry {acc : List (String × Json)} {kv : String × Json} {k : String} {v : Json}
    (h : (k, v) ∈ setEntry acc kv) : (∃ k', (k', v) ∈ acc) ∨ v = kv.2 := by
  unfold setEntry at h
  split at h
  · obtain ⟨x, hx, heq⟩ := List.mem_map.mp h
    split at heq
    · exact .inr (Prod.mk.inj heq).2.symm
    · exact .inl ⟨k, heq ▸ hx⟩
  · rcases List.mem_append.mp h with hmem | hmem
    · exact .inl ⟨k, hmem⟩
    · exact .inr (congrArg Prod.snd (List.mem_singleton.mp hmem))

/-- The values of a dictionary are among those of its pairs. -/
theorem mem_dictOf {kvs : List (String × Json)} {k : String} {v : Json} (h : (k, v) ∈ dictOf kvs) :
    ∃ k', (k', v) ∈ kvs := by
  have hfold : ∀ (kvs acc : List (String × Json)) (k : String), (k, v) ∈ kvs.foldl setEntry acc →
      (∃ k', (k', v) ∈ acc) ∨ ∃ k', (k', v) ∈ kvs := by
    intro kvs
    induction kvs with
    | nil => exact fun acc k hmem => .inl ⟨k, hmem⟩
    | cons kv kvs ih =>
        intro acc k hmem
        rcases ih (setEntry acc kv) k hmem with ⟨k', hset⟩ | ⟨k', hrest⟩
        · rcases mem_setEntry hset with hold | rfl
          · exact .inl hold
          · exact .inr ⟨kv.1, List.mem_cons_self⟩
        · exact .inr ⟨k', List.mem_cons_of_mem _ hrest⟩
  rcases hfold kvs [] k h with ⟨k', hmem⟩ | hmem
  · exact absurd hmem List.not_mem_nil
  · exact hmem

/-- What is read with some fuel: a part of the text, and no string or entry longer than that. -/
structure Consumes (n : ℕ) : Prop where
  value : ∀ {cs r j}, parseValue n cs = some (j, r) → Takes cs r ∧
    (∀ s, j = str s → s.toList.length + r.length + 2 ≤ cs.length) ∧
      ∀ kvs k s, j = obj kvs → (k, str s) ∈ kvs → s.toList.length + 2 ≤ cs.length
  items : ∀ {cs r xs}, parseItems n cs = some (xs, r) → Takes cs r
  entries : ∀ {cs r kvs}, parseEntries n cs = some (kvs, r) →
    Takes cs r ∧ ∀ k s, (k, str s) ∈ kvs → s.toList.length + 2 ≤ cs.length

/-- A list or an object without elements. -/
theorem takes_empty {c d : Char} (hc : c ∈ ['[', ']', '\x7b', '\x7d', ':', ','])
    (hd : d ∈ ['[', ']', '\x7b', '\x7d', ':', ',']) {rest : List Char} (h : (skipBlanks rest).head? = some d) :
    Takes (c :: rest) (skipBlanks rest).tail := by
  obtain ⟨ds, hds⟩ := List.head?_eq_some_iff.mp h
  refine (takes_mark hc rest).next ?_
  rw [hds]
  exact takes_mark hd ds

theorem Consumes.value_succ {n : ℕ} (h : Consumes n) {cs r : List Char} {j : Json}
    (hparse : parseValue (n + 1) cs = some (j, r)) : Takes cs r ∧
      (∀ s, j = str s → s.toList.length + r.length + 2 ≤ cs.length) ∧
        ∀ kvs k s, j = obj kvs → (k, str s) ∈ kvs → s.toList.length + 2 ≤ cs.length := by
  unfold parseValue at hparse
  split at hparse
  · next heq => exact absurd heq (by simp)
  · next rest _ =>
    obtain ⟨⟨s, t⟩, hscan, hvalue⟩ := Option.map_eq_some_iff.mp hparse
    obtain ⟨rfl, rfl⟩ := Prod.mk.inj hvalue
    obtain ⟨hreads, hlength⟩ := scanString_reads hscan
    refine ⟨hreads.takes (by decide) (by decide) (by decide), fun s' hs' => ?_, by simp⟩
    obtain rfl := Json.str.inj hs'
    rw [String.toList_ofList, List.length_cons]
    omega
  · next m rest hm =>
    obtain rfl := Nat.succ.inj hm
    split at hparse
    · next hempty =>
      obtain ⟨rfl, rfl⟩ := Prod.mk.inj (Option.some.inj hparse)
      exact ⟨takes_empty (by decide) (by decide) hempty, by simp, by simp⟩
    · obtain ⟨⟨xs, t⟩, hitems, hvalue⟩ := Option.map_eq_some_iff.mp hparse
      obtain ⟨rfl, rfl⟩ := Prod.mk.inj hvalue
      exact ⟨(takes_mark (by decide) rest).next (h.items hitems), by simp, by simp⟩
  · next m rest hm =>
    obtain rfl := Nat.succ.inj hm
    split at hparse
    · next hempty =>
      obtain ⟨rfl, rfl⟩ := Prod.mk.inj (Option.some.inj hparse)
      refine ⟨takes_empty (by decide) (by decide) hempty, by simp, fun kvs k s hkvs hmem => ?_⟩
      obtain rfl := Json.obj.inj hkvs
      exact absurd hmem List.not_mem_nil
    · obtain ⟨⟨kvs, t⟩, hentries, hvalue⟩ := Option.map_eq_some_iff.mp hparse
      obtain ⟨rfl, rfl⟩ := Prod.mk.inj hvalue
      obtain ⟨htakes, hentry⟩ := h.entries hentries
      refine ⟨(takes_mark (by decide) rest).next htakes, by simp, fun kvs' k s hkvs hmem => ?_⟩
      obtain rfl := Json.obj.inj hkvs
      obtain ⟨k', hmem'⟩ := mem_dictOf hmem
      have hlength := hentry k' s hmem'
      have hskip := length_skipBlanks_le rest
      rw [List.length_cons]
      omega
  · obtain ⟨htakes, hstr, hobj⟩ := scanAtom_takes hparse
    exact ⟨htakes, fun s hs => absurd hs (hstr s), fun kvs k s hkvs => absurd hkvs (hobj kvs)⟩

theorem Consumes.items_succ {n : ℕ} (h : Consumes n) {cs r : List Char} {xs : List Json}
    (hparse : parseItems (n + 1) cs = some (xs, r)) : Takes cs r := by
  rw [parseItems] at hparse
  split at hparse
  · exact absurd hparse (by simp)
  · next x t hx =>
    have hvalue := (h.value hx).1
    split at hparse
    · next rest hskip =>
      obtain ⟨⟨ys, u⟩, hitems, hvalues⟩ := Option.map_eq_some_iff.mp hparse
      obtain ⟨-, rfl⟩ := Prod.mk.inj hvalues
      refine hvalue.next ?_
      rw [hskip]
      exact (takes_mark (by decide) rest).next (h.items hitems)
    · next rest hskip =>
      obtain ⟨-, rfl⟩ := Prod.mk.inj (Option.some.inj hparse)
      refine hvalue.next ?_
      rw [hskip]
      exact takes_mark (by decide) _
    · exact absurd hparse (by simp)

theorem Consumes.entries_succ {n : ℕ} (h : Consumes n) {cs r : List Char} {kvs : List (String × Json)}
    (hparse : parseEntries (n + 1) cs = some (kvs, r)) :
    Takes cs r ∧ ∀ k s, (k, str s) ∈ kvs → s.toList.length + 2 ≤ cs.length := by
  unfold parseEntries at hparse
  split at hparse
  · next heq => exact absurd heq (by simp)
  · next m rest hm =>
    obtain rfl := Nat.succ.inj hm
    split at hparse
    · exact absurd hparse (by simp)
    · next k t hk =>
      have hkey : Takes ('"' :: rest) t := (scanString_reads hk).1.takes (by decide) (by decide) (by decide)
      split at hparse
      · next rest' hcolon =>
        have hcolon' : Takes ('"' :: rest) rest' := by
          refine hkey.next ?_
          rw [hcolon]
          exact takes_mark (by decide) rest'
        have hrest' := length_skipBlanks_le rest'
        have hle := hcolon'.length_le
        split at hparse
        · exact absurd hparse (by simp)
        · next v u hv =>
          obtain ⟨htakes, hstr, -⟩ := h.value hv
          have hvalue : Takes ('"' :: rest) u := hcolon'.next htakes
          split at hparse
          · next rest'' hcomma =>
            obtain ⟨⟨kvs', w⟩, hentries, hvalues⟩ := Option.map_eq_some_iff.mp hparse
            obtain ⟨rfl, rfl⟩ := Prod.mk.inj hvalues
            obtain ⟨hmore, hentry⟩ := h.entries hentries
            have hcomma' : Takes ('"' :: rest) rest'' := by
              refine hvalue.next ?_
              rw [hcomma]
              exact takes_mark (by decide) rest''
            refine ⟨hcomma'.next hmore, fun k' s hmem => ?_⟩
            have hlength := length_skipBlanks_le rest''
            have hle' := hcomma'.length_le
            rcases List.mem_cons.mp hmem with heq | hmem
            · have hs := hstr s (Prod.mk.inj heq).2.symm
              omega
            · have hs := hentry k' s hmem
              omega
          · next rest'' hbrace =>
            obtain ⟨rfl, rfl⟩ := Prod.mk.inj (Option.some.inj hparse)
            refine ⟨?_, fun k' s hmem => ?_⟩
            · refine hvalue.next ?_
              rw [hbrace]
              exact takes_mark (by decide) _
            · have hs := hstr s (Prod.mk.inj (List.mem_singleton.mp hmem)).2.symm
              omega
          · exact absurd hparse (by simp)
      · exact absurd hparse (by simp)
  · exact absurd hparse (by simp)

/-- **Run lemma**: with any fuel. -/
theorem consumes (n : ℕ) : Consumes n := by
  induction n with
  | zero =>
      refine ⟨fun h => ?_, fun h => ?_, fun h => ?_⟩
      · exact absurd h (by simp [parseValue])
      · exact absurd h (by simp [parseItems])
      · exact absurd h (by simp [parseEntries])
  | succ n ih => exact ⟨ih.value_succ, ih.items_succ, ih.entries_succ⟩

/-- **The lines of a text that is read** begin, after their blanks, with no foreign character. -/
theorem loads_lines {text : String} {j : Json} (h : loads text = some j) :
    walk isBlank foreign true text.toList ≠ none := by
  unfold loads at h
  split at h
  · exact absurd h (by simp)
  · split at h
    · next x r hparse =>
      split at h
      · next hend =>
        obtain ⟨blanks, htext, hblanks⟩ := span_blanks text.toList
        obtain ⟨used, hused, htidy⟩ := ((consumes _).value hparse).1
        obtain ⟨blanks', hr, hblanks'⟩ := span_blanks r
        rw [hend, List.append_nil] at hr
        obtain ⟨start, hwalk⟩ := walk_blanks
          (fun c hc => ⟨hblanks' c hc, foreign_of_blank (hblanks' c hc)⟩) false
        rw [htext, hused, hr, ← List.append_assoc, walk_append, htidy.blanks hblanks true, Option.bind_some, hwalk]
        exact Option.some_ne_none start
      · exact absurd h (by simp)
    · exact absurd h (by simp)

/-- **The entries of an object that is read** are no longer than its text. -/
theorem loads_entry {text : String} {kvs : List (String × Json)} {k s : String}
    (h : loads text = some (obj kvs)) (hmem : (k, str s) ∈ kvs) : s.toList.length + 2 ≤ text.toList.length := by
  unfold loads at h
  split at h
  · exact absurd h (by simp)
  · split at h
    · next x r hparse =>
      split at h
      · obtain rfl := Option.some.inj h
        have hlength := ((consumes _).value hparse).2.2 kvs k s rfl hmem
        have hskip := length_skipBlanks_le text.toList
        omega
      · exact absurd h (by simp)
    · exact absurd h (by simp)

end Json
