import KajovoDagmar.Library.Json
import Mathlib.Data.List.Perm.Basic
import Mathlib.Data.Bool.AllAny

/-! # A JSON text determines its value

`chars` is injective on values whose floats carry a text that Python gives for a float, and
`dumpsSorted` is injective up to the order of the keys of objects.  The induction is over the
value, with the rest of the text carried along: a value ends where a delimiter follows it. -/

namespace Json

/-! ### Texts of floats -/

/-- A text that `json.dumps` gives for a float: `repr` of a finite one has a point or an
exponent, which no integer has. -/
def FloatText (s : String) : Prop :=
  s ∈ ["NaN", "Infinity", "-Infinity"] ∨
    (∀ c ∈ s.toList, c.isDigit ∨ c ∈ ['-', '+', '.', 'e']) ∧ ∃ c ∈ s.toList, c ∈ ['.', 'e']

instance : DecidablePred FloatText := fun s =>
  have : Decidable (∀ c ∈ s.toList, c.isDigit ∨ c ∈ ['-', '+', '.', 'e']) := List.decidableBAll _ _
  have : Decidable (∃ c ∈ s.toList, c ∈ ['.', 'e']) := List.decidableBEx _ _
  inferInstanceAs (Decidable (_ ∨ _))

mutual

/-- Every float of the value carries a text of a float. -/
def Printed : Json → Prop
  | float r => FloatText r
  | arr xs => PrintedItems xs
  | obj kvs => PrintedEntries kvs
  | _ => True

def PrintedItems : List Json → Prop
  | [] => True
  | x :: xs => Printed x ∧ PrintedItems xs

def PrintedEntries : List (String × Json) → Prop
  | [] => True
  | (_, v) :: kvs => Printed v ∧ PrintedEntries kvs

end

theorem printedEntries_iff {kvs : List (String × Json)} :
    PrintedEntries kvs ↔ ∀ kv ∈ kvs, kv.2.Printed := by
  induction kvs with
  | nil => simp [PrintedEntries]
  | cons kv kvs ih => simp [PrintedEntries, ih]

@[simp] theorem printed_str (s : String) : (str s).Printed := trivial

@[simp] theorem printed_ofStr? (o : Option String) : (ofStr? o).Printed := by
  cases o with
  | none => trivial
  | some s => trivial

mutual

theorem Printed.sortKeys : ∀ {j : Json}, j.Printed → j.sortKeys.Printed
  | null, h => h
  | bool _, h => h
  | int _, h => h
  | float _, h => h
  | str _, h => h
  | arr xs, h => PrintedItems.sortKeys h
  | obj kvs, h => by
    have hsorted : PrintedEntries (sortKeysEntries kvs) := PrintedEntries.sortKeys h
    refine printedEntries_iff.mpr fun kv hkv => printedEntries_iff.mp hsorted kv ?_
    exact (List.mem_insertionSort _).mp hkv

theorem PrintedItems.sortKeys : ∀ {xs : List Json}, PrintedItems xs → PrintedItems (sortKeysItems xs)
  | [], h => h
  | _ :: _, h => ⟨h.1.sortKeys, PrintedItems.sortKeys h.2⟩

theorem PrintedEntries.sortKeys :
    ∀ {kvs : List (String × Json)}, PrintedEntries kvs → PrintedEntries (sortKeysEntries kvs)
  | [], h => h
  | (_, _) :: _, h => ⟨h.1.sortKeys, PrintedEntries.sortKeys h.2⟩

end

/-! ### Strings -/

/-- The value of a hexadecimal digit. -/
def hexDigit (c : Char) : ℕ := "0123456789abcdef".toList.idxOf c

/-- The character that an escape stands for, and the rest of the text. -/
def readEscape : List Char → Option (Char × List Char)
  | 'u' :: _ :: _ :: a :: b :: r => some (Char.ofNat (16 * hexDigit a + hexDigit b), r)
  | 'n' :: r => some ('\n', r)
  | 'r' :: r => some ('\r', r)
  | 't' :: r => some ('\t', r)
  | 'b' :: r => some (Char.ofNat 8, r)
  | 'f' :: r => some (Char.ofNat 12, r)
  | c :: r => some (c, r)
  | [] => none

/-- The first character of the contents of a string, and the rest of the text; `none` at the
closing quote. -/
def readChar : List Char → Option (Char × List Char)
  | [] => none
  | c :: r => if c = '"' then none else if c = '\\' then readEscape r else some (c, r)

theorem hexDigit_escape : ∀ n < 32,
    16 * hexDigit (Nat.digitChar (n / 16)) + hexDigit (Nat.digitChar (n % 16)) = n := by
  decide

theorem readChar_escapeChar (c : Char) (r : List Char) :
    readChar (escapeChar c ++ r) = some (c, r) := by
  unfold escapeChar
  by_cases hquote : c = '"'
  · subst hquote
    rfl
  by_cases hslash : c = '\\'
  · subst hslash
    rfl
  by_cases hn : c = '\n'
  · subst hn
    rfl
  by_cases hr : c = '\r'
  · subst hr
    rfl
  by_cases ht : c = '\t'
  · subst ht
    rfl
  simp only [hquote, hslash, hn, hr, ht, if_false]
  have hchar : Char.ofNat c.toNat = c := Char.ofNat_toNat c
  by_cases hb : c.toNat = 8
  · simp only [hb, if_true]
    rw [hb] at hchar
    exact congrArg (fun x => some (x, r)) hchar
  by_cases hf : c.toNat = 12
  · simp only [hf]
    rw [hf] at hchar
    exact congrArg (fun x => some (x, r)) hchar
  by_cases hlow : c.toNat < 32
  · simp only [hb, hf, hlow, if_false, if_true]
    have hdigits := hexDigit_escape c.toNat hlow
    show some (Char.ofNat (16 * hexDigit _ + hexDigit _), r) = some (c, r)
    rw [hdigits, hchar]
  · simp only [hb, hf, hlow, if_false]
    simp [readChar, hquote, hslash]

/-- The contents of a string are read back. -/
theorem escape_append_inj {r r' : List Char} : ∀ (cs cs' : List Char),
    cs.flatMap escapeChar ++ '"' :: r = cs'.flatMap escapeChar ++ '"' :: r' → cs = cs' ∧ r = r' := by
  have hend : ∀ rest, readChar ('"' :: rest) = none := fun rest => rfl
  have hread : ∀ (c : Char) (cs rest : List Char),
      readChar ((c :: cs).flatMap escapeChar ++ '"' :: rest) =
        some (c, cs.flatMap escapeChar ++ '"' :: rest) := by
    intro c cs rest
    rw [List.flatMap_cons, List.append_assoc, readChar_escapeChar]
  intro cs
  induction cs with
  | nil =>
      intro cs' h
      cases cs' with
      | nil => exact ⟨rfl, (List.cons.inj h).2⟩
      | cons c' cs' =>
          have hc := congrArg readChar h
          rw [hread] at hc
          simp [hend] at hc
  | cons c cs ih =>
      intro cs' h
      have hc := congrArg readChar h
      rw [hread] at hc
      cases cs' with
      | nil => simp [hend] at hc
      | cons c' cs' =>
          rw [hread, Option.some.injEq, Prod.mk.injEq] at hc
          obtain ⟨rfl, hrest⟩ := hc
          obtain ⟨rfl, hr⟩ := ih cs' hrest
          exact ⟨rfl, hr⟩

theorem quote_append_inj {s s' : String} {r r' : List Char} (h : quote s ++ r = quote s' ++ r') :
    s = s' ∧ r = r' := by
  have hbody : s.toList.flatMap escapeChar ++ '"' :: r = s'.toList.flatMap escapeChar ++ '"' :: r' := by
    simpa [quote, escape] using h
  obtain ⟨hs, hr⟩ := escape_append_inj _ _ hbody
  exact ⟨String.toList_injective hs, hr⟩

/-! ### Numbers and constants -/

/-- What may follow a value. -/
def Stops (r : List Char) : Prop := ∀ c rest, r = c :: rest → c ∈ [',', ']', '\x7d']

/-- The characters of the numbers and the constants. -/
def plain (c : Char) : Prop := c ∉ [',', ']', '\x7d', '"', '[', '\x7b']

instance : DecidablePred plain := fun _ => inferInstanceAs (Decidable (_ ∉ _))

/-- Two words before delimiters are read as far as they go. -/
theorem word_append_inj {t t' r r' : List Char} (ht : ∀ c ∈ t, plain c) (ht' : ∀ c ∈ t', plain c)
    (hr : Stops r) (hr' : Stops r') (h : t ++ r = t' ++ r') : t = t' ∧ r = r' := by
  have hstop : ∀ {u w : List Char}, (∀ c ∈ u, plain c) → Stops (u ++ w) → u = [] := by
    intro u w hu hstops
    cases u with
    | nil => rfl
    | cons c u =>
        have hplain := hu c List.mem_cons_self
        have hdelim := hstops c (u ++ w) rfl
        simp only [plain, List.mem_cons] at hplain hdelim
        grind
  rcases List.append_eq_append_iff.mp h with ⟨u, rfl, rfl⟩ | ⟨u, rfl, rfl⟩
  · have hu : u = [] := hstop (fun c hc => ht' c (List.mem_append_right _ hc)) hr
    subst hu
    simp
  · have hu : u = [] := hstop (fun c hc => ht c (List.mem_append_right _ hc)) hr'
    subst hu
    simp

/-- The numbers and the constants. -/
def Atom : Json → Prop
  | null | bool _ | int _ | float _ => True
  | _ => False

theorem toDigits_injective {m n : ℕ} (h : Nat.toDigits 10 m = Nat.toDigits 10 n) : m = n := by
  have hvalue := congrArg (fun ds => Nat.ofDigitChars 10 ds 0) h
  simpa only [Nat.ofDigitChars_ten_toDigits] using hvalue

theorem chars_int (n : ℤ) : chars (int n) =
    if 0 ≤ n then Nat.toDigits 10 n.toNat else '-' :: Nat.toDigits 10 (-n).toNat := by
  show (toString n).toList = _
  rw [Int.toString_eq_repr, Int.repr_eq_if]
  split
  · exact Nat.toList_repr
  · simp [Nat.toList_repr]

theorem mem_chars_int {n : ℤ} {c : Char} (h : c ∈ chars (int n)) : c.isDigit ∨ c = '-' := by
  rw [chars_int] at h
  split at h
  · exact .inl (Nat.isDigit_of_mem_toDigits (by decide) (by decide) h)
  · rcases List.mem_cons.mp h with rfl | h
    · exact .inr rfl
    · exact .inl (Nat.isDigit_of_mem_toDigits (by decide) (by decide) h)

theorem chars_int_injective {m n : ℤ} (h : chars (int m) = chars (int n)) : m = n := by
  have hdash : ∀ {k : ℕ} {ds : List Char}, Nat.toDigits 10 k ≠ '-' :: ds := by
    intro k ds hk
    have hdigit := Nat.isDigit_of_mem_toDigits (b := 10) (n := k) (c := '-') (by decide) (by decide)
      (by rw [hk]; exact List.mem_cons_self)
    exact absurd hdigit (by decide)
  rw [chars_int, chars_int] at h
  split at h <;> split at h
  · have hnat := toDigits_injective h
    omega
  · exact absurd h hdash
  · exact absurd h.symm hdash
  · have hnat := toDigits_injective (List.cons.inj h).2
    omega

/-- The text of a float is not that of an integer or of a constant. -/
theorem chars_float_ne {r : String} (h : FloatText r) :
    (∀ n, chars (float r) ≠ chars (int n)) ∧ chars (float r) ≠ chars null ∧
      ∀ b, chars (float r) ≠ chars (bool b) := by
  have hnumber : ∀ n c, c ∈ r.toList → ¬(c.isDigit ∨ c = '-') → chars (float r) ≠ chars (int n) := by
    intro n c hc hnot heq
    have hmem : c ∈ chars (int n) := by
      rw [← heq]
      exact hc
    exact hnot (mem_chars_int hmem)
  rcases h with h | ⟨hall, c, hc, hpoint⟩
  · simp only [List.mem_cons, List.not_mem_nil, or_false] at h
    rcases h with rfl | rfl | rfl
    · exact ⟨fun n => hnumber n 'N' (by decide) (by decide), by decide, by decide⟩
    · exact ⟨fun n => hnumber n 'I' (by decide) (by decide), by decide, by decide⟩
    · exact ⟨fun n => hnumber n 'I' (by decide) (by decide), by decide, by decide⟩
  · have hletter : ∀ d cs, ¬(d.isDigit ∨ d ∈ ['-', '+', '.', 'e']) → r.toList ≠ d :: cs := by
      intro d cs hnot heq
      exact hnot (hall d (heq ▸ List.mem_cons_self))
    refine ⟨fun n => hnumber n c hc ?_, hletter 'n' _ (by decide), fun b => ?_⟩
    · simp only [List.mem_cons, List.not_mem_nil, or_false] at hpoint
      rcases hpoint with rfl | rfl <;> decide
    · cases b with
      | true => exact hletter 't' _ (by decide)
      | false => exact hletter 'f' _ (by decide)

theorem atom_injective {j j' : Json} (ha : j.Atom) (ha' : j'.Atom) (hp : j.Printed) (hp' : j'.Printed)
    (h : chars j = chars j') : j = j' := by
  have hint : ∀ n, chars (int n) ≠ chars null ∧ ∀ b, chars (int n) ≠ chars (bool b) := by
    intro n
    have hletter : ∀ d cs, ¬(d.isDigit ∨ d = '-') → chars (int n) ≠ d :: cs := by
      intro d cs hnot heq
      exact hnot (mem_chars_int (heq ▸ List.mem_cons_self))
    refine ⟨hletter 'n' _ (by decide), fun b => ?_⟩
    cases b with
    | true => exact hletter 't' _ (by decide)
    | false => exact hletter 'f' _ (by decide)
  have hbool : ∀ b, chars (bool b) ≠ chars null := by decide
  cases j with
  | str s => exact ha.elim
  | arr xs => exact ha.elim
  | obj kvs => exact ha.elim
  | null =>
      cases j' with
      | null => rfl
      | bool b => exact absurd h.symm (hbool b)
      | int n => exact absurd h.symm (hint n).1
      | float r => exact absurd h.symm (chars_float_ne hp').2.1
      | str s => exact ha'.elim
      | arr xs => exact ha'.elim
      | obj kvs => exact ha'.elim
  | bool b =>
      cases j' with
      | null => exact absurd h (hbool b)
      | bool b' => cases b <;> cases b' <;> first | rfl | exact absurd h (by decide)
      | int n => exact absurd h.symm ((hint n).2 b)
      | float r => exact absurd h.symm ((chars_float_ne hp').2.2 b)
      | str s => exact ha'.elim
      | arr xs => exact ha'.elim
      | obj kvs => exact ha'.elim
  | int n =>
      cases j' with
      | null => exact absurd h (hint n).1
      | bool b => exact absurd h ((hint n).2 b)
      | int n' => rw [chars_int_injective h]
      | float r => exact absurd h.symm ((chars_float_ne hp').1 n)
      | str s => exact ha'.elim
      | arr xs => exact ha'.elim
      | obj kvs => exact ha'.elim
  | float r =>
      cases j' with
      | null => exact absurd h (chars_float_ne hp).2.1
      | bool b => exact absurd h ((chars_float_ne hp).2.2 b)
      | int n => exact absurd h ((chars_float_ne hp).1 n)
      | float r' => rw [String.toList_injective h]
      | str s => exact ha'.elim
      | arr xs => exact ha'.elim
      | obj kvs => exact ha'.elim

theorem digit_plain {c : Char} (h : c.isDigit ∨ c ∈ ['-', '+', '.', 'e']) : plain c := by
  intro hc
  simp only [List.mem_cons, List.not_mem_nil, or_false] at hc
  rcases hc with rfl | rfl | rfl | rfl | rfl | rfl <;> exact absurd h (by decide)

/-- A number or a constant is a word. -/
theorem atom_plain {j : Json} (ha : j.Atom) (hp : j.Printed) : ∀ c ∈ chars j, plain c := by
  cases j with
  | null => exact List.all_iff_forall_prop.mp (by decide)
  | bool b => cases b <;> exact List.all_iff_forall_prop.mp (by decide)
  | int n =>
      intro c hc
      rcases mem_chars_int hc with h | rfl
      · exact digit_plain (.inl h)
      · exact digit_plain (.inr (by decide))
  | float r =>
      rcases hp with hp | ⟨hall, -⟩
      · simp only [List.mem_cons, List.not_mem_nil, or_false] at hp
        rcases hp with rfl | rfl | rfl <;> exact List.all_iff_forall_prop.mp (by decide)
      · exact fun c hc => digit_plain (hall c hc)
  | str s => exact ha.elim
  | arr xs => exact ha.elim
  | obj kvs => exact ha.elim

/-- A number or a constant is not empty. -/
theorem atom_ne_nil {j : Json} (ha : j.Atom) (hp : j.Printed) : chars j ≠ [] := by
  cases j with
  | null => decide
  | bool b => cases b <;> decide
  | int n =>
      rw [chars_int]
      split
      · exact Nat.toDigits_ne_nil
      · simp
  | float r =>
      rcases hp with hp | ⟨-, c, hc, -⟩
      · simp only [List.mem_cons, List.not_mem_nil, or_false] at hp
        rcases hp with rfl | rfl | rfl <;> decide
      · exact List.ne_nil_of_mem hc
  | str s => exact ha.elim
  | arr xs => exact ha.elim
  | obj kvs => exact ha.elim

/-! ### Values -/

/-- What the first character of a value tells. -/
inductive Kind where
  | atom | str | arr | obj
deriving DecidableEq

def kind : Json → Kind
  | str _ => .str
  | arr _ => .arr
  | obj _ => .obj
  | _ => .atom

def kindOfHead (c : Char) : Kind :=
  if c = '"' then .str else if c = '[' then .arr else if c = '\x7b' then .obj else .atom

theorem chars_head {j : Json} (hp : j.Printed) :
    ∃ c cs, chars j = c :: cs ∧ kindOfHead c = j.kind ∧ c ∉ [',', ']', '\x7d'] := by
  have hatom : j.Atom → j.kind = .atom →
      ∃ c cs, chars j = c :: cs ∧ kindOfHead c = j.kind ∧ c ∉ [',', ']', '\x7d'] := by
    intro ha hkind
    obtain ⟨c, cs, hc⟩ := List.exists_cons_of_ne_nil (atom_ne_nil ha hp)
    have hplain := atom_plain ha hp c (hc ▸ List.mem_cons_self)
    simp only [plain, List.mem_cons, List.not_mem_nil, or_false, not_or] at hplain
    refine ⟨c, cs, hc, ?_, ?_⟩
    · simp [kindOfHead, hplain, hkind]
    · simp [hplain]
  cases j with
  | null => exact hatom trivial rfl
  | bool b => exact hatom trivial rfl
  | int n => exact hatom trivial rfl
  | float r => exact hatom trivial rfl
  | str s => exact ⟨'"', _, by rw [chars, quote], rfl, by decide⟩
  | arr xs => exact ⟨'[', _, by rw [chars], rfl, by decide⟩
  | obj kvs => exact ⟨'\x7b', _, by rw [chars], rfl, by decide⟩

theorem kind_eq {j j' : Json} {r r' : List Char} (hp : j.Printed) (hp' : j'.Printed)
    (h : chars j ++ r = chars j' ++ r') : j.kind = j'.kind := by
  obtain ⟨c, cs, hc, hkind, -⟩ := chars_head hp
  obtain ⟨c', cs', hc', hkind', -⟩ := chars_head hp'
  rw [hc, hc', List.cons_append, List.cons_append] at h
  rw [← hkind, ← hkind', (List.cons.inj h).1]

theorem atom_of_kind {j : Json} (h : j.kind = .atom) : j.Atom := by
  cases j with
  | str s => simp [kind] at h
  | arr xs => simp [kind] at h
  | obj kvs => simp [kind] at h
  | _ => trivial

theorem atom_append_inj {j j' : Json} {r r' : List Char} (ha : j.kind = .atom) (hp : j.Printed)
    (hp' : j'.Printed) (hr : Stops r) (hr' : Stops r') (h : chars j ++ r = chars j' ++ r') :
    j = j' ∧ r = r' := by
  have ha' : j'.Atom := atom_of_kind ((kind_eq hp hp' h).symm.trans ha)
  obtain ⟨hchars, hrest⟩ :=
    word_append_inj (atom_plain (atom_of_kind ha) hp) (atom_plain ha' hp') hr hr' h
  exact ⟨atom_injective (atom_of_kind ha) ha' hp hp' hchars, hrest⟩

/-- The elements after the first one. -/
def charsRest : List Json → List Char
  | [] => []
  | x :: xs => ',' :: charsItems (x :: xs)

theorem charsItems_cons (x : Json) (xs : List Json) :
    charsItems (x :: xs) = chars x ++ charsRest xs := by
  cases xs with
  | nil => simp [charsItems, charsRest]
  | cons y ys => simp [charsItems, charsRest]

/-- The entries after the first one. -/
def charsMore : List (String × Json) → List Char
  | [] => []
  | kv :: kvs => ',' :: charsEntries (kv :: kvs)

theorem charsEntries_cons (k : String) (v : Json) (kvs : List (String × Json)) :
    charsEntries ((k, v) :: kvs) = quote k ++ ':' :: (chars v ++ charsMore kvs) := by
  cases kvs with
  | nil => simp [charsEntries, charsMore]
  | cons kv kvs => simp [charsEntries, charsMore]

theorem stops_of_mem {c : Char} {r : List Char} (h : c ∈ [',', ']', '\x7d']) : Stops (c :: r) := by
  rintro d rest hd
  obtain ⟨rfl, -⟩ := List.cons.inj hd
  exact h

theorem stops_rest (xs : List Json) (r : List Char) : Stops (charsRest xs ++ ']' :: r) := by
  cases xs with
  | nil => exact stops_of_mem (by decide)
  | cons x xs => exact stops_of_mem (by decide)

theorem stops_more (kvs : List (String × Json)) (r : List Char) :
    Stops (charsMore kvs ++ '\x7d' :: r) := by
  cases kvs with
  | nil => exact stops_of_mem (by decide)
  | cons kv kvs => exact stops_of_mem (by decide)

mutual

/-- A value followed by a delimiter is read as far as it goes. -/
theorem chars_append_inj : ∀ {j j' : Json} {r r' : List Char}, j.Printed → j'.Printed → Stops r →
    Stops r' → chars j ++ r = chars j' ++ r' → j = j' ∧ r = r'
  | null, _, _, _, hp, hp', hr, hr', h => atom_append_inj rfl hp hp' hr hr' h
  | bool _, _, _, _, hp, hp', hr, hr', h => atom_append_inj rfl hp hp' hr hr' h
  | int _, _, _, _, hp, hp', hr, hr', h => atom_append_inj rfl hp hp' hr hr' h
  | float _, _, _, _, hp, hp', hr, hr', h => atom_append_inj rfl hp hp' hr hr' h
  | str s, j', r, r', hp, hp', hr, hr', h => by
    have hkind := kind_eq hp hp' h
    cases j' with
    | str s' =>
        obtain ⟨rfl, hrest⟩ := quote_append_inj h
        exact ⟨rfl, hrest⟩
    | _ => simp [kind] at hkind
  | arr xs, j', r, r', hp, hp', hr, hr', h => by
    have hkind := kind_eq hp hp' h
    cases j' with
    | arr ys =>
        simp only [chars, List.cons_append, List.append_assoc, List.nil_append, List.cons.injEq,
          true_and] at h
        obtain ⟨rfl, hrest⟩ := charsItems_append_inj hp hp' h
        exact ⟨rfl, hrest⟩
    | _ => simp [kind] at hkind
  | obj kvs, j', r, r', hp, hp', hr, hr', h => by
    have hkind := kind_eq hp hp' h
    cases j' with
    | obj kvs' =>
        simp only [chars, List.cons_append, List.append_assoc, List.nil_append, List.cons.injEq,
          true_and] at h
        obtain ⟨rfl, hrest⟩ := charsEntries_append_inj hp hp' h
        exact ⟨rfl, hrest⟩
    | _ => simp [kind] at hkind

theorem charsItems_append_inj : ∀ {xs ys : List Json} {r r' : List Char}, PrintedItems xs →
    PrintedItems ys → charsItems xs ++ ']' :: r = charsItems ys ++ ']' :: r' → xs = ys ∧ r = r'
  | [], [], _, _, _, _, h => ⟨rfl, (List.cons.inj h).2⟩
  | [], y :: ys, r, r', _, hp', h => by
    obtain ⟨c, cs, hc, -, hdelim⟩ := chars_head hp'.1
    rw [charsItems_cons, hc] at h
    obtain ⟨rfl, -⟩ := List.cons.inj h
    exact absurd (by decide) hdelim
  | x :: xs, [], r, r', hp, _, h => by
    obtain ⟨c, cs, hc, -, hdelim⟩ := chars_head hp.1
    rw [charsItems_cons, hc] at h
    obtain ⟨rfl, -⟩ := List.cons.inj h
    exact absurd (by decide) hdelim
  | x :: xs, y :: ys, r, r', hp, hp', h => by
    rw [charsItems_cons, charsItems_cons, List.append_assoc, List.append_assoc] at h
    obtain ⟨rfl, hrest⟩ := chars_append_inj hp.1 hp'.1 (stops_rest xs r) (stops_rest ys r') h
    cases xs with
    | nil =>
        cases ys with
        | nil => exact ⟨rfl, (List.cons.inj hrest).2⟩
        | cons y ys => simp [charsRest] at hrest
    | cons x' xs =>
        cases ys with
        | nil => simp [charsRest] at hrest
        | cons y ys =>
            obtain ⟨hrows, hr⟩ := charsItems_append_inj hp.2 hp'.2 (List.cons.inj hrest).2
            exact ⟨by rw [hrows], hr⟩

theorem charsEntries_append_inj : ∀ {kvs kvs' : List (String × Json)} {r r' : List Char},
    PrintedEntries kvs → PrintedEntries kvs' →
      charsEntries kvs ++ '\x7d' :: r = charsEntries kvs' ++ '\x7d' :: r' → kvs = kvs' ∧ r = r'
  | [], [], _, _, _, _, h => ⟨rfl, (List.cons.inj h).2⟩
  | [], (k, v) :: kvs, r, r', _, _, h => by
    simp [charsEntries_cons, quote, charsEntries] at h
  | (k, v) :: kvs, [], r, r', _, _, h => by
    simp [charsEntries_cons, quote, charsEntries] at h
  | (k, v) :: kvs, (k', v') :: kvs', r, r', hp, hp', h => by
    rw [charsEntries_cons, charsEntries_cons, List.append_assoc, List.append_assoc] at h
    obtain ⟨rfl, hvalue⟩ := quote_append_inj h
    simp only [List.cons_append, List.append_assoc, List.cons.injEq, true_and] at hvalue
    obtain ⟨rfl, hrest⟩ :=
      chars_append_inj hp.1 hp'.1 (stops_more kvs r) (stops_more kvs' r') hvalue
    cases kvs with
    | nil =>
        cases kvs' with
        | nil => exact ⟨rfl, (List.cons.inj hrest).2⟩
        | cons kv kvs' => simp [charsMore] at hrest
    | cons kv kvs =>
        cases kvs' with
        | nil => simp [charsMore] at hrest
        | cons kv' kvs' =>
            obtain ⟨hrows, hr⟩ := charsEntries_append_inj hp.2 hp'.2 (List.cons.inj hrest).2
            exact ⟨by rw [hrows], hr⟩

end

/-! ### Objects whatever the order of their keys -/

/-- Equality of the values as Python compares them, except that it tells numbers of different
types apart: the order of the keys of an object does not count. -/
def Same (j j' : Json) : Prop := j.sortKeys = j'.sortKeys

/-- **A canonical text determines its value.** -/
theorem same_of_dumpsSorted {j j' : Json} (hp : j.Printed) (hp' : j'.Printed)
    (h : dumpsSorted j = dumpsSorted j') : Same j j' := by
  have hchars : j.sortKeys.chars ++ [] = j'.sortKeys.chars ++ [] := by
    rw [List.append_nil, List.append_nil]
    exact String.ofList_injective h
  have hstops : Stops [] := by simp [Stops]
  exact (chars_append_inj hp.sortKeys hp'.sortKeys hstops hstops hchars).1

theorem mem_sortKeysEntries {kvs : List (String × Json)} {k : String} {v : Json} :
    (k, v) ∈ sortKeysEntries kvs ↔ ∃ w, (k, w) ∈ kvs ∧ w.sortKeys = v := by
  induction kvs with
  | nil => simp [sortKeysEntries]
  | cons kv kvs ih =>
      simp only [sortKeysEntries, List.mem_cons, Prod.mk.injEq, ih]
      constructor
      · rintro (⟨rfl, rfl⟩ | ⟨w, hw, rfl⟩)
        · exact ⟨kv.2, .inl rfl, rfl⟩
        · exact ⟨w, .inr hw, rfl⟩
      · rintro ⟨w, rfl | hw, rfl⟩
        · exact .inl ⟨rfl, rfl⟩
        · exact .inr ⟨w, hw, rfl⟩

/-- Objects that are the same have the same values under their keys. -/
theorem Same.entry {kvs kvs' : List (String × Json)} (h : Same (obj kvs) (obj kvs')) {k : String}
    {v : Json} (hv : (k, v) ∈ kvs) : ∃ v', (k, v') ∈ kvs' ∧ Same v v' := by
  have hsorted : (sortKeysEntries kvs).insertionSort (fun a b => a.1.toList ≤ b.1.toList) =
      (sortKeysEntries kvs').insertionSort fun a b => a.1.toList ≤ b.1.toList := by
    simpa only [Same, Json.sortKeys, obj.injEq] using h
  have hmem : (k, v.sortKeys) ∈ sortKeysEntries kvs := mem_sortKeysEntries.mpr ⟨v, hv, rfl⟩
  rw [← List.mem_insertionSort fun a b => a.1.toList ≤ b.1.toList, hsorted,
    List.mem_insertionSort] at hmem
  obtain ⟨v', hv', hsame⟩ := mem_sortKeysEntries.mp hmem
  exact ⟨v', hv', hsame.symm⟩

end Json
