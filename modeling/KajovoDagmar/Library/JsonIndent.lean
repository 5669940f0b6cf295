import KajovoDagmar.Library.JsonParser

/-! # Indented JSON

`indented` is `json.dumps` with `ensure_ascii=False` and `indent=2`.  What it writes is read back (`loads_indented`),
for values whose objects do not repeat a key and whose floats carry a text that is read as a float. -/

namespace Json

/-- A line break, and the indentation of the next line. -/
def newline (level : ℕ) : List Char := '\n' :: List.replicate (2 * level) ' '

mutual

/-- The indented JSON text of a value. -/
def indented (level : ℕ) : Json → List Char
  | arr (x :: xs) =>
    '[' :: (newline (level + 1) ++ (indentedItems (level + 1) (x :: xs) ++ (newline level ++ [']'])))
  | obj (kv :: kvs) =>
    '\x7b' :: (newline (level + 1) ++ (indentedEntries (level + 1) (kv :: kvs) ++ (newline level ++ ['\x7d'])))
  | j => chars j

def indentedItems (level : ℕ) : List Json → List Char
  | [] => []
  | [x] => indented level x
  | x :: y :: xs => indented level x ++ ',' :: (newline level ++ indentedItems level (y :: xs))

def indentedEntries (level : ℕ) : List (String × Json) → List Char
  | [] => []
  | [(k, v)] => quote k ++ ':' :: ' ' :: indented level v
  | (k, v) :: kv :: kvs =>
    quote k ++ ':' :: ' ' :: (indented level v ++ ',' :: (newline level ++ indentedEntries level (kv :: kvs)))

end

example : String.ofList (indented 0 (obj [("a", arr []), ("b", arr [int 1, str "x\ny"])])) =
    "\x7b\n  \"a\": [],\n  \"b\": [\n    1,\n    \"x\\ny\"\n  ]\n\x7d" := by decide

/-! ### Numbers -/

/-- What may follow a value: the rest of its line is empty, or goes on with a comma. -/
def Breaks (r : List Char) : Prop := ∀ c rest, r = c :: rest → c = ',' ∨ c = '\n'

theorem breaks_comma (r : List Char) : Breaks (',' :: r) := fun _ _ h => .inl (List.cons.inj h).1.symm

theorem breaks_newline (level : ℕ) (r : List Char) : Breaks (newline level ++ r) :=
  fun _ _ h => .inr (List.cons.inj h).1.symm

variable {cs t w r : List Char} {j : Json}

/-- Digits end where a value may end. -/
theorem Breaks.span_append (hr : Breaks r) (cs : List Char) :
    (cs ++ r).takeWhile Char.isDigit = cs.takeWhile Char.isDigit ∧
      (cs ++ r).dropWhile Char.isDigit = cs.dropWhile Char.isDigit ++ r := by
  induction cs with
  | nil =>
      cases r with
      | nil => exact ⟨rfl, rfl⟩
      | cons c r =>
          rcases hr c r rfl with rfl | rfl
          · exact ⟨rfl, rfl⟩
          · exact ⟨rfl, rfl⟩
  | cons c cs ih =>
      obtain ⟨htake, hdrop⟩ := ih
      by_cases hc : c.isDigit = true
      · simp [hc, htake, hdrop]
      · simp [hc]

theorem Breaks.scanNat_append (hr : Breaks r) (h : scanNat cs = some (w, t)) :
    scanNat (cs ++ r) = some (w, t ++ r) := by
  obtain ⟨htake, hdrop⟩ := hr.span_append cs
  cases cs with
  | nil => exact absurd h (by simp [scanNat])
  | cons c cs =>
      by_cases hzero : c = '0'
      · subst hzero
        obtain ⟨rfl, rfl⟩ := Prod.mk.inj (Option.some.inj h)
        rfl
      · have hscan : ∀ ds, scanNat (c :: ds) = if (c :: ds).takeWhile Char.isDigit = [] then none
            else some ((c :: ds).takeWhile Char.isDigit, (c :: ds).dropWhile Char.isDigit) := by
          intro ds
          rw [scanNat]
          rintro rest heq
          exact hzero (List.cons.inj heq).1
        rw [hscan] at h
        rw [List.cons_append] at htake hdrop
        rw [List.cons_append, hscan, htake, hdrop]
        split at h
        · exact absurd h (by simp)
        · next hne =>
          obtain ⟨rfl, rfl⟩ := Prod.mk.inj (Option.some.inj h)
          rw [if_neg hne]

theorem Breaks.scanFraction_append (hr : Breaks r) (cs : List Char) :
    scanFraction (cs ++ r) = ((scanFraction cs).1, (scanFraction cs).2 ++ r) := by
  cases cs with
  | nil =>
      cases r with
      | nil => rfl
      | cons c r =>
          rcases hr c r rfl with rfl | rfl
          · rfl
          · rfl
  | cons c cs =>
      by_cases hpoint : c = '.'
      · subst hpoint
        obtain ⟨htake, hdrop⟩ := hr.span_append cs
        rw [List.cons_append, scanFraction, scanFraction, htake, hdrop]
        split
        · rfl
        · rfl
      · have hscan : ∀ ds, scanFraction (c :: ds) = ([], c :: ds) := by
          intro ds
          rw [scanFraction]
          rintro rest heq
          exact hpoint (List.cons.inj heq).1
        rw [List.cons_append, hscan, hscan]
        rfl

theorem Breaks.scanSign_append (hr : Breaks r) (cs : List Char) :
    scanSign (cs ++ r) = ((scanSign cs).1, (scanSign cs).2 ++ r) := by
  cases cs with
  | nil =>
      cases r with
      | nil => rfl
      | cons c r =>
          rcases hr c r rfl with rfl | rfl
          · rfl
          · rfl
  | cons c cs =>
      by_cases hplus : c = '+'
      · subst hplus
        rfl
      · by_cases hminus : c = '-'
        · subst hminus
          rfl
        · have hscan : ∀ ds, scanSign (c :: ds) = ([], c :: ds) := by
            intro ds
            rw [scanSign]
            · rintro rest heq
              exact hplus (List.cons.inj heq).1
            · rintro rest heq
              exact hminus (List.cons.inj heq).1
          rw [List.cons_append, hscan, hscan]
          rfl

theorem Breaks.scanExponent_append (hr : Breaks r) (cs : List Char) :
    scanExponent (cs ++ r) = ((scanExponent cs).1, (scanExponent cs).2 ++ r) := by
  cases cs with
  | nil =>
      cases r with
      | nil => rfl
      | cons c r =>
          rcases hr c r rfl with rfl | rfl
          · rfl
          · rfl
  | cons c cs =>
      obtain ⟨htake, hdrop⟩ := hr.span_append (scanSign cs).2
      rw [List.cons_append, scanExponent, scanExponent, hr.scanSign_append]
      dsimp only
      rw [htake, hdrop]
      split
      · rfl
      · rfl

theorem Breaks.scanUnsigned_append (hr : Breaks r) {negative : Bool}
    (h : scanUnsigned negative cs = some (j, t)) : scanUnsigned negative (cs ++ r) = some (j, t ++ r) := by
  obtain ⟨⟨whole, u⟩, hnat, hvalue⟩ := Option.map_eq_some_iff.mp h
  dsimp only at hvalue
  rw [scanUnsigned, hr.scanNat_append hnat, Option.map_some]
  dsimp only
  rw [hr.scanFraction_append, hr.scanExponent_append]
  dsimp only
  split at hvalue
  · next hempty =>
    obtain ⟨rfl, rfl⟩ := Prod.mk.inj hvalue
    rw [if_pos hempty]
  · next hne =>
    obtain ⟨rfl, rfl⟩ := Prod.mk.inj hvalue
    rw [if_neg hne]

/-- A number begins with a digit, or with a sign and a digit. -/
theorem scanNumber_head (h : scanNumber cs = some (j, t)) :
    ∃ d ds, d.isDigit = true ∧ (cs = d :: ds ∨ cs = '-' :: d :: ds) := by
  have hunsigned : ∀ {negative : Bool} {us : List Char}, scanUnsigned negative us = some (j, t) →
      ∃ d ds, d.isDigit = true ∧ us = d :: ds := by
    intro negative us hus
    obtain ⟨⟨whole, u⟩, hnat, -⟩ := Option.map_eq_some_iff.mp hus
    cases us with
    | nil => exact absurd hnat (by simp [scanNat])
    | cons d ds =>
        refine ⟨d, ds, ?_, rfl⟩
        by_cases hzero : d = '0'
        · rw [hzero]
          rfl
        · rw [scanNat] at hnat
          · by_contra hd
            rw [List.takeWhile_cons, if_neg hd, if_pos rfl] at hnat
            exact absurd hnat (by simp)
          · rintro rest heq
            exact hzero (List.cons.inj heq).1
  cases cs with
  | nil =>
      obtain ⟨d, ds, -, heq⟩ := hunsigned h
      exact absurd heq (by simp)
  | cons c cs =>
      by_cases hsign : c = '-'
      · subst hsign
        obtain ⟨d, ds, hd, rfl⟩ := hunsigned h
        exact ⟨d, ds, hd, .inr rfl⟩
      · rw [scanNumber] at h
        · obtain ⟨d, ds, hd, heq⟩ := hunsigned h
          exact ⟨d, ds, hd, .inl heq⟩
        · rintro rest heq
          exact hsign (List.cons.inj heq).1

theorem scanNumber_digit {d : Char} (hd : d.isDigit = true) (ds : List Char) :
    scanNumber (d :: ds) = scanUnsigned false (d :: ds) := by
  rw [scanNumber]
  rintro rest heq
  obtain rfl := (List.cons.inj heq).1
  exact absurd hd (by decide)

theorem Breaks.scanNumber_append (hr : Breaks r) (h : scanNumber cs = some (j, t)) :
    scanNumber (cs ++ r) = some (j, t ++ r) := by
  obtain ⟨d, ds, hd, rfl | rfl⟩ := scanNumber_head h
  · rw [scanNumber_digit hd] at h
    rw [List.cons_append, scanNumber_digit hd]
    exact hr.scanUnsigned_append h
  · have hscan : scanUnsigned true (d :: ds) = some (j, t) := h
    exact hr.scanUnsigned_append hscan

/-- A number is no constant. -/
theorem scanAtom_number (h : scanNumber cs = some (j, t)) : scanAtom cs = some (j, t) := by
  obtain ⟨d, ds, hd, rfl | rfl⟩ := scanNumber_head h
  · rw [scanAtom, (constants_find?_digit hd).1]
    exact h
  · rw [scanAtom, (constants_find?_digit hd).2]
    exact h

/-- A text that is read as a float. -/
def Literal (text : String) : Prop :=
  text ∈ ["NaN", "Infinity", "-Infinity"] ∨ scanNumber text.toList = some (float text, [])

theorem Literal.scanAtom (hr : Breaks r) {text : String} (h : Literal text) :
    scanAtom (chars (float text) ++ r) = some (float text, r) := by
  rcases h with hconstant | hnumber
  · simp only [List.mem_cons, List.not_mem_nil, or_false] at hconstant
    rcases hconstant with rfl | rfl | rfl
    · rfl
    · rfl
    · rfl
  · exact scanAtom_number (hr.scanNumber_append hnumber)

theorem scanNumber_int (n : ℤ) : scanNumber (chars (int n)) = some (int n, []) := by
  have hunsigned : ∀ (negative : Bool) (m : ℕ), scanUnsigned negative (Nat.toDigits 10 m) =
      some (int (if negative then -(m : ℤ) else m), []) := by
    intro negative m
    have hscan := scanUnsigned_toDigits negative m (r := []) fun _ _ hnil => absurd hnil (by simp)
    rwa [List.append_nil] at hscan
  rw [chars_int]
  split
  · next hpos =>
    obtain ⟨d, ds, hds⟩ := List.exists_cons_of_ne_nil (Nat.toDigits_ne_nil (n := n.toNat) (b := 10))
    have hd : d.isDigit = true :=
      Nat.isDigit_of_mem_toDigits (by decide) (by decide) (hds ▸ List.mem_cons_self)
    have hscan := hunsigned false n.toNat
    rw [hds] at hscan ⊢
    rw [scanNumber_digit hd, hscan, if_neg Bool.false_ne_true, Int.toNat_of_nonneg hpos]
  · next hneg =>
    have hvalue : -((-n).toNat : ℤ) = n := by omega
    change scanUnsigned true (Nat.toDigits 10 (-n).toNat) = _
    rw [hunsigned, if_pos rfl, hvalue]

theorem Breaks.scanAtom_int (hr : Breaks r) (n : ℤ) : scanAtom (chars (int n) ++ r) = some (int n, r) :=
  scanAtom_number (hr.scanNumber_append (scanNumber_int n))

/-! ### Values are read back -/

mutual

/-- The floats of the value carry texts of floats, and no object repeats a key. -/
def Written : Json → Prop
  | float text => Literal text
  | arr xs => WrittenItems xs
  | obj kvs => (kvs.map Prod.fst).Nodup ∧ WrittenEntries kvs
  | _ => True

def WrittenItems : List Json → Prop
  | [] => True
  | x :: xs => Written x ∧ WrittenItems xs

def WrittenEntries : List (String × Json) → Prop
  | [] => True
  | (_, v) :: kvs => Written v ∧ WrittenEntries kvs

end

/-- The elements after the first one, on lines of their own. -/
def indentedRest (level : ℕ) : List Json → List Char
  | [] => []
  | x :: xs => ',' :: (newline level ++ indentedItems level (x :: xs))

theorem indentedItems_cons (level : ℕ) (x : Json) (xs : List Json) :
    indentedItems level (x :: xs) = indented level x ++ indentedRest level xs := by
  cases xs with
  | nil => simp [indentedItems, indentedRest]
  | cons y ys => simp [indentedItems, indentedRest]

/-- The entries after the first one, on lines of their own. -/
def indentedMore (level : ℕ) : List (String × Json) → List Char
  | [] => []
  | kv :: kvs => ',' :: (newline level ++ indentedEntries level (kv :: kvs))

theorem indentedEntries_cons (level : ℕ) (k : String) (v : Json) (kvs : List (String × Json)) :
    indentedEntries level ((k, v) :: kvs) =
      quote k ++ ':' :: ' ' :: (indented level v ++ indentedMore level kvs) := by
  cases kvs with
  | nil => simp [indentedEntries, indentedMore]
  | cons kv kvs => simp [indentedEntries, indentedMore]

theorem breaks_rest (level level' : ℕ) (xs : List Json) (r : List Char) :
    Breaks (indentedRest level xs ++ (newline level' ++ r)) := by
  cases xs with
  | nil => exact breaks_newline _ _
  | cons x xs => exact breaks_comma _

theorem breaks_more (level level' : ℕ) (kvs : List (String × Json)) (r : List Char) :
    Breaks (indentedMore level kvs ++ (newline level' ++ r)) := by
  cases kvs with
  | nil => exact breaks_newline _ _
  | cons kv kvs => exact breaks_comma _

/-- A character with which a value may begin. -/
def Opens (c : Char) : Prop :=
  c.isDigit = true ∨ c ∈ ['-', '"', '[', '\x7b', 'n', 't', 'f', 'N', 'I']

theorem Opens.solid {c : Char} (h : Opens c) :
    isBlank c = false ∧ c ≠ ']' ∧ c ≠ '\x7d' ∧ c ≠ bom := by
  rcases h with hdigit | hmem
  · have hne : ∀ b : Char, b.isDigit = false → c ≠ b := by
      rintro b hb rfl
      rw [hdigit] at hb
      exact absurd hb (by decide)
    have hblank : isBlank c = false := by
      simp [isBlank, hne ' ' rfl, hne '\t' rfl, hne '\n' rfl, hne '\r' rfl]
    exact ⟨hblank, hne ']' rfl, hne '\x7d' rfl, hne bom (by decide)⟩
  · simp only [List.mem_cons, List.not_mem_nil, or_false] at hmem
    rcases hmem with rfl | rfl | rfl | rfl | rfl | rfl | rfl | rfl | rfl <;> decide

/-- A written value begins with a character that is not skipped. -/
theorem indented_head {j : Json} (h : j.Written) (level : ℕ) :
    ∃ c cs, indented level j = c :: cs ∧ Opens c := by
  have hnumber : ∀ {text : List Char} {x : Json}, scanNumber text = some (x, []) →
      ∃ c cs, text = c :: cs ∧ Opens c := by
    intro text x hscan
    obtain ⟨d, ds, hd, rfl | rfl⟩ := scanNumber_head hscan
    · exact ⟨d, ds, rfl, .inl hd⟩
    · exact ⟨'-', d :: ds, rfl, .inr (by decide)⟩
  cases j with
  | null => exact ⟨'n', _, rfl, .inr (by decide)⟩
  | bool b =>
      cases b with
      | true => exact ⟨'t', _, rfl, .inr (by decide)⟩
      | false => exact ⟨'f', _, rfl, .inr (by decide)⟩
  | int n => exact hnumber (scanNumber_int n)
  | float text =>
      rcases h with hconstant | hscan
      · simp only [List.mem_cons, List.not_mem_nil, or_false] at hconstant
        rcases hconstant with rfl | rfl | rfl
        · exact ⟨'N', _, rfl, .inr (by decide)⟩
        · exact ⟨'I', _, rfl, .inr (by decide)⟩
        · exact ⟨'-', _, rfl, .inr (by decide)⟩
      · exact hnumber hscan
  | str s => exact ⟨'"', _, rfl, .inr (by decide)⟩
  | arr xs =>
      cases xs with
      | nil => exact ⟨'[', _, rfl, .inr (by decide)⟩
      | cons x xs => exact ⟨'[', _, rfl, .inr (by decide)⟩
  | obj kvs =>
      cases kvs with
      | nil => exact ⟨'\x7b', _, rfl, .inr (by decide)⟩
      | cons kv kvs => exact ⟨'\x7b', _, rfl, .inr (by decide)⟩

theorem parseValue_scanAtom {c : Char} (hquote : c ≠ '"') (hbracket : c ≠ '[') (hbrace : c ≠ '\x7b') (n : ℕ)
    (cs : List Char) : parseValue (n + 1) (c :: cs) = scanAtom (c :: cs) := by
  rw [parseValue]
  · rintro rest heq
    exact hquote (List.cons.inj heq).1
  · rintro rest heq
    exact hbracket (List.cons.inj heq).1
  · rintro rest heq
    exact hbrace (List.cons.inj heq).1

theorem parseValue_number {x : Json} (h : scanNumber cs = some (j, t)) (hscan : scanAtom (cs ++ r) = some (x, r))
    (n : ℕ) : parseValue (n + 1) (cs ++ r) = some (x, r) := by
  obtain ⟨d, ds, hd, rfl | rfl⟩ := scanNumber_head h
  · have hne : ∀ b : Char, b.isDigit = false → d ≠ b := by
      rintro b hb rfl
      rw [hd] at hb
      exact absurd hb (by decide)
    rw [List.cons_append] at hscan ⊢
    rw [parseValue_scanAtom (hne '"' rfl) (hne '[' rfl) (hne '\x7b' rfl), hscan]
  · rw [List.cons_append] at hscan ⊢
    rw [parseValue_scanAtom (by decide) (by decide) (by decide), hscan]

theorem parseValue_float (hr : Breaks r) {text : String} (h : Literal text) (n : ℕ) :
    parseValue (n + 1) (chars (float text) ++ r) = some (float text, r) := by
  have hscan := h.scanAtom hr
  rcases h with hconstant | hnumber
  · simp only [List.mem_cons, List.not_mem_nil, or_false] at hconstant
    rcases hconstant with rfl | rfl | rfl
    · exact (parseValue_scanAtom (by decide) (by decide) (by decide) n _).trans hscan
    · exact (parseValue_scanAtom (by decide) (by decide) (by decide) n _).trans hscan
    · exact (parseValue_scanAtom (by decide) (by decide) (by decide) n _).trans hscan
  · exact parseValue_number hnumber hscan n

/-- The indentation of a line is skipped. -/
theorem skipBlanks_newline (level : ℕ) (r : List Char) : skipBlanks (newline level ++ r) = skipBlanks r := by
  have hspaces : ∀ n, skipBlanks (List.replicate n ' ' ++ r) = skipBlanks r := by
    intro n
    induction n with
    | zero => rfl
    | succ n ih => exact ih
  exact hspaces (2 * level)

theorem skipBlanks_indented {j : Json} (h : j.Written) (level : ℕ) (r : List Char) :
    skipBlanks (indented level j ++ r) = indented level j ++ r := by
  obtain ⟨c, cs, hc, hopens⟩ := indented_head h level
  rw [hc]
  exact skipBlanks_cons hopens.solid.1

theorem skipBlanks_indentedItems {x : Json} (h : x.Written) (level : ℕ) (xs : List Json) (r : List Char) :
    skipBlanks (newline level ++ (indentedItems level (x :: xs) ++ r)) = indentedItems level (x :: xs) ++ r ∧
      (indentedItems level (x :: xs) ++ r).head? ≠ some ']' := by
  obtain ⟨c, cs, hc, hopens⟩ := indented_head h level
  obtain ⟨hblank, hne, -⟩ := hopens.solid
  rw [skipBlanks_newline, indentedItems_cons, hc]
  exact ⟨skipBlanks_cons hblank, fun heq => hne (Option.some.inj heq)⟩

theorem skipBlanks_indentedEntries (level : ℕ) (kv : String × Json) (kvs : List (String × Json))
    (r : List Char) :
    skipBlanks (newline level ++ (indentedEntries level (kv :: kvs) ++ r)) =
        indentedEntries level (kv :: kvs) ++ r ∧
      (indentedEntries level (kv :: kvs) ++ r).head? ≠ some '\x7d' := by
  obtain ⟨k, v⟩ := kv
  rw [skipBlanks_newline, indentedEntries_cons, quote]
  exact ⟨skipBlanks_cons rfl, by simp⟩

mutual

/-- **An indented value is read back**, with the text that follows it left over. -/
theorem parseValue_indented : ∀ {j : Json} {level : ℕ} {r : List Char} {n : ℕ}, j.Written → Breaks r →
    (indented level j).length < n → parseValue n (indented level j ++ r) = some (j, r)
  | null, _, r, n, _, _, hn => by
    obtain ⟨m, rfl⟩ := Nat.exists_eq_succ_of_ne_zero (by omega : n ≠ 0)
    exact (parseValue_scanAtom (by decide) (by decide) (by decide) m _).trans (scanAtom_null r)
  | bool true, _, r, n, _, _, hn => by
    obtain ⟨m, rfl⟩ := Nat.exists_eq_succ_of_ne_zero (by omega : n ≠ 0)
    exact (parseValue_scanAtom (by decide) (by decide) (by decide) m _).trans (scanAtom_bool true r)
  | bool false, _, r, n, _, _, hn => by
    obtain ⟨m, rfl⟩ := Nat.exists_eq_succ_of_ne_zero (by omega : n ≠ 0)
    exact (parseValue_scanAtom (by decide) (by decide) (by decide) m _).trans (scanAtom_bool false r)
  | int i, _, r, n, _, hr, hn => by
    obtain ⟨m, rfl⟩ := Nat.exists_eq_succ_of_ne_zero (by omega : n ≠ 0)
    exact parseValue_number (scanNumber_int i) (hr.scanAtom_int i) m
  | float text, _, r, n, h, hr, hn => by
    obtain ⟨m, rfl⟩ := Nat.exists_eq_succ_of_ne_zero (by omega : n ≠ 0)
    exact parseValue_float hr h m
  | str s, _, r, n, _, _, hn => by
    obtain ⟨m, rfl⟩ := Nat.exists_eq_succ_of_ne_zero (by omega : n ≠ 0)
    exact parseValue_str s m r
  | arr [], _, r, n, _, _, hn => by
    obtain ⟨m, rfl⟩ := Nat.exists_eq_succ_of_ne_zero (by omega : n ≠ 0)
    rfl
  | arr (x :: xs), level, r, n, h, _, hn => by
    obtain ⟨m, rfl⟩ := Nat.exists_eq_succ_of_ne_zero (by omega : n ≠ 0)
    have htext : indented level (arr (x :: xs)) ++ r = '[' :: (newline (level + 1) ++
        (indentedItems (level + 1) (x :: xs) ++ (newline level ++ ']' :: r))) := by
      simp [indented]
    have hlength : (indentedItems (level + 1) (x :: xs)).length + 1 < m := by
      rw [indented, List.length_cons, List.length_append, List.length_append, List.length_append,
        List.length_singleton] at hn
      omega
    obtain ⟨hskip, hhead⟩ := skipBlanks_indentedItems h.1 (level + 1) xs (newline level ++ ']' :: r)
    rw [htext, parseValue, hskip, if_neg hhead, parseItems_indented (List.cons_ne_nil x xs) h hlength,
      Option.map_some]
  | obj [], _, r, n, _, _, hn => by
    obtain ⟨m, rfl⟩ := Nat.exists_eq_succ_of_ne_zero (by omega : n ≠ 0)
    rfl
  | obj (kv :: kvs), level, r, n, h, _, hn => by
    obtain ⟨m, rfl⟩ := Nat.exists_eq_succ_of_ne_zero (by omega : n ≠ 0)
    have htext : indented level (obj (kv :: kvs)) ++ r = '\x7b' :: (newline (level + 1) ++
        (indentedEntries (level + 1) (kv :: kvs) ++ (newline level ++ '\x7d' :: r))) := by
      simp [indented]
    have hlength : (indentedEntries (level + 1) (kv :: kvs)).length + 1 < m := by
      rw [indented, List.length_cons, List.length_append, List.length_append, List.length_append,
        List.length_singleton] at hn
      omega
    obtain ⟨hskip, hhead⟩ := skipBlanks_indentedEntries (level + 1) kv kvs (newline level ++ '\x7d' :: r)
    rw [htext, parseValue, hskip, if_neg hhead, parseEntries_indented (List.cons_ne_nil kv kvs) h.2 hlength,
      Option.map_some]
    dsimp only
    rw [dictOf_nodup h.1]

theorem parseItems_indented : ∀ {xs : List Json} {level level' : ℕ} {r : List Char} {n : ℕ}, xs ≠ [] →
    WrittenItems xs → (indentedItems level xs).length + 1 < n →
      parseItems n (indentedItems level xs ++ (newline level' ++ ']' :: r)) = some (xs, r)
  | [], _, _, _, _, hne, _, _ => absurd rfl hne
  | x :: xs, level, level', r, n, _, h, hn => by
    obtain ⟨m, rfl⟩ := Nat.exists_eq_succ_of_ne_zero (by omega : n ≠ 0)
    rw [indentedItems_cons, List.length_append] at hn
    have hx : parseValue m (indented level x ++ (indentedRest level xs ++ (newline level' ++ ']' :: r))) =
        some (x, indentedRest level xs ++ (newline level' ++ ']' :: r)) :=
      parseValue_indented h.1 (breaks_rest level level' xs (']' :: r)) (by omega)
    rw [indentedItems_cons, List.append_assoc, parseItems, hx]
    cases xs with
    | nil =>
        have hskip : skipBlanks (newline level' ++ ']' :: r) = ']' :: r := by
          rw [skipBlanks_newline]
          rfl
        rw [indentedRest, List.nil_append]
        dsimp only
        rw [hskip]
        rfl
    | cons y ys =>
        rw [indentedRest, List.length_cons, List.length_append] at hn
        have hrest : parseItems m (indentedItems level (y :: ys) ++ (newline level' ++ ']' :: r)) =
            some (y :: ys, r) := parseItems_indented (List.cons_ne_nil y ys) h.2 (by omega)
        have hskip := (skipBlanks_indentedItems h.2.1 level ys (newline level' ++ ']' :: r)).1
        rw [indentedRest, List.cons_append, List.append_assoc]
        show Option.map _ (parseItems m (skipBlanks _)) = _
        rw [hskip, hrest, Option.map_some]

theorem parseEntries_indented : ∀ {kvs : List (String × Json)} {level level' : ℕ} {r : List Char} {n : ℕ},
    kvs ≠ [] → WrittenEntries kvs → (indentedEntries level kvs).length + 1 < n →
      parseEntries n (indentedEntries level kvs ++ (newline level' ++ '\x7d' :: r)) = some (kvs, r)
  | [], _, _, _, _, hne, _, _ => absurd rfl hne
  | (k, v) :: kvs, level, level', r, n, _, h, hn => by
    obtain ⟨m, rfl⟩ := Nat.exists_eq_succ_of_ne_zero (by omega : n ≠ 0)
    rw [indentedEntries_cons, List.length_append, List.length_cons, List.length_cons, List.length_append] at hn
    have hv : parseValue m (indented level v ++ (indentedMore level kvs ++ (newline level' ++ '\x7d' :: r))) =
        some (v, indentedMore level kvs ++ (newline level' ++ '\x7d' :: r)) :=
      parseValue_indented h.1 (breaks_more level level' kvs ('\x7d' :: r)) (by omega)
    have hskip : skipBlanks (' ' :: (indented level v ++ (indentedMore level kvs ++
        (newline level' ++ '\x7d' :: r)))) =
        indented level v ++ (indentedMore level kvs ++ (newline level' ++ '\x7d' :: r)) :=
      skipBlanks_indented h.1 level _
    have htext : indentedEntries level ((k, v) :: kvs) ++ (newline level' ++ '\x7d' :: r) =
        '"' :: (escape k ++ '"' :: ':' :: ' ' :: (indented level v ++ (indentedMore level kvs ++
          (newline level' ++ '\x7d' :: r)))) := by
      simp [indentedEntries_cons, quote]
    have hcolon : skipBlanks (':' :: ' ' :: (indented level v ++ (indentedMore level kvs ++
        (newline level' ++ '\x7d' :: r)))) = ':' :: ' ' :: (indented level v ++ (indentedMore level kvs ++
          (newline level' ++ '\x7d' :: r))) := skipBlanks_cons rfl
    rw [htext, parseEntries, scanString_quote]
    simp only [hcolon, hskip, hv, String.ofList_toList]
    cases kvs with
    | nil =>
        have hend : skipBlanks (newline level' ++ '\x7d' :: r) = '\x7d' :: r := by
          rw [skipBlanks_newline]
          rfl
        rw [indentedMore, List.nil_append, hend]
        rfl
    | cons kv kvs =>
        rw [indentedMore, List.length_cons, List.length_append] at hn
        have hrest : parseEntries m (indentedEntries level (kv :: kvs) ++ (newline level' ++ '\x7d' :: r)) =
            some (kv :: kvs, r) := parseEntries_indented (List.cons_ne_nil kv kvs) h.2 (by omega)
        have hskip' := (skipBlanks_indentedEntries level kv kvs (newline level' ++ '\x7d' :: r)).1
        rw [indentedMore, List.cons_append, List.append_assoc]
        show Option.map _ (parseEntries m (skipBlanks _)) = _
        rw [hskip', hrest, Option.map_some]

end

/-- **What `indented` writes is read back**, also with a line break after it. -/
theorem loads_indented {j : Json} (h : j.Written) (hr : Breaks r) (hblank : skipBlanks r = []) :
    loads (String.ofList (indented 0 j ++ r)) = some j := by
  obtain ⟨c, cs, hc, hopens⟩ := indented_head h 0
  have hparse := parseValue_indented (n := (indented 0 j ++ r).length + 1) h hr
    (by rw [List.length_append]; omega : (indented 0 j).length < (indented 0 j ++ r).length + 1)
  have hskip : skipBlanks (indented 0 j ++ r) = indented 0 j ++ r := skipBlanks_indented h 0 r
  unfold loads
  rw [String.toList_ofList, hskip, if_neg, hparse]
  · exact if_pos hblank
  · rw [hc]
    exact fun heq => hopens.solid.2.2.2 (Option.some.inj heq)

theorem writtenItems_iff {xs : List Json} : WrittenItems xs ↔ ∀ x ∈ xs, x.Written := by
  induction xs with
  | nil => simp [WrittenItems]
  | cons x xs ih => simp [WrittenItems, ih]

end Json
