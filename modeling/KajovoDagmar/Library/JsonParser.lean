import KajovoDagmar.Library.JsonText

/-! # Reading JSON

`loads` is `json.loads` on a text: the values that `dumps` writes, with blanks between their parts, any
escape in a string, and the constants `NaN`, `Infinity` and `-Infinity`.  A float keeps the text from which it
was read, and an escaped surrogate without its partner is read as the replacement character.

What `dumps` writes is read back (`loads_dumps`), for values without floats whose objects do not repeat a
key, and so is what `dumpsAscii` writes if it has nothing to escape. -/

namespace Json

/-! ### Strings -/

def isBlank (c : Char) : Bool := c = ' ' || c = '\t' || c = '\n' || c = '\r'

def skipBlanks (cs : List Char) : List Char := cs.dropWhile isBlank

/-- The value of a hexadecimal digit of either case. -/
def hexValue (c : Char) : Option ℕ :=
  if hexDigit c.toLower < 16 then some (hexDigit c.toLower) else none

/-- The number of four hexadecimal digits. -/
def scanHex : List Char → Option (ℕ × List Char)
  | a :: b :: c :: d :: r => do
    let a ← hexValue a
    let b ← hexValue b
    let c ← hexValue c
    let d ← hexValue d
    some (4096 * a + 256 * b + 16 * c + d, r)
  | _ => none

def replacement : Char := Char.ofNat 0xFFFD

/-- The second half of a surrogate pair. -/
def scanLow : List Char → Option (ℕ × List Char)
  | '\\' :: 'u' :: r => (scanHex r).filter fun x => 0xDC00 ≤ x.1 ∧ x.1 < 0xE000
  | _ => none

/-- The character of an escape by number. -/
def scanUnicode (cs : List Char) : Option (Char × List Char) :=
  (scanHex cs).map fun (u, r) =>
    if 0xD800 ≤ u ∧ u < 0xDC00 then
      match scanLow r with
      | some (v, r') => (Char.ofNat (0x10000 + (u - 0xD800) * 0x400 + (v - 0xDC00)), r')
      | none => (replacement, r)
    else if 0xDC00 ≤ u ∧ u < 0xE000 then (replacement, r)
    else (Char.ofNat u, r)

def scanEscape : List Char → Option (Char × List Char)
  | '"' :: r => some ('"', r)
  | '\\' :: r => some ('\\', r)
  | '/' :: r => some ('/', r)
  | 'b' :: r => some (Char.ofNat 8, r)
  | 'f' :: r => some (Char.ofNat 12, r)
  | 'n' :: r => some ('\n', r)
  | 'r' :: r => some ('\r', r)
  | 't' :: r => some ('\t', r)
  | 'u' :: r => scanUnicode r
  | _ => none

/-- The next character of the contents of a string. -/
def scanChar : List Char → Option (Char × List Char)
  | [] => none
  | c :: r => if c = '\\' then scanEscape r else if c.toNat < 32 then none else some (c, r)

/-- The contents of a string up to its closing quote. -/
def scanString : ℕ → List Char → Option (List Char × List Char)
  | 0, _ => none
  | n + 1, cs =>
    if cs.head? = some '"' then some ([], cs.tail)
    else do
      let (c, r) ← scanChar cs
      let (s, r) ← scanString n r
      some (c :: s, r)

/-! ### Numbers and constants -/

def scanNat : List Char → Option (List Char × List Char)
  | '0' :: r => some (['0'], r)
  | cs => if cs.takeWhile Char.isDigit = [] then none
    else some (cs.takeWhile Char.isDigit, cs.dropWhile Char.isDigit)

/-- The fraction of a number, if it has one. -/
def scanFraction : List Char → List Char × List Char
  | '.' :: r => if r.takeWhile Char.isDigit = [] then ([], '.' :: r)
    else ('.' :: r.takeWhile Char.isDigit, r.dropWhile Char.isDigit)
  | cs => ([], cs)

/-- The sign of an exponent, if it has one. -/
def scanSign : List Char → List Char × List Char
  | '+' :: r => (['+'], r)
  | '-' :: r => (['-'], r)
  | cs => ([], cs)

/-- The exponent of a number, if it has one. -/
def scanExponent : List Char → List Char × List Char
  | [] => ([], [])
  | e :: r =>
    if (e = 'e' ∨ e = 'E') ∧ (scanSign r).2.takeWhile Char.isDigit ≠ [] then
      (e :: (scanSign r).1 ++ (scanSign r).2.takeWhile Char.isDigit, (scanSign r).2.dropWhile Char.isDigit)
    else ([], e :: r)

/-- A number after its sign. -/
def scanUnsigned (negative : Bool) (cs : List Char) : Option (Json × List Char) :=
  (scanNat cs).map fun (whole, r) =>
    let (fraction, r) := scanFraction r
    let (exponent, r) := scanExponent r
    if fraction = [] ∧ exponent = [] then
      let n : ℤ := Nat.ofDigitChars 10 whole 0
      (.int (if negative then -n else n), r)
    else
      let text := whole ++ fraction ++ exponent
      (.float (String.ofList (if negative then '-' :: text else text)), r)

def scanNumber : List Char → Option (Json × List Char)
  | '-' :: r => scanUnsigned true r
  | cs => scanUnsigned false cs

def constants : List (String × Json) :=
  [("null", .null), ("true", .bool true), ("false", .bool false), ("NaN", .float "NaN"),
    ("Infinity", .float "Infinity"), ("-Infinity", .float "-Infinity")]

def scanAtom (cs : List Char) : Option (Json × List Char) :=
  match constants.find? fun w => w.1.toList.isPrefixOf cs with
  | some w => some (w.2, cs.drop w.1.length)
  | none => scanNumber cs

/-! ### Values -/

/-- The entry of a key, replaced in place or added. -/
def setEntry (kvs : List (String × Json)) (kv : String × Json) : List (String × Json) :=
  if kvs.any (fun x => x.1 = kv.1) then kvs.map fun x => if x.1 = kv.1 then (x.1, kv.2) else x
  else kvs ++ [kv]

/-- `dict(pairs)`. -/
def dictOf (kvs : List (String × Json)) : List (String × Json) := kvs.foldl setEntry []

mutual

/-- `scan_once`. -/
def parseValue : ℕ → List Char → Option (Json × List Char)
  | 0, _ => none
  | _ + 1, '"' :: r => (scanString r.length r).map fun (s, r) => (.str (String.ofList s), r)
  | n + 1, '[' :: r =>
    if (skipBlanks r).head? = some ']' then some (.arr [], (skipBlanks r).tail)
    else (parseItems n (skipBlanks r)).map fun (xs, r) => (.arr xs, r)
  | n + 1, '\x7b' :: r =>
    if (skipBlanks r).head? = some '\x7d' then some (.obj [], (skipBlanks r).tail)
    else (parseEntries n (skipBlanks r)).map fun (kvs, r) => (.obj (dictOf kvs), r)
  | _ + 1, cs => scanAtom cs

def parseItems : ℕ → List Char → Option (List Json × List Char)
  | 0, _ => none
  | n + 1, cs =>
    match parseValue n cs with
    | none => none
    | some (x, r) =>
      match skipBlanks r with
      | ',' :: r => (parseItems n (skipBlanks r)).map fun (xs, r) => (x :: xs, r)
      | ']' :: r => some ([x], r)
      | _ => none

def parseEntries : ℕ → List Char → Option (List (String × Json) × List Char)
  | 0, _ => none
  | n + 1, '"' :: r =>
    match scanString r.length r with
    | none => none
    | some (k, r) =>
      match skipBlanks r with
      | ':' :: r =>
        match parseValue n (skipBlanks r) with
        | none => none
        | some (v, r) =>
          match skipBlanks r with
          | ',' :: r => (parseEntries n (skipBlanks r)).map fun (kvs, r) => ((String.ofList k, v) :: kvs, r)
          | '\x7d' :: r => some ([(String.ofList k, v)], r)
          | _ => none
      | _ => none
  | _ + 1, _ => none

end

/-- The byte order mark. -/
def bom : Char := Char.ofNat 0xFEFF

/-- `json.loads`, or `none` for its `JSONDecodeError`. -/
def loads (s : String) : Option Json :=
  if s.toList.head? = some bom then none
  else match parseValue (s.toList.length + 1) (skipBlanks s.toList) with
    | some (j, r) => if skipBlanks r = [] then some j else none
    | none => none

/-! ### What is written is read -/

theorem hexValue_digitChar : ∀ n < 16, hexValue (Nat.digitChar n) = some n := by
  decide

/-- The escape of a character is read as that character. -/
theorem scanChar_escapeChar (c : Char) (r : List Char) : scanChar (escapeChar c ++ r) = some (c, r) := by
  unfold escapeChar
  by_cases hquote : c = '"'
  · subst hquote
    rfl
  by_cases hslash : c = '\\'
  · subst hslash
    rfl
  by_cases hn : c = '\n'
  · subst hn
    rfl
  by_cases hr : c = '\r'
  · subst hr
    rfl
  by_cases ht : c = '\t'
  · subst ht
    rfl
  simp only [hquote, hslash, hn, hr, ht, if_false]
  have hchar : Char.ofNat c.toNat = c := Char.ofNat_toNat c
  by_cases hb : c.toNat = 8
  · simp only [hb, if_true]
    rw [hb] at hchar
    exact congrArg (fun x => some (x, r)) hchar
  by_cases hf : c.toNat = 12
  · simp only [hf]
    rw [hf] at hchar
    exact congrArg (fun x => some (x, r)) hchar
  by_cases hlow : c.toNat < 32
  · simp only [hb, hf, hlow, if_false, if_true]
    have hzero : hexValue '0' = some 0 := by decide
    have hhigh := hexValue_digitChar (c.toNat / 16) (by omega)
    have hdigit := hexValue_digitChar (c.toNat % 16) (by omega)
    have hsum : 4096 * 0 + 256 * 0 + 16 * (c.toNat / 16) + c.toNat % 16 = c.toNat := by omega
    show scanUnicode ('0' :: '0' :: Nat.digitChar (c.toNat / 16) :: Nat.digitChar (c.toNat % 16) :: r) = _
    have hscan : scanHex ('0' :: '0' :: Nat.digitChar (c.toNat / 16) :: Nat.digitChar (c.toNat % 16) :: r) =
        some (c.toNat, r) := by
      simp only [scanHex, hzero, hhigh, hdigit, Option.bind_eq_bind, Option.bind_some, hsum]
    rw [scanUnicode, hscan, Option.map_some]
    dsimp only
    rw [if_neg (by omega), if_neg (by omega), hchar]
  · simp only [hb, hf, hlow, if_false]
    simp [scanChar, hslash, hlow]

/-- No escape begins with a quote. -/
theorem head_escapeChar (c : Char) : ∃ d ds, escapeChar c = d :: ds ∧ d ≠ '"' := by
  unfold escapeChar
  split
  · exact ⟨_, _, rfl, by decide⟩
  · next hquote =>
    repeat' split
    all_goals first
      | exact ⟨_, _, rfl, by decide⟩
      | exact ⟨_, _, rfl, hquote⟩

theorem scanString_escape {cs r : List Char} {n : ℕ} (hn : cs.length < n) :
    scanString n (cs.flatMap escapeChar ++ '"' :: r) = some (cs, r) := by
  induction cs generalizing n with
  | nil =>
      obtain ⟨m, rfl⟩ := Nat.exists_eq_succ_of_ne_zero (by omega : n ≠ 0)
      rfl
  | cons c cs ih =>
      obtain ⟨m, rfl⟩ := Nat.exists_eq_succ_of_ne_zero (by omega : n ≠ 0)
      rw [List.length_cons] at hn
      obtain ⟨d, ds, hd, hne⟩ := head_escapeChar c
      have hscan := scanChar_escapeChar c (cs.flatMap escapeChar ++ '"' :: r)
      rw [List.flatMap_cons, List.append_assoc, scanString, if_neg ?_]
      · simp only [hscan, Option.bind_eq_bind, Option.bind_some, ih (by omega : cs.length < m)]
      · rw [hd]
        simpa using hne

theorem length_escape_le (cs : List Char) : cs.length ≤ (cs.flatMap escapeChar).length := by
  induction cs with
  | nil => exact Nat.le_refl 0
  | cons c cs ih =>
      obtain ⟨d, ds, hd, -⟩ := head_escapeChar c
      rw [List.flatMap_cons, List.length_append, hd, List.length_cons, List.length_cons]
      omega

/-- The contents of a string and its closing quote are read back. -/
theorem scanString_quote (s : String) (r : List Char) :
    scanString (escape s ++ '"' :: r).length (escape s ++ '"' :: r) = some (s.toList, r) := by
  refine scanString_escape ?_
  have hlength := length_escape_le s.toList
  rw [List.length_append, List.length_cons, escape]
  omega

/-- What may follow a number ends it. -/
theorem Stops.takeWhile_append {ds r : List Char} (hr : Stops r) (hds : ∀ c ∈ ds, c.isDigit = true) :
    (ds ++ r).takeWhile Char.isDigit = ds ∧ (ds ++ r).dropWhile Char.isDigit = r := by
  have hrest : r.takeWhile Char.isDigit = [] ∧ r.dropWhile Char.isDigit = r := by
    cases r with
    | nil => exact ⟨rfl, rfl⟩
    | cons c r =>
        have hc : c.isDigit = false := by
          have hmem := hr c r rfl
          simp only [List.mem_cons, List.not_mem_nil, or_false] at hmem
          rcases hmem with rfl | rfl | rfl <;> rfl
        simp [hc]
  rw [List.takeWhile_append_of_pos hds, List.dropWhile_append_of_pos hds, hrest.1, hrest.2]
  simp

theorem Stops.scanFraction {r : List Char} (hr : Stops r) : Json.scanFraction r = ([], r) := by
  unfold Json.scanFraction
  split
  · next rest => exact absurd (hr '.' rest rfl) (by decide)
  · rfl

theorem Stops.scanExponent {r : List Char} (hr : Stops r) : Json.scanExponent r = ([], r) := by
  cases r with
  | nil => rfl
  | cons e rest =>
      have hmem := hr e rest rfl
      refine if_neg ?_
      rintro ⟨he, -⟩
      rcases he with rfl | rfl <;> exact absurd hmem (by decide)

/-- Only zero begins with a zero. -/
theorem toDigits_head {n : ℕ} {ds : List Char} (h : Nat.toDigits 10 n = '0' :: ds) : ds = [] := by
  induction n using Nat.strong_induction_on generalizing ds with
  | _ n ih =>
    by_cases hn : n < 10
    · rw [Nat.toDigits_of_lt_base hn] at h
      exact (List.cons.inj h).2.symm
    · rw [Nat.toDigits_of_base_le (by decide) (by omega)] at h
      obtain ⟨c, cs, hc⟩ := List.exists_cons_of_ne_nil (Nat.toDigits_ne_nil (n := n / 10) (b := 10))
      rw [hc, List.cons_append] at h
      obtain ⟨rfl, -⟩ := List.cons.inj h
      obtain rfl := ih (n / 10) (by omega) hc
      have hvalue : n / 10 = 0 := by
        rw [← Nat.ofDigitChars_ten_toDigits (n := n / 10), hc]
        rfl
      omega

theorem scanNat_toDigits (n : ℕ) {r : List Char} (hr : Stops r) :
    scanNat (Nat.toDigits 10 n ++ r) = some (Nat.toDigits 10 n, r) := by
  have hdigits : ∀ c ∈ Nat.toDigits 10 n, c.isDigit = true := fun c hc =>
    Nat.isDigit_of_mem_toDigits (by decide) (by decide) hc
  obtain ⟨htake, hdrop⟩ := hr.takeWhile_append hdigits
  have hne : Nat.toDigits 10 n ≠ [] := Nat.toDigits_ne_nil
  unfold scanNat
  split
  · next rest hzero =>
    obtain ⟨c, ds, hds⟩ := List.exists_cons_of_ne_nil hne
    rw [hds, List.cons_append] at hzero
    obtain ⟨rfl, hrest⟩ := List.cons.inj hzero
    obtain rfl := toDigits_head hds
    rw [hds, ← hrest]
    rfl
  · rw [htake, hdrop, if_neg hne]

theorem scanUnsigned_toDigits (negative : Bool) (n : ℕ) {r : List Char} (hr : Stops r) :
    scanUnsigned negative (Nat.toDigits 10 n ++ r) = some (.int (if negative then -(n : ℤ) else n), r) := by
  unfold scanUnsigned
  rw [scanNat_toDigits n hr, Option.map_some]
  simp only [hr.scanFraction, hr.scanExponent, and_self, if_true, Nat.ofDigitChars_ten_toDigits]

/-- No constant begins with a digit, or with a sign and a digit. -/
theorem constants_find?_digit {d : Char} {cs : List Char} (hd : d.isDigit = true) :
    (constants.find? fun w => w.1.toList.isPrefixOf (d :: cs)) = none ∧
      (constants.find? fun w => w.1.toList.isPrefixOf ('-' :: d :: cs)) = none := by
  have hne : ∀ c : Char, c.isDigit = false → (c == d) = false := by
    intro c hc
    rw [beq_eq_false_iff_ne]
    rintro rfl
    rw [hc] at hd
    exact Bool.false_ne_true hd
  have hn := hne 'n' rfl
  have ht := hne 't' rfl
  have hf := hne 'f' rfl
  have hN := hne 'N' rfl
  have hI := hne 'I' rfl
  have hminus := hne '-' rfl
  constructor
  · simp [constants, List.isPrefixOf, hn, ht, hf, hN, hI, hminus]
  · simp [constants, List.isPrefixOf, hI]

theorem scanAtom_int (n : ℤ) {r : List Char} (hr : Stops r) :
    scanAtom (chars (int n) ++ r) = some (int n, r) := by
  have hhead : ∀ m : ℕ, ∃ d ds, Nat.toDigits 10 m = d :: ds ∧ d.isDigit = true := by
    intro m
    obtain ⟨d, ds, hds⟩ := List.exists_cons_of_ne_nil (Nat.toDigits_ne_nil (n := m) (b := 10))
    exact ⟨d, ds, hds, Nat.isDigit_of_mem_toDigits (by decide) (by decide) (hds ▸ List.mem_cons_self)⟩
  rw [chars_int]
  split
  · next hpos =>
    obtain ⟨d, ds, hds, hd⟩ := hhead n.toNat
    have hscan := scanUnsigned_toDigits false n.toNat hr
    rw [hds, List.cons_append] at hscan ⊢
    have hsign : d ≠ '-' := by
      rintro rfl
      exact absurd hd (by decide)
    rw [scanAtom, (constants_find?_digit hd).1]
    show scanNumber (d :: (ds ++ r)) = _
    rw [scanNumber]
    · rw [hscan, if_neg Bool.false_ne_true, Int.toNat_of_nonneg hpos]
    · rintro rest heq
      exact hsign (List.cons.inj heq).1
  · next hneg =>
    obtain ⟨d, ds, hds, hd⟩ := hhead (-n).toNat
    have hscan := scanUnsigned_toDigits true (-n).toNat hr
    rw [hds, List.cons_append] at hscan
    rw [hds, List.cons_append, List.cons_append, scanAtom, (constants_find?_digit hd).2]
    show scanUnsigned true (d :: (ds ++ r)) = _
    have hvalue : -((-n).toNat : ℤ) = n := by omega
    rw [hscan, if_pos rfl, hvalue]

theorem scanAtom_null (r : List Char) : scanAtom (chars null ++ r) = some (null, r) := rfl

theorem scanAtom_bool (b : Bool) (r : List Char) : scanAtom (chars (bool b) ++ r) = some (bool b, r) := by
  cases b with
  | true => rfl
  | false => rfl

/-! ### Dictionaries -/

theorem setEntry_new {kvs : List (String × Json)} {kv : String × Json}
    (h : kv.1 ∉ kvs.map Prod.fst) : setEntry kvs kv = kvs ++ [kv] := by
  unfold setEntry
  rw [if_neg]
  intro hany
  obtain ⟨x, hx, heq⟩ := List.any_eq_true.mp hany
  exact h (List.mem_map.mpr ⟨x, hx, of_decide_eq_true heq⟩)

/-- Entries without a repeated key are a dictionary as they stand. -/
theorem dictOf_nodup {kvs : List (String × Json)} (h : (kvs.map Prod.fst).Nodup) : dictOf kvs = kvs := by
  have hfold : ∀ (ys xs : List (String × Json)), ((xs ++ ys).map Prod.fst).Nodup →
      ys.foldl setEntry xs = xs ++ ys := by
    intro ys
    induction ys with
    | nil => simp
    | cons y ys ih =>
        intro xs hnodup
        have hnew : y.1 ∉ xs.map Prod.fst := by
          rw [List.map_append, List.map_cons, List.nodup_append] at hnodup
          intro hmem
          exact hnodup.2.2 y.1 hmem y.1 List.mem_cons_self rfl
        rw [List.foldl_cons, setEntry_new hnew, ih _ (by simpa using hnodup), List.append_assoc]
        rfl
  exact hfold kvs [] h

/-! ### Values are read back -/

mutual

/-- There are no floats in the value, and no object repeats a key. -/
def Exact : Json → Prop
  | float _ => False
  | arr xs => ExactItems xs
  | obj kvs => (kvs.map Prod.fst).Nodup ∧ ExactEntries kvs
  | _ => True

def ExactItems : List Json → Prop
  | [] => True
  | x :: xs => Exact x ∧ ExactItems xs

def ExactEntries : List (String × Json) → Prop
  | [] => True
  | (_, v) :: kvs => Exact v ∧ ExactEntries kvs

end

mutual

theorem Exact.printed : ∀ {j : Json}, j.Exact → j.Printed
  | null, _ => trivial
  | bool _, _ => trivial
  | int _, _ => trivial
  | str _, _ => trivial
  | arr _, h => ExactItems.printed h
  | obj _, h => ExactEntries.printed h.2

theorem ExactItems.printed : ∀ {xs : List Json}, ExactItems xs → PrintedItems xs
  | [], _ => trivial
  | _ :: _, h => ⟨Exact.printed h.1, ExactItems.printed h.2⟩

theorem ExactEntries.printed : ∀ {kvs : List (String × Json)}, ExactEntries kvs → PrintedEntries kvs
  | [], _ => trivial
  | _ :: _, h => ⟨Exact.printed h.1, ExactEntries.printed h.2⟩

end

theorem skipBlanks_cons {c : Char} {cs : List Char} (hc : isBlank c = false) :
    skipBlanks (c :: cs) = c :: cs := by
  rw [skipBlanks, List.dropWhile_cons, hc, if_neg Bool.false_ne_true]

theorem ne_of_mem_int {n : ℤ} {c b : Char} (h : c ∈ chars (int n)) (hdigit : b.isDigit = false)
    (hdash : b ≠ '-') : c ≠ b := by
  rintro rfl
  rcases mem_chars_int h with hc | rfl
  · rw [hdigit] at hc
    exact Bool.false_ne_true hc
  · exact hdash rfl

/-- A value begins with a character that is not skipped. -/
theorem chars_head_solid {j : Json} (h : j.Exact) :
    ∃ c cs, chars j = c :: cs ∧ isBlank c = false ∧ c ≠ ']' ∧ c ≠ bom := by
  obtain ⟨c, cs, hc, -, hdelim⟩ := chars_head h.printed
  have hsolid : isBlank c = false ∧ c ≠ bom := by
    have hmem : c ∈ chars j := hc ▸ List.mem_cons_self
    cases j with
    | null =>
        obtain ⟨rfl, -⟩ := List.cons.inj hc
        exact ⟨rfl, by decide⟩
    | bool b =>
        cases b with
        | true =>
            obtain ⟨rfl, -⟩ := List.cons.inj hc
            exact ⟨rfl, by decide⟩
        | false =>
            obtain ⟨rfl, -⟩ := List.cons.inj hc
            exact ⟨rfl, by decide⟩
    | int n =>
        have hne := fun b hb hd => ne_of_mem_int (b := b) hmem hb hd
        refine ⟨?_, hne bom rfl (by decide)⟩
        simp [isBlank, hne ' ' rfl (by decide), hne '\t' rfl (by decide), hne '\n' rfl (by decide),
          hne '\r' rfl (by decide)]
    | float r => exact absurd h id
    | str s =>
        rw [chars] at hc
        obtain ⟨rfl, -⟩ := List.cons.inj hc
        exact ⟨rfl, by decide⟩
    | arr xs =>
        rw [chars] at hc
        obtain ⟨rfl, -⟩ := List.cons.inj hc
        exact ⟨rfl, by decide⟩
    | obj kvs =>
        rw [chars] at hc
        obtain ⟨rfl, -⟩ := List.cons.inj hc
        exact ⟨rfl, by decide⟩
  exact ⟨c, cs, hc, hsolid.1, fun heq => hdelim (by simp [heq]), hsolid.2⟩

theorem parseValue_atom {j : Json} (ha : j.kind = .atom) (h : j.Exact) {n : ℕ} {r : List Char} :
    parseValue (n + 1) (chars j ++ r) = scanAtom (chars j ++ r) := by
  obtain ⟨c, cs, hc, hkind, -⟩ := chars_head h.printed
  rw [ha] at hkind
  have hquote : c ≠ '"' := by
    rintro rfl
    exact absurd hkind (by decide)
  have hbracket : c ≠ '[' := by
    rintro rfl
    exact absurd hkind (by decide)
  have hbrace : c ≠ '\x7b' := by
    rintro rfl
    exact absurd hkind (by decide)
  rw [hc, List.cons_append, parseValue]
  · rintro r' heq
    exact hquote (List.cons.inj heq).1
  · rintro r' heq
    exact hbracket (List.cons.inj heq).1
  · rintro r' heq
    exact hbrace (List.cons.inj heq).1

theorem parseValue_str (s : String) (n : ℕ) (r : List Char) :
    parseValue (n + 1) (chars (str s) ++ r) = some (str s, r) := by
  have htext : chars (str s) ++ r = '"' :: (escape s ++ '"' :: r) := by
    simp [chars, quote]
  rw [htext, parseValue, scanString_quote, Option.map_some]
  dsimp only
  rw [String.ofList_toList]

theorem length_charsItems_cons (x : Json) (xs : List Json) :
    (charsItems (x :: xs)).length = (chars x).length + (charsRest xs).length := by
  rw [charsItems_cons, List.length_append]

theorem length_charsEntries_cons (k : String) (v : Json) (kvs : List (String × Json)) :
    (charsEntries ((k, v) :: kvs)).length =
      (quote k).length + 1 + (chars v).length + (charsMore kvs).length := by
  rw [charsEntries_cons, List.length_append, List.length_cons, List.length_append]
  omega

/-- The elements of a list begin with a character that is not skipped. -/
theorem skipBlanks_items {x : Json} (h : x.Exact) (xs : List Json) (r : List Char) :
    skipBlanks (charsItems (x :: xs) ++ r) = charsItems (x :: xs) ++ r ∧
      (charsItems (x :: xs) ++ r).head? ≠ some ']' := by
  obtain ⟨c, cs, hc, hblank, hne, -⟩ := chars_head_solid h
  rw [charsItems_cons, hc]
  exact ⟨skipBlanks_cons hblank, fun heq => hne (Option.some.inj heq)⟩

theorem skipBlanks_entries (k : String) (v : Json) (kvs : List (String × Json)) (r : List Char) :
    skipBlanks (charsEntries ((k, v) :: kvs) ++ r) = charsEntries ((k, v) :: kvs) ++ r ∧
      (charsEntries ((k, v) :: kvs) ++ r).head? ≠ some '\x7d' := by
  rw [charsEntries_cons, quote]
  exact ⟨skipBlanks_cons rfl, by simp⟩

mutual

/-- **A value that is written is read back**, with the text that follows it left over. -/
theorem parseValue_chars : ∀ {j : Json} {r : List Char} {n : ℕ}, j.Exact → Stops r →
    (chars j).length < n → parseValue n (chars j ++ r) = some (j, r)
  | null, r, n, h, _, hn => by
    obtain ⟨m, rfl⟩ := Nat.exists_eq_succ_of_ne_zero (by omega : n ≠ 0)
    rw [parseValue_atom rfl h, scanAtom_null]
  | bool b, r, n, h, _, hn => by
    obtain ⟨m, rfl⟩ := Nat.exists_eq_succ_of_ne_zero (by omega : n ≠ 0)
    rw [parseValue_atom rfl h, scanAtom_bool]
  | int i, r, n, h, hr, hn => by
    obtain ⟨m, rfl⟩ := Nat.exists_eq_succ_of_ne_zero (by omega : n ≠ 0)
    rw [parseValue_atom rfl h, scanAtom_int i hr]
  | str s, r, n, _, _, hn => by
    obtain ⟨m, rfl⟩ := Nat.exists_eq_succ_of_ne_zero (by omega : n ≠ 0)
    exact parseValue_str s m r
  | arr [], r, n, _, _, hn => by
    obtain ⟨m, rfl⟩ := Nat.exists_eq_succ_of_ne_zero (by omega : n ≠ 0)
    rfl
  | arr (x :: xs), r, n, h, _, hn => by
    obtain ⟨m, rfl⟩ := Nat.exists_eq_succ_of_ne_zero (by omega : n ≠ 0)
    have htext : chars (arr (x :: xs)) ++ r = '[' :: (charsItems (x :: xs) ++ ']' :: r) := by
      simp [chars]
    have hlength : (charsItems (x :: xs)).length + 1 < m := by
      rw [chars, List.length_cons, List.length_append, List.length_singleton] at hn
      omega
    obtain ⟨hskip, hhead⟩ := skipBlanks_items h.1 xs (']' :: r)
    rw [htext, parseValue, hskip, if_neg hhead, parseItems_chars (List.cons_ne_nil x xs) h hlength, Option.map_some]
  | obj [], r, n, _, _, hn => by
    obtain ⟨m, rfl⟩ := Nat.exists_eq_succ_of_ne_zero (by omega : n ≠ 0)
    rfl
  | obj ((k, v) :: kvs), r, n, h, _, hn => by
    obtain ⟨m, rfl⟩ := Nat.exists_eq_succ_of_ne_zero (by omega : n ≠ 0)
    have htext : chars (obj ((k, v) :: kvs)) ++ r =
        '\x7b' :: (charsEntries ((k, v) :: kvs) ++ '\x7d' :: r) := by
      simp [chars]
    have hlength : (charsEntries ((k, v) :: kvs)).length + 1 < m := by
      rw [chars, List.length_cons, List.length_append, List.length_singleton] at hn
      omega
    obtain ⟨hskip, hhead⟩ := skipBlanks_entries k v kvs ('\x7d' :: r)
    rw [htext, parseValue, hskip, if_neg hhead, parseEntries_chars (List.cons_ne_nil _ _) h.2 hlength, Option.map_some]
    dsimp only
    rw [dictOf_nodup h.1]

theorem parseItems_chars : ∀ {xs : List Json} {r : List Char} {n : ℕ}, xs ≠ [] → ExactItems xs →
    (charsItems xs).length + 1 < n → parseItems n (charsItems xs ++ ']' :: r) = some (xs, r)
  | [], _, _, hne, _, _ => absurd rfl hne
  | [x], r, n, _, h, hn => by
    obtain ⟨m, rfl⟩ := Nat.exists_eq_succ_of_ne_zero (by omega : n ≠ 0)
    have hx : parseValue m (chars x ++ ']' :: r) = some (x, ']' :: r) :=
      parseValue_chars h.1 (stops_rest [] r) (by rw [length_charsItems_cons] at hn; omega)
    rw [charsItems, parseItems, hx]
    rfl
  | x :: y :: ys, r, n, _, h, hn => by
    obtain ⟨m, rfl⟩ := Nat.exists_eq_succ_of_ne_zero (by omega : n ≠ 0)
    rw [length_charsItems_cons, charsRest, List.length_cons] at hn
    have hx : parseValue m (chars x ++ (charsRest (y :: ys) ++ ']' :: r)) =
        some (x, charsRest (y :: ys) ++ ']' :: r) :=
      parseValue_chars h.1 (stops_rest (y :: ys) r) (by omega)
    have hrest := parseItems_chars (r := r) (n := m) (List.cons_ne_nil y ys) h.2 (by omega)
    have hskip := (skipBlanks_items h.2.1 ys (']' :: r)).1
    rw [charsItems_cons, List.append_assoc, parseItems, hx]
    show Option.map _ (parseItems m (skipBlanks (charsItems (y :: ys) ++ ']' :: r))) = _
    rw [hskip, hrest, Option.map_some]

theorem parseEntries_chars : ∀ {kvs : List (String × Json)} {r : List Char} {n : ℕ}, kvs ≠ [] →
    ExactEntries kvs → (charsEntries kvs).length + 1 < n →
      parseEntries n (charsEntries kvs ++ '\x7d' :: r) = some (kvs, r)
  | [], _, _, hne, _, _ => absurd rfl hne
  | (k, v) :: kvs, r, n, _, h, hn => by
    obtain ⟨m, rfl⟩ := Nat.exists_eq_succ_of_ne_zero (by omega : n ≠ 0)
    rw [length_charsEntries_cons] at hn
    have hv : parseValue m (chars v ++ (charsMore kvs ++ '\x7d' :: r)) =
        some (v, charsMore kvs ++ '\x7d' :: r) :=
      parseValue_chars h.1 (stops_more kvs r) (by omega)
    obtain ⟨c, cs, hc, hblank, -⟩ := chars_head_solid h.1
    have hskip : skipBlanks (chars v ++ (charsMore kvs ++ '\x7d' :: r)) =
        chars v ++ (charsMore kvs ++ '\x7d' :: r) := by
      rw [hc]
      exact skipBlanks_cons hblank
    have hcolon : skipBlanks (':' :: (chars v ++ (charsMore kvs ++ '\x7d' :: r))) =
        ':' :: (chars v ++ (charsMore kvs ++ '\x7d' :: r)) := skipBlanks_cons rfl
    have htext : charsEntries ((k, v) :: kvs) ++ '\x7d' :: r =
        '"' :: (escape k ++ '"' :: ':' :: (chars v ++ (charsMore kvs ++ '\x7d' :: r))) := by
      simp [charsEntries_cons, quote]
    rw [htext, parseEntries, scanString_quote]
    simp only [hcolon, hskip, hv, String.ofList_toList]
    cases kvs with
    | nil => rfl
    | cons kv kvs =>
        obtain ⟨k', v'⟩ := kv
        rw [charsMore, List.length_cons] at hn
        have hrest := parseEntries_chars (r := r) (n := m) (List.cons_ne_nil (k', v') kvs) h.2 (by omega)
        have hskip' := (skipBlanks_entries k' v' kvs ('\x7d' :: r)).1
        show Option.map _ (parseEntries m (skipBlanks (charsEntries ((k', v') :: kvs) ++ '\x7d' :: r))) = _
        rw [hskip', hrest, Option.map_some]

end

/-- **What `dumps` writes is read back.** -/
theorem loads_dumps {j : Json} (h : j.Exact) : loads (dumps j) = some j := by
  obtain ⟨c, cs, hc, hblank, -, hbom⟩ := chars_head_solid h
  have htext : (dumps j).toList = chars j := String.toList_ofList
  have hparse := parseValue_chars (r := []) (n := (chars j).length + 1) h (fun _ _ hnil => by simp at hnil)
    (Nat.lt_succ_self _)
  rw [List.append_nil] at hparse
  have hskip : skipBlanks (chars j) = chars j := by
    rw [hc]
    exact skipBlanks_cons hblank
  unfold loads
  rw [htext, hskip, if_neg, hparse]
  · rfl
  · rw [hc]
    exact fun heq => hbom (Option.some.inj heq)

/-! ### Texts in ASCII -/

/-- Four hexadecimal digits. -/
def hexDigits (n : ℕ) : List Char :=
  [Nat.digitChar (n / 4096 % 16), Nat.digitChar (n / 256 % 16), Nat.digitChar (n / 16 % 16),
    Nat.digitChar (n % 16)]

/-- A character that is printable in ASCII, or its escape by the numbers of its UTF-16 units. -/
def asciiChar (c : Char) : List Char :=
  if 32 ≤ c.toNat ∧ c.toNat < 127 then [c]
  else if c.toNat < 0x10000 then '\\' :: 'u' :: hexDigits c.toNat
  else
    '\\' :: 'u' :: hexDigits (0xD800 + (c.toNat - 0x10000) / 0x400) ++
      '\\' :: 'u' :: hexDigits (0xDC00 + (c.toNat - 0x10000) % 0x400)

/-- `json.dumps` with compact separators: only strings contain what is escaped here. -/
def dumpsAscii (j : Json) : String := String.ofList (j.chars.flatMap asciiChar)

/-- A character of printable ASCII. -/
def Printable (c : Char) : Prop := 32 ≤ c.toNat ∧ c.toNat < 127

instance : DecidablePred Printable := fun _ => inferInstanceAs (Decidable (_ ∧ _))

theorem printable_escapeChar {c : Char} (hc : Printable c) : ∀ d ∈ escapeChar c, Printable d := by
  have hsmall : ∀ n : ℕ, n < 32 → c.toNat ≠ n := fun n hn heq => by
    have := hc.1
    omega
  have hn : c ≠ '\n' := fun heq => hsmall 10 (by decide) (by rw [heq]; rfl)
  have hr : c ≠ '\r' := fun heq => hsmall 13 (by decide) (by rw [heq]; rfl)
  have ht : c ≠ '\t' := fun heq => hsmall 9 (by decide) (by rw [heq]; rfl)
  have hlow : ¬c.toNat < 32 := Nat.not_lt.mpr hc.1
  intro d hd
  unfold escapeChar at hd
  split at hd
  · rcases List.mem_pair.mp hd with rfl | rfl <;> exact ⟨by decide, by decide⟩
  · split at hd
    · rcases List.mem_pair.mp hd with rfl | rfl <;> exact ⟨by decide, by decide⟩
    · simp only [hsmall 8 (by decide), hsmall 12 (by decide), if_false, List.mem_singleton] at hd
      rw [hd]
      exact hc

theorem printable_quote {s : String} (hs : ∀ c ∈ s.toList, Printable c) : ∀ c ∈ quote s, Printable c := by
  intro c hc
  simp only [quote, escape, List.mem_cons, List.mem_append, List.mem_flatMap, List.not_mem_nil,
    or_false] at hc
  rcases hc with rfl | ⟨d, hd, hc⟩ | rfl
  · exact ⟨by decide, by decide⟩
  · exact printable_escapeChar (hs d hd) c hc
  · exact ⟨by decide, by decide⟩

theorem printable_int (n : ℤ) : ∀ c ∈ chars (int n), Printable c := by
  intro c hc
  rcases mem_chars_int hc with hdigit | rfl
  · simp only [Char.isDigit, Bool.and_eq_true, decide_eq_true_eq] at hdigit
    obtain ⟨hlow, hhigh⟩ := hdigit
    have hlow' : 48 ≤ c.toNat := hlow
    have hhigh' : c.toNat ≤ 57 := hhigh
    exact ⟨by omega, by omega⟩
  · exact ⟨by decide, by decide⟩

theorem dumpsAscii_eq {j : Json} (h : ∀ c ∈ j.chars, Printable c) : dumpsAscii j = dumps j := by
  have hall : j.chars.flatMap asciiChar = j.chars.flatMap fun c => [c] := by
    rw [List.flatMap_def, List.flatMap_def]
    congr 1
    exact List.map_congr_left fun c hc => if_pos (h c hc)
  rw [dumpsAscii, dumps, hall]
  simp

end Json
