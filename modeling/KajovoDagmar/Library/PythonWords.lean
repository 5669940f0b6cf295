import KajovoDagmar.Library.PythonText

/-! # Words of a text

`s.split()` gives the maximal stretches of a text without space.  Everything about them follows from one
equation: the words of a text with a space somewhere are the words before it and the words after it
(`words_append_space`).  A term without space occurs in a text exactly if it occurs in one of its words; a
term of two words occurs exactly if the text has two words with one space between them, of which the first
ends with the one and the second begins with the other. -/

namespace PythonText

/-- A word: not empty and without space. -/
def IsWord (w : List Char) : Prop := w ≠ [] ∧ ∀ c ∈ w, isSpace c = false

/-- The two words stand in the text with a single `' '` between them. -/
def Adjoin (t w₁ w₂ : List Char) : Prop :=
  ∃ l r, t = l ++ w₁ ++ ' ' :: (w₂ ++ r) ∧ IsWord w₁ ∧ IsWord w₂ ∧
    (∀ c ∈ l.getLast?, isSpace c = true) ∧ ∀ c ∈ r.head?, isSpace c = true

/-! ### The equation of words -/

/-- Words split at a space. -/
theorem words_append_space {c : Char} (hc : isSpace c = true) (x y cur : List Char) :
    words (x ++ c :: y) cur = words x cur ++ words y [] := by
  induction x generalizing cur with
  | nil =>
      rw [List.nil_append, words, words, if_pos hc]
      split <;> rfl
  | cons d x ih =>
      rw [List.cons_append, words, words]
      split
      · split
        · exact ih []
        · rw [ih [], List.cons_append]
      · exact ih (d :: cur)

theorem words_of_forall {w : List Char} (h : ∀ c ∈ w, isSpace c = false) (cur : List Char) :
    words w cur = if (cur.reverse ++ w).isEmpty then [] else [cur.reverse ++ w] := by
  induction w generalizing cur with
  | nil => simp [words]
  | cons c w ih =>
      have hc : isSpace c = false := h c List.mem_cons_self
      rw [words, if_neg (by simp [hc]), ih fun d hd => h d (List.mem_cons_of_mem c hd)]
      simp

theorem IsWord.words {w : List Char} (h : IsWord w) : words w [] = [w] := by
  rw [words_of_forall h.2, List.reverse_nil, List.nil_append, if_neg (by simp [h.1])]

/-- A text is a stretch without space, or such a stretch, a space and the rest. -/
theorem text_induction {P : List Char → Prop} (word : ∀ w, (∀ c ∈ w, isSpace c = false) → P w)
    (space : ∀ w c t, (∀ d ∈ w, isSpace d = false) → isSpace c = true → P t → P (w ++ c :: t)) (t : List Char) :
    P t := by
  have hrun : ∀ w, (∀ c ∈ w, isSpace c = false) → P (w ++ t) := by
    induction t with
    | nil => exact fun w hw => by rw [List.append_nil]; exact word w hw
    | cons c t ih =>
        intro w hw
        cases hc : isSpace c with
        | true => exact space w c t hw hc (ih [] (by simp))
        | false =>
            rw [List.append_cons]
            refine ih (w ++ [c]) fun d hd => ?_
            rcases List.mem_append.mp hd with hd | hd
            · exact hw d hd
            · rwa [List.mem_singleton.mp hd]
  exact hrun [] (by simp)

theorem isWord_of_mem_words {t w : List Char} (h : w ∈ words t []) : IsWord w := by
  induction t using text_induction with
  | word v hv =>
      rw [words_of_forall hv] at h
      split at h
      · simp at h
      · next hne =>
        rw [List.mem_singleton.mp h]
        exact ⟨by simpa using hne, hv⟩
  | space v c t hv hc ih =>
      rw [words_append_space hc, List.mem_append] at h
      rcases h with h | h
      · rw [words_of_forall hv] at h
        split at h
        · simp at h
        · next hne =>
          rw [List.mem_singleton.mp h]
          exact ⟨by simpa using hne, hv⟩
      · exact ih h

/-- A word of a text is a stretch of it. -/
theorem infix_of_mem_words {t w : List Char} (h : w ∈ words t []) : w <:+: t := by
  induction t using text_induction with
  | word v hv =>
      rw [words_of_forall hv] at h
      split at h
      · simp at h
      · rw [List.mem_singleton.mp h]
        exact List.infix_rfl
  | space v c t hv hc ih =>
      rw [words_append_space hc, List.mem_append] at h
      rcases h with h | h
      · rw [words_of_forall hv] at h
        split at h
        · simp at h
        · rw [List.mem_singleton.mp h]
          exact (List.prefix_append _ _).isInfix
      · exact (ih h).trans ((List.suffix_cons c t).isInfix.trans (List.suffix_append v _).isInfix)

/-! ### Stretches between spaces -/

/-- What follows a stretch without space: nothing or a space. -/
theorem words_append_of_boundary {w r : List Char} (hr : ∀ c ∈ r.head?, isSpace c = true) (cur : List Char) :
    words (w ++ r) cur = words w cur ++ words r [] := by
  cases r with
  | nil => simp [words]
  | cons c r =>
      have hc : isSpace c = true := hr c rfl
      rw [words_append_space hc, words, if_pos hc]
      rfl

theorem words_append_of_last {l t : List Char} (hl : ∀ c ∈ l.getLast?, isSpace c = true) :
    words (l ++ t) [] = words l [] ++ words t [] := by
  rcases List.eq_nil_or_concat' l with rfl | ⟨l, c, rfl⟩
  · simp [words]
  · have hc : isSpace c = true := hl c (by simp)
    rw [List.append_assoc, List.singleton_append, words_append_space hc, words_append_space hc]
    simp [words]

/-- Words with one space between them follow on each other. -/
theorem Adjoin.words {t w₁ w₂ : List Char} (h : Adjoin t w₁ w₂) : [w₁, w₂] <:+: words t [] := by
  obtain ⟨l, r, rfl, h₁, h₂, hl, hr⟩ := h
  refine ⟨PythonText.words l [], PythonText.words r [], ?_⟩
  rw [List.append_assoc l, words_append_of_last hl, words_append_space rfl, words_append_of_boundary hr, h₁.words,
    h₂.words]
  simp

/-- The stretch around a term that holds no space. -/
theorem exists_left (l : List Char) : ∃ l' p, l = l' ++ p ∧ (∀ c ∈ p, isSpace c = false) ∧
    ∀ c ∈ l'.getLast?, isSpace c = true := by
  induction l using List.reverseRecOn with
  | nil => exact ⟨[], [], rfl, by simp, by simp⟩
  | append_singleton l c ih =>
      cases hc : isSpace c with
      | true => exact ⟨l ++ [c], [], by simp, by simp, by simp [hc]⟩
      | false =>
          obtain ⟨l', p, rfl, hp, hl'⟩ := ih
          refine ⟨l', p ++ [c], by simp, fun d hd => ?_, hl'⟩
          rcases List.mem_append.mp hd with hd | hd
          · exact hp d hd
          · rwa [List.mem_singleton.mp hd]

theorem exists_right (r : List Char) : ∃ p r', r = p ++ r' ∧ (∀ c ∈ p, isSpace c = false) ∧
    ∀ c ∈ r'.head?, isSpace c = true := by
  induction r with
  | nil => exact ⟨[], [], rfl, by simp, by simp⟩
  | cons c r ih =>
      cases hc : isSpace c with
      | true => exact ⟨[], c :: r, rfl, by simp, by simp [hc]⟩
      | false =>
          obtain ⟨p, r', rfl, hp, hr'⟩ := ih
          refine ⟨c :: p, r', rfl, fun d hd => ?_, hr'⟩
          rcases List.mem_cons.mp hd with rfl | hd
          · exact hc
          · exact hp d hd

theorem IsWord.extend {w p q : List Char} (h : IsWord w) (hp : ∀ c ∈ p, isSpace c = false)
    (hq : ∀ c ∈ q, isSpace c = false) : IsWord (p ++ w ++ q) := by
  refine ⟨by simp [h.1], fun c hc => ?_⟩
  rcases List.mem_append.mp hc with hc | hc
  · rcases List.mem_append.mp hc with hc | hc
    · exact hp c hc
    · exact h.2 c hc
  · exact hq c hc

/-! ### Terms in a text -/

/-- A term without space occurs in a text exactly if it occurs in a word of it. -/
theorem infix_iff_of_isWord {term t : List Char} (h : IsWord term) :
    term <:+: t ↔ ∃ w ∈ words t [], term <:+: w := by
  constructor
  · rintro ⟨l, r, rfl⟩
    obtain ⟨l', p, rfl, hp, hl'⟩ := exists_left l
    obtain ⟨q, r', rfl, hq, hr'⟩ := exists_right r
    refine ⟨p ++ term ++ q, ?_, p, q, rfl⟩
    have hword : words (p ++ term ++ q) [] = [p ++ term ++ q] := (h.extend hp hq).words
    have hsplit : l' ++ p ++ term ++ (q ++ r') = l' ++ ((p ++ term ++ q) ++ r') := by simp
    rw [hsplit, words_append_of_last hl', words_append_of_boundary hr', hword]
    simp
  · rintro ⟨w, hw, hterm⟩
    exact hterm.trans (infix_of_mem_words hw)

/-- A term of two words occurs exactly where a single space stands between two words of the text. -/
theorem infix_iff_of_isWord_isWord {u v t : List Char} (hu : IsWord u) (hv : IsWord v) :
    u ++ ' ' :: v <:+: t ↔ ∃ w₁ w₂, Adjoin t w₁ w₂ ∧ u <:+ w₁ ∧ v <+: w₂ := by
  constructor
  · rintro ⟨l, r, rfl⟩
    obtain ⟨l', p, rfl, hp, hl'⟩ := exists_left l
    obtain ⟨q, r', rfl, hq, hr'⟩ := exists_right r
    have h₁ : IsWord (p ++ u ++ []) := hu.extend hp (by simp)
    have h₂ : IsWord ([] ++ v ++ q) := hv.extend (by simp) hq
    rw [List.append_nil] at h₁
    rw [List.nil_append] at h₂
    exact ⟨p ++ u, v ++ q, ⟨l', r', by simp, h₁, h₂, hl', hr'⟩, List.suffix_append _ _, List.prefix_append _ _⟩
  · rintro ⟨w₁, w₂, ⟨l, r, rfl, -⟩, ⟨p, rfl⟩, ⟨q, rfl⟩⟩
    exact ⟨l ++ p, q ++ r, by simp⟩

/-! ### Joined words -/

/-- The words of joined words are these. -/
theorem words_intercalate {ws : List (List Char)} (h : ∀ w ∈ ws, IsWord w) :
    words (List.intercalate [' '] ws) [] = ws := by
  induction ws with
  | nil => rfl
  | cons w ws ih =>
      have hw : IsWord w := h w List.mem_cons_self
      have hws : words (List.intercalate [' '] ws) [] = ws := ih fun v hv => h v (List.mem_cons_of_mem w hv)
      cases ws with
      | nil => simpa using hw.words
      | cons v ws =>
          rw [List.intercalate_cons_cons, List.append_assoc, List.singleton_append, words_append_space rfl, hw.words,
            hws]
          rfl

/-- Words that follow on each other have one space between them when the words are joined. -/
theorem adjoin_intercalate {ws : List (List Char)} (hwords : ∀ w ∈ ws, IsWord w) {w₁ w₂ : List Char}
    (h : [w₁, w₂] <:+: ws) : Adjoin (List.intercalate [' '] ws) w₁ w₂ := by
  obtain ⟨before, after, rfl⟩ := h
  have h₁ : IsWord w₁ := hwords w₁ (by simp)
  have h₂ : IsWord w₂ := hwords w₂ (by simp)
  clear hwords
  rw [List.append_assoc]
  induction before with
  | nil =>
      rw [List.nil_append, List.cons_append, List.cons_append, List.nil_append, List.intercalate_cons_cons]
      cases after with
      | nil => exact ⟨[], [], by simp, h₁, h₂, by simp, by simp⟩
      | cons w after =>
          rw [List.intercalate_cons_cons]
          refine ⟨[], ' ' :: List.intercalate [' '] (w :: after), by simp, h₁, h₂, by simp, fun c hc => ?_⟩
          obtain rfl : ' ' = c := Option.some.inj hc
          rfl
  | cons w before ih =>
      obtain ⟨l, r, hjoined, -, -, hl, hr⟩ := ih
      obtain ⟨v, rest, hrest⟩ : ∃ v rest, before ++ ([w₁, w₂] ++ after) = v :: rest :=
        List.exists_cons_of_ne_nil (by simp)
      rw [List.cons_append, hrest, List.intercalate_cons_cons, ← hrest, hjoined]
      refine ⟨w ++ ' ' :: l, r, by simp, h₁, h₂, fun c hc => ?_, hr⟩
      cases l with
      | nil =>
          obtain rfl : ' ' = c := by simpa using hc
          rfl
      | cons d l => exact hl c (by simpa using hc)

/-- Texts that are joined alike have the same words. -/
theorem split_unwords_split (s : String) : split (unwords (split s)) = split s := by
  have hmap : (split s).map String.toList = words s.toList [] := by
    rw [split, List.map_map]
    exact (List.map_congr_left fun w _ => String.toList_ofList).trans (List.map_id _)
  have hjoined : (unwords (split s)).toList = List.intercalate [' '] (words s.toList []) := by
    rw [unwords, String.toList_ofList, hmap]
  rw [split, hjoined, words_intercalate fun w hw => isWord_of_mem_words hw, split]

end PythonText
