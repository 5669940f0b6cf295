import KajovoDagmar.Db.Sample
import KajovoDagmar.Library.PythonWords
import KajovoDagmar.Memory.Effects

/-! # Spellings of a content

Two texts have the same content for the memory if they agree up to composition, letter case and space.  The
filter of secrets only folds letter case: a term of two words escapes it where these do not stand with one
`' '` between them, and a letter that composition changes may hide a term from it or make one.  Texts of one
content that are written plainly, with composed letters and one space inside of a term, are filtered alike
(`respects_of_plainly`). -/

namespace KajovoDagmar

section spellings

variable (rt : Runtime)

/-- The secret terms, each as its words. -/
def secretWords : List (List (List Char)) := secretTerms.map fun term => PythonText.words term.toList []

/-- A secret term of one word stands in one of the words. -/
def WordAmong (ws : List (List Char)) : Prop := ∃ term, [term] ∈ secretWords ∧ ∃ w ∈ ws, term <:+: w

/-- The words of a secret term end a word and begin the next. -/
def PairAmong (ws : List (List Char)) : Prop :=
  ∃ u v, [u, v] ∈ secretWords ∧ ∃ w₁ w₂, [w₁, w₂] <:+: ws ∧ u <:+ w₁ ∧ v <+: w₂

/-- The words of a secret term end a word and begin the next, after one `' '`. -/
def PairSpaced (t : List Char) : Prop :=
  ∃ u v, [u, v] ∈ secretWords ∧ ∃ w₁ w₂, PythonText.Adjoin t w₁ w₂ ∧ u <:+ w₁ ∧ v <+: w₂

/-- The words of the content of a text. -/
def contentWords (value : String) : List (List Char) :=
  PythonText.words (rt.casefold (rt.nfc value)).toList []

/-- The words of the text as it is written, but for letter case. -/
def writtenWords (value : String) : List (List Char) := PythonText.words (rt.casefold value).toList []

/-- A term stands in the words, whatever is between them. -/
def TermAmong (ws : List (List Char)) : Prop := WordAmong ws ∨ PairAmong ws

/-- The text is written with composed letters and one space where its terms are. -/
structure WrittenPlainly (value : String) : Prop where
  /-- Composing the letters makes no term and unmakes none. -/
  composed : TermAmong (contentWords rt value) ↔ TermAmong (writtenWords rt value)
  /-- Where no other term is, the words of one meet with a single `' '` between them. -/
  spaced : PairAmong (writtenWords rt value) →
    WordAmong (writtenWords rt value) ∨ PairSpaced (rt.casefold value).toList

/-! ### What the filter finds -/

/-- Every secret term is one word, or two with a space between them. -/
theorem secretTerms_cases {term : String} (h : term ∈ secretTerms) :
    (PythonText.IsWord term.toList ∧ [term.toList] ∈ secretWords) ∨
    ∃ u v, term.toList = u ++ ' ' :: v ∧ PythonText.IsWord u ∧ PythonText.IsWord v ∧ [u, v] ∈ secretWords := by
  have hmem : PythonText.words term.toList [] ∈ secretWords := List.mem_map_of_mem h
  have hcases : ∀ term ∈ secretTerms, PythonText.words term.toList [] = [term.toList] ∨
      ∃ u ∈ PythonText.words term.toList [], ∃ v ∈ PythonText.words term.toList [],
        PythonText.words term.toList [] = [u, v] ∧ term.toList = u ++ ' ' :: v := by
    decide +kernel
  rcases hcases term h with hone | ⟨u, hu, v, hv, hwords, hterm⟩
  · rw [hone] at hmem
    exact .inl ⟨PythonText.isWord_of_mem_words (hone ▸ List.mem_singleton_self _), hmem⟩
  · rw [hwords] at hmem
    exact .inr ⟨u, v, hterm, PythonText.isWord_of_mem_words hu, PythonText.isWord_of_mem_words hv, hmem⟩

theorem exists_secretTerm {ws : List (List Char)} (h : ws ∈ secretWords) :
    ∃ term ∈ secretTerms, term.toList = List.intercalate [' '] ws ∧ ∀ w ∈ ws, PythonText.IsWord w := by
  obtain ⟨term, hterm, rfl⟩ := List.mem_map.mp h
  have hjoined : ∀ term ∈ secretTerms, term.toList = List.intercalate [' '] (PythonText.words term.toList []) := by
    decide +kernel
  exact ⟨term, hterm, hjoined term hterm, fun w hw => PythonText.isWord_of_mem_words hw⟩

/-- The filter finds a term in a word of the text or across one space. -/
theorem containsSecretInstruction_iff (value : String) : containsSecretInstruction rt value = true ↔
    WordAmong (writtenWords rt value) ∨ PairSpaced (rt.casefold value).toList := by
  unfold containsSecretInstruction PythonText.contains
  rw [List.any_eq_true]
  constructor
  · rintro ⟨term, hterm, hin⟩
    rw [decide_eq_true_eq] at hin
    rcases secretTerms_cases hterm with ⟨hword, hmem⟩ | ⟨u, v, hsplit, hu, hv, hmem⟩
    · exact .inl ⟨term.toList, hmem, (PythonText.infix_iff_of_isWord hword).mp hin⟩
    · rw [hsplit] at hin
      exact .inr ⟨u, v, hmem, (PythonText.infix_iff_of_isWord_isWord hu hv).mp hin⟩
  · rintro (⟨w, hmem, hin⟩ | ⟨u, v, hmem, hin⟩)
    · obtain ⟨term, hterm, hjoined, hwords⟩ := exists_secretTerm hmem
      have heq : term.toList = w := by rw [hjoined, List.intercalate_singleton]
      refine ⟨term, hterm, decide_eq_true ?_⟩
      rw [heq]
      exact (PythonText.infix_iff_of_isWord (hwords w (by simp))).mpr hin
    · obtain ⟨term, hterm, hjoined, hwords⟩ := exists_secretTerm hmem
      have heq : term.toList = u ++ ' ' :: v := by rw [hjoined, List.intercalate_cons_cons]; simp
      refine ⟨term, hterm, decide_eq_true ?_⟩
      rw [heq]
      exact (PythonText.infix_iff_of_isWord_isWord (hwords u (by simp)) (hwords v (by simp))).mpr hin

/-- Texts of one content have the same words. -/
theorem contentWords_eq {a b : String} (h : canonicalContent rt a = canonicalContent rt b) :
    contentWords rt a = contentWords rt b := by
  have hsplit := congrArg PythonText.split h
  unfold canonicalContent at hsplit
  rw [PythonText.split_unwords_split, PythonText.split_unwords_split] at hsplit
  exact List.map_injective_iff.mpr (fun _ _ => String.ofList_injective) hsplit

theorem PairSpaced.among {value : String} (h : PairSpaced (rt.casefold value).toList) :
    PairAmong (writtenWords rt value) := by
  obtain ⟨u, v, hmem, w₁, w₂, hadjoin, hu, hv⟩ := h
  exact ⟨u, v, hmem, w₁, w₂, hadjoin.words, hu, hv⟩

/-- In a text of composed letters only the space inside of a term matters. -/
theorem writtenPlainly_of_nfc {value : String} (h : rt.nfc value = value)
    (hspaced : PairAmong (writtenWords rt value) →
      WordAmong (writtenWords rt value) ∨ PairSpaced (rt.casefold value).toList) : WrittenPlainly rt value := by
  refine ⟨?_, hspaced⟩
  rw [contentWords, h, writtenWords]

/-- A text of composed letters with one space between its words is written plainly. -/
theorem writtenPlainly_of_joined {value : String} (h : rt.nfc value = value)
    (hjoined : (rt.casefold value).toList = List.intercalate [' '] (writtenWords rt value)) :
    WrittenPlainly rt value := by
  refine writtenPlainly_of_nfc rt h ?_
  rintro ⟨u, v, hmem, w₁, w₂, hin, hu, hv⟩
  refine .inr ⟨u, v, hmem, w₁, w₂, ?_, hu, hv⟩
  rw [hjoined]
  exact PythonText.adjoin_intercalate (fun w hw => PythonText.isWord_of_mem_words hw) hin

/-- In a text that is written plainly the filter finds the terms of the content. -/
theorem WrittenPlainly.containsSecretInstruction_iff {value : String} (h : WrittenPlainly rt value) :
    containsSecretInstruction rt value = true ↔ TermAmong (contentWords rt value) := by
  rw [KajovoDagmar.containsSecretInstruction_iff, h.composed]
  constructor
  · rintro (hword | hpair)
    · exact .inl hword
    · exact .inr (PairSpaced.among rt hpair)
  · rintro (hword | hpair)
    · exact .inl hword
    · exact h.spaced hpair

/-- A text whose terms the filter finds is written plainly, if its terms are terms of the content. -/
theorem writtenPlainly_of_containsSecretInstruction {value : String}
    (hfound : containsSecretInstruction rt value = true ↔ TermAmong (contentWords rt value))
    (hkept : TermAmong (writtenWords rt value) → TermAmong (contentWords rt value)) : WrittenPlainly rt value := by
  rw [KajovoDagmar.containsSecretInstruction_iff] at hfound
  refine ⟨⟨fun hterm => ?_, hkept⟩, fun hpair => hfound.mpr (hkept (.inr hpair))⟩
  rcases hfound.mpr hterm with hword | hpair
  · exact .inl hword
  · exact .inr (PairSpaced.among rt hpair)

end spellings

/-! ### Refused contents -/

namespace MemoryService

variable {rt : Runtime}

/-- The refusal of a secret. -/
def IsSecretRefusal (e : Exc) : Prop := ∃ d : DomainError, e = .domain d ∧ d.code = "secret_memory_forbidden"

/-- The content is refused as a secret. -/
def Refused (m : Work MemoryItem) (s : Session) : Prop := ∃ e s', m s = (.error e, s') ∧ IsSecretRefusal e

/-- The item is there, at the version that the request expects, and open to changes. -/
def Open (db : Db) (accountId memoryId : Uuid) (request : MemoryUpdate) : Prop :=
  ∃ item ∈ item? db accountId memoryId, item.version = request.expectedVersion.val ∧ item.state ≠ .deleted ∧
    item.state ≠ .merged

theorem not_isSecretRefusal_of_not_isDomain {e : Exc} (h : ¬e.IsDomain) : ¬IsSecretRefusal e := by
  rintro ⟨d, rfl, -⟩
  exact h (Exc.isDomain_domain d)

theorem not_isSecretRefusal_of_code {d : DomainError} (h : d.code ≠ "secret_memory_forbidden") :
    ¬IsSecretRefusal (.domain d) := by
  rintro ⟨d', heq, hcode⟩
  rw [← Exc.domain.inj heq] at hcode
  exact h hcode

theorem not_isSecretRefusal_duplicateOf (item : MemoryItem) : ¬IsSecretRefusal (duplicateOf rt item) :=
  not_isSecretRefusal_of_code (d := .conflict _ _) (show "conflict" ≠ "secret_memory_forbidden" by decide)

/-- Nothing is refused as a secret. -/
abbrev NoSecret {α : Type} (m : Work α) : Prop := Tx.RaisesOnly (fun e => ¬IsSecretRefusal e) m

theorem noSecret {α : Type} {m : Work α} (h : NoDomain m) : NoSecret m :=
  fun s e he => not_isSecretRefusal_of_not_isDomain (h s e he)

theorem NoSecret.not_refused {m : Work MemoryItem} (h : NoSecret m) (s : Session) : ¬Refused m s := by
  rintro ⟨e, s', hm, hsecret⟩
  exact h s e (by rw [hm]) hsecret

theorem checkValidity_noSecret (validFrom validUntil : Option DateTime) :
    NoSecret (checkValidity validFrom validUntil) := by
  intro s e h hsecret
  obtain ⟨d, rfl, hcode⟩ := hsecret
  have hrun : checkValidity validFrom validUntil s = (.error (.domain d), (checkValidity validFrom validUntil s).2) :=
    Prod.ext h rfl
  obtain ⟨hinverted, -⟩ := checkValidity_error hrun (Exc.isDomain_domain d)
  have hraised : (checkValidity validFrom validUntil s).1 = .error invalidValidity := by
    simp [checkValidity, Tx.bind_apply, hinverted]
  rw [hraised] at h
  obtain rfl := Exc.domain.inj (Except.error.inj h)
  exact absurd hcode (by decide)

/-- `create` refuses a content as a secret exactly if the filter finds a term in it. -/
theorem create_refused_iff {accountId : Uuid} {request : MemoryCreate} {context : AuditContext} {s : Session} :
    Refused (create rt accountId request context) s ↔
      containsSecretInstruction rt request.content.val = true := by
  constructor
  · intro hrefused
    by_contra hfree
    refine NoSecret.not_refused ?_ s hrefused
    refine Tx.RaisesOnly.bind ?_ fun _ => noSecret (insert_noDomain _ _ _)
    refine Tx.RaisesOnly.bind (Tx.RaisesOnly.raiseIf fun h => absurd h hfree) fun _ => ?_
    refine (checkValidity_noSecret _ _).bind fun _ => ?_
    refine (Tx.RaisesOnly.gets _).bind fun candidates => (Tx.RaisesOnly.gets _).bind fun legacy => ?_
    refine Tx.RaisesOnly.raiseSome fun e he => ?_
    obtain ⟨item, -, rfl⟩ := Option.map_eq_some_iff.mp he
    exact not_isSecretRefusal_duplicateOf item
  · intro hfound
    refine ⟨_, s, Tx.bind_of_error (Tx.raiseIf_bind_of_pos hfound _ _ s), ?_⟩
    exact ⟨_, rfl, rfl⟩

theorem updatedContent_error {db : Db} {accountId : Uuid} {item : MemoryItem} {request : MemoryUpdate} {e : Exc}
    (h : updatedContent rt db accountId item request = .error e) :
    IsSecretRefusal e ↔ ∃ content ∈ request.content, containsSecretInstruction rt content.val = true := by
  unfold updatedContent at h
  cases hcontent : request.content with
  | none => simp [hcontent] at h
  | some content =>
      simp only [hcontent] at h
      by_cases hfound : containsSecretInstruction rt content.val = true
      · rw [if_pos hfound] at h
        obtain rfl := Except.error.inj h
        exact iff_of_true ⟨_, rfl, rfl⟩ ⟨content, rfl, hfound⟩
      · rw [if_neg hfound] at h
        split at h
        · obtain rfl := Except.error.inj h
          refine iff_of_false (not_isSecretRefusal_duplicateOf _) ?_
          rintro ⟨content', hmem, hfound'⟩
          exact hfound (Option.some.inj hmem ▸ hfound')
        · simp at h

/-- The checks of `update` refuse a content as a secret only on an open item. -/
theorem checkUpdate_refused_iff {accountId memoryId : Uuid} {request : MemoryUpdate} {s : Session} :
    (∃ e, checkUpdate rt accountId memoryId request s = (.error e, s) ∧ IsSecretRefusal e) ↔
      Open s.db accountId memoryId request ∧
        ∃ content ∈ request.content, containsSecretInstruction rt content.val = true := by
  unfold checkUpdate lockItem versionGuard Open
  cases hf : item? s.db accountId memoryId with
  | none =>
      refine iff_of_false ?_ (by simp)
      rintro ⟨e, h, hsecret⟩
      obtain rfl : notFound = e := by simpa [Tx.bind_apply, hf] using h
      exact not_isSecretRefusal_of_code (by decide) hsecret
  | some item =>
      by_cases hv : item.version = request.expectedVersion.val
      · by_cases hs : item.state = .deleted ∨ item.state = .merged
        · refine iff_of_false ?_ ?_
          · rintro ⟨e, h, hsecret⟩
            obtain rfl : Exc.domain (.conflict "Odstraněnou nebo sloučenou položku nelze přímo upravit.") = e := by
              simpa [Tx.bind_apply, hf, hv, hs] using h
            exact not_isSecretRefusal_of_code (by decide) hsecret
          · rintro ⟨⟨item', hitem', -, hdeleted, hmerged⟩, -⟩
            obtain rfl := Option.some.inj hitem'
            exact hs.elim hdeleted hmerged
        · have hopen : ∃ item' ∈ some item, item'.version = request.expectedVersion.val ∧
              item'.state ≠ .deleted ∧ item'.state ≠ .merged := ⟨item, rfl, hv, not_or.mp hs⟩
          rw [and_iff_right hopen]
          cases hc : updatedContent rt s.db accountId item request with
          | error e =>
              rw [← updatedContent_error hc]
              simp [Tx.bind_apply, hf, hv, hs, hc]
          | ok content =>
              refine iff_of_false (by simp [Tx.bind_apply, hf, hv, hs, hc]) ?_
              rintro ⟨value, hvalue, hfound⟩
              simp [updatedContent, Option.mem_def.mp hvalue, hfound] at hc
      · refine iff_of_false ?_ ?_
        · rintro ⟨e, h, hsecret⟩
          obtain rfl : Exc.domain (.conflict "Paměťová položka byla mezitím změněna." (some (.obj
              [("expected_version", .int request.expectedVersion.val), ("actual_version", .int item.version)]))) =
              e := by
            simpa [Tx.bind_apply, hf, hv] using h
          exact not_isSecretRefusal_of_code (show "conflict" ≠ "secret_memory_forbidden" by decide) hsecret
        · rintro ⟨⟨item', hitem', hversion, -⟩, -⟩
          obtain rfl := Option.some.inj hitem'
          exact hv hversion

/-- `update` refuses a content as a secret exactly if the item is open and the filter finds a term. -/
theorem update_refused_iff {accountId memoryId : Uuid} {request : MemoryUpdate} {context : AuditContext}
    {s : Session} : Refused (update rt accountId memoryId request context) s ↔
      Open s.db accountId memoryId request ∧
        ∃ content ∈ request.content, containsSecretInstruction rt content.val = true := by
  rw [← checkUpdate_refused_iff]
  unfold Refused update
  rcases checkUpdate_spec rt accountId memoryId request s with ⟨e, hc, -⟩ | ⟨item, content, hc, -⟩
  · rw [Tx.bind_of_error hc, hc]
    simp
  · rw [Tx.bind_of_ok hc, hc]
    refine iff_of_false ?_ (by simp)
    have hrest : NoSecret (do
        store rt item (assign item request content)
        checkValidity (assign item request content).validFrom (assign item request content).validUntil
        finishUpdate rt accountId (assign item request content) context) :=
      (noSecret (store_noDomain _ _)).bind fun _ => (checkValidity_noSecret _ _).bind fun _ =>
        noSecret (finishUpdate_noDomain _ _ _)
    exact hrest.not_refused s

/-! ### Texts of one content -/

variable (rt)

/-- The filter, `create` and `update` treat both texts alike. -/
structure Respects (a b : String) : Prop where
  filter : containsSecretInstruction rt a = containsSecretInstruction rt b
  create : ∀ accountId context s, ∀ request request' : MemoryCreate, request.content.val = a →
    request'.content.val = b → (Refused (create rt accountId request context) s ↔
      Refused (MemoryService.create rt accountId request' context) s)
  update : ∀ accountId memoryId context s, ∀ request request' : MemoryUpdate,
    request.content.map Subtype.val = some a → request'.content.map Subtype.val = some b →
    request.expectedVersion = request'.expectedVersion →
    (Refused (update rt accountId memoryId request context) s ↔
      Refused (MemoryService.update rt accountId memoryId request' context) s)

variable {rt}

theorem exists_found_iff {request : MemoryUpdate} {a : String} (h : request.content.map Subtype.val = some a) :
    (∃ content ∈ request.content, containsSecretInstruction rt content.val = true) ↔
      containsSecretInstruction rt a = true := by
  obtain ⟨content, hcontent, rfl⟩ := Option.map_eq_some_iff.mp h
  rw [hcontent]
  simp

/-- What the filter says of the texts decides. -/
theorem respects_of_filter {a b : String} (h : containsSecretInstruction rt a = containsSecretInstruction rt b) :
    Respects rt a b := by
  refine ⟨h, ?_, ?_⟩
  · intro accountId context s request request' ha hb
    rw [create_refused_iff, create_refused_iff, ha, hb, h]
  · intro accountId memoryId context s request request' ha hb hversion
    rw [update_refused_iff, update_refused_iff, exists_found_iff ha, exists_found_iff hb, h]
    unfold Open
    rw [hversion]

/-- **Texts of one content are treated alike** if both are written plainly.  Beside a text that is, one whose terms
are terms of its content is treated alike only then. -/
theorem respects_of_plainly {a b : String} (h : canonicalContent rt a = canonicalContent rt b)
    (hb : WrittenPlainly rt b) : (WrittenPlainly rt a → Respects rt a b) ∧
      (Respects rt a b → (TermAmong (writtenWords rt a) → TermAmong (contentWords rt a)) → WrittenPlainly rt a) := by
  have hcontent : contentWords rt a = contentWords rt b := contentWords_eq rt h
  constructor
  · intro ha
    refine respects_of_filter (Bool.eq_iff_iff.mpr ?_)
    rw [ha.containsSecretInstruction_iff, hb.containsSecretInstruction_iff, hcontent]
  · intro hrespects hkept
    refine writtenPlainly_of_containsSecretInstruction rt ?_ hkept
    rw [hrespects.filter, hb.containsSecretInstruction_iff, hcontent]

def spellingRuntime : Runtime := .sample 1767268800000000 []

theorem respects_of_plainly_key : Respects spellingRuntime "Ulož  API key\n" "ulož api key" := by
  have hsame : canonicalContent spellingRuntime "Ulož  API key\n" =
      canonicalContent spellingRuntime "ulož api key" := by decide +kernel
  have ha : WrittenPlainly spellingRuntime "Ulož  API key\n" := writtenPlainly_of_nfc spellingRuntime rfl fun _ =>
    (containsSecretInstruction_iff spellingRuntime _).mp (by decide +kernel)
  have hb : WrittenPlainly spellingRuntime "ulož api key" :=
    writtenPlainly_of_joined spellingRuntime rfl (by decide +kernel)
  exact (respects_of_plainly hsame hb).1 ha

/-- A second space hides the term. -/
theorem api_key_hidden : canonicalContent spellingRuntime "api  key" = canonicalContent spellingRuntime "api key" ∧
    ¬Respects spellingRuntime "api  key" "api key" :=
  ⟨by decide +kernel, fun h => absurd h.filter (by decide +kernel)⟩

end MemoryService

end KajovoDagmar
