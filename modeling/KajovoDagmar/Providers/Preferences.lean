import KajovoDagmar.Db.Sample
import KajovoDagmar.Providers.Recommendations
import Mathlib.Data.Prod.Lex

/-! # Preferred snapshots

A dated snapshot of a listed model is ranked by the first family that its name begins with, and a family is
a listed name without its last part.  Two listed names of one family rank their snapshots alike, so the
snapshots keep the order of their names exactly if no family is shared (`snapshots_ranked_iff`). -/

namespace KajovoDagmar

namespace ModelRoles

/-! ### Snapshots and families -/

/-- The identifier is a listed name followed by a dash and by digits and dashes, and is not listed itself. -/
def Snapshot (role name externalId : String) : Prop :=
  name ∈ preferences role ∧ externalId ∉ preferences role ∧
    ∃ date : List Char, (∀ c ∈ date, c.isDigit = true ∨ c = '-') ∧ externalId.toList = name.toList ++ '-' :: date

/-- Some family of the role takes in both names. -/
def SharesFamily (role a b : String) : Prop :=
  ∃ name ∈ preferences role, startsWith (a ++ "-") (familyOf name ++ "-") = true ∧
    startsWith (b ++ "-") (familyOf name ++ "-") = true

/-- The characters of the listed names and their snapshots. -/
def plainChar (c : Char) : Bool := c.isLower || c.isDigit || c = '-' || c = '.'

/-- `str.casefold` leaves these characters as they are. -/
def FoldsPlain (casefold : String → String) : Prop :=
  ∀ s : String, s.toList.all plainChar = true → casefold s = s

/-- Where the first family of the role stands that takes in the name. -/
def familyIndex? (role name : String) : Option ℕ :=
  (preferences role).findIdx? fun other => startsWith (name ++ "-") (familyOf other ++ "-")

instance (role a b : String) : Decidable (SharesFamily role a b) :=
  inferInstanceAs (Decidable (∃ name ∈ preferences role, _))

theorem snapshot_iff (role name externalId : String) :
    Snapshot role name externalId ↔ name ∈ preferences role ∧ externalId ∉ preferences role ∧
      (name.toList ++ ['-']).isPrefixOf externalId.toList = true ∧
      (externalId.toList.drop (name.toList.length + 1)).all (fun c => c.isDigit || c = '-') = true := by
  unfold Snapshot
  refine and_congr_right fun _ => and_congr_right fun _ => ?_
  have hdated : ∀ cs : List Char, cs.all (fun c => c.isDigit || c = '-') = true ↔
      ∀ c ∈ cs, c.isDigit = true ∨ c = '-' := by
    intro cs
    simp only [List.all_eq_true, Bool.or_eq_true, decide_eq_true_eq]
  rw [List.isPrefixOf_iff_prefix, hdated]
  constructor
  · rintro ⟨date, hdate, hid⟩
    have hsplit : externalId.toList = (name.toList ++ ['-']) ++ date := by rw [hid, List.append_assoc]; rfl
    rw [hsplit, List.drop_left' (by simp)]
    exact ⟨List.prefix_append _ _, hdate⟩
  · rintro ⟨⟨date, hid⟩, hdate⟩
    rw [← hid, List.drop_left' (by simp)] at hdate
    exact ⟨date, hdate, by rw [← hid, List.append_assoc]; rfl⟩

instance (role name externalId : String) : Decidable (Snapshot role name externalId) :=
  decidable_of_iff _ (snapshot_iff role name externalId).symm

/-! ### The listed names -/

theorem preferences_of_notMem {role : String} (h : role ∉ roleOrder) : preferences role = [] := by
  unfold preferences
  simp only [roleOrder, List.mem_cons, List.not_mem_nil, or_false, not_or] at h
  rw [if_neg h.1, if_neg h.2.1, if_neg h.2.2.1, if_neg h.2.2.2.1, if_neg h.2.2.2.2]

/-- What holds of the lists of all roles holds of the list of any. -/
theorem of_roleOrder {p : List String → Prop} (h : ∀ role ∈ roleOrder, p (preferences role)) (hnil : p [])
    (role : String) : p (preferences role) := by
  by_cases hrole : role ∈ roleOrder
  · exact h role hrole
  · rw [preferences_of_notMem hrole]
    exact hnil

theorem plain_of_mem {role name : String} (h : name ∈ preferences role) : name.toList.all plainChar = true :=
  of_roleOrder (p := fun names => ∀ name ∈ names, name.toList.all plainChar = true) (by decide) (by simp) role
    name h

theorem length_preferences (role : String) : (preferences role).length ≤ 4 :=
  of_roleOrder (p := fun names => names.length ≤ 4) (by decide) (by simp) role

/-- No family of a role reaches into the date of a snapshot. -/
theorem undated {role a name : String} (ha : a ∈ preferences role) (hname : name ∈ preferences role)
    (h : (a ++ "-").toList <+: (familyOf name ++ "-").toList) :
    (familyOf name ++ "-").toList <+: (a ++ "-").toList :=
  of_roleOrder (p := fun names => ∀ a ∈ names, ∀ name ∈ names,
    (a ++ "-").toList <+: (familyOf name ++ "-").toList → (familyOf name ++ "-").toList <+: (a ++ "-").toList)
    (by decide +kernel) (by simp) role a ha name hname h

/-- A listed name belongs to a family. -/
theorem familyIndex_isSome {role name : String} (h : name ∈ preferences role) :
    (familyIndex? role name).isSome = true :=
  of_roleOrder (p := fun names => ∀ name ∈ names,
    (names.findIdx? fun other => startsWith (name ++ "-") (familyOf other ++ "-")).isSome = true)
    (by decide +kernel) (by simp) role name h

/-- The families come in the order of the names, except that two names may share one. -/
theorem familyIndex_lt_iff {role a b : String} (h : [a, b].Sublist (preferences role)) :
    (∃ i ∈ familyIndex? role a, ∃ j ∈ familyIndex? role b, i < j) ↔ ¬SharesFamily role a b := by
  have hab := h.subset
  exact of_roleOrder (p := fun names => ∀ a ∈ names, ∀ b ∈ names, [a, b].Sublist names →
    ((∃ i ∈ names.findIdx? fun other => startsWith (a ++ "-") (familyOf other ++ "-"),
      ∃ j ∈ names.findIdx? fun other => startsWith (b ++ "-") (familyOf other ++ "-"), i < j) ↔
      ¬∃ name ∈ names, startsWith (a ++ "-") (familyOf name ++ "-") = true ∧
        startsWith (b ++ "-") (familyOf name ++ "-") = true))
    (by decide +kernel) (by simp) role a (hab (by simp)) b (hab (by simp)) h

/-! ### Ranks -/

theorem findIdx?_congr {α : Type} {p q : α → Bool} {l : List α} (h : ∀ x ∈ l, p x = q x) :
    l.findIdx? p = l.findIdx? q := by
  induction l with
  | nil => rfl
  | cons x l ih =>
      rw [List.findIdx?_cons, List.findIdx?_cons, h x List.mem_cons_self,
        ih fun y hy => h y (List.mem_cons_of_mem x hy)]

section ranks

variable {casefold : String → String} {role : String}

/-- A snapshot belongs to the families of its name. -/
theorem startsWith_snapshot {a name externalId : String} (h : Snapshot role a externalId)
    (hname : name ∈ preferences role) :
    startsWith externalId (familyOf name ++ "-") = startsWith (a ++ "-") (familyOf name ++ "-") := by
  obtain ⟨ha, -, date, -, hid⟩ := h
  have hsplit : externalId.toList = (a ++ "-").toList ++ date := by
    rw [hid, String.toList_append, List.append_assoc]
    rfl
  unfold startsWith
  rw [Bool.eq_iff_iff, List.isPrefixOf_iff_prefix, List.isPrefixOf_iff_prefix, hsplit]
  constructor
  · intro hhead
    rcases List.prefix_or_prefix_of_prefix hhead (List.prefix_append _ _) with hshort | hlong
    · exact hshort
    · exact undated ha hname hlong
  · exact fun hhead => hhead.trans (List.prefix_append _ _)

theorem plain_snapshot {a externalId : String} (h : Snapshot role a externalId) :
    externalId.toList.all plainChar = true := by
  obtain ⟨ha, -, date, hdate, hid⟩ := h
  rw [hid, List.all_append, plain_of_mem ha, Bool.true_and, List.all_cons, Bool.and_eq_true]
  refine ⟨rfl, List.all_eq_true.mpr fun c hc => ?_⟩
  rcases hdate c hc with hdigit | rfl
  · simp [plainChar, hdigit]
  · rfl

/-- A snapshot is ranked by the first family of its name. -/
theorem rank_snapshot (hfold : FoldsPlain casefold) {a externalId : String} (h : Snapshot role a externalId) :
    ∃ i ∈ familyIndex? role a, recommendationRank casefold role externalId = (i + 10, externalId) := by
  have hvalue : casefold externalId = externalId := hfold _ (plain_snapshot h)
  have hunlisted : ((preferences role).findIdx? fun name => externalId = name) = none := by
    rw [List.findIdx?_eq_none_iff]
    exact fun name hname => decide_eq_false fun heq => h.2.1 (heq ▸ hname)
  have hfamily : ((preferences role).findIdx? fun name => startsWith externalId (familyOf name ++ "-")) =
      familyIndex? role a :=
    findIdx?_congr fun name hname => startsWith_snapshot h hname
  obtain ⟨i, hi⟩ := Option.isSome_iff_exists.mp (familyIndex_isSome h.1)
  refine ⟨i, hi, ?_⟩
  unfold recommendationRank
  simp only [hvalue, hunlisted, hfamily, hi]

/-- A listed name is ranked by its place in the list. -/
theorem rank_listed (hfold : FoldsPlain casefold) {name : String} (h : name ∈ preferences role) :
    (recommendationRank casefold role name).1 < 10 := by
  have hvalue : casefold name = name := hfold _ (plain_of_mem h)
  have hlisted : ((preferences role).findIdx? fun other => name = other).isSome = true := by
    rw [List.findIdx?_isSome, List.any_eq_true]
    exact ⟨name, h, decide_eq_true rfl⟩
  obtain ⟨i, hi⟩ := Option.isSome_iff_exists.mp hlisted
  have hlt : i < (preferences role).length := (List.findIdx?_eq_some_iff_getElem.mp hi).1
  unfold recommendationRank
  simp only [hvalue, hi]
  have := length_preferences role
  omega

/-- Snapshots keep the order of their names exactly if these share no family. -/
theorem rank_snapshot_lt_iff (hfold : FoldsPlain casefold) {a b x y : String}
    (hab : [a, b].Sublist (preferences role)) (hx : Snapshot role a x) (hy : Snapshot role b y) :
    (recommendationRank casefold role x).1 < (recommendationRank casefold role y).1 ↔ ¬SharesFamily role a b := by
  obtain ⟨i, hi, hrank⟩ := rank_snapshot hfold hx
  obtain ⟨j, hj, hrank'⟩ := rank_snapshot hfold hy
  rw [hrank, hrank', ← familyIndex_lt_iff hab]
  constructor
  · exact fun hlt => ⟨i, hi, j, hj, by simpa using hlt⟩
  · rintro ⟨i', hi', j', hj', hlt⟩
    obtain rfl := Option.mem_unique hi hi'
    obtain rfl := Option.mem_unique hj hj'
    simpa using hlt

end ranks

end ModelRoles

/-! ### The recommended model -/

namespace ModelRecommendationService

open ModelRoles

variable (rt : Runtime)

/-- What the models of a role are sorted by. -/
def sortKey (role : String) (e : ModelCatalogEntry) : Lex (ℕ × Lex (List Char × List Char)) :=
  toLex ((recommendationRank rt.casefold role e.externalId).1,
    toLex ((recommendationRank rt.casefold role e.externalId).2.toList, e.externalId.toList))

theorem ranked_iff (role : String) (a b : ModelCatalogEntry) :
    ranked rt role a b = true ↔ sortKey rt role a ≤ sortKey rt role b := by
  unfold ranked sortKey textBefore
  simp only [Prod.Lex.toLex_le_toLex, Bool.or_eq_true, Bool.and_eq_true, decide_eq_true_eq, Bool.not_eq_true',
    decide_eq_false_iff_not, not_lt, String.toList_inj]

theorem mem_relevant {role : String} {entries : List ModelCatalogEntry} {e : ModelCatalogEntry} :
    e ∈ relevant rt entries role ↔ e ∈ entries ∧ e.role = role := by
  unfold relevant
  rw [(List.perm_insertionSort _ _).mem_iff, List.mem_filter, decide_eq_true_eq]

/-- The recommended model is ranked at least as well as any other. -/
theorem rank_recommended {role : String} {entries : List ModelCatalogEntry} {e e' : ModelCatalogEntry}
    (h : (relevant rt entries role).head? = some e) (he' : e' ∈ relevant rt entries role) :
    (recommendationRank rt.casefold role e.externalId).1 ≤ (recommendationRank rt.casefold role e'.externalId).1 := by
  have htotal : Std.Total fun a b => ranked rt role a b = true :=
    ⟨fun a b => by rw [ranked_iff, ranked_iff]; exact le_total _ _⟩
  have htrans : IsTrans ModelCatalogEntry fun a b => ranked rt role a b = true :=
    ⟨fun a b c => by rw [ranked_iff, ranked_iff, ranked_iff]; exact le_trans⟩
  have hsorted : (relevant rt entries role).Pairwise fun a b => ranked rt role a b = true :=
    List.pairwise_insertionSort _ _
  have hle : sortKey rt role e ≤ sortKey rt role e' := by
    cases hl : relevant rt entries role with
    | nil => simp [hl] at he'
    | cons x l =>
      rw [hl, List.head?_cons] at h
      obtain rfl := Option.some.inj h
      rw [hl] at he' hsorted
      rcases List.mem_cons.mp he' with rfl | hmem
      · exact le_refl _
      · exact (ranked_iff rt role _ _).mp ((List.pairwise_cons.mp hsorted).1 e' hmem)
  rcases Prod.Lex.toLex_le_toLex.mp hle with hlt | ⟨heq, -⟩
  · exact hlt.le
  · exact heq.le

/-- The snapshots among the models of a role are ranked as their names are preferred, behind all listed
names, and a snapshot is recommended only if there is none of a more preferred name. -/
structure KeepsPreference (role : String) (entries : List ModelCatalogEntry) : Prop where
  snapshots : ∀ a b, [a, b].Sublist (preferences role) →
    ∀ e ∈ relevant rt entries role, ∀ e' ∈ relevant rt entries role,
    Snapshot role a e.externalId → Snapshot role b e'.externalId →
    (recommendationRank rt.casefold role e.externalId).1 < (recommendationRank rt.casefold role e'.externalId).1
  listed : ∀ name ∈ preferences role, ∀ e ∈ relevant rt entries role, ∀ a, Snapshot role a e.externalId →
    (recommendationRank rt.casefold role name).1 < (recommendationRank rt.casefold role e.externalId).1
  recommended : ∀ e, (relevant rt entries role).head? = some e → ∀ a, Snapshot role a e.externalId →
    ∀ b, [b, a].Sublist (preferences role) → ∀ e' ∈ relevant rt entries role, ¬Snapshot role b e'.externalId

/-- **Snapshots inherit the preference of their name** exactly if no two of these names share a family. -/
theorem snapshots_ranked_iff (hfold : FoldsPlain rt.casefold) (role : String) (entries : List ModelCatalogEntry) :
    KeepsPreference rt role entries ↔ ∀ a b, [a, b].Sublist (preferences role) →
      (∃ e ∈ relevant rt entries role, Snapshot role a e.externalId) →
      (∃ e ∈ relevant rt entries role, Snapshot role b e.externalId) → ¬SharesFamily role a b := by
  constructor
  · rintro h a b hab ⟨e, he, ha⟩ ⟨e', he', hb⟩
    exact (rank_snapshot_lt_iff hfold hab ha hb).mp (h.snapshots a b hab e he e' he' ha hb)
  · intro h
    have hless : ∀ a b, [a, b].Sublist (preferences role) →
        ∀ e ∈ relevant rt entries role, ∀ e' ∈ relevant rt entries role,
        Snapshot role a e.externalId → Snapshot role b e'.externalId →
        (recommendationRank rt.casefold role e.externalId).1 <
          (recommendationRank rt.casefold role e'.externalId).1 :=
      fun a b hab e he e' he' ha hb => (rank_snapshot_lt_iff hfold hab ha hb).mpr (h a b hab ⟨e, he, ha⟩ ⟨e', he', hb⟩)
    refine ⟨hless, ?_, ?_⟩
    · intro name hname e _ a ha
      obtain ⟨i, -, hrank⟩ := rank_snapshot hfold ha
      have hlisted := rank_listed hfold hname
      rw [hrank]
      omega
    · intro e he a ha b hba e' he' hb
      have hlt := hless b a hba e' he' e (List.mem_of_head? he) hb ha
      exact absurd (rank_recommended rt he he') (Nat.not_le.mpr hlt)

/-- A listed model of provider 5. -/
def snapshotEntry (role externalId : String) (id : Uuid) : ModelCatalogEntry :=
  { id := id, providerId := 5, externalId := externalId, displayName := externalId, role := role
    available := true, lastSeenAt := .utc 1767265200000000 }

def snapshotRuntime : Runtime := .sample 1767268800000000 []

theorem toLower_of_plainChar {c : Char} (h : plainChar c = true) : c.toLower = c := by
  have hnot : ¬(c.val ≥ 'A'.val ∧ c.val ≤ 'Z'.val) := by
    have hcases : ((c.val ≥ 'a'.val && c.val ≤ 'z'.val) || c.isDigit || c = '-' || c = '.') = true := h
    simp only [Char.isDigit, Bool.or_eq_true, Bool.and_eq_true, decide_eq_true_eq] at hcases
    rcases hcases with ((hlower | hdigit) | rfl) | rfl
    · exact fun hupper => absurd (UInt32.le_trans hlower.1 hupper.2) (by decide)
    · exact fun hupper => absurd (UInt32.le_trans hupper.1 hdigit.2) (by decide)
    · decide
    · decide
  unfold Char.toLower
  rw [dif_neg hnot]

theorem foldsPlain_snapshotRuntime : FoldsPlain snapshotRuntime.casefold := by
  intro s hs
  have hmap : s.toList.map Char.toLower = s.toList :=
    (List.map_congr_left fun c hc => toLower_of_plainChar (List.all_eq_true.mp hs c hc)).trans (List.map_id _)
  calc snapshotRuntime.casefold s = String.ofList (s.toList.map Char.toLower) := rfl
    _ = s := by rw [hmap, String.ofList_toList]

theorem snapshots_ranked_twoFamilies : KeepsPreference snapshotRuntime "conversation_model"
    [snapshotEntry "conversation_model" "gpt-4.1-mini-2026-01-01" 1,
      snapshotEntry "conversation_model" "gpt-5-mini-2026-01-01" 2] := by
  refine (snapshots_ranked_iff snapshotRuntime foldsPlain_snapshotRuntime _ _).mpr fun a b hab hx hy => ?_
  have hunshared : ∀ a ∈ preferences "conversation_model", ∀ b ∈ preferences "conversation_model",
      [a, b].Sublist (preferences "conversation_model") →
      (∃ e ∈ relevant snapshotRuntime [snapshotEntry "conversation_model" "gpt-4.1-mini-2026-01-01" 1,
        snapshotEntry "conversation_model" "gpt-5-mini-2026-01-01" 2] "conversation_model",
        Snapshot "conversation_model" a e.externalId) →
      (∃ e ∈ relevant snapshotRuntime [snapshotEntry "conversation_model" "gpt-4.1-mini-2026-01-01" 1,
        snapshotEntry "conversation_model" "gpt-5-mini-2026-01-01" 2] "conversation_model",
        Snapshot "conversation_model" b e.externalId) → ¬SharesFamily "conversation_model" a b := by
    decide +kernel
  exact hunshared a (hab.subset (by simp)) b (hab.subset (by simp)) hab hx hy

/-- `gpt-4o-transcribe` and `gpt-4o-mini-transcribe` share the family `gpt-4o`, so their snapshots are in the
order of the alphabet. -/
theorem snapshots_of_one_family_misranked : ¬KeepsPreference snapshotRuntime "transcription_model"
    [snapshotEntry "transcription_model" "gpt-4o-transcribe-2026-01-01" 1,
      snapshotEntry "transcription_model" "gpt-4o-mini-transcribe-2026-01-01" 2] := by
  intro h
  have hlt := h.snapshots "gpt-4o-transcribe" "gpt-4o-mini-transcribe" (by decide)
    (snapshotEntry "transcription_model" "gpt-4o-transcribe-2026-01-01" 1)
    ((mem_relevant _).mpr ⟨List.mem_cons_self, rfl⟩)
    (snapshotEntry "transcription_model" "gpt-4o-mini-transcribe-2026-01-01" 2)
    ((mem_relevant _).mpr ⟨List.mem_cons_of_mem _ List.mem_cons_self, rfl⟩) (by decide +kernel) (by decide +kernel)
  exact absurd hlt (by decide +kernel)

end ModelRecommendationService

end KajovoDagmar
