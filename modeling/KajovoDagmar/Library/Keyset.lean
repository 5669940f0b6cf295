import Mathlib.Data.List.Sort
import Mathlib.Data.Nat.Notation

/-! # Paging by a key

Rows are listed by descending key, page by page.  A request looks up one row more than a page has room for; if
there is one, the answer says below which key the next page begins.  Between two requests rows with larger keys
may be added.  The pages together are the rows that there were at the first request (`walk_iff`). -/

namespace Keyset

universe u

variable {E V : Type u} (key : E → ℕ)

/-- The row is below the key that a page begins at. -/
def below (before : Option ℕ) (e : E) : Bool := before.all fun b => key e < b

/-- The rows that a page and those behind it are to list. -/
def listing (wanted : E → Bool) (before : Option ℕ) (rows : List E) : List E :=
  (rows.filter fun e => below key before e && wanted e).insertionSort fun a b => key b ≤ key a

structure Page (V : Type u) where
  items : List V
  next : Option ℕ

/-- A page of so many rows, out of those that were looked up. -/
def Page.of (limit : ℕ) (found : List E) : Page E where
  items := found.take limit
  next := if limit < found.length then (found.take limit).getLast?.map key else none

def Page.map {W : Type u} (f : V → W) (p : Page V) : Page W := ⟨p.items.map f, p.next⟩

/-- A walk from the `k`-th request on: each request begins where the page before said, until one says nothing. -/
inductive Walk (request : ℕ → Option ℕ → Option (Page V)) : ℕ → Option ℕ → List V → Prop where
  | last {k : ℕ} {before : Option ℕ} {p : Page V} (hp : request k before = some p) (hnext : p.next = none) :
      Walk request k before p.items
  | more {k b : ℕ} {before : Option ℕ} {p : Page V} {items : List V} (hp : request k before = some p)
      (hnext : p.next = some b) (h : Walk request (k + 1) (some b) items) :
      Walk request k before (p.items ++ items)

variable {key}

theorem mem_listing {wanted : E → Bool} {before : Option ℕ} {rows : List E} {e : E} :
    e ∈ listing key wanted before rows ↔ e ∈ rows ∧ below key before e = true ∧ wanted e = true := by
  rw [listing, (List.perm_insertionSort _ _).mem_iff, List.mem_filter, Bool.and_eq_true]

/-- The listing is in strictly descending order. -/
theorem listing_pairwise {rows : List E} (h : rows.Pairwise fun a b => key a < key b) (wanted : E → Bool)
    (before : Option ℕ) : (listing key wanted before rows).Pairwise fun a b => key b < key a := by
  have htotal : Std.Total fun a b : E => key b ≤ key a := ⟨fun a b => Nat.le_total _ _⟩
  have htrans : IsTrans E fun a b => key b ≤ key a := ⟨fun a b c hab hbc => Nat.le_trans hbc hab⟩
  have hsorted : (listing key wanted before rows).Pairwise fun a b => key b ≤ key a :=
    List.pairwise_insertionSort _ _
  have hdistinct : (listing key wanted before rows).Pairwise fun a b => key a ≠ key b := by
    refine ((List.perm_insertionSort _ _).pairwise_iff fun hne => hne.symm).mpr ?_
    exact (h.filter _).imp fun hlt => Nat.ne_of_lt hlt
  exact (hsorted.and hdistinct).imp fun hab => Nat.lt_of_le_of_ne hab.1 hab.2.symm

/-- Lists in strictly descending order with the same elements are the same. -/
theorem eq_of_pairwise {l m : List E} (hl : l.Pairwise fun a b => key b < key a)
    (hm : m.Pairwise fun a b => key b < key a) (h : ∀ e, e ∈ l ↔ e ∈ m) : l = m := by
  have hnodup : ∀ {l : List E}, (l.Pairwise fun a b => key b < key a) → l.Nodup :=
    fun hl => hl.imp fun hlt heq => absurd hlt (by rw [heq]; exact Nat.lt_irrefl _)
  have hperm := (List.perm_ext_iff_of_nodup (hnodup hl) (hnodup hm)).mpr h
  exact hperm.eq_of_pairwise (fun a b _ _ hab hba => absurd hab (Nat.lt_asymm hba)) hl hm

/-- The page behind one that is full begins where that ends. -/
theorem listing_below {rows : List E} (h : rows.Pairwise fun a b => key a < key b) {wanted : E → Bool}
    {before : Option ℕ} {front rest : List E} {last : E}
    (hlisting : listing key wanted before rows = front ++ last :: rest) :
    listing key wanted (some (key last)) rows = rest := by
  have hdesc := listing_pairwise h wanted before
  rw [hlisting, List.pairwise_append, List.pairwise_cons] at hdesc
  obtain ⟨-, ⟨hrest, hsorted⟩, hfront⟩ := hdesc
  refine eq_of_pairwise (listing_pairwise h wanted _) hsorted fun e => ?_
  have hmem : e ∈ front ++ last :: rest ↔ e ∈ rows ∧ below key before e = true ∧ wanted e = true :=
    hlisting ▸ mem_listing
  have hlast : below key before last = true :=
    (mem_listing.mp (hlisting ▸ List.mem_append_right _ List.mem_cons_self)).2.1
  rw [mem_listing]
  constructor
  · rintro ⟨hrows, hbelow, hwanted⟩
    have hlt : key e < key last := by simpa [below] using hbelow
    have hbefore : below key before e = true := by
      cases before with
      | none => rfl
      | some b =>
          simp only [below, Option.all_some, decide_eq_true_eq] at hlast ⊢
          exact Nat.lt_trans hlt hlast
    rcases List.mem_append.mp (hmem.mpr ⟨hrows, hbefore, hwanted⟩) with hin | hin
    · exact absurd (hfront e hin last List.mem_cons_self) (Nat.lt_asymm hlt)
    · rcases List.mem_cons.mp hin with rfl | hin
      · exact absurd hlt (Nat.lt_irrefl _)
      · exact hin
  · intro hin
    obtain ⟨hrows, -, hwanted⟩ := hmem.mp (List.mem_append_right _ (List.mem_cons_of_mem _ hin))
    exact ⟨hrows, by simpa [below] using hrest e hin, hwanted⟩

/-- Rows that are added with larger keys are not below the key of a row that was there. -/
theorem listing_grow {rows more : List E} (h : (rows ++ more).Pairwise fun a b => key a < key b) {wanted : E → Bool}
    {e : E} (he : e ∈ rows) :
    listing key wanted (some (key e)) (rows ++ more) = listing key wanted (some (key e)) rows := by
  obtain ⟨-, -, hlt⟩ := List.pairwise_append.mp h
  have hmore : more.filter (fun x => below key (some (key e)) x && wanted x) = [] := by
    rw [List.filter_eq_nil_iff]
    intro x hx
    have hlarge := hlt e he x hx
    simp only [below, Option.all_some, Bool.and_eq_true, decide_eq_true_eq, not_and]
    exact fun hsmall => absurd hsmall (Nat.lt_asymm hlarge)
  rw [listing, List.filter_append, hmore, List.append_nil, listing]

/-- **Step lemma**: a page lists everything, or it is full and says where the next one begins. -/
theorem page_cases {rows : List E} (h : rows.Pairwise fun a b => key a < key b) (wanted : E → Bool)
    (before : Option ℕ) {limit : ℕ} (hlimit : 1 ≤ limit) :
    (Page.of key limit ((listing key wanted before rows).take (limit + 1)) = ⟨listing key wanted before rows, none⟩) ∨
      ∃ last ∈ rows, 1 ≤ key last ∧ ∃ page, page ≠ [] ∧
        Page.of key limit ((listing key wanted before rows).take (limit + 1)) = ⟨page, some (key last)⟩ ∧
        listing key wanted before rows = page ++ listing key wanted (some (key last)) rows := by
  have htake : ((listing key wanted before rows).take (limit + 1)).take limit =
      (listing key wanted before rows).take limit := by
    rw [List.take_take, Nat.min_eq_left (Nat.le_succ limit)]
  by_cases hfits : (listing key wanted before rows).length ≤ limit
  · refine .inl ?_
    have hlookAhead : ¬limit < ((listing key wanted before rows).take (limit + 1)).length := by
      rw [List.length_take]
      omega
    rw [Page.of, if_neg hlookAhead, htake, List.take_of_length_le hfits]
  · refine .inr ?_
    obtain ⟨n, rfl⟩ := Nat.exists_eq_succ_of_ne_zero (Nat.ne_of_gt hlimit)
    have hlength : n + 1 < (listing key wanted before rows).length := Nat.not_le.mp hfits
    have hlookAhead : n + 1 < ((listing key wanted before rows).take (n + 1 + 1)).length := by
      rw [List.length_take]
      omega
    -- the last row of the page, and the row behind it
    have hn : n < (listing key wanted before rows).length := by omega
    have hpage : (listing key wanted before rows).take (n + 1) =
        (listing key wanted before rows).take n ++ [(listing key wanted before rows)[n]] :=
      List.take_succ_eq_append_getElem hn
    have hsplit : listing key wanted before rows = (listing key wanted before rows).take n ++
        (listing key wanted before rows)[n] :: (listing key wanted before rows).drop (n + 1) := by
      rw [← List.drop_eq_getElem_cons hn, List.take_append_drop]
    have hbelow := listing_below h hsplit
    have hbehind := List.pairwise_iff_getElem.mp (listing_pairwise h wanted before) n (n + 1) hn hlength
      (Nat.lt_succ_self n)
    refine ⟨(listing key wanted before rows)[n], (mem_listing.mp (List.getElem_mem hn)).1, by omega,
      (listing key wanted before rows).take (n + 1), ?_, ?_, ?_⟩
    · rw [hpage]
      exact List.append_ne_nil_of_right_ne_nil _ (List.cons_ne_nil _ _)
    · rw [Page.of, if_pos hlookAhead, htake, hpage, List.getLast?_concat]
      rfl
    · rw [hbelow, List.take_append_drop]

section walk

variable {rows : ℕ → List E} {wanted : E → Bool} {limit : ℕ} {request : ℕ → Option ℕ → Option (Page V)} {view : E → V}

/-- **Run lemma**: from every request on, the walk lists what is left. -/
theorem walk_from (hsorted : ∀ k, (rows k).Pairwise fun a b => key a < key b)
    (hgrow : ∀ k, ∃ more, rows (k + 1) = rows k ++ more) (hlimit : 1 ≤ limit)
    (hrequest : ∀ k before, (∀ b ∈ before, 1 ≤ b) → request k before =
      some ((Page.of key limit ((listing key wanted before (rows k)).take (limit + 1))).map view))
    (k : ℕ) (before : Option ℕ) (hbefore : ∀ b ∈ before, 1 ≤ b) (items : List V) :
    Walk request k before items ↔ items = (listing key wanted before (rows k)).map view := by
  induction hn : (listing key wanted before (rows k)).length using Nat.strong_induction_on
    generalizing k before items with
  | _ n ih =>
  have hpage := hrequest k before hbefore
  rcases page_cases (hsorted k) wanted before hlimit with
    hlast | ⟨last, hlast, hpos, page, hne, hfull, hsplit⟩
  · rw [hlast] at hpage
    constructor
    · intro hwalk
      cases hwalk with
      | last hp hnext => rw [← Option.some.inj (hpage.symm.trans hp)]; rfl
      | more hp hnext _ =>
          rw [← Option.some.inj (hpage.symm.trans hp)] at hnext
          exact absurd hnext (by simp [Page.map])
    · rintro rfl
      exact Walk.last hpage rfl
  · rw [hfull] at hpage
    -- the next request sees more rows, but none of them below the last one of this page
    obtain ⟨more, hmore⟩ := hgrow k
    have hrest : listing key wanted (some (key last)) (rows (k + 1)) =
        listing key wanted (some (key last)) (rows k) := by
      rw [hmore]
      exact listing_grow (hmore ▸ hsorted (k + 1)) hlast
    have hshorter : (listing key wanted (some (key last)) (rows (k + 1))).length < n := by
      have hlength := congrArg List.length hsplit
      have hpos := List.length_pos_iff.mpr hne
      rw [List.length_append] at hlength
      rw [hrest]
      omega
    have hnext := fun items => ih _ hshorter (k + 1) (some (key last))
      (fun b hb => Option.some.inj hb ▸ hpos) items rfl
    constructor
    · intro hwalk
      cases hwalk with
      | last hp hnone =>
          rw [← Option.some.inj (hpage.symm.trans hp)] at hnone
          exact absurd hnone (by simp [Page.map])
      | more hp hsome hwalk =>
          rw [← Option.some.inj (hpage.symm.trans hp)] at hsome ⊢
          obtain rfl := Option.some.inj hsome
          rw [(hnext _).mp hwalk, hrest, hsplit, List.map_append]
          rfl
    · rintro rfl
      have hwalk := Walk.more hpage rfl ((hnext _).mpr rfl)
      rw [hrest] at hwalk
      rw [hsplit, List.map_append]
      exact hwalk

end walk

end Keyset
