import Mathlib.Data.List.Basic

/-! # Loops that raise

A search that stops at the first find and a loop over all elements, in both of which an element may raise.
Only the elements that the loop reaches count: the ones before which nothing has been found and nothing has
raised (`Reaches`). -/

universe u

namespace Scan

variable {ε : Type u} {α β : Type u}

/-- The first find of `f` in the list. -/
def first (f : α → Except ε (Option β)) : List α → Except ε (Option β)
  | [] => .ok none
  | x :: xs =>
    match f x with
    | .error e => .error e
    | .ok (some b) => .ok (some b)
    | .ok none => first f xs

/-- `f` of every element. -/
def each (f : α → Except ε β) : List α → Except ε (List β)
  | [] => .ok []
  | x :: xs =>
    match f x with
    | .error e => .error e
    | .ok b =>
      match each f xs with
      | .error e => .error e
      | .ok bs => .ok (b :: bs)

/-- The element is in the list after passed ones only. -/
def Reaches (Passed : α → Prop) (xs : List α) (x : α) : Prop :=
  ∃ before after, xs = before ++ x :: after ∧ ∀ y ∈ before, Passed y

section reaches

variable {Passed : α → Prop} {x y : α} {xs : List α}

theorem not_reaches_nil : ¬Reaches Passed [] x := by
  rintro ⟨before, after, h, -⟩
  exact List.append_ne_nil_of_right_ne_nil _ (List.cons_ne_nil _ _) h.symm

theorem reaches_head : Reaches Passed (x :: xs) x := ⟨[], xs, rfl, fun _ h => absurd h List.not_mem_nil⟩

theorem Reaches.cons (hy : Passed y) (h : Reaches Passed xs x) : Reaches Passed (y :: xs) x := by
  obtain ⟨before, after, rfl, hpassed⟩ := h
  refine ⟨y :: before, after, rfl, fun z hz => ?_⟩
  rcases List.mem_cons.mp hz with rfl | hz
  · exact hy
  · exact hpassed z hz

theorem reaches_cons_iff : Reaches Passed (y :: xs) x ↔ x = y ∨ Passed y ∧ Reaches Passed xs x := by
  constructor
  · rintro ⟨before, after, h, hpassed⟩
    cases before with
    | nil => exact .inl (List.cons.inj h).1.symm
    | cons z before =>
        obtain ⟨rfl, rfl⟩ := List.cons.inj h
        exact .inr ⟨hpassed y List.mem_cons_self, before, after, rfl, fun w hw =>
          hpassed w (List.mem_cons_of_mem _ hw)⟩
  · rintro (rfl | ⟨hy, h⟩)
    · exact reaches_head
    · exact h.cons hy

theorem Reaches.mem (h : Reaches Passed xs x) : x ∈ xs := by
  obtain ⟨before, after, rfl, -⟩ := h
  exact List.mem_append_right _ List.mem_cons_self

/-- Every element is reached, or the loop comes to one at which it ends. -/
theorem forall_reaches_cons {P : α → Prop} :
    (∀ x, Reaches Passed (y :: xs) x → P x) ↔ P y ∧ (Passed y → ∀ x, Reaches Passed xs x → P x) := by
  constructor
  · exact fun h => ⟨h y reaches_head, fun hy x hx => h x (hx.cons hy)⟩
  · rintro ⟨hy, hrest⟩ x hx
    rcases reaches_cons_iff.mp hx with rfl | ⟨hpassed, hx⟩
    · exact hy
    · exact hrest hpassed x hx

/-- What is passed may be described by other words where the property holds. -/
theorem forall_reaches_congr {Passed' P : α → Prop} (h : ∀ y, P y → (Passed y ↔ Passed' y)) :
    (∀ x, Reaches Passed xs x → P x) ↔ ∀ x, Reaches Passed' xs x → P x := by
  induction xs with
  | nil => exact ⟨fun _ x hx => absurd hx not_reaches_nil, fun _ x hx => absurd hx not_reaches_nil⟩
  | cons y xs ih =>
      rw [forall_reaches_cons, forall_reaches_cons]
      refine and_congr_right fun hy => ?_
      rw [h y hy, ih]

theorem reaches_map_iff {g : β → α} {ys : List β} :
    Reaches Passed (ys.map g) x ↔ ∃ y, Reaches (fun y => Passed (g y)) ys y ∧ g y = x := by
  induction ys with
  | nil =>
      constructor
      · exact fun h => absurd h not_reaches_nil
      · rintro ⟨y, hy, -⟩
        exact absurd hy not_reaches_nil
  | cons y ys ih =>
      rw [List.map_cons, reaches_cons_iff, ih]
      constructor
      · rintro (rfl | ⟨hy, z, hz, rfl⟩)
        · exact ⟨y, reaches_head, rfl⟩
        · exact ⟨z, hz.cons hy, rfl⟩
      · rintro ⟨z, hz, rfl⟩
        rcases reaches_cons_iff.mp hz with rfl | ⟨hy, hz⟩
        · exact .inl rfl
        · exact .inr ⟨hy, z, hz, rfl⟩

end reaches

/-! ### The search -/

section first

variable {f : α → Except ε (Option β)} {g : α → Option β} {S : α → Prop} {P : ε → Prop} {xs : List α}

/-- A search in which no reached element raises finds what is there. -/
theorem first_eq (hf : ∀ x, S x → f x = .ok (g x)) (h : ∀ x, Reaches (fun y => g y = none) xs x → S x) :
    first f xs = .ok (xs.findSome? g) := by
  induction xs with
  | nil => rfl
  | cons x xs ih =>
      obtain ⟨hx, hrest⟩ := forall_reaches_cons.mp h
      rw [first, hf x hx, List.findSome?_cons]
      cases hg : g x with
      | none => exact ih (hrest hg)
      | some b => rfl

/-- A search in which a reached element raises ends with its exception. -/
theorem first_raises (hf : ∀ x, S x → f x = .ok (g x)) (hraise : ∀ x, ¬S x → ∃ e, f x = .error e ∧ P e)
    (h : ¬∀ x, Reaches (fun y => g y = none) xs x → S x) : ∃ e, first f xs = .error e ∧ P e := by
  induction xs with
  | nil => exact absurd (fun x hx => absurd hx not_reaches_nil) h
  | cons x xs ih =>
      rw [forall_reaches_cons, not_and_or] at h
      by_cases hx : S x
      · obtain ⟨hg, hrest⟩ := not_forall.mp (h.resolve_left (not_not.mpr hx))
        obtain ⟨e, he, hP⟩ := ih hrest
        refine ⟨e, ?_, hP⟩
        rw [first, hf x hx, hg]
        exact he
      · obtain ⟨e, he, hP⟩ := hraise x hx
        exact ⟨e, by rw [first, he], hP⟩

end first

/-! ### The loop -/

section each

variable {f : α → Except ε β} {S : α → Prop} {P : ε → Prop} {xs : List α}

/-- The exceptions of a loop are those of the elements that it reaches. -/
theorem each_error_iff {e : ε} : each f xs = .error e ↔
    ∃ x, Reaches (fun y => ∃ b, f y = .ok b) xs x ∧ f x = .error e := by
  induction xs with
  | nil =>
      constructor
      · exact fun h => by simp [each] at h
      · rintro ⟨x, hx, -⟩
        exact absurd hx not_reaches_nil
  | cons x xs ih =>
      cases hx : f x with
      | error e' =>
          rw [each, hx]
          constructor
          · intro h
            exact ⟨x, reaches_head, hx.trans (congrArg _ (Except.error.inj h))⟩
          · rintro ⟨y, hy, he⟩
            rcases reaches_cons_iff.mp hy with rfl | ⟨⟨b, hb⟩, -⟩
            · exact congrArg Except.error (Except.error.inj (hx.symm.trans he))
            · exact absurd (hx.symm.trans hb) (by simp)
      | ok b =>
          have hrest : each f (x :: xs) = .error e ↔ each f xs = .error e := by
            rw [each, hx]
            cases each f xs with
            | error e' => simp
            | ok bs => simp
          rw [hrest, ih]
          constructor
          · rintro ⟨y, hy, he⟩
            exact ⟨y, hy.cons ⟨b, hx⟩, he⟩
          · rintro ⟨y, hy, he⟩
            rcases reaches_cons_iff.mp hy with rfl | ⟨-, hy⟩
            · exact absurd (hx.symm.trans he) (by simp)
            · exact ⟨y, hy, he⟩

/-- A loop that ends has a value for each element. -/
theorem exists_of_each {bs : List β} {x : α} (h : each f xs = .ok bs) (hx : x ∈ xs) : ∃ b, f x = .ok b := by
  induction xs generalizing bs with
  | nil => exact absurd hx List.not_mem_nil
  | cons y xs ih =>
      rw [each] at h
      cases hy : f y with
      | error e => simp [hy] at h
      | ok b =>
          cases hrest : each f xs with
          | error e => simp [hy, hrest] at h
          | ok bs' =>
              rcases List.mem_cons.mp hx with rfl | hx
              · exact ⟨b, hy⟩
              · exact ih hrest hx

end each

end Scan
