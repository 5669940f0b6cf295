import Mathlib.Data.List.Infix
import Mathlib.Data.Nat.Notation

/-! # Splitting at a doubled element

A list is split at every place where an element stands twice in a row, from left to right.  What is behind the
last such place may be split together with what follows the list (`splitPair_append`): so a stream that comes in
pieces is split like the whole stream. -/

namespace List

universe u

variable {α : Type u}

/-- An element before the first of some lists. -/
def consFirst (x : α) : List (List α) → List (List α)
  | [] => [[x]]
  | l :: ls => (x :: l) :: ls

theorem consFirst_ne_nil (x : α) (ls : List (List α)) : consFirst x ls ≠ [] := by
  cases ls with
  | nil => exact cons_ne_nil _ _
  | cons l ls => exact cons_ne_nil _ _

variable [DecidableEq α] (a : α)

/-- The parts between the doubled elements. -/
def splitPair : List α → List (List α)
  | [] => [[]]
  | [x] => [[x]]
  | x :: y :: xs => if x = a ∧ y = a then [] :: splitPair xs else consFirst x (splitPair (y :: xs))

variable {a}

theorem splitPair_pair (xs : List α) : splitPair a (a :: a :: xs) = [] :: splitPair a xs := by
  rw [splitPair, if_pos ⟨rfl, rfl⟩]

theorem splitPair_cons {x y : α} (h : ¬(x = a ∧ y = a)) (xs : List α) :
    splitPair a (x :: y :: xs) = consFirst x (splitPair a (y :: xs)) := by
  rw [splitPair, if_neg h]

theorem splitPair_ne_nil (xs : List α) : splitPair a xs ≠ [] := by
  cases xs with
  | nil => exact cons_ne_nil _ _
  | cons x xs =>
      cases xs with
      | nil => exact cons_ne_nil _ _
      | cons y xs =>
          rw [splitPair]
          split
          · exact cons_ne_nil _ _
          · exact consFirst_ne_nil _ _

variable (a)

/-- The parts that a doubled element ends. -/
def ended (xs : List α) : List (List α) := (splitPair a xs).dropLast

/-- What no doubled element ends. -/
def unended (xs : List α) : List α := (splitPair a xs).getLast (splitPair_ne_nil xs)

variable {a}

theorem ended_append_unended (xs : List α) : ended a xs ++ [unended a xs] = splitPair a xs :=
  dropLast_append_getLast (splitPair_ne_nil xs)

@[simp] theorem ended_nil : ended a [] = [] := rfl

@[simp] theorem ended_singleton (x : α) : ended a [x] = [] := rfl

@[simp] theorem unended_singleton (x : α) : unended a [x] = [x] := rfl

theorem ended_pair (xs : List α) : ended a (a :: a :: xs) = [] :: ended a xs := by
  rw [ended, splitPair_pair, dropLast_cons_of_ne_nil (splitPair_ne_nil xs), ended]

theorem unended_pair (xs : List α) : unended a (a :: a :: xs) = unended a xs := by
  simp only [unended, splitPair_pair]
  exact getLast_cons (splitPair_ne_nil xs)

/-- An element in front belongs to the first part. -/
theorem ended_cons {x y : α} (h : ¬(x = a ∧ y = a)) (xs : List α) :
    (ended a (y :: xs) = [] ∧ ended a (x :: y :: xs) = [] ∧ unended a (x :: y :: xs) = x :: unended a (y :: xs)) ∨
      ∃ l ls, ended a (y :: xs) = l :: ls ∧ ended a (x :: y :: xs) = (x :: l) :: ls ∧
        unended a (x :: y :: xs) = unended a (y :: xs) := by
  have hsplit := ended_append_unended (a := a) (y :: xs)
  have hcons := splitPair_cons h xs
  cases hended : ended a (y :: xs) with
  | nil =>
      rw [hended, nil_append] at hsplit
      rw [← hsplit] at hcons
      refine .inl ⟨rfl, ?_, ?_⟩
      · rw [ended, hcons]
        rfl
      · simp only [unended, hcons]
        rfl
  | cons l ls =>
      rw [hended, cons_append] at hsplit
      rw [← hsplit] at hcons
      refine .inr ⟨l, ls, rfl, ?_, ?_⟩
      · rw [ended, hcons]
        change (((x :: l) :: ls) ++ [unended a (y :: xs)]).dropLast = _
        exact dropLast_concat
      · simp only [unended, hcons]
        change (((x :: l) :: ls) ++ [unended a (y :: xs)]).getLast _ = _
        exact getLast_concat

/-- The parts, with what separates them, are the list. -/
theorem flatMap_ended (xs : List α) : ((ended a xs).flatMap fun l => l ++ [a, a]) ++ unended a xs = xs := by
  induction xs using splitPair.induct a with
  | case1 => rfl
  | case2 x => rfl
  | case3 x y xs h ih =>
      obtain ⟨rfl, rfl⟩ := h
      rw [ended_pair, unended_pair, flatMap_cons, append_assoc, ih]
      rfl
  | case4 x y xs h ih =>
      rcases ended_cons h xs with ⟨hnil, hended, hunended⟩ | ⟨l, ls, hfirst, hended, hunended⟩
      · rw [hnil] at ih
        rw [hended, hunended]
        exact congrArg (x :: ·) ih
      · rw [hfirst] at ih
        rw [hended, hunended]
        exact congrArg (x :: ·) ih

theorem unended_of_ended {xs : List α} (h : ended a xs = []) : unended a xs = xs := by
  have hall := flatMap_ended (a := a) xs
  rwa [h] at hall

/-- What comes behind a list is split together with what no doubled element has ended. -/
theorem ended_append (xs ys : List α) : ended a (xs ++ ys) = ended a xs ++ ended a (unended a xs ++ ys) := by
  induction xs using splitPair.induct a with
  | case1 => rfl
  | case2 x => rfl
  | case3 x y xs h ih =>
      obtain ⟨rfl, rfl⟩ := h
      rw [cons_append, cons_append, ended_pair, ended_pair, unended_pair, ih]
      rfl
  | case4 x y xs h ih =>
      rw [cons_append] at ih
      rw [cons_append, cons_append]
      rcases ended_cons h xs with ⟨hnil, hended, hunended⟩ | ⟨l, ls, hfirst, hended, hunended⟩
      · -- nothing is ended yet, and what is not is all of it
        rw [hended, hunended, unended_of_ended hnil, nil_append]
        rfl
      · rw [hfirst] at ih
        rw [hended, hunended]
        rcases ended_cons h (xs ++ ys) with ⟨hnil, -, -⟩ | ⟨l', ls', hfirst', hended', -⟩
        · rw [hnil] at ih
          exact absurd ih.symm (by simp)
        · rw [hfirst'] at ih
          obtain ⟨rfl, rfl⟩ := cons.inj ih
          rw [hended']
          rfl

/-! ### Where the parts end -/

variable (a)

/-- Parts of a list: the first one ends at its first doubled element, the next one at the first doubled element
behind that, and behind the last one there is none. -/
inductive PairCut : List α → List (List α) → Prop where
  | rest {xs : List α} (h : ¬[a, a] <:+: xs) : PairCut xs []
  | part {l xs : List α} {ls : List (List α)} (hfirst : ¬[a, a] <:+: l ++ [a]) (h : PairCut xs ls) :
      PairCut (l ++ a :: a :: xs) (l :: ls)

variable {a}

omit [DecidableEq α] in
theorem not_infix_cons {x y : α} {xs : List α} (h : ¬(x = a ∧ y = a)) (hrest : ¬[a, a] <:+: y :: xs) :
    ¬[a, a] <:+: x :: y :: xs := by
  rw [infix_cons_iff, not_or]
  refine ⟨fun hprefix => h ?_, hrest⟩
  obtain ⟨rfl, hsecond⟩ := cons_prefix_cons.mp hprefix
  exact ⟨rfl, (cons_prefix_cons.mp hsecond).1.symm⟩

omit [DecidableEq α] in
/-- An element in front belongs to the first part. -/
theorem PairCut.cons {x y : α} {xs : List α} {ls : List (List α)} (h : ¬(x = a ∧ y = a))
    (hcut : PairCut a (y :: xs) ls) :
    (ls = [] ∧ PairCut a (x :: y :: xs) []) ∨ ∃ l ls', ls = l :: ls' ∧ PairCut a (x :: y :: xs) ((x :: l) :: ls') := by
  generalize hys : y :: xs = ys at hcut
  cases hcut with
  | rest hnone =>
      subst hys
      exact .inl ⟨rfl, .rest (not_infix_cons h hnone)⟩
  | @part l zs ls' hfirst hrest =>
      refine .inr ⟨l, ls', rfl, ?_⟩
      refine PairCut.part (l := x :: l) ?_ hrest
      cases l with
      | nil =>
          obtain ⟨rfl, -⟩ := cons.inj hys
          exact not_infix_cons h hfirst
      | cons z l =>
          obtain ⟨rfl, -⟩ := cons.inj hys
          exact not_infix_cons h hfirst

theorem pairCut_ended (xs : List α) : PairCut a xs (ended a xs) := by
  induction xs using splitPair.induct a with
  | case1 => exact .rest (by simp)
  | case2 x => exact .rest fun h => absurd h.length_le (by simp)
  | case3 x y xs h ih =>
      obtain ⟨rfl, rfl⟩ := h
      rw [ended_pair]
      exact PairCut.part (l := []) (fun h => absurd h.length_le (by simp)) ih
  | case4 x y xs h ih =>
      rcases ended_cons h xs with ⟨hnil, hended, -⟩ | ⟨l, ls, hfirst, hended, -⟩
      · rw [hnil] at ih
        rw [hended]
        rcases ih.cons h with ⟨-, hcut⟩ | ⟨_, _, hne, -⟩
        · exact hcut
        · exact absurd hne.symm (by simp)
      · rw [hfirst] at ih
        rw [hended]
        rcases ih.cons h with ⟨hne, -⟩ | ⟨l', ls', heq, hcut⟩
        · exact absurd hne (by simp)
        · obtain ⟨rfl, rfl⟩ := cons.inj heq
          exact hcut

theorem ended_of_absent {xs : List α} (h : ¬[a, a] <:+: xs) : ended a xs = [] := by
  have hall := flatMap_ended (a := a) xs
  cases hended : ended a xs with
  | nil => rfl
  | cons l ls =>
      rw [hended, flatMap_cons, append_assoc, append_assoc] at hall
      exact absurd ⟨l, _, (append_assoc _ _ _).trans hall⟩ h

theorem ended_append_pair {l : List α} (h : ¬[a, a] <:+: l ++ [a]) (xs : List α) :
    ended a (l ++ a :: a :: xs) = l :: ended a xs := by
  induction l with
  | nil => exact ended_pair xs
  | cons x l ih =>
      have hrest : ended a (l ++ a :: a :: xs) = l :: ended a xs :=
        ih fun hpair => h (List.IsInfix.trans hpair (suffix_cons x _).isInfix)
      obtain ⟨y, ys, hys, hne⟩ : ∃ y ys, l ++ a :: a :: xs = y :: ys ∧ ¬(x = a ∧ y = a) := by
        cases l with
        | nil =>
            refine ⟨a, a :: xs, rfl, fun hxy => h ?_⟩
            rw [hxy.1]
            exact infix_rfl
        | cons y l =>
            refine ⟨y, l ++ a :: a :: xs, rfl, fun hxy => h ?_⟩
            rw [hxy.1, hxy.2]
            exact (prefix_append [a, a] (l ++ [a])).isInfix
      rw [hys] at hrest
      rw [cons_append, hys]
      rcases ended_cons hne ys with ⟨hnil, -, -⟩ | ⟨l', ls, hfirst, hended, -⟩
      · rw [hnil] at hrest
        exact absurd hrest.symm (cons_ne_nil _ _)
      · rw [hrest] at hfirst
        obtain ⟨rfl, rfl⟩ := cons.inj hfirst
        exact hended

theorem PairCut.eq_ended {xs : List α} {ls : List (List α)} (h : PairCut a xs ls) : ls = ended a xs := by
  induction h with
  | rest h => exact (ended_of_absent h).symm
  | part hfirst _ ih => rw [ended_append_pair hfirst, ← ih]

theorem not_mem_of_mem_splitOn {xs l : List α} (h : l ∈ xs.splitOn a) : a ∉ l := by
  induction xs generalizing l with
  | nil =>
      obtain rfl : l = [] := by simpa using h
      exact not_mem_nil
  | cons x xs ih =>
      rw [splitOn_cons_eq_if_modifyHead] at h
      split at h
      · rcases mem_cons.mp h with rfl | h
        · exact not_mem_nil
        · exact ih h
      · next hne =>
          cases hsplit : xs.splitOn a with
          | nil => exact absurd hsplit (splitOn_ne_nil a xs)
          | cons first rest =>
              rw [hsplit, modifyHead_cons] at h
              rcases mem_cons.mp h with rfl | h
              · rw [mem_cons, not_or]
                exact ⟨fun hx => hne (beq_iff_eq.mpr hx.symm), ih (hsplit ▸ mem_cons_self)⟩
              · exact ih (hsplit ▸ mem_cons_of_mem _ h)

end List
