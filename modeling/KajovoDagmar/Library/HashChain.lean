import Mathlib.Data.List.Forall2
import Mathlib.Data.List.Induction
import Mathlib.Order.Notation

/-! # Hash chains

The entries of a chain store the hash of the entry before them and a hash that is computed from
their own contents and that hash.  An accepted chain commits to its contents: the last hash
determines every entry, and an entry that is changed while the stored hashes are kept is the
first one that no longer fits. -/

namespace HashChain

universe u v

/-- How a chain of entries `E` is hashed. -/
structure Scheme (E : Type u) (H : Type v) where
  previous : E → Option H
  hash : E → H
  /-- The hash of an entry that follows the given hash. -/
  compute : E → Option H → H

namespace Scheme

variable {E : Type u} {H : Type v} (c : Scheme E H)

/-- Every entry stores the hash before it and the hash that is computed for it. -/
def Valid : Option H → List E → Prop
  | _, [] => True
  | p, e :: es => (c.previous e = p ∧ c.hash e = c.compute e p) ∧ Valid (some (c.hash e)) es

/-- The hash that the entry after `es` stores. -/
def tip (p : Option H) (es : List E) : Option H := es.getLast?.elim p fun e => some (c.hash e)

variable {c} {p : Option H} {es fs : List E} {e : E}

@[simp] theorem tip_nil : c.tip p [] = p := rfl

@[simp] theorem tip_concat : c.tip p (es ++ [e]) = some (c.hash e) := by
  simp [tip]

theorem tip_append : c.tip p (es ++ fs) = c.tip (c.tip p es) fs := by
  induction fs using List.reverseRecOn with
  | nil => simp
  | append_singleton fs f ih => rw [← List.append_assoc, tip_concat, tip_concat]

theorem tip_cons : c.tip p (e :: es) = c.tip (some (c.hash e)) es := by
  rw [← List.singleton_append, tip_append]
  rfl

theorem valid_append : c.Valid p (es ++ fs) ↔ c.Valid p es ∧ c.Valid (c.tip p es) fs := by
  induction es generalizing p with
  | nil => simp [Valid]
  | cons e es ih => simp only [List.cons_append, Valid, ih, tip_cons, and_assoc]

theorem valid_concat : c.Valid p (es ++ [e]) ↔
    c.Valid p es ∧ c.previous e = c.tip p es ∧ c.hash e = c.compute e (c.tip p es) := by
  rw [valid_append]
  simp [Valid]

/-- In an accepted chain the hash is computed from the stored hash of the entry before. -/
theorem Valid.hash_eq (h : c.Valid p es) : ∀ e ∈ es, c.hash e = c.compute e (c.previous e) := by
  induction es generalizing p with
  | nil => simp
  | cons e es ih =>
      obtain ⟨⟨hp, hh⟩, hrest⟩ := h
      intro x hx
      rcases List.mem_cons.mp hx with rfl | hx
      · rw [hh, hp]
      · exact ih hrest x hx

section commitment

variable {Same : E → E → Prop}

/-- **Commitment**: accepted chains with the same last hash have the same contents, entry by
entry. -/
theorem Valid.agree {es es' : List E} (h : c.Valid none es) (h' : c.Valid none es')
    (hinj : ∀ e ∈ es, ∀ e' ∈ es', c.compute e (c.previous e) = c.compute e' (c.previous e') →
      Same e e' ∧ c.previous e = c.previous e')
    (htip : c.tip none es = c.tip none es') :
    List.Forall₂ (fun e e' => Same e e' ∧ c.previous e = c.previous e') es es' := by
  induction es using List.reverseRecOn generalizing es' with
  | nil =>
      -- the empty chain has no last hash
      induction es' using List.reverseRecOn with
      | nil => exact .nil
      | append_singleton es' e' => simp at htip
  | append_singleton es e ih =>
      induction es' using List.reverseRecOn with
      | nil => simp at htip
      | append_singleton es' e' =>
          have he : e ∈ es ++ [e] := by simp
          have he' : e' ∈ es' ++ [e'] := by simp
          have hhash : c.hash e = c.hash e' := by simpa using htip
          have hlast := hinj e he e' he' (by rw [← h.hash_eq e he, ← h'.hash_eq e' he', hhash])
          obtain ⟨hvalid, hprevious, -⟩ := valid_concat.mp h
          obtain ⟨hvalid', hprevious', -⟩ := valid_concat.mp h'
          have hinit := ih hvalid hvalid'
            (fun x hx y hy => hinj x (List.mem_append_left _ hx) y (List.mem_append_left _ hy))
            (by rw [← hprevious, ← hprevious', hlast.2])
          exact List.rel_append hinit (.cons hlast .nil)

end commitment

/-- The first place where entries that are paired by `K` are not related by `R`. -/
theorem exists_first {K R : E → E → Prop} {es es' : List E} (hpairs : List.Forall₂ K es es')
    (h : ¬List.Forall₂ R es es') :
    ∃ pre e post pre' e' post', es = pre ++ e :: post ∧ es' = pre' ++ e' :: post' ∧
      List.Forall₂ (fun x y => K x y ∧ R x y) pre pre' ∧ K e e' ∧ ¬R e e' := by
  induction hpairs with
  | nil => exact absurd .nil h
  | @cons x y xs ys hxy hxys ih =>
      by_cases hR : R x y
      · obtain ⟨pre, e, post, pre', e', post', rfl, rfl, hpre, hrest⟩ :=
          ih fun hxys => h (.cons hR hxys)
        exact ⟨x :: pre, e, post, y :: pre', e', post', rfl, rfl, .cons ⟨hxy, hR⟩ hpre, hrest⟩
      · exact ⟨[], x, xs, [], y, ys, rfl, rfl, .nil, hxy, hR⟩

/-! ### Checking -/

section checking

variable [DecidableEq H]

/-- The first entry that does not fit. -/
def firstBad (c : Scheme E H) : Option H → List E → Option E
  | _, [] => none
  | p, e :: es =>
    if c.previous e ≠ p ∨ c.hash e ≠ c.compute e p then some e else c.firstBad (some (c.hash e)) es

theorem firstBad_eq_none : c.firstBad p es = none ↔ c.Valid p es := by
  induction es generalizing p with
  | nil => simp [firstBad, Valid]
  | cons e es ih =>
      rw [firstBad, Valid]
      split
      · next hbad => simpa using fun hp hh => (hbad.elim (· hp) (· hh)).elim
      · next hgood =>
        rw [not_or, not_not, not_not] at hgood
        rw [ih]
        exact ⟨fun h => ⟨hgood, h⟩, fun h => h.2⟩

theorem firstBad_append (h : c.Valid p es) :
    c.firstBad p (es ++ fs) = c.firstBad (c.tip p es) fs := by
  induction es generalizing p with
  | nil => rfl
  | cons e es ih =>
      obtain ⟨⟨hp, hh⟩, hrest⟩ := h
      have hgood : ¬(c.previous e ≠ p ∨ c.hash e ≠ c.compute e p) := by simp [hp, ← hh]
      rw [List.cons_append, firstBad, if_neg hgood, ih hrest, tip_cons]

variable {Same : E → E → Prop}

/-- The stored hashes of an entry are kept. -/
def Keeps (c : Scheme E H) (e e' : E) : Prop := c.previous e' = c.previous e ∧ c.hash e' = c.hash e

omit [DecidableEq H] in
/-- A chain in which nothing that is hashed has changed is accepted, with the same last hash. -/
theorem Valid.of_same (hsame : ∀ e e' q, Same e e' → c.compute e' q = c.compute e q)
    {es es' : List E} (h : c.Valid p es)
    (hpairs : List.Forall₂ (fun e e' => c.Keeps e e' ∧ Same e e') es es') :
    c.Valid p es' ∧ c.tip p es' = c.tip p es := by
  induction hpairs generalizing p with
  | nil => exact ⟨trivial, rfl⟩
  | @cons e e' es es' hpair hpairs ih =>
      obtain ⟨⟨hp, hh⟩, hrest⟩ := h
      obtain ⟨⟨hkp, hkh⟩, hs⟩ := hpair
      have htail := ih hrest
      refine ⟨⟨⟨hkp.trans hp, ?_⟩, ?_⟩, ?_⟩
      · rw [hkh, hh, hsame e e' p hs]
      · rw [hkh]
        exact htail.1
      · rw [tip_cons, tip_cons, hkh, htail.2]

/-- **Location**: an entry whose contents are changed under the stored hashes is found, when
nothing before it has changed. -/
theorem firstBad_of_changed (hsame : ∀ e e' q, Same e e' → c.compute e' q = c.compute e q)
    {pre pre' post post' : List E} {e e' : E} (h : c.Valid p (pre ++ e :: post))
    (hpre : List.Forall₂ (fun e e' => c.Keeps e e' ∧ Same e e') pre pre') (hkeeps : c.Keeps e e')
    (hchanged : c.compute e' (c.previous e') ≠ c.compute e (c.previous e)) :
    c.firstBad p (pre' ++ e' :: post') = some e' := by
  obtain ⟨hvalid, ⟨hprevious, hhash⟩, -⟩ := valid_append.mp h
  obtain ⟨hvalid', htip⟩ := hvalid.of_same hsame hpre
  rw [firstBad_append hvalid', htip, firstBad, if_pos]
  right
  rw [hkeeps.2, hhash, ← hprevious]
  rw [hkeeps.1] at hchanged
  exact hchanged.symm

end checking

end Scheme

end HashChain
