import KajovoDagmar.Audit.Service
import KajovoDagmar.Db.Sample

/-! # Sanitized details

The details of an audit event are meant to carry no secret and no long text at any depth.  `_sanitize` enters the
objects of an object and those of an array, and cuts the texts of an object; it enters no array of an array and
cuts no text of an array.  So the details are sanitized exactly when these have nothing to sanitize
(`sanitized_iff`). -/

namespace Json

/-- A value is part of another one, at any depth. -/
inductive Within (j : Json) : Json → Prop where
  | refl : Within j j
  | entry {kvs : List (String × Json)} {k : String} {v : Json} (hmem : (k, v) ∈ kvs) (h : Within j v) :
      Within j (obj kvs)
  | item {xs : List Json} {x : Json} (hmem : x ∈ xs) (h : Within j x) : Within j (arr xs)

end Json

namespace KajovoDagmar

namespace AuditService

open Json (Within)

variable (rt : Runtime)

/-- The key contains a forbidden word. -/
def forbiddenKey (key : String) : Bool := forbidden.any (PythonText.contains (rt.casefold key))

/-- What is under a forbidden key, at any depth, is redacted. -/
def Redacted (j : Json) : Prop :=
  ∀ kvs, Within (.obj kvs) j → ∀ kv ∈ kvs, forbiddenKey rt kv.1 = true → kv.2 = .str "[redacted]"

/-- The texts are short, at any depth. -/
def Bounded (j : Json) : Prop := ∀ s, Within (.str s) j → s.length ≤ 500

/-- There is nothing to sanitize. -/
def Clean (j : Json) : Prop := Redacted rt j ∧ Bounded j

mutual

/-- A value is unchanged, but for what is under a forbidden key and for long texts, which may be cut. -/
def Kept : Json → Json → Prop
  | .obj kvs, .obj kvs' => KeptEntries kvs kvs'
  | .arr xs, .arr ys => KeptItems xs ys
  | .str s, .str t => t.toList <+: s.toList ∧ (s.length ≤ 500 → t = s)
  | j, j' => j = j'

def KeptEntries : List (String × Json) → List (String × Json) → Prop
  | (k, v) :: kvs, (k', v') :: kvs' => k = k' ∧ (forbiddenKey rt k = true ∨ Kept v v') ∧ KeptEntries kvs kvs'
  | [], [] => True
  | _, _ => False

def KeptItems : List Json → List Json → Prop
  | x :: xs, y :: ys => Kept x y ∧ KeptItems xs ys
  | [], [] => True
  | _, _ => False

end

/-- The details are sanitized at every depth, and for good. -/
structure Sanitized (details result : List (String × Json)) : Prop where
  redacted : Redacted rt (.obj result)
  bounded : Bounded (.obj result)
  kept : Kept rt (.obj details) (.obj result)
  settled : sanitize rt result = result

mutual

/-- The arrays that are reached have, beside objects, only elements with nothing to sanitize. -/
def Reaches : List (String × Json) → Prop
  | [] => True
  | (k, v) :: kvs => (forbiddenKey rt k = true ∨ ReachesValue v) ∧ Reaches kvs

def ReachesValue : Json → Prop
  | .obj kvs => Reaches kvs
  | .arr xs => ReachesItems xs
  | _ => True

def ReachesItems : List Json → Prop
  | [] => True
  | .obj kvs :: xs => Reaches kvs ∧ ReachesItems xs
  | x :: xs => Clean rt x ∧ ReachesItems xs

end

variable {rt}

/-! ### What is clean -/

theorem clean_of_leaf {j : Json} (hobj : ∀ kvs, j ≠ .obj kvs) (harr : ∀ xs, j ≠ .arr xs) (hstr : ∀ s, j ≠ .str s) :
    Clean rt j := by
  refine ⟨fun kvs hwithin => ?_, fun s hwithin => ?_⟩
  · cases hwithin with
    | refl => exact absurd rfl (hobj kvs)
    | entry hmem _ => exact absurd rfl (hobj _)
    | item hmem _ => exact absurd rfl (harr _)
  · cases hwithin with
    | refl => exact absurd rfl (hstr s)
    | entry hmem _ => exact absurd rfl (hobj _)
    | item hmem _ => exact absurd rfl (harr _)

theorem clean_str {s : String} : Clean rt (.str s) ↔ s.length ≤ 500 := by
  refine ⟨fun h => h.2 s .refl, fun h => ⟨fun kvs hwithin => ?_, fun t hwithin => ?_⟩⟩
  · cases hwithin
  · cases hwithin
    exact h

theorem clean_obj {kvs : List (String × Json)} : Clean rt (.obj kvs) ↔
    ∀ kv ∈ kvs, (forbiddenKey rt kv.1 = true → kv.2 = .str "[redacted]") ∧ Clean rt kv.2 := by
  refine ⟨fun h kv hmem => ⟨h.1 kvs .refl kv hmem, fun kvs' hwithin => ?_, fun s hwithin => ?_⟩,
    fun h => ⟨fun kvs' hwithin => ?_, fun s hwithin => ?_⟩⟩
  · exact h.1 kvs' (.entry hmem hwithin)
  · exact h.2 s (.entry hmem hwithin)
  · cases hwithin with
    | refl => exact fun kv hmem => (h kv hmem).1
    | entry hmem hwithin => exact (h _ hmem).2.1 kvs' hwithin
  · cases hwithin with
    | entry hmem hwithin => exact (h _ hmem).2.2 s hwithin

theorem clean_arr {xs : List Json} : Clean rt (.arr xs) ↔ ∀ x ∈ xs, Clean rt x := by
  refine ⟨fun h x hmem => ⟨fun kvs hwithin => h.1 kvs (.item hmem hwithin),
    fun s hwithin => h.2 s (.item hmem hwithin)⟩, fun h => ⟨fun kvs hwithin => ?_, fun s hwithin => ?_⟩⟩
  · cases hwithin with
    | item hmem hwithin => exact (h _ hmem).1 kvs hwithin
  · cases hwithin with
    | item hmem hwithin => exact (h _ hmem).2 s hwithin

theorem clean_redacted : Clean rt (.str "[redacted]") := clean_str.mpr (by decide)

theorem clean_take (s : String) : Clean rt (.str (if 500 < s.length then PythonText.take s 500 else s)) := by
  refine clean_str.mpr ?_
  split
  · rw [PythonText.take, String.length_ofList, List.length_take]
    exact Nat.min_le_left _ _
  · next hshort => exact Nat.not_lt.mp hshort

/-! ### What the code does -/

/-- The elements of an array that are no objects are left as they are. -/
theorem sanitizeItems_cons {x : Json} (hobj : ∀ kvs, x ≠ .obj kvs) (xs : List Json) :
    sanitizeItems rt (x :: xs) = x :: sanitizeItems rt xs := by
  cases x with
  | obj kvs => exact absurd rfl (hobj kvs)
  | null => rfl
  | bool b => rfl
  | int n => rfl
  | float r => rfl
  | str s => rfl
  | arr ys => rfl

mutual

theorem Kept.refl : ∀ j : Json, Kept rt j j
  | .obj kvs => by
    rw [Kept]
    exact KeptEntries.refl kvs
  | .arr xs => by
    rw [Kept]
    exact KeptItems.refl xs
  | .str s => by
    rw [Kept]
    exact ⟨List.prefix_rfl, fun _ => rfl⟩
  | .null => by simp [Kept]
  | .bool b => by simp [Kept]
  | .int n => by simp [Kept]
  | .float r => by simp [Kept]

theorem KeptEntries.refl : ∀ kvs : List (String × Json), KeptEntries rt kvs kvs
  | [] => by simp [KeptEntries]
  | (k, v) :: kvs => by
    rw [KeptEntries]
    exact ⟨rfl, .inr (Kept.refl v), KeptEntries.refl kvs⟩

theorem KeptItems.refl : ∀ xs : List Json, KeptItems rt xs xs
  | [] => by simp [KeptItems]
  | x :: xs => by
    rw [KeptItems]
    exact ⟨Kept.refl x, KeptItems.refl xs⟩

end

mutual

theorem sanitize_kept : ∀ details : List (String × Json), KeptEntries rt details (sanitize rt details)
  | [] => by simp [sanitize, KeptEntries]
  | (k, v) :: rest => by
    rw [sanitize, KeptEntries]
    refine ⟨rfl, ?_, sanitize_kept rest⟩
    by_cases hk : forbiddenKey rt k = true
    · exact .inl hk
    · rw [if_neg (by simpa [forbiddenKey] using hk)]
      exact .inr (sanitizeValue_kept v)

theorem sanitizeValue_kept : ∀ v : Json, Kept rt v (sanitizeValue rt v)
  | .obj kvs => by
    rw [sanitizeValue, Kept]
    exact sanitize_kept kvs
  | .arr xs => by
    rw [sanitizeValue, Kept]
    exact sanitizeItems_kept xs
  | .str s => by
    rw [sanitizeValue, Kept]
    split
    · next hlong =>
      refine ⟨?_, fun hshort => absurd hlong (Nat.not_lt.mpr hshort)⟩
      rw [PythonText.take, String.toList_ofList]
      exact List.take_prefix _ _
    · exact ⟨List.prefix_rfl, fun _ => rfl⟩
  | .null => by simp [sanitizeValue, Kept]
  | .bool b => by simp [sanitizeValue, Kept]
  | .int n => by simp [sanitizeValue, Kept]
  | .float r => by simp [sanitizeValue, Kept]

theorem sanitizeItems_kept : ∀ xs : List Json, KeptItems rt xs (sanitizeItems rt xs)
  | [] => by simp [sanitizeItems, KeptItems]
  | .obj kvs :: xs => by
    rw [sanitizeItems, KeptItems, Kept]
    exact ⟨sanitize_kept kvs, sanitizeItems_kept xs⟩
  | .arr ys :: xs => by
    rw [sanitizeItems_cons (by simp), KeptItems]
    exact ⟨Kept.refl _, sanitizeItems_kept xs⟩
  | .str s :: xs => by
    rw [sanitizeItems_cons (by simp), KeptItems]
    exact ⟨Kept.refl _, sanitizeItems_kept xs⟩
  | .null :: xs => by
    rw [sanitizeItems_cons (by simp), KeptItems]
    exact ⟨Kept.refl _, sanitizeItems_kept xs⟩
  | .bool b :: xs => by
    rw [sanitizeItems_cons (by simp), KeptItems]
    exact ⟨Kept.refl _, sanitizeItems_kept xs⟩
  | .int n :: xs => by
    rw [sanitizeItems_cons (by simp), KeptItems]
    exact ⟨Kept.refl _, sanitizeItems_kept xs⟩
  | .float r :: xs => by
    rw [sanitizeItems_cons (by simp), KeptItems]
    exact ⟨Kept.refl _, sanitizeItems_kept xs⟩

end

/-- A cut text is not cut again. -/
theorem sanitizeValue_cut (s : String) :
    sanitizeValue rt (.str (if 500 < s.length then PythonText.take s 500 else s)) =
      .str (if 500 < s.length then PythonText.take s 500 else s) := by
  have hshort := clean_str.mp (clean_take s : Clean rt _)
  rw [sanitizeValue, if_neg (Nat.not_lt.mpr hshort)]

mutual

/-- **Sanitizing again changes nothing.** -/
theorem sanitize_settled : ∀ details : List (String × Json), sanitize rt (sanitize rt details) = sanitize rt details
  | [] => rfl
  | (k, v) :: rest => by
    rw [sanitize, sanitize, sanitize_settled rest]
    split
    · rfl
    · rw [sanitizeValue_settled v]

theorem sanitizeValue_settled : ∀ v : Json, sanitizeValue rt (sanitizeValue rt v) = sanitizeValue rt v
  | .obj kvs => by rw [sanitizeValue, sanitizeValue, sanitize_settled kvs]
  | .arr xs => by rw [sanitizeValue, sanitizeValue, sanitizeItems_settled xs]
  | .str s => sanitizeValue_cut s
  | .null => rfl
  | .bool _ => rfl
  | .int _ => rfl
  | .float _ => rfl

theorem sanitizeItems_settled : ∀ xs : List Json,
    sanitizeItems rt (sanitizeItems rt xs) = sanitizeItems rt xs
  | [] => rfl
  | .obj kvs :: xs => by rw [sanitizeItems, sanitizeItems, sanitize_settled kvs, sanitizeItems_settled xs]
  | .arr ys :: xs => congrArg (Json.arr ys :: ·) (sanitizeItems_settled xs)
  | .str s :: xs => congrArg (Json.str s :: ·) (sanitizeItems_settled xs)
  | .null :: xs => congrArg (Json.null :: ·) (sanitizeItems_settled xs)
  | .bool b :: xs => congrArg (Json.bool b :: ·) (sanitizeItems_settled xs)
  | .int n :: xs => congrArg (Json.int n :: ·) (sanitizeItems_settled xs)
  | .float r :: xs => congrArg (Json.float r :: ·) (sanitizeItems_settled xs)

end

/-! ### When it is enough -/

theorem clean_cons {k : String} {v : Json} {kvs : List (String × Json)} : Clean rt (.obj ((k, v) :: kvs)) ↔
    (forbiddenKey rt k = true → v = .str "[redacted]") ∧ Clean rt v ∧ Clean rt (.obj kvs) := by
  rw [clean_obj, clean_obj, List.forall_mem_cons, and_assoc]

theorem clean_items_cons {x : Json} {xs : List Json} :
    Clean rt (.arr (x :: xs)) ↔ Clean rt x ∧ Clean rt (.arr xs) := by
  rw [clean_arr, clean_arr, List.forall_mem_cons]

/-- An element that is no object stays as it is, so it has to be clean. -/
theorem clean_untouched {x : Json} {xs : List Json} (hobj : ∀ kvs, x ≠ .obj kvs)
    (h : Clean rt (.arr (sanitizeItems rt xs)) ↔ ReachesItems rt xs) :
    Clean rt (.arr (sanitizeItems rt (x :: xs))) ↔ Clean rt x ∧ ReachesItems rt xs := by
  rw [sanitizeItems_cons hobj, clean_items_cons, h]

mutual

theorem clean_sanitize : ∀ details : List (String × Json),
    Clean rt (.obj (sanitize rt details)) ↔ Reaches rt details
  | [] => by simp [sanitize, Reaches, clean_obj]
  | (k, v) :: rest => by
    rw [sanitize, clean_cons, clean_sanitize rest, Reaches]
    by_cases hk : forbiddenKey rt k = true
    · have hany : forbidden.any (PythonText.contains (rt.casefold k)) = true := hk
      rw [if_pos hany]
      exact ⟨fun h => ⟨.inl hk, h.2.2⟩, fun h => ⟨fun _ => rfl, clean_redacted, h.2⟩⟩
    · have hany : ¬forbidden.any (PythonText.contains (rt.casefold k)) = true := hk
      rw [if_neg hany, clean_sanitizeValue v]
      exact ⟨fun h => ⟨.inr h.2.1, h.2.2⟩, fun h => ⟨fun hkey => absurd hkey hk, h.1.resolve_left hk, h.2⟩⟩

theorem clean_sanitizeValue : ∀ v : Json, Clean rt (sanitizeValue rt v) ↔ ReachesValue rt v
  | .obj kvs => by rw [sanitizeValue, ReachesValue, clean_sanitize kvs]
  | .arr xs => by rw [sanitizeValue, ReachesValue, clean_sanitizeItems xs]
  | .str s => iff_of_true (clean_take s) trivial
  | .null => iff_of_true (clean_of_leaf (j := .null) (by simp) (by simp) (by simp)) trivial
  | .bool b => iff_of_true (clean_of_leaf (j := .bool b) (by simp) (by simp) (by simp)) trivial
  | .int n => iff_of_true (clean_of_leaf (j := .int n) (by simp) (by simp) (by simp)) trivial
  | .float r => iff_of_true (clean_of_leaf (j := .float r) (by simp) (by simp) (by simp)) trivial

theorem clean_sanitizeItems : ∀ xs : List Json, Clean rt (.arr (sanitizeItems rt xs)) ↔ ReachesItems rt xs
  | [] => by simp [sanitizeItems, ReachesItems, clean_arr]
  | .obj kvs :: xs => by
    rw [sanitizeItems, clean_items_cons, clean_sanitize kvs, clean_sanitizeItems xs, ReachesItems]
  | .arr ys :: xs => clean_untouched (by simp) (clean_sanitizeItems xs)
  | .str s :: xs => clean_untouched (by simp) (clean_sanitizeItems xs)
  | .null :: xs => clean_untouched (by simp) (clean_sanitizeItems xs)
  | .bool b :: xs => clean_untouched (by simp) (clean_sanitizeItems xs)
  | .int n :: xs => clean_untouched (by simp) (clean_sanitizeItems xs)
  | .float r :: xs => clean_untouched (by simp) (clean_sanitizeItems xs)

end

/-- **The details are sanitized exactly when the arrays in them have nothing to sanitize**, beside objects and
what is under a forbidden key. -/
theorem sanitized_iff (rt : Runtime) (details : List (String × Json)) :
    Sanitized rt details (sanitize rt details) ↔ Reaches rt details := by
  rw [← clean_sanitize]
  refine ⟨fun h => ⟨h.redacted, h.bounded⟩, fun h => ⟨h.1, h.2, ?_, sanitize_settled details⟩⟩
  rw [Kept]
  exact sanitize_kept details

/-- An array in an array keeps a password. -/
theorem nested_array_kept : ¬Sanitized (.sample 0 []) [("steps", .arr [.arr [.obj [("password", .str "hunter2")]]])]
    (sanitize (.sample 0 []) [("steps", .arr [.arr [.obj [("password", .str "hunter2")]]])]) := by
  intro h
  have hwithin : Within (.obj [("password", .str "hunter2")])
      (.obj [("steps", .arr [.arr [.obj [("password", .str "hunter2")]]])]) :=
    .entry List.mem_cons_self (.item List.mem_cons_self (.item List.mem_cons_self .refl))
  have hresult : sanitize (.sample 0 []) [("steps", .arr [.arr [.obj [("password", .str "hunter2")]]])] =
      [("steps", .arr [.arr [.obj [("password", .str "hunter2")]]])] := by
    rw [sanitize, if_neg (by decide)]
    rfl
  have hredacted := h.redacted _ (hresult ▸ hwithin) _ List.mem_cons_self (by decide)
  exact absurd (Json.str.inj hredacted) (by decide)

end AuditService

end KajovoDagmar
