import KajovoDagmar.Db.Session
import KajovoDagmar.Library.PythonText
import KajovoDagmar.Library.Sha256
import Mathlib.Tactic.IntervalCases
import Mathlib.Tactic.Ring

/-! # A runtime for concrete runs

`Runtime.sample` evaluates runs on ASCII text: identifiers have their canonical text form,
times are read from a clock that starts at a given instant and advances by one second at each
reading, and the datetime texts that a run reads are given in a table. -/

namespace KajovoDagmar.Runtime

/-- The canonical text of a UUID. -/
def uuidText (u : Uuid) : String :=
  let digit (i : ℕ) : Char := Nat.digitChar (u / 16 ^ (31 - i) % 16)
  let group (start length : ℕ) : List Char := (List.range' start length).map digit
  String.ofList (List.intercalate ['-'] [group 0 8, group 8 4, group 12 4, group 16 4, group 20 12])

/-- The value of a hexadecimal digit. -/
def hexValue? (c : Char) : Option ℕ :=
  let i := "0123456789abcdef".toList.idxOf c
  if i < 16 then some i else none

def parseUuidText (s : String) : Option Uuid :=
  let digits := (s.toList.filter (· ≠ '-')).map hexValue?
  if digits.length = 32 ∧ digits.all Option.isSome then
    some (digits.foldl (fun n d => 16 * n + d.getD 0) 0)
  else none

/-! ### Identifiers are read back -/

theorem hexValue?_digitChar {d : ℕ} (h : d < 16) : hexValue? (Nat.digitChar d) = some d := by
  interval_cases d <;> decide

theorem hexValue?_lt {c : Char} {d : ℕ} (h : hexValue? c = some d) : d < 16 := by
  unfold hexValue? at h
  simp only at h
  split at h
  · next hi => exact Option.some.inj h ▸ hi
  · simp at h

theorem digitChar_ne_dash (d : ℕ) (h : d < 16) : Nat.digitChar d ≠ '-' := by
  interval_cases d <;> decide

/-- The value of hexadecimal digits is bounded by their number. -/
theorem foldl_digits_lt {ds : List (Option ℕ)} (h : ∀ d ∈ ds, d.getD 0 < 16) (n : ℕ) :
    ds.foldl (fun n d => 16 * n + d.getD 0) n < (n + 1) * 16 ^ ds.length := by
  induction ds generalizing n with
  | nil => simp
  | cons d ds ih =>
      rw [List.foldl_cons, List.length_cons]
      refine (ih (fun x hx => h x (List.mem_cons_of_mem _ hx)) _).trans_le ?_
      have hd := h d List.mem_cons_self
      calc (16 * n + d.getD 0 + 1) * 16 ^ ds.length
          ≤ ((n + 1) * 16) * 16 ^ ds.length := Nat.mul_le_mul_right _ (by omega)
        _ = (n + 1) * 16 ^ (ds.length + 1) := by ring

/-- The leading hexadecimal digits of a number have its leading part as their value. -/
theorem foldl_digits (u : ℕ) {k : ℕ} (hk : k ≤ 32) :
    (List.range k).foldl (fun n i => 16 * n + u / 16 ^ (31 - i) % 16) 0 =
      u / 16 ^ (32 - k) % 16 ^ k := by
  induction k with
  | zero => simp [Nat.mod_one]
  | succ k ih =>
      rw [List.range_succ, List.foldl_append, ih (by omega)]
      have hsplit : 32 - k = (31 - k) + 1 := by omega
      have hshift : 32 - (k + 1) = 31 - k := by omega
      rw [hsplit, hshift, pow_succ, ← Nat.div_div_eq_div_mul, pow_succ' 16 k, Nat.mod_mul]
      simp only [List.foldl_cons, List.foldl_nil]
      omega

theorem uuidText_digits (u : Uuid) : (uuidText u).toList.filter (· ≠ '-') =
    (List.range 32).map fun i => Nat.digitChar (u / 16 ^ (31 - i) % 16) := by
  have hgroup : ∀ is : List ℕ, (is.map fun i => Nat.digitChar (u / 16 ^ (31 - i) % 16)).filter (· ≠ '-') =
      is.map fun i => Nat.digitChar (u / 16 ^ (31 - i) % 16) := by
    intro is
    rw [List.filter_eq_self]
    intro c hc
    obtain ⟨i, -, rfl⟩ := List.mem_map.mp hc
    exact decide_eq_true (digitChar_ne_dash _ (Nat.mod_lt _ (by decide)))
  simp only [uuidText, String.toList_ofList, List.intercalate, List.intersperse, List.flatten_cons,
    List.flatten_nil, List.append_nil, List.filter_append, hgroup]
  simp only [List.filter_cons, List.filter_nil, ne_eq, not_true_eq_false, decide_false, Bool.false_eq_true,
    if_false, List.nil_append, ← List.map_append]
  rfl

/-- The text of an identifier is read back. -/
theorem parseUuidText_of_lt {u : Uuid} (hlt : u < 16 ^ 32) : parseUuidText (uuidText u) = some u := by
  have hdigits : ((uuidText u).toList.filter (· ≠ '-')).map hexValue? =
      (List.range 32).map fun i => some (u / 16 ^ (31 - i) % 16) := by
    rw [uuidText_digits, List.map_map]
    refine List.map_congr_left fun i _ => ?_
    exact hexValue?_digitChar (Nat.mod_lt _ (by decide))
  unfold parseUuidText
  simp only [hdigits]
  rw [if_pos]
  · rw [List.foldl_map]
    have hfold := foldl_digits u (k := 32) (Nat.le_refl 32)
    simp only [Option.getD_some]
    rw [hfold, Nat.sub_self, pow_zero, Nat.div_one, Nat.mod_eq_of_lt hlt]
  · constructor
    · simp
    · simp

theorem parseUuidText_lt {s : String} {u : Uuid} (h : parseUuidText s = some u) : u < 16 ^ 32 := by
  unfold parseUuidText at h
  simp only at h
  split at h
  · next hd =>
    obtain rfl := Option.some.inj h
    refine (foldl_digits_lt ?_ 0).trans_eq ?_
    · intro d hd'
      obtain ⟨c, -, rfl⟩ := List.mem_map.mp hd'
      cases hc : hexValue? c with
      | none => decide
      | some d => exact hexValue?_lt hc
    · rw [hd.1]
      rfl
  · simp at h

/-- The text of an identifier that was read is read back. -/
theorem parseUuidText_uuidText {s : String} {u : Uuid} (h : parseUuidText s = some u) :
    parseUuidText (uuidText u) = some u :=
  parseUuidText_of_lt (parseUuidText_lt h)

/-! ### Instants -/

def padded (width : ℕ) (n : ℕ) : String :=
  String.ofList ((List.range width).reverse.map fun i => Nat.digitChar (n / 10 ^ i % 10))

/-- The date of a day counted from 1970-01-01, as year, month and day. -/
def civil (day : ℤ) : ℕ × ℕ × ℕ :=
  let z := (day + 719468).toNat
  let era := z / 146097
  let doe := z % 146097
  let yoe := (doe - doe / 1460 + doe / 36524 - doe / 146096) / 365
  let doy := doe - (365 * yoe + yoe / 4 - yoe / 100)
  let mp := (5 * doy + 2) / 153
  let month := if mp < 10 then mp + 3 else mp - 9
  (yoe + era * 400 + (if month ≤ 2 then 1 else 0), month, doy - (153 * mp + 2) / 5 + 1)

/-- The ISO text of an instant, with the given text for the offset. -/
def isoText (suffix : String) (instant : ℤ) : String :=
  let seconds := instant / 1000000
  let micros := (instant % 1000000).toNat
  let (year, month, day) := civil (seconds / 86400)
  let second := (seconds % 86400).toNat
  padded 4 year ++ "-" ++ padded 2 month ++ "-" ++ padded 2 day ++ "T" ++ padded 2 (second / 3600) ++
    ":" ++ padded 2 (second / 60 % 60) ++ ":" ++ padded 2 (second % 60) ++
    (if micros = 0 then "" else "." ++ padded 6 micros) ++ suffix

def lookup {α : Type} (table : List (String × α)) (key : String) : Option α :=
  (table.find? fun kv => kv.1 = key).map Prod.snd

def sample (start : ℤ) (datetimes : List (String × DateTime)) : Runtime where
  clock tick := start + 1000000 * tick
  uuid4 tick := 2 ^ 64 + tick
  nfc s := s
  casefold s := String.ofList (s.toList.map Char.toLower)
  sha256 := Sha256.sha256Hex
  strUuid := uuidText
  parseUuid := parseUuidText
  isoformat d := isoText "+00:00" d.wall
  dumpDatetime d := isoText "Z" d.wall
  pyInt
    | .int n => .ok n
    | .bool b => .ok (if b then 1 else 0)
    | .str _ => .error "ValueError"
    | _ => .error "TypeError"
  pyRepr _ := ""
  floatEqInt _ _ := false
  validateDatetime
    | .str s => lookup datetimes s
    | _ => none
  validateUuid
    | .str s => parseUuidText s
    | _ => none
  validateBool
    | .bool b => some b
    | _ => none
  localOffset _ := 0
  lower s := String.ofList (s.toList.map Char.toLower)
  like text pattern := PythonText.contains text (String.ofList (pattern.toList.filter (· ≠ '%')))
  ilike text pattern := PythonText.contains (String.ofList (text.toList.map Char.toLower))
    (String.ofList ((pattern.toList.filter (· ≠ '%')).map Char.toLower))
  limitOne _ := 0
  rejectsInsert _ _ := none
  rejectsUpdate _ := none

example : uuidText 10 = "00000000-0000-0000-0000-00000000000a" ∧
    parseUuidText (uuidText 10) = some 10 := by decide

example : isoText "Z" 1767225600000000 = "2026-01-01T00:00:00Z" := by decide +kernel

end KajovoDagmar.Runtime

namespace KajovoDagmar

/-- The database of account 1 with conversation 2 and the given messages, in which a verified
model is selected. -/
def Db.sample (messages : Table ConversationMessage.id) : Db where
  conversations := .singleton
    { id := 2, accountId := 1, startedAt := .utc 1767265200000000
      lastActivityAt := .utc 1767265200000000, messageCount := messages.rows.length }
  conversationMessages := messages
  applicationSettings := .singleton
    { id := 6, area := "models", key := "conversation_model"
      value := .obj [("value", .str "00000000-0000-0000-0000-000000000004")] }
  modelCatalogEntries := .singleton
    { id := 4, providerId := 5, externalId := "gpt-test", displayName := "gpt-test"
      role := "conversation_model", available := true, lastSeenAt := .utc 1767265200000000
      capabilities := .obj [("responses", .bool true), ("structured_outputs", .bool true)] }
  providerConfigurations := .singleton
    { id := 5, providerType := "openai", displayName := "OpenAI", baseUrl := "https://api.openai.com/v1"
      enabled := true, verificationState := "verified" }

/-- The first user message of the sample conversation. -/
def ConversationMessage.sample (content : String) : ConversationMessage :=
  { id := 3, conversationId := 2, sequence := 1, role := .user, content := content, inputMode := .text
    idempotencyKey := "turn-0000000000000001" }

end KajovoDagmar
