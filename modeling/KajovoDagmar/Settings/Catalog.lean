import KajovoDagmar.Errors

/-! # The catalogue of settings

The settings that the application knows, with the type and the bounds of their values. -/

namespace KajovoDagmar

/-- `value_type`. -/
inductive ValueType where
  | string | integer | boolean | choice | duration
deriving DecidableEq

structure SettingDefinition where
  area : String
  key : String
  valueType : ValueType
  default : Json
  effectBoundary : String
  choices : List String := []
  minimum : Option ℤ := none
  maximum : Option ℤ := none

namespace SettingsCatalog

def definitions : List SettingDefinition :=
  [{ area := "conversation", key := "language", valueType := .choice, default := .str "cs"
     effectBoundary := "next_turn", choices := ["cs", "en", "de"] },
   { area := "conversation", key := "verbosity", valueType := .choice, default := .str "balanced"
     effectBoundary := "next_turn", choices := ["short", "balanced", "detailed"] },
   { area := "conversation", key := "idle_warning_seconds", valueType := .integer, default := .int 240
     effectBoundary := "new_voice_session", minimum := some 60, maximum := some 1800 },
   { area := "conversation", key := "idle_end_seconds", valueType := .integer, default := .int 300
     effectBoundary := "new_voice_session", minimum := some 120, maximum := some 3600 },
   { area := "models", key := "conversation_model", valueType := .string, default := .str ""
     effectBoundary := "next_turn" },
   { area := "models", key := "transcription_model", valueType := .string, default := .str ""
     effectBoundary := "new_voice_session" },
   { area := "models", key := "speech_model", valueType := .string, default := .str ""
     effectBoundary := "new_voice_session" },
   { area := "models", key := "embedding_model", valueType := .string, default := .str ""
     effectBoundary := "immediate" },
   { area := "models", key := "summary_model", valueType := .string, default := .str ""
     effectBoundary := "next_turn" },
   { area := "voice", key := "voice_id", valueType := .string, default := .str ""
     effectBoundary := "next_turn" },
   { area := "security", key := "session_idle_minutes", valueType := .integer, default := .int 30
     effectBoundary := "next_login", minimum := some 10, maximum := some 120 },
   { area := "voice", key := "output_volume", valueType := .integer, default := .int 80
     effectBoundary := "immediate", minimum := some 0, maximum := some 100 },
   { area := "voice", key := "barge_in", valueType := .boolean, default := .bool true
     effectBoundary := "new_voice_session" },
   { area := "voice", key := "endpoint_silence_ms", valueType := .integer, default := .int 900
     effectBoundary := "new_voice_session", minimum := some 500, maximum := some 2500 },
   { area := "memory", key := "suggestions_enabled", valueType := .boolean, default := .bool true
     effectBoundary := "next_turn" },
   { area := "memory", key := "soft_delete_days", valueType := .integer, default := .int 30
     effectBoundary := "immediate", minimum := some 1, maximum := some 365 },
   { area := "history", key := "soft_delete_days", valueType := .integer, default := .int 30
     effectBoundary := "immediate", minimum := some 1, maximum := some 365 },
   { area := "history", key := "automatic_summary", valueType := .boolean, default := .bool true
     effectBoundary := "next_turn" },
   { area := "diagnostics", key := "retention_days", valueType := .integer, default := .int 30
     effectBoundary := "immediate", minimum := some 7, maximum := some 90 },
   { area := "diagnostics", key := "level", valueType := .choice, default := .str "standard"
     effectBoundary := "immediate", choices := ["minimal", "standard", "enhanced"] },
   { area := "backups", key := "schedule", valueType := .string, default := .str "0 2 * * *"
     effectBoundary := "service_restart" }]

/-- `BY_KEY.get((area, key))`. -/
def byKey (area key : String) : Option SettingDefinition :=
  definitions.find? fun d => d.area = area ∧ d.key = key

/-- A `ValueError`. -/
def valueError : Exc := .other "ValueError"

/-- `definition.choices and value not in definition.choices`. -/
def outOfChoices (d : SettingDefinition) (value : Json) : Bool :=
  !d.choices.isEmpty && match value with
    | .str s => s ∉ d.choices
    | _ => true

/-- The value has the type of the setting and is within its bounds. -/
def typed (d : SettingDefinition) (value : Json) : Bool :=
  match d.valueType, value with
  | .integer, .int n | .duration, .int n => d.minimum.all (· ≤ n) && d.maximum.all (n ≤ ·)
  | .boolean, .bool _ => true
  | .string, .str _ | .choice, .str _ => true
  | _, _ => false

/-- `validate_value`; the messages of its errors are not used. -/
def validateValue (d : SettingDefinition) (value : Json) : Except Exc Json :=
  if typed d value = false then .error valueError
  else if outOfChoices d value then .error valueError
  else .ok value

theorem validateValue_eq_ok {d : SettingDefinition} {value value' : Json}
    (h : validateValue d value = .ok value') : value' = value ∧ typed d value = true := by
  unfold validateValue at h
  split at h
  · simp at h
  · next htyped =>
    split at h
    · simp at h
    · exact ⟨(Except.ok.inj h).symm, by simpa using htyped⟩

/-- Every default is a value of its setting. -/
theorem defaults_valid : ∀ d ∈ definitions, (validateValue d d.default).isOk = true := by
  decide +kernel

/-- The settings of the area `models` are texts. -/
theorem typed_models {key : String} {d : SettingDefinition} {value : Json} (hd : byKey "models" key = some d)
    (h : typed d value = true) : ∃ s, value = .str s := by
  have htype : d.valueType = .string := by
    have hall : ∀ d ∈ definitions, d.area = "models" → d.valueType = .string := by decide
    have hfind := List.find?_some hd
    exact hall d (List.mem_of_find?_eq_some hd) (of_decide_eq_true hfind).1
  unfold typed at h
  rw [htype] at h
  cases value with
  | str s => exact ⟨s, rfl⟩
  | _ => simp at h

end SettingsCatalog

end KajovoDagmar
