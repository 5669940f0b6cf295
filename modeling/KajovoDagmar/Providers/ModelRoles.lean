import KajovoDagmar.Library.Json
import KajovoDagmar.Library.PythonText
import KajovoDagmar.Providers.Contracts

/-! # Roles of models

`classify_model` gives a listed model its roles, by its name and by what the provider advertises, and its
capabilities, by what is advertised alone for conversations and by the roles for the rest. -/

namespace KajovoDagmar

namespace ModelRoles

def policyVersion : String := "2026-07-31.v1"

def roleOrder : List String :=
  ["conversation_model", "transcription_model", "speech_model", "embedding_model", "summary_model"]

def preferences (role : String) : List String :=
  if role = "conversation_model" then ["gpt-5-mini", "gpt-5-nano", "gpt-4.1-mini", "gpt-4o-mini"]
  else if role = "transcription_model" then ["gpt-4o-transcribe", "gpt-4o-mini-transcribe", "whisper-1"]
  else if role = "speech_model" then ["gpt-4o-mini-tts", "tts-1-hd", "tts-1"]
  else if role = "embedding_model" then
    ["text-embedding-3-large", "text-embedding-3-small", "text-embedding-ada-002"]
  else if role = "summary_model" then ["gpt-5-mini", "gpt-5-nano", "gpt-4.1-mini", "gpt-4o-mini"]
  else []

def denyMarkers : List String :=
  ["embedding", "transcrib", "whisper", "tts", "audio", "realtime", "image", "video", "sora",
    "moderation", "codex", "deep-research", "computer-use", "fine-tune", "ft:", "chatgpt"]

structure ClassifiedModel where
  externalId : String
  displayName : String
  roles : List String
  capabilities : List (String × Bool)

/-- `value.startswith(head)`. -/
def startsWith (value head : String) : Bool := head.toList.isPrefixOf value.toList

/-- `re.match(r"^(gpt-[345]|o[1345](?:-|$))", model_id)`: the `$` also stands before a newline that ends the
text. -/
def textFamily (modelId : String) : Bool :=
  match modelId.toList with
  | 'g' :: 'p' :: 't' :: '-' :: d :: _ => d ∈ ['3', '4', '5']
  | 'o' :: d :: rest => d ∈ ['1', '3', '4', '5'] ∧ (rest.head? = some '-' ∨ rest = [] ∨ rest = ['\n'])
  | _ => false

section classification

variable (casefold : String → String)

/-- `advertised_lower`. -/
def advertisedLower (advertised : List (String × Bool)) : List String :=
  (advertised.filter Prod.snd).map fun kv => casefold kv.1

def denied (modelId : String) : Bool := denyMarkers.any (PythonText.contains modelId)

/-- The roles before those of a conversation are taken from transcription and speech models. -/
def suggestedRoles (modelId : String) (advertised : List String) : List String :=
  (if modelId = "whisper-1" ∨ PythonText.contains modelId "transcrib" then ["transcription_model"] else []) ++
  (if PythonText.contains modelId "tts" ∨ modelId ∈ ["tts-1", "tts-1-hd"] then ["speech_model"] else []) ++
  (if startsWith modelId "text-embedding-" ∨ "embedding" ∈ advertised then ["embedding_model"] else []) ++
  (if ¬denied modelId ∧
      (textFamily modelId ∨ ["chat", "responses", "structured_outputs"].any (· ∈ advertised)) then
    ["conversation_model", "summary_model"] else [])

def conversationRoles : List String := ["conversation_model", "summary_model"]

def rolesOf (modelId : String) (advertised : List String) : List String :=
  let roles := suggestedRoles modelId advertised
  if "transcription_model" ∈ roles ∨ "speech_model" ∈ roles then
    roles.filter fun role => role ∉ conversationRoles
  else roles

/-- `classify_model`. -/
def classifyModel (externalId displayName : String) (advertised : List (String × Bool)) : ClassifiedModel :=
  let advertised := advertisedLower casefold advertised
  let roles := rolesOf (casefold externalId) advertised
  { externalId := externalId
    displayName := displayName
    roles := roles
    capabilities :=
      [("responses", decide ("responses" ∈ advertised)),
        ("structured_outputs", decide ("structured_outputs" ∈ advertised)),
        ("transcriptions", decide ("transcription_model" ∈ roles)),
        ("speech", decide ("speech_model" ∈ roles)),
        ("embeddings", decide ("embedding_model" ∈ roles))] }

/-- `alias.rsplit("-", 1)[0]`. -/
def familyOf (name : String) : String :=
  if '-' ∈ name.toList then String.ofList ((name.toList.reverse.dropWhile (· ≠ '-')).drop 1).reverse else name

/-- `recommendation_rank`. -/
def recommendationRank (role externalId : String) : ℕ × String :=
  let preferred := preferences role
  let value := casefold externalId
  match preferred.findIdx? fun name => value = name with
  | some index => (index, value)
  | none =>
    match preferred.findIdx? fun name => startsWith value (familyOf name ++ "-") with
    | some index => (index + 10, value)
    | none => (1000, value)

/-! ### The deny list -/

/-- The name of the model denotes the role. -/
def Denotes (modelId role : String) : Prop :=
  role = "transcription_model" ∧ (modelId = "whisper-1" ∨ PythonText.contains modelId "transcrib" = true) ∨
  role = "speech_model" ∧ PythonText.contains modelId "tts" = true ∨
  role = "embedding_model" ∧ startsWith modelId "text-embedding-" = true

/-- A denied model has no role but those that its name denotes, the roles of a conversation come together
and not with others, and letter case changes nothing. -/
structure Authoritative (externalId displayName : String) (advertised : List (String × Bool)) : Prop where
  denied : denied (casefold externalId) = true →
    ∀ role ∈ (classifyModel casefold externalId displayName advertised).roles, Denotes (casefold externalId) role
  together : "conversation_model" ∈ (classifyModel casefold externalId displayName advertised).roles ↔
    "summary_model" ∈ (classifyModel casefold externalId displayName advertised).roles
  alone : "conversation_model" ∈ (classifyModel casefold externalId displayName advertised).roles →
    "transcription_model" ∉ (classifyModel casefold externalId displayName advertised).roles ∧
    "speech_model" ∉ (classifyModel casefold externalId displayName advertised).roles ∧
    (ModelRoles.denied (casefold externalId) = true →
      "embedding_model" ∉ (classifyModel casefold externalId displayName advertised).roles)
  caseless : ∀ externalId' displayName' advertised', casefold externalId' = casefold externalId →
    (∀ name, name ∈ advertisedLower casefold advertised' ↔ name ∈ advertisedLower casefold advertised) →
    (classifyModel casefold externalId' displayName' advertised').roles =
      (classifyModel casefold externalId displayName advertised).roles ∧
    (classifyModel casefold externalId' displayName' advertised').capabilities =
      (classifyModel casefold externalId displayName advertised).capabilities

section deny

variable {modelId : String} {advertised : List String}

theorem mem_suggestedRoles {role : String} : role ∈ suggestedRoles modelId advertised ↔
    role = "transcription_model" ∧ (modelId = "whisper-1" ∨ PythonText.contains modelId "transcrib" = true) ∨
    role = "speech_model" ∧ (PythonText.contains modelId "tts" = true ∨ modelId ∈ ["tts-1", "tts-1-hd"]) ∨
    role = "embedding_model" ∧ (startsWith modelId "text-embedding-" = true ∨ "embedding" ∈ advertised) ∨
    role ∈ conversationRoles ∧ denied modelId = false ∧
      (textFamily modelId = true ∨
        (["chat", "responses", "structured_outputs"].any fun name => name ∈ advertised) = true) := by
  unfold suggestedRoles conversationRoles
  simp only [List.mem_append, List.mem_ite_nil_right, List.mem_singleton, Bool.not_eq_true]
  grind

/-- The roles of a conversation are taken from transcription and speech models, the others stay. -/
theorem mem_rolesOf {role : String} : role ∈ rolesOf modelId advertised ↔
    role ∈ suggestedRoles modelId advertised ∧ (role ∈ conversationRoles →
      "transcription_model" ∉ suggestedRoles modelId advertised ∧
      "speech_model" ∉ suggestedRoles modelId advertised) := by
  unfold rolesOf
  dsimp only
  split_ifs with h
  · simp only [List.mem_filter, decide_eq_true_eq]
    grind
  · grind

/-- Both roles of a conversation are given alike. -/
theorem mem_rolesOf_of_conversation {role : String} (h : role ∈ conversationRoles) :
    role ∈ rolesOf modelId advertised ↔ denied modelId = false ∧
      (textFamily modelId = true ∨
        (["chat", "responses", "structured_outputs"].any fun name => name ∈ advertised) = true) ∧
      "transcription_model" ∉ suggestedRoles modelId advertised ∧
      "speech_model" ∉ suggestedRoles modelId advertised := by
  have hother : role ≠ "transcription_model" ∧ role ≠ "speech_model" ∧ role ≠ "embedding_model" := by
    rcases List.mem_cons.mp h with rfl | h
    · decide
    · obtain rfl := List.mem_singleton.mp h
      decide
  rw [mem_rolesOf, mem_suggestedRoles]
  simp only [h, hother.1, hother.2.1, hother.2.2, false_and, false_or, true_and, forall_const, and_assoc]

theorem not_mem_rolesOf {role : String} (h : role ∉ suggestedRoles modelId advertised) :
    role ∉ rolesOf modelId advertised := fun hmem => h (mem_rolesOf.mp hmem).1

theorem rolesOf_congr {advertised' : List String} (h : ∀ name, name ∈ advertised' ↔ name ∈ advertised) :
    rolesOf modelId advertised' = rolesOf modelId advertised := by
  have hsuggested : suggestedRoles modelId advertised' = suggestedRoles modelId advertised := by
    unfold suggestedRoles
    simp only [h]
  unfold rolesOf
  rw [hsuggested]

/-- A denied model takes a role beyond its name exactly from an advertised embedding. -/
theorem denied_mem_rolesOf (hdenied : denied modelId = true)
    (h : "embedding" ∈ advertised → startsWith modelId "text-embedding-" = true) {role : String}
    (hrole : role ∈ rolesOf modelId advertised) : Denotes modelId role := by
  rcases mem_suggestedRoles.mp (mem_rolesOf.mp hrole).1 with htrans | ⟨hspeech, htts | hlisted⟩ |
    ⟨hembed, hname | hadvertised⟩ | ⟨-, hallowed, -⟩
  · exact .inl htrans
  · exact .inr (.inl ⟨hspeech, htts⟩)
  · refine .inr (.inl ⟨hspeech, ?_⟩)
    rcases List.mem_cons.mp hlisted with rfl | hlisted
    · decide
    · obtain rfl := List.mem_singleton.mp hlisted
      decide
  · exact .inr (.inr ⟨hembed, hname⟩)
  · exact .inr (.inr ⟨hembed, h hadvertised⟩)
  · exact absurd hallowed (by simp [hdenied])

end deny

/-- **The deny list is authoritative** but for the embeddings that a denied model advertises. -/
theorem authoritative_iff (externalId displayName : String) (advertised : List (String × Bool)) :
    Authoritative casefold externalId displayName advertised ↔
      ¬(denied (casefold externalId) = true ∧ "embedding" ∈ advertisedLower casefold advertised ∧
        startsWith (casefold externalId) "text-embedding-" = false) := by
  constructor
  · rintro h ⟨hdenied, hadvertised, hname⟩
    have hrole : "embedding_model" ∈ rolesOf (casefold externalId) (advertisedLower casefold advertised) :=
      mem_rolesOf.mpr ⟨mem_suggestedRoles.mpr (.inr (.inr (.inl ⟨rfl, .inr hadvertised⟩))),
        fun hconversation => absurd hconversation (by decide)⟩
    rcases h.denied hdenied _ hrole with ⟨heq, -⟩ | ⟨heq, -⟩ | ⟨-, hnamed⟩
    · exact absurd heq (by decide)
    · exact absurd heq (by decide)
    · rw [hname] at hnamed
      exact absurd hnamed (by decide)
  · intro h
    refine ⟨fun hdenied role hrole => denied_mem_rolesOf hdenied (fun hadvertised => ?_) hrole, ?_, ?_, ?_⟩
    · by_contra hname
      exact h ⟨hdenied, hadvertised, Bool.not_eq_true _ ▸ hname⟩
    · exact (mem_rolesOf_of_conversation (by decide)).trans (mem_rolesOf_of_conversation (by decide)).symm
    · intro hrole
      obtain ⟨hallowed, -, htranscription, hspeech⟩ := (mem_rolesOf_of_conversation (by decide)).mp hrole
      exact ⟨not_mem_rolesOf htranscription, not_mem_rolesOf hspeech,
        fun hdenied => absurd hallowed (by simp [hdenied])⟩
    · intro externalId' displayName' advertised' hid hnames
      have hroles : rolesOf (casefold externalId') (advertisedLower casefold advertised') =
          rolesOf (casefold externalId) (advertisedLower casefold advertised) := by
        rw [hid]
        exact rolesOf_congr hnames
      unfold classifyModel
      simp only [hroles, hnames, and_self]

/-- A video model that advertises embeddings is given the role. -/
theorem denied_embedding_admitted : ¬Authoritative id "sora-2" "Sora 2" [("embedding", true)] := by
  intro h
  rcases h.denied (by decide) "embedding_model" (by decide) with ⟨heq, -⟩ | ⟨heq, -⟩ | ⟨-, hname⟩
  · exact absurd heq (by decide)
  · exact absurd heq (by decide)
  · exact absurd hname (by decide)

end classification

example : (classifyModel id "gpt-5-mini" "GPT-5 mini" []).roles = ["conversation_model", "summary_model"] ∧
    (recommendationRank id "conversation_model" "gpt-5-mini-2026-01-01").1 = 10 := by decide +kernel

end ModelRoles

end KajovoDagmar
