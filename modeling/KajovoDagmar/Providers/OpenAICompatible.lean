import KajovoDagmar.Db.Sample
import KajovoDagmar.Library.Scan

/-! # The provider with an OpenAI-compatible interface

`OpenAICompatibleProvider`: listing models, conversation, transcription and embedding over HTTP.  What comes back
is any JSON or none at all, and the methods read it by keys and loops with checks of their own.  A call is
contained if it gives a result of the declared types or raises a `DomainError`; `contained_iff` says for which
answers each method is. -/

namespace KajovoDagmar.OpenAICompatible

/-! ### HTTP -/

/-- What `json.loads` makes of a text or of bytes. -/
inductive Loaded where
  | value (v : Json)
  /-- `JSONDecodeError`. -/
  | undecodable
  /-- Another `ValueError`: bytes that are no text, or an integer of too many digits. -/
  | unreadable
  /-- `RecursionError`. -/
  | tooDeep

structure Response where
  statusCode : ℕ
  headers : String → Option String
  /-- `response.request.url.path`. -/
  path : String
  /-- `response.json()`. -/
  json : Loaded

inductive HttpRequest where
  | get (url : String)
  | post (url : String) (payload : Json)
  | upload (url : String) (audio : List UInt8) (data : List (String × String))

/-- The provider: `send` answers a request or names the class of the `httpx.HTTPError`. -/
structure Provider where
  baseUrl : String
  send : HttpRequest → Except String Response

/-- What the methods take from the standard library beside the runtime. -/
structure Numbers where
  /-- `json.loads` of a text. -/
  loads : String → Loaded
  /-- The `repr` of `float(n)`, or `none` for an `OverflowError`. -/
  floatOfInt : ℤ → Option String

def networkError (message capability name : String) : Exc := .domain
  { code := "provider_network_error", message := message, statusCode := 503
    details := some (.obj [("capability", .str capability), ("error", .str name)]) }

def invalidResponse (message : String) (details : Option Json := none) : Exc := .domain
  { code := "provider_invalid_response", message := message, statusCode := 502, details := details }

/-- A request whose `httpx.HTTPError` is handled. -/
def Provider.request (p : Provider) (message capability : String) (request : HttpRequest) : Except Exc Response :=
  match p.send request with
  | .ok response => .ok response
  | .error name => .error (networkError message capability name)

/-- `response.json()` with `except (ValueError, TypeError)`. -/
def decode (message : String) (response : Response) : Except Exc Json :=
  match response.json with
  | .value v => .ok v
  | .undecodable => .error (invalidResponse message)
  | .unreadable => .error (invalidResponse message)
  | .tooDeep => .error (.other "RecursionError")

/-! ### Errors of the provider -/

/-- `error.get(key) if isinstance(error.get(key), str) else None`. -/
def errorText (error : Json) (key : String) : Option String :=
  match error.get? key with
  | some (.str s) => some s
  | _ => none

/-- The `error` of a body, or an empty dictionary; one that is no dictionary has no entries. -/
def errorOf (body : Json) : Json := body.getD "error" (.obj [])

/-- `error_type`, `error_code` and `error_param`. -/
structure ErrorTexts where
  type : Option String := none
  code : Option String := none
  param : Option String := none

def errorTexts (response : Response) : Except Exc ErrorTexts :=
  match response.json with
  | .value body =>
    .ok ⟨errorText (errorOf body) "type", errorText (errorOf body) "code", errorText (errorOf body) "param"⟩
  | .undecodable => .ok {}
  | .unreadable => .ok {}
  | .tooDeep => .error (.other "RecursionError")

/-- `response.headers.get("x-request-id") or response.headers.get("request-id")`. -/
def requestId (response : Response) : Option String :=
  match (response.headers "x-request-id").filter (· ≠ "") with
  | some id => some id
  | none => response.headers "request-id"

/-- `if value: details[key] = value`. -/
def detail (key : String) (value : Option String) : List (String × Json) :=
  match value.filter (· ≠ "") with
  | some s => [(key, .str s)]
  | none => []

def errorDetails (response : Response) (capability : String) (texts : ErrorTexts) : Json := .obj
  ([("status", .int response.statusCode), ("capability", .str capability), ("endpoint", .str response.path)] ++
    detail "provider_request_id" (requestId response) ++ detail "provider_error_type" texts.type ++
    detail "provider_error_code" texts.code ++ detail "provider_param" texts.param)

/-- The error that `_raise` makes of a refusal. -/
def refusal (response : Response) (capability : String) (texts : ErrorTexts) : DomainError :=
  let details := some (errorDetails response capability texts)
  if response.statusCode = 401 ∨ response.statusCode = 403 then
    .capabilityUnavailable capability
      "Přístupové údaje poskytovatele nejsou platné nebo nemají potřebné oprávnění."
  else if response.statusCode = 404 then
    .capabilityUnavailable capability "Požadovaný model nebo endpoint poskytovatele není dostupný."
  else if response.statusCode = 429 then
    { code := "provider_rate_limited", message := "Poskytovatel dočasně omezuje požadavky.", statusCode := 503
      details := details }
  else if response.statusCode = 402 ∨ response.statusCode = 409 ∨ texts.code = some "insufficient_quota" ∨
      texts.code = some "billing_hard_limit_reached" then
    { code := "provider_quota", message := "API účet nemá dostupný kredit nebo povolené čerpání.", statusCode := 503
      details := details }
  else if response.statusCode = 400 ∨ texts.type = some "invalid_request_error" ∨
      texts.type = some "invalid_parameter_error" then
    { code := "provider_invalid_parameter"
      message := "Nastavení požadavku není kompatibilní s vybraným modelem.", statusCode := 502, details := details }
  else
    { code := "provider_error", message := "Externí poskytovatel vrátil technickou chybu.", statusCode := 502
      details := details }

/-- Every refusal names the capability that was asked for. -/
theorem refusal_capability (response : Response) (capability : String) (texts : ErrorTexts) :
    ∃ details, (refusal response capability texts).details = some details ∧
      details.get? "capability" = some (.str capability) := by
  unfold refusal
  split_ifs <;> exact ⟨_, rfl, rfl⟩

/-- `_raise`. -/
def raiseRefusal (response : Response) (capability : String) : Except Exc Unit :=
  if response.statusCode < 400 then .ok ()
  else do
    let texts ← errorTexts response
    .error (.domain (refusal response capability texts))

/-! ### Listing models -/

section listing

variable (rt : Runtime)

/-- `str(value)`. -/
def pyStr (value : Json) : String :=
  match value with
  | .str s => s
  | value => rt.pyRepr value

/-- The advertised capabilities; a list of them enables each. -/
def advertised (item : Json) : List (String × Bool) :=
  match item.getD "capabilities" (.obj []) with
  | .arr values => (values.map (pyStr rt)).eraseDups.map fun name => (name, true)
  | .obj entries => entries.map fun kv => (kv.1, kv.2.truthy)
  | _ => []

/-- One item of the catalogue. -/
def listedModel (item : Json × ℕ) : Except Exc ProviderModel :=
  match item.1.get? "id" with
  | some (.str id) => .ok
    { externalId := id
      displayName := match item.1.get? "name" with
        | some (.str name) => name
        | _ => id
      capabilities := advertised rt item.1 }
  | _ => .error (invalidResponse "Katalog obsahuje neplatný model." (some (.obj [("index", .int item.2)])))

def listModels (p : Provider) : Except Exc (List ProviderModel) := do
  let response ← p.request "Katalog poskytovatele není dostupný." "model_catalog" (.get (p.baseUrl ++ "/models"))
  raiseRefusal response "model_catalog"
  let data ← decode "Katalog poskytovatele má neplatný formát." response
  match data.get? "data" with
  | some (.arr items) => Scan.each (listedModel rt) items.zipIdx
  | _ => .error (invalidResponse "Katalog poskytovatele má neplatný formát.")

end listing

/-! ### Conversation -/

/-- What `for` iterates over: the elements of a list, the keys of a dictionary, the characters of a text. -/
def iterated : Json → Option (List Json)
  | .arr xs => some xs
  | .obj kvs => some (kvs.map fun kv => .str kv.1)
  | .str s => some (s.toList.map fun c => .str (String.singleton c))
  | _ => none

def hashable : Json → Bool
  | .arr _ => false
  | .obj _ => false
  | _ => true

def attributeError : Exc := .other "AttributeError"

def typeError : Exc := .other "TypeError"

section schema

variable (rt : Runtime)

/-- `a == b` of two hashable values; two floats are equal if their texts are. -/
def scalarEq (a b : Json) : Bool :=
  match a, b with
  | .null, .null => true
  | .str s, .str t => s = t
  | .bool b, .bool c => b = c
  | .bool b, .int n => n = if b then 1 else 0
  | .int n, .bool b => n = if b then 1 else 0
  | .int n, .int m => n = m
  | .float r, .int n => rt.floatEqInt r n
  | .int n, .float r => rt.floatEqInt r n
  | .float r, .bool b => rt.floatEqInt r (if b then 1 else 0)
  | .bool b, .float r => rt.floatEqInt r (if b then 1 else 0)
  | .float r, .float q => r = q
  | _, _ => false

/-- `set(value)`. -/
def setOf (value : Json) : Except Exc (List Json) :=
  match iterated value with
  | none => .error typeError
  | some xs => if xs.all hashable then .ok xs else .error typeError

def sameSet (xs ys : List Json) : Bool :=
  xs.all (fun x => ys.any (scalarEq rt x)) && ys.all (fun y => xs.any (scalarEq rt y))

/-- Whether an object schema requires all its properties and allows no others. -/
def closedObject (node : Json) : Except Exc Bool := do
  let properties ← setOf (node.getD "properties" (.obj []))
  let required ← setOf (node.getD "required" (.arr []))
  match node.getD "additionalProperties" .null with
  | .bool false => .ok (sameSet rt properties required)
  | _ => .ok false

/-- `node.get("type") == "object"`. -/
def isObjectSchema (node : Json) : Bool :=
  match node.get? "type" with
  | some (.str t) => t = "object"
  | _ => false

/-- A schema that is none of an object is not asked. -/
def closedNode (node : Json) : Except Exc Bool :=
  if isObjectSchema node then closedObject rt node else .ok true

mutual

/-- `_strict_schema_compatible`. -/
def strictSchemaCompatible : Json → Except Exc Bool
  | .obj kvs => do
    let closed ← closedNode rt (.obj kvs)
    if closed then strictEntries kvs else .ok false
  | .arr xs => strictItems xs
  | _ => .ok true

def strictItems : List Json → Except Exc Bool
  | [] => .ok true
  | x :: xs => do
    let strict ← strictSchemaCompatible x
    if strict then strictItems xs else .ok false

def strictEntries : List (String × Json) → Except Exc Bool
  | [] => .ok true
  | (_, x) :: kvs => do
    let strict ← strictSchemaCompatible x
    if strict then strictEntries kvs else .ok false

end

end schema

/-- `enabled_capabilities`. -/
def enabledCapabilities (capabilities : Json) : List String := capabilities.entries.filterMap fun kv =>
  match kv.2 with
  | .bool true => some kv.1
  | _ => none

def isNull : Json → Bool
  | .null => true
  | _ => false

/-- `_response_input_message`. -/
def responseInputMessage (message : ChatMessage) : Json :=
  let contentType := if message.role = "assistant" then "output_text" else "input_text"
  .obj [("role", .str message.role),
    ("content", .arr [.obj [("type", .str contentType), ("text", .str message.content)]])]

def chatPayload (request : ChatRequest) (strict : Bool) : Json := .obj
  ([("model", .str request.model), ("input", .arr (request.messages.map responseInputMessage)),
    ("text", .obj [("format", .obj [("type", .str "json_schema"), ("name", .str "kajovodagmar_decision"),
      ("strict", .bool strict), ("schema", request.responseSchema)])])] ++
    if request.capabilities.truthy = false ∨ "temperature" ∈ enabledCapabilities request.capabilities then
      [("temperature", .float request.temperature)] else [])

/-- The text of a content part, if it is one. -/
def partText (part : Json) : Except Exc (Option String) :=
  match part with
  | .obj _ =>
    if hashable (part.getD "type" .null) = false then .error typeError
    else match part.getD "type" .null, part.getD "text" .null with
      | .str type, .str text => .ok (if type = "output_text" ∨ type = "text" then some text else none)
      | _, _ => .ok none
  | _ => .error attributeError

/-- The first text of an output. -/
def outputText (output : Json) : Except Exc (Option String) :=
  match output with
  | .obj _ =>
    match iterated (output.getD "content" (.arr [])) with
    | none => .error typeError
    | some parts => Scan.first partText parts
  | _ => .error attributeError

/-- `_response_text`. -/
def responseText (body : Json) : Except Exc String :=
  match body with
  | .obj _ =>
    match body.getD "output_text" .null with
    | .str text => .ok text
    | _ =>
      match iterated (body.getD "output" (.arr [])) with
      | none => .error typeError
      | some outputs => do
        let found ← Scan.first outputText outputs
        match found with
        | some text => .ok text
        | none => .error (.domain { code := "provider_empty_response"
                                    message := "Poskytovatel nevrátil textovou odpověď.", statusCode := 502 })
  | _ => .error attributeError

/-- A `ChatResult` as it is built: nothing checks the types of its fields. -/
structure BuiltResult where
  providerResponseId : Json
  text : Json
  structured : Json
  inputUnits : Json
  outputUnits : Json

/-- `value.get(key, default)` of a value that may be no dictionary. -/
def dictGet (value : Json) (key : String) (default : Json) : Except Exc Json :=
  match value with
  | .obj _ => .ok (value.getD key default)
  | _ => .error attributeError

/-- `json.loads(text)` with `except json.JSONDecodeError`. -/
def loadStructured (numbers : Numbers) (text : String) : Except Exc Json :=
  match numbers.loads text with
  | .value v => .ok v
  | .undecodable => .error (.domain
    { code := "provider_invalid_structure", message := "Poskytovatel vrátil neplatnou strukturovanou odpověď."
      statusCode := 502 })
  | .unreadable => .error (.other "ValueError")
  | .tooDeep => .error (.other "RecursionError")

/-- The result that is read from the body. -/
def builtResult (numbers : Numbers) (body : Json) : Except Exc BuiltResult := do
  let text ← responseText body
  let structured ← loadStructured numbers text
  let usage ← dictGet body "usage" (.obj [])
  let providerResponseId ← dictGet body "id" (.str "unknown")
  let answer ← dictGet structured "answer" (.str "")
  let inputUnits ← dictGet usage "input_tokens" .null
  let outputUnits ← dictGet usage "output_tokens" .null
  .ok ⟨providerResponseId, answer, structured, inputUnits, outputUnits⟩

def chat (rt : Runtime) (numbers : Numbers) (p : Provider) (request : ChatRequest) : Except Exc BuiltResult := do
  if isNull request.capabilities = false ∧
      "structured_outputs" ∉ enabledCapabilities request.capabilities then
    .error (.domain (.capabilityUnavailable "structured_outputs"
      "Model nemá ověřenou podporu strukturovaných výstupů."))
  else do
    let strict ← strictSchemaCompatible rt request.responseSchema
    let response ← p.request "Konverzační poskytovatel není dostupný." "conversation_model"
      (.post (p.baseUrl ++ "/responses") (chatPayload request strict))
    raiseRefusal response "conversation_model"
    let body ← decode "Odpověď poskytovatele má neplatný formát." response
    builtResult numbers body

/-! ### Transcription and embedding -/

/-- A `TranscriptResult` as it is built. -/
structure BuiltTranscript where
  text : Json
  language : Json
  providerResponseId : Json

/-- `response.json()` without a handler. -/
def decodeUnhandled (response : Response) : Except Exc Json :=
  match response.json with
  | .value v => .ok v
  | .undecodable => .error (.other "JSONDecodeError")
  | .unreadable => .error (.other "ValueError")
  | .tooDeep => .error (.other "RecursionError")

def builtTranscript (language : String) (body : Json) : Except Exc BuiltTranscript :=
  match body.get? "text" with
  | some (.str text) => .ok
    { text := .str text
      language := body.getD "language" (.str language)
      providerResponseId := body.getD "id" (.str "unknown") }
  | _ => .error (invalidResponse "Přepisovač vrátil neplatný formát.")

def transcribe (p : Provider) (audio : List UInt8) (model language : String) : Except Exc BuiltTranscript :=
  match p.send (.upload (p.baseUrl ++ "/audio/transcriptions") audio
      [("model", model), ("language", language), ("response_format", "json")]) with
  | .error name => .error (.other name)
  | .ok response => do
    raiseRefusal response "transcription"
    let body ← decodeUnhandled response
    builtTranscript language body

/-- `isinstance(value, (int, float))`. -/
def isNumber : Json → Bool
  | .bool _ => true
  | .int _ => true
  | .float _ => true
  | _ => false

/-- `float(value)` of a number. -/
def toFloat (numbers : Numbers) (value : Json) : Except Exc String :=
  match value with
  | .float r => .ok r
  | .bool b => .ok (if b then "1.0" else "0.0")
  | .int n =>
    match numbers.floatOfInt n with
    | some r => .ok r
    | none => .error (.other "OverflowError")
  | _ => .error typeError

/-- The numbers of an item. -/
def numbersOf (item : Json) : Option (List Json) :=
  match item.get? "embedding" with
  | some (.arr values) => if values.all isNumber then some values else none
  | _ => none

/-- One item of the answer. -/
def vectorOf (numbers : Numbers) (item : Json × ℕ) : Except Exc (List String) :=
  match numbersOf item.1 with
  | none => .error (invalidResponse "Embedding odpověď má neplatné hodnoty." (some (.obj [("index", .int item.2)])))
  | some values => Scan.each (toFloat numbers) values

def embed (numbers : Numbers) (p : Provider) (texts : List String) (model : String) :
    Except Exc (List (List String)) := do
  let response ← p.request "Embedding poskytovatel není dostupný." "embeddings"
    (.post (p.baseUrl ++ "/embeddings") (.obj [("model", .str model), ("input", .arr (texts.map .str)),
      ("encoding_format", .str "float")]))
  raiseRefusal response "embeddings"
  let body ← decode "Embedding odpověď má neplatný formát." response
  match body.get? "data" with
  | some (.arr items) => Scan.each (vectorOf numbers) items.zipIdx
  | _ => .error (invalidResponse "Embedding odpověď má neplatný formát.")

/-! ### What is promised -/

/-- A call answers with a value of its types or raises a `DomainError`. -/
structure Contained {α : Type} (Typed : α → Prop) (outcome : Except Exc α) : Prop where
  typed : ∀ a, outcome = .ok a → Typed a
  domain : ∀ e, outcome = .error e → e.IsDomain

def IsText (value : Json) : Prop := ∃ s, value = .str s

def IsDict (value : Json) : Prop := ∃ kvs, value = .obj kvs

/-- An integer, which a truth value is as well, or `None`. -/
def IsUnits : Json → Prop
  | .null => True
  | .int _ => True
  | .bool _ => True
  | _ => False

structure BuiltResult.Typed (result : BuiltResult) : Prop where
  providerResponseId : IsText result.providerResponseId
  text : IsText result.text
  structured : IsDict result.structured
  inputUnits : IsUnits result.inputUnits
  outputUnits : IsUnits result.outputUnits

structure BuiltTranscript.Typed (result : BuiltTranscript) : Prop where
  text : IsText result.text
  language : IsText result.language
  providerResponseId : IsText result.providerResponseId

/-- A call of the provider. -/
inductive Call where
  | listModels
  | chat (request : ChatRequest)
  | transcribe (audio : List UInt8) (model language : String)
  | embed (texts : List String) (model : String)

/-- The call is contained. -/
def Call.Contained (rt : Runtime) (numbers : Numbers) (p : Provider) : Call → Prop
  | .listModels => OpenAICompatible.Contained (fun _ => True) (OpenAICompatible.listModels rt p)
  | .chat request => OpenAICompatible.Contained BuiltResult.Typed (OpenAICompatible.chat rt numbers p request)
  | .transcribe audio model language =>
    OpenAICompatible.Contained BuiltTranscript.Typed (OpenAICompatible.transcribe p audio model language)
  | .embed texts model => OpenAICompatible.Contained (fun _ => True) (OpenAICompatible.embed numbers p texts model)

/-! ### Which answers are contained -/

/-- What a part of an output gives if it is one with a text. -/
def textOf (part : Json) : Option String :=
  match part.getD "type" .null, part.getD "text" .null with
  | .str type, .str text => if type = "output_text" ∨ type = "text" then some text else none
  | _, _ => none

/-- The first text of the parts of an output. -/
def textIn (output : Json) : Option String :=
  ((iterated (output.getD "content" (.arr []))).getD []).findSome? textOf

/-- The part can be asked for its type. -/
structure PartReadable (part : Json) : Prop where
  dict : IsDict part
  hashable : hashable (part.getD "type" .null) = true

/-- The output has a content, of which the parts that are reached can be read. -/
structure OutputReadable (output : Json) : Prop where
  dict : IsDict output
  parts : ∃ parts, iterated (output.getD "content" (.arr [])) = some parts ∧
    ∀ part, Scan.Reaches (fun part => textOf part = none) parts part → PartReadable part

/-- The text that the body has. -/
def bodyText (body : Json) : Option String :=
  match body.getD "output_text" .null with
  | .str text => some text
  | _ => ((iterated (body.getD "output" (.arr []))).getD []).findSome? textIn

/-- The body has a text of its own, or outputs of which the ones that are reached can be read. -/
def OutputsReadable (body : Json) : Prop :=
  IsText (body.getD "output_text" .null) ∨ ∃ outputs, iterated (body.getD "output" (.arr [])) = some outputs ∧
    ∀ output, Scan.Reaches (fun output => textIn output = none) outputs output → OutputReadable output

/-- The text is a dictionary whose answer is a text, and the body has a text as identifier and counts what was
used. -/
structure ResultReadable (body structured : Json) : Prop where
  dict : IsDict structured
  answer : IsText (structured.getD "answer" (.str ""))
  id : IsText (body.getD "id" (.str "unknown"))
  usage : IsDict (body.getD "usage" (.obj []))
  inputUnits : IsUnits ((body.getD "usage" (.obj [])).getD "input_tokens" .null)
  outputUnits : IsUnits ((body.getD "usage" (.obj [])).getD "output_tokens" .null)

/-- What the text of a body may be: no JSON, or what a result is read from. -/
def TextReadable (body : Json) : Loaded → Prop
  | .value structured => ResultReadable body structured
  | .undecodable => True
  | .unreadable => False
  | .tooDeep => False

/-- The body of a conversation. -/
structure ChatReadable (numbers : Numbers) (body : Json) : Prop where
  dict : IsDict body
  outputs : OutputsReadable body
  text : ∀ text ∈ bodyText body, TextReadable body (numbers.loads text)

/-- The body of a transcription: with a text, its language and identifier are texts if they are there. -/
def TranscriptReadable (body : Json) : Prop :=
  IsText (body.getD "text" .null) → IsText (body.getD "language" (.str "")) ∧ IsText (body.getD "id" (.str ""))

/-- An item with an integer that no float is near. -/
def Overflows (numbers : Numbers) (item : Json) : Prop :=
  ∃ values ∈ numbersOf item, ∃ n, Json.int n ∈ values ∧ numbers.floatOfInt n = none

/-- The items before the first that is malformed have no such integer. -/
def EmbedReadable (numbers : Numbers) (body : Json) : Prop :=
  ∀ items, body.get? "data" = some (.arr items) →
    ∀ item, Scan.Reaches (fun item => (numbersOf item).isSome = true) items item → ¬Overflows numbers item

/-- An answer that is not nested too deeply and, unless it is a refusal, has a readable body. -/
def Response.Readable (response : Response) (Body : Json → Prop) : Prop :=
  match response.json with
  | .value body => response.statusCode < 400 → Body body
  | .undecodable => True
  | .unreadable => True
  | .tooDeep => False

/-- The answers with which a call is contained. -/
def Call.Handled (rt : Runtime) (numbers : Numbers) (p : Provider) : Call → Prop
  | .listModels => ∀ response, p.send (.get (p.baseUrl ++ "/models")) = .ok response →
      response.Readable fun _ => True
  | .chat request =>
    isNull request.capabilities = false ∧ "structured_outputs" ∉ enabledCapabilities request.capabilities ∨
    ∃ strict, strictSchemaCompatible rt request.responseSchema = .ok strict ∧
      ∀ response, p.send (.post (p.baseUrl ++ "/responses") (chatPayload request strict)) = .ok response →
        response.Readable (ChatReadable numbers)
  | .transcribe audio model language =>
    ∃ response, p.send (.upload (p.baseUrl ++ "/audio/transcriptions") audio
        [("model", model), ("language", language), ("response_format", "json")]) = .ok response ∧
      response.Readable TranscriptReadable ∧
      (response.statusCode < 400 → ∃ body, response.json = .value body)
  | .embed texts model =>
    ∀ response, p.send (.post (p.baseUrl ++ "/embeddings") (.obj [("model", .str model),
        ("input", .arr (texts.map .str)), ("encoding_format", .str "float")])) = .ok response →
      response.Readable (EmbedReadable numbers)

/-! ### Outcomes -/

section outcomes

variable {α : Type} {T : α → Prop}

theorem contained_ok_iff {a : α} : Contained T (.ok a) ↔ T a :=
  ⟨fun h => h.typed a rfl, fun h => ⟨fun b hb => Except.ok.inj hb ▸ h, fun e he => by simp at he⟩⟩

theorem contained_domain (d : DomainError) : Contained T (.error (.domain d)) :=
  ⟨fun a ha => by simp at ha, fun e he => Except.error.inj he ▸ Exc.isDomain_domain d⟩

theorem not_contained_other (code : String) : ¬Contained T (.error (.other code)) :=
  fun h => h.domain _ rfl

/-- A request whose transport errors are handled. -/
theorem contained_request_iff {p : Provider} {message capability : String} {request : HttpRequest}
    {f : Response → Except Exc α} : Contained T (p.request message capability request >>= f) ↔
      ∀ response, p.send request = .ok response → Contained T (f response) := by
  unfold Provider.request
  cases hsend : p.send request with
  | error name => exact ⟨fun _ response h => by simp at h, fun _ => contained_domain _⟩
  | ok response => exact ⟨fun h r hr => Except.ok.inj hr ▸ h, fun h => h response rfl⟩

theorem raiseRefusal_of_lt {response : Response} {capability : String} (h : response.statusCode < 400) :
    raiseRefusal response capability = .ok () := if_pos h

/-- A refusal is a domain error, unless its body is nested too deeply. -/
theorem contained_refusal_iff {response : Response} {capability : String} {f : Unit → Except Exc α}
    (Body : Json → Prop) (h : ¬response.statusCode < 400) :
    Contained T (raiseRefusal response capability >>= f) ↔ response.Readable Body := by
  unfold raiseRefusal errorTexts Response.Readable
  rw [if_neg h]
  cases response.json with
  | value body => exact ⟨fun _ hlt => absurd hlt h, fun _ => contained_domain _⟩
  | undecodable => exact ⟨fun _ => trivial, fun _ => contained_domain _⟩
  | unreadable => exact ⟨fun _ => trivial, fun _ => contained_domain _⟩
  | tooDeep => exact ⟨fun hc => not_contained_other _ hc, False.elim⟩

/-- An answer whose decoding is handled. -/
theorem contained_answer_iff {response : Response} {capability message : String} {f : Json → Except Exc α}
    {Body : Json → Prop} (hf : ∀ body, Contained T (f body) ↔ Body body) :
    Contained T (raiseRefusal response capability >>= fun _ => decode message response >>= f) ↔
      response.Readable Body := by
  by_cases hstatus : response.statusCode < 400
  · rw [raiseRefusal_of_lt hstatus]
    unfold decode Response.Readable
    show Contained T (_ >>= f) ↔ _
    cases response.json with
    | value body => exact (hf body).trans ⟨fun h _ => h, fun h => h hstatus⟩
    | undecodable => exact ⟨fun _ => trivial, fun _ => contained_domain _⟩
    | unreadable => exact ⟨fun _ => trivial, fun _ => contained_domain _⟩
    | tooDeep => exact ⟨fun hc => not_contained_other _ hc, False.elim⟩
  · exact contained_refusal_iff Body hstatus

end outcomes

/-! ### The text of a conversation -/

theorem isDict_obj (kvs : List (String × Json)) : IsDict (.obj kvs) := ⟨kvs, rfl⟩

theorem partText_of_readable {part : Json} (h : PartReadable part) : partText part = .ok (textOf part) := by
  obtain ⟨⟨kvs, rfl⟩, hhash⟩ := h
  unfold partText textOf
  dsimp only
  rw [if_neg (by rw [hhash]; exact Bool.noConfusion)]
  cases (Json.obj kvs).getD "type" .null <;> cases (Json.obj kvs).getD "text" .null <;> rfl

theorem partText_of_not_readable {part : Json} (h : ¬PartReadable part) :
    ∃ e, partText part = .error e ∧ ∃ code, e = .other code := by
  unfold partText
  cases part with
  | obj kvs =>
      have hhash : hashable ((Json.obj kvs).getD "type" .null) = false := by
        by_contra hne
        exact h ⟨isDict_obj kvs, by simpa using hne⟩
      exact ⟨typeError, if_pos hhash, _, rfl⟩
  | _ => exact ⟨attributeError, rfl, _, rfl⟩

theorem outputText_of_readable {output : Json} (h : OutputReadable output) :
    outputText output = .ok (textIn output) := by
  obtain ⟨⟨kvs, rfl⟩, parts, hparts, hreached⟩ := h
  unfold outputText textIn
  rw [hparts]
  exact Scan.first_eq (fun part hpart => partText_of_readable hpart) hreached

theorem outputText_of_not_readable {output : Json} (h : ¬OutputReadable output) :
    ∃ e, outputText output = .error e ∧ ∃ code, e = .other code := by
  unfold outputText
  cases output with
  | obj kvs =>
      cases hparts : iterated ((Json.obj kvs).getD "content" (.arr [])) with
      | none => exact ⟨typeError, rfl, _, rfl⟩
      | some parts =>
          refine Scan.first_raises (fun part hpart => partText_of_readable hpart)
            (fun part hpart => partText_of_not_readable hpart) fun hreached => h ?_
          exact ⟨isDict_obj kvs, parts, hparts, hreached⟩
  | _ => exact ⟨attributeError, rfl, _, rfl⟩

/-- A body that can be read gives its text, or the answer is empty. -/
theorem responseText_of_readable {body : Json} (hdict : IsDict body) (h : OutputsReadable body) :
    (∃ text, bodyText body = some text ∧ responseText body = .ok text) ∨
      bodyText body = none ∧ ∃ d, responseText body = .error (.domain d) := by
  obtain ⟨kvs, rfl⟩ := hdict
  by_cases htext : IsText ((Json.obj kvs).getD "output_text" .null)
  · obtain ⟨text, htext⟩ := htext
    refine .inl ⟨text, ?_, ?_⟩
    · rw [bodyText, htext]
    · unfold responseText
      simp only [htext]
  · obtain ⟨outputs, houtputs, hreached⟩ := h.resolve_left htext
    have hfirst := Scan.first_eq (fun output houtput => outputText_of_readable houtput) hreached
    have hbody : bodyText (.obj kvs) = outputs.findSome? textIn := by
      unfold bodyText
      rw [houtputs]
      split
      · next text hown => exact absurd ⟨text, hown⟩ htext
      · rfl
    have hrun : responseText (.obj kvs) = (match outputs.findSome? textIn with
        | some text => .ok text
        | none => .error (.domain { code := "provider_empty_response"
                                    message := "Poskytovatel nevrátil textovou odpověď.", statusCode := 502 })) := by
      unfold responseText
      dsimp only
      split
      · next text hown => exact absurd ⟨text, hown⟩ htext
      · rw [houtputs]
        dsimp only
        rw [hfirst]
        rfl
    rw [hbody, hrun]
    cases outputs.findSome? textIn with
    | some text => exact .inl ⟨text, rfl, rfl⟩
    | none => exact .inr ⟨rfl, _, rfl⟩

theorem responseText_of_not_readable {body : Json} (h : ¬(IsDict body ∧ OutputsReadable body)) :
    ∃ code, responseText body = .error (.other code) := by
  unfold responseText
  cases body with
  | obj kvs =>
      have hnot : ¬OutputsReadable (.obj kvs) := fun houtputs => h ⟨isDict_obj kvs, houtputs⟩
      dsimp only
      split
      · next text hown => exact absurd (.inl ⟨text, hown⟩) hnot
      · cases houtputs : iterated ((Json.obj kvs).getD "output" (.arr [])) with
        | none => exact ⟨_, rfl⟩
        | some outputs =>
            obtain ⟨e, hfirst, code, rfl⟩ := Scan.first_raises
              (fun output houtput => outputText_of_readable houtput)
              (fun output houtput => outputText_of_not_readable houtput)
              (fun hreached => hnot (.inr ⟨outputs, houtputs, hreached⟩))
            refine ⟨code, ?_⟩
            dsimp only
            rw [hfirst]
            rfl
  | _ => exact ⟨_, rfl⟩

theorem dictGet_of_dict {value : Json} (h : IsDict value) (key : String) (default : Json) :
    dictGet value key default = .ok (value.getD key default) := by
  obtain ⟨kvs, rfl⟩ := h
  rfl

theorem dictGet_of_not_dict {value : Json} (h : ¬IsDict value) (key : String) (default : Json) :
    dictGet value key default = .error attributeError := by
  cases value with
  | obj kvs => exact absurd (isDict_obj kvs) h
  | _ => rfl

/-- What is read of a text that could be loaded. -/
theorem contained_loaded_iff {body structured : Json} (hbody : IsDict body) :
    Contained BuiltResult.Typed (do
      let usage ← dictGet body "usage" (.obj [])
      let providerResponseId ← dictGet body "id" (.str "unknown")
      let answer ← dictGet structured "answer" (.str "")
      let inputUnits ← dictGet usage "input_tokens" .null
      let outputUnits ← dictGet usage "output_tokens" .null
      .ok ⟨providerResponseId, answer, structured, inputUnits, outputUnits⟩) ↔ ResultReadable body structured := by
  rw [dictGet_of_dict hbody, dictGet_of_dict hbody]
  by_cases hstructured : IsDict structured
  · by_cases husage : IsDict (body.getD "usage" (.obj []))
    · rw [dictGet_of_dict hstructured]
      show Contained BuiltResult.Typed (dictGet (body.getD "usage" (.obj [])) _ _ >>= fun inputUnits =>
        dictGet (body.getD "usage" (.obj [])) _ _ >>= fun outputUnits => _) ↔ _
      rw [dictGet_of_dict husage, dictGet_of_dict husage]
      refine contained_ok_iff.trans ⟨fun h => ?_, fun h => ?_⟩
      · exact ⟨hstructured, h.text, h.providerResponseId, husage, h.inputUnits, h.outputUnits⟩
      · exact ⟨h.id, h.answer, hstructured, h.inputUnits, h.outputUnits⟩
    · rw [dictGet_of_dict hstructured]
      show Contained BuiltResult.Typed (dictGet (body.getD "usage" (.obj [])) _ _ >>= fun inputUnits => _) ↔ _
      rw [dictGet_of_not_dict husage]
      exact ⟨fun h => absurd h (not_contained_other _), fun h => absurd h.usage husage⟩
  · rw [dictGet_of_not_dict hstructured]
    exact ⟨fun h => absurd h (not_contained_other _), fun h => absurd h.dict hstructured⟩

/-- **A conversation's body** is contained exactly if it is readable. -/
theorem contained_builtResult_iff {numbers : Numbers} {body : Json} :
    Contained BuiltResult.Typed (builtResult numbers body) ↔ ChatReadable numbers body := by
  by_cases hread : IsDict body ∧ OutputsReadable body
  · unfold builtResult
    rcases responseText_of_readable hread.1 hread.2 with ⟨text, htext, hrun⟩ | ⟨htext, d, hrun⟩
    · have hchat : ChatReadable numbers body ↔ TextReadable body (numbers.loads text) := by
        refine ⟨fun h => h.text text htext, fun h => ⟨hread.1, hread.2, fun text' htext' => ?_⟩⟩
        rw [Option.mem_def, htext] at htext'
        exact Option.some.inj htext' ▸ h
      rw [hrun, hchat]
      show Contained BuiltResult.Typed (loadStructured numbers text >>= fun structured => _) ↔ _
      unfold loadStructured TextReadable
      cases numbers.loads text with
      | value structured => exact contained_loaded_iff hread.1
      | undecodable => exact ⟨fun _ => trivial, fun _ => contained_domain _⟩
      | unreadable => exact ⟨fun h => not_contained_other _ h, False.elim⟩
      | tooDeep => exact ⟨fun h => not_contained_other _ h, False.elim⟩
    · rw [hrun]
      refine ⟨fun _ => ⟨hread.1, hread.2, fun text hmem => ?_⟩, fun _ => contained_domain d⟩
      rw [htext] at hmem
      exact absurd hmem (Option.not_mem_none text)
  · obtain ⟨code, hrun⟩ := responseText_of_not_readable hread
    unfold builtResult
    rw [hrun]
    exact ⟨fun h => absurd h (not_contained_other _), fun h => absurd ⟨h.dict, h.outputs⟩ hread⟩

/-! ### The other bodies -/

theorem listedModel_contained (rt : Runtime) (item : Json × ℕ) :
    Contained (fun _ => True) (listedModel rt item) := by
  unfold listedModel
  split
  · exact contained_ok_iff.mpr trivial
  · exact contained_domain _

/-- A loop is contained if the elements that it reaches are. -/
theorem contained_each_iff {α β : Type} {f : α → Except Exc β} {xs : List α} :
    Contained (fun _ => True) (Scan.each f xs) ↔
      ∀ x, Scan.Reaches (fun y => ∃ b, f y = .ok b) xs x → Contained (fun _ => True) (f x) := by
  constructor
  · intro h x hx
    exact ⟨fun _ _ => trivial, fun e he => h.domain e (Scan.each_error_iff.mpr ⟨x, hx, he⟩)⟩
  · intro h
    refine ⟨fun _ _ => trivial, fun e he => ?_⟩
    obtain ⟨x, hx, hrun⟩ := Scan.each_error_iff.mp he
    exact (h x hx).domain e hrun

theorem contained_builtTranscript_iff {language : String} {body : Json} :
    Contained BuiltTranscript.Typed (builtTranscript language body) ↔ TranscriptReadable body := by
  have hdefault : ∀ (key other : String), IsText (body.getD key (.str other)) ↔ IsText (body.getD key (.str "")) := by
    intro key other
    unfold Json.getD
    cases body.get? key with
    | none => exact ⟨fun _ => ⟨"", rfl⟩, fun _ => ⟨other, rfl⟩⟩
    | some value => exact Iff.rfl
  unfold builtTranscript TranscriptReadable Json.getD
  split
  · next text htext =>
    rw [htext]
    refine contained_ok_iff.trans ⟨fun h _ => ?_, fun h => ?_⟩
    · exact ⟨(hdefault _ _).mp h.language, (hdefault _ _).mp h.providerResponseId⟩
    · obtain ⟨hlanguage, hid⟩ := h ⟨text, rfl⟩
      exact ⟨⟨text, rfl⟩, (hdefault _ _).mpr hlanguage, (hdefault _ _).mpr hid⟩
  · next hnot =>
    refine ⟨fun _ htext => ?_, fun _ => contained_domain _⟩
    obtain ⟨text, htext⟩ := htext
    cases hget : body.get? "text" with
    | none =>
        rw [hget] at htext
        exact Json.noConfusion htext
    | some value =>
        rw [hget] at htext
        exact absurd (hget.trans (congrArg some htext)) (hnot text)

theorem toFloat_eq_error (numbers : Numbers) {value : Json} {e : Exc} (hnumber : isNumber value = true) :
    toFloat numbers value = .error e ↔
      e = .other "OverflowError" ∧ ∃ n, value = .int n ∧ numbers.floatOfInt n = none := by
  cases value with
  | int n =>
      unfold toFloat
      cases hfloat : numbers.floatOfInt n with
      | none => simp [hfloat, eq_comm]
      | some r => simp [hfloat]
  | float r => simp [toFloat]
  | bool b => simp [toFloat]
  | null => simp [isNumber] at hnumber
  | str s => simp [isNumber] at hnumber
  | arr xs => simp [isNumber] at hnumber
  | obj kvs => simp [isNumber] at hnumber

theorem isNumber_of_numbersOf {item : Json} {values : List Json} (h : numbersOf item = some values) :
    ∀ value ∈ values, isNumber value = true := by
  unfold numbersOf at h
  split at h
  · split at h
    · next hall =>
      obtain rfl := Option.some.inj h
      exact fun value hmem => List.all_eq_true.mp hall value hmem
    · simp at h
  · simp at h

/-- Numbers have their floats, or the loop over them ends with an overflow. -/
theorem each_toFloat_cases (numbers : Numbers) {values : List Json} (h : ∀ value ∈ values, isNumber value = true) :
    (∃ floats, Scan.each (toFloat numbers) values = .ok floats) ∧
        (∀ n, Json.int n ∈ values → numbers.floatOfInt n ≠ none) ∨
      Scan.each (toFloat numbers) values = .error (.other "OverflowError") ∧
        ∃ n, Json.int n ∈ values ∧ numbers.floatOfInt n = none := by
  cases hrun : Scan.each (toFloat numbers) values with
  | ok floats =>
      refine .inl ⟨⟨floats, rfl⟩, fun n hmem hnone => ?_⟩
      obtain ⟨r, hr⟩ := Scan.exists_of_each hrun hmem
      have herror := (toFloat_eq_error numbers rfl).mpr ⟨rfl, n, rfl, hnone⟩
      exact absurd (hr.symm.trans herror) (by simp)
  | error e =>
      obtain ⟨value, hreached, herror⟩ := Scan.each_error_iff.mp hrun
      obtain ⟨rfl, n, rfl, hnone⟩ := (toFloat_eq_error numbers (h value hreached.mem)).mp herror
      exact .inr ⟨rfl, n, hreached.mem, hnone⟩

/-- An item without such an integer is malformed or has its floats. -/
theorem vectorOf_of_not_overflows {numbers : Numbers} {item : Json × ℕ} (h : ¬Overflows numbers item.1) :
    (numbersOf item.1 = none ∧ ∃ d, vectorOf numbers item = .error (.domain d)) ∨
      (numbersOf item.1).isSome = true ∧ ∃ floats, vectorOf numbers item = .ok floats := by
  unfold vectorOf
  cases hvalues : numbersOf item.1 with
  | none => exact .inl ⟨rfl, _, rfl⟩
  | some values =>
      rcases each_toFloat_cases numbers (isNumber_of_numbersOf hvalues) with
        ⟨hfloats, -⟩ | ⟨-, n, hmem, hnone⟩
      · exact .inr ⟨rfl, hfloats⟩
      · exact absurd ⟨values, hvalues, n, hmem, hnone⟩ h

theorem vectorOf_of_overflows {numbers : Numbers} {item : Json × ℕ} (h : Overflows numbers item.1) :
    vectorOf numbers item = .error (.other "OverflowError") := by
  obtain ⟨values, hvalues, n, hmem, hnone⟩ := h
  unfold vectorOf
  rw [Option.mem_def.mp hvalues]
  rcases each_toFloat_cases numbers (isNumber_of_numbersOf hvalues) with ⟨-, hnear⟩ | ⟨hrun, -⟩
  · exact absurd hnone (hnear n hmem)
  · exact hrun

/-- An item is contained unless it has an integer that no float is near. -/
theorem contained_vectorOf_iff {numbers : Numbers} {item : Json × ℕ} :
    Contained (fun _ => True) (vectorOf numbers item) ↔ ¬Overflows numbers item.1 := by
  constructor
  · intro h hoverflows
    rw [vectorOf_of_overflows hoverflows] at h
    exact not_contained_other _ h
  · intro h
    rcases vectorOf_of_not_overflows h with ⟨-, d, hrun⟩ | ⟨-, floats, hrun⟩
    · rw [hrun]
      exact contained_domain d
    · rw [hrun]
      exact contained_ok_iff.mpr trivial

theorem vectorOf_passes_iff {numbers : Numbers} {item : Json × ℕ} (h : ¬Overflows numbers item.1) :
    (∃ floats, vectorOf numbers item = .ok floats) ↔ (numbersOf item.1).isSome = true := by
  rcases vectorOf_of_not_overflows h with ⟨hnone, d, hrun⟩ | ⟨hsome, hfloats⟩
  · rw [hrun, hnone]
    simp
  · exact ⟨fun _ => hsome, fun _ => hfloats⟩

/-- **An embedding's body** is contained exactly if it is readable. -/
theorem contained_embedding_iff {numbers : Numbers} {body : Json} :
    Contained (fun _ => True) (match body.get? "data" with
      | some (.arr items) => Scan.each (vectorOf numbers) items.zipIdx
      | _ => .error (invalidResponse "Embedding odpověď má neplatný formát.")) ↔ EmbedReadable numbers body := by
  unfold EmbedReadable
  split
  · next items hitems =>
    have hmap : items.zipIdx.map Prod.fst = items := List.zipIdx_map_fst 0 items
    calc Contained (fun _ => True) (Scan.each (vectorOf numbers) items.zipIdx)
        ↔ ∀ x, Scan.Reaches (fun y => ∃ floats, vectorOf numbers y = .ok floats) items.zipIdx x →
            ¬Overflows numbers x.1 := by
          rw [contained_each_iff]
          exact forall_congr' fun x => imp_congr_right fun _ => contained_vectorOf_iff
      _ ↔ ∀ x, Scan.Reaches (fun y => (numbersOf y.1).isSome = true) items.zipIdx x → ¬Overflows numbers x.1 :=
          Scan.forall_reaches_congr fun y hy => vectorOf_passes_iff hy
      _ ↔ ∀ item, Scan.Reaches (fun item => (numbersOf item).isSome = true) items item →
            ¬Overflows numbers item := by
          conv_rhs => rw [← hmap]
          constructor
          · intro h item hitem
            obtain ⟨x, hx, rfl⟩ := Scan.reaches_map_iff.mp hitem
            exact h x hx
          · exact fun h x hx => h x.1 (Scan.reaches_map_iff.mpr ⟨x, hx, rfl⟩)
      _ ↔ _ := by
          constructor
          · intro h items' hitems'
            obtain rfl : items = items' := Json.arr.inj (Option.some.inj (hitems.symm.trans hitems'))
            exact h
          · exact fun h => h items hitems
  · next hnot =>
    refine ⟨fun _ items hitems => absurd hitems (hnot items), fun _ => contained_domain _⟩

/-! ### The calls -/

theorem except_bind_eq_error {α β : Type} {m : Except Exc α} {f : α → Except Exc β} {e : Exc}
    (h : m >>= f = .error e) : m = .error e ∨ ∃ a, m = .ok a ∧ f a = .error e := by
  cases m with
  | error e' => exact .inl (congrArg _ (Except.error.inj h))
  | ok a => exact .inr ⟨a, rfl, h⟩

theorem setOf_error {value : Json} {e : Exc} (h : setOf value = .error e) : e = typeError := by
  unfold setOf at h
  split at h
  · exact (Except.error.inj h).symm
  · split at h
    · simp at h
    · exact (Except.error.inj h).symm

section schemas

variable {rt : Runtime}

theorem closedObject_error {node : Json} {e : Exc} (h : closedObject rt node = .error e) : e = typeError := by
  rcases except_bind_eq_error h with h | ⟨properties, -, h⟩
  · exact setOf_error h
  rcases except_bind_eq_error h with h | ⟨required, -, h⟩
  · exact setOf_error h
  split at h <;> simp at h

theorem closedNode_error {node : Json} {e : Exc} (h : closedNode rt node = .error e) : e = typeError := by
  unfold closedNode at h
  split at h
  · exact closedObject_error h
  · simp at h

mutual

/-- The check of a schema raises a `TypeError` only. -/
theorem strictSchemaCompatible_error :
    ∀ (schema : Json) {e : Exc}, strictSchemaCompatible rt schema = .error e → e = typeError
  | .obj kvs, e, h => by
      unfold strictSchemaCompatible at h
      rcases except_bind_eq_error h with h | ⟨closed, -, h⟩
      · exact closedNode_error h
      · split at h
        · exact strictEntries_error kvs h
        · simp at h
  | .arr xs, e, h => by
      unfold strictSchemaCompatible at h
      exact strictItems_error xs h
  | .null, e, h => by simp [strictSchemaCompatible] at h
  | .bool _, e, h => by simp [strictSchemaCompatible] at h
  | .int _, e, h => by simp [strictSchemaCompatible] at h
  | .float _, e, h => by simp [strictSchemaCompatible] at h
  | .str _, e, h => by simp [strictSchemaCompatible] at h

theorem strictItems_error : ∀ (xs : List Json) {e : Exc}, strictItems rt xs = .error e → e = typeError
  | [], e, h => by simp [strictItems] at h
  | x :: xs, e, h => by
      unfold strictItems at h
      rcases except_bind_eq_error h with h | ⟨strict, -, h⟩
      · exact strictSchemaCompatible_error x h
      · split at h
        · exact strictItems_error xs h
        · simp at h

theorem strictEntries_error :
    ∀ (kvs : List (String × Json)) {e : Exc}, strictEntries rt kvs = .error e → e = typeError
  | [], e, h => by simp [strictEntries] at h
  | (_, x) :: kvs, e, h => by
      unfold strictEntries at h
      rcases except_bind_eq_error h with h | ⟨strict, -, h⟩
      · exact strictSchemaCompatible_error x h
      · split at h
        · exact strictEntries_error kvs h
        · simp at h

end

end schemas

variable {rt : Runtime} {numbers : Numbers} {p : Provider}

theorem contained_chat_iff {request : ChatRequest} :
    Contained BuiltResult.Typed (chat rt numbers p request) ↔ (Call.chat request).Handled rt numbers p := by
  unfold chat
  show _ ↔ (isNull request.capabilities = false ∧ "structured_outputs" ∉ enabledCapabilities request.capabilities ∨ _)
  by_cases hdenied : isNull request.capabilities = false ∧
      "structured_outputs" ∉ enabledCapabilities request.capabilities
  · rw [if_pos hdenied]
    exact iff_of_true (contained_domain _) (.inl hdenied)
  · rw [if_neg hdenied, or_iff_right hdenied]
    cases hstrict : strictSchemaCompatible rt request.responseSchema with
    | error e =>
        obtain rfl := strictSchemaCompatible_error _ hstrict
        refine iff_of_false (not_contained_other _) ?_
        rintro ⟨strict, hok, -⟩
        simp at hok
    | ok strict =>
        refine contained_request_iff.trans ⟨fun h => ⟨strict, rfl, fun response hsend => ?_⟩, ?_⟩
        · exact (contained_answer_iff fun body => contained_builtResult_iff).mp (h response hsend)
        · rintro ⟨strict', hok, h⟩ response hsend
          obtain rfl := Except.ok.inj hok
          exact (contained_answer_iff fun body => contained_builtResult_iff).mpr (h response hsend)

theorem contained_transcribe_iff {audio : List UInt8} {model language : String} :
    Contained BuiltTranscript.Typed (transcribe p audio model language) ↔
      (Call.transcribe audio model language).Handled rt numbers p := by
  unfold transcribe Call.Handled
  cases hsend : p.send (.upload (p.baseUrl ++ "/audio/transcriptions") audio
      [("model", model), ("language", language), ("response_format", "json")]) with
  | error name =>
      refine iff_of_false (not_contained_other _) ?_
      rintro ⟨response, hok, -⟩
      exact absurd (hsend.symm.trans hok) (by simp)
  | ok response =>
      have hanswer : Contained BuiltTranscript.Typed (raiseRefusal response "transcription" >>= fun _ =>
            decodeUnhandled response >>= builtTranscript language) ↔
          response.Readable TranscriptReadable ∧
            (response.statusCode < 400 → ∃ body, response.json = .value body) := by
        by_cases hstatus : response.statusCode < 400
        · rw [raiseRefusal_of_lt hstatus]
          unfold decodeUnhandled Response.Readable
          show Contained BuiltTranscript.Typed (_ >>= builtTranscript language) ↔ _
          cases response.json with
          | value body =>
              refine contained_builtTranscript_iff.trans ⟨fun h => ⟨fun _ => h, fun _ => ⟨body, rfl⟩⟩, ?_⟩
              exact fun h => h.1 hstatus
          | undecodable => exact iff_of_false (not_contained_other _) fun h => by simpa using h.2 hstatus
          | unreadable => exact iff_of_false (not_contained_other _) fun h => by simpa using h.2 hstatus
          | tooDeep => exact iff_of_false (not_contained_other _) fun h => h.1
        · rw [contained_refusal_iff TranscriptReadable hstatus]
          exact ⟨fun h => ⟨h, fun hlt => absurd hlt hstatus⟩, fun h => h.1⟩
      refine hanswer.trans ⟨fun h => ⟨response, hsend, h⟩, ?_⟩
      rintro ⟨response', hok, h⟩
      obtain rfl := Except.ok.inj (hsend.symm.trans hok)
      exact h

variable (rt numbers p) in
/-- **The failures of the provider are domain errors** exactly for the answers that are handled. -/
theorem contained_iff (call : Call) : call.Contained rt numbers p ↔ call.Handled rt numbers p := by
  cases call with
  | listModels =>
      refine contained_request_iff.trans (forall_congr' fun response => imp_congr_right fun _ => ?_)
      refine contained_answer_iff fun body => iff_of_true ?_ trivial
      split
      · exact contained_each_iff.mpr fun item _ => listedModel_contained rt item
      · exact contained_domain _
  | chat request => exact contained_chat_iff
  | transcribe audio model language => exact contained_transcribe_iff
  | embed texts model =>
      refine contained_request_iff.trans (forall_congr' fun response => imp_congr_right fun _ => ?_)
      exact contained_answer_iff fun body => contained_embedding_iff

/-! ### A transcription without a network -/

def unreachable : Provider := ⟨"https://api.openai.com/v1", fun _ => .error "ConnectError"⟩

/-- A transport failure of a transcription is no domain error. -/
theorem transcribe_escapes : ¬∀ (rt : Runtime) (numbers : Numbers) (p : Provider) (call : Call),
    call.Contained rt numbers p := by
  intro h
  have hcontained := h (.sample 1767268800000000 []) ⟨fun _ => .undecodable, fun n => some (toString n ++ ".0")⟩
    unreachable (.transcribe [] "gpt-4o-transcribe" "cs")
  exact not_contained_other "ConnectError" hcontained

end KajovoDagmar.OpenAICompatible
