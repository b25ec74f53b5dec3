import Okc.App.Conformance
import Okc.App.Redaction

/-!
# Structured generation (`okc-ai/src/lib.rs:700-804`, `831-857`, `978-1226`, `1336-1407`)

An adapter sends the request in its provider's own format, reads the text out of the answer and
checks the JSON in it against the schema. Each format says in a field of its own why the generation
stopped. The adapters of OpenAI and of Gemini want it completed; that of Anthropic looks for a
refusal only, and those of Ollama and of compatible servers pass on whatever is there.

* `serde_json::from_slice`, `parse_json_strict` and the reading of a number are parameters, as is
  how the credential resolves.
* An error of a call is what the caller sees of it: its kind and its message.

Results:
* `parseGenerationResponse_isOk`: when an answer is read.
* **`generateStructured_rejects_iff`**: when an answer that reports an abnormal end is refused.
-/

namespace Okc.App

open Okc.Lib Okc.Core

/-! ## Reading JSON -/

/-- `parse_index` of a JSON pointer. -/
def parseIndex (token : String) : Option Nat :=
  if token.toList.head? = some '+' ∨ (token.toList.head? = some '0' ∧ token.toList.length ≠ 1) then
    none
  else (decimal token.toList).filter fun n => n < 2 ^ 64

/-- One step of `Value::pointer`. -/
def pointerStep (v : Value) (token : String) : Option Value :=
  match v.entries with
  | some _ => v.field token
  | none => v.items.bind fun items => (parseIndex token).bind fun i => items[i]?

/-- `Value::pointer`, by its tokens. -/
def pointer (v : Value) (tokens : List String) : Option Value := tokens.foldlM pointerStep v

/-- The parameters that stand for `serde_json` and for the strict parser on it. -/
structure JsonReader where
  fromSlice : Bytes → Option Value
  parseStrict : Bytes → Option Value
  f64 : Number → Option ℚ

/-! ## Usage -/

structure UsageReceipt where
  inputTokens : Option Nat
  outputTokens : Option Nat
  totalTokens : Option Nat
  providerRequestId : Option String
deriving DecidableEq

def UsageReceipt.toValue (r : UsageReceipt) : Value :=
  .object [("input_tokens", (r.inputTokens.map .nat).getD .null),
    ("output_tokens", (r.outputTokens.map .nat).getD .null),
    ("total_tokens", (r.totalTokens.map .nat).getD .null),
    ("provider_request_id", (r.providerRequestId.map .str).getD .null)]

/-- `.get(..).and_then(Value::as_u64)`. -/
def countOf (v : Value) (key : String) : Option Nat := (v.field key).bind fun n => asU64 n.json

/-- The count under the first of two names that is there. -/
def eitherCount (v : Value) (first second : String) : Option Nat :=
  ((v.field first).or (v.field second)).bind fun n => asU64 n.json

/-- `input.zip(output)`, and the sum of a `u64`. -/
def totalOf (input output : Option Nat) : Option Nat :=
  input.bind fun i => output.map fun o => (i + o) % 2 ^ 64

def parseOpenaiUsage (v : Value) : UsageReceipt :=
  let usage := (v.field "usage").getD .null
  ⟨eitherCount usage "input_tokens" "prompt_tokens",
    eitherCount usage "output_tokens" "completion_tokens", countOf usage "total_tokens", none⟩

def parseAnthropicUsage (v : Value) : UsageReceipt :=
  let usage := (v.field "usage").getD .null
  let input := countOf usage "input_tokens"
  let output := countOf usage "output_tokens"
  ⟨input, output, totalOf input output, none⟩

def parseGeminiUsage (v : Value) : UsageReceipt :=
  let usage := ((v.field "usageMetadata").or (v.field "usage")).getD .null
  ⟨eitherCount usage "promptTokenCount" "input_tokens",
    eitherCount usage "candidatesTokenCount" "output_tokens",
    eitherCount usage "totalTokenCount" "total_tokens", none⟩

def parseOllamaUsage (v : Value) : UsageReceipt :=
  let input := countOf v "prompt_eval_count"
  let output := countOf v "eval_count"
  ⟨input, output, totalOf input output, none⟩

/-! ## Answers -/

/-- `.and_then(Value::as_str).unwrap_or(..)`. -/
def statusOr (v : Option Value) (default : String) : String := (v.bind Value.asStr).getD default

/-- `.ok_or_else(|| invalid_response(..))`. -/
def orInvalid {α : Type} (x : Option α) (message : String) : Except ProviderError α :=
  match x with
  | some a => .ok a
  | none => .error (invalidResponse message)

/-- The text of an item, if that is its type. -/
def typedText (kind : String) (item : Value) : Option String :=
  if (item.field "type").bind Value.asStr = some kind then (item.field "text").bind Value.asStr
  else none

/-- The text of an OpenAI response. -/
def openAiText (wire : Value) : Option String :=
  ((wire.field "output").bind Value.items).bind fun items =>
    items.findSome? fun item => ((item.field "content").bind Value.items).bind fun content =>
      content.findSome? (typedText "output_text")

/-- The text of an Anthropic message. -/
def anthropicText (wire : Value) : Option String :=
  ((wire.field "content").bind Value.items).bind fun items => items.findSome? (typedText "text")

/-- The text of a chat message. -/
def contentText (message : Value) : Option String :=
  (pointer message ["message", "content"]).bind Value.asStr

/-- What an answer says: its text, why it stopped, and what it took. -/
abbrev Answer := String × String × UsageReceipt

def readOpenAi (wire : Value) : Except ProviderError Answer := do
  let status := statusOr (wire.field "status") "unknown"
  reject (status ≠ "completed") ⟨.refusal, "OpenAI response did not complete"⟩
  let text ← orInvalid (openAiText wire) "OpenAI response has no output_text"
  .ok (text, status, parseOpenaiUsage wire)

def readAnthropic (wire : Value) : Except ProviderError Answer := do
  let stop := statusOr (wire.field "stop_reason") "unknown"
  reject (stop = "refusal") ⟨.refusal, "Anthropic refused the structured request"⟩
  let text ← orInvalid (anthropicText wire) "Anthropic response has no text content"
  .ok (text, stop, parseAnthropicUsage wire)

def readGemini (wire : Value) : Except ProviderError Answer :=
  (geminiText wire).map fun found => (found.1, found.2, parseGeminiUsage wire)

def readOllama (wire : Value) : Except ProviderError Answer := do
  let text ← orInvalid (contentText wire) "Ollama response has no message content"
  .ok (text, statusOr (wire.field "done_reason") "stop", parseOllamaUsage wire)

def readCompatible (wire : Value) : Except ProviderError Answer := do
  let choice ← orInvalid (pointer wire ["choices", "0"]) "compatible response has no first choice"
  let text ← orInvalid (contentText choice) "compatible response has no message content"
  .ok (text, statusOr (choice.field "finish_reason") "unknown", parseOpenaiUsage wire)

/-- The answer in the provider's own format. -/
def readAnswer : ProviderKind → Value → Except ProviderError Answer
  | .openAi => readOpenAi
  | .anthropic => readAnthropic
  | .gemini => readGemini
  | .ollama => readOllama
  | .openAiCompatible => readCompatible

structure ParsedGeneration where
  output : Value
  responseModel : Option String
  finishReason : String
  usage : UsageReceipt

def parseGenerationResponse (reader : JsonReader) (kind : ProviderKind) (wire : Value) :
    Except ProviderError ParsedGeneration := do
  let answer ← readAnswer kind wire
  let output ← orInvalid (reader.parseStrict (utf8 answer.1))
    "structured response text is not valid JSON"
  .ok ⟨output, (wire.field "model").bind Value.asStr, answer.2.1, answer.2.2⟩

/-! ## Requests -/

mutual
/-- `remove_null_object_fields`. -/
def removeNullObjectFields : Json → Json
  | .arr items => .arr (removeNullItems items)
  | .obj entries => .obj (removeNullEntries entries)
  | .null => .null
  | .bool b => .bool b
  | .num n => .num n
  | .str s => .str s

def removeNullItems : List Json → List Json
  | [] => []
  | item :: rest => removeNullObjectFields item :: removeNullItems rest

def removeNullEntries : List (String × Json) → List (String × Json)
  | [] => []
  | (key, item) :: rest =>
    match item with
    | .null => removeNullEntries rest
    | item => (key, removeNullObjectFields item) :: removeNullEntries rest
end

/-- A message of a chat. -/
def chatMessage (role : String) (content : Value) : Value :=
  .object [("role", .str role), ("content", content)]

/-- `generation_wire_body`. -/
def generationWireBody (kind : ProviderKind) (model : String)
    (r : StructuredGenerationRequest) : Json :=
  let input : Value := .str r.input.text
  let body : Value := match kind with
    | .openAi => .object [("model", .str model), ("store", .bool false),
        ("truncation", .str "disabled"),
        ("input", .arr [
          chatMessage "system" (.arr [.object [("type", .str "input_text"),
            ("text", .str r.systemInstruction)]]),
          chatMessage "user" (.arr [.object [("type", .str "input_text"), ("text", input)]])]),
        ("text", .object [("format", .object [("type", .str "json_schema"),
          ("name", .str r.schemaName), ("strict", .bool true), ("schema", r.outputSchema)])]),
        ("max_output_tokens", .nat r.maxOutputTokens), ("temperature", zeroTemperature)]
    | .anthropic => .object [("model", .str model), ("max_tokens", .nat r.maxOutputTokens),
        ("system", .str r.systemInstruction), ("messages", .arr [chatMessage "user" input]),
        ("output_config", .object [("format", .object [("type", .str "json_schema"),
          ("schema", r.outputSchema)])]),
        ("temperature", zeroTemperature)]
    | .gemini => .object [("model", .str model), ("store", .bool false),
        ("system_instruction", .str r.systemInstruction), ("input", input),
        ("response_format", .object [("type", .str "json_schema"),
          ("json_schema", r.outputSchema)]),
        ("generation_config", .object [("max_output_tokens", .nat r.maxOutputTokens),
          ("temperature", zeroTemperature)])]
    | .ollama => .object [("model", .str model), ("stream", .bool false),
        ("messages", .arr [chatMessage "system" (.str r.systemInstruction),
          chatMessage "user" input]),
        ("format", r.outputSchema),
        ("options", .object [("temperature", zeroTemperature),
          ("num_predict", .nat r.maxOutputTokens)])]
    | .openAiCompatible => .object [("model", .str model),
        ("messages", .arr [chatMessage "system" (.str r.systemInstruction),
          chatMessage "user" input]),
        ("response_format", .object [("type", .str "json_schema"),
          ("json_schema", .object [("name", .str r.schemaName), ("strict", .bool true),
            ("schema", r.outputSchema)])]),
        ("max_tokens", .nat r.maxOutputTokens), ("temperature", zeroTemperature)]
  removeNullObjectFields body.json

/-- `endpoint_with_path`. -/
def endpointWithPath (endpoint defaultPath : String) : String :=
  let trimmed := String.ofList (endpoint.toList.rdropWhile (· == '/'))
  let path := (cutAt "://".toList trimmed.toList).any fun parts => parts.2.contains '/'
  if path then trimmed else trimmed ++ defaultPath

/-- `generation_endpoint`. -/
def generationEndpoint (profile : ProviderProfile) : String :=
  endpointWithPath profile.endpoint (match profile.kind with
    | .openAi => "/v1/responses"
    | .anthropic => "/v1/messages"
    | .gemini => "/v1beta/interactions"
    | .ollama => "/api/chat"
    | .openAiCompatible => "/v1/chat/completions")

/-- `provider_name`. -/
def providerName : ProviderKind → String
  | .openAi => "openai"
  | .anthropic => "anthropic"
  | .gemini => "gemini"
  | .ollama => "ollama"
  | .openAiCompatible => "openai_compatible"

/-- `http_request`. -/
def httpRequest (profile : ProviderProfile) (timeoutMs : UInt64) (url : String)
    (headers : List (String × String)) (body : Json) : Except ProviderError HttpRequest := do
  reject (profile.maxInputBytes < (toVec body).length)
    ⟨.contextLimit, "provider request exceeds the configured input byte limit"⟩
  .ok ⟨url, headers, toVec body, timeoutMs, profile.maxResponseBytes⟩

section

variable (X : Externals) (reader : JsonReader) (w : Surroundings) (profile : ProviderProfile)
  (timeoutMs : UInt64) (credential : Except ProviderError (Option String))
  (request : StructuredGenerationRequest)

/-- What the caller sees of a step that fails. -/
def visible {α : Type} (x : Except ProviderError α) : Except Stop α := x.mapError .refused

/-- The part of `generate_structured` that ends with the answer, as JSON. -/
def receiveAnswer : Act (List Event) Stop (HttpResponse × Value) := do
  Act.lift (visible (validateGenerationRequest request))
  Act.mapError (fun e => .refused e.toProviderError) (cancelled w)
  let key ← Act.lift (visible credential)
  let http ← Act.lift (visible (httpRequest profile timeoutMs (generationEndpoint profile)
    (headers profile.kind key) (generationWireBody profile.kind profile.model request)))
  let response ← Act.mapError (fun e => .refused e.toProviderError)
    (sendLoop reader.fromSlice w http 0)
  let wire ← Act.lift (visible (match reader.parseStrict response.body with
    | some wire => .ok wire
    | none => .error (invalidResponse "provider returned malformed JSON")))
  pure (response, wire)

/-- `ProviderClient::generate_structured`. -/
def generateStructured : Act (List Event) Stop StructuredGenerationResponse := do
  let answer ← receiveAnswer reader w profile timeoutMs credential request
  let parsed ← Act.lift (visible (parseGenerationResponse reader profile.kind answer.2))
  Act.lift (validateJsonInstance reader.f64 request.outputSchema parsed.output)
  pure {
    output := parsed.output
    identity := .object [("provider", .str (providerName profile.kind)),
      ("model", .str profile.model), ("adapter_version", .str productVersion),
      ("response_model", (parsed.responseModel.map .str).getD .null)]
    requestHash := (rawHash X "okc:ai-request:v3\x00"
      (toVec (generationWireBody profile.kind profile.model request))).hex
    responseHash := (rawHash X "okc:ai-response:v3\x00" answer.2.canonicalJson).hex
    finishReason := parsed.finishReason
    usage := UsageReceipt.toValue { parsed.usage with providerRequestId := answer.1.requestId } }

end

/-! ## Why a generation stopped -/

/-- The field in which a provider says why the generation stopped. -/
def finishField : ProviderKind → Value → Option Value
  | .openAi, wire => wire.field "status"
  | .anthropic, wire => wire.field "stop_reason"
  | .gemini, wire => wire.field "status"
  | .ollama, wire => wire.field "done_reason"
  | .openAiCompatible, wire => (pointer wire ["choices", "0"]).bind (Value.field "finish_reason")

/-- What the field says of a generation that came to its own end. -/
def normalFinish : ProviderKind → List String
  | .openAi => ["completed"]
  | .anthropic => ["end_turn", "stop_sequence"]
  | .gemini => ["completed"]
  | .ollama => ["stop"]
  | .openAiCompatible => ["stop"]

/-- The provider reports that the generation was cut off, filtered, refused or left incomplete. -/
def Abnormal (kind : ProviderKind) (wire : Value) : Prop :=
  ∃ v ∈ finishField kind wire, v ≠ .null ∧ ∀ finish ∈ normalFinish kind, v ≠ .str finish

/-- The adapter looks at what the provider reports. -/
def Examined : ProviderKind → Value → Prop
  | .openAi, _ => True
  | .anthropic, wire => finishField .anthropic wire = some (.str "refusal")
  | .gemini, wire => ∃ status, finishField .gemini wire = some (.str status)
  | .ollama, _ => False
  | .openAiCompatible, _ => False

/-- The text of an answer, whatever else it says. -/
def partialText : ProviderKind → Value → Option String
  | .openAi, wire => openAiText wire
  | .anthropic, wire => anthropicText wire
  | .gemini, wire => findString ["output_text", "text"] wire.json
  | .ollama, wire => contentText wire
  | .openAiCompatible, wire => (pointer wire ["choices", "0"]).bind contentText

/-- The text is JSON that conforms to the schema. -/
def Usable (reader : JsonReader) (kind : ProviderKind) (schema wire : Value) : Prop :=
  ∃ text output, partialText kind wire = some text ∧ reader.parseStrict (utf8 text) = some output ∧
    validateJsonInstance reader.f64 schema output = .ok ()

theorem orInvalid_eq_ok {α : Type} {x : Option α} {message : String} {a : α} :
    orInvalid x message = .ok a ↔ x = some a := by
  cases x <;> simp [orInvalid]

theorem value_asStr_eq_some {v : Value} {s : String} : v.asStr = some s ↔ v = .str s := by
  obtain ⟨json, hcanonical⟩ := v
  rw [Value.ext_iff]
  cases json <;> simp [Value.asStr, Value.str]

/-- A status that is there is not taken for another. -/
theorem statusOr_ne {v : Value} {default s : String} (hv : v ≠ .str s) (hdefault : default ≠ s) :
    statusOr (some v) default ≠ s := by
  unfold statusOr
  rw [Option.bind_some]
  cases hs : v.asStr with
  | none => exact hdefault
  | some found =>
    rintro rfl
    exact hv (value_asStr_eq_some.mp hs)

theorem readOpenAi_of_abnormal {wire : Value} (h : Abnormal .openAi wire) (answer : Answer) :
    readOpenAi wire ≠ .ok answer := by
  obtain ⟨v, hv, -, hfinish⟩ := h
  have hstatus : wire.field "status" = some v := hv
  have hne : statusOr (wire.field "status") "unknown" ≠ "completed" :=
    hstatus ▸ statusOr_ne (hfinish "completed" (by decide)) (by decide)
  intro hread
  simp only [readOpenAi, bind_unit_eq_ok, reject_eq_ok, not_not] at hread
  exact hne hread.1

theorem readAnthropic_eq_ok {wire : Value} {answer : Answer} :
    readAnthropic wire = .ok answer ↔ finishField .anthropic wire ≠ some (.str "refusal") ∧
      ∃ text, anthropicText wire = some text ∧
        (text, statusOr (wire.field "stop_reason") "unknown", parseAnthropicUsage wire) =
          answer := by
  have hstop : statusOr (wire.field "stop_reason") "unknown" = "refusal" ↔
      finishField .anthropic wire = some (.str "refusal") := by
    show _ ↔ wire.field "stop_reason" = _
    cases wire.field "stop_reason" with
    | none => exact iff_of_false (by decide) (by simp)
    | some v =>
      rw [Option.some_inj]
      by_cases hv : v = .str "refusal"
      · exact iff_of_true (by rw [hv]; rfl) hv
      · exact iff_of_false (statusOr_ne hv (by decide)) hv
  simp only [readAnthropic, bind_eq_ok, exists_unit, reject_eq_ok, orInvalid_eq_ok, hstop,
    Except.ok.injEq, ne_eq]

theorem geminiText_eq_ok {wire : Value} {found : String × String} :
    geminiText wire = .ok found ↔ statusOr (wire.field "status") "completed" = "completed" ∧
      ∃ text, findString ["output_text", "text"] wire.json = some text ∧
        (text, "completed") = found := by
  have hstatus : ((wire.field "status").bind Value.asStr).getD "completed" =
      statusOr (wire.field "status") "completed" := rfl
  simp only [geminiText, bind_unit_eq_ok, reject_eq_ok, not_not, hstatus]
  refine and_congr_right fun hcompleted => ?_
  rw [hcompleted]
  cases findString ["output_text", "text"] wire.json with
  | none => simp
  | some text => simp

/-- **An answer with an abnormal end is read iff its adapter does not look**, and it has a text. -/
theorem readAnswer_of_abnormal {kind : ProviderKind} {wire : Value} (h : Abnormal kind wire)
    {text : String} :
    (∃ answer, readAnswer kind wire = .ok answer ∧ answer.1 = text) ↔
      ¬ Examined kind wire ∧ partialText kind wire = some text := by
  cases kind with
  | openAi =>
    refine iff_of_false ?_ fun hnot => hnot.1 trivial
    rintro ⟨answer, hread, -⟩
    exact readOpenAi_of_abnormal h answer hread
  | anthropic =>
    constructor
    · rintro ⟨answer, hread, rfl⟩
      obtain ⟨hne, found, hfound, rfl⟩ := readAnthropic_eq_ok.mp hread
      exact ⟨hne, hfound⟩
    · rintro ⟨hne, hfound⟩
      exact ⟨_, readAnthropic_eq_ok.mpr ⟨hne, text, hfound, rfl⟩, rfl⟩
  | gemini =>
    obtain ⟨v, hv, -, hfinish⟩ := h
    have hstatus : wire.field "status" = some v := hv
    have hlooks : statusOr (wire.field "status") "completed" = "completed" ↔
        ¬ Examined .gemini wire := by
      show _ ↔ ¬ ∃ status, wire.field "status" = some (.str status)
      rw [hstatus]
      constructor
      · rintro hcompleted ⟨status, hs⟩
        obtain rfl := Option.some.inj hs
        refine hfinish "completed" (by decide) ?_
        rw [show status = "completed" from hcompleted]
      · intro hnone
        cases hs : v.asStr with
        | none =>
          unfold statusOr
          rw [Option.bind_some, hs]
          rfl
        | some status => exact absurd ⟨status, by rw [value_asStr_eq_some.mp hs]⟩ hnone
    show (∃ answer, (geminiText wire).map _ = .ok answer ∧ _) ↔ _
    rw [← hlooks]
    constructor
    · rintro ⟨answer, hread, rfl⟩
      cases hgemini : geminiText wire with
      | error e =>
        rw [hgemini] at hread
        cases hread
      | ok found =>
        rw [hgemini] at hread
        obtain ⟨hcompleted, text, hfound, rfl⟩ := geminiText_eq_ok.mp hgemini
        obtain rfl := Except.ok.inj hread
        exact ⟨hcompleted, hfound⟩
    · rintro ⟨hcompleted, hfound⟩
      have hgemini := geminiText_eq_ok.mpr ⟨hcompleted, text, hfound, rfl⟩
      exact ⟨_, by rw [hgemini]; rfl, rfl⟩
  | ollama =>
    have hlooks : ¬ Examined .ollama wire := id
    simp only [readAnswer, readOllama, bind_eq_ok, orInvalid_eq_ok, Except.ok.injEq, partialText,
      hlooks, not_false_iff, true_and]
    constructor
    · rintro ⟨_, ⟨found, hfound, rfl⟩, rfl⟩
      exact hfound
    · exact fun hfound => ⟨_, ⟨text, hfound, rfl⟩, rfl⟩
  | openAiCompatible =>
    have hlooks : ¬ Examined .openAiCompatible wire := id
    simp only [readAnswer, readCompatible, bind_eq_ok, orInvalid_eq_ok, Except.ok.injEq,
      partialText, hlooks, not_false_iff, true_and, Option.bind_eq_some_iff]
    constructor
    · rintro ⟨_, ⟨choice, hchoice, found, hfound, rfl⟩, rfl⟩
      exact ⟨choice, hchoice, hfound⟩
    · rintro ⟨choice, hchoice, hfound⟩
      exact ⟨_, ⟨choice, hchoice, text, hfound, rfl⟩, rfl⟩

theorem parseGenerationResponse_eq_ok {reader : JsonReader} {kind : ProviderKind} {wire : Value}
    {output : Value} :
    (∃ parsed, parseGenerationResponse reader kind wire = .ok parsed ∧ parsed.output = output) ↔
      ∃ text, (∃ answer, readAnswer kind wire = .ok answer ∧ answer.1 = text) ∧
        reader.parseStrict (utf8 text) = some output := by
  simp only [parseGenerationResponse, bind_eq_ok, orInvalid_eq_ok, Except.ok.injEq]
  constructor
  · rintro ⟨_, ⟨answer, hread, found, hparse, rfl⟩, rfl⟩
    exact ⟨_, ⟨answer, hread, rfl⟩, hparse⟩
  · rintro ⟨_, ⟨answer, hread, rfl⟩, hparse⟩
    exact ⟨_, ⟨answer, hread, output, hparse, rfl⟩, rfl⟩

section

variable {X : Externals} {reader : JsonReader} {w : Surroundings} {profile : ProviderProfile}
  {timeoutMs : UInt64} {credential : Except ProviderError (Option String)}
  {request : StructuredGenerationRequest} {trace : List Event} {answer : HttpResponse × Value}

theorem visible_ok {α : Type} (a : α) : visible (.ok a : Except ProviderError α) = .ok a := rfl

/-- What is made of an answer that was received. -/
theorem generateStructured_ok_iff
    (h : (receiveAnswer reader w profile timeoutMs credential request trace).1 = .ok answer) :
    (∃ response, (generateStructured X reader w profile timeoutMs credential request trace).1 =
        .ok response) ↔
      ∃ parsed, parseGenerationResponse reader profile.kind answer.2 = .ok parsed ∧
        validateJsonInstance reader.f64 request.outputSchema parsed.output = .ok () := by
  have hreceive : receiveAnswer reader w profile timeoutMs credential request trace =
      (.ok answer, (receiveAnswer reader w profile timeoutMs credential request trace).2) :=
    Prod.ext h rfl
  unfold generateStructured
  rw [Act.bind_ok hreceive]
  cases hparse : parseGenerationResponse reader profile.kind answer.2 with
  | error e =>
    have hvisible : visible (.error e : Except ProviderError ParsedGeneration) =
        .error (.refused e) := rfl
    rw [hvisible, Act.lift_error_bind]
    refine iff_of_false ?_ ?_
    · rintro ⟨response, hresponse⟩
      cases hresponse
    · rintro ⟨parsed, hparsed, -⟩
      cases hparsed
  | ok parsed =>
    rw [visible_ok, Act.lift_ok_bind]
    simp only [Except.ok.injEq, exists_eq_left']
    cases hvalid : validateJsonInstance reader.f64 request.outputSchema parsed.output with
    | error stop =>
      rw [Act.lift_error_bind]
      refine iff_of_false ?_ (by simp)
      rintro ⟨response, hresponse⟩
      cases hresponse
    | ok =>
      rw [Act.lift_ok_bind]
      exact iff_of_true ⟨_, rfl⟩ rfl

/-- **An answer that reports an abnormal end is refused iff its adapter looks at the report**, or
the text in it is of no use anyway. -/
theorem generateStructured_rejects_iff
    (h : (receiveAnswer reader w profile timeoutMs credential request trace).1 = .ok answer) :
    (Abnormal profile.kind answer.2 →
        ∃ stop, (generateStructured X reader w profile timeoutMs credential request trace).1 =
          .error stop) ↔
      (Abnormal profile.kind answer.2 →
        Examined profile.kind answer.2 ∨
          ¬ Usable reader profile.kind request.outputSchema answer.2) := by
  refine imp_congr_right fun habnormal => ?_
  have hok := generateStructured_ok_iff (X := X) h
  have hread : (∃ parsed, parseGenerationResponse reader profile.kind answer.2 = .ok parsed ∧
      validateJsonInstance reader.f64 request.outputSchema parsed.output = .ok ()) ↔
      ¬ Examined profile.kind answer.2 ∧
        Usable reader profile.kind request.outputSchema answer.2 := by
    constructor
    · rintro ⟨parsed, hparsed, hvalid⟩
      obtain ⟨text, htext, hparse⟩ := parseGenerationResponse_eq_ok.mp ⟨parsed, hparsed, rfl⟩
      obtain ⟨hlooks, hpartial⟩ := (readAnswer_of_abnormal habnormal).mp htext
      exact ⟨hlooks, text, parsed.output, hpartial, hparse, hvalid⟩
    · rintro ⟨hlooks, text, output, hpartial, hparse, hvalid⟩
      obtain ⟨parsed, hparsed, rfl⟩ := parseGenerationResponse_eq_ok.mpr
        ⟨text, (readAnswer_of_abnormal habnormal).mpr ⟨hlooks, hpartial⟩, hparse⟩
      exact ⟨parsed, hparsed, hvalid⟩
  rw [hread] at hok
  have hreject : (Examined profile.kind answer.2 ∨
      ¬ Usable reader profile.kind request.outputSchema answer.2) ↔
      ¬ (¬ Examined profile.kind answer.2 ∧
        Usable reader profile.kind request.outputSchema answer.2) := by
    rw [not_and_or, not_not]
  rw [hreject, ← hok]
  cases hrun : (generateStructured X reader w profile timeoutMs credential request trace).1 with
  | ok response =>
    refine iff_of_false ?_ fun hnot => hnot ⟨response, rfl⟩
    rintro ⟨stop, hstop⟩
    cases hstop
  | error stop =>
    refine iff_of_true ⟨stop, rfl⟩ ?_
    rintro ⟨response, hresponse⟩
    cases hresponse

/-- What it takes to receive an answer. -/
theorem receiveAnswer_ok {key : Option String} {http : HttpRequest} {response : HttpResponse}
    {wire : Value} (hvalid : validateGenerationRequest request = .ok ())
    (hcancelled : w.cancelled trace.length = false) (hkey : credential = .ok key)
    (hhttp : httpRequest profile timeoutMs (generationEndpoint profile) (headers profile.kind key)
      (generationWireBody profile.kind profile.model request) = .ok http)
    (hsend : (sendLoop reader.fromSlice w http 0 (trace ++ [.token false])).1 = .ok response)
    (hwire : reader.parseStrict response.body = some wire) :
    (receiveAnswer reader w profile timeoutMs credential request trace).1 =
      .ok (response, wire) := by
  have hgo : cancelled w trace = (.ok (), trace ++ [.token false]) := by
    rw [cancelled_run, hcancelled]
    rfl
  have hlook : Act.mapError (fun e => Stop.refused e.toProviderError) (cancelled w) trace =
      (.ok (), trace ++ [.token false]) := by
    unfold Act.mapError
    rw [hgo]
  have hanswer : Act.mapError (fun e => Stop.refused e.toProviderError)
      (sendLoop reader.fromSlice w http 0) (trace ++ [.token false]) =
      (.ok response, (sendLoop reader.fromSlice w http 0 (trace ++ [.token false])).2) := by
    unfold Act.mapError
    cases hrun : sendLoop reader.fromSlice w http 0 (trace ++ [.token false]) with
    | mk result events =>
      rw [hrun] at hsend
      obtain rfl := hsend
      rfl
  unfold receiveAnswer
  rw [hvalid, visible_ok, Act.lift_ok_bind, Act.bind_ok hlook, hkey, visible_ok, Act.lift_ok_bind,
    hhttp, visible_ok, Act.lift_ok_bind, Act.bind_ok hanswer, hwire]
  rfl

end

/-! ## An answer that is cut off -/

/-- A chat whose generation reached its limit of tokens. -/
def cutChat : Value :=
  .object [("done_reason", .str "length"), ("message", .object [("content", .str "{}")])]

/-- `serde_json` and the strict parser, on that chat and on its text. -/
def cutReader : JsonReader where
  fromSlice _ := none
  parseStrict bytes :=
    if bytes = cutChat.canonicalJson then some cutChat
    else if bytes = utf8 "{}" then some (.object [])
    else none
  f64 _ := none

def cutProfile : ProviderProfile :=
  ⟨.ollama, "http://127.0.0.1:11434", "fixture-model", 16384, 16384, 16, .object []⟩

def cutRequest : StructuredGenerationRequest :=
  ⟨.critic, "task", "Find nothing.", .object [], "okc_empty", objectSchema [], 16⟩

def cutResponse : HttpResponse := ⟨200, cutChat.canonicalJson, none, none⟩

/-- The provider answers with the chat at once. -/
def cutSurroundings : Surroundings := ⟨instant, fun _ => .ok cutResponse⟩

theorem field_cutChat : cutChat.field "done_reason" = some (.str "length") ∧
    cutChat.field "message" = some (.object [("content", .str "{}")]) := by
  have hentries : cutChat.entries = some [("done_reason", .str "length"),
      ("message", .object [("content", .str "{}")])] :=
    Value.entries_object (by unfold Sorted; decide)
  refine ⟨?_, ?_⟩
  · rw [Value.field, hentries]
    rfl
  · rw [Value.field, hentries]
    rfl

theorem abnormal_cutChat : Abnormal .ollama cutChat := by
  refine ⟨.str "length", field_cutChat.1, ?_, ?_⟩
  · intro h
    cases congrArg Value.json h
  · intro finish hfinish h
    obtain rfl : finish = "stop" := by simpa [normalFinish] using hfinish
    have hstr := congrArg Value.asStr h
    exact absurd (Option.some.inj hstr) (by decide)

/-- The request that is sent. -/
def cutHttp : HttpRequest :=
  ⟨generationEndpoint cutProfile, headers cutProfile.kind none,
    toVec (generationWireBody cutProfile.kind cutProfile.model cutRequest), 1000, 16384⟩

theorem httpRequest_cutRequest :
    httpRequest cutProfile 1000 (generationEndpoint cutProfile) (headers cutProfile.kind none)
      (generationWireBody cutProfile.kind cutProfile.model cutRequest) = .ok cutHttp := by
  have hlen : ¬ cutProfile.maxInputBytes <
      (toVec (generationWireBody cutProfile.kind cutProfile.model cutRequest)).length := by
    decide +kernel
  unfold httpRequest reject
  rw [if_neg hlen]
  rfl

theorem judge_cutResponse :
    judge cutReader.fromSlice cutHttp (.ok cutResponse) = .ok cutResponse := by
  have hsuccess : Successful cutResponse := by decide
  rw [judge, if_pos hsuccess]

theorem sendLoop_cutChat :
    (sendLoop cutReader.fromSlice cutSurroundings cutHttp 0 [.token false]).1 =
      .ok cutResponse := by
  have hshape : (fun n => replyShape (judge cutReader.fromSlice cutHttp
      (cutSurroundings.outcome n))) = fun _ => none :=
    funext fun _ => by
      show replyShape (judge cutReader.fromSlice cutHttp (.ok cutResponse)) = none
      rw [judge_cutResponse]
      rfl
  have hend : ending instant (fun _ => none) cutHttp.budget 0 1 = .judged 3 := by
    rw [ending]
    rfl
  rw [sendLoop_eq, hshape]
  show Ending.reply _ (ending instant (fun _ => none) cutHttp.budget 0 1) = _
  rw [hend]
  exact judge_cutResponse

theorem receiveAnswer_cutChat :
    (receiveAnswer cutReader cutSurroundings cutProfile 1000 (.ok none) cutRequest []).1 =
      .ok (cutResponse, cutChat) := by
  have hvalid : validateGenerationRequest cutRequest = .ok () := by decide +kernel
  have hwire : cutReader.parseStrict cutResponse.body = some cutChat := by
    show (if cutChat.canonicalJson = cutChat.canonicalJson then some cutChat
      else if cutChat.canonicalJson = utf8 "{}" then some (.object []) else none) = _
    rw [if_pos rfl]
  exact receiveAnswer_ok hvalid rfl rfl httpRequest_cutRequest sendLoop_cutChat hwire

theorem pointerStep_of_entries {v : Value} {es : List (String × Value)} (h : v.entries = some es)
    (token : String) : pointerStep v token = v.field token := by
  unfold pointerStep
  rw [h]

theorem contentText_cutChat : contentText cutChat = some "{}" := by
  have hchat : ∃ es, cutChat.entries = some es :=
    ⟨_, Value.entries_object (by unfold Sorted; decide)⟩
  obtain ⟨es, hes⟩ := hchat
  have hmessage : (Value.object [("content", .str "{}")]).entries =
      some [("content", .str "{}")] := Value.entries_object (by unfold Sorted; decide)
  have hcontent : (Value.object [("content", .str "{}")]).field "content" = some (.str "{}") := by
    rw [Value.field, hmessage]
    rfl
  have hpointer : pointer cutChat ["message", "content"] = some (.str "{}") := by
    unfold pointer
    rw [List.foldlM_cons, pointerStep_of_entries hes, field_cutChat.2]
    show (pointerStep (Value.object [("content", .str "{}")]) "content" >>= _) = _
    rw [pointerStep_of_entries hmessage, hcontent]
    rfl
  rw [contentText, hpointer]
  rfl

/-- The text of the chat conforms to the schema. -/
theorem usable_cutChat : Usable cutReader .ollama cutRequest.outputSchema cutChat := by
  refine ⟨"{}", .object [], contentText_cutChat, ?_, ?_⟩
  · have hne : utf8 "{}" ≠ cutChat.canonicalJson := by decide +kernel
    show (if utf8 "{}" = cutChat.canonicalJson then some cutChat
      else if utf8 "{}" = utf8 "{}" then some (.object []) else none) = _
    rw [if_neg hne, if_pos rfl]
  · have hportable : validatePortableSchema cutRequest.outputSchema = .ok () := by decide +kernel
    have hnode : checkNode cutReader.f64 cutRequest.outputSchema.json (Value.object []).json "$" =
        .ok [] := by
      rfl
    unfold validateJsonInstance
    rw [hportable, walkInstance_eq, hnode]
    rfl

/-- A chat that was cut off is accepted. -/
theorem cutChat_accepted :
    Abnormal .ollama cutChat ∧
    (receiveAnswer cutReader cutSurroundings cutProfile 1000 (.ok none) cutRequest []).1 =
      .ok (cutResponse, cutChat) ∧
    ∃ response, (generateStructured (plainExternals prefixHash) cutReader cutSurroundings
      cutProfile 1000 (.ok none) cutRequest []).1 = .ok response := by
  refine ⟨abnormal_cutChat, receiveAnswer_cutChat, ?_⟩
  refine (generateStructured_ok_iff receiveAnswer_cutChat).mpr ?_
  obtain ⟨text, output, hpartial, hparse, hvalid⟩ := usable_cutChat
  obtain ⟨parsed, hparsed, rfl⟩ := parseGenerationResponse_eq_ok.mpr
    ⟨text, (readAnswer_of_abnormal abnormal_cutChat).mpr ⟨id, hpartial⟩, hparse⟩
  exact ⟨parsed, hparsed, hvalid⟩

/-- Of a chat that was cut off, only the text could be a reason to refuse it. -/
theorem generateStructured_rejects_iff_cutChat :
    (Abnormal .ollama cutChat →
        ∃ stop, (generateStructured (plainExternals prefixHash) cutReader cutSurroundings
          cutProfile 1000 (.ok none) cutRequest []).1 = .error stop) ↔
      (Abnormal .ollama cutChat → Examined .ollama cutChat ∨
        ¬ Usable cutReader .ollama cutRequest.outputSchema cutChat) :=
  generateStructured_rejects_iff receiveAnswer_cutChat

end Okc.App
