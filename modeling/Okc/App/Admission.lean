import Okc.App.Configuration
import Okc.App.Execution
import Okc.Core.Bulk

/-!
# What the provider adapters admit (`okc-ai/src/lib.rs:811-977`, `1615-1738`)

An adapter checks a request before it resolves a credential or opens a connection. This file has
the three checks and says which of the pipeline's requests pass them.

* A schema is portable if a walk of at most 32 levels finds only the keywords and types every
  provider knows. `PortableSchema` is closed under the application's own builders (`portable_object`,
  `portable_array`), so its schemas pass without being walked.
* A task ID is the run's ID, a stage and perhaps a cluster ID, all of them bounded.
* The embedding task puts all documents in one batch, whose size a profile limits.

Results:
* `requestsAdmitted_iff`: every request of a run is admitted iff the corpus fits in one batch.
* `runEmbeddingTask_checked`, `runOrganizerTask_checked`, `runSynthesisTask_checked` and
  `runCriticTask_checked`: a stage whose request is admitted does not notice the checks.
-/

namespace Okc.App

open Okc.Lib Okc.Core

/-! ## The checks -/

structure ProviderError where
  kind : ProviderErrorKind
  message : String
deriving DecidableEq

/-- `ProviderError::new(ProviderErrorKind::InvalidRequest, message)`. -/
def invalidRequest (message : String) : ProviderError := ⟨.invalidRequest, message⟩

/-- `ALLOWED`. -/
def allowedKeywords : List String :=
  ["type", "properties", "required", "items", "additionalProperties", "enum", "description",
    "minimum", "maximum", "minItems", "maxItems", "minLength", "maxLength"]

def schemaTypes : List String :=
  ["object", "array", "string", "number", "integer", "boolean", "null"]

/-- `Value::as_str`. -/
def asStr : Json → Option String
  | .str s => some s
  | _ => none

/-- `object.get("type").and_then(Value::as_str)`, if it is a type. -/
def schemaType (object : List (String × Json)) : Except ProviderError String :=
  match (get? "type" object).bind asStr with
  | none => .error (invalidRequest "every JSON Schema node requires one string type")
  | some kind => do
    reject (kind ∉ schemaTypes) (invalidRequest "unsupported JSON Schema type")
    .ok kind

/-- The properties of an object schema. -/
def schemaProperties (object : List (String × Json)) :
    Except ProviderError (List (String × Json)) := do
  reject (get? "additionalProperties" object ≠ some (.bool false))
    (invalidRequest "object schemas require additionalProperties=false")
  match get? "properties" object, get? "required" object with
  | some (.obj properties), some (.arr required) =>
    match required.mapM asStr with
    | none => .error (invalidRequest "required entries must be strings")
    | some required => do
      reject (required.dedup.length ≠ properties.length ∨ ∃ e ∈ properties, e.1 ∉ required)
        (invalidRequest "portable object schemas require every property exactly once")
      .ok properties
  | some (.obj _), _ => .error (invalidRequest "object schemas require a required array")
  | _, _ => .error (invalidRequest "object schemas require properties")

/-- The schemas that a node holds. -/
def schemaChildren (kind : String) (object : List (String × Json)) :
    Except ProviderError (List Json) :=
  if kind = "object" then (schemaProperties object).map (List.map Prod.snd)
  else if kind = "array" then
    match get? "items" object with
    | some items => .ok [items]
    | none => .error (invalidRequest "array schemas require items")
  else .ok []

def checkEnum (object : List (String × Json)) : Except ProviderError Unit :=
  match get? "enum" object with
  | none | some (.arr (_ :: _)) => .ok ()
  | some _ => .error (invalidRequest "schema enum must be a non-empty array")

/-- The `walk` of `validate_portable_schema`, with the levels that are left. -/
def walk : Nat → Json → Except ProviderError Unit
  | 0, _ => .error (invalidRequest "JSON Schema nesting exceeds 32 levels")
  | levels + 1, .obj object => do
    reject (∃ e ∈ object, e.1 ∉ allowedKeywords)
      (invalidRequest "JSON Schema contains a keyword outside the portable subset")
    let kind ← schemaType object
    let children ← schemaChildren kind object
    forM children (walk levels)
    checkEnum object
  | _ + 1, _ => .error (invalidRequest "JSON Schema nodes must be objects")

/-- `validate_portable_schema`. -/
def validatePortableSchema (schema : Value) : Except ProviderError Unit := walk 33 schema.json

/-- The schema version that every request is built with. -/
def StructuredGenerationRequest.schemaVersion (_ : StructuredGenerationRequest) : Nat :=
  aiSchemaVersion

/-- The temperature that every request is built with. -/
def StructuredGenerationRequest.temperature (_ : StructuredGenerationRequest) : Option ℚ := some 0

def EmbeddingBatchRequest.schemaVersion (_ : EmbeddingBatchRequest) : Nat := aiSchemaVersion

/-- `validate_generation_request`. -/
def validateGenerationRequest (r : StructuredGenerationRequest) : Except ProviderError Unit := do
  reject (r.schemaVersion ≠ aiSchemaVersion)
    (invalidRequest "structured request has a stale schema version")
  reject (r.taskId = "" ∨ len r.taskId > 256 ∨ r.schemaName = "" ∨ len r.schemaName > 128 ∨
      r.maxOutputTokens = 0)
    (invalidRequest "structured request has invalid bounded fields")
  reject (∃ t ∈ r.temperature, ¬ (0 ≤ t ∧ t ≤ 2))
    (invalidRequest "temperature must be finite and between 0 and 2")
  validatePortableSchema r.outputSchema

/-- `validate_embedding_request`. -/
def validateEmbeddingRequest (r : EmbeddingBatchRequest) (profile : ProviderProfile) :
    Except ProviderError Unit :=
  reject (r.schemaVersion ≠ aiSchemaVersion ∨ r.taskId = "" ∨ len r.taskId > 256 ∨
      r.inputs = [] ∨ r.inputs.length > profile.maxBatchItems ∨ "" ∈ r.inputs)
    (invalidRequest "embedding request has invalid schema, ID, or batch items")

/-! ## The schemas are portable -/

/-- A schema that is portable below the given number of levels. -/
def PortableSchema (levels : Nat) (schema : Value) : Prop := walk levels schema.json = .ok ()

/-- What a walk asks of a node. -/
theorem walk_obj {levels : Nat} {object : List (String × Json)} {kind : String}
    (children : List Json) (hkeys : ∀ e ∈ object, e.1 ∈ allowedKeywords)
    (hkind : schemaType object = .ok kind) (hchildren : schemaChildren kind object = .ok children)
    (hwalk : ∀ child ∈ children, walk levels child = .ok ()) (henum : checkEnum object = .ok ()) :
    walk (levels + 1) (.obj object) = .ok () := by
  rw [walk]
  refine bind_unit_eq_ok.mpr ⟨reject_eq_ok.mpr fun ⟨e, he, hn⟩ => hn (hkeys e he), ?_⟩
  refine bind_eq_ok.mpr ⟨kind, hkind, bind_eq_ok.mpr ⟨children, hchildren, ?_⟩⟩
  exact bind_unit_eq_ok.mpr ⟨forM_eq_ok.mpr hwalk, henum⟩

/-- The entries of a node that is written with distinct keywords. -/
theorem get?_fields {fields : List (String × Value)} (h : (fields.map Prod.fst).Nodup)
    {key : String} (value : Value) (hm : (key, value) ∈ fields) :
    get? key (collect (fields.map fun f => (f.1, f.2.json))) = some value.json := by
  refine (get?_collect_eq_some ?_).mpr (List.mem_map_of_mem hm)
  simpa only [List.map_map, Function.comp_def] using h

theorem get?_fields_none {fields : List (String × Value)} {key : String}
    (h : key ∉ fields.map Prod.fst) :
    get? key (collect (fields.map fun f => (f.1, f.2.json))) = none := by
  rw [get?_collect_eq_none]
  simpa only [List.map_map, Function.comp_def] using h

theorem keywords_fields {fields : List (String × Value)}
    (h : ∀ key ∈ fields.map Prod.fst, key ∈ allowedKeywords) :
    ∀ e ∈ collect (fields.map fun f => (f.1, f.2.json)), e.1 ∈ allowedKeywords := by
  intro e he
  obtain ⟨f, hf, rfl⟩ := List.mem_map.mp (mem_of_mem_collect he)
  exact h f.1 (List.mem_map_of_mem hf)

theorem schemaType_eq_ok {object : List (String × Json)} (kind : String)
    (h : get? "type" object = some (.str kind)) (hk : kind ∈ schemaTypes) :
    schemaType object = .ok kind := by
  simp only [schemaType, h, Option.bind_some, asStr]
  exact bind_unit_eq_ok.mpr ⟨reject_eq_ok.mpr (not_not.mpr hk), rfl⟩

theorem portable_string {levels : Nat} : PortableSchema (levels + 1) stringSchema := by
  refine walk_obj [] (keywords_fields (by decide)) (schemaType_eq_ok "string"
    (get?_fields (by decide) _ List.mem_cons_self) (by decide)) rfl (fun _ h => by cases h) ?_
  rw [checkEnum, get?_fields_none (by decide)]

theorem portable_enum {levels : Nat} {values : List String} (h : values ≠ []) :
    PortableSchema (levels + 1) (enumSchema values) := by
  refine walk_obj [] (keywords_fields (by simp [allowedKeywords])) (schemaType_eq_ok "string"
    (get?_fields (by simp) _ List.mem_cons_self) (by decide)) rfl (fun _ h => by cases h) ?_
  obtain ⟨value, rest, rfl⟩ := List.exists_cons_of_ne_nil h
  rw [checkEnum, get?_fields (by simp) _ (List.mem_cons_of_mem _ List.mem_cons_self)]
  rfl

theorem portable_array {levels : Nat} {items : Value} (h : PortableSchema levels items) :
    PortableSchema (levels + 1) (arraySchema items) := by
  refine walk_obj [items.json] (keywords_fields (by simp [allowedKeywords]))
    (schemaType_eq_ok "array" (get?_fields (by simp) _ List.mem_cons_self) (by decide))
    ?_ (fun child hc => ?_) ?_
  · rw [schemaChildren, if_neg (by decide), if_pos rfl,
      get?_fields (by simp) _ (List.mem_cons_of_mem _ List.mem_cons_self)]
  · rw [List.mem_singleton.mp hc]
    exact h
  · rw [checkEnum, get?_fields_none (by simp)]

/-- An object schema requires all its properties. -/
theorem schemaProperties_object (properties : List (String × Value)) :
    schemaProperties (collect ((([("type", .str "object"), ("properties", .object properties),
      ("required", .arr ((collect properties).map fun p => .str p.1)),
      ("additionalProperties", .bool false)] : List (String × Value))).map
        fun f => (f.1, f.2.json))) =
      .ok (collect (properties.map fun f => (f.1, f.2.json))) := by
  set entries := collect (properties.map fun f => (f.1, f.2.json)) with hentries
  have hkeys : (collect properties).map Prod.fst = entries.map Prod.fst := by
    rw [hentries, ← collect_map, List.map_map]
    rfl
  have hrequired : (((collect properties).map fun p => (Value.str p.1).json).mapM asStr) =
      some (entries.map Prod.fst) := by
    rw [← hkeys]
    generalize collect properties = l
    induction l with
    | nil => rfl
    | cons e l ih =>
      rw [List.map_cons, List.mapM_cons, ih]
      rfl
  have hnodup : (entries.map Prod.fst).Nodup := (sorted_collect _).nodup
  rw [schemaProperties, get?_fields (by simp) (.bool false) (by simp),
    get?_fields (by simp) (.object properties) (by simp),
    get?_fields (by simp) (.arr ((collect properties).map fun p => .str p.1)) (by simp)]
  refine bind_unit_eq_ok.mpr ⟨reject_eq_ok.mpr (not_not.mpr rfl), ?_⟩
  simp only [Value.object, Value.arr, List.map_map, Function.comp_def, hrequired]
  refine bind_unit_eq_ok.mpr ⟨reject_eq_ok.mpr ?_, rfl⟩
  rw [hnodup.dedup, List.length_map]
  rintro (hne | ⟨e, he, hn⟩)
  · exact hne rfl
  · exact hn (List.mem_map_of_mem he)

theorem portable_object {levels : Nat} {properties : List (String × Value)}
    (h : ∀ p ∈ properties, PortableSchema levels p.2) :
    PortableSchema (levels + 1) (objectSchema properties) := by
  refine walk_obj ((collect (properties.map fun f => (f.1, f.2.json))).map Prod.snd)
    (keywords_fields (by simp [allowedKeywords])) (schemaType_eq_ok "object"
    (get?_fields (by simp) _ List.mem_cons_self) (by decide)) ?_ (fun child hc => ?_) ?_
  · rw [schemaChildren, if_pos rfl, schemaProperties_object]
    rfl
  · obtain ⟨e, he, rfl⟩ := List.mem_map.mp hc
    obtain ⟨f, hf, rfl⟩ := List.mem_map.mp (mem_of_mem_collect he)
    exact h f hf
  · rw [checkEnum, get?_fields_none (by simp)]

theorem portable_evidence {levels : Nat} : PortableSchema (levels + 3) (arraySchema evidenceSchema) := by
  refine portable_array (portable_object ?_)
  simp only [List.forall_mem_cons]
  exact ⟨portable_string, portable_string, portable_string, fun _ h => by cases h⟩

theorem portable_organizer : PortableSchema 33 organizerSchema := by
  refine portable_object ?_
  simp only [List.forall_mem_cons]
  refine ⟨portable_array (portable_object ?_), fun _ h => by cases h⟩
  simp only [List.forall_mem_cons]
  exact ⟨portable_string, portable_string, portable_string, portable_array portable_string,
    fun _ h => by cases h⟩

theorem portable_synthesis : PortableSchema 33 synthesisSchema := by
  refine portable_object ?_
  simp only [List.forall_mem_cons]
  refine ⟨portable_array (portable_object ?_), portable_array (portable_object ?_),
    portable_array (portable_object ?_), portable_array (portable_object ?_),
    fun _ h => by cases h⟩
  · simp only [List.forall_mem_cons]
    exact ⟨portable_string, portable_string, portable_string, portable_evidence,
      fun _ h => by cases h⟩
  · simp only [List.forall_mem_cons]
    exact ⟨portable_enum (by simp), portable_string, portable_evidence, fun _ h => by cases h⟩
  · simp only [List.forall_mem_cons]
    exact ⟨portable_enum (by simp), portable_string, portable_string, portable_string,
      portable_enum (by simp), portable_string, fun _ h => by cases h⟩
  · simp only [List.forall_mem_cons]
    refine ⟨portable_string, portable_string, portable_array (portable_object ?_),
      fun _ h => by cases h⟩
    simp only [List.forall_mem_cons]
    exact ⟨portable_string, portable_string, portable_string, portable_string, portable_evidence,
      fun _ h => by cases h⟩

theorem portable_critic : PortableSchema 33 criticSchema := by
  refine portable_object ?_
  simp only [List.forall_mem_cons]
  refine ⟨portable_array (portable_object ?_), fun _ h => by cases h⟩
  simp only [List.forall_mem_cons]
  exact ⟨portable_string, portable_enum (by simp), portable_enum (by simp), portable_string,
    portable_evidence, fun _ h => by cases h⟩

/-! ## The requests -/

/-- The form of a run's ID. -/
def RunRecord.Named (run : RunRecord) : Prop := ∃ hash : ContentHash, run.runId = "run_" ++ hash.hex

theorem named_startedRun (X : Externals) (j : Journal) (inputHash configHash : String) :
    (startedRun X j inputHash configHash).Named := ⟨_, rfl⟩

theorem RunRecord.Named.len {run : RunRecord} (h : run.Named) : len run.runId = 68 := by
  obtain ⟨hash, heq⟩ := h
  have hstart : Okc.Lib.len "run_" = 4 := by decide
  rw [heq, len_append, ContentHash.len_hex, hstart]

theorem ne_empty_of_len {s : String} (h : 0 < len s) : s ≠ "" := by
  rintro rfl
  exact absurd h (by decide)

/-- What is left to check of a request that is built with a short task ID. -/
theorem validateGenerationRequest_eq_ok {r : StructuredGenerationRequest}
    (hid : 0 < len r.taskId ∧ len r.taskId ≤ 256)
    (hname : 0 < len r.schemaName ∧ len r.schemaName ≤ 128) (hmax : r.maxOutputTokens ≠ 0)
    (hschema : PortableSchema 33 r.outputSchema) : validateGenerationRequest r = .ok () := by
  refine bind_unit_eq_ok.mpr ⟨reject_eq_ok.mpr (not_not.mpr rfl), ?_⟩
  refine bind_unit_eq_ok.mpr ⟨reject_eq_ok.mpr ?_, bind_unit_eq_ok.mpr ⟨reject_eq_ok.mpr ?_, hschema⟩⟩
  · rintro (h | h | h | h | h)
    · exact ne_empty_of_len hid.1 h
    · omega
    · exact ne_empty_of_len hname.1 h
    · omega
    · exact hmax h
  · rintro ⟨t, ht, hn⟩
    obtain rfl : 0 = t := Option.some.inj ht
    exact hn ⟨le_refl _, by norm_num⟩

theorem append_ne_empty {s : String} (h : s ≠ "") (t : String) : s ++ t ≠ "" := by
  intro he
  have hlen := congrArg len he
  rw [len_append, show len "" = 0 by decide] at hlen
  exact h (String.utf8ByteSize_eq_zero_iff.mp (Nat.eq_zero_of_add_eq_zero_right hlen))

theorem embeddingInput_ne_empty (texts : BlockTextMap) (d : IntegrationDocument) :
    embeddingInput texts d ≠ "" := by
  unfold embeddingInput
  have hlabel : "document_id: " ≠ "" := by decide
  iterate 6 refine append_ne_empty ?_ _
  exact hlabel

section

variable {X : Externals} (run : RunRecord) (prepared : PreparedCorpus X)
  (approved : ApprovedTaxonomy) (profile : ProviderProfile)

/-- Every request of the run's stages passes the adapter's check. The embedding request goes to a
client of `profile`. -/
structure RequestsAdmitted : Prop where
  embedding : validateEmbeddingRequest
    (embeddingRequest run prepared.corpus prepared.blockTexts) profile = .ok ()
  organizer : ∀ candidates, validateGenerationRequest
    (organizerRequest run prepared.corpus prepared.blockTexts candidates) = .ok ()
  synthesis : ∀ cluster ∈ approved.taxonomy.clusters, ∀ regeneration, validateGenerationRequest
    (synthesisRequest run approved cluster prepared.blockTexts regeneration) = .ok ()
  critic : ∀ cluster ∈ approved.taxonomy.clusters, ∀ proposal, validateGenerationRequest
    (criticRequest run approved cluster prepared.blockTexts proposal) = .ok ()

variable {run} {prepared} {approved} {profile}

/-- **The embedding request is admitted iff it fits in one batch.** -/
theorem validateEmbeddingRequest_iff (hrun : run.Named) :
    validateEmbeddingRequest (embeddingRequest run prepared.corpus prepared.blockTexts) profile =
      .ok () ↔ prepared.corpus.documents.length ≤ profile.maxBatchItems := by
  have hstage : len "-embedding" = 10 := by decide +kernel
  have hlen : len (embeddingRequest run prepared.corpus prepared.blockTexts).taskId = 78 := by
    show len (run.runId ++ "-embedding") = 78
    rw [len_append, hrun.len, hstage]
  rw [validateEmbeddingRequest, reject_eq_ok]
  constructor
  · intro h
    by_contra hn
    refine h (Or.inr (Or.inr (Or.inr (Or.inr (Or.inl ?_)))))
    show profile.maxBatchItems < (prepared.corpus.documents.map _).length
    rw [List.length_map]
    omega
  · rintro hfit (h | h | h | h | h | h)
    · exact h rfl
    · exact ne_empty_of_len (by omega) h
    · omega
    · exact prepared.valid.nonempty (List.map_eq_nil_iff.mp h)
    · have hlength : (embeddingRequest run prepared.corpus prepared.blockTexts).inputs.length =
          prepared.corpus.documents.length := List.length_map _
      omega
    · obtain ⟨d, -, hd⟩ := List.mem_map.mp h
      exact embeddingInput_ne_empty _ d hd

theorem validateEmbeddingRequest_of_lt
    (h : profile.maxBatchItems < prepared.corpus.documents.length) :
    validateEmbeddingRequest (embeddingRequest run prepared.corpus prepared.blockTexts) profile =
      .error (invalidRequest "embedding request has invalid schema, ID, or batch items") := by
  have hlength : (embeddingRequest run prepared.corpus prepared.blockTexts).inputs.length =
      prepared.corpus.documents.length := List.length_map _
  rw [← hlength] at h
  rw [validateEmbeddingRequest, reject, if_pos (Or.inr (Or.inr (Or.inr (Or.inr (Or.inl h)))))]

theorem validate_organizerRequest (hrun : run.Named) (candidates : List Value) :
    validateGenerationRequest
      (organizerRequest run prepared.corpus prepared.blockTexts candidates) = .ok () := by
  have hstage : len "-organizer" = 10 := by decide +kernel
  have hid : len (run.runId ++ "-organizer") = 78 := by rw [len_append, hrun.len, hstage]
  have hname : len "okc_taxonomy_v3" = 15 := by decide +kernel
  refine validateGenerationRequest_eq_ok ?_ ?_ (by simp [organizerRequest]) portable_organizer
  · show 0 < len (run.runId ++ "-organizer") ∧ len (run.runId ++ "-organizer") ≤ 256
    omega
  · show 0 < len "okc_taxonomy_v3" ∧ len "okc_taxonomy_v3" ≤ 128
    omega

theorem len_clusterId {corpus : IntegrationCorpus} {taxonomy : TaxonomyProposal}
    (hv : ValidTaxonomy X corpus taxonomy) {cluster : TaxonomyCluster}
    (hc : cluster ∈ taxonomy.clusters) : len cluster.clusterId ≤ 128 :=
  (hv.cluster cluster hc).idBounded.2.1

theorem validate_synthesisRequest (hrun : run.Named)
    (hv : ValidTaxonomy X approved.corpus approved.taxonomy) {cluster : TaxonomyCluster}
    (hc : cluster ∈ approved.taxonomy.clusters) (texts : BlockTextMap)
    (regeneration : Option ClusterRegenerationRequest) :
    validateGenerationRequest (synthesisRequest run approved cluster texts regeneration) =
      .ok () := by
  have hstage : len "-synthesis-" = 11 := by decide +kernel
  have hcluster := len_clusterId hv hc
  have hid : len (run.runId ++ "-synthesis-" ++ cluster.clusterId) = 79 + len cluster.clusterId := by
    rw [len_append, len_append, hrun.len, hstage]
  have hname : len "okc_synthesis_v3" = 16 := by decide +kernel
  refine validateGenerationRequest_eq_ok ?_ ?_ (by simp [synthesisRequest]) portable_synthesis
  · show 0 < len (run.runId ++ "-synthesis-" ++ cluster.clusterId) ∧
      len (run.runId ++ "-synthesis-" ++ cluster.clusterId) ≤ 256
    omega
  · show 0 < len "okc_synthesis_v3" ∧ len "okc_synthesis_v3" ≤ 128
    omega

theorem validate_criticRequest (hrun : run.Named)
    (hv : ValidTaxonomy X approved.corpus approved.taxonomy) {cluster : TaxonomyCluster}
    (hc : cluster ∈ approved.taxonomy.clusters) (texts : BlockTextMap)
    (proposal : SynthesisProposal) :
    validateGenerationRequest (criticRequest run approved cluster texts proposal) = .ok () := by
  have hstage : len "-critic-" = 8 := by decide +kernel
  have hcluster := len_clusterId hv hc
  have hid : len (run.runId ++ "-critic-" ++ cluster.clusterId) = 76 + len cluster.clusterId := by
    rw [len_append, len_append, hrun.len, hstage]
  have hname : len "okc_critic_v3" = 13 := by decide +kernel
  refine validateGenerationRequest_eq_ok ?_ ?_ (by simp [criticRequest]) portable_critic
  · show 0 < len (run.runId ++ "-critic-" ++ cluster.clusterId) ∧
      len (run.runId ++ "-critic-" ++ cluster.clusterId) ≤ 256
    omega
  · show 0 < len "okc_critic_v3" ∧ len "okc_critic_v3" ≤ 128
    omega

end

/-! ## Clients that check -/

section

variable {X : Externals} (faults : Faults) (env : Environment X) (profile : ProviderProfile)

/-- A `ProviderClient`: it checks a request before it does anything else with it. -/
def Client.checked (client : Client) : Client where
  capabilities := client.capabilities
  embed request := do
    (validateEmbeddingRequest request profile).mapError ProviderError.kind
    client.embed request
  generateStructured request := do
    (validateGenerationRequest request).mapError ProviderError.kind
    client.generateStructured request

def Environment.checked : Environment X :=
  { env with client := fun name => (env.client name).map (Client.checked profile) }

variable {faults} {env} {profile} {run : RunRecord} {findings : SensitiveScan}
  {allowRemoteProvider confirmed : Bool} {name : String} {disclosed : List DocumentId}

theorem embed_checked (client : Client) {request : EmbeddingBatchRequest}
    (h : validateEmbeddingRequest request profile = .ok ()) :
    (client.checked profile).embed request = client.embed request := by
  simp only [Client.checked, h]
  rfl

theorem generateStructured_checked (client : Client) {request : StructuredGenerationRequest}
    (h : validateGenerationRequest request = .ok ()) :
    (client.checked profile).generateStructured request = client.generateStructured request := by
  simp only [Client.checked, h]
  rfl

/-- **The embedding stage and its client.** -/
theorem runEmbeddingTask_checked {prepared : PreparedCorpus X}
    {used : ProviderProfile}
    (h : validateEmbeddingRequest (embeddingRequest run prepared.corpus prepared.blockTexts)
      profile = .ok ()) :
    runEmbeddingTask X faults (env.checked profile) run findings allowRemoteProvider confirmed
        prepared name used disclosed =
      runEmbeddingTask X faults env run findings allowRemoteProvider confirmed prepared name used
        disclosed := by
  unfold runEmbeddingTask Environment.checked
  cases hclient : env.client name with
  | error e => simp only [hclient, Except.map, Act.lift_error_bind]
  | ok client =>
    simp only [hclient, Except.map, Act.lift_ok_bind, embed_checked client h]
    rfl

theorem generate_checked {task : TaskState} {role : AiRole} {request : StructuredGenerationRequest}
    (h : validateGenerationRequest request = .ok ()) :
    generate X faults (env.checked profile) run task role name findings disclosed
        allowRemoteProvider confirmed request =
      generate X faults env run task role name findings disclosed allowRemoteProvider confirmed
        request := by
  unfold generate Environment.checked
  cases hclient : env.client name with
  | error e => simp only [hclient, Except.map, Act.lift_error_bind]
  | ok client =>
    simp only [hclient, Except.map, Act.lift_ok_bind, generateStructured_checked client h]
    rfl

theorem runOrganizerTask_checked {prepared : PreparedCorpus X} {candidates : List Value}
    {used : ProviderProfile}
    (h : validateGenerationRequest
      (organizerRequest run prepared.corpus prepared.blockTexts candidates) = .ok ()) :
    runOrganizerTask X faults (env.checked profile) run findings allowRemoteProvider confirmed
        prepared candidates name used disclosed =
      runOrganizerTask X faults env run findings allowRemoteProvider confirmed prepared candidates
        name used disclosed := by
  simp only [runOrganizerTask, generate_checked h]
  rfl

theorem runSynthesisTask_checked {approved : ApprovedTaxonomy} {cluster : TaxonomyCluster}
    {texts : BlockTextMap} {used : ProviderProfile}
    {regeneration : Option ClusterRegenerationRequest}
    (h : validateGenerationRequest (synthesisRequest run approved cluster texts regeneration) =
      .ok ()) :
    runSynthesisTask X faults (env.checked profile) run findings allowRemoteProvider confirmed
        approved cluster texts name used regeneration =
      runSynthesisTask X faults env run findings allowRemoteProvider confirmed approved cluster
        texts name used regeneration := by
  simp only [runSynthesisTask, generate_checked h]
  rfl

theorem runCriticTask_checked {approved : ApprovedTaxonomy} {cluster : TaxonomyCluster}
    {texts : BlockTextMap} {used : ProviderProfile} {corpus : IntegrationCorpus}
    {proposal : SynthesisProposal}
    (h : validateGenerationRequest (criticRequest run approved cluster texts proposal) = .ok ()) :
    runCriticTask X faults (env.checked profile) run findings allowRemoteProvider confirmed
        approved cluster texts name used corpus proposal =
      runCriticTask X faults env run findings allowRemoteProvider confirmed approved cluster texts
        name used corpus proposal := by
  simp only [runCriticTask, generate_checked h]
  rfl

theorem runClusterTasks_checked {approved : ApprovedTaxonomy} {cluster : TaxonomyCluster}
    {prepared : PreparedCorpus X} {routes : AiRouteConfig} {config : ProviderConfig}
    (hsynthesis : ∀ regeneration, validateGenerationRequest
      (synthesisRequest run approved cluster prepared.blockTexts regeneration) = .ok ())
    (hcritic : ∀ proposal, validateGenerationRequest
      (criticRequest run approved cluster prepared.blockTexts proposal) = .ok ()) :
    runClusterTasks X faults (env.checked profile) run findings allowRemoteProvider confirmed
        routes config prepared approved cluster =
      runClusterTasks X faults env run findings allowRemoteProvider confirmed routes config
        prepared approved cluster := by
  simp only [runClusterTasks, runSynthesisTask_checked (hsynthesis _),
    runCriticTask_checked (hcritic _)]

variable (faults) (env) (profile) (run) (findings) (allowRemoteProvider) (confirmed)
  (prepared : PreparedCorpus X) (approved : ApprovedTaxonomy)

/-- The three functions do with clients that check what they do with clients that do not. -/
structure Undisturbed : Prop where
  embedding : ∀ name used disclosed,
    runEmbeddingTask X faults (env.checked profile) run findings allowRemoteProvider confirmed
        prepared name used disclosed =
      runEmbeddingTask X faults env run findings allowRemoteProvider confirmed prepared name used
        disclosed
  organizer : ∀ candidates name used disclosed,
    runOrganizerTask X faults (env.checked profile) run findings allowRemoteProvider confirmed
        prepared candidates name used disclosed =
      runOrganizerTask X faults env run findings allowRemoteProvider confirmed prepared candidates
        name used disclosed
  clusters : ∀ routes config, ∀ cluster ∈ approved.taxonomy.clusters,
    runClusterTasks X faults (env.checked profile) run findings allowRemoteProvider confirmed
        routes config prepared approved cluster =
      runClusterTasks X faults env run findings allowRemoteProvider confirmed routes config
        prepared approved cluster

end

variable {X : Externals} {run : RunRecord} {prepared : PreparedCorpus X}
  {approved : ApprovedTaxonomy} {profile : ProviderProfile}

/-- **When every request is admitted.** The documents of the corpus fit in one batch of the
embedding profile. Nothing else of a corpus, a taxonomy or a run matters to the adapters' checks,
and a pipeline whose requests are admitted runs as if nothing checked them. -/
theorem requestsAdmitted_iff (hrun : run.Named)
    (hv : ValidTaxonomy X approved.corpus approved.taxonomy) :
    (RequestsAdmitted run prepared approved profile ↔
      prepared.corpus.documents.length ≤ profile.maxBatchItems) ∧
    (RequestsAdmitted run prepared approved profile →
      ∀ faults env findings allowRemoteProvider confirmed,
        Undisturbed faults env profile run findings allowRemoteProvider confirmed prepared
          approved) := by
  refine ⟨⟨fun h => (validateEmbeddingRequest_iff hrun).mp h.embedding, fun h => ?_⟩,
    fun h faults env findings allowRemoteProvider confirmed => ?_⟩
  · exact ⟨(validateEmbeddingRequest_iff hrun).mpr h, validate_organizerRequest hrun,
      fun _ hc => validate_synthesisRequest hrun hv hc prepared.blockTexts,
      fun _ hc => validate_criticRequest hrun hv hc prepared.blockTexts⟩
  · exact ⟨fun _ _ _ => runEmbeddingTask_checked h.embedding,
      fun candidates _ _ _ => runOrganizerTask_checked (h.organizer candidates),
      fun _ _ cluster hc => runClusterTasks_checked (h.synthesis cluster hc) (h.critic cluster hc)⟩

/-! ## A corpus and its texts -/

/-- The texts of a corpus. -/
def corpusTexts (corpus : IntegrationCorpus) : BlockTextMap :=
  corpus.documents.flatMap fun d => d.blocks.map fun b => (toLex (d.documentId, b.blockId), b.text)

theorem get?_corpusTexts {corpus : IntegrationCorpus} (hv : ValidCorpus X corpus)
    {d : IntegrationDocument} (hd : d ∈ corpus.documents) {b : SourceBlock} (hb : b ∈ d.blocks) :
    get? (toLex (d.documentId, b.blockId)) (corpusTexts corpus) = some b.text := by
  refine get?_of_mem ?_ (List.mem_flatMap.mpr ⟨d, hd, List.mem_map_of_mem hb⟩)
  rw [corpusTexts, List.map_flatMap, List.nodup_flatMap]
  refine ⟨fun e he => ?_, ?_⟩
  · rw [List.map_map]
    have hids := (hv.document e he).blocksSorted.imp ne_of_lt
    refine (List.pairwise_map.mp hids).map _ fun x y hxy heq => hxy ?_
    exact congrArg (fun p => (ofLex p).2) heq
  · refine (List.pairwise_map.mp (hv.sorted.imp ne_of_lt)).imp fun {x y} hxy => ?_
    intro p hp hq
    simp only [List.map_map] at hp hq
    obtain ⟨b, -, rfl⟩ := List.mem_map.mp hp
    obtain ⟨c, -, hc⟩ := List.mem_map.mp hq
    exact hxy (congrArg (fun p => (ofLex p).1) hc).symm

def PreparedCorpus.ofValid {corpus : IntegrationCorpus} (hv : ValidCorpus X corpus) :
    PreparedCorpus X where
  corpus := corpus
  blockTexts := corpusTexts corpus
  sourceCount := 1
  valid := hv
  texts _ hd _ hb := get?_corpusTexts hv hd hb

/-- `default_max_batch_items`. -/
def defaultMaxBatchItems : Nat := 2048

def defaultProfile : ProviderProfile :=
  ⟨.openAi, "https://localhost/", "m", 1, 1, defaultMaxBatchItems, .object []⟩

/-- The run over a corpus of `n` documents. -/
def bulkRun (X : Externals) : RunRecord := startedRun X .empty (indexHash 0).hex (indexHash 0).hex

def bulkApproved (X : Externals) (n : Nat) : ApprovedTaxonomy :=
  ⟨bulkCorpus X n, bulkTaxonomy X n, bulkApproval X n⟩

def bulkPrepared (n : Nat) (hn : 0 < n) (hn' : n ≤ 65536) :
    PreparedCorpus (plainExternals prefixHash) :=
  .ofValid (bulkCorpus_valid prefixHash hn hn')

theorem length_bulkPrepared {n : Nat} (hn : 0 < n) (hn' : n ≤ 65536) :
    (bulkPrepared n hn hn').corpus.documents.length = n := by
  show ((List.range n).map _).length = n
  rw [List.length_map, List.length_range]

theorem requestsAdmitted_iff_bulk :
    RequestsAdmitted (bulkRun (plainExternals prefixHash))
      (bulkPrepared 2048 (by decide) (by decide)) (bulkApproved (plainExternals prefixHash) 2048)
      defaultProfile := by
  have hrun := named_startedRun (plainExternals prefixHash) .empty (indexHash 0).hex
    (indexHash 0).hex
  refine (requestsAdmitted_iff hrun
    (bulkTaxonomy_valid prefixHash (by decide) (by decide))).1.mpr ?_
  rw [length_bulkPrepared]
  exact le_refl _

/-- **A corpus of one document more than a batch holds is refused before any provider is called.** -/
theorem embedding_refused :
    validateEmbeddingRequest (embeddingRequest (bulkRun (plainExternals prefixHash))
      (bulkPrepared 2049 (by decide) (by decide)).corpus
      (bulkPrepared 2049 (by decide) (by decide)).blockTexts) defaultProfile =
    .error (invalidRequest "embedding request has invalid schema, ID, or batch items") := by
  refine validateEmbeddingRequest_of_lt ?_
  rw [length_bulkPrepared]
  exact Nat.lt_succ_self 2048

end Okc.App
