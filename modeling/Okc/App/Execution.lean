import Okc.App.Request
import Okc.App.Review

/-!
# The pipeline (`integration_execution.rs:104-872`, `integration_service.rs:153-212`)

`execute` and `preflight` with the stages they run. What a call meets outside the project (the
corpus it builds, the provider profiles, what a provider answers) is its `Environment`.

* A stage registers its task, and answers from the journal if the task is complete. Otherwise it
  asks the provider, records the exchange, seals the draft and completes the task.
* A `Session` is the project with the list of the registrations made so far (`registered`), which
  no code reads: `register_task` compares a request with the journal, and the list says with which
  requests it was called.
* A provider's answer is decoded by `serde` into a draft; the decoders belong to the environment.
* The score of a pair of embedding vectors is abstract (`Similarity`), with its order and its
  least admitted value.
* Progress events are left out. A cancellation check is a step that may fail.
-/

namespace Okc.App

open Okc.Lib Okc.Core

/-! ## Drafts -/

structure DraftDisposition where
  kind : DispositionTargetKind
  documentId : DocumentId
  targetId : String
  contentHash : ContentHash
  disposition : DispositionKind
  rationale : String
deriving DecidableEq

structure DraftContradictionClaim where
  claimId : String
  renderedClaim : String
  observedAt : String
  context : String
  evidence : List SectionEvidence
deriving DecidableEq

structure DraftContradiction where
  contradictionId : String
  summary : String
  claims : List DraftContradictionClaim
deriving DecidableEq

structure SynthesisDraft where
  sections : List SynthesisSection
  relatedLinks : List RelatedLink
  dispositions : List DraftDisposition
  contradictions : List DraftContradiction
deriving DecidableEq

/-- An empty string of a draft stands for an absent value. -/
def nonEmpty (s : String) : Option String := if s = "" then none else some s

def DraftDisposition.toDisposition (item : DraftDisposition) : SourceDisposition where
  target := ⟨item.kind, item.documentId, item.targetId, item.contentHash⟩
  disposition := item.disposition
  rationale := nonEmpty item.rationale

def DraftContradictionClaim.toClaim (claim : DraftContradictionClaim) : ContradictionClaim where
  claimId := claim.claimId
  renderedClaim := claim.renderedClaim
  observedAt := nonEmpty claim.observedAt
  context := claim.context
  evidence := claim.evidence

def DraftContradiction.toSet (item : DraftContradiction) : ContradictionSet where
  contradictionId := item.contradictionId
  summary := item.summary
  claims := item.claims.map DraftContradictionClaim.toClaim

/-- The proposal `run_cluster_tasks` seals from a draft. -/
def SynthesisDraft.toProposal (X : Externals) (draft : SynthesisDraft) (clusterId : String)
    (taxonomyHash : ContentHash) (revision : Nat) (recordingHash : ContentHash) :
    SynthesisProposal :=
  .seal X clusterId taxonomyHash revision draft.sections draft.relatedLinks
    (draft.dispositions.map DraftDisposition.toDisposition)
    (draft.contradictions.map DraftContradiction.toSet) recordingHash

/-! ## Providers -/

structure StructuredGenerationResponse where
  output : Value
  identity : Value
  requestHash : String
  responseHash : String
  finishReason : String
  usage : Value

def StructuredGenerationResponse.toValue (r : StructuredGenerationResponse) : Value :=
  .object [("schema_version", .nat aiSchemaVersion), ("output", r.output),
    ("identity", r.identity), ("request_hash", .str r.requestHash),
    ("response_hash", .str r.responseHash), ("finish_reason", .str r.finishReason),
    ("usage", r.usage)]

/-- A provider client: its capabilities and what it answers. -/
structure Client where
  capabilities : ProviderCapabilities
  embed : EmbeddingBatchRequest → Except ProviderErrorKind Value
  generateStructured :
    StructuredGenerationRequest → Except ProviderErrorKind StructuredGenerationResponse

/-- The debug name of an error kind, in lower case. -/
def ProviderErrorKind.asStr : ProviderErrorKind → String
  | .authentication => "authentication"
  | .authorization => "authorization"
  | .rateLimited => "ratelimited"
  | .timeout => "timeout"
  | .contextLimit => "contextlimit"
  | .refusal => "refusal"
  | .invalidRequest => "invalidrequest"
  | .invalidResponse => "invalidresponse"
  | .responseTooLarge => "responsetoolarge"
  | .transport => "transport"
  | .cancelled => "cancelled"
  | .unsupportedCapability => "unsupportedcapability"
  | .remotePolicy => "remotepolicy"

/-- The arithmetic on embedding vectors. -/
structure Similarity where
  Vector : Type
  Score : Type
  order : LinearOrder Score
  /-- The vectors of a response. -/
  vectors : Value → List Vector
  /-- The vector over its norm, unless the norm is zero or not finite. -/
  normalized : Vector → Option Vector
  cosine : Vector → Vector → Score
  minimum : Score
  toValue : Score → Value

instance (S : Similarity) : LinearOrder S.Score := S.order

/-- What a call meets outside the project. -/
structure Environment (X : Externals) where
  /-- `CorpusBuilder::build`. -/
  build : List SourceBinding → Except AppError (PreparedCorpus X)
  /-- `ProviderService::load_config`. -/
  config : Except AppError ProviderConfig
  /-- `ProviderService::client`, which loads the configuration again. -/
  client : String → Except AppError Client
  /-- `ProviderProfile::data_boundary`: whether the endpoint is on this machine. -/
  dataBoundary : ProviderProfile → DataBoundary
  similarity : Similarity
  organizerDraft : Value → Except AppError (List TaxonomyCluster)
  synthesisDraft : Value → Except AppError SynthesisDraft
  criticDraft : Value → Except AppError (List CriticFinding)

/-! ## Semantic candidates -/

section

variable (S : Similarity)

structure SemanticCandidate where
  leftDocumentId : DocumentId
  rightDocumentId : DocumentId
  cosineSimilarity : S.Score

def SemanticCandidate.toValue {S : Similarity} (c : SemanticCandidate S) : Value :=
  .object [("left_document_id", c.leftDocumentId.toValue),
    ("right_document_id", c.rightDocumentId.toValue),
    ("cosine_similarity", S.toValue c.cosineSimilarity)]

/-- The eight best later neighbours of a document, among those that reach the minimum. Equal scores
keep the order of the corpus. -/
def bestNeighbors (left : DocumentId) (vector : S.Vector) (rest : List (DocumentId × S.Vector)) :
    List (SemanticCandidate S) :=
  (((rest.map fun r => SemanticCandidate.mk left r.1 (S.cosine vector r.2)).filter
      fun c => decide (S.minimum ≤ c.cosineSimilarity)).mergeSort
    fun a b => decide (b.cosineSimilarity ≤ a.cosineSimilarity)).take 8

/-- The loop over the left documents. -/
def candidatesFrom : List (DocumentId × S.Vector) → List (SemanticCandidate S)
  | [] => []
  | (left, vector) :: rest => bestNeighbors S left vector rest ++ candidatesFrom rest

/-- The computation of `run_candidate_task`. -/
def semanticCandidates (corpus : IntegrationCorpus) (embeddings : Value) :
    Except AppError (List (SemanticCandidate S)) := do
  reject ((S.vectors embeddings).length ≠ corpus.documents.length)
    (.invalidProject "embedding response no longer matches corpus document order")
  let normalized ← (S.vectors embeddings).mapM fun vector =>
    match S.normalized vector with
    | some unit => Except.ok unit
    | none => .error (.invalidProject "embedding vector has a zero or non-finite norm")
  let candidates := candidatesFrom S
    ((corpus.documents.map IntegrationDocument.documentId).zip normalized)
  .ok (candidates.mergeSort fun a b =>
    decide (toLex (a.leftDocumentId, a.rightDocumentId) ≤
      toLex (b.leftDocumentId, b.rightDocumentId)))

end

/-- The items of a stored list. -/
def Object.asItems : Object → Except AppError (List Value)
  | .value ⟨.arr items, h⟩ =>
    .ok (items.attach.map fun x => ⟨x.1, canonicalItems_iff.mp h x.1 x.2⟩)
  | _ => .error decodeFailed

/-! ## Sessions -/

structure Session where
  project : Project
  registered : List (RunRecord × Registration)

abbrev Stage (α : Type) := Act Session AppError α

/-- An operation on the project. -/
def within {α : Type} (op : Op α) : Stage α := fun s =>
  match op s.project with
  | (r, t) => (r, { s with project := t })

/-- The call of `register_task` is put on the list. -/
def note (run : RunRecord) (r : Registration) : Stage Unit := fun s =>
  (.ok (), { s with registered := s.registered ++ [(run, r)] })

section

variable (X : Externals) (faults : Faults)

def register (run : RunRecord) (r : Registration) : Stage TaskState := do
  note run r
  within (registerTask X faults run r.key.stage r.key r.request)

/-- `complete_task`. -/
def completeTask (task : TaskState) (response : Object) : Stage Unit := do
  let _ ← within (appendTaskStatus faults task.task.taskId .complete (some response) none)
  pure ()

/-- The recording of an exchange. -/
def exchangeRecording (request response : Value) : Bytes :=
  (Value.object [("request", request), ("response", response)]).canonicalJson

/-- A provider call between the `Running` and, if it fails, the `Failed` event of its task. -/
def askProvider {α : Type} (task : TaskState) (answer : Except ProviderErrorKind α) : Stage α := do
  let _ ← within (appendTaskStatus faults task.task.taskId .running none none)
  match answer with
  | .ok response => pure response
  | .error kind => do
    let _ : Except AppError TaskState ← Act.attempt (within
      (appendTaskStatus faults task.task.taskId .failed none (some kind.asStr)))
    Act.fail (.provider kind)

/-- The disclosure check, the call and the recording of a stage that generates. -/
def generate (env : Environment X) (run : RunRecord) (task : TaskState) (role : AiRole)
    (profileName : String) (findings : SensitiveScan) (disclosed : List DocumentId)
    (allowRemoteProvider confirmed : Bool) (request : StructuredGenerationRequest) :
    Stage (Value × ContentHash) := do
  let client ← Act.lift (env.client profileName)
  let _ ← Act.lift (findings.authorize role profileName client.capabilities disclosed
    allowRemoteProvider confirmed true)
  let response ← askProvider faults task (client.generateStructured request)
  let recordingHash ← within (recordExchange X faults run.runId task.task.taskId
    (exchangeRecording request.toValue response.toValue))
  pure (response.output, recordingHash)

/-! ## Stages -/

/-- `record_preflight`. -/
def recordPreflight (run : RunRecord) (corpus : IntegrationCorpus) : Stage Unit := do
  let task ← register X faults run (preflightRegistration X corpus)
  if task.status ≠ .complete then
    completeTask faults task (.bytes (preflightRegistration X corpus).request)

section

variable (env : Environment X) (run : RunRecord) (findings : SensitiveScan)
  (allowRemoteProvider confirmed : Bool)

/-- `run_embedding_task`. -/
def runEmbeddingTask (prepared : PreparedCorpus X) (profileName : String)
    (profile : ProviderProfile) (disclosed : List DocumentId) : Stage Value := do
  let request := embeddingRequest run prepared.corpus prepared.blockTexts
  let task ← register X faults run
    (embeddingRegistration X run profileName profile prepared.corpus prepared.blockTexts)
  if task.status = .complete then Act.lift (completeTaskResponse Object.asValue task)
  else do
    let client ← Act.lift (env.client profileName)
    let _ ← Act.lift (findings.authorize .embedding profileName client.capabilities disclosed
      allowRemoteProvider confirmed true)
    let response ← askProvider faults task (client.embed request)
    let _ ← within (recordExchange X faults run.runId task.task.taskId
      (exchangeRecording request.toValue response))
    completeTask faults task (.value response)
    pure response

/-- `run_candidate_task`. -/
def runCandidateTask (corpus : IntegrationCorpus) (embeddings : Value) : Stage (List Value) := do
  let task ← register X faults run (candidateRegistration X embeddings)
  if task.status = .complete then Act.lift (completeTaskResponse Object.asItems task)
  else do
    let _ ← within (appendTaskStatus faults task.task.taskId .running none none)
    let candidates ← Act.lift (semanticCandidates env.similarity corpus embeddings)
    let items := candidates.map SemanticCandidate.toValue
    completeTask faults task (.value (.arr items))
    pure items

/-- `run_organizer_task`. -/
def runOrganizerTask (prepared : PreparedCorpus X) (candidates : List Value)
    (profileName : String) (profile : ProviderProfile) (disclosed : List DocumentId) :
    Stage TaxonomyTaskOutput := do
  let request := organizerRequest run prepared.corpus prepared.blockTexts candidates
  let task ← register X faults run (organizerRegistration X run profileName profile
    prepared.corpus prepared.blockTexts candidates)
  if task.status = .complete then
    Act.lift (completeTaskResponse Object.asTaxonomyOutput task)
  else do
    let (response, recordingHash) ← generate X faults env run task .organizer profileName findings
      disclosed allowRemoteProvider confirmed request
    let clusters ← Act.lift (env.organizerDraft response)
    let taxonomy ← Act.lift (liftCore (TaxonomyProposal.seal X prepared.corpus clusters
      recordingHash))
    completeTask faults task (.taxonomyOutput ⟨prepared.corpus, taxonomy⟩)
    pure ⟨prepared.corpus, taxonomy⟩

section

variable (approved : ApprovedTaxonomy) (cluster : TaxonomyCluster) (texts : BlockTextMap)
  (profileName : String) (profile : ProviderProfile)

/-- The documents a cluster's requests disclose. -/
def disclosedDocuments : List DocumentId :=
  (clusterDocuments approved cluster).map IntegrationDocument.documentId

/-- The revision that a regeneration asks for. -/
def revisionFor (regeneration : Option ClusterRegenerationRequest) : Nat :=
  match regeneration with
  | none => 1
  | some request => request.revision

/-- The first half of `run_cluster_tasks`. -/
def runSynthesisTask (regeneration : Option ClusterRegenerationRequest) :
    Stage SynthesisProposal := do
  let request := synthesisRequest run approved cluster texts regeneration
  let task ← register X faults run (synthesisRegistration X run approved cluster profileName
    profile texts regeneration)
  if task.status = .complete then Act.lift (completeTaskResponse Object.asProposal task)
  else do
    let (response, recordingHash) ← generate X faults env run task .synthesis profileName findings
      (disclosedDocuments approved cluster) allowRemoteProvider confirmed request
    let draft ← Act.lift (env.synthesisDraft response)
    let proposal := draft.toProposal X cluster.clusterId approved.taxonomy.taxonomyHash
      (revisionFor regeneration) recordingHash
    completeTask faults task (.proposal proposal)
    pure proposal

/-- The second half of `run_cluster_tasks`. -/
def runCriticTask (corpus : IntegrationCorpus) (proposal : SynthesisProposal) :
    Stage ClusterTaskOutput := do
  let request := criticRequest run approved cluster texts proposal
  let task ← register X faults run (criticRegistration X run approved cluster profileName profile
    corpus texts proposal)
  if task.status = .complete then Act.lift (completeTaskResponse Object.asClusterOutput task)
  else do
    let (response, recordingHash) ← generate X faults env run task .critic profileName findings
      (disclosedDocuments approved cluster) allowRemoteProvider confirmed request
    let findings ← Act.lift (env.criticDraft response)
    let critic := CriticReport.seal X cluster.clusterId proposal.proposalHash findings
      recordingHash
    completeTask faults task (.clusterOutput ⟨proposal, critic⟩)
    pure ⟨proposal, critic⟩

end

/-- `run_cluster_tasks`. -/
def runClusterTasks (routes : AiRouteConfig) (config : ProviderConfig)
    (prepared : PreparedCorpus X) (approved : ApprovedTaxonomy) (cluster : TaxonomyCluster) :
    Stage ClusterTaskOutput := do
  within (attemptIo faults)
  let synthesisProfile ← Act.lift (requiredProfile config (routes.profileFor .synthesis))
  let regeneration ← within (query faults fun s =>
    .ok (s.journal.latestClusterRegeneration run.runId cluster.clusterId))
  let proposal ← runSynthesisTask X faults env run findings allowRemoteProvider confirmed approved
    cluster prepared.blockTexts (routes.profileFor .synthesis) synthesisProfile regeneration
  let criticProfile ← Act.lift (requiredProfile config (routes.profileFor .critic))
  runCriticTask X faults env run findings allowRemoteProvider confirmed approved cluster
    prepared.blockTexts (routes.profileFor .critic) criticProfile prepared.corpus proposal

/-- The cluster loop of `execute`: the number of clusters whose output is approved. -/
def runClusters (routes : AiRouteConfig) (config : ProviderConfig) (prepared : PreparedCorpus X)
    (approved : ApprovedTaxonomy) : List TaxonomyCluster → Stage Nat
  | [] => pure 0
  | cluster :: rest => do
    let output ← runClusterTasks X faults env run findings allowRemoteProvider confirmed routes
      config prepared approved cluster
    let approval ← within (query faults fun s =>
      s.journal.latestApproval Object.asApprovedRevision run.runId "cluster" cluster.clusterId)
    let completed ← runClusters routes config prepared approved rest
    pure (if approval.any fun record => record.targetHash = output.critic.criticHash.hex then
      completed + 1 else completed)

end

/-! ## The two operations -/

structure IntegrationExecution where
  runId : String
  documents : Nat
  embeddingInputs : Nat
  inputBytes : Nat
  sensitiveFindings : Nat
  semanticCandidates : Nat
  checkpoint : IntegrationCheckpoint
  integrationPlanId : Option String
deriving DecidableEq

/-- The bytes of all block texts, unless their number overflows a `u64`. -/
def inputBytes (texts : BlockTextMap) (message : String) : Except AppError Nat := do
  let total := (texts.map fun e => len e.2).sum
  reject (2 ^ 64 ≤ total) (.invalidProject message)
  .ok total

/-- The configuration hash of a run of the pipeline. -/
def integrationConfigHash (routes : AiRouteConfig) : String :=
  (rawHash X "okc:integration-config:v3\x00" routes.toValue.canonicalJson).hex

/-- The part of `execute` that an approved taxonomy opens. -/
def runApproved (env : Environment X) (run : RunRecord) (findings : SensitiveScan)
    (allowRemoteProvider confirmed : Bool) (routes : AiRouteConfig) (config : ProviderConfig)
    (prepared : PreparedCorpus X) (base : IntegrationExecution) (approved : ApprovedTaxonomy) :
    Stage IntegrationExecution := do
  Act.lift (reject (approved.corpus.corpusHash ≠ prepared.corpus.corpusHash)
    (.invalidProject "approved taxonomy is stale for the corpus"))
  let completed ← runClusters X faults env run findings allowRemoteProvider confirmed routes config
    prepared approved approved.taxonomy.clusters
  if completed ≠ approved.taxonomy.clusters.length then
    pure { base with checkpoint := .needsClusters }
  else do
    let plan ← within (sealLatestIntegrationPlan X faults)
    match plan with
    | none => Act.fail (.invalidProject "complete approvals did not seal an integration plan")
    | some plan => pure { base with
        checkpoint := .readyToCompile
        integrationPlanId := some plan.integrationPlanId }

/-- `execute`. -/
def execute (env : Environment X) (allowRemoteProvider confirmed : Bool) :
    Stage IntegrationExecution := do
  within (attemptIo faults)
  let manifest ← within (openProject faults)
  within (acquireWriterLock faults)
  Act.lift (reject (manifest.sources = [])
    (.invalidProject "the project has no source bindings"))
  let prepared ← Act.lift (env.build manifest.sources)
  within (attemptIo faults)
  let corpus := prepared.corpus
  let run ← within (beginOrResumeRun X faults corpus.corpusHash.hex
    (integrationConfigHash X manifest.aiRoutes))
  let findings := SensitiveScan.scan X corpus
  recordPreflight X faults run corpus
  let config ← Act.lift env.config
  Act.lift (validateRoutes manifest.aiRoutes config)
  let allDocuments := corpus.documents.map IntegrationDocument.documentId
  let embeddingName := manifest.aiRoutes.profileFor .embedding
  let embeddingProfile ← Act.lift (requiredProfile config embeddingName)
  let embeddings ← runEmbeddingTask X faults env run findings allowRemoteProvider confirmed
    prepared embeddingName embeddingProfile allDocuments
  within (attemptIo faults)
  let candidates ← runCandidateTask X faults env run corpus embeddings
  let organizerName := manifest.aiRoutes.profileFor .organizer
  let organizerProfile ← Act.lift (requiredProfile config organizerName)
  let _ ← runOrganizerTask X faults env run findings allowRemoteProvider confirmed prepared
    candidates organizerName organizerProfile allDocuments
  let bytes ← Act.lift (inputBytes prepared.blockTexts "integration byte count overflow")
  let base : IntegrationExecution := {
    runId := run.runId
    documents := corpus.documents.length
    embeddingInputs := (env.similarity.vectors embeddings).length
    inputBytes := bytes
    sensitiveFindings := findings.count
    semanticCandidates := candidates.length
    checkpoint := .needsTaxonomy
    integrationPlanId := none }
  let approval ← within (query faults fun s =>
    s.journal.latestApproval Object.asApprovedTaxonomy run.runId "taxonomy" "taxonomy")
  let current := approval.filter fun record =>
    record.targetHash = record.value.taxonomy.taxonomyHash.hex &&
      record.value.corpus.corpusHash = corpus.corpusHash
  match current with
  | none => pure base
  | some record =>
    runApproved X faults env run findings allowRemoteProvider confirmed manifest.aiRoutes config
      prepared base record.value

structure RoleBoundary where
  role : AiRole
  profileName : String
  boundary : DataBoundary
deriving DecidableEq

/-- `role_boundaries`. -/
def roleBoundaries (env : Environment X) (routes : AiRouteConfig) (config : ProviderConfig) :
    Except AppError (List RoleBoundary) :=
  [AiRole.embedding, .organizer, .synthesis, .critic].mapM fun role =>
    match get? (routes.profileFor role) config.profiles with
    | none => .error (.invalidProject
        ("AI role references missing profile \x60" ++ routes.profileFor role ++ "\x60"))
    | some profile => .ok ⟨role, routes.profileFor role, env.dataBoundary profile⟩

structure PreflightSummary where
  runId : String
  documents : Nat
  blocks : Nat
  inputBytes : Nat
  estimatedTokensMin : Nat
  estimatedTokensMax : Nat
  estimatedRequestsMin : Nat
  estimatedRequestsMax : Nat
  sensitiveFindings : Nat
  routes : List RoleBoundary
deriving DecidableEq

/-- `preflight`. -/
def preflight (env : Environment X) : Stage PreflightSummary := do
  within (attemptIo faults)
  let manifest ← within (openProject faults)
  within (acquireWriterLock faults)
  let prepared ← Act.lift (env.build manifest.sources)
  within (attemptIo faults)
  let corpus := prepared.corpus
  let run ← within (beginOrResumeRun X faults corpus.corpusHash.hex
    (integrationConfigHash X manifest.aiRoutes))
  recordPreflight X faults run corpus
  let config ← Act.lift env.config
  let routes ← Act.lift (roleBoundaries X env manifest.aiRoutes config)
  let bytes ← Act.lift (inputBytes prepared.blockTexts "preflight byte count overflow")
  pure {
    runId := run.runId
    documents := corpus.documents.length
    blocks := prepared.blockTexts.length
    inputBytes := bytes
    estimatedTokensMin := (bytes + 5) / 6
    estimatedTokensMax := bytes
    estimatedRequestsMin := 2
    estimatedRequestsMax := 2 + corpus.documents.length * 2
    sensitiveFindings := (SensitiveScan.scan X corpus).count
    routes := routes }

end

end Okc.App
