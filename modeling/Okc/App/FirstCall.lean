import Okc.App.Answers
import Okc.App.OutputChecks

/-!
# A first call of the pipeline (`integration_execution.rs:104-278`, `280-640`)

Without faults, and where no task was registered before, each stage up to the organizer's returns
what the providers answer, and a project without an approved taxonomy is left to the curator.

* `yields_task`: a stage that finds no task; one lemma for each of the four stages.
* `Marked`: a hash that keeps the tasks of a run apart.
* **`Pilot.returns`**: a first call, on a project with one note.
-/

namespace Okc.App

open Okc.Lib Okc.Core

section

variable {α : Type} {X : Externals} {v w : Ledger} {run : RunRecord} {r : Registration}
  {hash : String}

/-- A stage that finds no task. -/
theorem yields_task {decode : Object → Except AppError α} {rest : TaskState → Stage α} {a : α}
    (h : Unregistered X v run r hash) (hrun : v.journal.HasRun run.runId)
    (hrest : Yields (v.file X run r hash) w (rest ⟨r.task X run hash, .queued, none, none⟩) a) :
    Yields v w (do
      let task ← register X noFaults run r
      if task.status = .complete then Act.lift (completeTaskResponse decode task)
      else rest task) a := by
  refine yields_bind (yields_register h hrun) ?_
  rw [if_neg (by simp)]
  exact hrest

theorem yields_recordPreflight {corpus : IntegrationCorpus}
    (h : Unregistered X v run (preflightRegistration X corpus) hash)
    (hrun : v.journal.HasRun run.runId) :
    Yields v (v.file X run (preflightRegistration X corpus) hash)
      (recordPreflight X noFaults run corpus) () := by
  refine yields_bind (yields_register h hrun) ?_
  rw [if_pos (by simp)]
  exact yields_completeTask mem_file

/-- A stage that returns something, before one that does. -/
theorem returning_bind {β : Type} {u : Ledger} {stage : Stage α} {f : α → Stage β} {a : α}
    (h : Yields u v stage a) (hf : ∃ w b, Yields v w (f a) b) :
    ∃ w b, Yields u w (stage >>= f) b := by
  obtain ⟨w, b, hb⟩ := hf
  exact ⟨w, b, yields_bind h hb⟩

variable {env : Environment X} {findings : SensitiveScan} {allowRemoteProvider confirmed : Bool}
  {prepared : PreparedCorpus X} {name : String} {profile : ProviderProfile}
  {disclosed : List DocumentId}

theorem yields_runEmbeddingTask {client : Client} {authorization : DisclosureAuthorization}
    {response : Value} (hrun : v.journal.HasRun run.runId)
    (h : Unregistered X v run
      (embeddingRegistration X run name profile prepared.corpus prepared.blockTexts) hash)
    (hclient : env.client name = .ok client)
    (hauthorize : findings.authorize .embedding name client.capabilities disclosed
      allowRemoteProvider confirmed true = .ok authorization)
    (hanswer : client.embed (embeddingRequest run prepared.corpus prepared.blockTexts) =
      .ok response) :
    Yields v (v.file X run
        (embeddingRegistration X run name profile prepared.corpus prepared.blockTexts) hash)
      (runEmbeddingTask X noFaults env run findings allowRemoteProvider confirmed prepared name
        profile disclosed) response := by
  refine yields_task h hrun ?_
  refine yields_bind (yields_lift hclient) (yields_bind (yields_lift hauthorize) ?_)
  rw [hanswer]
  exact yields_bind (yields_askProvider mem_file) <|
    yields_bind (yields_recordExchange mem_file hrun) <|
    yields_bind (yields_completeTask mem_file) yields_pure

theorem yields_runCandidateTask {corpus : IntegrationCorpus} {embeddings : Value}
    {candidates : List (SemanticCandidate env.similarity)} (hrun : v.journal.HasRun run.runId)
    (h : Unregistered X v run (candidateRegistration X embeddings) hash)
    (hcandidates : semanticCandidates env.similarity corpus embeddings = .ok candidates) :
    Yields v (v.file X run (candidateRegistration X embeddings) hash)
      (runCandidateTask X noFaults env run corpus embeddings)
      (candidates.map SemanticCandidate.toValue) := by
  refine yields_task h hrun ?_
  refine yields_bind (yields_event mem_file (by simp) (by simp)) ?_
  refine yields_bind (yields_lift hcandidates) ?_
  exact yields_bind (yields_completeTask mem_file) yields_pure

theorem yields_runOrganizerTask {candidates : List Value} {clusters : List TaxonomyCluster}
    {taxonomy : TaxonomyProposal} {response : StructuredGenerationResponse}
    (hrun : v.journal.HasRun run.runId)
    (h : Unregistered X v run (organizerRegistration X run name profile prepared.corpus
      prepared.blockTexts candidates) hash)
    (hgrants : env.Grants findings allowRemoteProvider confirmed .organizer name disclosed
      (organizerRequest run prepared.corpus prepared.blockTexts candidates) response)
    (hdraft : env.organizerDraft response.output = .ok clusters)
    (hseal : TaxonomyProposal.seal X prepared.corpus clusters (exchangeHash X
      (organizerRequest run prepared.corpus prepared.blockTexts candidates) response) =
        .ok taxonomy) :
    Yields v (v.file X run (organizerRegistration X run name profile prepared.corpus
        prepared.blockTexts candidates) hash)
      (runOrganizerTask X noFaults env run findings allowRemoteProvider confirmed prepared
        candidates name profile disclosed) ⟨prepared.corpus, taxonomy⟩ := by
  refine yields_task h hrun ?_
  refine yields_bind (yields_generate hgrants mem_file hrun) ?_
  refine yields_bind (yields_lift hdraft) (yields_bind (yields_lift (liftCore_eq_ok.mpr hseal)) ?_)
  exact yields_bind (yields_completeTask mem_file) yields_pure

end

/-! ## A hash that keeps tasks apart -/

/-- The low digit of the third letter of a stage. -/
def TaskStage.digit (stage : TaskStage) : Option UInt8 :=
  ((utf8 (String.ofList (quote stage.asStr)))[3]?.map (· * 16)).map fun b => hexByte (b.toNat / 16)

/-- A hash that keeps a byte where two keys and a byte where two tasks of a run differ. -/
def markHash (m : Bytes) : ContentHash :=
  ⟨(List.replicate 15 0 ++ (m.drop (m.length - 32)).take 1 ++
    ((m.drop 35).take 1).map (· * 16) ++ List.replicate 32 0).take 32, by simp; omega⟩

theorem markHash_late {m : Bytes} (h : 34 ≤ m.length) :
    (markHash m).bytes[15]? = m[m.length - 32]? := by
  unfold markHash
  rw [List.getElem?_take_of_lt (by omega), List.append_assoc, List.append_assoc,
    List.getElem?_append_right (by simp), List.getElem?_append_left (by simp; omega)]
  simp

theorem markHash_early {m : Bytes} (h : 36 ≤ m.length) :
    (markHash m).bytes[16]? = m[35]?.map (· * 16) := by
  have hlen : (List.replicate 15 0 ++ (m.drop (m.length - 32)).take 1).length = 16 := by
    simp
    omega
  unfold markHash
  rw [List.getElem?_take_of_lt (by omega), List.append_assoc,
    List.getElem?_append_right (by omega), hlen, List.getElem?_append_left (by simp; omega)]
  simp

/-- The text of a key's stage in its message. -/
theorem key_text (key : TaskCacheKey) {i : Nat}
    (hi : i < (utf8 (String.ofList (quote key.stage.asStr))).length) :
    key.message[32 + i]? = (utf8 (String.ofList (quote key.stage.asStr)))[i]? := by
  obtain ⟨rest, hcompact⟩ : ∃ rest, compact key.toJson =
      "\x7b\"stage\":".toList ++ (quote key.stage.asStr ++ rest) := by
    have hname : quote "stage" = "\"stage\"".toList := by decide
    unfold TaskCacheKey.toJson
    rw [compact_obj_cons, hname]
    exact ⟨_, rfl⟩
  have hvec : toVec key.toJson = utf8 "\x7b\"stage\":" ++
      (utf8 (String.ofList (quote key.stage.asStr)) ++ utf8 (String.ofList rest)) := by
    unfold toVec
    rw [hcompact, String.ofList_append, String.ofList_append, String.ofList_toList, utf8_append,
      utf8_append]
  have hdomain : (utf8 "okc:ai-task:v3\x00").length = 15 := by decide
  have hstart : (utf8 "\x7b\"stage\":").length = 9 := by decide
  have hbytes (n : Nat) : (lengthBytes n).length = 8 := length_lengthBytes n
  unfold TaskCacheKey.message digestInput
  simp only [List.flatMap_cons, List.flatMap_nil, List.append_nil]
  rw [List.getElem?_append_right (by omega), hdomain,
    List.getElem?_append_right (by rw [hbytes]; omega), hbytes, hvec,
    List.getElem?_append_right (by omega), hstart]
  have hindex : 32 + i - 15 - 8 - 9 = i := by omega
  rw [hindex, List.getElem?_append_left hi]

/-- The digit of a hash that the tasks of a run are told apart by. -/
def markDigit (c : ContentHash) : Option UInt8 :=
  c.bytes[16]?.map fun b => hexByte (b.toNat / 16)

theorem markHash_key (key : TaskCacheKey) :
    markDigit (markHash key.message) = key.stage.digit := by
  have hquote : 3 < (utf8 (String.ofList (quote key.stage.asStr))).length := by
    cases key.stage <;> decide
  have hletter := key_text key hquote
  have hlen : 36 ≤ key.message.length := by
    have hsome : key.message[35]?.isSome := by
      rw [hletter, List.getElem?_eq_getElem hquote]
      rfl
    rw [isSome_getElem?] at hsome
    exact hsome
  rw [markDigit, markHash_early hlen, hletter]
  rfl

theorem digit_of_taskHash {runId : String} {c c' : ContentHash}
    (h : "task_" ++ (digest (plainExternals markHash) "okc:task:v3\x00"
        [utf8 runId, utf8 c.hex]).hex = "task_" ++ (digest (plainExternals markHash)
        "okc:task:v3\x00" [utf8 runId, utf8 c'.hex]).hex) : markDigit c = markDigit c' := by
  have hhash := ContentHash.hex_injective ((String.append_right_inj _).mp h)
  obtain ⟨hlen, hdigit⟩ := task_digit runId c
  obtain ⟨hlen', hdigit'⟩ := task_digit runId c'
  have hbytes := congrArg (fun c : ContentHash => c.bytes[15]?) hhash
  exact hdigit.symm.trans ((markHash_late hlen).symm.trans (hbytes.trans
    ((markHash_late hlen').trans hdigit')))

/-- What a first call does before its stages. -/
theorem execute_from {X : Externals} {faults : Faults} {env : Environment X}
    {allow confirmed : Bool} {s : Session} {p₁ p₂ p₃ p₄ p₅ : Project} {manifest : ProjectManifest}
    {prepared : PreparedCorpus X} {run : RunRecord}
    (h₁ : attemptIo faults s.project = (.ok (), p₁))
    (h₂ : openProject faults p₁ = (.ok manifest, p₂))
    (h₃ : attemptIo faults p₂ = (.ok (), p₃)) (hsources : manifest.sources ≠ [])
    (hbuild : env.build manifest.sources = .ok prepared)
    (h₄ : attemptIo faults p₃ = (.ok (), p₄))
    (h₅ : beginOrResumeRun X faults prepared.corpus.corpusHash.hex
      (integrationConfigHash X manifest.aiRoutes) p₄ = (.ok run, p₅)) :
    execute X faults env allow confirmed s =
      executeFrom X faults env allow confirmed manifest prepared run ⟨p₅, s.registered⟩ := by
  have hreject : reject (manifest.sources = [])
      (AppError.invalidProject "the project has no source bindings") = .ok () :=
    reject_eq_ok.mpr hsources
  rw [execute_eq, Act.bind_ok (within_ok h₁), Act.bind_ok (within_ok h₂), acquireWriterLock,
    Act.bind_ok (within_ok h₃), hreject, Act.lift_ok_bind, hbuild, Act.lift_ok_bind,
    Act.bind_ok (within_ok h₄), Act.bind_ok (within_ok h₅)]

namespace Pilot

abbrev externals : Externals := plainExternals markHash

/-- Tasks of the run for stages with other digits. -/
def Apart (run : RunRecord) (stage : TaskStage) (tasks : List TaskDefinition) : Prop :=
  ∀ task ∈ tasks, ∃ (r : Registration) (hash : String), r.key.hash externals = .ok hash ∧
    task = r.task externals run hash ∧ r.key.stage.digit ≠ stage.digit

/-- **Stages that are marked apart** do not meet. -/
theorem unregistered_of_apart {v : Ledger} {run : RunRecord} {r : Registration} {hash : String}
    (hkey : r.key.hash externals = .ok hash) (hv : Apart run r.key.stage v.journal.tasks) :
    Unregistered externals v run r hash := by
  have happart : ∀ task ∈ v.journal.tasks, task.taskId ≠ (r.task externals run hash).taskId ∧
      task.cacheKey ≠ hash := fun task ht => by
    obtain ⟨r', hash', hkey', rfl, hmark⟩ := hv task ht
    rw [← markHash_key, ← markHash_key] at hmark
    obtain rfl : hash = (markHash r.key.message).hex := (hash_eq_ok hkey).symm
    obtain rfl : hash' = (markHash r'.key.message).hex := (hash_eq_ok hkey').symm
    constructor
    · intro h
      exact hmark (digit_of_taskHash h)
    · intro h
      exact hmark (congrArg markDigit (ContentHash.hex_injective h))
  refine ⟨hkey, fun h => ?_, fun h => ?_⟩
  · obtain ⟨task, ht, hid⟩ := List.mem_map.mp h
    exact (happart task ht).1 hid
  · obtain ⟨task, ht, hpair⟩ := List.mem_map.mp h
    exact (happart task ht).2 (Prod.mk.inj hpair).2

/-! ### The call -/

def prepared : PreparedCorpus externals :=
  .ofValid (bulkCorpus_valid markHash Nat.one_pos (by decide))

def response : StructuredGenerationResponse := ⟨.null, .null, "", "", "stop", .null⟩

/-- A provider on this machine that answers everything. -/
def client : Client where
  capabilities := ⟨3, .local⟩
  embed _ := .ok .null
  generateStructured _ := .ok response

/-- Every answer reads as one cluster with the one note. -/
def environment : Environment externals where
  build _ := .ok prepared
  config := .ok ⟨[("default", defaultProfile)]⟩
  client _ := .ok client
  dataBoundary _ := .local
  similarity := ⟨Unit, Nat, inferInstance, fun _ => [()], fun _ => some (), fun _ _ => 0, 1, .nat⟩
  organizerDraft _ := .ok [bulkCluster 1]
  synthesisDraft _ := .error (.invalidProject "no draft")
  criticDraft _ := .ok []

def manifest : ProjectManifest :=
  { plainManifest with sources := [⟨⟨"notes"⟩, none, "/notes", none⟩] }

theorem manifest_valid : ValidManifest manifest where
  formatFamily := rfl
  schemaVersion := rfl
  name := by decide
  curatorId := by decide
  policyVersion := by decide
  nameSafe := forall_of_all (by decide)
  curatorSafe := forall_of_all (by decide)
  policySafe := forall_of_all (by decide)
  language := by simp [manifest, plainManifest]
  aiRoutes := by decide
  sources := by decide
  sourceIds := List.nodup_singleton _

def run : RunRecord := startedRun externals .empty prepared.corpus.corpusHash.hex
  (integrationConfigHash externals manifest.aiRoutes)

/-- A project with the run. -/
def started : Ledger := ⟨{ Journal.empty with runs := [run] }, []⟩

def scan : SensitiveScan := SensitiveScan.scan externals prepared.corpus

theorem grants {role : AiRole} {disclosed : List DocumentId} :
    scan.authorize role "default" client.capabilities disclosed false false true =
      .ok ⟨"default", role, .local⟩ := by
  simp [SensitiveScan.authorize, authorizeDisclosure, client, reject]

theorem key_hash {key : TaskCacheKey} {prompt schema source options : ContentHash}
    (hprompt : key.promptHash = prompt.hex) (hschema : key.schemaHash = schema.hex)
    (hsource : key.sourceHash = source.hex) (hoptions : key.optionsHash = options.hex)
    (hids : ∀ p ∈ [("provider", key.provider), ("model", key.model), ("adapter", key.adapter)],
      validateIdentifier p.1 p.2 = .ok ()) : ∃ hash, key.hash externals = .ok hash :=
  ⟨_, hash_of_identified hprompt hschema hsource hoptions hids⟩

theorem providerKey_hash {stage : TaskStage} {prompt schema : Bytes} {source : ContentHash} :
    ∃ hash, (providerTaskKey externals stage prompt schema source.hex "default" defaultProfile).hash
      externals = .ok hash := by
  refine key_hash rfl rfl rfl rfl ?_
  simp only [List.mem_cons, List.not_mem_nil, or_false]
  rintro p (rfl | rfl | rfl)
  · exact (by decide : validateIdentifier "provider" "default" = .ok ())
  · exact (by decide : validateIdentifier "model" "m" = .ok ())
  · exact (by decide : validateIdentifier "adapter" productVersion = .ok ())

theorem candidateKey_hash : ∃ hash,
    (candidateRegistration externals .null).key.hash externals = .ok hash := by
  refine key_hash rfl rfl rfl rfl ?_
  simp only [List.mem_cons, List.not_mem_nil, or_false]
  rintro p (rfl | rfl | rfl)
  · exact (by decide : validateIdentifier "provider" "deterministic-local" = .ok ())
  · exact (by decide : validateIdentifier "model" "cosine-exact-v1" = .ok ())
  · exact (by decide : validateIdentifier "adapter" productVersion = .ok ())

theorem apart_file {v : Ledger} {r : Registration} {hash : String} {stage : TaskStage}
    (hv : Apart run stage v.journal.tasks) (hkey : r.key.hash externals = .ok hash)
    (hstage : r.key.stage.digit ≠ stage.digit) :
    Apart run stage (v.file externals run r hash).journal.tasks := by
  intro task ht
  rcases List.mem_append.mp ht with ht | ht
  · exact hv task ht
  · exact ⟨r, hash, hkey, List.mem_singleton.mp ht, hstage⟩

theorem sealed (recordingHash : ContentHash) : ∃ taxonomy,
    TaxonomyProposal.seal externals prepared.corpus [bulkCluster 1] recordingHash =
      .ok taxonomy := by
  have hsorted : ([bulkCluster 1].mergeSort fun a b => a.clusterId ≤ b.clusterId).map (fun c =>
      { c with documentIds := c.documentIds.mergeSort fun a b => a ≤ b }) = [bulkCluster 1] := by
    simp [bulkCluster, List.range_succ]
  have hvalid : ValidTaxonomy externals prepared.corpus (bulkTaxonomy externals 1) :=
    bulkTaxonomy_valid markHash Nat.one_pos (by decide)
  unfold TaxonomyProposal.seal
  rw [hsorted]
  refine ⟨_, bind_unit_eq_ok.mpr ⟨validateTaxonomy_eq_ok.mpr ?_, rfl⟩⟩
  exact ⟨rfl, rfl, rfl, hvalid.cluster, hvalid.sorted, hvalid.outputPaths, hvalid.disjoint,
    hvalid.covers⟩

theorem candidates_none :
    semanticCandidates environment.similarity prepared.corpus .null = .ok [] := by
  unfold semanticCandidates
  refine bind_unit_eq_ok.mpr ⟨reject_eq_ok.mpr (not_not.mpr rfl), ?_⟩
  refine bind_eq_ok.mpr ⟨[()], rfl, ?_⟩
  have hnone : candidatesFrom environment.similarity
      ((prepared.corpus.documents.map IntegrationDocument.documentId).zip [()]) = [] := by
    show bestNeighbors _ _ _ [] ++ [] = []
    simp [bestNeighbors]
  rw [hnone]
  exact congrArg Except.ok List.mergeSort_nil

theorem small : ∃ bytes, inputBytes prepared.blockTexts "integration byte count overflow" =
    .ok bytes := by
  have htexts : (prepared.blockTexts.map fun e => len e.2).sum = 14 := by
    rfl
  refine ⟨14, bind_unit_eq_ok.mpr ⟨reject_eq_ok.mpr ?_, ?_⟩⟩
  · rw [htexts]
    norm_num
  · rw [htexts]

theorem yields_executeFrom : ∃ w result, Yields started w
    (executeFrom externals noFaults environment false false manifest prepared run) result := by
  obtain ⟨first, hfirst⟩ : ∃ hash,
      (preflightRegistration externals prepared.corpus).key.hash externals = .ok hash :=
    ⟨_, preflightKey_hash _⟩
  obtain ⟨second, hsecond⟩ : ∃ hash, (embeddingRegistration externals run "default" defaultProfile
      prepared.corpus prepared.blockTexts).key.hash externals = .ok hash := providerKey_hash
  obtain ⟨third, hthird⟩ := candidateKey_hash
  obtain ⟨fourth, hfourth⟩ : ∃ hash, (organizerRegistration externals run "default" defaultProfile
      prepared.corpus prepared.blockTexts []).key.hash externals = .ok hash := providerKey_hash
  obtain ⟨taxonomy, htaxonomy⟩ := sealed (exchangeHash externals
    (organizerRequest run prepared.corpus prepared.blockTexts []) response)
  obtain ⟨bytes, hbytes⟩ := small
  have hnone (stage : TaskStage) : Apart run stage started.journal.tasks :=
    fun _ h => absurd h List.not_mem_nil
  have hrun : started.journal.HasRun run.runId := List.mem_singleton_self _
  refine returning_bind (yields_recordPreflight (unregistered_of_apart hfirst (hnone _)) hrun) ?_
  refine returning_bind (yields_lift rfl) (returning_bind (yields_lift (a := ()) (by decide))
    (returning_bind (yields_lift rfl) ?_))
  have hclient : environment.client "default" = .ok client := rfl
  refine returning_bind (yields_runEmbeddingTask hrun
    (unregistered_of_apart hsecond (apart_file (hnone _) hfirst (by decide))) hclient grants rfl) ?_
  refine returning_bind (a := ()) (yields_query fun _ _ => rfl) ?_
  refine returning_bind (yields_runCandidateTask hrun (unregistered_of_apart hthird
    (apart_file (apart_file (hnone _) hfirst (by decide)) hsecond (by decide))) candidates_none) ?_
  refine returning_bind (yields_lift rfl) ?_
  refine returning_bind (yields_runOrganizerTask hrun (unregistered_of_apart hfourth
    (apart_file (apart_file (apart_file (hnone _) hfirst (by decide)) hsecond (by decide)) hthird
      (by decide))) ⟨client, _, rfl, grants, rfl⟩ rfl htaxonomy) ?_
  refine returning_bind (yields_lift hbytes) ?_
  refine returning_bind (a := none) (yields_query fun s hs => ?_) ⟨_, _, yields_pure⟩
  have happrovals : s.journal.approvals = [] := congrArg Journal.approvals hs
  have hrow : s.journal.approvalRow run.runId "taxonomy" "taxonomy" = none := by
    unfold Journal.approvalRow
    rw [happrovals]
    rfl
  unfold Journal.latestApproval
  rw [hrow]
  exact bind_unit_eq_ok.mpr ⟨by decide, bind_unit_eq_ok.mpr ⟨by decide, rfl⟩⟩

/-- **A first call returns.** -/
theorem returns : ∃ result t,
    execute externals noFaults environment false false (.create manifest) = (.ok result, t) := by
  have hcreated : (Session.create manifest).project.stored = (.empty, manifest) := rfl
  obtain ⟨_, p₁, h₁, -, hs₁⟩ := leads_attemptIo.run _ hcreated
  obtain ⟨_, p₂, h₂, rfl, hs₂⟩ := (leads_openProject manifest_valid).run p₁ hs₁
  obtain ⟨_, p₃, h₃, -, hs₃⟩ := leads_attemptIo.run p₂ hs₂
  obtain ⟨_, p₄, h₄, -, hs₄⟩ := leads_attemptIo.run p₃ hs₃
  have hbegin := @leads_beginOrResumeRun .empty manifest externals prepared.corpus.corpusHash.hex
    (integrationConfigHash externals manifest.aiRoutes) (validateHexHash_hex _ _)
    (validateHexHash_hex _ _) (by simp [Journal.latestRun, Journal.empty, newest])
    (by simp [Journal.HasRun, Journal.empty]) (by simp [Journal.empty])
  obtain ⟨_, p₅, h₅, rfl, hs₅⟩ := hbegin.run p₄ hs₄
  obtain ⟨w, result, hrest⟩ := yields_executeFrom
  obtain ⟨found, t, ht, -, -⟩ := hrest.run ⟨p₅, []⟩ (by
    have hjournal : p₅.journal = { Journal.empty with runs := [run] } := congrArg Prod.fst hs₅
    unfold Session.filed
    rw [hjournal]
    rfl)
  exact ⟨found, t, (execute_from h₁ h₂ h₃ (List.cons_ne_nil _ _) rfl h₄ h₅).trans ht⟩

end Pilot

end Okc.App
