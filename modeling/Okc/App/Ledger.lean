import Okc.App.Execution

/-!
# What the services write

Every write of the services and of the pipeline, once: `Served` lists the rows they insert with what
is known when they do, and `Registers` the tasks a stage registers. `Moved` is one of these writes
on a `Ledger`, the journal with the list of registrations.

* A completed task's response comes from a draft a provider answered with, sealed by the stage
  (`Completion`). `Drafts` is a condition on the drafts, which a user of the list may set.
* The rules at the end are for the steps of an operation; `Operations.lean` proves of every
  operation that it moves a ledger only so.

Results:
* `Moved.le`: a write only adds (`Ledger.Le`); `Stable`: what writes keep.
* `writes_register`, `writes_completeTask`, `writes_generate`: the steps of a stage.
-/

namespace Okc.App

open Okc.Lib Okc.Core

structure Ledger where
  journal : Journal
  registered : List (RunRecord × Registration)

def Session.ledger (s : Session) : Ledger := ⟨s.project.journal, s.registered⟩

/-! ## Rows -/

/-- A condition on the drafts that complete a task. -/
structure Drafts where
  synthesis : ApprovedTaxonomy → TaxonomyCluster → SynthesisDraft → Prop
  critic : ApprovedTaxonomy → TaxonomyCluster → SynthesisProposal → List CriticFinding → Prop

/-- No condition. -/
def Drafts.any : Drafts := ⟨fun _ _ _ => True, fun _ _ _ _ => True⟩

/-- A task of the run under the key of a registration that was made. -/
structure Filed (X : Externals) (b : Ledger) (run : RunRecord) (r : Registration)
    (task : TaskDefinition) : Prop where
  registered : (run, r) ∈ b.registered
  stored : task ∈ b.journal.tasks
  runId : task.runId = run.runId
  key : r.key.hash X = .ok task.cacheKey

/-- The task is complete with this response. -/
def Journal.Responds (j : Journal) (taskId : String) (response : Object) : Prop :=
  ∃ e ∈ j.events, e.taskId = taskId ∧ e.status = .complete ∧ e.response = some response

/-- An approval of the taxonomy is recorded, for the corpus at hand. -/
structure Approved (b : Ledger) (corpus : IntegrationCorpus) (approved : ApprovedTaxonomy) :
    Prop where
  row : ∃ row ∈ b.journal.approvals, row.approvalKind = "taxonomy" ∧
    row.object = .approvedTaxonomy approved
  corpusHash : approved.corpus.corpusHash = corpus.corpusHash

/-- The cluster's synthesis task of the run has the proposal as its response. -/
inductive ProposedFor (X : Externals) (b : Ledger) (run : RunRecord) (approved : ApprovedTaxonomy)
    (cluster : TaxonomyCluster) (texts : BlockTextMap) (proposal : SynthesisProposal) : Prop
  | mk (name : String) (profile : ProviderProfile)
      (regeneration : Option ClusterRegenerationRequest) (task : TaskDefinition)
      (filed : Filed X b run
        (synthesisRegistration X run approved cluster name profile texts regeneration) task)
      (responds : b.journal.Responds task.taskId (.proposal proposal))

/-- What completes a task. -/
inductive Completion (X : Externals) (G : Drafts) (b : Ledger) (task : TaskDefinition) :
    Object → Prop
  /-- A stage without a draft. -/
  | bytes (bytes : Bytes) : Completion X G b task (.bytes bytes)
  | value (value : Value) : Completion X G b task (.value value)
  | organizer {prepared : PreparedCorpus X} {clusters : List TaxonomyCluster}
      {recordingHash : ContentHash} {taxonomy : TaxonomyProposal}
      (sealed : TaxonomyProposal.seal X prepared.corpus clusters recordingHash = .ok taxonomy)
      (recorded : recordingHash ∈ b.journal.recordingHashes task.runId) :
      Completion X G b task (.taxonomyOutput ⟨prepared.corpus, taxonomy⟩)
  | synthesis {run : RunRecord} {prepared : PreparedCorpus X} {approved : ApprovedTaxonomy}
      {cluster : TaxonomyCluster} {name : String} {profile : ProviderProfile}
      {regeneration : Option ClusterRegenerationRequest} {draft : SynthesisDraft}
      {recordingHash : ContentHash}
      (approval : Approved b prepared.corpus approved)
      (listed : cluster ∈ approved.taxonomy.clusters)
      (filed : Filed X b run (synthesisRegistration X run approved cluster name profile
        prepared.blockTexts regeneration) task)
      (recorded : recordingHash ∈ b.journal.recordingHashes task.runId)
      (admitted : G.synthesis approved cluster draft) :
      Completion X G b task (.proposal (draft.toProposal X cluster.clusterId
        approved.taxonomy.taxonomyHash (revisionFor regeneration) recordingHash))
  | critic {run : RunRecord} {prepared : PreparedCorpus X} {approved : ApprovedTaxonomy}
      {cluster : TaxonomyCluster} {name : String} {profile : ProviderProfile}
      {proposal : SynthesisProposal} {findings : List CriticFinding} {recordingHash : ContentHash}
      (approval : Approved b prepared.corpus approved)
      (listed : cluster ∈ approved.taxonomy.clusters)
      (filed : Filed X b run (criticRegistration X run approved cluster name profile
        prepared.corpus prepared.blockTexts proposal) task)
      (proposed : ProposedFor X b run approved cluster prepared.blockTexts proposal)
      (recorded : recordingHash ∈ b.journal.recordingHashes task.runId)
      (admitted : G.critic approved cluster proposal findings) :
      Completion X G b task (.clusterOutput ⟨proposal, .seal X cluster.clusterId
        proposal.proposalHash findings recordingHash⟩)

/-- The rows the services insert. -/
inductive Served (X : Externals) (G : Drafts) (b : Ledger) : Row → Prop
  | run {row} (sequence : row.sequence = b.journal.nextRunSequence) : Served X G b (.run row)
  | task {row run r} (registered : (run, r) ∈ b.registered) (runId : row.runId = run.runId)
      (key : r.key.hash X = .ok row.cacheKey) (request : row.request = r.request) :
      Served X G b (.task row)
  | event {row} (status : row.status ≠ .complete) : Served X G b (.event row)
  | complete {row task response} (stored : task ∈ b.journal.tasks) (id : row.taskId = task.taskId)
      (responds : row.response = some response) (completion : Completion X G b task response) :
      Served X G b (.event row)
  | exchange {row} : Served X G b (.exchange row)
  | revision {row} : Served X G b (.revision row)
  | taxonomy {run manifest proposed editedClusters rationale approved}
      (latest : b.journal.latestRun = some run) (valid : ValidManifest manifest)
      (latestTaxonomy : b.journal.latestTaxonomy = .ok proposed)
      (reviewed : reviewedTaxonomy X manifest proposed editedClusters rationale = .ok approved) :
      Served X G b (.approval ⟨run.runId, "taxonomy", "taxonomy",
        approved.taxonomy.taxonomyHash.hex, .approvedTaxonomy approved⟩)
  | cluster {run manifest clusterId missing output decision approved}
      (latest : b.journal.latestRun = some run) (valid : ValidManifest manifest)
      (completed : b.journal.completedCluster clusterId missing = .ok output)
      (reviewed : reviewedRevision X manifest output decision = .ok approved) :
      Served X G b (.approval ⟨run.runId, "cluster", clusterId, approved.critic.criticHash.hex,
        .approvedRevision approved⟩)
  | stale {runId clusterId feedbackHash old}
      (latest : b.journal.latestApproval Object.asApprovedRevision runId "cluster" clusterId =
        .ok (some old)) :
      Served X G b (.approval ⟨runId, "cluster", clusterId, feedbackHash,
        .approvedRevision old.value⟩)
  | sourceSet {row} : Served X G b (.sourceSet row)
  | plan {runId plan} (sealed : b.journal.sealedPlan X = .ok (some (runId, plan)))
      (valid : validatePlan X plan = .ok ()) :
      Served X G b (.plan ⟨runId, plan.integrationPlanId, planObjectHash X plan, plan⟩)
  | verified {row} (plan : ∃ p ∈ b.journal.plans, p.runId = row.runId) :
      Served X G b (.verified row)
  | feedback {run clusterId missing output feedback} (latest : b.journal.latestRun = some run)
      (completed : b.journal.completedCluster clusterId missing = .ok output) :
      Served X G b (.feedback ⟨run.runId, clusterId,
        regenerationRequest X clusterId feedback output⟩)
  | projectEvent {kind} : Served X G b (.projectEvent kind)

/-! ## Registrations -/

/-- What a stage registers. -/
inductive Registers (X : Externals) (b : Ledger) (run : RunRecord) : Registration → Prop
  | preflight (prepared : PreparedCorpus X) :
      Registers X b run (preflightRegistration X prepared.corpus)
  | embedding (prepared : PreparedCorpus X) (name : String) (profile : ProviderProfile) :
      Registers X b run
        (embeddingRegistration X run name profile prepared.corpus prepared.blockTexts)
  | candidates (embeddings : Value) : Registers X b run (candidateRegistration X embeddings)
  | organizer (prepared : PreparedCorpus X) (candidates : List Value) (name : String)
      (profile : ProviderProfile) :
      Registers X b run
        (organizerRegistration X run name profile prepared.corpus prepared.blockTexts candidates)
  | synthesis {prepared : PreparedCorpus X} {approved : ApprovedTaxonomy}
      {cluster : TaxonomyCluster} (name : String) (profile : ProviderProfile)
      (regeneration : Option ClusterRegenerationRequest)
      (approval : Approved b prepared.corpus approved)
      (listed : cluster ∈ approved.taxonomy.clusters) :
      Registers X b run (synthesisRegistration X run approved cluster name profile
        prepared.blockTexts regeneration)
  | critic {prepared : PreparedCorpus X} {approved : ApprovedTaxonomy}
      {cluster : TaxonomyCluster} {proposal : SynthesisProposal} (name : String)
      (profile : ProviderProfile) (approval : Approved b prepared.corpus approved)
      (listed : cluster ∈ approved.taxonomy.clusters)
      (proposed : ProposedFor X b run approved cluster prepared.blockTexts proposal) :
      Registers X b run (criticRegistration X run approved cluster name profile prepared.corpus
        prepared.blockTexts proposal)

/-- One write. -/
inductive Moved (X : Externals) (G : Drafts) : Ledger → Ledger → Prop
  | insert {j k : Journal} {registered : List (RunRecord × Registration)} {row : Row}
      (served : Served X G ⟨j, registered⟩ row) (inserted : j.Inserted row k) :
      Moved X G ⟨j, registered⟩ ⟨k, registered⟩
  | note {b : Ledger} {run : RunRecord} {r : Registration} (registers : Registers X b run r) :
      Moved X G b ⟨b.journal, b.registered ++ [(run, r)]⟩

/-! ## Writes only add -/

structure Ledger.Le (b c : Ledger) : Prop where
  journal : b.journal.Extends c.journal
  registered : b.registered <+: c.registered

theorem Moved.le {X : Externals} {G : Drafts} {b c : Ledger} (h : Moved X G b c) : b.Le c := by
  cases h with
  | insert _ hi => exact ⟨hi.extends, List.prefix_refl _⟩
  | note _ => exact ⟨Journal.Extends.refl _, List.prefix_append _ _⟩

/-- What holds of a ledger and of every later one. -/
def Stable (φ : Ledger → Prop) : Prop := ∀ b c, b.Le c → φ b → φ c

theorem Stable.and {φ ψ : Ledger → Prop} (h : Stable φ) (h' : Stable ψ) :
    Stable fun b => φ b ∧ ψ b := fun b c hle hb => ⟨h b c hle hb.1, h' b c hle hb.2⟩

theorem stable_filed {X : Externals} {run : RunRecord} {r : Registration}
    {task : TaskDefinition} : Stable fun b => Filed X b run r task := fun _ _ hle h =>
  ⟨hle.registered.subset h.registered, hle.journal.tasks.subset h.stored, h.runId, h.key⟩

theorem stable_responds {taskId : String} {response : Object} :
    Stable fun b => b.journal.Responds taskId response := fun _ _ hle h => by
  obtain ⟨e, he, h⟩ := h
  exact ⟨e, hle.journal.events.subset he, h⟩

theorem stable_approved {corpus : IntegrationCorpus} {approved : ApprovedTaxonomy} :
    Stable fun b => Approved b corpus approved := fun _ _ hle h => by
  obtain ⟨row, hrow, h'⟩ := h.row
  exact ⟨⟨row, hle.journal.approvals.subset hrow, h'⟩, h.corpusHash⟩

theorem stable_proposedFor {X : Externals} {run : RunRecord} {approved : ApprovedTaxonomy}
    {cluster : TaxonomyCluster} {texts : BlockTextMap} {proposal : SynthesisProposal} :
    Stable fun b => ProposedFor X b run approved cluster texts proposal := fun b c hle h => by
  cases h with
  | mk name profile regeneration task filed responds =>
    exact .mk name profile regeneration task (stable_filed b c hle filed)
      (stable_responds b c hle responds)

theorem stable_recorded {runId : String} {hash : ContentHash} :
    Stable fun b => hash ∈ b.journal.recordingHashes runId := fun _ _ hle h => by
  obtain ⟨e, he, rfl⟩ := List.mem_map.mp h
  obtain ⟨he, hrun⟩ := List.mem_filter.mp he
  exact List.mem_map.mpr ⟨e, List.mem_filter.mpr ⟨hle.journal.exchanges.subset he, hrun⟩, rfl⟩

/-! ## Rules for the steps of an operation -/

section

variable {faults : Faults} {A : Journal → Row → Prop} {P : Journal → Prop}

/-- An operation that inserts only rows that `A` allows. -/
abbrev Adds {α : Type} (A : Journal → Row → Prop) (P : Journal → Prop) (op : Op α)
    (Q : α → Journal → Prop) : Prop := Advances Project.journal (Moves Journal.step A) P op Q

theorem adds_commit {α : Type} {f : Project → Except AppError (α × Project)}
    {Q : α → Journal → Prop}
    (h : ∀ s a t, P s.journal → f s = .ok (a, t) →
      Journal.Grows A s.journal t.journal ∧ Q a t.journal) : Adds A P (commit faults f) Q := by
  refine ⟨fun s hs => ?_⟩
  cases hc : commit faults f s with
  | mk r t =>
    rcases commit_cases hc with ⟨rfl, e, rfl⟩ | ⟨a, ha, rfl | ⟨e, rfl⟩⟩
    · exact Relation.ReflTransGen.refl
    · exact h s.tick a t hs ha
    · exact (h s.tick a t hs ha).1

theorem adds_query {α : Type} {f : Project → Except AppError α} {Q : α → Journal → Prop}
    (h : ∀ s a, P s.journal → f s = .ok a → Q a s.journal) : Adds A P (query faults f) Q := by
  refine adds_commit fun s a t hs ha => ?_
  cases hv : f s with
  | error e => simp [hv, Except.map] at ha
  | ok b =>
    simp only [hv, Except.map, Except.ok.injEq, Prod.mk.injEq] at ha
    obtain ⟨rfl, rfl⟩ := ha
    exact ⟨Relation.ReflTransGen.refl, h s b hs hv⟩

theorem adds_attemptIo : Adds A P (attemptIo faults) fun _ => P :=
  adds_query fun _ _ hs _ => hs

theorem adds_insertRow {row : Row} {Q : Unit → Journal → Prop} (hA : ∀ j, P j → A j row)
    (hQ : ∀ j k, P j → j.Inserted row k → Q () k) : Adds A P (insertRow faults row) Q := by
  refine adds_commit fun s a t hs ha => ?_
  cases hv : s.insert row with
  | error e => simp [hv, Except.map] at ha
  | ok u =>
    simp only [hv, Except.map, Except.ok.injEq, Prod.mk.injEq, true_and] at ha
    subst ha
    have hi := (insert_eq_ok.mp hv).1
    exact ⟨Journal.Grows.insert Relation.ReflTransGen.refl (hA _ hs) hi,
      hQ _ _ hs (Journal.inserted_of_insert hi)⟩

theorem adds_openProject : Adds A P (openProject faults) fun m j => ValidManifest m ∧ P j := by
  refine adds_query fun s a hs ha => ?_
  obtain ⟨hv, ha⟩ := bind_unit_eq_ok.mp ha
  obtain rfl := Except.ok.inj ha
  exact ⟨validate_eq_ok.mp hv, hs⟩

/-- Carries a fact that insertions keep. -/
theorem adds_carry {α : Type} {op : Op α} {φ : Journal → Prop} {Q : α → Journal → Prop}
    (h : Adds A P op Q) (hφ : ∀ j k : Journal, j.Extends k → φ j → φ k) :
    Adds A (fun j => P j ∧ φ j) op fun a j => Q a j ∧ φ j :=
  h.frame fun j k hm hj => by
    obtain ⟨row, -, hs⟩ := hm
    exact hφ j k (Journal.inserted_of_insert (Journal.step_eq_some.mp hs)).extends hj

end

/-! ### From the project to the session -/

section

variable {X : Externals} {G : Drafts} {α : Type}

/-- A stage that writes only what `Moved` lists. -/
abbrev Writes {α : Type} (X : Externals) (G : Drafts) (P : Ledger → Prop) (stage : Stage α)
    (Q : α → Ledger → Prop) : Prop := Advances Session.ledger (Moved X G) P stage Q

theorem writes_within {P : Ledger → Prop} {op : Op α} {Q : α → Ledger → Prop}
    (h : ∀ l, Adds (fun j => Served X G ⟨j, l⟩) (fun j => P ⟨j, l⟩) op fun a j => Q a ⟨j, l⟩) :
    Writes X G P (within op) Q := by
  have hmoves : ∀ (l : List (RunRecord × Registration)) (j k : Journal),
      Journal.Grows (fun j => Served X G ⟨j, l⟩) j k →
        Relation.ReflTransGen (Moved X G) ⟨j, l⟩ ⟨k, l⟩ := by
    intro l j k hg
    induction hg with
    | refl => exact Relation.ReflTransGen.refl
    | tail _ hstep ih =>
      obtain ⟨row, hserved, hs⟩ := hstep
      exact ih.tail (.insert hserved (Journal.inserted_of_insert (Journal.step_eq_some.mp hs)))
  refine ⟨fun s hs => ?_⟩
  have hop := (h s.registered).run s.project hs
  unfold within
  cases hr : op s.project with
  | mk r t =>
    rw [hr] at hop
    cases r with
    | ok a => exact ⟨hmoves _ _ _ hop.1, hop.2⟩
    | error e => exact hmoves _ _ _ hop

/-- Carries a fact that writes keep. -/
theorem writes_carry {P φ : Ledger → Prop} {stage : Stage α} {Q : α → Ledger → Prop}
    (h : Writes X G P stage Q) (hφ : Stable φ) :
    Writes X G (fun b => P b ∧ φ b) stage fun a b => Q a b ∧ φ b :=
  h.frame fun b c hm hb => hφ b c hm.le hb

theorem writes_note {P : Ledger → Prop} {run : RunRecord} {r : Registration}
    (h : ∀ b, P b → Registers X b run r) :
    Writes X G P (note run r) fun _ b => (run, r) ∈ b.registered :=
  ⟨fun s hs => ⟨Relation.ReflTransGen.single (.note (h _ hs)), by simp [Session.ledger]⟩⟩

end

/-! ## The steps of a stage -/

section

variable {X : Externals} {faults : Faults} {A : Journal → Row → Prop}

/-- A task's state is its definition with one of its events. -/
theorem taskState_spec {j : Journal} {taskId : String} {st : TaskState}
    (h : j.taskState taskId = .ok st) :
    st.task ∈ j.tasks ∧ st.task.taskId = taskId ∧
      ∃ e ∈ j.events, e.taskId = taskId ∧ e.status = st.status ∧ e.response = st.response := by
  unfold Journal.taskState at h
  split at h
  · rename_i task event ht he
    obtain rfl := Except.ok.inj h
    refine ⟨List.mem_of_find?_eq_some ht, by simpa using List.find?_some ht, event,
      mem_of_latest he, by simpa using prop_of_latest he, rfl, rfl⟩
  · cases h

/-- The task that `register_task` returns. -/
structure Filing (X : Externals) (j : Journal) (run : RunRecord) (key : TaskCacheKey)
    (st : TaskState) : Prop where
  stored : st.task ∈ j.tasks
  runId : st.task.runId = run.runId
  key : key.hash X = .ok st.task.cacheKey
  responds : st.status = .complete → ∀ response, st.response = some response →
    j.Responds st.task.taskId response

theorem Journal.Intact.task_unique {j : Journal} (h : j.Intact) {a b : TaskDefinition}
    (ha : a ∈ j.tasks) (hb : b ∈ j.tasks) (hid : a.taskId = b.taskId) : a = b :=
  List.inj_on_of_nodup_map h.taskIds ha hb hid

/-- The state of a stored task of the run under the key. -/
theorem filing_of_taskState {s : Project} {run : RunRecord} {key : TaskCacheKey}
    {task : TaskDefinition} {st : TaskState} (ht : task ∈ s.journal.tasks)
    (hrun : task.runId = run.runId) (hkey : key.hash X = .ok task.cacheKey)
    (hst : s.journal.taskState task.taskId = .ok st) : Filing X s.journal run key st := by
  obtain ⟨hmem, hid, e, he, heid, hstatus, hresponse⟩ := taskState_spec hst
  have htask := s.intact.task_unique hmem ht hid
  refine ⟨hmem, htask ▸ hrun, htask ▸ hkey, fun hc response hr => ?_⟩
  exact ⟨e, he, heid.trans hid.symm, hstatus.trans hc, hresponse.trans hr⟩

theorem adds_registerTask {run : RunRecord} {stage : TaskStage} {key : TaskCacheKey}
    {request : Bytes}
    (htask : ∀ j row, row.runId = run.runId → key.hash X = .ok row.cacheKey →
      row.request = request → A j (.task row))
    (hevent : ∀ j row, row.status ≠ .complete → A j (.event row)) :
    Adds A (fun _ => True) (registerTask X faults run stage key request)
      fun st j => Filing X j run key st := by
  refine Advances.bind (Q := fun _ _ => True) (Advances.lift fun _ _ _ _ => trivial) fun _ => ?_
  refine Advances.bind (Q := fun h _ => key.hash X = .ok h ∧ True)
    (Advances.lift fun h _ hh _ => ⟨hh, trivial⟩) fun hash => Advances.assuming fun hhash => ?_
  refine Advances.bind (Q := fun _ _ => True) adds_attemptIo fun _ => ?_
  refine Advances.bind (Q := fun found j => ∀ st, found = some st → Filing X j run key st)
    (adds_query fun s found _ hf st hst => ?_) fun found => ?_
  · subst hst
    split at hf
    · rename_i task ht
      have hp := List.find?_some ht
      simp only [Bool.and_eq_true, decide_eq_true_eq] at hp
      cases hs : s.journal.taskState task.taskId with
      | error e => simp [hs, Except.map] at hf
      | ok state =>
        simp only [hs, Except.map, Except.ok.injEq, Option.some.injEq] at hf
        subst hf
        exact filing_of_taskState (List.mem_of_find?_eq_some ht) hp.1 (hhash.trans (by rw [hp.2]))
          hs
    · cases hf
  cases found with
  | some st =>
    dsimp only
    refine Advances.bind (Q := fun _ j => Filing X j run key st)
      (Advances.lift fun _ j _ hj => hj st rfl) fun _ => ?_
    exact Advances.pure fun _ hj => hj
  | none =>
    dsimp only
    generalize hrow : TaskDefinition.mk ("task_" ++ (digest X "okc:task:v3\x00"
      [utf8 run.runId, utf8 hash]).hex) run.runId stage hash request = row
    refine Advances.bind (Q := fun _ j => row ∈ j.tasks) ?_ fun _ => ?_
    · refine adds_commit fun s _ t _ ha => ?_
      obtain ⟨u, hu, ha⟩ := bind_eq_ok.mp ha
      obtain ⟨v, hv, ha⟩ := bind_eq_ok.mp ha
      obtain ⟨-, rfl⟩ := Prod.mk.inj (Except.ok.inj ha)
      have hju := (insert_eq_ok.mp hu).1
      have hjv := (insert_eq_ok.mp hv).1
      have hmem : row ∈ u.journal.tasks := by
        have hi := Journal.inserted_of_insert hju
        generalize u.journal = k at hi
        cases hi
        exact List.mem_append_right _ List.mem_cons_self
      refine ⟨?_, (Journal.inserted_of_insert hjv).extends.tasks.subset hmem⟩
      have hA : A s.journal (.task row) := htask _ _ (by rw [← hrow]) (by rw [← hrow, hhash])
        (by rw [← hrow])
      exact (Journal.Grows.insert Relation.ReflTransGen.refl hA hju).insert
        (hevent _ _ (by simp)) hjv
    · refine adds_query fun s st hs hst => ?_
      subst hrow
      exact filing_of_taskState hs rfl hhash hst

theorem adds_appendTaskStatus {P : Journal → Prop} {taskId : String} {status : TaskStatus}
    {response : Option Object} {errorKind : Option String} {Q : Journal → Prop}
    (hA : ∀ j, P j → A j (.event ⟨taskId, status, response, errorKind⟩))
    (hQ : ∀ j k, P j → j.Inserted (.event ⟨taskId, status, response, errorKind⟩) k → Q k) :
    Adds A P (appendTaskStatus faults taskId status response errorKind) fun _ => Q := by
  refine Advances.bind (Q := fun _ => P) (Advances.lift fun _ _ _ h => h) fun _ => ?_
  refine Advances.bind (Q := fun _ => P) (Advances.lift fun _ _ _ h => h) fun _ => ?_
  refine Advances.bind (Q := fun _ => P) adds_attemptIo fun _ => ?_
  refine Advances.bind (Q := fun _ => Q) (adds_insertRow hA fun j k hj hi => hQ j k hj hi)
    fun _ => ?_
  exact adds_query fun _ _ hs _ => hs

theorem adds_recordExchange {P : Journal → Prop} {runId taskId : String} {recording : Bytes}
    (hA : ∀ j row, A j (.exchange row)) (hP : ∀ j k : Journal, j.Extends k → P j → P k) :
    Adds A P (recordExchange X faults runId taskId recording) fun hash j =>
      hash ∈ j.recordingHashes runId ∧ P j := by
  refine Advances.bind (Q := fun _ => P) adds_attemptIo fun _ => ?_
  refine Advances.bind (Q := fun _ j => recordingHash X recording ∈ j.recordingHashes runId ∧ P j)
    (adds_insertRow (fun j _ => hA j _) fun j k hj hi => ⟨?_, hP j k hi.extends hj⟩) fun _ => ?_
  · cases hi
    simp [Journal.recordingHashes]
  · exact Advances.pure fun _ hj => hj

end

section

variable {X : Externals} {G : Drafts} {faults : Faults} {P : Ledger → Prop} {run : RunRecord}

theorem Stable.journal (hP : Stable P) (l : List (RunRecord × Registration)) (j k : Journal)
    (h : j.Extends k) (hj : P ⟨j, l⟩) : P ⟨k, l⟩ :=
  hP ⟨j, l⟩ ⟨k, l⟩ ⟨h, List.prefix_refl _⟩ hj

/-- **A registration** leaves a task of the run under the key. -/
theorem writes_register {r : Registration} (hP : Stable P)
    (h : ∀ b, P b → Registers X b run r) :
    Writes X G P (register X faults run r) fun st b => (Filed X b run r st.task ∧
      (st.status = .complete → ∀ response, st.response = some response →
        b.journal.Responds st.task.taskId response)) ∧ P b := by
  have hnote : Writes X G P (note run r) fun _ b => (run, r) ∈ b.registered ∧ P b :=
    (writes_carry (writes_note (P := P) h) hP).mono (fun _ hb => ⟨hb, hb⟩) fun _ _ hb => hb
  refine Advances.bind hnote fun _ => ?_
  refine writes_within fun l => ?_
  refine ⟨fun s hs => ?_⟩
  obtain ⟨hmem, hs⟩ := hs
  have htask : Adds (fun j => Served X G ⟨j, l⟩) (fun _ => True)
      (registerTask X faults run r.key.stage r.key r.request)
      fun st j => Filing X j run r.key st :=
    adds_registerTask (fun j row h1 h2 h3 => .task hmem h1 h2 h3) fun j row => .event
  have hcarry := adds_carry htask (φ := fun j => P ⟨j, l⟩) (hP.journal l)
  have hrun := hcarry.run s ⟨trivial, hs⟩
  cases hr : registerTask X faults run r.key.stage r.key r.request s with
  | mk x t =>
    rw [hr] at hrun
    cases x with
    | error e => exact hrun
    | ok st =>
      obtain ⟨hg, hf, hp⟩ := hrun
      exact ⟨hg, ⟨⟨hmem, hf.stored, hf.runId, hf.key⟩, hf.responds⟩, hp⟩

/-- **A completion.** -/
theorem writes_completeTask {task : TaskState} {response : Object} (hP : Stable P)
    (h : ∀ b, P b → task.task ∈ b.journal.tasks ∧ Completion X G b task.task response) :
    Writes X G P (completeTask faults task response) fun _ b =>
      b.journal.Responds task.task.taskId response ∧ P b := by
  refine Advances.bind (Q := fun _ b => b.journal.Responds task.task.taskId response ∧ P b)
    (writes_within fun l => ?_) fun _ => Advances.pure fun _ hb => hb
  refine adds_appendTaskStatus (fun j hj => ?_) fun j k hj hi => ⟨?_, hP.journal l j k hi.extends hj⟩
  · obtain ⟨hmem, hc⟩ := h _ hj
    exact .complete hmem rfl rfl hc
  · cases hi
    exact ⟨_, List.mem_append_right _ List.mem_cons_self, rfl, rfl, rfl⟩

theorem writes_status {task : TaskState} {status : TaskStatus} {errorKind : Option String}
    (hs : status ≠ .complete) (hP : Stable P) :
    Writes X G P (within (appendTaskStatus faults task.task.taskId status none errorKind))
      fun _ => P :=
  writes_within fun l => adds_appendTaskStatus (fun _ _ => .event hs)
    fun j k hj hi => hP.journal l j k hi.extends hj

/-- **A provider call** returns what the provider answered. -/
theorem writes_askProvider {α : Type} {task : TaskState} {answer : Except ProviderErrorKind α}
    (hP : Stable P) :
    Writes X G P (askProvider faults task answer) fun a b => answer = .ok a ∧ P b := by
  refine Advances.bind (Q := fun _ => P) (writes_status (by decide) hP) fun _ => ?_
  cases answer with
  | ok response => exact Advances.pure fun _ hb => ⟨rfl, hb⟩
  | error kind =>
    refine Advances.bind (Q := fun _ => P) ?_ fun _ => Advances.fail
    exact Advances.attempt (writes_status (by decide) hP) fun b c hm => hP b c hm.le

/-- The client answered this request so. -/
def Environment.Answers (env : Environment X) (profileName : String)
    (request : StructuredGenerationRequest) (output : Value) : Prop :=
  ∃ client response, env.client profileName = .ok client ∧
    client.generateStructured request = .ok response ∧ response.output = output

theorem writes_recordExchange {taskId : String} {recording : Bytes} (hP : Stable P) :
    Writes X G P (within (recordExchange X faults run.runId taskId recording)) fun hash b =>
      hash ∈ b.journal.recordingHashes run.runId ∧ P b :=
  writes_within fun l => adds_recordExchange (fun _ _ => .exchange) (hP.journal l)

/-- **A generation** is recorded. -/
theorem writes_generate {env : Environment X} {task : TaskState} {role : AiRole}
    {profileName : String} {findings : SensitiveScan} {disclosed : List DocumentId}
    {allowRemoteProvider confirmed : Bool} {request : StructuredGenerationRequest}
    (hP : Stable P) :
    Writes X G P (generate X faults env run task role profileName findings disclosed
      allowRemoteProvider confirmed request) fun out b =>
        env.Answers profileName request out.1 ∧
          out.2 ∈ b.journal.recordingHashes run.runId ∧ P b := by
  refine Advances.bind (Q := fun client b => env.client profileName = .ok client ∧ P b)
    (Advances.lift fun _ _ h hb => ⟨h, hb⟩) fun client => Advances.assuming fun hclient => ?_
  refine Advances.bind (Q := fun _ => P) (Advances.lift fun _ _ _ hb => hb) fun _ => ?_
  refine Advances.bind (writes_askProvider hP) fun response => Advances.assuming fun hanswer => ?_
  refine Advances.bind (writes_recordExchange hP) fun hash => ?_
  exact Advances.pure fun _ hb => ⟨⟨client, response, hclient, hanswer, rfl⟩, hb⟩

end

end Okc.App
