import Okc.App.Ledger
import Okc.App.Configuration
import Okc.App.Plans

/-!
# The operations and what each of them writes

Every operation of the store and of the services as an action on a `Session`, and the specification
of each: the rows it may insert and the tasks it may register, whatever step of it fails.

* `Operation.Service` are the operations of the services; the others are calls of the store's own
  functions. `Operation.useStore` changes to a handle with another manifest in memory.
* The operations run one after the other (a writer holds the project's lock).

Results:
* `writes_execute`, `writes_preflight` and the `adds_` lemmas: one for each operation.
* `moved_of_reaches`: a history of service operations is a sequence of the writes of `Moved`.
* `grows_of_reaches`: any history grows the journal by rows of `Recorded`.
-/

namespace Okc.App

open Okc.Lib Okc.Core

/-! ## Store operations -/

section

variable {X : Externals} {faults : Faults} {A : Journal → Row → Prop} {P : Journal → Prop}

theorem adds_latestRun :
    Adds A P (latestRun faults) fun found j => j.latestRun = found ∧ P j :=
  adds_query fun _ _ hs ha => ⟨Except.ok.inj ha, hs⟩

theorem adds_requireRun :
    Adds A P (query faults fun s => s.journal.requireRun) fun run j =>
      j.latestRun = some run ∧ P j :=
  adds_query fun _ _ hs ha => ⟨requireRun_eq_ok.mp ha, hs⟩

/-- A checked argument. -/
theorem adds_check {x : Except AppError Unit} : Adds A P (Act.lift x) fun _ => P :=
  Advances.lift fun _ _ _ h => h

theorem adds_beginOrResumeRun {inputHash configHash : String}
    (hA : ∀ j, P j → A j (.run (startedRun X j inputHash configHash)))
    (hP : ∀ j k : Journal, j.Extends k → P j → P k) :
    Adds A P (beginOrResumeRun X faults inputHash configHash) fun run j =>
      (j.latestRun = some run ∧ run.inputHash = inputHash ∧ run.configHash = configHash) ∧ P j := by
  refine Advances.bind adds_check fun _ => ?_
  refine Advances.bind adds_check fun _ => ?_
  refine Advances.bind adds_latestRun fun existing => ?_
  split
  · rename_i run hrun
    obtain ⟨rfl, hsame⟩ := Option.filter_eq_some_iff.mp hrun
    rw [Bool.and_eq_true, decide_eq_true_eq, decide_eq_true_eq] at hsame
    exact Advances.pure fun j hj => ⟨⟨hj.1, hsame⟩, hj.2⟩
  · refine adds_commit fun s run t hs ha => ?_
    obtain ⟨u, hu, ha⟩ := bind_eq_ok.mp ha
    obtain ⟨rfl, rfl⟩ := Prod.mk.inj (Except.ok.inj ha)
    have hju := (insert_eq_ok.mp hu).1
    refine ⟨Journal.Grows.insert Relation.ReflTransGen.refl (hA _ hs.2) hju, ⟨?_, rfl, rfl⟩,
      hP _ _ (Journal.inserted_of_insert hju).extends hs.2⟩
    have hi := Journal.inserted_of_insert hju
    generalize hrun : startedRun X s.journal inputHash configHash = run at hi
    have hseq : run.sequence = s.journal.nextRunSequence := by rw [← hrun]; rfl
    generalize u.journal = k at hi
    cases hi
    exact Journal.latestRun_append hseq

theorem adds_appendClusterRevision {runId clusterId revisionHash : String} {object : Object}
    {Q : Journal → Prop} (hA : ∀ j row, A j (.revision row))
    (hQ : ∀ j k, P j → j.Inserted (.revision ⟨runId, clusterId, revisionHash, object⟩) k → Q k) :
    Adds A P (appendClusterRevision faults runId clusterId revisionHash object) fun _ => Q := by
  refine Advances.bind adds_check fun _ => ?_
  refine Advances.bind adds_check fun _ => ?_
  refine Advances.bind adds_attemptIo fun _ => ?_
  exact adds_insertRow (fun j _ => hA j _) hQ

theorem adds_appendApproval {runId kind target targetHash : String} {object : Object}
    (hA : ∀ j, P j → A j (.approval ⟨runId, kind, target, targetHash, object⟩)) :
    Adds A P (appendApproval faults runId kind target targetHash object) fun _ _ => True := by
  refine Advances.bind adds_check fun _ => ?_
  refine Advances.bind adds_check fun _ => ?_
  refine Advances.bind adds_check fun _ => ?_
  refine Advances.bind adds_attemptIo fun _ => ?_
  exact adds_insertRow hA fun _ _ _ _ => trivial

theorem adds_appendClusterRegeneration {request : ClusterRegenerationRequest}
    {Q : Journal → Prop}
    (hA : ∀ j run, P j → j.latestRun = some run →
      A j (.feedback ⟨run.runId, request.clusterId, request⟩))
    (hQ : ∀ j run k, P j → j.latestRun = some run →
      j.Inserted (.feedback ⟨run.runId, request.clusterId, request⟩) k → Q k) :
    Adds A P (appendClusterRegeneration X faults request) fun _ => Q := by
  refine Advances.bind adds_check fun _ => ?_
  refine Advances.bind adds_latestRun fun found => ?_
  cases found with
  | none => exact Advances.fail
  | some run =>
    refine Advances.bind adds_check fun _ => ?_
    refine Advances.bind adds_attemptIo fun _ => ?_
    exact adds_insertRow (fun j hj => hA j run hj.2 hj.1) fun j k hj => hQ j run k hj.2 hj.1

theorem adds_storeApprovedIntegrationPlan {runId : String} {plan : ApprovedIntegrationPlan}
    {Q : Journal → Prop}
    (hA : ∀ j, validatePlan X plan = .ok () → P j →
      A j (.plan ⟨runId, plan.integrationPlanId, planObjectHash X plan, plan⟩))
    (hQ : ∀ j k, P j →
      j.Inserted (.plan ⟨runId, plan.integrationPlanId, planObjectHash X plan, plan⟩) k → Q k) :
    Adds A P (storeApprovedIntegrationPlan X faults runId plan) fun _ => Q := by
  refine Advances.bind (Q := fun _ j => validatePlan X plan = .ok () ∧ P j)
    (Advances.lift fun _ _ h hj => ⟨liftCore_eq_ok.mp h, hj⟩) fun _ =>
      Advances.assuming fun hv => ?_
  refine Advances.bind adds_attemptIo fun _ => ?_
  exact adds_insertRow (fun j hj => hA j hv hj) hQ

theorem adds_sealLatestIntegrationPlan
    (hA : ∀ j runId plan, P j → j.sealedPlan X = .ok (some (runId, plan)) →
      validatePlan X plan = .ok () →
      A j (.plan ⟨runId, plan.integrationPlanId, planObjectHash X plan, plan⟩)) :
    Adds A P (sealLatestIntegrationPlan X faults) fun _ _ => True := by
  refine Advances.bind (Q := fun found j => j.sealedPlan X = .ok found ∧ P j)
    (adds_query fun _ _ hs ha => ⟨ha, hs⟩) fun found => ?_
  cases found with
  | none => exact Advances.pure fun _ _ => trivial
  | some found =>
    obtain ⟨runId, plan⟩ := found
    refine Advances.bind (adds_storeApprovedIntegrationPlan
      (fun j hv hj => hA j runId plan hj.2 hj.1 hv) fun _ _ _ _ => trivial) fun _ => ?_
    exact Advances.pure fun _ _ => trivial

theorem planRow_spec {j : Journal} {row : PlanRow} (h : j.planRow = some row) :
    ∃ run, j.latestRun = some run ∧ row ∈ j.plans ∧ row.runId = run.runId := by
  obtain ⟨run, hrun, hrow⟩ := Option.bind_eq_some_iff.mp h
  exact ⟨run, hrun, mem_of_latest hrow, by simpa using prop_of_latest hrow⟩

theorem adds_recordVerifiedOutput {path : String} {manifest : CompiledVaultManifest}
    (hA : ∀ j row, P j → (∃ p ∈ j.plans, p.runId = row.runId) → A j (.verified row)) :
    Adds A P (recordVerifiedOutput X faults path manifest) fun _ _ => True := by
  refine Advances.bind adds_latestRun fun found => ?_
  cases found with
  | none => exact Advances.fail
  | some run =>
    refine Advances.bind (Q := fun approved j => j.latestRun = some run ∧ P j ∧
        (∀ plan, approved = some plan → ∃ p ∈ j.plans, p.runId = run.runId))
      (adds_query fun s approved hs ha => ⟨hs.1, hs.2, fun plan hp => ?_⟩) fun approved => ?_
    · subst hp
      obtain ⟨row, hrow, -⟩ := latestApproved_iff.mp ha
      obtain ⟨run', hrun, hmem, hid⟩ := planRow_spec hrow
      obtain rfl := Option.some.inj (hs.1.symm.trans hrun)
      exact ⟨row, hmem, hid⟩
    · cases approved with
      | none => exact ⟨fun s _ => Relation.ReflTransGen.refl⟩
      | some plan =>
        refine Advances.bind adds_check fun _ => ?_
        refine Advances.bind adds_attemptIo fun _ => ?_
        exact adds_insertRow (fun j hj => hA j _ hj.2.1 (hj.2.2 plan rfl)) fun _ _ _ _ => trivial

/-! ## Configuration changes -/

/-- The rows of a configuration change. -/
structure Configures (A : Journal → Row → Prop) : Prop where
  run : ∀ j row, row.sequence = j.nextRunSequence → A j (.run row)
  sourceSet : ∀ j row, A j (.sourceSet row)
  projectEvent : ∀ j kind, A j (.projectEvent kind)

theorem grows_invalidated (hA : Configures A) {next : ProjectManifest} {s t : Project}
    (h : invalidated X next s = .ok t) : Journal.Grows A s.journal t.journal := by
  unfold invalidated at h
  obtain ⟨u, hu, h⟩ := bind_eq_ok.mp h
  have hgu := Journal.Grows.insert Relation.ReflTransGen.refl (hA.projectEvent _ _)
    (insert_eq_ok.mp hu).1
  cases hr : u.journal.latestRun with
  | none =>
    rw [hr] at h
    cases h
    exact hgu
  | some active =>
    rw [hr] at h
    dsimp only at h
    split at h
    · exact hgu.insert (hA.run _ _ rfl) (insert_eq_ok.mp h).1
    · cases h
      exact hgu

theorem grows_sourcesReplaced (hA : Configures A) {next : ProjectManifest} {s t : Project}
    (h : sourcesReplaced X next s = .ok t) : Journal.Grows A s.journal t.journal := by
  unfold sourcesReplaced at h
  obtain ⟨u, hu, h⟩ := bind_eq_ok.mp h
  obtain ⟨v, hv, ht⟩ := bind_eq_ok.mp h
  have hgu := Journal.Grows.insert Relation.ReflTransGen.refl (hA.run _ _ rfl)
    (insert_eq_ok.mp hu).1
  have hgv := hgu.insert (hA.sourceSet _ _) (insert_eq_ok.mp hv).1
  exact hgv.insert (hA.projectEvent _ _) (insert_eq_ok.mp ht).1

theorem adds_transaction {f : Project → Except AppError Project}
    (hf : ∀ s t, f s = .ok t → Journal.Grows A s.journal t.journal) :
    Adds A (fun _ => True) (commit faults fun s => (f s).map fun t => ((), t))
      fun _ _ => True := by
  refine adds_commit fun s a t _ ha => ?_
  cases hv : f s with
  | error e => simp [hv, Except.map] at ha
  | ok u =>
    simp only [hv, Except.map, Except.ok.injEq, Prod.mk.injEq, true_and] at ha
    exact ha ▸ ⟨hf s u hv, trivial⟩

theorem adds_memory {Q : ProjectManifest → Journal → Prop} (h : ∀ m j, P j → Q m j) :
    Adds A P memory Q := ⟨fun _ hs => ⟨Relation.ReflTransGen.refl, h _ _ hs⟩⟩

theorem adds_saveManifestValue {next : ProjectManifest} :
    Adds A P (saveManifestValue faults next) fun _ => P := by
  refine Advances.bind adds_attemptIo fun _ => ?_
  refine Advances.bind (Q := fun _ => P) (adds_commit fun s a t hs ha => ?_) fun _ => adds_attemptIo
  obtain ⟨-, rfl⟩ := Prod.mk.inj (Except.ok.inj ha)
  exact ⟨Relation.ReflTransGen.refl, hs⟩

theorem adds_setMemory {next : ProjectManifest} : Adds A P (setMemory next) fun _ => P :=
  ⟨fun _ hs => ⟨Relation.ReflTransGen.refl, hs⟩⟩

theorem adds_commitConfiguration (hA : Configures A) {next : ProjectManifest} :
    Adds A (fun _ => True) (commitConfiguration X faults next) fun _ _ => True := by
  refine Advances.bind adds_check fun _ => ?_
  refine Advances.bind (adds_transaction fun s t h => grows_invalidated hA h) fun _ => ?_
  exact Advances.bind adds_saveManifestValue fun _ => adds_setMemory

theorem adds_replaceSources (hA : Configures A) {checks : SourceChecks} {explicit : Bool}
    {sources : List SourceBinding} :
    Adds A (fun _ => True) (replaceSources X faults checks explicit sources) fun _ _ => True := by
  refine Advances.bind adds_attemptIo fun _ => ?_
  refine Advances.bind (Q := fun _ _ => True) (Advances.lift fun _ _ _ h => h) fun selected => ?_
  refine Advances.bind adds_check fun _ => ?_
  refine Advances.bind (adds_memory (Q := fun _ _ => True) fun _ _ h => h) fun m => ?_
  split
  · exact Advances.pure fun _ h => h
  · refine Advances.bind adds_check fun _ => ?_
    refine Advances.bind adds_attemptIo fun _ => ?_
    refine Advances.bind (adds_transaction fun s t h => grows_sourcesReplaced hA h) fun _ => ?_
    exact Advances.bind adds_saveManifestValue fun _ => adds_setMemory

theorem adds_change (hA : Configures A) {checks : SourceChecks} (change : Change) :
    Adds A (fun _ => True) (change.run X faults checks) fun _ _ => True := by
  cases change with
  | setLanguage language =>
    refine Advances.bind adds_attemptIo fun _ => ?_
    refine Advances.bind adds_check fun _ => ?_
    refine Advances.bind (adds_memory (Q := fun _ _ => True) fun _ _ h => h) fun m => ?_
    split
    · exact Advances.pure fun _ h => h
    · exact adds_commitConfiguration hA
  | setAiRoute role profile =>
    refine Advances.bind adds_attemptIo fun _ => ?_
    refine Advances.bind (adds_memory (Q := fun _ _ => True) fun _ _ h => h) fun m => ?_
    refine Advances.bind (Q := fun _ _ => True) (Advances.lift fun _ _ _ h => h) fun routes => ?_
    split
    · exact Advances.pure fun _ h => h
    · exact adds_commitConfiguration hA
  | replaceSources explicit sources => exact adds_replaceSources hA
  | addSource explicit binding =>
    refine Advances.bind (adds_memory (Q := fun _ _ => True) fun _ _ h => h) fun m => ?_
    refine Advances.bind adds_check fun _ => ?_
    refine Advances.bind adds_check fun _ => ?_
    exact adds_replaceSources hA
  | rebindSource explicit sourceId path snapshotId =>
    refine Advances.bind (adds_memory (Q := fun _ _ => True) fun _ _ h => h) fun m => ?_
    split
    · exact Advances.fail
    · split
      · exact Advances.pure fun _ h => h
      · exact adds_replaceSources hA

end

/-! ## Reviews -/

section

variable {X : Externals} {G : Drafts} {faults : Faults} {l : List (RunRecord × Registration)}

/-- The rows that the services insert beside the registrations `l`. -/
abbrev Serving (X : Externals) (G : Drafts) (l : List (RunRecord × Registration)) :
    Journal → Row → Prop := fun j => Served X G ⟨j, l⟩

theorem configures_serving : Configures (Serving X G l) where
  run _ _ h := .run h
  sourceSet _ _ := .sourceSet
  projectEvent _ _ := .projectEvent

theorem adds_seal {P : Journal → Prop} :
    Adds (Serving X G l) P (sealLatestIntegrationPlan X faults) fun _ _ => True :=
  adds_sealLatestIntegrationPlan fun _ _ _ _ hs hv => .plan hs hv

theorem adds_approveTaxonomy {editedClusters : Option (List TaxonomyCluster)}
    {rationale : Option String} :
    Adds (Serving X G l) (fun _ => True) (approveTaxonomy X faults editedClusters rationale)
      fun _ _ => True := by
  refine Advances.bind adds_openProject fun manifest => Advances.assuming fun hvalid => ?_
  refine Advances.bind adds_attemptIo fun _ => ?_
  refine Advances.bind adds_requireRun fun run => ?_
  refine Advances.bind (Q := fun proposed j => j.latestTaxonomy = .ok proposed ∧
      j.latestRun = some run) (adds_query fun _ _ hs ha => ⟨ha, hs.1⟩) fun proposed => ?_
  refine Advances.bind (Q := fun approved j =>
      reviewedTaxonomy X manifest proposed editedClusters rationale = .ok approved ∧
        j.latestTaxonomy = .ok proposed ∧ j.latestRun = some run)
    (Advances.lift fun _ _ h hj => ⟨h, hj⟩) fun approved => Advances.assuming fun happroved => ?_
  refine Advances.bind (adds_appendApproval fun j hj => ?_) fun _ => Advances.pure fun _ h => h
  exact .taxonomy hj.2 hvalid hj.1 happroved

theorem adds_requestClusterRegeneration {clusterId feedback : String} :
    Adds (Serving X G l) (fun _ => True) (requestClusterRegeneration X faults clusterId feedback)
      fun request j => ∃ run, j.latestRun = some run ∧
        ∃ row ∈ j.feedback, row.runId = run.runId ∧ row.clusterId = clusterId ∧
          row.request = request := by
  refine Advances.bind adds_check fun _ => ?_
  refine Advances.bind adds_openProject fun manifest => Advances.assuming fun _ => ?_
  refine Advances.bind adds_attemptIo fun _ => ?_
  refine Advances.bind adds_requireRun fun run => ?_
  refine Advances.bind (Q := fun output j =>
      j.completedCluster clusterId "cluster has no complete revision" = .ok output ∧
      j.latestRun = some run) (adds_query fun _ _ hs ha => ⟨ha, hs.1⟩) fun output => ?_
  have hQ : ∀ (j : Journal) run' k, (j.completedCluster clusterId "cluster has no complete revision" =
      .ok output ∧ j.latestRun = some run) → j.latestRun = some run' →
      j.Inserted (.feedback ⟨run'.runId, clusterId,
        regenerationRequest X clusterId feedback output⟩) k →
      k.latestRun = some run ∧ ∃ row ∈ k.feedback, row.runId = run.runId ∧
        row.clusterId = clusterId ∧ row.request =
          regenerationRequest X clusterId feedback output := by
    intro j run' k hj hrun hi
    obtain rfl := Option.some.inj (hj.2.symm.trans hrun)
    cases hi
    exact ⟨hrun, _, List.mem_append_right _ List.mem_cons_self, rfl, rfl, rfl⟩
  refine Advances.bind (adds_appendClusterRegeneration (fun j run' hj hrun => ?_) hQ) fun _ => ?_
  · obtain rfl := Option.some.inj (hj.2.symm.trans hrun)
    exact .feedback hrun hj.1
  refine Advances.bind (Q := fun old j =>
      j.latestApproval Object.asApprovedRevision run.runId "cluster" clusterId = .ok old ∧
      (j.latestRun = some run ∧ ∃ row ∈ j.feedback, row.runId = run.runId ∧
        row.clusterId = clusterId ∧ row.request =
          regenerationRequest X clusterId feedback output))
    (adds_query fun _ _ hs ha => ⟨ha, hs⟩) fun old => ?_
  cases old with
  | none => exact Advances.pure fun j hj => ⟨run, hj.2⟩
  | some old =>
    refine Advances.bind (Q := fun _ j => ∃ run, j.latestRun = some run ∧
      ∃ row ∈ j.feedback, row.runId = run.runId ∧ row.clusterId = clusterId ∧
        row.request = regenerationRequest X clusterId feedback output) ?_ fun _ =>
          Advances.pure fun _ h => h
    refine Advances.bind (Q := fun _ j => j.latestApproval Object.asApprovedRevision run.runId
        "cluster" clusterId = .ok (some old) ∧
        (j.latestRun = some run ∧ ∃ row ∈ j.feedback, row.runId = run.runId ∧
          row.clusterId = clusterId ∧ row.request =
            regenerationRequest X clusterId feedback output)) adds_check fun _ => ?_
    refine Advances.bind adds_check fun _ => ?_
    refine Advances.bind adds_check fun _ => ?_
    refine Advances.bind adds_attemptIo fun _ => ?_
    refine adds_insertRow (fun j hj => .stale hj.1) fun j k hj hi => ?_
    cases hi
    exact ⟨run, hj.2⟩

theorem adds_approveCluster {clusterId : String} {decision : ClusterReviewDecision} :
    Adds (Serving X G l) (fun _ => True) (approveCluster X faults clusterId decision)
      fun _ _ => True := by
  refine Advances.bind adds_openProject fun manifest => Advances.assuming fun hvalid => ?_
  refine Advances.bind adds_attemptIo fun _ => ?_
  refine Advances.bind adds_requireRun fun run => ?_
  refine Advances.bind (Q := fun output j =>
      j.completedCluster clusterId "cluster has no complete critic report" = .ok output ∧
      j.latestRun = some run) (adds_query fun _ _ hs ha => ⟨ha, hs.1⟩) fun output => ?_
  refine Advances.bind (Q := fun approved j =>
      reviewedRevision X manifest output decision = .ok approved ∧
      j.completedCluster clusterId "cluster has no complete critic report" = .ok output ∧
      j.latestRun = some run)
    (Advances.lift fun _ _ h hj => ⟨h, hj⟩) fun approved => Advances.assuming fun happroved => ?_
  refine Advances.bind (adds_appendClusterRevision (fun _ _ => .revision)
    (Q := fun j => j.completedCluster clusterId "cluster has no complete critic report" =
      .ok output ∧ j.latestRun = some run) fun j k hj hi => ?_) fun _ => ?_
  · cases hi
    exact hj
  refine Advances.bind (adds_appendApproval fun j hj => ?_) fun _ => ?_
  · exact .cluster hj.2 hvalid hj.1 happroved
  · exact Advances.bind adds_seal fun _ => Advances.pure fun _ h => h

theorem adds_checkpoint {profilesExist : Except AppError Bool} {outputVerified : String → Bool} :
    Adds (Serving X G l) (fun _ => True) (checkpoint X faults profilesExist outputVerified)
      fun _ _ => True := by
  refine Advances.bind adds_openProject fun manifest => Advances.assuming fun _ => ?_
  refine Advances.bind (Q := fun _ _ => True) (adds_query fun _ _ h _ => h) fun reached => ?_
  cases reached with
  | some reached => exact Advances.pure fun _ h => h
  | none =>
    refine Advances.bind adds_attemptIo fun _ => ?_
    exact Advances.bind adds_seal fun _ => Advances.pure fun _ h => h

end

/-! ## Stages -/

/-- Every draft that the environment's providers answer with meets the condition. -/
structure Environment.Admits {X : Externals} (env : Environment X) (G : Drafts) : Prop where
  synthesis : ∀ run approved cluster texts regeneration name output draft,
    env.Answers name (synthesisRequest run approved cluster texts regeneration) output →
      env.synthesisDraft output = .ok draft → G.synthesis approved cluster draft
  critic : ∀ run approved cluster texts proposal name output findings,
    env.Answers name (criticRequest run approved cluster texts proposal) output →
      env.criticDraft output = .ok findings → G.critic approved cluster proposal findings

theorem Environment.admits_any {X : Externals} (env : Environment X) : env.Admits .any :=
  ⟨fun _ _ _ _ _ _ _ _ _ _ => trivial, fun _ _ _ _ _ _ _ _ _ _ => trivial⟩

section

variable {X : Externals} {G : Drafts} {faults : Faults} {P : Ledger → Prop}
  {env : Environment X} {run : RunRecord} {findings : SensitiveScan}
  {allowRemoteProvider confirmed : Bool} {prepared : PreparedCorpus X}

/-- The stage has its task, which is not complete. -/
abbrev Underway (X : Externals) (run : RunRecord) (r : Registration) (task : TaskState)
    (P : Ledger → Prop) (b : Ledger) : Prop := Filed X b run r task.task ∧ P b

theorem stable_underway {r : Registration} {task : TaskState} (hP : Stable P) :
    Stable (Underway X run r task P) :=
  stable_filed.and hP

theorem writes_underway {α : Type} {r : Registration} {task : TaskState} {stage : Stage α}
    {Q : α → Ledger → Prop} (h : Writes X G (Underway X run r task P) stage Q) :
    Writes X G (fun b => (Filed X b run r task.task ∧ (task.status = .complete → ∀ response,
      task.response = some response → b.journal.Responds task.task.taskId response)) ∧ P b)
      stage Q :=
  h.mono (fun _ hb => ⟨hb.1.1, hb.2⟩) fun _ _ hb => hb

/-- A computation that reads no state. -/
theorem writes_lift {α : Type} {x : Except AppError α} :
    Writes X G P (Act.lift x) fun a b => x = .ok a ∧ P b :=
  Advances.lift fun _ _ h hb => ⟨h, hb⟩

theorem writes_recordPreflight (hP : Stable P) :
    Writes X G P (recordPreflight X faults run prepared.corpus) fun _ => P := by
  refine Advances.bind (writes_register hP fun _ _ => .preflight prepared) fun task => ?_
  split
  · refine (writes_underway (writes_completeTask (stable_underway hP) fun b hb =>
      ⟨hb.1.stored, .bytes _⟩)).mono (fun _ hb => hb) fun _ _ hb => hb.2.2
  · exact Advances.pure fun _ hb => hb.2

theorem writes_runEmbeddingTask (hP : Stable P) {name : String} {profile : ProviderProfile}
    {disclosed : List DocumentId} :
    Writes X G P (runEmbeddingTask X faults env run findings allowRemoteProvider confirmed prepared
      name profile disclosed) fun _ => P := by
  refine Advances.bind (writes_register hP fun _ _ => .embedding prepared name profile)
    fun task => ?_
  split
  · exact Advances.lift fun _ _ _ hb => hb.2
  refine writes_underway ?_
  refine Advances.bind writes_lift fun client => Advances.assuming fun _ => ?_
  refine Advances.bind writes_lift fun _ => Advances.assuming fun _ => ?_
  refine Advances.bind (writes_askProvider (stable_underway hP)) fun response =>
    Advances.assuming fun _ => ?_
  refine Advances.bind (writes_recordExchange (stable_underway hP)) fun _ => ?_
  refine Advances.bind (writes_completeTask (stable_recorded.and (stable_underway hP)) fun b hb =>
    ⟨hb.2.1.stored, .value _⟩) fun _ => ?_
  exact Advances.pure fun _ hb => hb.2.2.2

theorem writes_runCandidateTask (hP : Stable P) {corpus : IntegrationCorpus} {embeddings : Value} :
    Writes X G P (runCandidateTask X faults env run corpus embeddings) fun _ => P := by
  refine Advances.bind (writes_register hP fun _ _ => .candidates embeddings) fun task => ?_
  split
  · exact Advances.lift fun _ _ _ hb => hb.2
  refine writes_underway ?_
  refine Advances.bind (writes_status (by decide) (stable_underway hP)) fun _ => ?_
  refine Advances.bind writes_lift fun candidates => Advances.assuming fun _ => ?_
  refine Advances.bind (writes_completeTask (stable_underway hP) fun b hb =>
    ⟨hb.1.stored, .value _⟩) fun _ => ?_
  exact Advances.pure fun _ hb => hb.2.2

theorem writes_runOrganizerTask (hP : Stable P) {candidates : List Value} {name : String}
    {profile : ProviderProfile} {disclosed : List DocumentId} :
    Writes X G P (runOrganizerTask X faults env run findings allowRemoteProvider confirmed prepared
      candidates name profile disclosed) fun _ => P := by
  refine Advances.bind (writes_register hP fun _ _ => .organizer prepared candidates name profile)
    fun task => ?_
  split
  · exact Advances.lift fun _ _ _ hb => hb.2
  refine writes_underway ?_
  refine Advances.bind (writes_generate (stable_underway hP)) fun out => ?_
  obtain ⟨response, recordingHash⟩ := out
  refine Advances.assuming fun _ => ?_
  refine Advances.bind writes_lift fun clusters => Advances.assuming fun _ => ?_
  refine Advances.bind writes_lift fun taxonomy => Advances.assuming fun hseal => ?_
  refine Advances.bind (writes_completeTask (stable_recorded.and (stable_underway hP)) fun b hb =>
    ⟨hb.2.1.stored, ?_⟩) fun _ => Advances.pure fun _ hb => hb.2.2.2
  exact .organizer (liftCore_eq_ok.mp hseal) (hb.2.1.runId ▸ hb.1)

section

variable {approved : ApprovedTaxonomy} {cluster : TaxonomyCluster} {name : String}
  {profile : ProviderProfile}

theorem asProposal_eq_ok {object : Object} {p : SynthesisProposal} :
    object.asProposal = .ok p ↔ object = .proposal p := by
  cases object <;> simp [Object.asProposal]

/-- **The first half of a cluster's tasks** leaves its proposal as a response. -/
theorem writes_runSynthesisTask (hP : Stable P) (henv : env.Admits G)
    (hcluster : cluster ∈ approved.taxonomy.clusters)
    {regeneration : Option ClusterRegenerationRequest} :
    Writes X G (fun b => Approved b prepared.corpus approved ∧ P b)
      (runSynthesisTask X faults env run findings allowRemoteProvider confirmed approved cluster
        prepared.blockTexts name profile regeneration) fun proposal b =>
          ProposedFor X b run approved cluster prepared.blockTexts proposal ∧
            Approved b prepared.corpus approved ∧ P b := by
  have hA : Stable fun b => Approved b prepared.corpus approved ∧ P b := stable_approved.and hP
  refine Advances.bind (writes_register hA fun b hb =>
    .synthesis name profile regeneration hb.1 hcluster) fun task => ?_
  split
  · rename_i hcomplete
    refine Advances.lift fun proposal b h hb => ⟨?_, hb.2⟩
    obtain ⟨-, object, hobject, hdecode⟩ := completeTaskResponse_eq_ok.mp h
    obtain rfl := asProposal_eq_ok.mp hdecode
    exact .mk name profile regeneration task.task hb.1.1 (hb.1.2 hcomplete _ hobject)
  refine writes_underway ?_
  refine Advances.bind (writes_generate (stable_underway hA)) fun out => ?_
  obtain ⟨response, recordingHash⟩ := out
  refine Advances.assuming fun hanswer => ?_
  refine Advances.bind writes_lift fun draft => Advances.assuming fun hdraft => ?_
  refine Advances.bind (writes_completeTask (stable_recorded.and (stable_underway hA)) fun b hb =>
    ⟨hb.2.1.stored, ?_⟩) fun _ => Advances.pure fun b hb => ?_
  · exact .synthesis hb.2.2.1 hcluster hb.2.1 (hb.2.1.runId ▸ hb.1)
      (henv.synthesis _ _ _ _ _ _ _ _ hanswer hdraft)
  · exact ⟨.mk name profile regeneration task.task hb.2.2.1 hb.1, hb.2.2.2⟩

/-- **The second half of a cluster's tasks** leaves the output as a response. -/
theorem writes_runCriticTask (hP : Stable P) (henv : env.Admits G)
    (hcluster : cluster ∈ approved.taxonomy.clusters) {proposal : SynthesisProposal} :
    Writes X G (fun b => ProposedFor X b run approved cluster prepared.blockTexts proposal ∧
        Approved b prepared.corpus approved ∧ P b)
      (runCriticTask X faults env run findings allowRemoteProvider confirmed approved cluster
        prepared.blockTexts name profile prepared.corpus proposal) fun output b =>
          (∃ task, Filed X b run (criticRegistration X run approved cluster name profile
              prepared.corpus prepared.blockTexts proposal) task ∧
            b.journal.Responds task.taskId (.clusterOutput output)) ∧ P b := by
  have hA : Stable fun b => ProposedFor X b run approved cluster prepared.blockTexts proposal ∧
      Approved b prepared.corpus approved ∧ P b :=
    stable_proposedFor.and (stable_approved.and hP)
  refine Advances.bind (writes_register hA fun b hb =>
    .critic name profile hb.2.1 hcluster hb.1) fun task => ?_
  split
  · rename_i hcomplete
    refine Advances.lift fun output b h hb => ⟨⟨task.task, hb.1.1, ?_⟩, hb.2.2.2⟩
    obtain ⟨-, object, hobject, hdecode⟩ := completeTaskResponse_eq_ok.mp h
    obtain rfl := asClusterOutput_eq_ok.mp hdecode
    exact hb.1.2 hcomplete _ hobject
  refine writes_underway ?_
  refine Advances.bind (writes_generate (stable_underway hA)) fun out => ?_
  obtain ⟨response, recordingHash⟩ := out
  refine Advances.assuming fun hanswer => ?_
  refine Advances.bind writes_lift fun draft => Advances.assuming fun hdraft => ?_
  refine Advances.bind (writes_completeTask (stable_recorded.and (stable_underway hA)) fun b hb =>
    ⟨hb.2.1.stored, ?_⟩) fun _ => Advances.pure fun b hb => ?_
  · exact .critic hb.2.2.2.1 hcluster hb.2.1 hb.2.2.1 (hb.2.1.runId ▸ hb.1)
      (henv.critic _ _ _ _ _ _ _ _ hanswer hdraft)
  · exact ⟨⟨task.task, hb.2.2.1, hb.1⟩, hb.2.2.2.2.2⟩

/-- **The tasks of a cluster.** -/
theorem writes_runClusterTasks (hP : Stable P) (henv : env.Admits G)
    (hcluster : cluster ∈ approved.taxonomy.clusters) {routes : AiRouteConfig}
    {config : ProviderConfig} :
    Writes X G (fun b => Approved b prepared.corpus approved ∧ P b)
      (runClusterTasks X faults env run findings allowRemoteProvider confirmed routes config
        prepared approved cluster) fun output b =>
          (∃ name profile proposal task, ProposedFor X b run approved cluster prepared.blockTexts
              proposal ∧ Filed X b run (criticRegistration X run approved cluster name profile
                prepared.corpus prepared.blockTexts proposal) task ∧
            b.journal.Responds task.taskId (.clusterOutput output)) ∧
          Approved b prepared.corpus approved ∧ P b := by
  have hA : Stable fun b => Approved b prepared.corpus approved ∧ P b := stable_approved.and hP
  refine Advances.bind (Q := fun _ b => Approved b prepared.corpus approved ∧ P b)
    (writes_within fun l => adds_attemptIo) fun _ => ?_
  refine Advances.bind (Advances.lift (Q := fun _ b => Approved b prepared.corpus approved ∧ P b)
    fun _ _ _ hb => hb) fun synthesisProfile => ?_
  refine Advances.bind (Q := fun _ b => Approved b prepared.corpus approved ∧ P b)
    (writes_within fun l => adds_query fun _ _ hs _ => hs) fun regeneration => ?_
  refine Advances.bind (writes_runSynthesisTask hP henv hcluster) fun proposal => ?_
  refine Advances.bind (Advances.lift (Q := fun _ b =>
      ProposedFor X b run approved cluster prepared.blockTexts proposal ∧
        Approved b prepared.corpus approved ∧ P b) fun _ _ _ hb => hb) fun criticProfile => ?_
  have hproposed : Stable fun b =>
      ProposedFor X b run approved cluster prepared.blockTexts proposal ∧
        Approved b prepared.corpus approved ∧ P b := stable_proposedFor.and hA
  refine (writes_runCriticTask hproposed henv hcluster).mono
    (fun _ hb => ⟨hb.1, hb.2.1, hb⟩) fun output b hb => ?_
  obtain ⟨⟨task, hfiled, hresponds⟩, hp, hb⟩ := hb
  exact ⟨⟨_, _, proposal, task, hp, hfiled, hresponds⟩, hb⟩

end

theorem writes_runClusters (hP : Stable P) (henv : env.Admits G) {approved : ApprovedTaxonomy}
    {routes : AiRouteConfig} {config : ProviderConfig} :
    ∀ {clusters : List TaxonomyCluster}, clusters ⊆ approved.taxonomy.clusters →
      Writes X G (fun b => Approved b prepared.corpus approved ∧ P b)
        (runClusters X faults env run findings allowRemoteProvider confirmed routes config prepared
          approved clusters) fun _ => P
  | [], _ => Advances.pure fun _ hb => hb.2
  | cluster :: rest, hsub => by
    have hA : Stable fun b => Approved b prepared.corpus approved ∧ P b := stable_approved.and hP
    refine Advances.bind (Q := fun _ b => Approved b prepared.corpus approved ∧ P b)
      ((writes_runClusterTasks hP henv (hsub List.mem_cons_self)).mono (fun _ hb => hb)
        fun _ _ hb => hb.2) fun output => ?_
    refine Advances.bind (Q := fun _ b => Approved b prepared.corpus approved ∧ P b)
      (writes_within fun l => adds_query fun _ _ hs _ => hs) fun approval => ?_
    refine Advances.bind (writes_runClusters hP henv fun _ h => hsub (List.mem_cons_of_mem _ h))
      fun completed => Advances.pure fun _ hb => hb

theorem writes_runApproved (henv : env.Admits G) {approved : ApprovedTaxonomy}
    {routes : AiRouteConfig} {config : ProviderConfig} {base : IntegrationExecution} :
    Writes X G (fun b => Approved b prepared.corpus approved)
      (runApproved X faults env run findings allowRemoteProvider confirmed routes config prepared
        base approved) fun _ _ => True := by
  have hT : Stable fun _ => True := fun _ _ _ h => h
  refine Advances.bind (Advances.lift (Q := fun _ b => Approved b prepared.corpus approved)
    fun _ _ _ hb => hb) fun _ => ?_
  refine Advances.bind ((writes_runClusters hT henv fun _ h => h).mono (fun _ hb => ⟨hb, trivial⟩)
    fun _ _ hb => hb) fun completed => ?_
  split
  · exact Advances.pure fun _ h => h
  · refine Advances.bind (Q := fun _ _ => True) (writes_within fun l => adds_seal) fun plan => ?_
    cases plan with
    | none => exact Advances.fail
    | some plan => exact Advances.pure fun _ h => h

theorem writes_beginOrResumeRun {inputHash configHash : String} :
    Writes X G (fun _ => True) (within (beginOrResumeRun X faults inputHash configHash))
      fun _ _ => True :=
  writes_within fun _ => (adds_beginOrResumeRun (P := fun _ => True) (fun _ _ => .run rfl)
    fun _ _ _ h => h).mono (fun _ h => h) fun _ _ _ => trivial

/-- An approval that is read is a row. -/
theorem approvalRow_of_latest {j : Journal} {runId : String}
    {record : ApprovalRecord ApprovedTaxonomy}
    (h : j.latestApproval Object.asApprovedTaxonomy runId "taxonomy" "taxonomy" =
      .ok (some record)) :
    ∃ row ∈ j.approvals, row.approvalKind = "taxonomy" ∧
      row.object = .approvedTaxonomy record.value := by
  obtain ⟨row, hrow, -, hdecode⟩ := latestApproval_eq_some h
  have hp := prop_of_latest hrow
  simp only [Bool.and_eq_true, decide_eq_true_eq] at hp
  exact ⟨row, mem_of_latest hrow, hp.1.2, asApprovedTaxonomy_eq_ok.mp hdecode⟩

/-- **`execute`** writes only what `Moved` lists. -/
theorem writes_execute (henv : env.Admits G) :
    Writes X G (fun _ => True) (execute X faults env allowRemoteProvider confirmed)
      fun _ _ => True := by
  have hT : Stable fun _ => True := fun _ _ _ h => h
  have hlift : ∀ {α : Type} {x : Except AppError α},
      Writes X G (fun _ => True) (Act.lift x) fun _ _ => True := Advances.lift fun _ _ _ h => h
  have hio : Writes X G (fun _ => True) (within (attemptIo faults)) fun _ _ => True :=
    writes_within fun _ => adds_attemptIo
  refine Advances.bind hio fun _ => ?_
  refine Advances.bind (Q := fun _ _ => True) (writes_within fun _ =>
    adds_openProject.mono (fun _ h => h) fun _ _ _ => trivial) fun manifest => ?_
  refine Advances.bind hio fun _ => ?_
  refine Advances.bind hlift fun _ => ?_
  refine Advances.bind hlift fun prepared => ?_
  refine Advances.bind hio fun _ => ?_
  refine Advances.bind writes_beginOrResumeRun fun run => ?_
  refine Advances.bind (writes_recordPreflight hT) fun _ => ?_
  refine Advances.bind hlift fun config => ?_
  refine Advances.bind hlift fun _ => ?_
  refine Advances.bind hlift fun embeddingProfile => ?_
  refine Advances.bind (writes_runEmbeddingTask hT) fun embeddings => ?_
  refine Advances.bind hio fun _ => ?_
  refine Advances.bind (writes_runCandidateTask hT) fun candidates => ?_
  refine Advances.bind hlift fun organizerProfile => ?_
  refine Advances.bind (writes_runOrganizerTask hT) fun _ => ?_
  refine Advances.bind hlift fun bytes => ?_
  refine Advances.bind (Q := fun approval b => ∀ record, approval = some record →
      ∃ row ∈ b.journal.approvals, row.approvalKind = "taxonomy" ∧
        row.object = .approvedTaxonomy record.value)
    (writes_within fun _ => adds_query fun s approval _ ha record hr =>
      approvalRow_of_latest (hr ▸ ha)) fun approval => ?_
  dsimp only
  split
  · exact Advances.pure fun _ _ => trivial
  · rename_i record hcurrent
    obtain ⟨hsome, hp⟩ := Option.filter_eq_some_iff.mp hcurrent
    rw [Bool.and_eq_true, decide_eq_true_eq, decide_eq_true_eq] at hp
    exact (writes_runApproved henv).mono (fun b hb => ⟨hb record hsome, hp.2⟩) fun _ _ h => h

/-- **`preflight`** writes only what `Moved` lists. -/
theorem writes_preflight :
    Writes X G (fun _ => True) (preflight X faults env) fun _ _ => True := by
  have hT : Stable fun _ => True := fun _ _ _ h => h
  have hlift : ∀ {α : Type} {x : Except AppError α},
      Writes X G (fun _ => True) (Act.lift x) fun _ _ => True := Advances.lift fun _ _ _ h => h
  have hio : Writes X G (fun _ => True) (within (attemptIo faults)) fun _ _ => True :=
    writes_within fun _ => adds_attemptIo
  refine Advances.bind hio fun _ => ?_
  refine Advances.bind (Q := fun _ _ => True) (writes_within fun _ =>
    adds_openProject.mono (fun _ h => h) fun _ _ _ => trivial) fun manifest => ?_
  refine Advances.bind hio fun _ => ?_
  refine Advances.bind hlift fun prepared => ?_
  refine Advances.bind hio fun _ => ?_
  refine Advances.bind writes_beginOrResumeRun fun run => ?_
  refine Advances.bind (writes_recordPreflight hT) fun _ => ?_
  refine Advances.bind hlift fun config => ?_
  refine Advances.bind hlift fun routes => ?_
  refine Advances.bind hlift fun bytes => ?_
  exact Advances.pure fun _ h => h

end

/-! ## Histories -/

inductive Operation (X : Externals) : Type 1
  /-- A store handle with this manifest in memory. -/
  | useStore (manifest : ProjectManifest)
  | change (checks : SourceChecks) (request : Change)
  | beginOrResumeRun (inputHash configHash : String)
  | sealLatestIntegrationPlan
  | recordVerifiedOutput (path : String) (manifest : CompiledVaultManifest)
  | approveTaxonomy (editedClusters : Option (List TaxonomyCluster)) (rationale : Option String)
  | requestClusterRegeneration (clusterId feedback : String)
  | approveCluster (clusterId : String) (decision : ClusterReviewDecision)
  | checkpoint (profilesExist : Except AppError Bool) (outputVerified : String → Bool)
  | preflight (env : Environment X)
  | execute (env : Environment X) (allowRemoteProvider confirmed : Bool)
  | registerTask (run : RunRecord) (stage : TaskStage) (cacheKey : TaskCacheKey) (request : Bytes)
  | appendTaskStatus (taskId : String) (status : TaskStatus) (response : Option Object)
      (errorKind : Option String)
  | recordExchange (runId taskId : String) (recording : Bytes)
  | appendClusterRevision (runId clusterId revisionHash : String) (object : Object)
  | appendApproval (row : ApprovalRow)
  | appendClusterRegeneration (request : ClusterRegenerationRequest)
  | storeApprovedIntegrationPlan (runId : String) (plan : ApprovedIntegrationPlan)

namespace Operation

/-- The call, less the value it returns. -/
def run (X : Externals) (faults : Faults) : Operation X → Stage Unit
  | useStore manifest => within (setMemory manifest)
  | .change checks request => within (request.run X faults checks)
  | beginOrResumeRun inputHash configHash => within do
    let _ ← App.beginOrResumeRun X faults inputHash configHash
  | sealLatestIntegrationPlan => within do let _ ← App.sealLatestIntegrationPlan X faults
  | recordVerifiedOutput path manifest => within (App.recordVerifiedOutput X faults path manifest)
  | approveTaxonomy editedClusters rationale => within do
    let _ ← App.approveTaxonomy X faults editedClusters rationale
  | requestClusterRegeneration clusterId feedback => within do
    let _ ← App.requestClusterRegeneration X faults clusterId feedback
  | approveCluster clusterId decision => within do
    let _ ← App.approveCluster X faults clusterId decision
  | checkpoint profilesExist outputVerified => within do
    let _ ← App.checkpoint X faults profilesExist outputVerified
  | preflight env => do let _ ← App.preflight X faults env
  | execute env allowRemoteProvider confirmed => do
    let _ ← App.execute X faults env allowRemoteProvider confirmed
  | registerTask run stage cacheKey request => within do
    let _ ← App.registerTask X faults run stage cacheKey request
  | appendTaskStatus taskId status response errorKind => within do
    let _ ← App.appendTaskStatus faults taskId status response errorKind
  | recordExchange runId taskId recording => within do
    let _ ← App.recordExchange X faults runId taskId recording
  | appendClusterRevision runId clusterId revisionHash object =>
    within (App.appendClusterRevision faults runId clusterId revisionHash object)
  | appendApproval row => within
    (App.appendApproval faults row.runId row.approvalKind row.targetId row.targetHash row.object)
  | appendClusterRegeneration request => within (App.appendClusterRegeneration X faults request)
  | storeApprovedIntegrationPlan runId plan =>
    within (App.storeApprovedIntegrationPlan X faults runId plan)

variable {X : Externals}

/-- An operation of the services, whose providers' drafts all meet the condition. -/
def Serves (G : Drafts) : Operation X → Prop
  | execute env _ _ => env.Admits G
  | registerTask .. | appendTaskStatus .. | recordExchange .. | appendClusterRevision .. => False
  | appendApproval .. | appendClusterRegeneration .. | storeApprovedIntegrationPlan .. => False
  | _ => True

/-- The approvals and the regenerations that are stored directly meet the conditions. -/
def Respects (approval : ApprovalRow → Prop)
    (regeneration : Journal → ClusterRegenerationRequest → Prop) (s : Session) :
    Operation X → Prop
  | appendApproval row => approval row
  | appendClusterRegeneration request => regeneration s.project.journal request
  | _ => True

theorem Respects.mono {a b : ApprovalRow → Prop}
    {g h : Journal → ClusterRegenerationRequest → Prop} (hab : ∀ row, a row → b row)
    (hgh : ∀ j request, g j request → h j request) {s : Session} {op : Operation X}
    (hop : op.Respects a g s) : op.Respects b h s := by
  cases op with
  | appendApproval row => exact hab row hop
  | appendClusterRegeneration request => exact hgh _ request hop
  | _ => trivial

end Operation

/-- An operation as a step. -/
def Session.step (X : Externals) (faults : Faults) (s : Session) (op : Operation X) :
    Option Session :=
  some (op.run X faults s).2

def Session.create (manifest : ProjectManifest) : Session := ⟨.create manifest, []⟩

section

variable {X : Externals} {G : Drafts} {faults : Faults}

theorem project_within {α : Type} {op : Op α} {s : Session} :
    (within op s).2.project = (op s.project).2 := by
  unfold within
  cases op s.project
  rfl

theorem project_within_void {α : Type} {op : Op α} {s : Session} :
    (within (do let _ ← op) s).2.project = (op s.project).2 := by
  unfold within
  cases h : op s.project with
  | mk r t =>
    cases r with
    | ok a => rw [Act.bind_ok h]; rfl
    | error e => rw [Act.bind_error h]

/-- An operation whose result is dropped. -/
theorem adds_void {α : Type} {A : Journal → Row → Prop} {P : Journal → Prop} {op : Op α}
    {Q : α → Journal → Prop} (h : Adds A P op Q) :
    Adds A P (do let _ ← op) fun _ _ => True :=
  Advances.bind h fun _ => Advances.pure fun _ _ => trivial

theorem writes_op {op : Op Unit} {Q : Unit → Journal → Prop}
    (h : ∀ l, Adds (Serving X G l) (fun _ => True) op Q) :
    Writes X G (fun _ => True) (within op) fun _ _ => True :=
  writes_within fun l => (h l).mono (fun _ h => h) fun _ _ _ => trivial

/-- **Every service operation** writes only what `Moved` lists. -/
theorem writes_operation {op : Operation X} (h : op.Serves G) :
    Writes X G (fun _ => True) (op.run X faults) fun _ _ => True := by
  cases op with
  | useStore manifest => exact writes_op fun _ => adds_setMemory
  | change checks request => exact writes_op fun _ => adds_change configures_serving request
  | beginOrResumeRun inputHash configHash =>
    exact writes_op fun _ => adds_void (adds_beginOrResumeRun (fun _ _ => Served.run rfl)
      fun _ _ _ h => h)
  | sealLatestIntegrationPlan => exact writes_op fun _ => adds_void adds_seal
  | recordVerifiedOutput path manifest =>
    exact writes_op fun _ => adds_recordVerifiedOutput fun _ _ _ h => Served.verified h
  | approveTaxonomy editedClusters rationale =>
    exact writes_op fun _ => adds_void adds_approveTaxonomy
  | requestClusterRegeneration clusterId feedback =>
    exact writes_op fun _ => adds_void adds_requestClusterRegeneration
  | approveCluster clusterId decision => exact writes_op fun _ => adds_void adds_approveCluster
  | checkpoint profilesExist outputVerified => exact writes_op fun _ => adds_void adds_checkpoint
  | preflight env => exact Advances.bind writes_preflight fun _ => Advances.pure fun _ _ => trivial
  | execute env allowRemoteProvider confirmed =>
    exact Advances.bind (writes_execute h) fun _ => Advances.pure fun _ _ => trivial
  | _ => exact h.elim

theorem moved_of_step {s t : Session} {op : Operation X} (h : op.Serves G)
    (hs : s.step X faults op = some t) :
    Relation.ReflTransGen (Moved X G) s.ledger t.ledger := by
  obtain rfl := Option.some.inj hs
  exact (writes_operation h).moves trivial

/-- **A history of service operations** is a sequence of writes. -/
theorem moved_of_reaches {s t : Session}
    (h : Reaches (Session.step X faults) (fun _ op => op.Serves G) s t) :
    Relation.ReflTransGen (Moved X G) s.ledger t.ledger :=
  h.invariant (I := fun t => Relation.ReflTransGen (Moved X G) s.ledger t.ledger)
    (fun _ _ _ hI hop hs => hI.trans (moved_of_step hop hs)) Relation.ReflTransGen.refl

/-! ### Any history -/

variable {approval : ApprovalRow → Prop}
  {regeneration : Journal → ClusterRegenerationRequest → Prop}

/-- The rows that any operation inserts, with the conditions on those stored directly. -/
inductive Recorded (X : Externals) (approval : ApprovalRow → Prop)
    (regeneration : Journal → ClusterRegenerationRequest → Prop) (j : Journal) : Row → Prop
  | served {l row} (served : Served X .any ⟨j, l⟩ row) : Recorded X approval regeneration j row
  | task {row} : Recorded X approval regeneration j (.task row)
  | event {row} : Recorded X approval regeneration j (.event row)
  | exchange {row} : Recorded X approval regeneration j (.exchange row)
  | revision {row} : Recorded X approval regeneration j (.revision row)
  | approval {row} (meets : approval row) : Recorded X approval regeneration j (.approval row)
  | plan {runId plan} (valid : validatePlan X plan = .ok ()) :
      Recorded X approval regeneration j
        (.plan ⟨runId, plan.integrationPlanId, planObjectHash X plan, plan⟩)
  | feedback {run request} (latest : j.latestRun = some run) (meets : regeneration j request) :
      Recorded X approval regeneration j (.feedback ⟨run.runId, request.clusterId, request⟩)

theorem grows_of_moved {b c : Ledger} (h : Relation.ReflTransGen (Moved X .any) b c) :
    Journal.Grows (Recorded X approval regeneration) b.journal c.journal := by
  induction h with
  | refl => exact Relation.ReflTransGen.refl
  | tail _ hm ih =>
    cases hm with
    | insert hserved hi => exact ih.insert (.served hserved) (Journal.insert_of_inserted hi)
    | note _ => exact ih

theorem grows_of_adds {s : Session} {op : Op Unit} {P : Journal → Prop} {Q : Unit → Journal → Prop}
    (h : Adds (Recorded X approval regeneration) P op Q) (hs : P s.project.journal) :
    Journal.Grows (Recorded X approval regeneration) s.project.journal
      (within op s).2.project.journal :=
  h.moves (s := s.project) hs

theorem grows_of_step {s t : Session} {op : Operation X}
    (h : op.Respects approval regeneration s) (hs : s.step X faults op = some t) :
    Journal.Grows (Recorded X approval regeneration) s.project.journal t.project.journal := by
  have hserved : op.Serves .any → Journal.Grows (Recorded X approval regeneration)
      s.project.journal t.project.journal := fun hop => grows_of_moved (moved_of_step hop hs)
  obtain rfl := Option.some.inj hs
  cases op with
  | execute env allowRemoteProvider confirmed => exact hserved env.admits_any
  | registerTask run stage cacheKey request =>
    exact grows_of_adds (adds_void (adds_registerTask (fun _ _ _ _ _ => .task)
      fun _ _ _ => .event)) trivial
  | appendTaskStatus taskId status response errorKind =>
    exact grows_of_adds (adds_void (adds_appendTaskStatus (P := fun _ => True)
      (Q := fun _ => True) (fun _ _ => .event) fun _ _ _ _ => trivial)) trivial
  | recordExchange runId taskId recording =>
    exact grows_of_adds (adds_void (adds_recordExchange (P := fun _ => True)
      (fun _ _ => .exchange) fun _ _ _ h => h)) trivial
  | appendClusterRevision runId clusterId revisionHash object =>
    exact grows_of_adds (adds_appendClusterRevision (P := fun _ => True) (Q := fun _ => True)
      (fun _ _ => .revision) fun _ _ _ _ => trivial) trivial
  | appendApproval row =>
    exact grows_of_adds (adds_appendApproval (P := fun _ => True) fun _ _ => .approval h) trivial
  | appendClusterRegeneration request =>
    exact grows_of_adds (adds_appendClusterRegeneration (P := fun j => regeneration j request)
      (Q := fun _ => True) (fun _ _ hj hrun => .feedback hrun hj) fun _ _ _ _ _ _ => trivial) h
  | storeApprovedIntegrationPlan runId plan =>
    exact grows_of_adds (adds_storeApprovedIntegrationPlan (P := fun _ => True)
      (Q := fun _ => True) (fun _ hv _ => .plan hv) fun _ _ _ _ => trivial) trivial
  | _ => exact hserved trivial

/-- **Any history** grows the journal by such rows. -/
theorem grows_of_reaches {s t : Session}
    (h : Reaches (Session.step X faults) (fun s op => op.Respects approval regeneration s) s t) :
    Journal.Grows (Recorded X approval regeneration) s.project.journal t.project.journal := by
  induction h with
  | refl => exact Relation.ReflTransGen.refl
  | tail _ hm ih =>
    obtain ⟨op, hop, hs⟩ := hm
    exact ih.trans (grows_of_step hop hs)

end

end Okc.App
