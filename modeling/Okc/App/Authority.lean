import Okc.App.Progress
import Okc.Core.Bulk

/-!
# Old authority stays dead

Whatever the operations and their order, a change of the manifest and a new run end what was
approved, sealed and verified before.

* `Journal.Forgets j k`: no row of `j` belongs to the latest run of `k`. A run takes the next
  number and a new identity, so what a journal forgets it forgets for good (`Forgets.grows`).
* `Journal.Since`: what the queries return rests on rows appended since.
* A regeneration request binds the plans of its run (`Regenerated`) as long as the direct calls of
  the store keep two rules of the services: a request does not lower the revision asked for, and an
  approval of a cluster is one of its own revisions.

Results:
* `authority_never_returns`.
* `regeneration_lowered`: without the first rule a plan keeps a revision older than requested.
-/

namespace Okc.App

open Okc.Lib Okc.Core

namespace Journal

/-! ## Forgetting -/

/-- No row of `j` belongs to the latest run of `k`. -/
structure Forgets (j k : Journal) : Prop where
  approvals : ∀ run, k.latestRun = some run → ∀ row ∈ j.approvals, row.runId ≠ run.runId
  plans : ∀ run, k.latestRun = some run → ∀ row ∈ j.plans, row.runId ≠ run.runId
  verified : ∀ run, k.latestRun = some run → ∀ row ∈ j.verified, row.runId ≠ run.runId

/-- Every run took the next number. -/
def Numbered (j : Journal) : Row → Prop
  | .run row => row.sequence = j.nextRunSequence
  | _ => True

/-- **The latest run is the old one or one that the old journal does not know.** -/
theorem Grows.latestRun {P : Journal → Row → Prop} (hP : ∀ j row, P j row → Numbered j row)
    {j k : Journal} (h : Grows P j k) :
    k.latestRun = j.latestRun ∨ ∀ run, k.latestRun = some run → ¬ j.HasRun run.runId := by
  have hinv := h.invariant (I := fun k => j.Extends k ∧
    (k.latestRun = j.latestRun ∨ ∀ run, k.latestRun = some run → ¬ j.HasRun run.runId))
    (fun k row l hI hrow hi => ?_) ⟨.refl j, .inl rfl⟩
  · exact hinv.2
  · obtain ⟨hext, hlatest⟩ := hI
    refine ⟨hext.trans hi.extends, ?_⟩
    have hn := hP k row hrow
    cases hi with
    | @run new hid hs =>
      refine .inr fun run hrun hold => ?_
      have hnew : some run = some new := hrun.symm.trans (latestRun_append hn)
      obtain rfl := Option.some.inj hnew
      exact hid (hold.mono hext)
    | _ => exact hlatest

/-- What has no row of the old journal. -/
theorem forgets_of_unknown {j k : Journal} (hj : j.Intact)
    (h : ∀ run, k.latestRun = some run → ¬ j.HasRun run.runId) : j.Forgets k where
  approvals run hrun row hrow he := h run hrun (he ▸ hj.approvals row hrow)
  plans run hrun row hrow he := h run hrun (he ▸ hj.plans row hrow)
  verified run hrun row hrow he := h run hrun (he ▸ hj.verified row hrow)

theorem Forgets.of_extends {i j k : Journal} (h : j.Forgets k) (he : i.Extends j) :
    i.Forgets k where
  approvals run hrun row hrow := h.approvals run hrun row (he.approvals.subset hrow)
  plans run hrun row hrow := h.plans run hrun row (he.plans.subset hrow)
  verified run hrun row hrow := h.verified run hrun row (he.verified.subset hrow)

/-- **What is forgotten stays forgotten.** -/
theorem Forgets.grows {P : Journal → Row → Prop} (hP : ∀ j row, P j row → Numbered j row)
    {i j k : Journal} (hj : j.Intact) (h : i.Forgets j) (he : i.Extends j) (hg : Grows P j k) :
    i.Forgets k := by
  rcases hg.latestRun hP with hsame | hnew
  · exact ⟨fun run hrun => h.approvals run (hsame ▸ hrun), fun run hrun => h.plans run (hsame ▸ hrun),
      fun run hrun => h.verified run (hsame ▸ hrun)⟩
  · exact (forgets_of_unknown hj hnew).of_extends he

/-- A verified output has a plan of its run. -/
def Planned (j : Journal) : Prop := ∀ row ∈ j.verified, ∃ p ∈ j.plans, p.runId = row.runId

/-- A bare journal has nothing of its latest run. -/
theorem Bare.forgets {j : Journal} (h : j.Bare) (hp : j.Planned) : j.Forgets j where
  approvals run hrun := (h run hrun).1
  plans run hrun := (h run hrun).2
  verified run hrun row hrow he := by
    obtain ⟨p, hmem, hid⟩ := hp row hrow
    exact (h run hrun).2 p hmem (hid.trans he)

/-! ## What is returned rests on rows appended since -/

/-- The approvals that a plan is sealed from were recorded since `j`. -/
structure ApprovedSince (j k : Journal) (plan : ApprovedIntegrationPlan) : Prop where
  taxonomy : ∃ row ∈ k.approvals.drop j.approvals.length, row.approvalKind = "taxonomy" ∧
    row.object = .approvedTaxonomy ⟨plan.corpus, plan.taxonomy, plan.taxonomyApproval⟩
  revisions : ∀ r ∈ plan.clusters, ∃ row ∈ k.approvals.drop j.approvals.length,
    row.approvalKind = "cluster" ∧ row.object = .approvedRevision r

/-- What the queries of `k` return was stored, sealed and verified since `j`. -/
structure Since (X : Externals) (j k : Journal) : Prop where
  stored : ∀ plan, k.latestApprovedIntegrationPlan X = .ok (some plan) →
    (∃ row ∈ k.plans.drop j.plans.length, row.plan = plan) ∧ ApprovedSince j k plan
  sealed : ∀ runId plan, k.sealedPlan X = .ok (some (runId, plan)) → ApprovedSince j k plan
  verified : ∀ path, k.latestVerifiedOutput X = .ok (some path) →
    ∃ row ∈ k.verified.drop j.verified.length, row.outputPath = path

/-- A query for rows of the latest run finds one of those appended since. -/
theorem latest_since {α : Type} {p : α → Bool} {rows more : List α} {row : α}
    (hext : rows <+: more) (hold : ∀ r ∈ rows, p r = false) (h : latest p more = some row) :
    row ∈ more.drop rows.length := by
  obtain ⟨new, rfl⟩ := hext
  rw [List.drop_left]
  exact mem_of_latest (latest_of_new hold h)

theorem approval_since {α : Type} {decode : Object → Except AppError α} {j k : Journal}
    {runId kind target : String} {record : ApprovalRecord α} (hext : j.Extends k)
    (hold : ∀ row ∈ j.approvals, row.runId ≠ runId)
    (h : k.latestApproval decode runId kind target = .ok (some record)) :
    ∃ row ∈ k.approvals.drop j.approvals.length, row.approvalKind = kind ∧
      decode row.object = .ok record.value := by
  obtain ⟨row, hrow, -, hdecode⟩ := latestApproval_eq_some h
  have hp := prop_of_latest hrow
  simp only [Bool.and_eq_true, decide_eq_true_eq] at hp
  exact ⟨row, latest_since hext.approvals (fun r hr => by simp [hold r hr]) hrow, hp.1.2, hdecode⟩

/-- What a current plan rests on was approved since. -/
theorem approvedSince_of_current {j k : Journal} {runId : String} {plan : ApprovedIntegrationPlan}
    (hext : j.Extends k) (hold : ∀ row ∈ j.approvals, row.runId ≠ runId)
    (ht : k.CarriesTaxonomy runId (planTaxonomy plan))
    (hr : ∀ r ∈ plan.clusters, ∃ clusterId, k.Carries runId clusterId r) :
    ApprovedSince j k plan where
  taxonomy := by
    obtain ⟨row, hrow, hkind, hdecode⟩ := approval_since hext hold ht
    exact ⟨row, hrow, hkind, asApprovedTaxonomy_eq_ok.mp hdecode⟩
  revisions r hmem := by
    obtain ⟨clusterId, hc⟩ := hr r hmem
    obtain ⟨row, hrow, hkind, hdecode⟩ := approval_since hext hold hc.approval
    exact ⟨row, hrow, hkind, asApprovedRevision_eq_ok.mp hdecode⟩

/-- **What is forgotten gives no authority.** -/
theorem Forgets.since {X : Externals} {j k : Journal} (h : j.Forgets k) (hext : j.Extends k) :
    Since X j k where
  stored plan hp := by
    obtain ⟨row, hrow, rfl, -, -, -, hc⟩ := latestApproved_iff.mp hp
    obtain ⟨run, hrun, -, hid⟩ := planRow_spec hrow
    unfold planRow at hrow
    rw [hrun] at hrow
    obtain ⟨ht, hr⟩ := planCurrent_iff.mp hc
    refine ⟨⟨row, latest_since hext.plans (fun r hr => by simp [h.plans run hrun r hr]) hrow, rfl⟩,
      approvedSince_of_current hext ?_ ht fun r hmem => ⟨_, hr r hmem⟩⟩
    exact hid ▸ h.approvals run hrun
  sealed runId plan hs := by
    obtain ⟨run, approved, revisions, hrun, rfl, ht, hr, hseal⟩ := sealedPlan_iff.mp hs
    have hsealed := sealed_spec hseal
    refine approvedSince_of_current hext (h.approvals run hrun) (hsealed.taxonomy ▸ ht) ?_
    intro r hmem
    obtain ⟨cluster, -, hc⟩ := exists_of_forall₂ hr r (hsealed.mem_clusters.mp hmem)
    exact ⟨_, hc.1⟩
  verified path hv := by
    obtain ⟨plan, hp, hv⟩ := bind_eq_ok.mp hv
    cases plan with
    | none => cases hv
    | some plan =>
      obtain ⟨row, hrow, rfl⟩ := Option.map_eq_some_iff.mp (Except.ok.inj hv)
      obtain ⟨run, hrun, hrow⟩ := Option.bind_eq_some_iff.mp hrow
      exact ⟨row, latest_since hext.verified
        (fun r hr => by simp [h.verified run hrun r hr]) hrow, rfl⟩

end Journal

/-! ## Changes and new runs -/

section

variable {X : Externals} {faults : Faults} {approval : ApprovalRow → Prop}
  {regeneration : Journal → ClusterRegenerationRequest → Prop}

theorem numbered_of_recorded {j : Journal} {row : Row}
    (h : Recorded X approval regeneration j row) : j.Numbered row := by
  cases h with
  | served hs =>
    cases hs with
    | run hseq => exact hseq
    | _ => trivial
  | _ => trivial

/-- Verified outputs are recorded beside a plan of their run. -/
theorem planned_of_grows {j k : Journal}
    (h : Journal.Grows (Recorded X approval regeneration) j k) (hj : j.Planned) : k.Planned := by
  refine h.invariant (fun j row k hI hrow hi => ?_) hj
  have hkeep : ∀ r ∈ j.verified, ∃ p ∈ k.plans, p.runId = r.runId := fun r hr => by
    obtain ⟨p, hp, he⟩ := hI r hr
    exact ⟨p, hi.extends.plans.subset hp, he⟩
  cases hi with
  | verified _ =>
    intro r hr
    rcases List.mem_append.mp hr with hr | hr
    · exact hkeep r hr
    · obtain rfl := List.mem_singleton.mp hr
      cases hrow with
      | served hs =>
        cases hs with
        | verified hp => exact hp
  | _ => exact hkeep

/-- What ends the authority of what came before: a changed manifest, a run begun for other inputs,
or any other new run. -/
inductive Session.Supersedes (X : Externals) (faults : Faults) (s t : Session) :
    Operation X → Prop
  | manifest {checks request}
      (changed : t.project.disk ≠ s.project.disk ∨ t.project.manifest ≠ s.project.manifest) :
      Supersedes X faults s t (.change checks request)
  | begun {inputHash configHash run}
      (differs : ∀ run, s.project.journal.latestRun = some run →
        run.inputHash ≠ inputHash ∨ run.configHash ≠ configHash)
      (begun : (beginOrResumeRun X faults inputHash configHash s.project).1 = .ok run) :
      Supersedes X faults s t (.beginOrResumeRun inputHash configHash)
  | newRun {op} (newer : t.project.journal.latestRun ≠ s.project.journal.latestRun) :
      Supersedes X faults s t op

/-- A call of `begin_or_resume_run` that returns leaves a run with its hashes. -/
theorem latestRun_of_begun {s : Project} {inputHash configHash : String} {run : RunRecord}
    (h : (beginOrResumeRun X faults inputHash configHash s).1 = .ok run) :
    (beginOrResumeRun X faults inputHash configHash s).2.journal.latestRun = some run ∧
      run.inputHash = inputHash ∧ run.configHash = configHash := by
  have hspec : Adds (fun _ _ => True) (fun _ => True)
      (beginOrResumeRun X faults inputHash configHash) fun run j =>
        (j.latestRun = some run ∧ run.inputHash = inputHash ∧ run.configHash = configHash) ∧
          True := adds_beginOrResumeRun (fun _ _ => trivial) fun _ _ _ h => h
  exact (hspec.ok trivial (Prod.ext h rfl)).1

/-- **A change or a new run forgets what was there**, and keeps it forgotten. -/
theorem forgets_of_supersedes {s t : Session} {op : Operation X} {k : Journal}
    (hplanned : s.project.journal.Planned) (hs : s.step X faults op = some t)
    (hop : s.Supersedes X faults t op)
    (hk : Journal.Grows (Recorded X approval regeneration) t.project.journal k) :
    s.project.journal.Forgets k := by
  have hst : Journal.Grows (Recorded X (fun _ => True) fun _ _ => True) s.project.journal
      t.project.journal :=
    grows_of_step (by cases op <;> trivial) hs
  have hnumbered : ∀ j row, Recorded X approval regeneration j row → j.Numbered row :=
    fun _ _ => numbered_of_recorded
  have hext : s.project.journal.Extends t.project.journal := hst.extends
  suffices hnow : s.project.journal.Forgets t.project.journal from
    hnow.grows hnumbered t.project.intact hext hk
  have hnew : t.project.journal.latestRun ≠ s.project.journal.latestRun →
      s.project.journal.Forgets t.project.journal := by
    intro hne
    rcases hst.latestRun fun _ _ => numbered_of_recorded with hsame | hunknown
    · exact absurd hsame hne
    · exact Journal.forgets_of_unknown s.project.intact hunknown
  cases hop with
  | manifest changed =>
    refine (Journal.Bare.forgets ?_ (planned_of_grows hst hplanned)).of_extends hext
    obtain rfl := Option.some.inj hs
    exact bare_of_change rfl changed
  | begun differs begun =>
    refine hnew fun hsame => ?_
    obtain ⟨hrun, hinput, hconfig⟩ := latestRun_of_begun begun
    obtain rfl := Option.some.inj hs
    rw [Operation.run, project_within_void] at hsame
    rcases differs _ (hsame ▸ hrun) with h | h
    · exact h hinput
    · exact h hconfig
  | newRun newer => exact hnew newer

/-! ## A request binds its run -/

/-- An approval of a cluster holds a revision of that cluster. -/
def OwnRevision (row : ApprovalRow) : Prop :=
  row.approvalKind = "cluster" → ∀ r, row.object = .approvedRevision r →
    r.proposal.clusterId = row.targetId

/-- The request asks for no revision below the one last asked for. -/
def NotLowered (j : Journal) (request : ClusterRegenerationRequest) : Prop :=
  ∀ run old, j.latestRun = some run →
    j.latestClusterRegeneration run.runId request.clusterId = some old →
      old.revision ≤ request.revision

/-- What the two rules keep: approvals hold revisions of their clusters, and the latest request for
a cluster asks for the greatest revision. -/
structure Journal.Regenerated (j : Journal) : Prop where
  own : ∀ row ∈ j.approvals, OwnRevision row
  greatest : ∀ row ∈ j.feedback, ∃ latest,
    j.latestClusterRegeneration row.runId row.clusterId = some latest ∧
      row.request.revision ≤ latest.revision

theorem Journal.Regenerated.own_latest {j : Journal} (h : j.Regenerated)
    {runId clusterId : String} {record : ApprovalRecord ApprovedClusterRevision}
    (hr : j.latestApproval Object.asApprovedRevision runId "cluster" clusterId =
      .ok (some record)) : record.value.proposal.clusterId = clusterId := by
  obtain ⟨row, hrow, -, hdecode⟩ := latestApproval_eq_some hr
  have hp := prop_of_latest hrow
  simp only [Bool.and_eq_true, decide_eq_true_eq] at hp
  rw [h.own row (mem_of_latest hrow) hp.1.2 _ (asApprovedRevision_eq_ok.mp hdecode), hp.2]

/-- The approvals that are recorded hold revisions of their clusters. -/
theorem own_of_recorded {j : Journal} {row : ApprovalRow} (hj : j.Regenerated)
    (h : Recorded X OwnRevision NotLowered j (.approval row)) : OwnRevision row := by
  cases h with
  | approval meets => exact meets
  | served hs =>
    intro hkind r hobject
    cases hs with
    | taxonomy => simp at hkind
    | cluster latest valid completed reviewed =>
      obtain rfl := Object.approvedRevision.inj hobject
      obtain ⟨hid, -⟩ := completed_spec completed
      exact (reviewed_of_reviewedRevision reviewed).proposal ▸ hid
    | stale latest =>
      obtain rfl := Object.approvedRevision.inj hobject
      exact hj.own_latest latest

/-- The requests that are recorded do not lower the revision asked for. -/
theorem notLowered_of_recorded {j : Journal} {row : FeedbackRow}
    (h : Recorded X OwnRevision NotLowered j (.feedback row)) :
    ∀ old, j.latestClusterRegeneration row.runId row.clusterId = some old →
      old.revision ≤ row.request.revision := by
  intro old hold
  cases h with
  | feedback latest meets => exact meets _ old latest hold
  | served hs =>
    cases hs with
    | feedback latest completed =>
      obtain ⟨hid, run, taxonomy, hrun, -, hout⟩ := completed_spec completed
      obtain rfl := Option.some.inj (latest.symm.trans hrun)
      have := superseded_eq_false.mp hout.current old (hid ▸ hold)
      exact this.trans (Nat.le_succ _)

theorem regenerated_of_grows {j k : Journal}
    (h : Journal.Grows (Recorded X OwnRevision NotLowered) j k) (hj : j.Regenerated) :
    k.Regenerated := by
  refine h.invariant (fun j row k hI hrow hi => ?_) hj
  cases hi with
  | approval _ =>
    refine ⟨fun row hmem => ?_, hI.greatest⟩
    rcases List.mem_append.mp hmem with hmem | hmem
    · exact hI.own row hmem
    · exact List.mem_singleton.mp hmem ▸ own_of_recorded hI hrow
  | @feedback new _ =>
    refine ⟨hI.own, fun row hmem => ?_⟩
    have hlast := notLowered_of_recorded hrow
    unfold Journal.latestClusterRegeneration at hlast ⊢
    rw [latest_concat]
    by_cases hsame : (new.runId = row.runId && new.clusterId = row.clusterId) = true
    · rw [if_pos hsame]
      rw [Bool.and_eq_true, decide_eq_true_eq, decide_eq_true_eq] at hsame
      refine ⟨new.request, rfl, ?_⟩
      rcases List.mem_append.mp hmem with hmem | hmem
      · obtain ⟨latest, hl, hle⟩ := hI.greatest row hmem
        rw [hsame.1, hsame.2] at hlast
        exact hle.trans (hlast latest hl)
      · exact List.mem_singleton.mp hmem ▸ le_refl _
    · rw [if_neg hsame]
      rcases List.mem_append.mp hmem with hmem | hmem
      · exact hI.greatest row hmem
      · obtain rfl := List.mem_singleton.mp hmem
        simp at hsame
  | _ => exact ⟨hI.own, hI.greatest⟩

/-- Every plan that is returned carries, for the cluster, only revisions from this one on. -/
structure Journal.Binds (X : Externals) (j : Journal) (clusterId : String) (revision : Nat) :
    Prop where
  stored : ∀ plan, j.latestApprovedIntegrationPlan X = .ok (some plan) →
    ∀ r ∈ plan.clusters, r.proposal.clusterId = clusterId → revision ≤ r.proposal.revision
  sealed : ∀ runId plan, j.sealedPlan X = .ok (some (runId, plan)) →
    ∀ r ∈ plan.clusters, r.proposal.clusterId = clusterId → revision ≤ r.proposal.revision

theorem Journal.Regenerated.binds {j : Journal} (h : j.Regenerated) {run : RunRecord}
    (hrun : j.latestRun = some run) {row : FeedbackRow} (hrow : row ∈ j.feedback)
    (hid : row.runId = run.runId) : j.Binds X row.clusterId row.request.revision := by
  obtain ⟨latest, hlatest, hle⟩ := h.greatest row hrow
  have hcarried : ∀ r, j.Carries run.runId row.clusterId r →
      row.request.revision ≤ r.proposal.revision := fun r hc =>
    hle.trans (superseded_eq_false.mp hc.current latest (hid ▸ hlatest))
  constructor
  · intro plan hp r hr hcluster
    obtain ⟨planRow, hplanRow, rfl, -, -, -, hc⟩ := latestApproved_iff.mp hp
    obtain ⟨run', hrun', -, hid'⟩ := planRow_spec hplanRow
    obtain rfl := Option.some.inj (hrun.symm.trans hrun')
    exact hcarried r (hcluster ▸ hid' ▸ (planCurrent_iff.mp hc).2 r hr)
  · intro runId plan hs r hr hcluster
    obtain ⟨run', approved, revisions, hrun', rfl, -, hr', hseal⟩ := sealedPlan_iff.mp hs
    obtain rfl := Option.some.inj (hrun.symm.trans hrun')
    obtain ⟨cluster, -, hc, -⟩ :=
      exists_of_forall₂ hr' r ((sealed_spec hseal).mem_clusters.mp hr)
    have hown : r.proposal.clusterId = cluster.clusterId := h.own_latest hc.approval
    exact hcarried r (by rw [← hcluster, hown]; exact hc)

/-- **Old authority never returns.** After a change of the manifest or a new run, whatever follows,
nothing that was stored, sealed or verified before is returned. After a regeneration request, in its
run, every returned plan carries only revisions of the cluster from the requested one on, as long
as direct calls of the store keep the two rules. -/
theorem authority_never_returns (X : Externals) (faults : Faults) (manifest : ProjectManifest) :
    (∀ s t u op, Reaches (Session.step X faults) (fun _ _ => True) (.create manifest) s →
      s.step X faults op = some t → s.Supersedes X faults t op →
      Reaches (Session.step X faults) (fun _ _ => True) t u →
        Journal.Since X s.project.journal u.project.journal) ∧
    (∀ s t u clusterId feedback request,
      Reaches (Session.step X faults) (fun s op => op.Respects OwnRevision NotLowered s)
        (.create manifest) s →
      (requestClusterRegeneration X faults clusterId feedback s.project).1 = .ok request →
      s.step X faults (.requestClusterRegeneration clusterId feedback) = some t →
      Reaches (Session.step X faults) (fun s op => op.Respects OwnRevision NotLowered s) t u →
      u.project.journal.latestRun = t.project.journal.latestRun →
        u.project.journal.Binds X clusterId request.revision) := by
  constructor
  · intro s t u op hs hst hop htu
    have hall : ∀ {s t : Session}, Reaches (Session.step X faults) (fun _ _ => True) s t →
        Journal.Grows (Recorded X (fun _ => True) fun _ _ => True) s.project.journal
          t.project.journal := fun h =>
      grows_of_reaches (h.mono fun _ op _ => by cases op <;> trivial)
    have hplanned := planned_of_grows (hall hs) fun row hrow => absurd hrow List.not_mem_nil
    have hforgets := forgets_of_supersedes hplanned hst hop (hall htu)
    refine hforgets.since (Journal.Extends.trans ?_ (hall htu).extends)
    exact (hall (Relation.ReflTransGen.single ⟨op, trivial, hst⟩)).extends
  · intro s t u clusterId feedback request hs hrequest hst htu hsame
    have hempty : (Session.create manifest).project.journal.Regenerated :=
      ⟨fun row hrow => absurd hrow List.not_mem_nil, fun row hrow => absurd hrow List.not_mem_nil⟩
    have hsu := hs.trans (Relation.ReflTransGen.head
      ⟨.requestClusterRegeneration clusterId feedback, trivial, hst⟩ htu)
    have hu := regenerated_of_grows (grows_of_reaches hsu) hempty
    have hspec := @adds_requestClusterRegeneration X .any faults s.registered clusterId feedback
    have ht : t.project = (requestClusterRegeneration X faults clusterId feedback s.project).2 := by
      obtain rfl := Option.some.inj hst
      exact project_within_void
    obtain ⟨run, hrun, row, hrow, hid, rfl, rfl⟩ :
        ∃ run, t.project.journal.latestRun = some run ∧ ∃ row ∈ t.project.journal.feedback,
          row.runId = run.runId ∧ row.clusterId = clusterId ∧ row.request = request := by
      rw [ht]
      exact hspec.ok trivial (Prod.ext hrequest rfl)
    exact hu.binds (hsame.trans hrun) ((grows_of_reaches htu).extends.feedback.subset hrow) hid

end

/-! ## A request that is lowered -/

def plainManifest : ProjectManifest where
  formatFamily := "okc"
  schemaVersion := 3
  name := "notes"
  curatorId := "curator"
  policyVersion := "1"
  language := none
  aiRoutes := .initial
  sources := []

theorem plainManifest_valid : ValidManifest plainManifest where
  formatFamily := rfl
  schemaVersion := rfl
  name := by decide
  curatorId := by decide
  policyVersion := by decide
  nameSafe := forall_of_all (by decide)
  curatorSafe := forall_of_all (by decide)
  policySafe := forall_of_all (by decide)
  language := by simp [plainManifest]
  aiRoutes := by decide
  sources := by decide
  sourceIds := List.nodup_nil

namespace Lowered

/-- A second revision of the plan's only cluster. -/
def revision (X : Externals) : ApprovedClusterRevision := reproposed X (bulkRevision X 1) 2

def plan (X : Externals) : ApprovedIntegrationPlan := bulkPlanAt X 1 2 [indexHash 0]

def output (X : Externals) : ClusterTaskOutput := ⟨(revision X).proposal, (revision X).critic⟩

def run (X : Externals) : RunRecord := startedRun X .empty (indexHash 0).hex (indexHash 0).hex

def key : TaskCacheKey := ⟨.critic, (indexHash 0).hex, (indexHash 0).hex, (indexHash 0).hex, "p",
  "m", "a", (indexHash 0).hex⟩

def keyHash (X : Externals) : String := (digest X "okc:ai-task:v3\x00" [toVec key.toJson]).hex

def task (X : Externals) : TaskDefinition where
  taskId := "task_" ++ (digest X "okc:task:v3\x00" [utf8 (run X).runId, utf8 (keyHash X)]).hex
  runId := (run X).runId
  stage := .critic
  cacheKey := keyHash X
  request := []

def taxonomyRow (X : Externals) : ApprovalRow := ⟨(run X).runId, "taxonomy", "taxonomy",
  (bulkTaxonomy X 1).taxonomyHash.hex,
  .approvedTaxonomy ⟨bulkCorpus X 1, bulkTaxonomy X 1, bulkApproval X 1⟩⟩

def clusterRow (X : Externals) : ApprovalRow := ⟨(run X).runId, "cluster", "all",
  (revision X).critic.criticHash.hex, .approvedRevision (revision X)⟩

/-- The request that the service makes, for the third revision. -/
def request (X : Externals) : ClusterRegenerationRequest :=
  regenerationRequest X "all" "again" (output X)

/-- A request for the second revision, which the store takes too. -/
def lowered (X : Externals) : ClusterRegenerationRequest where
  clusterId := "all"
  revision := 2
  feedback := "again"
  feedbackHash := clusterFeedbackHash X "all" 2 "again" (indexHash 0) (indexHash 0)
  previousProposalHash := indexHash 0
  previousCriticHash := indexHash 0

def queued (X : Externals) : TaskEvent := ⟨(task X).taskId, .queued, none, none⟩

def completed (X : Externals) : TaskEvent :=
  ⟨(task X).taskId, .complete, some (.clusterOutput (output X)), none⟩

/-- The journal when the request is made. -/
def reviewed (X : Externals) : Journal :=
  ⟨[run X], [task X], [queued X, completed X], [], [], [taxonomyRow X], [], [], [], [], []⟩

def requested (X : Externals) : Journal :=
  { reviewed X with feedback := [⟨(run X).runId, "all", request X⟩] }

def relaxed (X : Externals) : Journal :=
  { requested X with feedback := (requested X).feedback ++ [⟨(run X).runId, "all", lowered X⟩] }

def approved (X : Externals) : Journal :=
  { relaxed X with approvals := (relaxed X).approvals ++ [clusterRow X] }

def planRow (X : Externals) : PlanRow :=
  ⟨(run X).runId, (plan X).integrationPlanId, planObjectHash X (plan X), plan X⟩

/-- The journal in which the plan of the second revision is current. -/
def replaced (X : Externals) : Journal :=
  { approved X with plans := (approved X).plans ++ [planRow X] }

section

variable {X : Externals} {P : Session → Operation X → Prop}

theorem key_hash : key.hash X = .ok (keyHash X) := by
  refine hash_of_identified rfl rfl rfl rfl ?_
  simp only [List.mem_cons, List.not_mem_nil, or_false]
  rintro p (rfl | rfl | rfl) <;> decide

theorem kind_taxonomy : validateIdentifier "approval kind" "taxonomy" = .ok () := by decide

theorem kind_cluster : validateIdentifier "approval kind" "cluster" = .ok () := by decide

theorem target_taxonomy : validateIdentifier "approval target" "taxonomy" = .ok () := by decide

theorem target_all : validateIdentifier "approval target" "all" = .ok () := by decide

theorem leads_begun {m : ProjectManifest} :
    Leads .empty ⟨[run X], [], [], [], [], [], [], [], [], [], []⟩ m
    (beginOrResumeRun X noFaults (indexHash 0).hex (indexHash 0).hex) (run X) :=
  leads_beginOrResumeRun (validateHexHash_hex _ _) (validateHexHash_hex _ _)
    (fun _ h => nomatch h) (fun h => nomatch h) fun h => nomatch h

/-- **The first half of the history**: an output of the second revision is up for review. -/
theorem visits_reviewed {m : ProjectManifest}
    (hP : ∀ s operation, operation.Respects OwnRevision (fun _ _ => False) s → P s operation) :
    Visits X P m (.create m) (reviewed X) := by
  have h₁ : Visits X P m (.create m)
      ⟨[run X], [], [], [], [], [], [], [], [], [], []⟩ :=
    visits_create.step (.beginOrResumeRun (indexHash 0).hex (indexHash 0).hex) leads_begun
      (fun _ => project_within_void) fun _ _ => hP _ _ trivial
  have h₂ : Visits X P m (.create m)
      ⟨[run X], [], [], [], [], [taxonomyRow X], [], [], [], [], []⟩ :=
    h₁.step (.appendApproval (taxonomyRow X)) (leads_appendApproval kind_taxonomy target_taxonomy
      (validateHexHash_hex _ _) List.mem_cons_self) (fun _ => project_within)
      fun _ _ => hP _ _ fun hkind => by simp [taxonomyRow] at hkind
  have h₃ : Visits X P m (.create m)
      ⟨[run X], [task X], [queued X], [], [], [taxonomyRow X], [], [], [], [], []⟩ :=
    h₂.step (.registerTask (run X) .critic key []) (leads_registerTask rfl key_hash rfl
      (fun h => nomatch h) (fun h => nomatch h) List.mem_cons_self)
      (fun _ => project_within_void) fun _ _ => hP _ _ trivial
  have hstate : Journal.taskState ⟨[run X], [task X], [queued X, completed X], [], [],
      [taxonomyRow X], [], [], [], [], []⟩ (task X).taskId =
        .ok ⟨task X, .complete, some (.clusterOutput (output X)), none⟩ := by
    simp [Journal.taskState, queued, completed, latest]
  exact h₃.step (.appendTaskStatus (task X).taskId .complete (some (.clusterOutput (output X)))
    none) (leads_appendTaskStatus (by simp) (by simp) List.mem_cons_self hstate)
    (fun _ => project_within_void) fun _ _ => hP _ _ trivial

/-- The output under review. -/
theorem completedCluster_reviewed {missing : String} :
    (reviewed X).completedCluster "all" missing = .ok (output X) := by
  have hrun : (reviewed X).requireRun = .ok (run X) := rfl
  have htasks : (reviewed X).tasksForStage (run X).runId .critic =
      [⟨task X, .complete, some (.clusterOutput (output X)), none⟩] := by
    simp [Journal.tasksForStage, reviewed, lastRows, queued, completed, task]
  have htaxonomy : (reviewed X).latestApproval Object.asApprovedTaxonomy (run X).runId "taxonomy"
      "taxonomy" = .ok (some ⟨(bulkTaxonomy X 1).taxonomyHash.hex,
        ⟨bulkCorpus X 1, bulkTaxonomy X 1, bulkApproval X 1⟩⟩) := by
    simp [Journal.latestApproval, kind_taxonomy, target_taxonomy, Journal.approvalRow, reviewed,
      taxonomyRow, latest, Object.asApprovedTaxonomy, bind, Except.bind]
  have hkept : (reviewed X).keepLatest (run X).runId (bulkTaxonomy X 1).taxonomyHash []
      ⟨task X, .complete, some (.clusterOutput (output X)), none⟩ =
        .ok [("all", output X)] := by
    have hhash : (output X).proposal.taxonomyHash = (bulkTaxonomy X 1).taxonomyHash := rfl
    have hcurrent : (reviewed X).superseded (run X).runId (output X).proposal.clusterId
        (output X).proposal.revision = false := rfl
    refine bind_eq_ok.mpr ⟨output X, rfl, ?_⟩
    rw [if_neg (by simp [hhash, hcurrent])]
    rfl
  have hout : (reviewed X).completedClusters = .ok [output X] := by
    unfold Journal.completedClusters
    rw [hrun]
    refine bind_eq_ok.mpr ⟨_, rfl, bind_eq_ok.mpr ⟨_, htaxonomy, ?_⟩⟩
    dsimp only
    rw [htasks]
    refine bind_eq_ok.mpr ⟨[("all", output X)], ?_, rfl⟩
    exact bind_eq_ok.mpr ⟨_, hkept, rfl⟩
  exact bind_eq_ok.mpr ⟨_, hout, rfl⟩

theorem revision_request : (request X).revision = 3 := rfl

theorem revision_revision : (revision X).proposal.revision = 2 := rfl

theorem clusterId_revision : (revision X).proposal.clusterId = "all" := rfl

theorem leads_request : Leads (reviewed X) (requested X) plainManifest
    (requestClusterRegeneration X noFaults "all" "again") (request X) :=
  have hrun : (reviewed X).latestRun = some (run X) := rfl
  leads_requestClusterRegeneration plainManifest_valid (by decide) hrun completedCluster_reviewed
    (Nat.le_succ 1)
    (by simp [Journal.latestApproval, kind_cluster, target_all, Journal.approvalRow, reviewed,
      taxonomyRow, latest])

/-- **The second half**: the request is lowered, and the second revision approved and stored. -/
theorem visits_replaced {s : Session} (hP : ∀ s operation, P s operation)
    (hplan : ValidPlan X (plan X)) (h : Visits X P plainManifest s (requested X)) :
    Visits X P plainManifest s (replaced X) := by
  have hrun : (requested X).latestRun = some (run X) := rfl
  have hfeedback : trim (lowered X).feedback ≠ "" := by
    show trim "again" ≠ ""
    decide
  have hhash : (lowered X).feedbackHash = clusterFeedbackHash X (lowered X).clusterId
      (lowered X).revision (lowered X).feedback (lowered X).previousProposalHash
      (lowered X).previousCriticHash := by
    simp only [lowered]
  have hlowered : Leads (requested X) (relaxed X) plainManifest
      (appendClusterRegeneration X noFaults (lowered X)) () :=
    leads_appendClusterRegeneration hfeedback (le_refl 2) hrun hhash
  have h₁ : Visits X P plainManifest s (relaxed X) :=
    h.step (.appendClusterRegeneration (lowered X)) hlowered (fun _ => project_within) fun _ _ => hP _ _
  have h₂ : Visits X P plainManifest s (approved X) :=
    h₁.step (.appendApproval (clusterRow X)) (leads_appendApproval kind_cluster target_all
      (validateHexHash_hex _ _) List.mem_cons_self) (fun _ => project_within) fun _ _ => hP _ _
  exact h₂.step (.storeApprovedIntegrationPlan (run X).runId (plan X))
    (leads_storeApprovedIntegrationPlan hplan List.mem_cons_self) (fun _ => project_within)
    fun _ _ => hP _ _

/-- The plan of the second revision is current. -/
theorem current_replaced (hplan : ValidPlan X (plan X)) :
    (replaced X).latestApprovedIntegrationPlan X = .ok (some (plan X)) := by
  have happrovals : (replaced X).approvals = [taxonomyRow X, clusterRow X] := rfl
  have hhash : planObjectHash X (plan X) = (planRow X).planHash := by simp only [planRow]
  have hid : (plan X).integrationPlanId = (planRow X).planId := by simp only [planRow]
  refine latestApproved_iff.mpr ⟨planRow X, ?_, by simp only [planRow], hhash,
    validatePlan_eq_ok.mpr hplan, hid, planCurrent_iff.mpr ⟨?_, ?_⟩⟩
  · have hplans : (replaced X).plans = [planRow X] := rfl
    have hlatest : (replaced X).latestRun = some (run X) := rfl
    simp [Journal.planRow, hlatest, hplans, latest, planRow]
  · show (replaced X).CarriesTaxonomy (run X).runId (planTaxonomy (plan X))
    simp [Journal.CarriesTaxonomy, Journal.latestApproval, kind_taxonomy, target_taxonomy,
      Journal.approvalRow, happrovals, taxonomyRow, clusterRow, latest, Object.asApprovedTaxonomy,
      planTaxonomy, plan, bulkPlanAt, bind, Except.bind]
  · intro r hr
    rw [List.mem_singleton.mp hr]
    refine ⟨?_, ?_⟩
    · show (replaced X).latestApproval Object.asApprovedRevision (run X).runId "cluster" "all" =
        .ok (some ⟨(revision X).critic.criticHash.hex, revision X⟩)
      simp [Journal.latestApproval, kind_cluster, target_all, Journal.approvalRow, happrovals,
        taxonomyRow, clusterRow, latest, Object.asApprovedRevision, bind, Except.bind]
    · have hfeedback : (replaced X).feedback =
          [⟨(run X).runId, "all", request X⟩, ⟨(run X).runId, "all", lowered X⟩] := rfl
      show (replaced X).superseded (run X).runId "all" 2 = false
      simp [Journal.superseded, Journal.latestClusterRegeneration, hfeedback, latest, lowered]

end

end Lowered

theorem stored_latestRun {s : Session} {j : Journal} {m : ProjectManifest}
    (h : s.project.stored = (j, m)) : s.project.journal = j :=
  congrArg Prod.fst h

/-- **A request can be lowered**: without the two rules a plan returned after a request keeps a
revision older than the requested one. -/
theorem regeneration_lowered :
    ¬ ∀ (X : Externals) (faults : Faults) (manifest : ProjectManifest) (s t u : Session)
      (clusterId feedback : String) (request : ClusterRegenerationRequest),
      Reaches (Session.step X faults) (fun _ _ => True) (.create manifest) s →
      (requestClusterRegeneration X faults clusterId feedback s.project).1 = .ok request →
      s.step X faults (.requestClusterRegeneration clusterId feedback) = some t →
      Reaches (Session.step X faults) (fun _ _ => True) t u →
      u.project.journal.latestRun = t.project.journal.latestRun →
        u.project.journal.Binds X clusterId request.revision := by
  intro h
  obtain ⟨X, hX⟩ : ∃ X, X = plainExternals prefixHash := ⟨_, rfl⟩
  have hplan : ValidPlan X (Lowered.plan X) := by
    rw [hX]
    exact bulkPlanAt_valid prefixHash Nat.one_pos (by decide) 2 List.mem_cons_self
      (List.nodup_singleton _)
  obtain ⟨s, hs, hstored⟩ := Lowered.visits_reviewed (X := X) (P := fun _ _ => True)
    fun _ _ _ => trivial
  have hrequest := Leads.result Lowered.leads_request hstored
  generalize ht : (Operation.run X noFaults (.requestClusterRegeneration "all" "again") s).2 = t
  have htstored : t.project.stored = (Lowered.requested X, plainManifest) := by
    rw [← ht]
    unfold Project.stored Operation.run
    rw [project_within_void]
    exact hrequest.2
  obtain ⟨u, hu, hustored⟩ := Lowered.visits_replaced (X := X) (P := fun _ _ => True)
    (fun _ _ => trivial) hplan ⟨t, Relation.ReflTransGen.refl, htstored⟩
  have hbinds := h X noFaults plainManifest s t u "all" "again" (Lowered.request X) hs hrequest.1
    (congrArg some ht) hu (by rw [stored_latestRun hustored, stored_latestRun htstored]; rfl)
  rw [stored_latestRun hustored] at hbinds
  have hle := hbinds.stored _ (Lowered.current_replaced hplan) (Lowered.revision X)
    (List.mem_singleton_self _) Lowered.clusterId_revision
  rw [Lowered.revision_request, Lowered.revision_revision] at hle
  omega

/-- The theorem at work: a first run, and a request for an output under review. -/
theorem authority_never_returns_reviewed : ∃ s t u v : Session,
    Journal.Since (plainExternals prefixHash) s.project.journal t.project.journal ∧
      (requestClusterRegeneration (plainExternals prefixHash) noFaults "all" "again" u.project).1 =
        .ok (Lowered.request (plainExternals prefixHash)) ∧
      v.project.journal.Binds (plainExternals prefixHash) "all" 3 := by
  obtain ⟨h₁, h₂⟩ := authority_never_returns (plainExternals prefixHash) noFaults plainManifest
  obtain ⟨u, hu, hstored⟩ := Lowered.visits_reviewed (X := plainExternals prefixHash)
    (P := fun s op => op.Respects OwnRevision NotLowered s) fun _ _ h =>
      h.mono (fun _ hrow => hrow) fun _ _ hfalse => hfalse.elim
  have hrequest := (Leads.result Lowered.leads_request hstored).1
  have hbegun := (Leads.result (Lowered.leads_begun (X := plainExternals prefixHash))
    (s := (Session.create plainManifest).project) rfl).1
  have hsince := h₁ (.create plainManifest) _ _
    (.beginOrResumeRun (indexHash 0).hex (indexHash 0).hex) Relation.ReflTransGen.refl rfl
    (.begun (fun _ h => nomatch h) hbegun) Relation.ReflTransGen.refl
  have hbinds := h₂ u _ _ "all" "again" _ hu hrequest rfl Relation.ReflTransGen.refl rfl
  rw [Lowered.revision_request] at hbinds
  exact ⟨_, _, u, _, hsince, hrequest, hbinds⟩

end Okc.App
