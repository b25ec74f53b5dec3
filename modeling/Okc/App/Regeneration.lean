import Okc.App.Authority

/-!
# Successive revisions (`integration_service.rs:273-357`, `project_state.rs:258-319`, `582-597`)

`completed_clusters` combines three things: the responses of the critic tasks, in the order of their
latest events; the feedback rows of a cluster, which are not bound to a taxonomy; and the taxonomy
that was approved last. `request_cluster_regeneration` asks for the revision after the one returned.

* `completedClusters_latest`: of every cluster at most one output is returned, of the approved
  taxonomy, and none has a greater revision.
* `raises_of_recorded`: one request asks for more than the one before it.
* `regeneration_ascends`: both, in every journal that the operations lead to.
-/

namespace Okc.App

open Okc.Lib Okc.Core

/-! ## The outputs -/

/-- The revisions that were asked for, in order. -/
def Journal.requestedRevisions (j : Journal) (runId clusterId : String) : List Nat :=
  (j.feedback.filter fun row => row.runId = runId && row.clusterId = clusterId).map
    (·.request.revision)

/-- A completed output of which there is none with a greater revision. -/
structure LatestOutput (j : Journal) (run : RunRecord) (hash : ContentHash)
    (output : ClusterTaskOutput) : Prop extends CompletedOutput j run hash output where
  greatest : ∀ task ∈ j.tasksForStage run.runId .critic, task.status = .complete →
    ∀ other, task.response = some (.clusterOutput other) →
      other.proposal.taxonomyHash = hash → other.proposal.clusterId = output.proposal.clusterId →
      other.proposal.revision ≤ output.proposal.revision

section

variable {X : Externals} {j k : Journal} {faults : Faults}

/-- A superseded response has a lower revision than a current one. -/
theorem lt_of_superseded {runId clusterId : String} {m n : Nat}
    (hm : j.superseded runId clusterId m = true) (hn : j.superseded runId clusterId n = false) :
    m < n := by
  unfold Journal.superseded at hm
  cases hlatest : j.latestClusterRegeneration runId clusterId with
  | none =>
    rw [hlatest] at hm
    cases hm
  | some request =>
    rw [hlatest, Option.any_some, decide_eq_true_eq] at hm
    exact lt_of_lt_of_le hm (superseded_eq_false.mp hn request hlatest)

/-- **At most one output of a cluster, and the latest.** -/
theorem completedClusters_latest {outputs : List ClusterTaskOutput}
    (h : j.completedClusters = .ok outputs) :
    (outputs.map (·.proposal.clusterId)).Nodup ∧
      ∃ run, j.latestRun = some run ∧ ∀ output ∈ outputs, ∃ taxonomy,
        j.latestApproval Object.asApprovedTaxonomy run.runId "taxonomy" "taxonomy" =
          .ok (some taxonomy) ∧
        LatestOutput j run taxonomy.value.taxonomy.taxonomyHash output := by
  obtain ⟨run, hrun, ⟨-, rfl⟩ | ⟨taxonomy, kept, htaxonomy, rfl, hkept⟩⟩ :=
    completedClusters_spec h
  · exact ⟨List.nodup_nil, run, hrun, fun output ho => absurd ho List.not_mem_nil⟩
  have hkeys : (kept.map Prod.snd).map (·.proposal.clusterId) = kept.map Prod.fst := by
    rw [List.map_map]
    exact List.map_congr_left fun e he => hkept.key e he
  refine ⟨hkeys ▸ hkept.sorted.nodup, run, hrun, fun output ho => ⟨taxonomy, htaxonomy, ?_⟩⟩
  have hcompleted := hkept.completed ho
  refine ⟨hcompleted, fun task htask hstatus other hresponse hhash hcluster => ?_⟩
  cases hcurrent : j.superseded run.runId other.proposal.clusterId other.proposal.revision with
  | true =>
    rw [hcluster] at hcurrent
    exact (lt_of_superseded hcurrent hcompleted.current).le
  | false =>
    have hvisited : task ∈ ((j.tasksForStage run.runId .critic).filter
        (·.status = .complete)).reverse :=
      List.mem_reverse.mpr (List.mem_filter.mpr ⟨htask, decide_eq_true hstatus⟩)
    obtain ⟨found, hfound, hle⟩ :=
      hkept.greatest task hvisited other hresponse hhash hcurrent
    obtain ⟨e, he, rfl⟩ := List.mem_map.mp ho
    have hsame := get?_of_mem hkept.sorted.nodup he
    rw [hcluster, hkept.key e he, hsame] at hfound
    exact Option.some.inj hfound ▸ hle

/-! ## The requests -/

/-- The request asks for a revision above the one last asked for. -/
def Raises (j : Journal) (request : ClusterRegenerationRequest) : Prop :=
  ∀ run old, j.latestRun = some run →
    j.latestClusterRegeneration run.runId request.clusterId = some old →
      old.revision < request.revision

/-- In every run the revisions asked for of a cluster ascend. -/
def Journal.Ascends (j : Journal) : Prop :=
  ∀ runId clusterId, (j.requestedRevisions runId clusterId).Pairwise (· < ·)

/-- The last request of the query is the last revision asked for. -/
theorem getLast?_requestedRevisions (runId clusterId : String) :
    (j.requestedRevisions runId clusterId).getLast? =
      (j.latestClusterRegeneration runId clusterId).map (·.revision) := by
  rw [Journal.requestedRevisions, List.getLast?_map, ← latest_eq_getLast?,
    Journal.latestClusterRegeneration, Option.map_map]
  rfl

theorem Journal.Ascends.le_latest (h : j.Ascends) {runId clusterId : String} {revision : Nat}
    (hmem : revision ∈ j.requestedRevisions runId clusterId) :
    ∃ latest, j.latestClusterRegeneration runId clusterId = some latest ∧
      revision ≤ latest.revision := by
  obtain ⟨init, last, hlast⟩ := List.eq_nil_or_concat'
    (j.requestedRevisions runId clusterId) |>.resolve_left (List.ne_nil_of_mem hmem)
  have hget := @getLast?_requestedRevisions j runId clusterId
  rw [hlast, List.getLast?_concat] at hget
  obtain ⟨latest, hlatest, rfl⟩ := Option.map_eq_some_iff.mp hget.symm
  refine ⟨latest, hlatest, ?_⟩
  have hpairwise := h runId clusterId
  rw [hlast, List.pairwise_append] at hpairwise
  rw [hlast, List.mem_append, List.mem_singleton] at hmem
  rcases hmem with hmem | rfl
  · exact (hpairwise.2.2 revision hmem latest.revision (List.mem_singleton_self _)).le
  · exact le_refl _

/-- **The service asks for the revision after the one it returns**, and so for more than before. -/
theorem raises_of_recorded {row : FeedbackRow}
    (h : Recorded X (fun _ => True) Raises j (.feedback row)) :
    ∀ old, j.latestClusterRegeneration row.runId row.clusterId = some old →
      old.revision < row.request.revision := by
  intro old hold
  cases h with
  | feedback latest meets => exact meets _ old latest hold
  | served hs =>
    cases hs with
    | feedback latest completed =>
      obtain ⟨hid, run, taxonomy, hrun, -, hout⟩ := completed_spec completed
      obtain rfl := Option.some.inj (latest.symm.trans hrun)
      exact Nat.lt_succ_of_le (superseded_eq_false.mp hout.current old (hid ▸ hold))

/-- **One row keeps the order.** -/
theorem ascends_of_inserted {row : Row} (hj : j.Ascends)
    (hrow : Recorded X (fun _ => True) Raises j row) (h : j.Inserted row k) : k.Ascends := by
  cases h with
  | @feedback new _ =>
    intro runId clusterId
    have hlast := raises_of_recorded hrow
    unfold Journal.requestedRevisions
    rw [List.filter_append, List.map_append, List.pairwise_append]
    refine ⟨hj runId clusterId, ?_, fun revision hrevision last hmem => ?_⟩
    · exact ((List.pairwise_singleton (fun a b : FeedbackRow =>
        a.request.revision < b.request.revision) new).filter _).map _ fun _ _ hlt => hlt
    · obtain ⟨added, hadded, rfl⟩ := List.mem_map.mp hmem
      obtain ⟨hnew, hsame⟩ := List.mem_filter.mp hadded
      obtain rfl := List.mem_singleton.mp hnew
      rw [Bool.and_eq_true, decide_eq_true_eq, decide_eq_true_eq] at hsame
      obtain ⟨rfl, rfl⟩ := hsame
      obtain ⟨latest, hlatest, hle⟩ := hj.le_latest hrevision
      exact lt_of_le_of_lt hle (hlast latest hlatest)
  | _ => exact hj

/-- **Every row of a run keeps it.** -/
theorem ascends_of_grows (h : Journal.Grows (Recorded X (fun _ => True) Raises) j k)
    (hj : j.Ascends) : k.Ascends :=
  h.invariant (fun _ _ _ hI hrow hi => ascends_of_inserted hI hrow hi) hj

end

end Okc.App
