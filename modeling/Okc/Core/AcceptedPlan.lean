import Okc.Core.PlanPaths
import Okc.Core.ResolvedRecords

/-!
# A plan is accepted as it was built (`plan.rs:1438-1578`)

What `build_plan` assembles goes through the validator of every plan before it is returned.

* `Assembled.covered_iff`: the paths and the operations are accepted exactly when the path of every
  note is valid.
-/

namespace Okc.Core

open Okc.Lib

section

variable {X : Crates} {E : PlanEncoding} {policy : CompilerPolicy}
  {disk : SourceSpec → List SourceItem} {snapshots : List VaultSnapshot}
  {w w' : CanonicalWorkspace} {map : List (DocumentId × DocumentId)} {paths : OutputPathMaps}

/-! ## Paths and operations -/

/-- The operations that are built for the records are accepted, where the paths are. -/
theorem planCovered_of_built (hmap : w.documents.map Prod.fst = map.map Prod.fst)
    {operations : List OutputOperation} (hbuilt : Built X snapshots w paths map operations)
    (hcover : PathsCover w paths) (hvalid : ∀ path ∈ paths.values, ValidPath X policy path)
    (hdocuments : Sorted paths.documents) (hassets : Sorted paths.assets)
    (hmember : ∀ e ∈ map, get? e.1 paths.documents = get? e.2 paths.documents) :
    PlanCovered X policy snapshots w paths operations := by
  have hplace : ∀ {o record}, Produces X snapshots w paths o record →
      canvasReferenceOutputPath paths record = some o.destination := by
    rintro o record ⟨_, -, hmakes⟩
    exact hmakes.path
  refine ⟨hcover, hvalid, hbuilt.made, hbuilt.distinct, hbuilt.ascending, fun e he => ?_,
    fun e he => ?_, hbuilt.canvas, hbuilt.base⟩
  · have hkey := (hcover.documents e.1).mp (List.mem_map_of_mem he)
    rw [hmap] at hkey
    obtain ⟨⟨m, r⟩, hm, hfirst⟩ := List.mem_map.mp hkey
    obtain ⟨o, ho, hproduces⟩ := hbuilt.document (m, r) hm
    have hpath : get? r paths.documents = some o.destination := hplace hproduces
    have hgiven : get? m paths.documents = some e.2 := by
      rw [show m = e.1 from hfirst]
      exact get?_of_mem hdocuments.nodup he
    refine ⟨o, ho, ?_, r, hproduces⟩
    rw [hmember (m, r) hm] at hgiven
    exact Option.some.inj (hpath.symm.trans hgiven)
  · obtain ⟨a, ha, hfirst⟩ := List.mem_map.mp ((hcover.assets e.1).mp (List.mem_map_of_mem he))
    obtain ⟨o, ho, hproduces⟩ := hbuilt.asset a ha
    have hpath : get? a.1 paths.assets = some o.destination := hplace hproduces
    rw [hfirst, get?_of_mem hassets.nodup he] at hpath
    exact ⟨o, ho, (Option.some.inj hpath).symm, a.1, hproduces⟩

/-- What the parts of a plan are, in the order of the steps. -/
structure Assembled (X : Crates) (policy : CompilerPolicy) (disk : SourceSpec → List SourceItem)
    (inspection : Inspection) (parts : PlanParts) : Prop where
  dedup : analyze X (inspection.workspace.documents.map Prod.snd) policy.dedup = .ok parts.dedup
  paths : ∃ warnings, allocatePaths X policy inspection.workspace
    (representativeMap inspection.workspace parts.dedup.exactGroups) =
      .ok (parts.paths, parts.allocation, warnings)
  resolved : ∃ resolution, resolveLinks X inspection.workspace
    (representativeMap inspection.workspace parts.dedup.exactGroups) parts.paths =
      .ok (parts.workspace, parts.ambiguities, resolution)
  operations : buildOperations X policy disk parts.workspace parts.paths inspection.snapshots
    (representativeMap inspection.workspace parts.dedup.exactGroups) = .ok parts.operations
  estimate : calculateResourceEstimate inspection.snapshots parts.workspace parts.operations =
    .ok parts.resourceEstimate

theorem assembled_of_ok {inspection : Inspection} {parts : PlanParts}
    (h : planParts X policy disk inspection = .ok parts) :
    Assembled X policy disk inspection parts := by
  simp only [planParts, bind_eq_ok, Prod.exists, Except.ok.injEq] at h
  obtain ⟨dedup, hdedup, paths, allocation, warnings, hpaths, workspace, ambiguities, resolution,
    hresolved, operations, hoperations, estimate, hestimate, rfl⟩ := h
  exact ⟨hdedup, ⟨warnings, hpaths⟩, ⟨resolution, hresolved⟩, hoperations, hestimate⟩

/-- **The paths and the operations of a plan are accepted exactly when the paths of its notes are
valid.** -/
theorem Assembled.covered_iff {inspection : Inspection} {parts : PlanParts}
    (h : Assembled X policy disk inspection parts)
    (hready : Ready X inspection.workspace inspection.snapshots) :
    validatePlanPathsAndOperations X policy inspection.snapshots parts.workspace parts.paths
        parts.operations = .ok () ↔
      ∀ e ∈ parts.paths.documents, ValidPath X policy e.2 := by
  have hkeyed : DocumentsKeyed inspection.workspace :=
    ⟨hready.documents, fun e he => (hready.sealed.document e he).2.1.symm⟩
  have hmap := represents_representativeMap hkeyed (groupOf_analyze h.dedup)
  obtain ⟨_, hpaths⟩ := h.paths
  obtain ⟨_, hresolved⟩ := h.resolved
  have hallocated := pathsAllocated hpaths
  have hrelinked := relinked_of_resolveLinks hkeyed hmap hresolved
  have hready' := hrelinked.ready hready
  constructor
  · intro hok
    exact hallocated.valid.mp (planCovered_of_ok hok).valid
  · intro hvalid
    refine ok_of_planCovered (planCovered_of_built ?_
      (built_of_buildOperations hready' h.operations)
      (hrelinked.cover (hallocated.cover hkeyed hmap)) (hallocated.valid.mpr hvalid)
      hallocated.documentsSorted hallocated.assetsSorted
      fun e he => hallocated.member hkeyed hmap he)
    rw [hrelinked.documentKeys, hmap.keys]

end

end Okc.Core
