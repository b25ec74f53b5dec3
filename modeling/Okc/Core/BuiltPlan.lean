import Okc.Core.AcceptedPlan
import Okc.Core.CheckedRecords
import Okc.Core.RecordedAmbiguities

/-!
# When `build_plan` returns a plan (`plan.rs:72-221`, `plan.rs:1646-1752`)

`build_plan` has every plan checked as a whole before it returns it, by the check that a plan goes
through whenever it is read. Most of that check cannot fail on a plan that was just built.

* `Raised`: the conflicts that are about neither a link nor a reference.
* `Acceptable`: the rest of the check.
* `buildPlan_isOk_iff`: a plan is returned exactly when its parts are built and they are acceptable.
-/

namespace Okc.Core

open Okc.Lib

/-! ## Conflicts about neither a link nor a reference -/

/-- The conflict is one that `conflict` makes. -/
def Raised (X : Crates) (c : Conflict) : Prop :=
  ∃ kind required documents message score resolution,
    c = conflict X kind required documents message score resolution

section

variable {X : Crates} {policy : CompilerPolicy} {w w' : CanonicalWorkspace}
  {map : List (DocumentId × DocumentId)}

theorem Raised.subject {c : Conflict} (h : Raised X c) : c.subject = none := by
  obtain ⟨kind, required, documents, message, score, resolution, rfl⟩ := h
  rfl

theorem raised_allocateDocument {s t : DocumentAllocation} {document : Document}
    (hs : ∀ c ∈ s.conflicts, Raised X c) (h : allocateDocument X policy s document = .ok t) :
    ∀ c ∈ t.conflicts, Raised X c := by
  unfold allocateDocument at h
  obtain ⟨-, h⟩ := bind_unit_eq_ok.mp h
  obtain ⟨⟨destination, conflict⟩, hdestination, h⟩ := bind_eq_ok.mp h
  obtain rfl := Except.ok.inj h
  intro c hc
  rcases List.mem_append.mp hc with hold | hnew
  · exact hs c hold
  · obtain rfl := Option.mem_toList.mp hnew
    unfold documentDestination at hdestination
    split at hdestination
    · cases hdestination
    · split at hdestination
      · cases hdestination
      · obtain ⟨-, hconflict⟩ := Prod.mk.inj (Except.ok.inj hdestination)
        exact ⟨_, _, _, _, _, _, (Option.some.inj hconflict).symm⟩

theorem raised_allocateAuxiliary {ι : Type} [LinearOrder ι] {directory word : String}
    {s t : AuxiliaryAllocation ι} {request : AuxiliaryRequest ι}
    (hs : ∀ c ∈ s.conflicts, Raised X c)
    (h : allocateAuxiliary X policy directory word s request = .ok t) :
    ∀ c ∈ t.conflicts, Raised X c := by
  obtain ⟨⟨⟨destination, collision⟩, allocated⟩, -, h⟩ := bind_eq_ok.mp h
  obtain rfl := Except.ok.inj h
  intro c hc
  rcases List.mem_append.mp hc with hold | hnew
  · exact hs c hold
  · obtain ⟨collision, -, rfl⟩ := List.mem_map.mp hnew
    exact ⟨_, _, _, _, _, _, rfl⟩

/-- **The conflicts of the allocation.** -/
theorem raised_allocatePaths {paths : OutputPathMaps} {conflicts : List Conflict}
    {warnings : List Diagnostic}
    (h : allocatePaths X policy w map = .ok (paths, conflicts, warnings)) :
    ∀ c ∈ conflicts, Raised X c := by
  obtain ⟨⟨outputPaths, first⟩, hdocuments, h⟩ := bind_eq_ok.mp h
  obtain ⟨⟨assetPaths, found⟩, -, h⟩ := bind_eq_ok.mp h
  obtain ⟨auxiliary, hauxiliary, h⟩ := bind_eq_ok.mp h
  obtain ⟨-, rfl, -⟩ := by simpa only [Except.ok.injEq, Prod.mk.injEq] using h
  intro c hc
  rcases List.mem_append.mp hc with hfirst | hsecond
  · obtain ⟨s, hrun, hdocuments⟩ := bind_eq_ok.mp hdocuments
    obtain ⟨-, rfl⟩ := Prod.mk.inj (Except.ok.inj hdocuments)
    exact foldlM_keeps (I := fun s : DocumentAllocation => ∀ c ∈ s.conflicts, Raised X c)
      (fun _ _ _ hs hstep => raised_allocateDocument hs hstep) _
      (fun _ hmem => absurd hmem List.not_mem_nil) hrun c hfirst
  · obtain ⟨canvases, hcanvases, hauxiliary⟩ := bind_eq_ok.mp hauxiliary
    obtain ⟨bases, hbases, hauxiliary⟩ := bind_eq_ok.mp hauxiliary
    obtain rfl := Except.ok.inj hauxiliary
    have hraised := foldlM_keeps
      (I := fun s : AuxiliaryAllocation CanvasId => ∀ c ∈ s.conflicts, Raised X c)
      (fun _ _ _ hs hstep => raised_allocateAuxiliary hs hstep) _
      (fun _ hmem => absurd hmem List.not_mem_nil) hcanvases
    exact foldlM_keeps
      (I := fun s : AuxiliaryAllocation BaseArtifactId => ∀ c ∈ s.conflicts, Raised X c)
      (fun _ _ _ hs hstep => raised_allocateAuxiliary hs hstep) _ hraised hbases c hsecond

theorem raised_ambiguityConflicts {entries : List (String × DocumentId)} {kind : ConflictKind}
    {label : String} : ∀ c ∈ ambiguityConflicts X entries kind label, Raised X c := by
  intro c hc
  obtain ⟨group, -, hc⟩ := List.mem_flatMap.mp hc
  split_ifs at hc
  · rw [List.mem_singleton.mp hc]
    exact ⟨_, _, _, _, _, _, rfl⟩
  · exact absurd hc List.not_mem_nil

theorem raised_frontmatterConflicts : ∀ c ∈ frontmatterConflicts X w, Raised X c := by
  intro c hc
  obtain ⟨group, -, hc⟩ := List.mem_flatMap.mp hc
  split_ifs at hc
  · rw [List.mem_singleton.mp hc]
    exact ⟨_, _, _, _, _, _, rfl⟩
  · exact absurd hc List.not_mem_nil

/-! ## The check of the conflicts -/

theorem validateConflicts_eq_ok {conflicts : List Conflict} :
    validateConflicts X conflicts = .ok () ↔
      (∀ c ∈ conflicts, c.validateIntegrity X = .ok ()) ∧
        (conflicts.map Conflict.conflictId).Pairwise (· < ·) := by
  unfold validateConflicts
  rw [scan_eq_ok, ← scanned_ascending, ← @scannedFrom_const _ _ [], ← scannedFrom_and]
  refine scannedFrom_congr fun before c => ?_
  rw [bind_unit_eq_ok, reject_eq_ok, not_notAfter]

/-- The conflict is one that `conflict_with_subject` makes. -/
def Made (X : Crates) (c : Conflict) : Prop :=
  ∃ kind required subject documents message score resolution,
    c = conflictWithSubject X kind required subject documents message score resolution

theorem Raised.made {c : Conflict} (h : Raised X c) : Made X c := by
  obtain ⟨kind, required, documents, message, score, resolution, rfl⟩ := h
  exact ⟨kind, required, none, documents, message, score, resolution, rfl⟩

theorem made_of_reports {c : Conflict} (h : c ∈ ambiguityReports X map w) : Made X c := by
  rcases List.mem_append.mp h with hlinks | hreferences
  · obtain ⟨e, -, hc⟩ := List.mem_flatMap.mp hlinks
    obtain ⟨link, -, hc⟩ := List.mem_flatMap.mp hc
    obtain ⟨candidates, -, rfl⟩ := List.mem_map.mp hc
    exact ⟨_, _, _, _, _, _, _, rfl⟩
  · obtain ⟨e, -, hc⟩ := List.mem_flatMap.mp hreferences
    obtain ⟨r, -, hc⟩ := List.mem_flatMap.mp hc
    obtain ⟨candidates, -, rfl⟩ := List.mem_map.mp hc
    exact ⟨_, _, _, _, _, _, _, rfl⟩

theorem Made.integrity {c : Conflict} (h : Made X c) :
    c.validateIntegrity X = .ok () ↔ ConflictClear c.subject c.message := by
  obtain ⟨kind, required, subject, documents, message, score, resolution, rfl⟩ := h
  exact validateIntegrity_conflict

/-! ## The records of an inspection -/

theorem links_of_parseMarkdown {limits : PathLimits} {file : SourceFile} {bytes : Bytes}
    {d : Document} {diagnostics : List Diagnostic}
    (h : parseMarkdown X limits file bytes = .ok (d, diagnostics)) :
    ∀ link ∈ d.links, link.resolution = .pending := by
  unfold parseMarkdown at h
  obtain ⟨-, h⟩ := bind_unit_eq_ok.mp h
  split at h
  · cases h
  · obtain ⟨_, -, h⟩ := bind_eq_ok.mp h
    obtain ⟨rfl, -⟩ := Prod.mk.inj (Except.ok.inj h)
    intro link hlink
    obtain ⟨i, hi, rfl⟩ := List.mem_mapIdx.mp hlink
    rfl

/-- The representatives depend on the identities of the documents only. -/
theorem representativeMap_relinked (h : Relinked w w') (exactGroups : List ExactDuplicateGroup) :
    representativeMap w' exactGroups = representativeMap w exactGroups := by
  have hkeys : w'.documents.map (fun e => (e.1, e.1)) = w.documents.map fun e => (e.1, e.1) := by
    have hmapped := congrArg (List.map fun id : DocumentId => (id, id)) h.documentKeys
    rwa [List.map_map, List.map_map] at hmapped
  rw [representativeMap, representativeMap, hkeys]

theorem Relinked.nodes {limits : PathLimits} {read : List ReadFile} (h : Relinked w w')
    (hrecords : RecordsOf X limits read w) {e : CanvasId × Canvas} (he : e ∈ w'.canvases) :
    (e.2.fileReferences.map CanvasFileReference.nodeId).Nodup := by
  obtain ⟨e', he', -, hsame⟩ := h.canvas he
  obtain ⟨-, -, bytes, -, hparsed⟩ := hrecords.canvas e' he'
  have hnodup := (pending_canvasFileReferences (references_parseCanvas hparsed)).1
  have hreferences : e'.2.fileReferences.map CanvasFileReference.pending =
      e.2.fileReferences.map CanvasFileReference.pending := congrArg Canvas.fileReferences hsame
  have hids := congrArg (List.map CanvasFileReference.nodeId) hreferences
  rw [List.map_map, List.map_map] at hids
  have hids : e'.2.fileReferences.map CanvasFileReference.nodeId =
      e.2.fileReferences.map CanvasFileReference.nodeId := hids
  rw [← hids]
  exact hnodup

/-! ## The check of the plan -/

variable {E : PlanEncoding} {disk : SourceSpec → List SourceItem} {inspection : Inspection}
  {parts : PlanParts}

/-- What a plan that was built still needs: the paths of its notes are valid, no text of a conflict
contains NUL, and the identities tell conflicts, Bases and the links of a note apart. -/
structure Acceptable (X : Crates) (policy : CompilerPolicy) (inspection : Inspection)
    (parts : PlanParts) : Prop where
  notes : ∀ e ∈ parts.paths.documents, ValidPath X policy e.2
  clear : ∀ c ∈ parts.conflicts X inspection.workspace, ConflictClear c.subject c.message
  conflicts : ((parts.conflicts X inspection.workspace).map Conflict.conflictId).Nodup
  bases : (inspection.workspace.bases.map BaseArtifact.baseArtifactId).Nodup
  links : LinksFound parts.workspace

/-- The conflicts that are raised before the links are resolved, and for near duplicates. -/
def PlanParts.raised (X : Crates) (parts : PlanParts) (w : CanonicalWorkspace) : List Conflict :=
  parts.allocation ++ lookupConflicts X w (representativeMap w parts.dedup.exactGroups) ++
    frontmatterConflicts X w ++ parts.dedup.nearCandidates.map (nearDuplicateConflict X)

theorem Assembled.raised (h : Assembled X policy disk inspection parts) :
    ∀ c ∈ parts.raised X inspection.workspace, Raised X c := by
  obtain ⟨_, hpaths⟩ := h.paths
  intro c hc
  rcases List.mem_append.mp hc with hc | hnear
  · rcases List.mem_append.mp hc with hc | hfrontmatter
    · rcases List.mem_append.mp hc with hallocation | hlookup
      · exact raised_allocatePaths hpaths c hallocation
      · rcases List.mem_append.mp hlookup with htitle | halias
        · exact raised_ambiguityConflicts c htitle
        · exact raised_ambiguityConflicts c halias
    · exact raised_frontmatterConflicts c hfrontmatter
  · obtain ⟨candidate, -, rfl⟩ := List.mem_map.mp hnear
    exact ⟨_, _, _, _, _, _, rfl⟩

/-- **The conflicts of a plan** are those that were raised, and the reports of the ambiguities. -/
theorem Assembled.conflicts_perm (h : Assembled X policy disk inspection parts)
    (hkeyed : DocumentsKeyed inspection.workspace)
    (hpending : ∀ e ∈ inspection.workspace.documents, ∀ link ∈ e.2.links,
      link.resolution = .pending) :
    (parts.conflicts X inspection.workspace).Perm (parts.raised X inspection.workspace ++
      ambiguityReports X (representativeMap inspection.workspace parts.dedup.exactGroups)
        parts.workspace) := by
  obtain ⟨_, hresolved⟩ := h.resolved
  have hmap := represents_representativeMap hkeyed (groupOf_analyze h.dedup)
  have hreports := conflicts_of_resolveLinks hkeyed hmap hpending hresolved
  unfold PlanParts.conflicts sortConflicts
  refine (sortBy_perm _ _).trans (List.Perm.of_eq ?_)
  rw [hreports]
  rfl

/-- **A plan that was built passes the check exactly when it is acceptable.** -/
theorem Assembled.validateIntegrity_iff (hX : NfcLaws X.toExternals) (hwords : WordLimits policy)
    {sources : List (SourceSpec × List SourceItem)} {s : InspectLoop}
    (hnames : ∀ input ∈ sources, ∃ id, SourceId.new input.1.sourceId.value = .ok id)
    (hinspected : InspectedSet X policy sources inspection s)
    (h : Assembled X policy disk inspection parts) :
    (parts.plan X E policy inspection).validateIntegrity X E = .ok () ↔
      Acceptable X policy inspection parts := by
  obtain ⟨read, hread⟩ := hinspected.readOf hX
  have hsnapshots := hinspected.snapshotsOk hX hnames
  -- what was read is sealed
  have hsealed : ∀ r ∈ read, Sealed inspection.snapshots r.1 := by
    intro r hr
    refine hsnapshots.sealed ?_
    have hfile := List.mem_map_of_mem (f := Prod.fst) hr
    rw [hread.files] at hfile
    obtain ⟨snapshot, hsnapshot, hmem⟩ := List.mem_flatMap.mp hfile
    exact List.mem_flatMap.mpr ⟨snapshot, hinspected.mem_snapshots.mpr hsnapshot, hmem⟩
  have hrecords : RecordsOf X policy.pathLimits read inspection.workspace := by
    rw [hinspected.workspace]
    exact hread.records
  have hready := ready_of_records hrecords hsealed
  have hkeyed : DocumentsKeyed inspection.workspace :=
    ⟨hready.documents, fun e he => (hready.sealed.document e he).2.1.symm⟩
  have hpending : ∀ e ∈ inspection.workspace.documents, ∀ link ∈ e.2.links,
      link.resolution = .pending := by
    intro e he
    obtain ⟨-, -, bytes, diagnostics, -, hparsed⟩ := hrecords.document e he
    exact links_of_parseMarkdown hparsed
  have hmap := represents_representativeMap hkeyed (groupOf_analyze h.dedup)
  obtain ⟨resolution, hresolved⟩ := h.resolved
  have hrelinked := relinked_of_resolveLinks hkeyed hmap hresolved
  have hsettled := settled_of_resolveLinks hkeyed hmap hresolved
  have hready' := hrelinked.ready hready
  have hkeyed' : DocumentsKeyed parts.workspace :=
    ⟨hready'.documents, fun e he => (hready'.sealed.document e he).2.1.symm⟩
  have hperm := h.conflicts_perm hkeyed hpending
  have hmade : ∀ c ∈ parts.conflicts X inspection.workspace, Made X c := by
    intro c hc
    rcases List.mem_append.mp (hperm.mem_iff.mp hc) with hraised | hreport
    · exact (h.raised c hraised).made
    · exact made_of_reports hreport
  -- each part of the check
  have hworkspace := validateWorkspaceSources_iff hrecords hread.length hsealed hrelinked
    fun e he r hr => hrelinked.settled (hsettled e he r hr)
  have hoperations := h.covered_iff hready
  have hconflicts : validateConflicts X (parts.conflicts X inspection.workspace) = .ok () ↔
      (∀ c ∈ parts.conflicts X inspection.workspace, ConflictClear c.subject c.message) ∧
        ((parts.conflicts X inspection.workspace).map Conflict.conflictId).Nodup := by
    rw [validateConflicts_eq_ok]
    refine and_congr (forall₂_congr fun c hc => (hmade c hc).integrity)
      ⟨fun hlt => ?_, fun hid => ?_⟩
    · exact hlt.imp LT.lt.ne
    · have hsorted := pairwise_lt_of_sortBy hid
      unfold PlanParts.conflicts sortConflicts at hsorted ⊢
      rwa [sortBy_sortBy] at hsorted
  have hreported : ((parts.conflicts X inspection.workspace).map Conflict.conflictId).Nodup →
      Reported X (representativeMap inspection.workspace parts.dedup.exactGroups) parts.workspace
        (parts.raised X inspection.workspace) (parts.conflicts X inspection.workspace) :=
    fun hid => ⟨hperm, fun c hc => (h.raised c hc).subject, hid.of_map _⟩
  have hmarkdown := fun hid => markdownCoverage_reported_iff hkeyed'
    (representativeMap_relinked hrelinked parts.dedup.exactGroups).symm (hreported hid)
  have hcanvas := fun hid => canvasCoverage_reported hready'.canvases
    (fun e he => (hready'.sealed.canvas e he).2.2.1)
    (fun e he => hrelinked.nodes hrecords he) (hreported hid)
  unfold DraftPlan.validateIntegrity
  simp only [bind_eq_ok, exists_unit, reject_eq_ok, ne_eq, not_not]
  constructor
  · rintro ⟨-, -, -, -, -, -, hsources, hcovered, _, -, -, hchecked, hlinks, -⟩
    obtain ⟨hclear, hid⟩ := hconflicts.mp hchecked
    exact ⟨hoperations.mp hcovered, hclear, hid, hworkspace.mp hsources, (hmarkdown hid).mp hlinks⟩
  · rintro ⟨hnotes, hclear, hid, hbases, hlinks⟩
    exact ⟨rfl, rfl, hinspected.valid, hinspected.snapshotSet hX hwords hnames,
      hinspected.inspectionHash, rfl, hworkspace.mpr hbases, hoperations.mpr hnotes,
      _, h.estimate, rfl, hconflicts.mpr ⟨hclear, hid⟩, (hmarkdown hid).mpr hlinks, hcanvas hid,
      rfl⟩

/-- **`build_plan` returns a plan of an inspection exactly when its parts are built and are
acceptable.** -/
theorem buildPlan_isOk_iff (hX : NfcLaws X.toExternals) (hwords : WordLimits policy)
    {sources : List (SourceSpec × List SourceItem)}
    (hnames : ∀ input ∈ sources, ∃ id, SourceId.new input.1.sourceId.value = .ok id)
    (hinspection : inspectSources X policy sources = .ok inspection) :
    (∃ plan, buildPlan X E policy disk inspection = .ok plan) ↔
      ∃ parts, planParts X policy disk inspection = .ok parts ∧
        Acceptable X policy inspection parts := by
  obtain ⟨s, hinspected⟩ := inspected_of_ok hinspection
  unfold buildPlan
  simp only [bind_eq_ok, exists_unit, reject_eq_ok, ne_eq, not_not]
  constructor
  · rintro ⟨plan, -, -, parts, hparts, hchecked, -⟩
    exact ⟨parts, hparts, ((assembled_of_ok hparts).validateIntegrity_iff hX hwords hnames
      hinspected).mp hchecked⟩
  · rintro ⟨parts, hparts, hacceptable⟩
    exact ⟨_, hinspected.valid, hinspected.policyHash, parts, hparts, ((assembled_of_ok
      hparts).validateIntegrity_iff hX hwords hnames hinspected).mpr hacceptable, rfl⟩

end

/-- An encoding of the identities. -/
def plainEncoding : PlanEncoding where
  workspace w := .arr (w.documents.map (fun e => e.1.toValue) ++
    w.canvases.map (fun e => e.1.toValue) ++ w.assets.map (fun e => e.1.toValue) ++
    w.bases.map fun base => base.baseArtifactId.toValue)
  identity identity := .arr [identity.inspectionHash.toValue, identity.projectionHash.toValue]

theorem buildPlan_isOk_iff_base : ∃ inspection,
    inspectSources (plainCrates (plainExternals prefixHash)) .default baseVault = .ok inspection ∧
      ((∃ plan, buildPlan (plainCrates (plainExternals prefixHash)) plainEncoding .default
          (fun _ => [⟨"all.base", []⟩]) inspection = .ok plan) ↔
        ∃ parts, planParts (plainCrates (plainExternals prefixHash)) .default
            (fun _ => [⟨"all.base", []⟩]) inspection = .ok parts ∧
          Acceptable (plainCrates (plainExternals prefixHash)) .default inspection parts) := by
  obtain ⟨inspection, hinspection⟩ := inspect_baseVault
  exact ⟨inspection, hinspection, buildPlan_isOk_iff (nfcLaws_plain prefixHash) wordLimits_default
    name_baseVault hinspection⟩

end Okc.Core
