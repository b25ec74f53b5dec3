import Okc.Lib.Allot
import Okc.Core.DocumentPaths
import Okc.Core.PlanCoverage

/-!
# The paths of a plan (`plan.rs:1456-1491`, `plan.rs:1664-1857`, `plan.rs:3130-3176`)

Four loops allocate the output paths, and every note that is not allocated takes the path of the
note that represents it.

* `get?_memberPaths`: every note has the path of its representative.
* `PathsAllocated.cover`: there is a path for every record, and for nothing else.
* `PathsAllocated.valid`: which of the paths are checked.
-/

namespace Okc.Core

open Okc.Lib

section

variable {X : Crates} {policy : CompilerPolicy} {w : CanonicalWorkspace}
  {map : List (DocumentId × DocumentId)}

/-! ## Members -/

theorem sorted_memberOutputPath {m : List (DocumentId × String)} (h : Sorted m)
    (e : DocumentId × DocumentId) : Sorted (memberOutputPath m e) := by
  unfold memberOutputPath
  cases get? e.2 m with
  | none => exact h
  | some path => exact sorted_insertKey e.1 path h

theorem sorted_memberPaths {outputPaths : List (DocumentId × String)} (h : Sorted outputPaths) :
    Sorted (memberPaths map outputPaths) := by
  unfold memberPaths
  induction map generalizing outputPaths with
  | nil => exact h
  | cons e map ih => exact ih (sorted_memberOutputPath h e)

/-- Members get the paths of their representatives, which keep theirs. -/
theorem get?_foldl_memberOutputPath {rep : DocumentId → DocumentId}
    (hrep : ∀ id, rep (rep id) = rep id)
    {out : List (DocumentId × String)} {l : List (DocumentId × DocumentId)}
    (hl : ∀ e ∈ l, e.2 = rep e.1) (hsome : ∀ e ∈ l, (get? e.2 out).isSome)
    {m : List (DocumentId × String)} (hm : ∀ id, get? (rep id) m = get? (rep id) out)
    (id : DocumentId) :
    get? id (l.foldl memberOutputPath m) =
      if id ∈ l.map Prod.fst then get? (rep id) out else get? id m := by
  induction l generalizing m with
  | nil => rfl
  | cons e l ih =>
    obtain ⟨path, hpath⟩ := Option.isSome_iff_exists.mp (hsome e List.mem_cons_self)
    have he := hl e List.mem_cons_self
    have hstep : memberOutputPath m e = insertKey e.1 path m := by
      unfold memberOutputPath
      rw [he, hm e.1, ← he, hpath]
    have hkept : ∀ id, get? (rep id) (memberOutputPath m e) = get? (rep id) out := by
      intro id
      rw [hstep]
      by_cases hid : e.1 = rep id
      · have hfixed : rep e.1 = e.1 := by rw [hid, hrep]
        rw [← hid, get?_insertKey_self, ← hpath, he, hfixed]
      · rw [get?_insertKey_ne _ _ hid, hm]
    rw [List.foldl_cons, ih (fun e' he' => hl e' (List.mem_cons_of_mem _ he'))
      (fun e' he' => hsome e' (List.mem_cons_of_mem _ he')) hkept, List.map_cons]
    by_cases hmem : id ∈ l.map Prod.fst
    · rw [if_pos hmem, if_pos (List.mem_cons_of_mem _ hmem)]
    · rw [if_neg hmem, hstep]
      by_cases hid : e.1 = id
      · subst hid
        rw [get?_insertKey_self, if_pos List.mem_cons_self, ← he, hpath]
      · have hnot : id ∉ e.1 :: l.map Prod.fst := by
          rw [List.mem_cons, not_or]
          exact ⟨Ne.symm hid, hmem⟩
        rw [get?_insertKey_ne _ _ hid, if_neg hnot]

theorem representativeOf_of_mem (hmap : Represents w map) {m r : DocumentId} (h : (m, r) ∈ map) :
    representativeOf map m = r := by
  rw [representativeOf, get?_of_mem hmap.sorted.nodup h, Option.getD_some]

theorem representativeOf_idempotent (hmap : Represents w map) (id : DocumentId) :
    representativeOf map (representativeOf map id) = representativeOf map id := by
  cases hget : get? id map with
  | none => simp [representativeOf, hget]
  | some r =>
    have hmem := mem_of_get? hget
    rw [representativeOf_of_mem hmap hmem, representativeOf_of_mem hmap (hmap.fixed id r hmem)]

/-- **Every document has the path of its representative.** -/
theorem get?_memberPaths (hmap : Represents w map) {out : List (DocumentId × String)}
    (hout : ∀ r ∈ map.map Prod.snd, (get? r out).isSome) {m r : DocumentId} (h : (m, r) ∈ map) :
    get? m (memberPaths map out) = get? r out := by
  have hall := get?_foldl_memberOutputPath (representativeOf_idempotent hmap)
    (fun e (he : e ∈ map) => (representativeOf_of_mem hmap he).symm)
    (fun e he => hout e.2 (List.mem_map_of_mem he)) (fun _ => rfl) m
  rw [memberPaths, hall, if_pos (List.mem_map_of_mem (f := Prod.fst) h),
    representativeOf_of_mem hmap h]

theorem mem_keys_memberPaths (hmap : Represents w map) {out : List (DocumentId × String)}
    (hout : ∀ r, r ∈ out.map Prod.fst ↔ r ∈ map.map Prod.snd) (id : DocumentId) :
    id ∈ (memberPaths map out).map Prod.fst ↔ id ∈ w.documents.map Prod.fst := by
  have hsome : ∀ r ∈ map.map Prod.snd, (get? r out).isSome := fun r hr =>
    Option.isSome_iff_ne_none.mpr fun hnone => get?_eq_none.mp hnone ((hout r).mpr hr)
  rw [← hmap.keys]
  have hall := get?_foldl_memberOutputPath (representativeOf_idempotent hmap)
    (fun e (he : e ∈ map) => (representativeOf_of_mem hmap he).symm)
    (fun e he => hsome e.2 (List.mem_map_of_mem he)) (fun _ => rfl) id
  rw [← not_iff_not, ← get?_eq_none, memberPaths, hall]
  by_cases hid : id ∈ map.map Prod.fst
  · obtain ⟨⟨id, r⟩, he, rfl⟩ := List.mem_map.mp hid
    rw [if_pos hid, representativeOf_of_mem hmap he]
    have hr := hsome r (List.mem_map_of_mem (f := Prod.snd) he)
    exact ⟨fun hnone => absurd hr (by simp [hnone]), fun hnot => absurd hid hnot⟩
  · rw [if_neg hid]
    refine ⟨fun _ => hid, fun _ => get?_eq_none.mpr fun hkey => hid ?_⟩
    obtain ⟨e, he, rfl⟩ := List.mem_map.mp ((hout id).mp hkey)
    exact List.mem_map_of_mem (f := Prod.fst) (hmap.fixed e.1 e.2 he)

/-! ## The loops -/

/-- The path is the one that was asked for, or that with a suffix of the identity. -/
def Requested (policy : CompilerPolicy) (preferred : String) (identity : ContentHash)
    (path : String) : Prop :=
  path = preferred ∨ ∃ length ∈ suffixLengths, path = suffixed policy preferred identity length

def ValidPath (X : Crates) (policy : CompilerPolicy) (path : String) : Prop :=
  validateOutputLogicalPath X.toExternals policy.pathLimits path = .ok ()

def DocumentAllocation.allotment (s : DocumentAllocation) : Allotment DocumentId String String :=
  ⟨s.held, s.output⟩

/-- What a document is given: only the path that it asks for is checked. -/
def DocumentPath (X : Crates) (policy : CompilerPolicy) (d : Document) (path : String) : Prop :=
  ValidPath X policy (preferredPath d) ∧
    Requested policy (preferredPath d) d.documentId.hash path

theorem gives_document {s t : DocumentAllocation} {d : Document}
    (h : allocateDocument X policy s d = .ok t) :
    Gives Document.documentId (portableKey X.toExternals) (DocumentPath X policy) d s.allotment
      t.allotment := by
  obtain ⟨hvalid, destination, hgoes, hheld, houtput⟩ := allocateDocument_eq_ok h
  refine ⟨destination, ⟨hvalid, ?_⟩, ?_, hheld, houtput⟩
  · cases hgoes with
    | preferred _ => exact Or.inl rfl
    | suffixed _ hfirst => exact Or.inr ⟨_, hfirst.mem, rfl⟩
  · cases hgoes with
    | preferred hfree => exact hfree
    | suffixed _ hfirst => exact hfirst.free

theorem freeCandidate_spec {β : Type} {allocated : List (String × β)} {preferred candidate : String}
    {hash : ContentHash} (h : freeCandidate X policy allocated preferred hash = some candidate) :
    (∃ length ∈ suffixLengths, candidate = suffixed policy preferred hash length) ∧
      portableKey X.toExternals candidate ∉ allocated.map Prod.fst := by
  unfold freeCandidate at h
  obtain ⟨length, hlength, rfl⟩ := List.mem_map.mp (List.mem_of_find?_eq_some h)
  have hnone := List.find?_some h
  exact ⟨⟨length, hlength, rfl⟩, get?_eq_none.mp (by simpa using hnone)⟩

section

variable {ι : Type} [LinearOrder ι]

def AuxiliaryAllocation.allotment (s : AuxiliaryAllocation ι) : Allotment ι String String :=
  ⟨{key | key ∈ s.allocated.map Prod.fst}, s.output⟩

/-- What a canvas or a Base is given: a path that was checked. -/
def AuxiliaryPath (X : Crates) (policy : CompilerPolicy) (directory : String)
    (r : AuxiliaryRequest ι) (path : String) : Prop :=
  ValidPath X policy (directory ++ "/" ++ r.sourceFile.logicalPath) ∧ ValidPath X policy path ∧
    Requested policy (directory ++ "/" ++ r.sourceFile.logicalPath) r.identity path

theorem allocateAuxiliaryPath_spec {preferred originalRequest path : String}
    {identity : ContentHash} {allocated allocated' : List (String × AllocatedPath)}
    {collision : Option (ConflictKind × String)}
    (h : allocateAuxiliaryPath X policy preferred originalRequest identity allocated =
      .ok ((path, collision), allocated')) :
    ValidPath X policy preferred ∧ ValidPath X policy path ∧
      Requested policy preferred identity path ∧
      portableKey X.toExternals path ∉ allocated.map Prod.fst ∧
      ∀ k, k ∈ allocated'.map Prod.fst ↔
        k = portableKey X.toExternals path ∨ k ∈ allocated.map Prod.fst := by
  unfold allocateAuxiliaryPath at h
  obtain ⟨hvalid, h⟩ := bind_unit_eq_ok.mp h
  cases hget : get? (portableKey X.toExternals preferred) allocated with
  | none =>
    rw [hget] at h
    obtain ⟨⟨rfl, -⟩, rfl⟩ := by simpa only [Except.ok.injEq, Prod.mk.injEq] using h
    exact ⟨hvalid, hvalid, Or.inl rfl, get?_eq_none.mp hget, fun k => mem_keys_insertKey⟩
  | some existing =>
    rw [hget] at h
    dsimp only at h
    cases hfree : freeCandidate X policy allocated preferred identity with
    | none =>
      rw [hfree] at h
      cases h
    | some candidate =>
      rw [hfree] at h
      obtain ⟨hcandidate, h⟩ := bind_unit_eq_ok.mp h
      obtain ⟨⟨rfl, -⟩, rfl⟩ := by simpa only [Except.ok.injEq, Prod.mk.injEq] using h
      obtain ⟨hsuffixed, hnew⟩ := freeCandidate_spec hfree
      exact ⟨hvalid, hcandidate, Or.inr hsuffixed, hnew, fun k => mem_keys_insertKey⟩

theorem gives_auxiliary {directory word : String} {s t : AuxiliaryAllocation ι}
    {r : AuxiliaryRequest ι} (h : allocateAuxiliary X policy directory word s r = .ok t) :
    Gives AuxiliaryRequest.id (portableKey X.toExternals) (AuxiliaryPath X policy directory) r
      s.allotment t.allotment := by
  unfold allocateAuxiliary at h
  obtain ⟨⟨⟨path, collision⟩, allocated⟩, hpath, h⟩ := bind_eq_ok.mp h
  obtain rfl := Except.ok.inj h
  obtain ⟨hpreferred, hvalid, hrequested, hnew, hkeys⟩ := allocateAuxiliaryPath_spec hpath
  exact ⟨path, ⟨hpreferred, hvalid, hrequested⟩, hnew, Set.ext hkeys, rfl⟩

end

/-- What an attachment is given. -/
structure AttachmentPath (X : Crates) (policy : CompilerPolicy) (e : AssetId × Asset)
    (path : String) : Prop where
  valid : ValidPath X policy path
  named : ∃ source, e.2.canonicalSource = some source ∧
    path = attachmentPath source.contentHash (truncateFilename e.2.basename
      (policy.limits.maxComponentBytes - (len source.contentHash.hex + 1)))

theorem allocateAsset_spec {e : AssetId × Asset} {r : (AssetId × String) × List Diagnostic}
    (h : allocateAsset X policy e = .ok r) :
    r.1.1 = e.1 ∧ AttachmentPath X policy e r.1.2 := by
  unfold allocateAsset at h
  cases hsource : e.2.canonicalSource with
  | none =>
    rw [hsource] at h
    cases h
  | some source =>
    rw [hsource] at h
    obtain ⟨-, h⟩ := bind_unit_eq_ok.mp h
    obtain ⟨hvalid, h⟩ := bind_unit_eq_ok.mp h
    obtain rfl := Except.ok.inj h
    exact ⟨rfl, hvalid, source, hsource, rfl⟩

theorem allocateAssetPaths_spec {paths : List (AssetId × String)} {diagnostics : List Diagnostic}
    (h : allocateAssetPaths X policy w = .ok (paths, diagnostics)) :
    Sorted paths ∧ (∀ id, id ∈ paths.map Prod.fst ↔ id ∈ w.assets.map Prod.fst) ∧
      ∀ p ∈ paths, ∃ e ∈ w.assets, e.1 = p.1 ∧ AttachmentPath X policy e p.2 := by
  obtain ⟨allocated, hmap, hresult⟩ := bind_eq_ok.mp h
  obtain ⟨rfl, -⟩ := Prod.mk.inj (Except.ok.inj hresult)
  have hnames : (allocated.map Prod.fst).map Prod.fst = w.assets.map Prod.fst := by
    rw [List.map_map]
    exact map_of_mapM hmap fun e _ r hr => (allocateAsset_spec hr).1
  refine ⟨sorted_collect _, fun id => ?_, fun p hp => ?_⟩
  · rw [← hnames, ← not_iff_not, ← get?_eq_none, get?_collect_eq_none]
  · obtain ⟨r, hr, rfl⟩ := List.mem_map.mp (mem_of_mem_collect hp)
    obtain ⟨e, he, hok⟩ := mem_of_mapM_right hmap hr
    exact ⟨e, he, (allocateAsset_spec hok).1.symm, (allocateAsset_spec hok).2⟩

/-! ## All four -/

def canvasRequests (w : CanonicalWorkspace) : List (AuxiliaryRequest CanvasId) :=
  w.canvases.map fun e => ⟨e.1, e.2.sourceFile, e.2.canvasId.hash⟩

def baseRequests (w : CanonicalWorkspace) : List (AuxiliaryRequest BaseArtifactId) :=
  (w.bases.mergeSort fun a b => decide (a.key ≤ b.key)).map fun b =>
    ⟨b.baseArtifactId, b.sourceFile, b.baseArtifactId.hash⟩

/-- The keys that the notes and the attachments hold. -/
def contentKeys (X : Crates) (paths : OutputPathMaps) : Set String :=
  {key | ∃ path ∈ paths.documents.map Prod.snd ++ paths.assets.map Prod.snd,
    key = portableKey X.toExternals path}

/-- What the loops of `allocate_paths` gave. -/
structure PathsAllocated (X : Crates) (policy : CompilerPolicy) (w : CanonicalWorkspace)
    (map : List (DocumentId × DocumentId)) (paths : OutputPathMaps) : Prop where
  documents : ∃ held out, GivesAll Document.documentId (portableKey X.toExternals)
    (DocumentPath X policy) (allocationOrder X.toExternals w map) ⟨∅, []⟩ ⟨held, out⟩ ∧
      paths.documents = memberPaths map out
  assetsSorted : Sorted paths.assets
  assetKeys : ∀ id, id ∈ paths.assets.map Prod.fst ↔ id ∈ w.assets.map Prod.fst
  assets : ∀ p ∈ paths.assets, ∃ e ∈ w.assets, e.1 = p.1 ∧ AttachmentPath X policy e p.2
  auxiliary : ∃ held held', GivesAll AuxiliaryRequest.id (portableKey X.toExternals)
      (AuxiliaryPath X policy "canvases") (canvasRequests w) ⟨contentKeys X paths, []⟩
      ⟨held, paths.canvases⟩ ∧
    GivesAll AuxiliaryRequest.id (portableKey X.toExternals) (AuxiliaryPath X policy "views")
      (baseRequests w) ⟨held, []⟩ ⟨held', paths.bases⟩

theorem pathsAllocated {paths : OutputPathMaps} {conflicts : List Conflict}
    {diagnostics : List Diagnostic}
    (h : allocatePaths X policy w map = .ok (paths, conflicts, diagnostics)) :
    PathsAllocated X policy w map paths := by
  simp only [allocatePaths, bind_eq_ok, Prod.exists, Except.ok.injEq, Prod.mk.injEq] at h
  obtain ⟨out, documentConflicts, hdocuments, assets, warnings, hassets, auxiliary, hauxiliary,
    rfl, -, -⟩ := h
  obtain ⟨hsorted, hkeys, hnamed⟩ := allocateAssetPaths_spec hassets
  simp only [allocateDocumentPaths, bind_eq_ok, Except.ok.injEq, Prod.mk.injEq] at hdocuments
  obtain ⟨s, hrun, rfl, -⟩ := hdocuments
  simp only [allocateCanvasAndBasePaths, bind_eq_ok, Except.ok.injEq] at hauxiliary
  obtain ⟨canvases, hcanvases, bases, hbases, rfl⟩ := hauxiliary
  refine ⟨⟨s.held, s.output, ?_, rfl⟩, hsorted, hkeys, hnamed, ?_⟩
  · have hgives := givesAll_of_foldlM DocumentAllocation.allotment
      (fun u d v => gives_document) hrun
    simpa [DocumentAllocation.allotment, DocumentAllocation.held] using hgives
  · refine ⟨canvases.allotment.held, bases.allotment.held, ?_, ?_⟩
    · have hgives := givesAll_of_foldlM AuxiliaryAllocation.allotment
        (fun u d v => gives_auxiliary) hcanvases
      have hheld : contentKeys X ⟨memberPaths map s.output, assets, canvases.output, bases.output⟩ =
          {key | key ∈ (collect ((((memberPaths map s.output).map Prod.snd) ++
            assets.map Prod.snd).map fun path =>
              (portableKey X.toExternals path, AllocatedPath.mk path path))).map Prod.fst} := by
        refine Set.ext fun key => ?_
        rw [Set.mem_ofPred_eq, ← not_iff_not, ← get?_eq_none, get?_collect_eq_none, not_iff_not,
          List.map_map, List.mem_map]
        exact exists_congr fun path => and_congr_right fun _ => eq_comm
      rw [hheld]
      exact hgives
    · exact givesAll_of_foldlM AuxiliaryAllocation.allotment
        (fun u d v => gives_auxiliary) hbases

variable {paths : OutputPathMaps}

/-- Every representative is given a path, and no other document is. -/
theorem mem_given_documents (hw : DocumentsKeyed w) (hmap : Represents w map) {held : Set String}
    {out : List (DocumentId × String)}
    (h : GivesAll Document.documentId (portableKey X.toExternals) (DocumentPath X policy)
      (allocationOrder X.toExternals w map) ⟨∅, []⟩ ⟨held, out⟩) (r : DocumentId) :
    r ∈ out.map Prod.fst ↔ r ∈ map.map Prod.snd := by
  have hnames := h.mem_names r
  rw [hnames, List.mem_map]
  constructor
  · rintro (⟨d, hd, rfl⟩ | hnil)
    · obtain ⟨id, hid, hget⟩ := mem_allocationOrder.mp hd
      rwa [hw.key _ (mem_of_get? hget)]
    · exact absurd hnil List.not_mem_nil
  · intro hr
    obtain ⟨d, hget, hid⟩ := hmap.document hw hr
    exact Or.inl ⟨d, mem_allocationOrder.mpr ⟨r, hr, hget⟩, hid⟩

/-- **There is a path for every record, and for nothing else.** -/
theorem PathsAllocated.cover (h : PathsAllocated X policy w map paths) (hw : DocumentsKeyed w)
    (hmap : Represents w map) : PathsCover w paths := by
  obtain ⟨⟨held, out, hgives, hout⟩, -, hassets, -, ⟨_, _, hcanvases, hbases⟩⟩ := h
  refine ⟨fun id => ?_, hassets, fun id => ?_, fun id => ?_⟩
  · rw [hout]
    exact mem_keys_memberPaths hmap (mem_given_documents hw hmap hgives) id
  · have hnames := hcanvases.mem_names id
    rw [hnames, canvasRequests, List.map_map]
    simp [Function.comp_def]
  · have hnames := hbases.mem_names id
    rw [hnames, baseRequests, List.map_map]
    simp [Function.comp_def]

/-- **Every document has the path of its representative.** -/
theorem PathsAllocated.member (h : PathsAllocated X policy w map paths) (hw : DocumentsKeyed w)
    (hmap : Represents w map) {m r : DocumentId} (hm : (m, r) ∈ map) :
    get? m paths.documents = get? r paths.documents := by
  obtain ⟨⟨held, out, hgives, hout⟩, -⟩ := h
  have hsome : ∀ r ∈ map.map Prod.snd, (get? r out).isSome := fun r hr =>
    Option.isSome_iff_ne_none.mpr fun hnone => get?_eq_none.mp hnone
      ((mem_given_documents hw hmap hgives r).mpr hr)
  rw [hout, get?_memberPaths hmap hsome hm, get?_memberPaths hmap hsome (hmap.fixed m r hm)]

theorem PathsAllocated.documentsSorted (h : PathsAllocated X policy w map paths) :
    Sorted paths.documents := by
  obtain ⟨⟨held, out, hgives, hout⟩, -⟩ := h
  rw [hout]
  exact sorted_memberPaths (hgives.apart (apart_empty ∅)).sorted

/-- The paths of the notes are the ones that may not be valid. -/
theorem PathsAllocated.valid (h : PathsAllocated X policy w map paths) :
    (∀ path ∈ paths.values, ValidPath X policy path) ↔
      ∀ e ∈ paths.documents, ValidPath X policy e.2 := by
  obtain ⟨-, -, -, hassets, ⟨_, _, hcanvases, hbases⟩⟩ := h
  unfold OutputPathMaps.values
  constructor
  · intro hvalid e he
    exact hvalid e.2 (by simp [List.mem_map_of_mem (f := Prod.snd) he])
  · intro hdocuments path hpath
    simp only [List.mem_append, or_assoc] at hpath
    rcases hpath with hpath | hpath | hpath | hpath
    · obtain ⟨e, he, rfl⟩ := List.mem_map.mp hpath
      exact hdocuments e he
    · obtain ⟨p, hp, rfl⟩ := List.mem_map.mp hpath
      obtain ⟨_, _, _, hattachment⟩ := hassets p hp
      exact hattachment.valid
    · obtain ⟨e, he, rfl⟩ := List.mem_map.mp hpath
      obtain hnil | ⟨⟨r, -, -, hr⟩, -⟩ := hcanvases.given he
      · exact absurd hnil List.not_mem_nil
      · exact hr.2.1
    · obtain ⟨e, he, rfl⟩ := List.mem_map.mp hpath
      obtain hnil | ⟨⟨r, -, -, hr⟩, -⟩ := hbases.given he
      · exact absurd hnil List.not_mem_nil
      · exact hr.2.1

end

end Okc.Core
