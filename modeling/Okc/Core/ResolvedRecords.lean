import Okc.Core.LinkSearch
import Okc.Core.PlannedOutputs

/-!
# What resolving changes (`plan.rs:1963-2462`)

`resolve_links` goes over every link and every file reference. It writes the resolution of each and
nothing else, and it reports one conflict for each that it leaves ambiguous.

* `resolveLink_spec`, `resolveCanvasReference_spec`: what happens to one link and to one reference.
* `relinked_of_resolveLinks`, `conflicts_of_resolveLinks`, `settled_of_resolveLinks`: what happens
  to all of them.
-/

namespace Okc.Core

open Okc.Lib

/-! ## Records before they are resolved -/

/-- The link as it was found. -/
def DocumentLink.pending (link : DocumentLink) : DocumentLink :=
  { link with resolution := .pending }

/-- The reference as it was read. -/
def CanvasFileReference.pending (reference : CanvasFileReference) : CanvasFileReference :=
  { reference with resolution := .pending }

def Document.pending (d : Document) : Document :=
  { d with links := d.links.map DocumentLink.pending }

def Canvas.pending (c : Canvas) : Canvas :=
  { c with fileReferences := c.fileReferences.map CanvasFileReference.pending }

theorem CanvasFileReference.pending_of_resolution {reference : CanvasFileReference}
    (h : reference.resolution = .pending) : reference.pending = reference := by
  unfold CanvasFileReference.pending
  rw [← h]

/-- The record is in the workspace. -/
def Present (w : CanonicalWorkspace) : CanvasReferenceTarget → Prop
  | .document id => (get? id w.documents).isSome
  | .asset id => (get? id w.assets).isSome
  | .canvas id => (get? id w.canvases).isSome
  | .base id => ∃ base ∈ w.bases, base.baseArtifactId = id

/-- What becomes of a reference. -/
inductive Settled (w : CanonicalWorkspace) : CanvasReferenceResolution → Prop
  | resolved {target : CanvasReferenceTarget} (h : Present w target) : Settled w (.resolved target)
  | unresolved : Settled w .unresolved
  | ambiguous {candidates : List CanvasReferenceTarget} (hcount : 2 ≤ candidates.length)
      (hascending : candidates.IsChain (· < ·)) (h : ∀ t ∈ candidates, Present w t) :
      Settled w (.ambiguous candidates)

section

variable (X : Crates) (map : List (DocumentId × DocumentId))

/-- The conflict about a link that is ambiguous. -/
def linkConflict (documentId : DocumentId) (linkId : LinkId) (rawTarget : String)
    (candidates : List DocumentId) : Conflict :=
  conflictWithSubject X .linkAmbiguity true (some (.markdownLink documentId linkId rawTarget))
    (representativeOf map documentId :: candidates) (markdownAmbiguityMessage rawTarget) none
    .unresolved

def linkConflicts (d : Document) (link : DocumentLink) : List Conflict :=
  link.candidates.toList.map (linkConflict X map d.documentId link.linkId link.rawTarget)

/-- The conflict about a reference that is ambiguous. -/
def referenceConflict (canvasId : CanvasId) (nodeId rawPath : String)
    (candidates : List CanvasReferenceTarget) : Conflict :=
  conflictWithSubject X .linkAmbiguity true (some (.canvasReference canvasId nodeId rawPath))
    (documentTargets candidates)
    (canvasAmbiguityMessage canvasId ⟨nodeId, rawPath, .ambiguous candidates⟩ candidates) none
    .unresolved

def referenceConflicts (canvas : Canvas) (reference : CanvasFileReference) : List Conflict :=
  reference.candidates.toList.map
    (referenceConflict X canvas.canvasId reference.nodeId reference.rawPath)

end

section

variable {X : Crates} {w w' : CanonicalWorkspace} {map : List (DocumentId × DocumentId)}
  {indexes : LinkIndexes} {paths : OutputPathMaps}

/-! ## One link -/

theorem ambiguousLink_spec {d : Document} {link : DocumentLink} {candidates : List DocumentId}
    {r : DocumentLink × List Conflict × List Diagnostic}
    (h : ambiguousLink X paths d (representativeOf map d.documentId) link candidates = .ok r) :
    r.1.pending = link.pending ∧ r.2.1 = linkConflicts X map d r.1 := by
  unfold ambiguousLink at h
  cases hpath : link.path with
  | none =>
    rw [hpath] at h
    rw [← Except.ok.inj h]
    exact ⟨rfl, rfl⟩
  | some path =>
    rw [hpath] at h
    obtain ⟨_, -, hcontained⟩ := bind_eq_ok.mp h
    obtain ⟨_, -, hr⟩ := bind_eq_ok.mp hcontained
    rw [← Except.ok.inj hr]
    exact ⟨rfl, rfl⟩

theorem linkWithoutCandidate_spec {d : Document} {id : DocumentId} {link : DocumentLink}
    {path : String} {r : DocumentLink × List Conflict × List Diagnostic}
    (h : linkWithoutCandidate X indexes paths d id link path = .ok r) :
    r.1.pending = link.pending ∧ r.2.1 = [] ∧ (r.1 = link ∨ r.1.candidates = none) := by
  unfold linkWithoutCandidate at h
  cases hasset : (resolveRelativeSourcePath d.sourceFile.logicalPath path).bind fun resolved =>
      get? (pathKey X.toExternals d.sourceFile.sourceId resolved) indexes.assets with
  | none =>
    rw [hasset] at h
    obtain ⟨_, -, h⟩ := bind_eq_ok.mp h
    obtain ⟨_, -, h⟩ := bind_eq_ok.mp h
    rw [← Except.ok.inj h]
    exact ⟨rfl, rfl, Or.inr rfl⟩
  | some assetId =>
    rw [hasset] at h
    rw [← Except.ok.inj h]
    dsimp only
    by_cases hpath : (get? assetId paths.assets).isSome
    · rw [if_pos hpath]
      exact ⟨rfl, rfl, Or.inr rfl⟩
    · rw [if_neg hpath]
      exact ⟨rfl, rfl, Or.inl rfl⟩

theorem linkWithinDocument_spec {d : Document} {id : DocumentId} {link : DocumentLink} :
    (linkWithinDocument X w d id link).1.pending = link.pending ∧
      (linkWithinDocument X w d id link).2.1 = [] ∧
        (linkWithinDocument X w d id link).1.candidates = none := by
  unfold linkWithinDocument
  split_ifs
  · exact ⟨rfl, rfl, rfl⟩
  · exact ⟨rfl, rfl, rfl⟩
  · exact ⟨rfl, rfl, rfl⟩

theorem linkConflicts_eq_nil {d : Document} {link : DocumentLink} (h : link.candidates = none) :
    linkConflicts X map d link = [] := by
  unfold linkConflicts
  rw [h]
  rfl

/-- **Only the resolution of a link is written, and an ambiguous one is reported.** -/
theorem resolveLink_spec {d : Document} {link : DocumentLink}
    {r : DocumentLink × List Conflict × List Diagnostic}
    (h : resolveLink X w map indexes paths d link = .ok r) :
    r.1.pending = link.pending ∧
      (link.resolution = .pending → r.2.1 = linkConflicts X map d r.1) := by
  unfold resolveLink at h
  dsimp only at h
  split at h
  · rw [← Except.ok.inj h]
    exact ⟨rfl, fun _ => rfl⟩
  · obtain ⟨hpending, hconflicts⟩ := ambiguousLink_spec h
    exact ⟨hpending, fun _ => hconflicts⟩
  · cases hpath : link.path with
    | some path =>
      rw [hpath] at h
      obtain ⟨hpending, hconflicts, hkept⟩ := linkWithoutCandidate_spec h
      refine ⟨hpending, fun hlink => ?_⟩
      rw [hconflicts, linkConflicts_eq_nil]
      obtain hsame | hnone := hkept
      · rw [hsame, DocumentLink.candidates, hlink]
      · exact hnone
    | none =>
      rw [hpath] at h
      obtain ⟨hpending, hconflicts, hnone⟩ := @linkWithinDocument_spec X w d
        (representativeOf map d.documentId) link
      rw [← Except.ok.inj h]
      exact ⟨hpending, fun _ => hconflicts.trans (linkConflicts_eq_nil hnone).symm⟩

/-! ## One reference -/

theorem mem_pathCandidates {τ : Type} [DecidableEq τ] {Y : Externals} {sourceId : SourceId}
    {index : List ((String ×ₗ String) × List τ)} {resolved : String} {t : τ}
    (h : t ∈ pathCandidates Y sourceId index resolved) :
    ∃ path, t ∈ (get? (pathKey Y sourceId path) index).getD [] := by
  unfold pathCandidates at h
  dsimp only at h
  split_ifs at h
  · exact ⟨_, h⟩
  · exact ⟨_, h⟩

/-- A representative is a document. -/
theorem Represents.present (hw : DocumentsKeyed w) (hmap : Represents w map)
    {e : DocumentId × Document} (he : e ∈ w.documents) :
    (get? (representativeOf map e.2.documentId) w.documents).isSome := by
  have hkey : e.2.documentId ∈ map.map Prod.fst := by
    rw [hmap.keys, hw.key e he]
    exact List.mem_map_of_mem he
  obtain ⟨⟨m, r⟩, hm, hme⟩ := List.mem_map.mp hkey
  have hget : get? e.2.documentId map = some r := hme ▸ get?_of_mem hmap.sorted.nodup hm
  obtain ⟨d, hd, -⟩ := hmap.document hw (List.mem_map_of_mem (mem_of_get? hget))
  rw [representativeOf, hget, Option.getD_some, hd]
  rfl

theorem present_of_targetAt (hw : DocumentsKeyed w) (hmap : Represents w map) {Y : Externals}
    {sourceId : SourceId} {path : String} {t : CanvasReferenceTarget}
    (h : TargetAt Y w map sourceId path t) : Present w t := by
  have hkey : ∀ {κ ν : Type} [LinearOrder κ] {m : List (κ × ν)} {k : κ},
      k ∈ m.map Prod.fst → (get? k m).isSome := by
    intro κ ν _ m k hk
    exact Option.isSome_iff_ne_none.mpr fun hnone => get?_eq_none.mp hnone hk
  cases t with
  | document r =>
    obtain ⟨e, he, -, rfl⟩ := h
    exact hmap.present hw he
  | asset a =>
    obtain ⟨e, he, -, rfl⟩ := h
    exact hkey (List.mem_map_of_mem he)
  | canvas c =>
    obtain ⟨e, he, -, rfl⟩ := h
    exact hkey (List.mem_map_of_mem he)
  | base b =>
    obtain ⟨base, hbase, -, rfl⟩ := h
    exact ⟨base, hbase, rfl⟩

/-- What a reference may stand for is in the workspace. -/
theorem present_of_canvasCandidates (hw : DocumentsKeyed w) (hmap : Represents w map)
    {sourceId : SourceId} {resolved rawPath : String} {t : CanvasReferenceTarget}
    (h : t ∈ resolveCanvasReferenceCandidates X.toExternals (linkIndexes X.toExternals w map)
      sourceId resolved rawPath) : Present w t := by
  unfold resolveCanvasReferenceCandidates at h
  rw [mem_sortedSet] at h
  split_ifs at h
  · obtain ⟨r, hr, rfl⟩ := List.mem_map.mp h
    rw [keyCandidates, linkIndexes, getD_groups, mem_valuesOf, mem_keyEntries] at hr
    obtain ⟨e, he, -, rfl⟩ := hr
    exact hmap.present hw he
  · obtain ⟨path, hpath⟩ := mem_pathCandidates h
    rw [linkIndexes, getD_map_groups (sortedSet_eq_nil.mpr rfl), mem_sortedSet, mem_valuesOf,
      mem_targetEntries] at hpath
    exact present_of_targetAt hw hmap hpath

/-- **Only the resolution of a reference is written, to what is there, and an ambiguous one is
reported.** -/
theorem resolveCanvasReference_spec (hw : DocumentsKeyed w) (hmap : Represents w map)
    {canvas : Canvas} {destination : String} {reference : CanvasFileReference}
    {r : CanvasFileReference × List Conflict × List Diagnostic}
    (h : resolveCanvasReference X (linkIndexes X.toExternals w map) paths canvas destination
      reference = .ok r) :
    r.1.pending = reference.pending ∧ r.2.1 = referenceConflicts X canvas r.1 ∧
      Settled w r.1.resolution := by
  unfold resolveCanvasReference at h
  cases hresolved : resolveRelativeSourcePath canvas.sourceFile.logicalPath reference.rawPath with
  | none =>
    rw [hresolved] at h
    cases h
  | some resolved =>
    rw [hresolved] at h
    dsimp only at h
    have hpresent := fun t => @present_of_canvasCandidates X w map hw hmap
      canvas.sourceFile.sourceId resolved reference.rawPath t
    have hascending : (resolveCanvasReferenceCandidates X.toExternals
        (linkIndexes X.toExternals w map) canvas.sourceFile.sourceId resolved
        reference.rawPath).IsChain (· < ·) :=
      List.isChain_iff_pairwise.mpr (sortedSet_sorted _)
    generalize resolveCanvasReferenceCandidates X.toExternals (linkIndexes X.toExternals w map)
      canvas.sourceFile.sourceId resolved reference.rawPath = candidates at h hpresent hascending
    cases candidates with
    | nil =>
      obtain ⟨_, -, h⟩ := bind_eq_ok.mp h
      rw [← Except.ok.inj h]
      exact ⟨rfl, rfl, .unresolved⟩
    | cons target rest =>
      cases rest with
      | nil =>
        cases hpath : canvasReferenceOutputPath paths target with
        | none =>
          dsimp only at h
          rw [hpath] at h
          cases h
        | some _ =>
          dsimp only at h
          rw [hpath] at h
          rw [← Except.ok.inj h]
          exact ⟨rfl, rfl, .resolved (hpresent target List.mem_cons_self)⟩
      | cons other rest =>
        obtain ⟨_, -, h⟩ := bind_eq_ok.mp h
        rw [← Except.ok.inj h]
        exact ⟨rfl, rfl, .ambiguous (by simp) hascending hpresent⟩

/-! ## All of them -/

/-- The workspaces differ in the resolutions of their links and their references only. -/
structure Relinked (w w' : CanonicalWorkspace) : Prop where
  documents : w'.documents.map (fun e => (e.1, e.2.pending)) =
    w.documents.map fun e => (e.1, e.2.pending)
  canvases : w'.canvases.map (fun e => (e.1, e.2.pending)) =
    w.canvases.map fun e => (e.1, e.2.pending)
  assets : w'.assets = w.assets
  bases : w'.bases = w.bases

variable {conflicts : List Conflict} {diagnostics : List Diagnostic}
  {snapshots : List VaultSnapshot}

theorem resolveDocument_eq_ok {e : DocumentId × Document}
    {r : (DocumentId × Document) × List Conflict × List Diagnostic}
    (h : resolveDocument X w map paths e = .ok r) :
    ∃ links, e.2.links.mapM (resolveLink X w map (linkIndexes X.toExternals w map) paths e.2) =
        .ok links ∧
      r.1 = (e.1, { e.2 with links := links.map Prod.fst }) ∧
      r.2.1 = links.flatMap fun l => l.2.1 := by
  obtain ⟨links, hlinks, h⟩ := bind_eq_ok.mp h
  rw [← Except.ok.inj h]
  exact ⟨links, hlinks, rfl, rfl⟩

theorem resolveCanvas_eq_ok {e : CanvasId × Canvas}
    {r : (CanvasId × Canvas) × List Conflict × List Diagnostic}
    (h : resolveCanvas X w map paths e = .ok r) :
    ∃ destination references, e.2.fileReferences.mapM (resolveCanvasReference X
        (linkIndexes X.toExternals w map) paths e.2 destination) = .ok references ∧
      r.1 = (e.1, { e.2 with fileReferences := references.map Prod.fst }) ∧
      r.2.1 = references.flatMap fun l => l.2.1 := by
  unfold resolveCanvas at h
  cases hget : get? e.2.canvasId paths.canvases with
  | none =>
    rw [hget] at h
    cases h
  | some destination =>
    rw [hget] at h
    obtain ⟨references, hreferences, h⟩ := bind_eq_ok.mp h
    rw [← Except.ok.inj h]
    exact ⟨destination, references, hreferences, rfl, rfl⟩

/-- **Only resolutions are written.** -/
theorem relinked_of_resolveLinks (hw : DocumentsKeyed w) (hmap : Represents w map)
    (h : resolveLinks X w map paths = .ok (w', conflicts, diagnostics)) : Relinked w w' := by
  obtain ⟨documents, hdocuments, h⟩ := bind_eq_ok.mp h
  obtain ⟨canvases, hcanvases, h⟩ := bind_eq_ok.mp h
  obtain ⟨rfl, -, -⟩ := by simpa only [Except.ok.injEq, Prod.mk.injEq] using h
  refine ⟨?_, ?_, rfl, rfl⟩
  · rw [List.map_map]
    refine map_of_mapM hdocuments fun e _ r hr => ?_
    obtain ⟨links, hlinks, hfirst, -⟩ := resolveDocument_eq_ok hr
    have hsame : links.map (fun l => l.1.pending) = e.2.links.map DocumentLink.pending :=
      map_of_mapM hlinks fun link _ l hl => (resolveLink_spec hl).1
    rw [Function.comp_apply, hfirst, Document.pending, Document.pending, List.map_map, ← hsame]
    rfl
  · rw [List.map_map]
    refine map_of_mapM hcanvases fun e _ r hr => ?_
    obtain ⟨destination, references, hreferences, hfirst, -⟩ := resolveCanvas_eq_ok hr
    have hsame : references.map (fun l => l.1.pending) =
        e.2.fileReferences.map CanvasFileReference.pending :=
      map_of_mapM hreferences fun reference _ l hl => (resolveCanvasReference_spec hw hmap hl).1
    rw [Function.comp_apply, hfirst, Canvas.pending, Canvas.pending, List.map_map, ← hsame]
    rfl

/-- **The conflicts are those of the links and the references that are left ambiguous.** -/
theorem conflicts_of_resolveLinks (hw : DocumentsKeyed w) (hmap : Represents w map)
    (hpending : ∀ e ∈ w.documents, ∀ link ∈ e.2.links, link.resolution = .pending)
    (h : resolveLinks X w map paths = .ok (w', conflicts, diagnostics)) :
    conflicts = (w'.documents.flatMap fun e => e.2.links.flatMap (linkConflicts X map e.2)) ++
      w'.canvases.flatMap fun e => e.2.fileReferences.flatMap (referenceConflicts X e.2) := by
  obtain ⟨documents, hdocuments, h⟩ := bind_eq_ok.mp h
  obtain ⟨canvases, hcanvases, h⟩ := bind_eq_ok.mp h
  obtain ⟨rfl, rfl, -⟩ := by simpa only [Except.ok.injEq, Prod.mk.injEq] using h
  dsimp only
  rw [List.flatMap_map, List.flatMap_map]
  congr 1
  · refine List.flatMap_congr fun r hr => ?_
    obtain ⟨e, he, hstep⟩ := mem_of_mapM_right hdocuments hr
    obtain ⟨links, hlinks, hfirst, hconflicts⟩ := resolveDocument_eq_ok hstep
    rw [hconflicts, hfirst, List.flatMap_map]
    refine List.flatMap_congr fun l hl => ?_
    obtain ⟨link, hlink, hresolve⟩ := mem_of_mapM_right hlinks hl
    exact (resolveLink_spec hresolve).2 (hpending e he link hlink)
  · refine List.flatMap_congr fun r hr => ?_
    obtain ⟨e, he, hstep⟩ := mem_of_mapM_right hcanvases hr
    obtain ⟨destination, references, hreferences, hfirst, hconflicts⟩ := resolveCanvas_eq_ok hstep
    rw [hconflicts, hfirst, List.flatMap_map]
    refine List.flatMap_congr fun l hl => ?_
    obtain ⟨reference, hreference, hresolve⟩ := mem_of_mapM_right hreferences hl
    exact (resolveCanvasReference_spec hw hmap hresolve).2.1

/-- **No reference stays pending, and what it is resolved to is there.** -/
theorem settled_of_resolveLinks (hw : DocumentsKeyed w) (hmap : Represents w map)
    (h : resolveLinks X w map paths = .ok (w', conflicts, diagnostics)) :
    ∀ e ∈ w'.canvases, ∀ reference ∈ e.2.fileReferences, Settled w reference.resolution := by
  obtain ⟨documents, -, h⟩ := bind_eq_ok.mp h
  obtain ⟨canvases, hcanvases, h⟩ := bind_eq_ok.mp h
  obtain ⟨rfl, -, -⟩ := by simpa only [Except.ok.injEq, Prod.mk.injEq] using h
  intro e he reference hreference
  obtain ⟨r, hr, rfl⟩ := List.mem_map.mp he
  obtain ⟨e, -, hstep⟩ := mem_of_mapM_right hcanvases hr
  obtain ⟨destination, references, hreferences, hfirst, -⟩ := resolveCanvas_eq_ok hstep
  rw [hfirst] at hreference
  obtain ⟨l, hl, rfl⟩ := List.mem_map.mp hreference
  obtain ⟨_, -, hresolve⟩ := mem_of_mapM_right hreferences hl
  exact (resolveCanvasReference_spec hw hmap hresolve).2.2

/-! ## What stays -/

/-- A record of the one workspace is a record of the other, but for what it refers to. -/
theorem exists_of_map_eq {α β : Type} {f : α → β} {l m : List α} (h : m.map f = l.map f) {a : α}
    (ha : a ∈ m) : ∃ b ∈ l, f b = f a := by
  have hmem : f a ∈ l.map f := h ▸ List.mem_map_of_mem ha
  exact List.mem_map.mp hmem

theorem Relinked.document (h : Relinked w w') {e : DocumentId × Document} (he : e ∈ w'.documents) :
    ∃ e' ∈ w.documents, e'.1 = e.1 ∧ e'.2.pending = e.2.pending := by
  obtain ⟨e', he', heq⟩ := exists_of_map_eq h.documents he
  exact ⟨e', he', Prod.mk.inj heq⟩

theorem Relinked.canvas (h : Relinked w w') {e : CanvasId × Canvas} (he : e ∈ w'.canvases) :
    ∃ e' ∈ w.canvases, e'.1 = e.1 ∧ e'.2.pending = e.2.pending := by
  obtain ⟨e', he', heq⟩ := exists_of_map_eq h.canvases he
  exact ⟨e', he', Prod.mk.inj heq⟩

theorem Relinked.documentKeys (h : Relinked w w') :
    w'.documents.map Prod.fst = w.documents.map Prod.fst := by
  have hkeys := congrArg (List.map Prod.fst) h.documents
  rwa [List.map_map, List.map_map] at hkeys

theorem Relinked.canvasKeys (h : Relinked w w') :
    w'.canvases.map Prod.fst = w.canvases.map Prod.fst := by
  have hkeys := congrArg (List.map Prod.fst) h.canvases
  rwa [List.map_map, List.map_map] at hkeys

theorem Document.file_of_pending {d d' : Document} (h : d'.pending = d.pending) :
    d'.sourceFile = d.sourceFile ∧ d'.documentId = d.documentId := by
  have hfile : d'.pending.sourceFile = d.pending.sourceFile := congrArg Document.sourceFile h
  have hid : d'.pending.documentId = d.pending.documentId := congrArg Document.documentId h
  exact ⟨hfile, hid⟩

theorem Canvas.file_of_pending {c c' : Canvas} (h : c'.pending = c.pending) :
    c'.sourceFile = c.sourceFile ∧ c'.canvasId = c.canvasId := by
  have hfile : c'.pending.sourceFile = c.pending.sourceFile := congrArg Canvas.sourceFile h
  have hid : c'.pending.canvasId = c.pending.canvasId := congrArg Canvas.canvasId h
  exact ⟨hfile, hid⟩

/-- What the validator of the operations asks of the records is not about their links. -/
theorem Relinked.ready (h : Relinked w w') (hw : Ready X w snapshots) : Ready X w' snapshots := by
  refine ⟨⟨?_, ?_, ?_⟩, ⟨fun e he => ?_, fun e he => ?_, ?_, ?_⟩, fun e he => ?_⟩
  · rw [Sorted, h.documentKeys]
    exact hw.documents
  · rw [Sorted, h.canvasKeys]
    exact hw.canvases
  · rw [h.assets]
    exact hw.assets
  · obtain ⟨e', he', hid, hsame⟩ := h.document he
    obtain ⟨hsource, hd⟩ := Document.file_of_pending hsame
    rw [← hsource, ← hd, ← hid]
    exact hw.sealed.document e' he'
  · obtain ⟨e', he', hid, hsame⟩ := h.canvas he
    obtain ⟨hsource, hc⟩ := Canvas.file_of_pending hsame
    rw [← hsource, ← hc, ← hid]
    exact hw.sealed.canvas e' he'
  · rw [h.assets]
    exact hw.sealed.asset
  · rw [h.bases]
    exact hw.sealed.base
  · obtain ⟨e', he', -, hsame⟩ := h.document he
    rw [← (Document.file_of_pending hsame).1]
    exact hw.markdown e' he'

theorem Relinked.cover (h : Relinked w w') (hpaths : PathsCover w paths) : PathsCover w' paths := by
  obtain ⟨hdocuments, hassets, hcanvases, hbases⟩ := hpaths
  refine ⟨?_, ?_, ?_, ?_⟩
  · rwa [h.documentKeys]
  · rwa [h.assets]
  · rwa [h.canvasKeys]
  · rwa [h.bases]

end

end Okc.Core
