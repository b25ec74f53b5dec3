import Okc.Core.DocumentPaths
import Okc.Core.Resolution

/-!
# What a target reaches (`plan.rs:1963-2164`, `plan.rs:2285-2322`, `plan.rs:2423-2462`)

The guide for links has an explicit path win over notes that only share a name, and a canvas use the
same resolver. The search of a canvas does so. The search of a document tries every note, also by
stem, title and alias, before it tries an attachment; so a note can take a link from an attachment
that stands at the very path of the link.

* `linkReaches_iff`, `referenceReaches_iff`: what a link and a reference get.
* `resolveLinks_explicit_iff`: a link gets the target, and the references at its place too, exactly
  when both searches reach it.
* `photo_diverted`: the attachment `photo.png` and a note named `photo`.
-/

namespace Okc.Core

open Okc.Lib

/-! ## A search in three steps -/

section

variable {τ : Type}

/-- `t` and nothing else. -/
def Only (p : τ → Prop) (t : τ) : Prop := ∀ u, p u ↔ u = t

def Nowhere (p : τ → Prop) : Prop := ∀ u, ¬ p u

/-- What is at the path as written comes first, then what is at the path with `.md`, if that is
tried, and last what the name calls. -/
def Finds (written extended : τ → Prop) (tried : Prop) (called : τ → Prop) (t : τ) : Prop :=
  Only written t ∨ (Nowhere written ∧ tried ∧ Only extended t) ∨
    (Nowhere written ∧ (tried → Nowhere extended) ∧ Only called t)

/-- Every step finds nothing. -/
def Misses (written extended : τ → Prop) (tried : Prop) (called : τ → Prop) : Prop :=
  Nowhere written ∧ (tried → Nowhere extended) ∧ Nowhere called

/-- The search over lists. -/
def search [DecidableEq τ] (ws es : List τ) (tried : Prop) [Decidable tried] (cs : List τ) :
    List τ :=
  let candidates := if ws = [] ∧ tried then es else ws
  if candidates = [] then cs else candidates

theorem nowhere_mem {xs : List τ} : Nowhere (· ∈ xs) ↔ xs = [] :=
  List.eq_nil_iff_forall_not_mem.symm

theorem search_eq_nil [DecidableEq τ] {ws es cs : List τ} {tried : Prop} [Decidable tried] :
    search ws es tried cs = [] ↔ Misses (· ∈ ws) (· ∈ es) tried (· ∈ cs) := by
  simp only [search, Misses, nowhere_mem]
  by_cases hw : ws = []
  · by_cases ht : tried
    · by_cases he : es = [] <;> simp [hw, ht, he]
    · simp [hw, ht]
  · simp [hw]

theorem sortedSet_search [LinearOrder τ] [DecidableEq τ] {ws es cs : List τ} {tried : Prop}
    [Decidable tried] {t : τ} :
    sortedSet (search ws es tried cs) = [t] ↔ Finds (· ∈ ws) (· ∈ es) tried (· ∈ cs) t := by
  have hempty : ¬ Only (· ∈ ([] : List τ)) t := fun h => List.not_mem_nil ((h t).mpr rfl)
  simp only [sortedSet_eq_singleton, search, Finds, nowhere_mem]
  by_cases hw : ws = []
  · subst hw
    by_cases ht : tried
    · by_cases he : es = []
      · subst he
        simp only [ht, hempty, and_self, if_true, true_and, false_or, forall_const]
        exact Iff.rfl
      · simp only [ht, he, hempty, and_self, if_true, if_false, true_and, false_or, forall_const,
          false_and, or_false]
        exact Iff.rfl
    · simp only [ht, hempty, and_false, if_true, if_false, true_and, false_or, false_and,
        IsEmpty.forall_iff]
      exact Iff.rfl
  · simp only [hw, false_and, if_false, or_false]
    exact Iff.rfl

end

/-! ## What stands where -/

/-- The file is of the source, and its path is the same to links. -/
def SourceFile.LiesAt (X : Externals) (sourceId : SourceId) (path : String) (file : SourceFile) :
    Prop :=
  file.sourceId = sourceId ∧ normalizeLinkPath X file.logicalPath = normalizeLinkPath X path

section

variable (X : Externals) (w : CanonicalWorkspace) (map : List (DocumentId × DocumentId))
  (sourceId : SourceId)

/-- A note at the path has this representative. -/
def NoteAt (path : String) (r : DocumentId) : Prop :=
  ∃ e ∈ w.documents, e.2.sourceFile.LiesAt X sourceId path ∧
    representativeOf map e.2.documentId = r

/-- An occurrence of the attachment is at the path. -/
def AttachmentAt (path : String) (a : AssetId) : Prop :=
  ∃ e ∈ w.assets, (∃ source ∈ e.2.sources, source.LiesAt X sourceId path) ∧ e.1 = a

def TargetAt (path : String) : CanvasReferenceTarget → Prop
  | .document r => NoteAt X w map sourceId path r
  | .asset a => AttachmentAt X w sourceId path a
  | .canvas c => ∃ e ∈ w.canvases, e.2.sourceFile.LiesAt X sourceId path ∧ e.1 = c
  | .base b => ∃ base ∈ w.bases, base.sourceFile.LiesAt X sourceId path ∧ base.baseArtifactId = b

/-- A note whose title, alias or stem is the stem of the target has this representative. -/
def Called (target : String) (r : DocumentId) : Prop :=
  ∃ e ∈ w.documents,
    normalizeLookupKey X ((fileStem target).getD target) ∈ lookupKeys X e.2 ∧
      representativeOf map e.2.documentId = r

/-- What a link reaches, where `resolved` is the path that its target leads to. An attachment is
reached only where the notes miss, and of two attachments at the path the greater identity is. -/
def LinkReaches (target resolved : String) : CanvasReferenceTarget → Prop
  | .document r =>
    Finds (NoteAt X w map sourceId resolved) (NoteAt X w map sourceId (resolved ++ ".md"))
      (¬ EndsInMd resolved) (Called X w map target) r
  | .asset a =>
    Misses (NoteAt X w map sourceId resolved) (NoteAt X w map sourceId (resolved ++ ".md"))
      (¬ EndsInMd resolved) (Called X w map target) ∧
      IsGreatest {b | AttachmentAt X w sourceId resolved b} a
  | .canvas _ | .base _ => False

/-- What a reference of a canvas reaches. -/
def ReferenceReaches (target resolved : String) (t : CanvasReferenceTarget) : Prop :=
  Finds (TargetAt X w map sourceId resolved) (TargetAt X w map sourceId (resolved ++ ".md"))
    (¬ EndsInMd resolved) (fun u => ∃ r, Called X w map target r ∧ .document r = u) t

end

/-! ## The indexes say what stands where -/

section

variable {X : Externals} {w : CanonicalWorkspace} {map : List (DocumentId × DocumentId)}
  {sourceId : SourceId} {path : String}

theorem fileKey_eq_pathKey {file : SourceFile} :
    fileKey X file = pathKey X sourceId path ↔ file.LiesAt X sourceId path := by
  obtain ⟨⟨value⟩, snapshotId, fileId, originalPath, logicalPath, kind, byteLen, raw, hash⟩ := file
  obtain ⟨other⟩ := sourceId
  simp [fileKey, pathKey, SourceFile.LiesAt]

theorem mem_documentEntries {r : DocumentId} :
    (pathKey X sourceId path, r) ∈ documentEntries X w map ↔ NoteAt X w map sourceId path r := by
  simp only [documentEntries, List.mem_map, Prod.mk.injEq, fileKey_eq_pathKey, NoteAt]

theorem mem_assetEntries {a : AssetId} :
    (pathKey X sourceId path, a) ∈ assetEntries X w ↔ AttachmentAt X w sourceId path a := by
  simp only [assetEntries, List.mem_flatMap, List.mem_map, Prod.mk.injEq, fileKey_eq_pathKey,
    AttachmentAt]
  constructor
  · rintro ⟨e, he, source, hs, hl, ha⟩
    exact ⟨e, he, ⟨source, hs, hl⟩, ha⟩
  · rintro ⟨e, he, ⟨source, hs, hl⟩, ha⟩
    exact ⟨e, he, source, hs, hl, ha⟩

theorem mem_targetEntries {t : CanvasReferenceTarget} :
    (pathKey X sourceId path, t) ∈ targetEntries X w map ↔ TargetAt X w map sourceId path t := by
  have hdocuments : ∀ t, (pathKey X sourceId path, t) ∈
      (documentEntries X w map).map (fun e => (e.1, CanvasReferenceTarget.document e.2)) ↔
      ∃ r, NoteAt X w map sourceId path r ∧ .document r = t := fun t => by
    simp only [List.mem_map, Prod.mk.injEq, Prod.exists, ← mem_documentEntries]
    exact ⟨fun ⟨k, r, hm, hk, hr⟩ => ⟨r, hk ▸ hm, hr⟩, fun ⟨r, hm, hr⟩ => ⟨_, r, hm, rfl, hr⟩⟩
  have hassets : ∀ t, (pathKey X sourceId path, t) ∈
      (assetEntries X w).map (fun e => (e.1, CanvasReferenceTarget.asset e.2)) ↔
      ∃ a, AttachmentAt X w sourceId path a ∧ .asset a = t := fun t => by
    simp only [List.mem_map, Prod.mk.injEq, Prod.exists, ← mem_assetEntries]
    exact ⟨fun ⟨k, a, hm, hk, ha⟩ => ⟨a, hk ▸ hm, ha⟩, fun ⟨a, hm, ha⟩ => ⟨_, a, hm, rfl, ha⟩⟩
  rw [targetEntries, List.mem_append, List.mem_append, List.mem_append, hdocuments, hassets]
  cases t <;> simp [TargetAt, fileKey_eq_pathKey]

theorem mem_keyEntries {target : String} {r : DocumentId} :
    (normalizeLookupKey X ((fileStem target).getD target), r) ∈ keyEntries X w map ↔
      Called X w map target r := by
  simp only [keyEntries, List.mem_flatMap, List.mem_map, Prod.mk.injEq, Called]
  constructor
  · rintro ⟨e, he, k, hk, rfl, hr⟩
    exact ⟨e, he, hk, hr⟩
  · rintro ⟨e, he, hk, hr⟩
    exact ⟨e, he, _, hk, rfl, hr⟩

theorem resolveDocumentCandidates_eq {current target resolved : String}
    (hq : resolveRelativeSourcePath current target = some resolved) :
    resolveDocumentCandidates X (linkIndexes X w map) sourceId current (some target) =
      sortedSet (search (valuesOf (pathKey X sourceId resolved) (documentEntries X w map))
        (valuesOf (pathKey X sourceId (resolved ++ ".md")) (documentEntries X w map))
        (¬ EndsInMd resolved)
        (valuesOf (normalizeLookupKey X ((fileStem target).getD target))
          (keyEntries X w map))) := by
  simp only [resolveDocumentCandidates, hq, pathCandidates, keyCandidates, linkIndexes,
    getD_groups]
  rfl

theorem documentCandidates_eq_singleton {current target resolved : String}
    (hq : resolveRelativeSourcePath current target = some resolved) {r : DocumentId} :
    resolveDocumentCandidates X (linkIndexes X w map) sourceId current (some target) = [r] ↔
      LinkReaches X w map sourceId target resolved (.document r) := by
  rw [resolveDocumentCandidates_eq hq, sortedSet_search, LinkReaches]
  simp only [mem_valuesOf, mem_documentEntries, mem_keyEntries]

theorem documentCandidates_eq_nil {current target resolved : String}
    (hq : resolveRelativeSourcePath current target = some resolved) :
    resolveDocumentCandidates X (linkIndexes X w map) sourceId current (some target) = [] ↔
      Misses (NoteAt X w map sourceId resolved) (NoteAt X w map sourceId (resolved ++ ".md"))
        (¬ EndsInMd resolved) (Called X w map target) := by
  rw [resolveDocumentCandidates_eq hq, sortedSet_eq_nil, search_eq_nil]
  simp only [mem_valuesOf, mem_documentEntries, mem_keyEntries]

theorem mem_search {τ : Type} [DecidableEq τ] {ws es cs : List τ} {tried : Prop}
    [Decidable tried] {t : τ} (h : t ∈ search ws es tried cs) : t ∈ ws ∨ t ∈ es ∨ t ∈ cs := by
  unfold search at h
  dsimp only at h
  split_ifs at h <;> simp_all

/-- A candidate is a document. -/
theorem get?_of_documentCandidates (hw : DocumentsKeyed w) (hmap : Represents w map)
    {current target resolved : String}
    (hq : resolveRelativeSourcePath current target = some resolved) {r : DocumentId}
    (h : r ∈ resolveDocumentCandidates X (linkIndexes X w map) sourceId current (some target)) :
    ∃ d, get? r w.documents = some d := by
  have hentry : ∃ e ∈ w.documents, representativeOf map e.2.documentId = r := by
    rw [resolveDocumentCandidates_eq hq, mem_sortedSet] at h
    rcases mem_search h with h | h | h
    · obtain ⟨e, he, -, hr⟩ := mem_documentEntries.mp (mem_valuesOf.mp h)
      exact ⟨e, he, hr⟩
    · obtain ⟨e, he, -, hr⟩ := mem_documentEntries.mp (mem_valuesOf.mp h)
      exact ⟨e, he, hr⟩
    · obtain ⟨e, he, -, hr⟩ := mem_keyEntries.mp (mem_valuesOf.mp h)
      exact ⟨e, he, hr⟩
  obtain ⟨e, he, rfl⟩ := hentry
  have hkey : e.2.documentId ∈ map.map Prod.fst := by
    rw [hmap.keys, hw.key e he]
    exact List.mem_map_of_mem he
  obtain ⟨⟨m, r⟩, hm, hme⟩ := List.mem_map.mp hkey
  have hget : get? e.2.documentId map = some r := hme ▸ get?_of_mem hmap.sorted.nodup hm
  obtain ⟨d, hd, -⟩ := hmap.document hw (List.mem_map_of_mem (mem_of_get? hget))
  exact ⟨d, by rw [representativeOf, hget]; exact hd⟩

theorem canvasCandidates_eq_singleton {rawPath resolved : String} {t : CanvasReferenceTarget} :
    resolveCanvasReferenceCandidates X (linkIndexes X w map) sourceId resolved rawPath = [t] ↔
      ReferenceReaches X w map sourceId rawPath resolved t := by
  have heq : resolveCanvasReferenceCandidates X (linkIndexes X w map) sourceId resolved rawPath =
      sortedSet (search
        (sortedSet (valuesOf (pathKey X sourceId resolved) (targetEntries X w map)))
        (sortedSet (valuesOf (pathKey X sourceId (resolved ++ ".md")) (targetEntries X w map)))
        (¬ EndsInMd resolved)
        ((valuesOf (normalizeLookupKey X ((fileStem rawPath).getD rawPath))
          (keyEntries X w map)).map .document)) := by
    simp only [resolveCanvasReferenceCandidates, pathCandidates, keyCandidates, linkIndexes,
      getD_groups, getD_map_groups (sortedSet_eq_nil.mpr rfl)]
    rfl
  rw [heq, sortedSet_search, ReferenceReaches]
  simp only [mem_sortedSet, List.mem_map, mem_valuesOf, mem_targetEntries, mem_keyEntries]

end

/-! ## Links and references -/

/-- What a resolution names, if it names one thing. -/
def LinkResolution.target? : LinkResolution → Option CanvasReferenceTarget
  | .resolved r => some (.document r)
  | .asset a => some (.asset a)
  | .pending | .unresolved | .ambiguous _ => none

section

variable {X : Crates} {w : CanonicalWorkspace} {map : List (DocumentId × DocumentId)}
  {paths : OutputPathMaps} {d : Document} {link : DocumentLink} {target resolved : String}

theorem ambiguousLink_target {id : DocumentId} {candidates : List DocumentId}
    {r : DocumentLink × List Conflict × List Diagnostic}
    (h : ambiguousLink X paths d id link candidates = .ok r) : r.1.resolution.target? = none := by
  rw [ambiguousLink] at h
  cases hpath : link.path with
  | none =>
    rw [hpath] at h
    rw [← Except.ok.inj h]
    rfl
  | some path =>
    rw [hpath] at h
    obtain ⟨_, -, hcontained⟩ := bind_eq_ok.mp h
    obtain ⟨_, -, hr⟩ := bind_eq_ok.mp hcontained
    rw [← Except.ok.inj hr]
    rfl

/-- Without candidates a link gets the attachment at its path. -/
theorem linkWithoutCandidate_target {indexes : LinkIndexes} {id : DocumentId}
    (hq : resolveRelativeSourcePath d.sourceFile.logicalPath target = some resolved)
    (hpaths : ∀ a, get? (pathKey X.toExternals d.sourceFile.sourceId resolved) indexes.assets =
      some a → (get? a paths.assets).isSome) {t : CanvasReferenceTarget} :
    (∃ r, linkWithoutCandidate X indexes paths d id link target = .ok r ∧
      r.1.resolution.target? = some t) ↔
      ∃ a, get? (pathKey X.toExternals d.sourceFile.sourceId resolved) indexes.assets = some a ∧
        .asset a = t := by
  rw [linkWithoutCandidate, hq, Option.bind_some]
  cases hget : get? (pathKey X.toExternals d.sourceFile.sourceId resolved) indexes.assets with
  | some a =>
    dsimp only
    rw [if_pos (hpaths a hget)]
    constructor
    · rintro ⟨r, hr, ht⟩
      rw [← Except.ok.inj hr] at ht
      exact ⟨a, rfl, Option.some.inj ht⟩
    · rintro ⟨b, hb, rfl⟩
      obtain rfl := Option.some.inj hb
      exact ⟨_, rfl, rfl⟩
  | none =>
    constructor
    · rintro ⟨r, hr, ht⟩
      obtain ⟨_, -, hr⟩ := bind_eq_ok.mp hr
      obtain ⟨_, -, hr⟩ := bind_eq_ok.mp hr
      rw [← Except.ok.inj hr] at ht
      cases ht
    · rintro ⟨a, ha, -⟩
      cases ha

theorem assetEntries_ascending (hassets : Sorted w.assets) :
    ((assetEntries X.toExternals w).map Prod.snd).Pairwise (· ≤ ·) := by
  have hmap : (assetEntries X.toExternals w).map Prod.snd =
      w.assets.flatMap fun e => e.2.sources.map fun _ => e.1 := by
    simp only [assetEntries, List.map_flatMap, List.map_map]
    rfl
  rw [hmap, List.pairwise_flatMap]
  refine ⟨fun e _ => List.pairwise_map.mpr (List.pairwise_of_forall fun _ _ => le_refl e.1), ?_⟩
  refine List.Pairwise.imp (fun {a b} hlt x hx y hy => ?_) (List.pairwise_map.mp hassets)
  obtain ⟨-, -, rfl⟩ := List.mem_map.mp hx
  obtain ⟨-, -, rfl⟩ := List.mem_map.mp hy
  exact hlt.le

/-- **A link gets what its search reaches.** -/
theorem linkReaches_iff (hw : DocumentsKeyed w) (hmap : Represents w map)
    (hassets : Sorted w.assets) (hpaths : ∀ e ∈ w.assets, (get? e.1 paths.assets).isSome)
    (hpath : link.path = some target) (hheading : link.heading = none)
    (hblock : link.blockId = none)
    (hq : resolveRelativeSourcePath d.sourceFile.logicalPath target = some resolved)
    {t : CanvasReferenceTarget} :
    (∃ r, resolveLink X w map (linkIndexes X.toExternals w map) paths d link = .ok r ∧
      r.1.resolution.target? = some t) ↔
      LinkReaches X.toExternals w map d.sourceFile.sourceId target resolved t := by
  have hfilter : (resolveDocumentCandidates X.toExternals (linkIndexes X.toExternals w map)
      d.sourceFile.sourceId d.sourceFile.logicalPath link.path).filter (fun candidate =>
        (get? candidate w.documents).any fun candidate =>
          fragmentMatches X.toExternals candidate link.heading link.blockId) =
      resolveDocumentCandidates X.toExternals (linkIndexes X.toExternals w map)
        d.sourceFile.sourceId d.sourceFile.logicalPath (some target) := by
    rw [hpath, hheading, hblock]
    refine List.filter_eq_self.mpr fun candidate hc => ?_
    obtain ⟨note, hnote⟩ := get?_of_documentCandidates hw hmap hq hc
    rw [hnote]
    rfl
  have hone := fun r => @documentCandidates_eq_singleton X.toExternals w map d.sourceFile.sourceId
    _ _ _ hq r
  have hnil := @documentCandidates_eq_nil X.toExternals w map d.sourceFile.sourceId _ _ _ hq
  have hattachment : ∀ a, get? (pathKey X.toExternals d.sourceFile.sourceId resolved)
      (linkIndexes X.toExternals w map).assets = some a ↔
      IsGreatest {b | AttachmentAt X.toExternals w d.sourceFile.sourceId resolved b} a := by
    intro a
    rw [linkIndexes, get?_collect_ascending (assetEntries_ascending hassets)]
    simp only [mem_assetEntries]
  rw [resolveLink, hfilter, hpath]
  cases hcandidates : resolveDocumentCandidates X.toExternals (linkIndexes X.toExternals w map)
    d.sourceFile.sourceId d.sourceFile.logicalPath (some target) with
  | nil =>
    have hmisses := hnil.mp hcandidates
    dsimp only
    rw [linkWithoutCandidate_target hq fun a ha => ?_]
    · cases t with
      | document r =>
        have hnone := (hone r).not.mp (by rw [hcandidates]; exact (List.cons_ne_nil _ _).symm)
        exact iff_of_false (fun ⟨_, _, h⟩ => nomatch h) hnone
      | asset a =>
        simp only [hattachment, CanvasReferenceTarget.asset.injEq, exists_eq_right, LinkReaches,
          hmisses, true_and]
      | canvas _ => exact iff_of_false (fun ⟨_, _, h⟩ => nomatch h) id
      | base _ => exact iff_of_false (fun ⟨_, _, h⟩ => nomatch h) id
    · obtain ⟨e, he, -, rfl⟩ := ((hattachment a).mp ha).1
      exact hpaths e he
  | cons r rest =>
    have hfound := hnil.not.mp (by rw [hcandidates]; exact List.cons_ne_nil _ _)
    cases rest with
    | nil =>
      have hresult : (∃ result, Except.ok (ε := OkcError)
          ({ link with resolution := .resolved r }, ([] : List Conflict), ([] : List Diagnostic)) =
            .ok result ∧ result.1.resolution.target? = some t) ↔
          CanvasReferenceTarget.document r = t :=
        ⟨fun ⟨_, he, ht⟩ => by
            rw [← Except.ok.inj he] at ht
            exact Option.some.inj ht,
          fun ht => ⟨_, rfl, congrArg some ht⟩⟩
      refine hresult.trans ?_
      cases t with
      | document s =>
        rw [← hone s, hcandidates, CanvasReferenceTarget.document.injEq, List.cons.injEq]
        exact (and_iff_left rfl).symm
      | asset a => exact iff_of_false (fun h => nomatch h) fun h => hfound h.1
      | canvas _ => exact iff_of_false (fun h => nomatch h) id
      | base _ => exact iff_of_false (fun h => nomatch h) id
    | cons s rest =>
      refine iff_of_false ?_ fun h => ?_
      · rintro ⟨result, hresult, ht⟩
        rw [ambiguousLink_target hresult] at ht
        cases ht
      · cases t with
        | document u =>
          have hsingle := (hone u).mpr h
          rw [hcandidates] at hsingle
          cases hsingle
        | asset a => exact hfound h.1
        | canvas _ => exact h
        | base _ => exact h

/-- **A reference gets what its search reaches.** -/
theorem referenceReaches_iff {canvas : Canvas} {destination : String}
    {reference : CanvasFileReference} {r : CanvasFileReference × List Conflict × List Diagnostic}
    (hq : resolveRelativeSourcePath canvas.sourceFile.logicalPath reference.rawPath = some resolved)
    (h : resolveCanvasReference X (linkIndexes X.toExternals w map) paths canvas destination
      reference = .ok r) {t : CanvasReferenceTarget} :
    r.1.resolution = .resolved t ↔
      ReferenceReaches X.toExternals w map canvas.sourceFile.sourceId reference.rawPath resolved
        t := by
  rw [← canvasCandidates_eq_singleton]
  rw [resolveCanvasReference, hq] at h
  dsimp only at h
  cases hcandidates : resolveCanvasReferenceCandidates X.toExternals
    (linkIndexes X.toExternals w map) canvas.sourceFile.sourceId resolved reference.rawPath with
  | nil =>
    rw [hcandidates] at h
    obtain ⟨_, -, hr⟩ := bind_eq_ok.mp h
    rw [← Except.ok.inj hr]
    exact iff_of_false (fun h => nomatch h) (fun h => nomatch h)
  | cons u rest =>
    rw [hcandidates] at h
    cases rest with
    | nil =>
      cases hpath : canvasReferenceOutputPath paths u with
      | none =>
        dsimp only at h
        rw [hpath] at h
        cases h
      | some _ =>
        dsimp only at h
        rw [hpath] at h
        rw [← Except.ok.inj h, CanvasReferenceResolution.resolved.injEq, List.cons.injEq]
        exact (and_iff_left rfl).symm
    | cons v rest =>
      obtain ⟨_, -, hr⟩ := bind_eq_ok.mp h
      rw [← Except.ok.inj hr]
      exact iff_of_false (fun h => nomatch h) (fun h => nomatch h)

/-- A reference that reaches what has an output path is resolved. -/
theorem resolveCanvasReference_of_reaches {canvas : Canvas} {destination : String}
    {reference : CanvasFileReference}
    (hq : resolveRelativeSourcePath canvas.sourceFile.logicalPath reference.rawPath = some resolved)
    {t : CanvasReferenceTarget}
    (h : ReferenceReaches X.toExternals w map canvas.sourceFile.sourceId reference.rawPath resolved
      t) (hpath : (canvasReferenceOutputPath paths t).isSome) :
    resolveCanvasReference X (linkIndexes X.toExternals w map) paths canvas destination reference =
      .ok ({ reference with resolution := .resolved t }, [], []) := by
  obtain ⟨path, hpath⟩ := Option.isSome_iff_exists.mp hpath
  rw [resolveCanvasReference, hq]
  dsimp only
  rw [canvasCandidates_eq_singleton.mpr h]
  dsimp only
  rw [hpath]

/-! ## The whole run -/

/-- The reference is written like the link, in a canvas beside the note. -/
structure Beside (d : Document) (target : String) (canvas : Canvas)
    (reference : CanvasFileReference) : Prop where
  source : canvas.sourceFile.sourceId = d.sourceFile.sourceId
  folder : parent canvas.sourceFile.logicalPath = parent d.sourceFile.logicalPath
  path : reference.rawPath = target

/-- In the workspace `w'` that became of `w`, link `i` of note `n` names `t`, and so does every
reference beside it. -/
structure PathWins (w w' : CanonicalWorkspace) (d : Document) (target : String) (n i : Nat)
    (t : CanvasReferenceTarget) : Prop where
  link : ((linkAt w' n i).bind fun link => link.resolution.target?) = some t
  references : ∀ m j e reference, w.canvases[m]? = some e →
    e.2.fileReferences[j]? = some reference → Beside d target e.2 reference →
    (referenceAt w' m j).map CanvasFileReference.resolution = some (.resolved t)

/-- **An explicit path wins, for a link and for the references beside it, exactly when both searches
reach its target.** -/
theorem resolveLinks_explicit_iff (hw : DocumentsKeyed w) (hmap : Represents w map)
    (hassets : Sorted w.assets) (hpaths : ∀ e ∈ w.assets, (get? e.1 paths.assets).isSome)
    {w' : CanonicalWorkspace} {conflicts : List Conflict} {diagnostics : List Diagnostic}
    (h : resolveLinks X w map paths = .ok (w', conflicts, diagnostics))
    {n i : Nat} {id : DocumentId} (hn : w.documents[n]? = some (id, d))
    (hi : d.links[i]? = some link) (hpath : link.path = some target)
    (hheading : link.heading = none) (hblock : link.blockId = none)
    (hq : resolveRelativeSourcePath d.sourceFile.logicalPath target = some resolved)
    (t : CanvasReferenceTarget) :
    PathWins w w' d target n i t ↔
      LinkReaches X.toExternals w map d.sourceFile.sourceId target resolved t ∧
        ((∃ e ∈ w.canvases, ∃ reference ∈ e.2.fileReferences, Beside d target e.2 reference) →
          ReferenceReaches X.toExternals w map d.sourceFile.sourceId target resolved t) := by
  have hlink : ((linkAt w' n i).bind fun link => link.resolution.target?) = some t ↔
      LinkReaches X.toExternals w map d.sourceFile.sourceId target resolved t := by
    obtain ⟨r, hr, hat⟩ := linkAt_resolveLinks h hn hi
    rw [← linkReaches_iff hw hmap hassets hpaths hpath hheading hblock hq, hat, Option.bind_some]
    exact ⟨fun ht => ⟨r, hr, ht⟩, fun ⟨s, hs, ht⟩ => Except.ok.inj (hr.symm.trans hs) ▸ ht⟩
  have hreference : ∀ {m j e reference}, w.canvases[m]? = some e →
      e.2.fileReferences[j]? = some reference → Beside d target e.2 reference →
      ((referenceAt w' m j).map CanvasFileReference.resolution = some (.resolved t) ↔
        ReferenceReaches X.toExternals w map d.sourceFile.sourceId target resolved t) := by
    intro m j e reference hm hj hbeside
    obtain ⟨destination, r, hr, hat⟩ := referenceAt_resolveLinks h hm hj
    have hresolved : resolveRelativeSourcePath e.2.sourceFile.logicalPath reference.rawPath =
        some resolved := by
      rw [← hq, resolveRelativeSourcePath, resolveRelativeSourcePath, hbeside.folder, hbeside.path]
    rw [hat, Option.map_some, Option.some_inj, referenceReaches_iff hresolved hr, hbeside.source,
      hbeside.path]
  constructor
  · rintro ⟨hl, hr⟩
    refine ⟨hlink.mp hl, ?_⟩
    rintro ⟨e, he, reference, hreference', hbeside⟩
    obtain ⟨m, hm⟩ := List.getElem?_of_mem he
    obtain ⟨j, hj⟩ := List.getElem?_of_mem hreference'
    exact (hreference hm hj hbeside).mp (hr m j e reference hm hj hbeside)
  · rintro ⟨hl, hr⟩
    exact ⟨hlink.mpr hl, fun m j e reference hm hj hbeside => (hreference hm hj hbeside).mpr
      (hr ⟨e, List.mem_of_getElem? hm, reference, List.mem_of_getElem? hj, hbeside⟩)⟩

end

/-! ## A note that takes the link of an attachment -/

def photoLink : DocumentLink where
  linkSyntax := .markdown
  byteStart := 9
  byteEnd := 18
  rawTarget := "photo.png"
  path := some "photo.png"
  heading := none
  blockId := none
  display := some "photo"
  embed := true
  linkId := ⟨indexHash 4⟩
  resolution := .pending

def photoPage : Document := { plainNote "vault" "page.md" 1 with links := [photoLink] }

def photoReference : CanvasFileReference := ⟨"node", "photo.png", .pending⟩

def photoBoard : Canvas where
  canvasId := ⟨indexHash 5⟩
  sourceFile := plainFile "board.canvas" .canvas
  value := .null
  fileReferences := [photoReference]

/-- `page.md` and `board.canvas` show `photo.png`, and there is a note `notes/photo.md`. -/
def photoWorkspace : CanonicalWorkspace where
  documents := [(⟨indexHash 1⟩, photoPage), (⟨indexHash 2⟩, plainNote "vault" "notes/photo.md" 2)]
  canvases := [(⟨indexHash 5⟩, photoBoard)]
  assets := [(⟨indexHash 3⟩, .fromSource ⟨indexHash 3⟩ (plainFile "photo.png" .asset))]
  bases := []

def photoMap : List (DocumentId × DocumentId) :=
  [(⟨indexHash 1⟩, ⟨indexHash 1⟩), (⟨indexHash 2⟩, ⟨indexHash 2⟩)]

def photoPaths : OutputPathMaps where
  documents := [(⟨indexHash 1⟩, "knowledge/page.md"), (⟨indexHash 2⟩, "knowledge/notes/photo.md")]
  assets := [(⟨indexHash 3⟩, "attachments/photo.png")]
  canvases := [(⟨indexHash 5⟩, "canvases/board.canvas")]
  bases := []

theorem keyed_photoWorkspace : DocumentsKeyed photoWorkspace where
  sorted := by
    rw [Sorted]
    exact List.pairwise_pair.mpr (by decide +kernel)
  key e he := by
    simp only [photoWorkspace, List.mem_cons, List.not_mem_nil, or_false] at he
    rcases he with rfl | rfl <;> rfl

theorem represents_photoMap : Represents photoWorkspace photoMap where
  sorted := by
    rw [Sorted]
    exact List.pairwise_pair.mpr (by decide +kernel)
  keys := rfl
  fixed m r h := by
    simp only [photoMap, List.mem_cons, Prod.mk.injEq, List.not_mem_nil, or_false] at h ⊢
    rcases h with ⟨-, rfl⟩ | ⟨-, rfl⟩ <;> simp

theorem nowhere_photo {path : String}
    (h : ∀ other ∈ ["page.md", "notes/photo.md"],
      normalizeLinkPath (plainExternals prefixHash) other ≠
        normalizeLinkPath (plainExternals prefixHash) path) :
    Nowhere (NoteAt (plainExternals prefixHash) photoWorkspace photoMap ⟨"vault"⟩ path) := by
  rintro r ⟨e, he, ⟨-, hpath⟩, -⟩
  simp only [photoWorkspace, List.mem_cons, List.not_mem_nil, or_false] at he
  rcases he with rfl | rfl
  · exact h _ List.mem_cons_self hpath
  · exact h _ (List.mem_cons_of_mem _ List.mem_cons_self) hpath

theorem called_photo :
    Only (Called (plainExternals prefixHash) photoWorkspace photoMap "photo.png")
      ⟨indexHash 2⟩ := by
  have hpage : "photo" ∉ lookupKeys (plainExternals prefixHash) photoPage := by
    rw [lookupKeys, mem_sortedSet]
    decide +kernel
  have hphoto : "photo" ∈ lookupKeys (plainExternals prefixHash)
      (plainNote "vault" "notes/photo.md" 2) := by
    rw [lookupKeys, mem_sortedSet]
    decide +kernel
  have hstem : normalizeLookupKey (plainExternals prefixHash)
      ((fileStem "photo.png").getD "photo.png") = "photo" := by decide +kernel
  intro r
  rw [Called, hstem]
  constructor
  · rintro ⟨e, he, hkey, rfl⟩
    simp only [photoWorkspace, List.mem_cons, List.not_mem_nil, or_false] at he
    rcases he with rfl | rfl
    · exact absurd hkey hpage
    · rfl
  · rintro rfl
    exact ⟨_, List.mem_cons_of_mem _ List.mem_cons_self, hphoto, rfl⟩

theorem target_photo :
    Only (TargetAt (plainExternals prefixHash) photoWorkspace photoMap ⟨"vault"⟩ "photo.png")
      (.asset ⟨indexHash 3⟩) := by
  intro t
  cases t with
  | document r =>
    refine iff_of_false (nowhere_photo (by decide +kernel) r) ?_
    simp
  | asset a =>
    simp only [TargetAt, AttachmentAt, photoWorkspace, List.mem_singleton, exists_eq_left,
      CanvasReferenceTarget.asset.injEq]
    exact ⟨fun h => h.2.symm, fun h => ⟨⟨_, List.mem_cons_self, rfl, rfl⟩, h.symm⟩⟩
  | canvas c =>
    refine iff_of_false ?_ (by simp)
    rintro ⟨e, he, ⟨-, hpath⟩, -⟩
    rw [List.mem_singleton.mp he] at hpath
    exact absurd hpath (by decide +kernel)
  | base b =>
    refine iff_of_false ?_ (by simp)
    rintro ⟨base, hbase, -⟩
    exact List.not_mem_nil hbase

theorem path_photo :
    resolveRelativeSourcePath photoPage.sourceFile.logicalPath "photo.png" = some "photo.png" := by
  decide +kernel

theorem path_photoReference :
    resolveRelativeSourcePath photoBoard.sourceFile.logicalPath photoReference.rawPath =
      some "photo.png" := by decide +kernel

theorem link_photo : ∃ r,
    resolveLink (plainCrates (plainExternals prefixHash)) photoWorkspace photoMap
      (linkIndexes (plainExternals prefixHash) photoWorkspace photoMap) photoPaths photoPage
      photoLink = .ok r ∧ r.1.resolution.target? = some (.document ⟨indexHash 2⟩) :=
  (linkReaches_iff (X := plainCrates (plainExternals prefixHash)) keyed_photoWorkspace
    represents_photoMap (List.pairwise_singleton _ _)
    (fun e he => by rw [List.mem_singleton.mp he]; rfl) rfl rfl rfl path_photo).mpr
    (.inr (.inr ⟨nowhere_photo (by decide +kernel), fun _ => nowhere_photo (by decide +kernel),
      called_photo⟩))

theorem reference_photo (destination : String) :
    resolveCanvasReference (plainCrates (plainExternals prefixHash))
      (linkIndexes (plainExternals prefixHash) photoWorkspace photoMap) photoPaths photoBoard
      destination photoReference =
      .ok ({ photoReference with resolution := .resolved (.asset ⟨indexHash 3⟩) }, [], []) :=
  resolveCanvasReference_of_reaches (X := plainCrates (plainExternals prefixHash))
    path_photoReference (.inl target_photo) rfl

theorem resolve_photo :
    ∃ w' conflicts diagnostics,
      resolveLinks (plainCrates (plainExternals prefixHash)) photoWorkspace photoMap photoPaths =
        .ok (w', conflicts, diagnostics) := by
  refine resolveLinks_isOk (fun e he link hlink => ?_) fun e he => ?_
  · simp only [photoWorkspace, List.mem_cons, List.not_mem_nil, or_false] at he
    rcases he with rfl | rfl
    · obtain rfl := List.mem_singleton.mp hlink
      obtain ⟨r, hr, -⟩ := link_photo
      exact ⟨r, hr⟩
    · exact absurd hlink List.not_mem_nil
  · obtain rfl := List.mem_singleton.mp he
    refine ⟨"canvases/board.canvas", rfl, fun reference hreference => ?_⟩
    obtain rfl := List.mem_singleton.mp hreference
    exact ⟨_, reference_photo _⟩

theorem resolveLinks_explicit_iff_photo :
    ∃ w' conflicts diagnostics,
      resolveLinks (plainCrates (plainExternals prefixHash)) photoWorkspace photoMap photoPaths =
        .ok (w', conflicts, diagnostics) ∧
      ∀ t, PathWins photoWorkspace w' photoPage "photo.png" 0 0 t ↔
        LinkReaches (plainExternals prefixHash) photoWorkspace photoMap
          photoPage.sourceFile.sourceId "photo.png" "photo.png" t ∧
        ((∃ e ∈ photoWorkspace.canvases, ∃ reference ∈ e.2.fileReferences,
            Beside photoPage "photo.png" e.2 reference) →
          ReferenceReaches (plainExternals prefixHash) photoWorkspace photoMap
            photoPage.sourceFile.sourceId "photo.png" "photo.png" t) := by
  obtain ⟨w', conflicts, diagnostics, h⟩ := resolve_photo
  exact ⟨w', conflicts, diagnostics, h, fun t =>
    @resolveLinks_explicit_iff (plainCrates (plainExternals prefixHash)) _ _ _ _ photoLink _ _
      keyed_photoWorkspace represents_photoMap (List.pairwise_singleton _ _)
      (fun e he => by rw [List.mem_singleton.mp he]; rfl) _ _ _ h 0 0 ⟨indexHash 1⟩ rfl rfl rfl rfl
      rfl path_photo t⟩

/-- The link and the reference are written alike and stand side by side, only the attachment is at
their path, and the link goes to the note. -/
theorem photo_diverted :
    ∃ w' conflicts diagnostics,
      resolveLinks (plainCrates (plainExternals prefixHash)) photoWorkspace photoMap photoPaths =
        .ok (w', conflicts, diagnostics) ∧
      resolveRelativeSourcePath photoPage.sourceFile.logicalPath "photo.png" = some "photo.png" ∧
      Only (TargetAt (plainExternals prefixHash) photoWorkspace photoMap
        photoPage.sourceFile.sourceId "photo.png") (.asset ⟨indexHash 3⟩) ∧
      ((linkAt w' 0 0).bind fun link => link.resolution.target?) =
        some (.document ⟨indexHash 2⟩) ∧
      (referenceAt w' 0 0).map CanvasFileReference.resolution =
        some (.resolved (.asset ⟨indexHash 3⟩)) := by
  obtain ⟨w', conflicts, diagnostics, h⟩ := resolve_photo
  have hpage : photoPage.links[0]? = some photoLink := rfl
  have hboard : photoBoard.fileReferences[0]? = some photoReference := rfl
  obtain ⟨r, hr, hlink⟩ := linkAt_resolveLinks h (n := 0) (e := (⟨indexHash 1⟩, photoPage)) rfl hpage
  obtain ⟨destination, s, hs, hreference⟩ := referenceAt_resolveLinks h (n := 0)
    (e := (⟨indexHash 5⟩, photoBoard)) rfl hboard
  obtain ⟨result, hresult, htarget⟩ := link_photo
  refine ⟨w', conflicts, diagnostics, h, path_photo, target_photo, ?_, ?_⟩
  · rw [hlink, Option.bind_some, Except.ok.inj (hr.symm.trans hresult)]
    exact htarget
  · rw [hreference, ← Except.ok.inj ((reference_photo destination).symm.trans hs)]
    rfl

end Okc.Core
