import Okc.Core.PlannedOutputs
import Okc.Core.SealedSources

/-!
# The records of an inspection (`snapshot.rs:131-306`, `parse.rs`, `ir.rs:226-262`)

Every file that is read becomes a record, or an occurrence of one; the records of the sources are
merged, source after source.

* `recordsOf_parseFile`, `recordsOf_extend`: what one file, and one source, adds to the records.
* `InspectedSet.readOf`: every record stands for files that were read.
* **`ready_of_records`**: every record is the one that its sealed file identifies.
-/

namespace Okc.Core

open Okc.Lib

/-- A file, with what was read of it. -/
abbrev ReadFile := SourceFile × Bytes

/-- An asset stands for its occurrences, each once and in order. -/
structure AssetOk (X : Externals) (files : List SourceFile) (e : AssetId × Asset) : Prop where
  id : e.2.assetId = e.1
  nonempty : e.2.sources ≠ []
  source : ∀ file ∈ e.2.sources, file ∈ files ∧ file.kind = .asset ∧
    X.assetId file.contentHash = e.1
  ascending : (e.2.sources.map SourceFile.key).Pairwise (· < ·)
  basename : e.2.basename = (e.2.sources.head?.map sourceBasename).getD "asset"

/-- The records stand for files that were read. -/
structure RecordsOf (X : Crates) (limits : PathLimits) (read : List ReadFile)
    (w : CanonicalWorkspace) : Prop extends WorkspaceSorted w where
  document : ∀ e ∈ w.documents, e.1 = e.2.documentId ∧ e.2.sourceFile.kind = .markdown ∧
    ∃ bytes diagnostics, (e.2.sourceFile, bytes) ∈ read ∧
      parseMarkdown X limits e.2.sourceFile bytes = .ok (e.2, diagnostics)
  canvas : ∀ e ∈ w.canvases, e.1 = e.2.canvasId ∧ e.2.sourceFile.kind = .canvas ∧
    ∃ bytes, (e.2.sourceFile, bytes) ∈ read ∧ parseCanvas X e.2.sourceFile bytes = .ok e.2
  asset : ∀ e ∈ w.assets, AssetOk X.toExternals (read.map Prod.fst) e
  base : ∀ b ∈ w.bases, b.sourceFile.kind = .base ∧ b.sourceFile ∈ read.map Prod.fst ∧
    b.baseArtifactId = ⟨recordId X "okc:base:v2\x00" b.sourceFile⟩

/-! ## Assets -/

theorem dedupBy_sublist {α : Type} (same : α → α → Bool) (l : List α) :
    (dedupBy same l).Sublist l := by
  induction l using dedupBy.induct same with
  | case1 =>
    rw [dedupBy]
  | case2 x xs ih =>
    rw [dedupBy]
    exact (ih.trans (List.dropWhile_sublist _)).cons_cons x

theorem dedupBy_ne_nil {α : Type} (same : α → α → Bool) {l : List α} (h : l ≠ []) :
    dedupBy same l ≠ [] := by
  cases l with
  | nil => exact absurd rfl h
  | cons x xs =>
    rw [dedupBy]
    exact List.cons_ne_nil _ _

section

variable {X : Crates} {limits : PathLimits}

theorem AssetOk.mono {files files' : List SourceFile} {e : AssetId × Asset}
    (h : AssetOk X.toExternals files e) (hsub : files ⊆ files') : AssetOk X.toExternals files' e :=
  ⟨h.id, h.nonempty, fun file hfile => ⟨hsub (h.source file hfile).1, (h.source file hfile).2⟩,
    h.ascending, h.basename⟩

/-- Occurrences that were not there are merged in. -/
theorem assetOk_merge {files : List SourceFile} {id : AssetId} {asset other : Asset}
    (h : AssetOk X.toExternals files (id, asset)) (h' : AssetOk X.toExternals files (id, other))
    (hapart : ∀ f ∈ asset.sources, ∀ f' ∈ other.sources, f.key ≠ f'.key) :
    AssetOk X.toExternals files (id, asset.mergeSources other.sources) := by
  have hne : asset.sources ++ other.sources ≠ [] := by
    simp [h.nonempty]
  have hkeys : ((asset.sources ++ other.sources).map SourceFile.key).Nodup := by
    rw [List.map_append, List.nodup_append]
    refine ⟨h.ascending.imp LT.lt.ne, h'.ascending.imp LT.lt.ne, fun k hk k' hk' heq => ?_⟩
    obtain ⟨f, hf, rfl⟩ := List.mem_map.mp hk
    obtain ⟨f', hf', rfl⟩ := List.mem_map.mp hk'
    exact hapart f hf f' hf' heq
  obtain ⟨sorted, hsorted⟩ : ∃ l, sortBy SourceFile.key (asset.sources ++ other.sources) = l :=
    ⟨_, rfl⟩
  have hperm : sorted.Perm (asset.sources ++ other.sources) := hsorted ▸ sortBy_perm _ _
  have hascending : (sorted.map SourceFile.key).Pairwise (· < ·) :=
    hsorted ▸ pairwise_lt_of_sortBy hkeys
  have hnesorted : sorted ≠ [] := fun hnil =>
    hne (List.Perm.nil_eq (hnil ▸ hperm)).symm
  obtain ⟨merged, hmerged⟩ : ∃ l, dedupBy (fun a b : SourceFile =>
    decide (a.snapshotId = b.snapshotId ∧ a.fileId = b.fileId)) sorted = l := ⟨_, rfl⟩
  have hsub : merged.Sublist sorted := hmerged ▸ dedupBy_sublist _ _
  have hnemerged : merged ≠ [] := hmerged ▸ dedupBy_ne_nil _ hnesorted
  have heq : asset.mergeSources other.sources = { asset with
      sources := merged
      basename := (merged.head?.map sourceBasename).getD asset.basename } := by
    rw [← hmerged, ← hsorted]
    rfl
  rw [heq]
  refine ⟨h.id, hnemerged, fun file hfile => ?_, hascending.sublist (hsub.map _), ?_⟩
  · rcases List.mem_append.mp (hperm.subset (hsub.subset hfile)) with hold | hnew
    · exact h.source file hold
    · exact h'.source file hnew
  · cases hcons : merged with
    | nil => exact absurd hcons hnemerged
    | cons first rest => rfl

theorem assetOk_fromSource {files : List SourceFile} {file : SourceFile} (hfile : file ∈ files)
    (hkind : file.kind = .asset) : AssetOk X.toExternals files
      (X.assetId file.contentHash, .fromSource (X.assetId file.contentHash) file) := by
  refine ⟨rfl, List.cons_ne_nil _ _, fun f hf => ?_, List.pairwise_singleton _ _, rfl⟩
  rw [List.mem_singleton.mp hf]
  exact ⟨hfile, hkind, rfl⟩

/-! ## One file -/

theorem RecordsOf.mono {read read' : List ReadFile} {w : CanonicalWorkspace}
    (h : RecordsOf X limits read w) (hsub : read ⊆ read') : RecordsOf X limits read' w := by
  refine ⟨h.toWorkspaceSorted, fun e he => ?_, fun e he => ?_, fun e he => ?_, fun b hb => ?_⟩
  · obtain ⟨hid, hkind, bytes, diagnostics, hread, hparsed⟩ := h.document e he
    exact ⟨hid, hkind, bytes, diagnostics, hsub hread, hparsed⟩
  · obtain ⟨hid, hkind, bytes, hread, hparsed⟩ := h.canvas e he
    exact ⟨hid, hkind, bytes, hsub hread, hparsed⟩
  · exact (h.asset e he).mono (List.map_subset _ hsub)
  · obtain ⟨hkind, hread, hid⟩ := h.base b hb
    exact ⟨hkind, List.map_subset _ hsub hread, hid⟩

theorem sourceFile_of_parseMarkdown {file : SourceFile} {bytes : Bytes} {d : Document}
    {diagnostics : List Diagnostic} (h : parseMarkdown X limits file bytes = .ok (d, diagnostics)) :
    d.sourceFile = file := by
  unfold parseMarkdown at h
  obtain ⟨-, h⟩ := bind_unit_eq_ok.mp h
  split at h
  · cases h
  · obtain ⟨_, -, h⟩ := bind_eq_ok.mp h
    obtain ⟨rfl, -⟩ := Prod.mk.inj (Except.ok.inj h)
    rfl

theorem documentId_of_parseMarkdown {file : SourceFile} {bytes : Bytes} {d : Document}
    {diagnostics : List Diagnostic} (h : parseMarkdown X limits file bytes = .ok (d, diagnostics)) :
    d.documentId = ⟨recordId X "okc:document:v2\x00" file⟩ := by
  unfold parseMarkdown at h
  obtain ⟨-, h⟩ := bind_unit_eq_ok.mp h
  split at h
  · cases h
  · obtain ⟨_, -, h⟩ := bind_eq_ok.mp h
    obtain ⟨rfl, -⟩ := Prod.mk.inj (Except.ok.inj h)
    rfl

theorem canvasId_of_parseCanvas {file : SourceFile} {bytes : Bytes} {c : Canvas}
    (h : parseCanvas X file bytes = .ok c) :
    c.canvasId = ⟨recordId X "okc:canvas:v2\x00" file⟩ := by
  obtain ⟨_, -, h⟩ := bind_eq_ok.mp h
  obtain rfl := Except.ok.inj h
  rfl

theorem sourceFile_of_parseCanvas {file : SourceFile} {bytes : Bytes} {c : Canvas}
    (h : parseCanvas X file bytes = .ok c) : c.sourceFile = file := by
  obtain ⟨_, -, h⟩ := bind_eq_ok.mp h
  obtain rfl := Except.ok.inj h
  rfl

/-- **What one file adds to the records.** -/
theorem recordsOf_parseFile {read : List ReadFile} {p p' : Parsed} {file : SourceFile}
    {bytes : Bytes} (h : RecordsOf X limits read p.workspace)
    (hnew : ∀ f ∈ read.map Prod.fst, f.key ≠ file.key)
    (hstep : parseFile X limits p file bytes = .ok p') :
    RecordsOf X limits (read ++ [(file, bytes)]) p'.workspace := by
  have hmem : (file, bytes) ∈ read ++ [(file, bytes)] :=
    List.mem_append_right _ (List.mem_singleton_self _)
  obtain ⟨hsorted, hdocument, hcanvas, hasset, hbase⟩ := h.mono (List.subset_append_left read
    [(file, bytes)])
  unfold parseFile at hstep
  obtain ⟨-, hstep⟩ := bind_unit_eq_ok.mp hstep
  cases hkind : file.kind with
  | markdown =>
    rw [hkind] at hstep
    obtain ⟨⟨document, diagnostics⟩, hparsed, hstep⟩ := bind_eq_ok.mp hstep
    obtain rfl := Except.ok.inj hstep
    refine ⟨⟨sorted_insertKey _ _ hsorted.documents, hsorted.canvases, hsorted.assets⟩, ?_, hcanvas,
      hasset, hbase⟩
    intro e he
    obtain rfl | hold := mem_insertKey he
    · have hfile := sourceFile_of_parseMarkdown hparsed
      refine ⟨rfl, hfile ▸ hkind, bytes, diagnostics, ?_, ?_⟩
      · rw [hfile]
        exact hmem
      · rw [hfile]
        exact hparsed
    · exact hdocument e hold
  | canvas =>
    rw [hkind] at hstep
    obtain ⟨canvas, hparsed, hstep⟩ := bind_eq_ok.mp hstep
    obtain rfl := Except.ok.inj hstep
    refine ⟨⟨hsorted.documents, sorted_insertKey _ _ hsorted.canvases, hsorted.assets⟩, hdocument,
      ?_, hasset, hbase⟩
    intro e he
    obtain rfl | hold := mem_insertKey he
    · have hfile := sourceFile_of_parseCanvas hparsed
      refine ⟨rfl, hfile ▸ hkind, bytes, ?_, ?_⟩
      · rw [hfile]
        exact hmem
      · rw [hfile]
        exact hparsed
    · exact hcanvas e hold
  | base =>
    rw [hkind] at hstep
    obtain rfl := Except.ok.inj hstep
    refine ⟨⟨hsorted.documents, hsorted.canvases, hsorted.assets⟩, hdocument, hcanvas, hasset,
      fun b hb => ?_⟩
    rcases List.mem_append.mp hb with hold | hlast
    · exact hbase b hold
    · rw [List.mem_singleton.mp hlast]
      exact ⟨hkind, List.mem_map_of_mem (f := Prod.fst) hmem, rfl⟩
  | asset =>
    rw [hkind] at hstep
    have hfresh := @assetOk_fromSource X _ _ (List.mem_map_of_mem (f := Prod.fst) hmem) hkind
    obtain ⟨asset, hok, rfl⟩ : ∃ asset, AssetOk X.toExternals
        ((read ++ [(file, bytes)]).map Prod.fst) (X.assetId file.contentHash, asset) ∧
        p' = ⟨⟨p.workspace.documents, p.workspace.canvases, insertKey (X.assetId file.contentHash)
          asset p.workspace.assets, p.workspace.bases⟩, p.diagnostics⟩ := by
      cases hget : get? (X.assetId file.contentHash) p.workspace.assets with
      | none =>
        simp only [hget, Except.ok.injEq] at hstep
        exact ⟨_, hfresh, hstep.symm⟩
      | some asset =>
        simp only [hget, Except.ok.injEq] at hstep
        have hold := mem_of_get? hget
        refine ⟨_, assetOk_merge (hasset _ hold) hfresh fun f hf f' hf' => ?_, hstep.symm⟩
        obtain rfl := List.mem_singleton.mp hf'
        exact hnew f ((h.asset _ hold).source f hf).1
    refine ⟨⟨hsorted.documents, hsorted.canvases, sorted_insertKey _ _ hsorted.assets⟩, hdocument,
      hcanvas, fun e he => ?_, hbase⟩
    obtain rfl | hold := mem_insertKey he
    · exact hok
    · exact hasset e hold

/-! ## One source -/

/-- The files of a source, as they are read. -/
def readEntries (X : Externals) (source : SourceSpec) (snapshotId : SnapshotId)
    (entries : List RawEntry) : List ReadFile :=
  entries.map fun entry => (sourceFile X source.sourceId snapshotId entry, entry.bytes)

def ReadFile.key (r : ReadFile) : String ×ₗ String ×ₗ SourceFileId := r.1.key

/-- The loop over the files of a source, from any records. -/
theorem recordsOf_entries {source : SourceSpec} {snapshotId : SnapshotId} {entries : List RawEntry}
    {read : List ReadFile} {p p' : Parsed} (h : RecordsOf X limits read p.workspace)
    (hkeys : (read.map ReadFile.key ++
      (readEntries X.toExternals source snapshotId entries).map ReadFile.key).Nodup)
    (hrun : entries.foldlM (fun p entry => parseFile X limits p
      (sourceFile X.toExternals source.sourceId snapshotId entry) entry.bytes) p = .ok p') :
    RecordsOf X limits (read ++ readEntries X.toExternals source snapshotId entries)
      p'.workspace := by
  induction entries generalizing read p with
  | nil =>
    cases hrun
    rwa [readEntries, List.map_nil, List.append_nil]
  | cons entry entries ih =>
    rw [List.foldlM_cons, bind_eq_ok] at hrun
    obtain ⟨u, hstep, hrest⟩ := hrun
    have hnew : ∀ f ∈ read.map Prod.fst, f.key ≠
        (sourceFile X.toExternals source.sourceId snapshotId entry).key := by
      intro f hf heq
      obtain ⟨r, hr, rfl⟩ := List.mem_map.mp hf
      exact (List.nodup_append.mp hkeys).2.2 _ (List.mem_map_of_mem (f := ReadFile.key) hr) _
        List.mem_cons_self heq
    have hsplit : read ++ readEntries X.toExternals source snapshotId (entry :: entries) =
        read ++ [(sourceFile X.toExternals source.sourceId snapshotId entry, entry.bytes)] ++
          readEntries X.toExternals source snapshotId entries := by
      rw [List.append_assoc]
      rfl
    rw [hsplit]
    refine ih (recordsOf_parseFile h hnew hstep) ?_ hrest
    rw [← List.map_append, ← hsplit, List.map_append]
    exact hkeys

theorem recordsOf_empty : RecordsOf X limits [] .empty := by
  refine ⟨⟨List.Pairwise.nil, List.Pairwise.nil, List.Pairwise.nil⟩, ?_, ?_, ?_, ?_⟩ <;>
    exact fun _ hmem => absurd hmem List.not_mem_nil

/-- **The records of one source.** -/
theorem recordsOf_seal {policy : CompilerPolicy} {source : SourceSpec} {entries : List RawEntry}
    (h : EntriesOk X.toExternals policy entries) {diagnostics : List Diagnostic}
    {snapshot : VaultSnapshot} {parsed : Parsed}
    (hseal : sealAndParse X policy source entries diagnostics = .ok (snapshot, parsed)) :
    RecordsOf X policy.pathLimits (readEntries X.toExternals source
      (entriesId X.toExternals source entries) (sortEntries entries)) parsed.workspace := by
  obtain ⟨hrun, -⟩ := sealAndParse_eq_ok.mp hseal
  have hempty : RecordsOf X policy.pathLimits [] (Parsed.mk .empty diagnostics).workspace :=
    recordsOf_empty
  refine recordsOf_entries hempty ?_ hrun
  rw [List.map_nil, List.nil_append, readEntries, List.map_map]
  have hpaths : ((sortEntries entries).map RawEntry.logicalPath).Nodup :=
    (sortEntries_ascending h.distinct).imp LT.lt.ne
  refine List.Nodup.of_map (fun k : String ×ₗ String ×ₗ SourceFileId => (ofLex (ofLex k).2).1) ?_
  rw [List.map_map]
  exact hpaths

/-! ## All sources -/

theorem mem_foldl_insertKey {κ ν : Type} [LinearOrder κ] {l m : List (κ × ν)} {e : κ × ν}
    (he : e ∈ l.foldl (fun m e => insertKey e.1 e.2 m) m) : e ∈ m ∨ e ∈ l := by
  induction l generalizing m with
  | nil => exact Or.inl he
  | cons x l ih =>
    obtain hold | hnew := ih he
    · obtain rfl | hm := mem_insertKey hold
      · exact Or.inr List.mem_cons_self
      · exact Or.inl hm
    · exact Or.inr (List.mem_cons_of_mem _ hnew)

theorem sorted_foldl_insertKey {κ ν : Type} [LinearOrder κ] {l m : List (κ × ν)} (h : Sorted m) :
    Sorted (l.foldl (fun m e => insertKey e.1 e.2 m) m) := by
  induction l generalizing m with
  | nil => exact h
  | cons x l ih => exact ih (sorted_insertKey _ _ h)

/-- The body of the asset loop of `extend`. -/
def mergeAsset (m : List (AssetId × Asset)) (e : AssetId × Asset) : List (AssetId × Asset) :=
  insertKey e.1 (match get? e.1 m with
    | some asset => asset.mergeSources e.2.sources
    | none => e.2) m

theorem sorted_foldl_mergeAsset {l m : List (AssetId × Asset)} (h : Sorted m) :
    Sorted (l.foldl mergeAsset m) := by
  induction l generalizing m with
  | nil => exact h
  | cons x l ih => exact ih (sorted_insertKey _ _ h)

/-- Assets are merged with those of the sources before, whose occurrences are others. -/
theorem assetOk_foldl_mergeAsset {files : List SourceFile} {l m before : List (AssetId × Asset)}
    (hl : Sorted l) (hlok : ∀ e ∈ l, AssetOk X.toExternals files e)
    (hm : ∀ e ∈ m, AssetOk X.toExternals files e)
    (hold : ∀ e ∈ m, e.1 ∈ l.map Prod.fst → e ∈ before)
    (hapart : ∀ e ∈ before, ∀ e' ∈ l, ∀ f ∈ e.2.sources, ∀ f' ∈ e'.2.sources, f.key ≠ f'.key) :
    ∀ e ∈ l.foldl mergeAsset m, AssetOk X.toExternals files e := by
  induction l generalizing m with
  | nil => exact hm
  | cons x l ih =>
    obtain ⟨hfirst, htail⟩ := sorted_cons.mp hl
    have hx := hlok x List.mem_cons_self
    have hstep : ∀ e ∈ mergeAsset m x, e ∈ m ∨ e.1 = x.1 ∧ AssetOk X.toExternals files e := by
      intro e he
      unfold mergeAsset at he
      obtain rfl | hmem := mem_insertKey he
      · refine Or.inr ⟨rfl, ?_⟩
        cases hget : get? x.1 m with
        | none => exact hx
        | some asset =>
          have hasset := mem_of_get? hget
          refine assetOk_merge (hm _ hasset) hx ?_
          exact hapart _ (hold _ hasset List.mem_cons_self) x List.mem_cons_self
      · exact Or.inl hmem
    refine ih htail (fun e he => hlok e (List.mem_cons_of_mem _ he)) (fun e he => ?_)
      (fun e he hkey => ?_) fun e he e' he' => hapart e he e' (List.mem_cons_of_mem _ he')
    · obtain hmem | ⟨-, hok⟩ := hstep e he
      · exact hm e hmem
      · exact hok
    · obtain hmem | ⟨hid, -⟩ := hstep e he
      · exact hold e hmem (List.mem_cons_of_mem _ hkey)
      · obtain ⟨e', he', heq⟩ := List.mem_map.mp hkey
        exact absurd (heq.trans hid) (hfirst e' he').ne'

/-- **What one source adds to the records of those before it.** -/
theorem recordsOf_extend {read read' : List ReadFile} {w w' : CanonicalWorkspace}
    (h : RecordsOf X limits read w) (h' : RecordsOf X limits read' w')
    (hapart : ∀ r ∈ read, ∀ r' ∈ read', r.key ≠ r'.key) :
    RecordsOf X limits (read ++ read') (w.extend w') := by
  have hleft := h.mono (List.subset_append_left read read')
  have hright := h'.mono (List.subset_append_right read read')
  refine ⟨⟨sorted_foldl_insertKey h.documents, sorted_foldl_insertKey h.canvases,
    sorted_foldl_mergeAsset h.assets⟩, fun e he => ?_, fun e he => ?_, ?_, fun b hb => ?_⟩
  · obtain hm | hl := mem_foldl_insertKey he
    · exact hleft.document e hm
    · exact hright.document e hl
  · obtain hm | hl := mem_foldl_insertKey he
    · exact hleft.canvas e hm
    · exact hright.canvas e hl
  · refine assetOk_foldl_mergeAsset h'.assets hright.asset hleft.asset (fun e he _ => he) ?_
    intro e he e' he' f hf f' hf'
    obtain ⟨r, hr, rfl⟩ := List.mem_map.mp ((h.asset e he).source f hf).1
    obtain ⟨r', hr', rfl⟩ := List.mem_map.mp ((h'.asset e' he').source f' hf').1
    exact hapart r hr r' hr'
  · rcases List.mem_append.mp hb with hm | hl
    · exact hleft.base b hm
    · exact hright.base b hl

/-! ## The inspection -/

/-- What was read of the sources so far, and the records of it. -/
structure ReadOf (X : Crates) (policy : CompilerPolicy) (s : InspectLoop) (read : List ReadFile) :
    Prop where
  files : read.map Prod.fst = s.snapshots.flatMap VaultSnapshot.files
  length : ∀ r ∈ read, r.1.byteLen = r.2.length
  records : RecordsOf X policy.pathLimits read s.parsed.workspace

variable {policy : CompilerPolicy}

theorem readOf_step {s t : InspectLoop} {before : List (SourceSpec × List SourceItem)}
    {input : SourceSpec × List SourceItem} {read : List ReadFile}
    (h : ReadOf X policy s read) (hloop : LoopOk X.toExternals policy s before)
    (hnew : input.1.sourceId ∉ before.map fun input => input.1.sourceId)
    (hstep : inspectSource X policy s input = .ok t) : ∃ read', ReadOf X policy t read' := by
  obtain ⟨collected, snapshot, parsed, hcollected, hseal, -, -, rfl⟩ := inspectSource_eq_ok.mp hstep
  have hentries := (entriesOk_of_collect hcollected).sublist
    (excludeNonstandard_sublist policy collected)
  have hrecords := recordsOf_seal hentries hseal
  obtain ⟨-, rfl⟩ := sealAndParse_eq_ok.mp hseal
  refine ⟨read ++ readEntries X.toExternals input.1 (entriesId X.toExternals input.1
    (excludeNonstandard policy collected).1) (sortEntries (excludeNonstandard policy collected).1),
    ?_, fun r hr => ?_, recordsOf_extend h.records hrecords fun r hr r' hr' heq => ?_⟩
  · rw [List.map_append, h.files, List.flatMap_append, readEntries, List.map_map]
    simp [entriesSnapshot, Function.comp_def]
  · rcases List.mem_append.mp hr with hold | hlast
    · exact h.length r hold
    · obtain ⟨entry, -, rfl⟩ := List.mem_map.mp hlast
      rfl
  · have hfile : r.1 ∈ s.snapshots.flatMap VaultSnapshot.files :=
      h.files ▸ List.mem_map_of_mem (f := Prod.fst) hr
    obtain ⟨snapshot, hsnapshot, hmem⟩ := List.mem_flatMap.mp hfile
    have hid : snapshot.sourceId ∈ before.map fun input => input.1.sourceId := by
      have hmapped := List.mem_map_of_mem (f := VaultSnapshot.sourceId) hsnapshot
      rw [hloop.sources, List.map_reverse, List.mem_reverse] at hmapped
      exact hmapped
    obtain ⟨entry, -, rfl⟩ := List.mem_map.mp hr'
    have hvalue : r.1.sourceId.value = input.1.sourceId.value :=
      congrArg (fun k : String ×ₗ String ×ₗ SourceFileId => (ofLex k).1) heq
    rw [((hloop.snapshot snapshot hsnapshot).bound r.1 hmem).1] at hvalue
    have hsame : snapshot.sourceId = input.1.sourceId := congrArg SourceId.mk hvalue
    rw [hsame] at hid
    exact hnew hid

/-- The loop over the sources, from any sources before them. -/
theorem readOf_run (hX : NfcLaws X.toExternals)
    {sources before : List (SourceSpec × List SourceItem)} {s t : InspectLoop}
    {read : List ReadFile} (h : ReadOf X policy s read)
    (hloop : LoopOk X.toExternals policy s before)
    (hdistinct : (sources.map fun input => input.1.sourceId).Nodup)
    (hapart : ∀ input ∈ sources, input.1.sourceId ∉ before.map fun input => input.1.sourceId)
    (hrun : sources.foldlM (inspectSource X policy) s = .ok t) :
    ∃ read', ReadOf X policy t read' := by
  induction sources generalizing s before read with
  | nil =>
    cases hrun
    exact ⟨read, h⟩
  | cons input sources ih =>
    rw [List.foldlM_cons, bind_eq_ok] at hrun
    obtain ⟨u, hstep, hrest⟩ := hrun
    obtain ⟨hfirst, hdistinct⟩ := List.nodup_cons.mp hdistinct
    obtain ⟨read', hread⟩ := readOf_step h hloop (hapart input List.mem_cons_self) hstep
    refine ih hread (loopOk_step hX hloop hstep) hdistinct (fun other hother hmem => ?_) hrest
    rcases List.mem_cons.mp hmem with hsame | hmem
    · exact hfirst (hsame ▸ List.mem_map_of_mem (f := fun input => input.1.sourceId) hother)
    · exact hapart other (List.mem_cons_of_mem _ hother) hmem

section

variable {sources : List (SourceSpec × List SourceItem)} {inspection : Inspection} {s : InspectLoop}

/-- **Every record stands for files that were read.** -/
theorem InspectedSet.readOf (hX : NfcLaws X.toExternals)
    (h : InspectedSet X policy sources inspection s) : ∃ read, ReadOf X policy s read := by
  have hstart : LoopOk X.toExternals policy ⟨[], ⟨.empty, []⟩, 0, 0⟩ [] :=
    ⟨fun _ hmem => absurd hmem List.not_mem_nil, rfl, rfl, rfl, Nat.zero_le _, Nat.zero_le _⟩
  have hempty : ReadOf X policy ⟨[], ⟨.empty, []⟩, 0, 0⟩ [] :=
    ⟨rfl, fun _ hmem => absurd hmem List.not_mem_nil, recordsOf_empty⟩
  exact readOf_run hX hempty hstart h.distinct (fun _ _ => List.not_mem_nil) h.loop

/-- The keys of the sealed files tell them apart. -/
theorem SnapshotsOk.sealed {snapshots : List VaultSnapshot}
    (h : SnapshotsOk X.toExternals policy snapshots) {file : SourceFile}
    (hfile : file ∈ snapshots.flatMap VaultSnapshot.files) : Sealed snapshots file := by
  have hentries : (snapshots.flatMap fun snapshot => snapshot.files.map fun file =>
      (file.sealKey, file)).map Prod.fst =
      snapshots.flatMap fun snapshot => snapshot.files.map SourceFile.sealKey := by
    rw [List.map_flatMap]
    exact List.flatMap_congr fun snapshot _ => by rw [List.map_map]; rfl
  have hnodup : (snapshots.flatMap fun snapshot =>
      snapshot.files.map SourceFile.sealKey).Nodup := by
    refine List.nodup_flatMap.mpr ⟨fun snapshot hsnapshot => ?_, ?_⟩
    · refine List.Nodup.of_map
        (fun k : String ×ₗ SnapshotId ×ₗ String => (ofLex (ofLex k).2).2) ?_
      rw [List.map_map]
      exact (h.snapshot snapshot hsnapshot).1.ascending.imp LT.lt.ne
    · have hnames := List.pairwise_map.mp h.ascending
      refine hnames.imp_of_mem fun {a b} ha hb hlt => ?_
      rw [Function.onFun, List.disjoint_left]
      intro key hka hkb
      obtain ⟨f, hf, rfl⟩ := List.mem_map.mp hka
      obtain ⟨f', hf', heq⟩ := List.mem_map.mp hkb
      have hvalue : f'.sourceId.value = f.sourceId.value :=
        congrArg (fun k : String ×ₗ SnapshotId ×ₗ String => (ofLex k).1) heq
      rw [((h.snapshot b hb).1.bound f' hf').1, ((h.snapshot a ha).1.bound f hf).1] at hvalue
      exact hlt.ne hvalue.symm
  obtain ⟨snapshot, hsnapshot, hmem⟩ := List.mem_flatMap.mp hfile
  refine get?_of_mem (sorted_collect _).nodup ((collect_perm (hentries ▸ hnodup)).mem_iff.mpr ?_)
  exact List.mem_flatMap.mpr ⟨snapshot, hsnapshot, List.mem_map_of_mem hmem⟩

/-- The records of what was read are identified by their sealed files. -/
theorem ready_of_records {snapshots : List VaultSnapshot} {read : List ReadFile}
    {w : CanonicalWorkspace} (h : RecordsOf X policy.pathLimits read w)
    (hsealed : ∀ r ∈ read, Sealed snapshots r.1) : Ready X w snapshots := by
  have hfiles : ∀ file ∈ read.map Prod.fst, Sealed snapshots file := by
    intro file hfile
    obtain ⟨r, hr, rfl⟩ := List.mem_map.mp hfile
    exact hsealed r hr
  refine ⟨h.toWorkspaceSorted, ⟨fun e he => ?_, fun e he => ?_, fun e he => ?_, fun b hb => ?_⟩,
    fun e he => (h.document e he).2.1⟩
  · obtain ⟨hid, -, bytes, diagnostics, hread, hparsed⟩ := h.document e he
    exact ⟨hsealed _ hread, hid, documentId_of_parseMarkdown hparsed⟩
  · obtain ⟨hid, hkind, bytes, hread, hparsed⟩ := h.canvas e he
    exact ⟨hsealed _ hread, hkind, hid, canvasId_of_parseCanvas hparsed⟩
  · have hok := h.asset e he
    cases hsources : e.2.sources with
    | nil => exact absurd hsources hok.nonempty
    | cons source rest =>
      obtain ⟨hfile, hkind, hid⟩ := hok.source source (by rw [hsources]; exact List.mem_cons_self)
      refine ⟨source, ?_, hfiles source hfile, hkind, hid.symm⟩
      rw [Asset.canonicalSource, hsources, List.head?_cons]
  · obtain ⟨hkind, hfile, hid⟩ := h.base b hb
    exact ⟨hfiles _ hfile, hkind, hid⟩

end

end

end Okc.Core
