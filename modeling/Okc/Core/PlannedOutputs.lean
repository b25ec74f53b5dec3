import Okc.Core.PlanCoverage

/-!
# Planned operations are accepted (`plan.rs:664-897`, `plan.rs:2464-2586`)

`build_operations` and the validator of a plan go through the workspace in opposite directions: the
one from the records to the operations, the other from the operations back to the records.

* `Sealed`, `SealedWorkspace`: every record is identified by a file that was sealed.
* `materialized_spec`: what the notes that are rewritten become.
* **`built_of_buildOperations`**: every operation produces the output of a record, and every record
  has one.
-/

namespace Okc.Core

open Okc.Lib

/-- The file is one of those that were sealed. -/
def Sealed (snapshots : List VaultSnapshot) (file : SourceFile) : Prop :=
  get? file.sealKey (sealedFiles snapshots) = some file

/-- The records of the workspace are identified by their sealed files. -/
structure SealedWorkspace (X : Crates) (w : CanonicalWorkspace) (snapshots : List VaultSnapshot) :
    Prop where
  document : ∀ e ∈ w.documents, Sealed snapshots e.2.sourceFile ∧ e.1 = e.2.documentId ∧
    e.2.documentId = ⟨recordId X "okc:document:v2\x00" e.2.sourceFile⟩
  canvas : ∀ e ∈ w.canvases, Sealed snapshots e.2.sourceFile ∧ e.2.sourceFile.kind = .canvas ∧
    e.1 = e.2.canvasId ∧ e.2.canvasId = ⟨recordId X "okc:canvas:v2\x00" e.2.sourceFile⟩
  asset : ∀ e ∈ w.assets, ∃ source, e.2.canonicalSource = some source ∧ Sealed snapshots source ∧
    source.kind = .asset ∧ e.1 = ⟨X.fromParts "okc:asset:v2\x00" [source.contentHash.bytes]⟩
  base : ∀ b ∈ w.bases, Sealed snapshots b.sourceFile ∧ b.sourceFile.kind = .base ∧
    b.baseArtifactId = ⟨recordId X "okc:base:v2\x00" b.sourceFile⟩

section

variable {X : Crates} {policy : CompilerPolicy} {disk : SourceSpec → List SourceItem}
  {snapshots : List VaultSnapshot} {w : CanonicalWorkspace} {paths : OutputPathMaps}

theorem validateFile_eq_ok {file : SourceFile} :
    validateFile snapshots file = .ok () ↔ Sealed snapshots file := by
  rw [validateFile, reject_eq_ok, not_not, Sealed]

/-! ## The record of a source -/

/-- The maps of a workspace are sorted, as `BTreeMap`s are. -/
structure WorkspaceSorted (w : CanonicalWorkspace) : Prop where
  documents : Sorted w.documents
  canvases : Sorted w.canvases
  assets : Sorted w.assets

theorem find?_of_unique {α : Type} {l : List α} {p : α → Bool} {a : α} (ha : a ∈ l)
    (hp : p a = true) (hunique : ∀ b ∈ l, p b = true → b = a) : l.find? p = some a := by
  cases h : l.find? p with
  | none => exact absurd hp (List.find?_eq_none.mp h a ha)
  | some b => rw [hunique b (List.mem_of_find?_eq_some h) (List.find?_some h)]

theorem eq_of_key {κ ν : Type} [LinearOrder κ] {m : List (κ × ν)} (hm : Sorted m) {e e' : κ × ν}
    (he : e ∈ m) (he' : e' ∈ m) (h : e.1 = e'.1) : e = e' :=
  List.inj_on_of_nodup_map hm.nodup he he' h

theorem find_document (hs : SealedWorkspace X w snapshots) (hw : WorkspaceSorted w)
    {e : DocumentId × Document} (he : e ∈ w.documents) :
    (w.documents.map Prod.snd).find? (fun d => d.sourceFile = e.2.sourceFile) = some e.2 := by
  refine find?_of_unique (List.mem_map_of_mem he) (decide_eq_true rfl) fun d hd hfile => ?_
  obtain ⟨e', he', rfl⟩ := List.mem_map.mp hd
  have hkey : e'.1 = e.1 := by
    rw [(hs.document e' he').2.1, (hs.document e' he').2.2, of_decide_eq_true hfile,
      (hs.document e he).2.1, (hs.document e he).2.2]
  rw [eq_of_key hw.documents he' he hkey]

theorem find_canvas (hs : SealedWorkspace X w snapshots) (hw : WorkspaceSorted w)
    {e : CanvasId × Canvas} (he : e ∈ w.canvases) :
    (w.canvases.map Prod.snd).find? (fun c => c.sourceFile = e.2.sourceFile) = some e.2 := by
  refine find?_of_unique (List.mem_map_of_mem he) (decide_eq_true rfl) fun c hc hfile => ?_
  obtain ⟨e', he', rfl⟩ := List.mem_map.mp hc
  have hkey : e'.1 = e.1 := by
    rw [(hs.canvas e' he').2.2.1, (hs.canvas e' he').2.2.2, of_decide_eq_true hfile,
      (hs.canvas e he).2.2.1, (hs.canvas e he).2.2.2]
  rw [eq_of_key hw.canvases he' he hkey]

theorem find_asset (hs : SealedWorkspace X w snapshots) (hw : WorkspaceSorted w)
    {e : AssetId × Asset} (he : e ∈ w.assets) {source : SourceFile}
    (hsource : e.2.canonicalSource = some source) :
    w.assets.find? (fun e => e.2.canonicalSource = some source) = some e := by
  refine find?_of_unique he (decide_eq_true hsource) fun e' he' hsame => ?_
  obtain ⟨s, hcanonical, -, -, hid⟩ := hs.asset e he
  obtain ⟨s', hcanonical', -, -, hid'⟩ := hs.asset e' he'
  obtain rfl := Option.some.inj (hsource.symm.trans hcanonical)
  obtain rfl := Option.some.inj (hcanonical'.symm.trans (of_decide_eq_true hsame))
  exact eq_of_key hw.assets he' he (hid'.trans hid.symm)

/-- The first Base of a source has the identity of every other. -/
theorem find_base (hs : SealedWorkspace X w snapshots) {b : BaseArtifact} (hb : b ∈ w.bases) :
    w.bases.find? (fun b' => b'.sourceFile = b.sourceFile) = some b := by
  refine find?_of_unique hb (decide_eq_true rfl) fun b' hb' hfile => ?_
  have hsame := of_decide_eq_true hfile
  have hid : b'.baseArtifactId = b.baseArtifactId := by
    rw [(hs.base b' hb').2.2, (hs.base b hb).2.2, hsame]
  obtain ⟨id, file⟩ := b'
  obtain ⟨id', file'⟩ := b
  obtain rfl : id = id' := hid
  obtain rfl : file = file' := hsame
  rfl

/-! ## What each loop builds -/

theorem index_eq_ok {κ ν : Type} [LinearOrder κ] {key : κ} {m : List (κ × ν)} {value : ν} :
    index key m = .ok value ↔ get? key m = some value := by
  unfold index
  cases get? key m <;> simp

/-- The operation of a note that is rewritten, whatever its bytes are. -/
def WritesNote (X : Crates) (w : CanonicalWorkspace) (rewrite : PendingMarkdownRewrite)
    (o : OutputOperation) : Prop :=
  ∃ document output, get? rewrite.documentId w.documents = some document ∧
    o = markdownOperation X document.sourceFile.sourceId document rewrite output

theorem rewriteNotes_spec {snapshot : VaultSnapshot} {rewrites : List PendingMarkdownRewrite}
    (hsource : ∀ rewrite ∈ rewrites, ∀ document, get? rewrite.documentId w.documents =
      some document → document.sourceFile.sourceId = snapshot.sourceId)
    {sourceEntries : List (String × RawEntry)} {operations : List OutputOperation}
    (h : rewriteNotes X policy w snapshot sourceEntries rewrites = .ok operations) :
    List.Forall₂ (WritesNote X w) rewrites operations := by
  induction rewrites generalizing sourceEntries operations with
  | nil =>
    rw [rewriteNotes, Except.ok.injEq] at h
    rw [← h]
    exact .nil
  | cons rewrite rewrites ih =>
    simp only [rewriteNotes, bind_eq_ok, exists_unit, reject_eq_ok, not_not, ne_eq, index_eq_ok,
      Prod.exists, Except.ok.injEq] at h
    obtain ⟨document, hdocument, -, _, _, -, -, output, -, rest, hrest, rfl⟩ := h
    refine .cons ⟨document, output, hdocument, ?_⟩
      (ih (fun r hr => hsource r (List.mem_cons_of_mem _ hr)) hrest)
    rw [hsource rewrite List.mem_cons_self document hdocument]

/-- What is rewritten from one source. -/
theorem rewriteSourceNotes_spec {group : String × List PendingMarkdownRewrite}
    (hsource : ∀ rewrite ∈ group.2, ∀ document, get? rewrite.documentId w.documents =
      some document → document.sourceFile.sourceId.value = group.1)
    {operations : List OutputOperation}
    (h : rewriteSourceNotes X policy disk w snapshots group = .ok operations) :
    List.Forall₂ (WritesNote X w) group.2 operations := by
  unfold rewriteSourceNotes at h
  cases hfind : snapshots.find? fun snapshot => snapshot.sourceId.value = group.1 with
  | none =>
    rw [hfind] at h
    cases h
  | some snapshot =>
    rw [hfind] at h
    simp only [bind_eq_ok] at h
    obtain ⟨_, -, _, -, sourceEntries, -, hnotes⟩ := h
    have hname : snapshot.sourceId.value = group.1 := by
      simpa using List.find?_some hfind
    refine rewriteNotes_spec (fun rewrite hrewrite document hdocument => ?_) hnotes
    exact congrArg SourceId.mk ((hsource rewrite hrewrite document hdocument).trans hname.symm)

/-- Every note that waits for its source is rewritten, and nothing else is. -/
theorem materialized_spec {pending : List PendingMarkdownRewrite}
    {operations : List OutputOperation}
    (h : materializeMarkdownRewrites X policy disk w snapshots pending = .ok operations) :
    (∀ o ∈ operations, ∃ rewrite ∈ pending, WritesNote X w rewrite o) ∧
      ∀ rewrite ∈ pending, ∃ o ∈ operations, WritesNote X w rewrite o := by
  simp only [materializeMarkdownRewrites, bind_eq_ok, Except.ok.injEq] at h
  obtain ⟨entries, hentries, written, hwritten, rfl⟩ := h
  have hentry : ∀ source rewrite, (source, rewrite) ∈ entries → rewrite ∈ pending ∧
      ∀ document, get? rewrite.documentId w.documents = some document →
        document.sourceFile.sourceId.value = source := by
    intro source rewrite hmem
    obtain ⟨rewrite', hpending, hsource⟩ := mem_of_mapM_right hentries hmem
    unfold pendingSource at hsource
    split at hsource
    · cases hsource
    · next document hdocument =>
      obtain ⟨rfl, rfl⟩ := Prod.mk.inj (Except.ok.inj hsource)
      refine ⟨hpending, fun document' hdocument' => ?_⟩
      rw [Option.some.inj (hdocument'.symm.trans hdocument)]
  have hgroup : ∀ group ∈ groups entries, ∀ rewrite ∈ group.2, (group.1, rewrite) ∈ entries := by
    intro group hg rewrite hrewrite
    obtain ⟨hvalues, -⟩ := mem_groups.mp hg
    rw [hvalues] at hrewrite
    exact mem_valuesOf.mp hrewrite
  have hspec : ∀ group ∈ groups entries, ∀ built,
      rewriteSourceNotes X policy disk w snapshots group = .ok built →
        List.Forall₂ (WritesNote X w) group.2 built := fun group hg built hbuilt =>
    rewriteSourceNotes_spec (fun rewrite hrewrite =>
      (hentry group.1 rewrite (hgroup group hg rewrite hrewrite)).2) hbuilt
  constructor
  · intro o ho
    obtain ⟨built, hbuilt, hobuilt⟩ := List.mem_flatten.mp ho
    obtain ⟨group, hg, hok⟩ := mem_of_mapM_right hwritten hbuilt
    obtain ⟨rewrite, hrewrite, hwrites⟩ := exists_of_forall₂ (hspec group hg built hok) o hobuilt
    exact ⟨rewrite, (hentry _ _ (hgroup group hg rewrite hrewrite)).1, hwrites⟩
  · intro rewrite hrewrite
    obtain ⟨⟨source, rewrite'⟩, he, hsource⟩ := mem_of_mapM_left hentries hrewrite
    have hsame : rewrite' = rewrite := by
      unfold pendingSource at hsource
      split at hsource
      · cases hsource
      · exact (Prod.mk.inj (Except.ok.inj hsource)).2.symm
    subst hsame
    have hvalue : rewrite' ∈ valuesOf source entries := mem_valuesOf.mpr he
    obtain ⟨built, hbuilt, hok⟩ := mem_of_mapM_left hwritten
      (mem_groups.mpr ⟨rfl, List.ne_nil_of_mem hvalue⟩)
    obtain ⟨o, ho, hwrites⟩ := exists_of_forall₂
      (hspec _ (mem_groups.mpr ⟨rfl, List.ne_nil_of_mem hvalue⟩) built hok).flip rewrite' hvalue
    exact ⟨o, List.mem_flatten.mpr ⟨built, hbuilt, ho⟩, hwrites⟩

/-- The records that the loops of `build_operations` find their operations for. -/
structure Ready (X : Crates) (w : CanonicalWorkspace) (snapshots : List VaultSnapshot) : Prop
    extends WorkspaceSorted w where
  sealed : SealedWorkspace X w snapshots
  markdown : ∀ e ∈ w.documents, e.2.sourceFile.kind = .markdown

/-- The record of a sealed file is read from it. -/
theorem reads_of_sealed {source : SourceFile} (h : Sealed snapshots source) {o : OutputOperation}
    (hsource : o.sourceId = source.sourceId) (hsnapshot : o.snapshotId = source.snapshotId)
    (hpath : o.sourcePath = source.logicalPath) (hhash : o.expectedHash = source.contentHash) :
    Reads snapshots o source := by
  constructor
  · rw [hsource, hsnapshot, hpath]
    exact h
  · exact hhash.symm

/-- The document of an identity, with what is planned for it. -/
structure PlannedNote (w : CanonicalWorkspace) (paths : OutputPathMaps) (id : DocumentId)
    (d : Document) (destination : String) (replacements : List RewriteReplacement) : Prop where
  document : get? id w.documents = some d
  path : get? id paths.documents = some destination
  planned : plannedMarkdownReplacements paths d = .ok replacements

theorem documentOperation_eq_ok {id : DocumentId}
    {built : OutputOperation ⊕ PendingMarkdownRewrite} :
    documentOperation X w paths id = .ok built ↔ ∃ d destination replacements,
      PlannedNote w paths id d destination replacements ∧
      built = if replacements = [] then
        .inl (copyOperation X.toExternals d.sourceFile destination .markdown)
        else .inr ⟨id, destination, replacements⟩ := by
  simp only [documentOperation, bind_eq_ok, index_eq_ok, Except.ok.injEq]
  constructor
  · rintro ⟨d, hd, destination, hpath, replacements, hplanned, rfl⟩
    exact ⟨d, destination, replacements, ⟨hd, hpath, hplanned⟩, rfl⟩
  · rintro ⟨d, destination, replacements, ⟨hd, hpath, hplanned⟩, rfl⟩
    exact ⟨d, hd, destination, hpath, replacements, hplanned, rfl⟩

theorem produces_copiedNote (h : Ready X w snapshots) {id : DocumentId} {d : Document}
    {destination : String} (hnote : PlannedNote w paths id d destination []) :
    Produces X snapshots w paths (copyOperation X.toExternals d.sourceFile destination .markdown)
      (.document id) := by
  have he := mem_of_get? hnote.document
  have hid : id = d.documentId := (h.sealed.document _ he).2.1
  subst hid
  exact ⟨d.sourceFile, reads_of_sealed (h.sealed.document _ he).1 rfl rfl rfl rfl,
    .copiedNote (find_document h.sealed h.toWorkspaceSorted he) (h.markdown _ he) hnote.path
      hnote.planned rfl rfl⟩

theorem produces_rewrittenNote (h : Ready X w snapshots) {id : DocumentId} {d : Document}
    {destination : String} {replacements : List RewriteReplacement}
    (hnote : PlannedNote w paths id d destination replacements) (hne : replacements ≠ [])
    {o : OutputOperation} (ho : WritesNote X w ⟨id, destination, replacements⟩ o) :
    Produces X snapshots w paths o (.document id) := by
  obtain ⟨document, output, hdocument, rfl⟩ := ho
  obtain rfl := Option.some.inj (hnote.document.symm.trans hdocument)
  have he := mem_of_get? hnote.document
  have hid : id = d.documentId := (h.sealed.document _ he).2.1
  subst hid
  exact ⟨d.sourceFile, reads_of_sealed (h.sealed.document _ he).1 rfl rfl rfl rfl,
    .rewrittenNote (find_document h.sealed h.toWorkspaceSorted he) (h.markdown _ he) hnote.path
      hnote.planned hne rfl rfl⟩

theorem produces_asset (h : Ready X w snapshots) {e : AssetId × Asset} (he : e ∈ w.assets)
    {o : OutputOperation} (ho : assetOperation X paths e = .ok o) :
    Produces X snapshots w paths o (.asset e.1) := by
  obtain ⟨source, hsource, hsealed, hkind, -⟩ := h.sealed.asset e he
  unfold assetOperation at ho
  rw [hsource] at ho
  simp only [bind_eq_ok, index_eq_ok, Except.ok.injEq] at ho
  obtain ⟨destination, hpath, rfl⟩ := ho
  exact ⟨source, reads_of_sealed hsealed rfl rfl rfl rfl,
    .copiedAsset (find_asset h.sealed h.toWorkspaceSorted he hsource) hkind hpath rfl rfl⟩

theorem produces_canvas (h : Ready X w snapshots) {e : CanvasId × Canvas} (he : e ∈ w.canvases)
    {o : OutputOperation} (ho : canvasOperation X paths e = .ok o) :
    Produces X snapshots w paths o (.canvas e.1) := by
  obtain ⟨hsealed, hkind, hid, -⟩ := h.sealed.canvas e he
  have hfound := find_canvas h.sealed h.toWorkspaceSorted he
  simp only [canvasOperation, bind_eq_ok, index_eq_ok] at ho
  obtain ⟨destination, hpath, rewrites, hplanned, ho⟩ := ho
  rw [hid] at hpath ⊢
  by_cases hnone : rewrites = []
  · rw [if_pos hnone, Except.ok.injEq] at ho
    subst hnone
    subst ho
    exact ⟨e.2.sourceFile, reads_of_sealed hsealed rfl rfl rfl rfl,
      .copiedCanvas hfound hkind hpath hplanned rfl rfl⟩
  · rw [if_neg hnone] at ho
    obtain ⟨output, hwritten, ho⟩ := bind_eq_ok.mp ho
    obtain rfl := Except.ok.inj ho
    exact ⟨e.2.sourceFile, reads_of_sealed hsealed rfl rfl rfl rfl,
      .rewrittenCanvas hfound hkind hpath hplanned hwritten rfl rfl⟩

theorem produces_base (h : Ready X w snapshots) {b : BaseArtifact} (hb : b ∈ w.bases)
    {o : OutputOperation} (ho : baseOperation X paths b = .ok o) :
    Produces X snapshots w paths o (.base b.baseArtifactId) := by
  obtain ⟨hsealed, hkind, -⟩ := h.sealed.base b hb
  simp only [baseOperation, bind_eq_ok, index_eq_ok, Except.ok.injEq] at ho
  obtain ⟨destination, hpath, rfl⟩ := ho
  exact ⟨b.sourceFile, reads_of_sealed hsealed rfl rfl rfl rfl,
    .copiedBase (find_base h.sealed hb) hkind hpath rfl rfl⟩

/-! ## All of them -/

/-- What the operations of a plan are for. -/
structure Built (X : Crates) (snapshots : List VaultSnapshot) (w : CanonicalWorkspace)
    (paths : OutputPathMaps) (map : List (DocumentId × DocumentId))
    (operations : List OutputOperation) : Prop where
  made : ∀ o ∈ operations, ∃ record, Produces X snapshots w paths o record
  document : ∀ e ∈ map, ∃ o ∈ operations, Produces X snapshots w paths o (.document e.2)
  asset : ∀ e ∈ w.assets, ∃ o ∈ operations, Produces X snapshots w paths o (.asset e.1)
  canvas : ∀ e ∈ w.canvases, ∃ o ∈ operations, Produces X snapshots w paths o (.canvas e.1)
  base : ∀ b ∈ w.bases, ∃ o ∈ operations, Produces X snapshots w paths o (.base b.baseArtifactId)
  distinct : (operations.map fun o => portableKey X.toExternals o.destination).Nodup
  ascending : (operations.map OutputOperation.key).Pairwise (· < ·)

/-- The notes: those that are copied, and those that wait for their sources. -/
theorem produces_notes (h : Ready X w snapshots) {ids : List DocumentId}
    {documents : List (OutputOperation ⊕ PendingMarkdownRewrite)}
    (hdocuments : ids.mapM (documentOperation X w paths) = .ok documents)
    {rewritten : List OutputOperation}
    (hrewritten : materializeMarkdownRewrites X policy disk w snapshots
      (documents.filterMap Sum.getRight?) = .ok rewritten) :
    (∀ o ∈ documents.filterMap Sum.getLeft? ++ rewritten,
      ∃ record, Produces X snapshots w paths o record) ∧
    ∀ id ∈ ids, ∃ o ∈ documents.filterMap Sum.getLeft? ++ rewritten,
      Produces X snapshots w paths o (.document id) := by
  obtain ⟨hfrom, hall⟩ := materialized_spec hrewritten
  constructor
  · intro o ho
    rcases List.mem_append.mp ho with hcopied | hwritten
    · obtain ⟨built, hbuilt, hleft⟩ := List.mem_filterMap.mp hcopied
      obtain ⟨id, -, hid⟩ := mem_of_mapM_right hdocuments hbuilt
      obtain ⟨d, destination, replacements, hnote, rfl⟩ := documentOperation_eq_ok.mp hid
      by_cases hnone : replacements = []
      · subst hnone
        rw [if_pos rfl, Sum.getLeft?_inl, Option.some.injEq] at hleft
        exact ⟨_, hleft ▸ produces_copiedNote h hnote⟩
      · rw [if_neg hnone] at hleft
        cases hleft
    · obtain ⟨rewrite, hrewrite, hwrites⟩ := hfrom o hwritten
      obtain ⟨built, hbuilt, hright⟩ := List.mem_filterMap.mp hrewrite
      obtain ⟨id, -, hid⟩ := mem_of_mapM_right hdocuments hbuilt
      obtain ⟨d, destination, replacements, hnote, rfl⟩ := documentOperation_eq_ok.mp hid
      by_cases hnone : replacements = []
      · rw [if_pos hnone] at hright
        cases hright
      · rw [if_neg hnone, Sum.getRight?_inr, Option.some.injEq] at hright
        subst hright
        exact ⟨_, produces_rewrittenNote h hnote hnone hwrites⟩
  · intro id hid
    obtain ⟨built, hbuilt, hok⟩ := mem_of_mapM_left hdocuments hid
    obtain ⟨d, destination, replacements, hnote, rfl⟩ := documentOperation_eq_ok.mp hok
    by_cases hnone : replacements = []
    · subst hnone
      exact ⟨_, List.mem_append_left _ (List.mem_filterMap.mpr ⟨_, hbuilt, rfl⟩),
        produces_copiedNote h hnote⟩
    · rw [if_neg hnone] at hbuilt
      obtain ⟨o, ho, hwrites⟩ := hall ⟨id, destination, replacements⟩
        (List.mem_filterMap.mpr ⟨_, hbuilt, rfl⟩)
      exact ⟨o, List.mem_append_right _ ho, produces_rewrittenNote h hnote hnone hwrites⟩

theorem built_of_buildOperations (h : Ready X w snapshots) {map : List (DocumentId × DocumentId)}
    {operations : List OutputOperation}
    (hbuild : buildOperations X policy disk w paths snapshots map = .ok operations) :
    Built X snapshots w paths map operations := by
  simp only [buildOperations, bind_eq_ok, exists_unit, Except.ok.injEq] at hbuild
  obtain ⟨documents, hdocuments, rewritten, hrewritten, assets, hassets, canvases, hcanvases,
    bases, hbases, hscan, rfl⟩ := hbuild
  obtain ⟨hnotes, hnote⟩ := produces_notes h hdocuments hrewritten
  have hdistinct := scanned_fresh.mp
    ((scan_eq_ok.mp hscan).imp fun before o hok => reject_eq_ok.mp hok)
  refine ⟨fun o ho => ?_, fun e he => ?_, fun e he => ?_, fun e he => ?_, fun b hb => ?_, hdistinct,
    pairwise_lt_of_sortBy ?_⟩
  · simp only [mem_sortBy, List.append_assoc, List.mem_append] at ho
    rw [← or_assoc, ← List.mem_append] at ho
    rcases ho with ho | ho | ho | ho
    · exact hnotes o ho
    · obtain ⟨e, he, hok⟩ := mem_of_mapM_right hassets ho
      exact ⟨_, produces_asset h he hok⟩
    · obtain ⟨e, he, hok⟩ := mem_of_mapM_right hcanvases ho
      exact ⟨_, produces_canvas h he hok⟩
    · obtain ⟨b, hb, hok⟩ := mem_of_mapM_right hbases ho
      exact ⟨_, produces_base h (mem_sortBy.mp hb) hok⟩
  · obtain ⟨o, ho, hproduces⟩ := hnote e.2 (mem_sortedSet.mpr (List.mem_map_of_mem he))
    exact ⟨o, mem_sortBy.mpr (by simp only [List.mem_append] at ho ⊢; tauto), hproduces⟩
  · obtain ⟨o, ho, hok⟩ := mem_of_mapM_left hassets he
    exact ⟨o, by simp [ho], produces_asset h he hok⟩
  · obtain ⟨o, ho, hok⟩ := mem_of_mapM_left hcanvases he
    exact ⟨o, by simp [ho], produces_canvas h he hok⟩
  · obtain ⟨o, ho, hok⟩ := mem_of_mapM_left hbases (mem_sortBy.mpr hb)
    exact ⟨o, by simp [ho], produces_base h hb hok⟩
  · have hkeys := ((sortBy_perm OutputOperation.key _).map
      fun o => portableKey X.toExternals o.destination).nodup_iff.mp hdistinct
    exact List.Nodup.of_map (fun k : String ×ₗ OperationId => portableKey X.toExternals k.1)
      (by rwa [List.map_map])

end

end Okc.Core
