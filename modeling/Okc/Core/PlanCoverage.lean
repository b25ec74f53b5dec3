import Okc.Core.Plan

/-!
# What an accepted plan covers (`plan.rs:1092-1430`)

`validate_plan_paths_and_operations` goes through the operations once and collects what they cover.

* `validateAction_eq_ok`: what is accepted of one operation.
* **`validatePlan_iff`**: the operations are accepted exactly when each makes the output of one
  record from its sealed source, none writes where another does, and every record has its own.
-/

namespace Okc.Core

open Okc.Lib

section

variable (X : Crates) (policy : CompilerPolicy) (snapshots : List VaultSnapshot)
  (w : CanonicalWorkspace) (paths : OutputPathMaps)

/-- The file that an operation reads is sealed, with the content that it expects. -/
structure Reads (o : OutputOperation) (source : SourceFile) : Prop where
  sealed : get? (toLex (o.sourceId.value, toLex (o.snapshotId, o.sourcePath)))
    (sealedFiles snapshots) = some source
  hash : source.contentHash = o.expectedHash

def copiedId (o : OutputOperation) : OperationId :=
  copyOperationId X.toExternals o.sourceId o.sourcePath o.destination o.expectedHash

/-- The operation makes the output of a record: a copy where nothing is to be rewritten, and what
was planned where something is. -/
inductive Makes (source : SourceFile) (o : OutputOperation) : CanvasReferenceTarget → Prop
  | copiedNote {d : Document}
      (found : (w.documents.map Prod.snd).find? (fun d => d.sourceFile = source) = some d)
      (kind : source.kind = .markdown)
      (path : get? d.documentId paths.documents = some o.destination)
      (planned : plannedMarkdownReplacements paths d = .ok [])
      (action : o.action = .copy .markdown)
      (id : o.operationId = copiedId X o) : Makes source o (.document d.documentId)
  | rewrittenNote {d : Document} {outputHash : ContentHash} {replacements : List RewriteReplacement}
      (found : (w.documents.map Prod.snd).find? (fun d => d.sourceFile = source) = some d)
      (kind : source.kind = .markdown)
      (path : get? d.documentId paths.documents = some o.destination)
      (planned : plannedMarkdownReplacements paths d = .ok replacements)
      (some : replacements ≠ [])
      (action : o.action = .rewriteMarkdown outputHash replacements)
      (id : o.operationId = markdownRewriteOperationId X.toExternals source o.destination outputHash
        replacements) : Makes source o (.document d.documentId)
  | copiedAsset {e : AssetId × Asset}
      (found : w.assets.find? (fun e => e.2.canonicalSource = some source) = some e)
      (kind : source.kind = .asset)
      (path : get? e.1 paths.assets = some o.destination)
      (action : o.action = .copy .asset)
      (id : o.operationId = copiedId X o) : Makes source o (.asset e.1)
  | copiedCanvas {c : Canvas}
      (found : (w.canvases.map Prod.snd).find? (fun c => c.sourceFile = source) = some c)
      (kind : source.kind = .canvas)
      (path : get? c.canvasId paths.canvases = some o.destination)
      (planned : plannedCanvasRewrites paths c o.destination = .ok [])
      (action : o.action = .copy .canvas)
      (id : o.operationId = copiedId X o) : Makes source o (.canvas c.canvasId)
  | rewrittenCanvas {c : Canvas} {rewrites : List CanvasReferenceRewrite} {rendered : Bytes}
      (found : (w.canvases.map Prod.snd).find? (fun c => c.sourceFile = source) = some c)
      (kind : source.kind = .canvas)
      (path : get? c.canvasId paths.canvases = some o.destination)
      (planned : plannedCanvasRewrites paths c o.destination = .ok rewrites)
      (written : renderRewrittenCanvas c X rewrites = .ok rendered)
      (action : o.action = .rewriteCanvas (X.contentHash rendered) rewrites)
      (id : o.operationId = canvasRewriteOperationId X.toExternals source o.destination
        (X.contentHash rendered) rewrites) : Makes source o (.canvas c.canvasId)
  | copiedBase {b : BaseArtifact}
      (found : w.bases.find? (fun b => b.sourceFile = source) = some b)
      (kind : source.kind = .base)
      (path : get? b.baseArtifactId paths.bases = some o.destination)
      (action : o.action = .copy .base)
      (id : o.operationId = copiedId X o) : Makes source o (.base b.baseArtifactId)

/-- The operation makes the output of the record from its sealed source. -/
def Produces (o : OutputOperation) (record : CanvasReferenceTarget) : Prop :=
  ∃ source, Reads snapshots o source ∧ Makes X w paths source o record

end

/-! ## One operation -/

/-- What is covered when an operation for the record is accepted. -/
def Coverage.cover (s : Coverage) (o : OutputOperation) : CanvasReferenceTarget → Coverage
  | .document _ => { s with documentOutputs := o.destination :: s.documentOutputs }
  | .asset _ => { s with assetOutputs := o.destination :: s.assetOutputs }
  | .canvas id => { s with canvases := id :: s.canvases }
  | .base id => { s with bases := id :: s.bases }

/-- Nothing before the operation covers what it does. -/
def Coverage.Free (s : Coverage) (o : OutputOperation) : CanvasReferenceTarget → Prop
  | .document _ => o.destination ∉ s.documentOutputs
  | .asset _ => o.destination ∉ s.assetOutputs
  | .canvas id => id ∉ s.canvases
  | .base id => id ∉ s.bases

section

variable {X : Crates} {policy : CompilerPolicy} {snapshots : List VaultSnapshot}
  {w : CanonicalWorkspace} {paths : OutputPathMaps} {s t : Coverage} {o : OutputOperation}
  {source : SourceFile}

theorem documentOf_eq_ok {word : String} {d : Document} :
    documentOf w source o word = .ok d ↔
      (w.documents.map Prod.snd).find? (fun d => d.sourceFile = source) = some d := by
  unfold documentOf
  cases (w.documents.map Prod.snd).find? (fun d => d.sourceFile = source) <;> simp

theorem canvasOf_eq_ok {word : String} {c : Canvas} :
    canvasOf w source o word = .ok c ↔
      (w.canvases.map Prod.snd).find? (fun c => c.sourceFile = source) = some c := by
  unfold canvasOf
  cases (w.canvases.map Prod.snd).find? (fun c => c.sourceFile = source) <;> simp

theorem validateMarkdownCopy_eq_ok : validateMarkdownCopy w paths s source o = .ok t ↔
    ∃ d, (w.documents.map Prod.snd).find? (fun d => d.sourceFile = source) = some d ∧
      plannedMarkdownReplacements paths d = .ok [] ∧
      get? d.documentId paths.documents = some o.destination ∧
      s.Free o (.document d.documentId) ∧ t = s.cover o (.document d.documentId) := by
  simp only [validateMarkdownCopy, bind_eq_ok, exists_unit, reject_eq_ok, documentOf_eq_ok,
    not_or, not_not, ne_eq, Except.ok.injEq]
  constructor
  · rintro ⟨d, hd, planned, hplanned, ⟨hpath, hfree, rfl⟩, rfl⟩
    exact ⟨d, hd, hplanned, hpath, hfree, rfl⟩
  · rintro ⟨d, hd, hplanned, hpath, hfree, rfl⟩
    exact ⟨d, hd, [], hplanned, ⟨hpath, hfree, rfl⟩, rfl⟩

theorem validateMarkdownRewrite_eq_ok {replacements : List RewriteReplacement} :
    validateMarkdownRewrite w paths s source o replacements = .ok t ↔
    source.kind = .markdown ∧
    ∃ d, (w.documents.map Prod.snd).find? (fun d => d.sourceFile = source) = some d ∧
      plannedMarkdownReplacements paths d = .ok replacements ∧ replacements ≠ [] ∧
      get? d.documentId paths.documents = some o.destination ∧
      s.Free o (.document d.documentId) ∧ t = s.cover o (.document d.documentId) := by
  simp only [validateMarkdownRewrite, bind_eq_ok, exists_unit, reject_eq_ok, documentOf_eq_ok,
    not_or, not_not, ne_eq, Except.ok.injEq]
  constructor
  · rintro ⟨hkind, d, hd, planned, hplanned, ⟨hpath, hfree, hne, rfl⟩, rfl⟩
    exact ⟨hkind, d, hd, hplanned, hne, hpath, hfree, rfl⟩
  · rintro ⟨hkind, d, hd, hplanned, hne, hpath, hfree, rfl⟩
    exact ⟨hkind, d, hd, replacements, hplanned, ⟨hpath, hfree, hne, rfl⟩, rfl⟩

theorem validateAssetCopy_eq_ok : validateAssetCopy w paths s source o = .ok t ↔
    ∃ e, w.assets.find? (fun e => e.2.canonicalSource = some source) = some e ∧
      get? e.1 paths.assets = some o.destination ∧
      s.Free o (.asset e.1) ∧ t = s.cover o (.asset e.1) := by
  unfold validateAssetCopy
  cases w.assets.find? (fun e => e.2.canonicalSource = some source) with
  | none => simp
  | some e =>
    simp only [bind_unit_eq_ok, reject_eq_ok, not_or, not_not, ne_eq, Except.ok.injEq,
      Option.some.injEq, exists_eq_left']
    constructor
    · rintro ⟨⟨hpath, hfree⟩, rfl⟩
      exact ⟨hpath, hfree, rfl⟩
    · rintro ⟨hpath, hfree, rfl⟩
      exact ⟨⟨hpath, hfree⟩, rfl⟩

theorem validateCanvasCopy_eq_ok : validateCanvasCopy w paths s source o = .ok t ↔
    ∃ c, (w.canvases.map Prod.snd).find? (fun c => c.sourceFile = source) = some c ∧
      plannedCanvasRewrites paths c o.destination = .ok [] ∧
      get? c.canvasId paths.canvases = some o.destination ∧
      s.Free o (.canvas c.canvasId) ∧ t = s.cover o (.canvas c.canvasId) := by
  simp only [validateCanvasCopy, bind_eq_ok, exists_unit, reject_eq_ok, canvasOf_eq_ok,
    not_or, not_not, ne_eq, Except.ok.injEq]
  constructor
  · rintro ⟨c, hc, ⟨hpath, hfree⟩, planned, hplanned, rfl, rfl⟩
    exact ⟨c, hc, hplanned, hpath, hfree, rfl⟩
  · rintro ⟨c, hc, hplanned, hpath, hfree, rfl⟩
    exact ⟨c, hc, ⟨hpath, hfree⟩, [], hplanned, rfl, rfl⟩

theorem validateCanvasRewrite_eq_ok {outputHash : ContentHash}
    {rewrites : List CanvasReferenceRewrite} :
    validateCanvasRewrite X w paths s source o outputHash rewrites = .ok t ↔
    source.kind = .canvas ∧
    ∃ c rendered, (w.canvases.map Prod.snd).find? (fun c => c.sourceFile = source) = some c ∧
      plannedCanvasRewrites paths c o.destination = .ok rewrites ∧
      renderRewrittenCanvas c X rewrites = .ok rendered ∧ X.contentHash rendered = outputHash ∧
      get? c.canvasId paths.canvases = some o.destination ∧
      s.Free o (.canvas c.canvasId) ∧ t = s.cover o (.canvas c.canvasId) := by
  simp only [validateCanvasRewrite, bind_eq_ok, exists_unit, reject_eq_ok, canvasOf_eq_ok,
    not_or, not_not, ne_eq, Except.ok.injEq]
  constructor
  · rintro ⟨hkind, c, hc, planned, hplanned, rendered, hrendered, ⟨hpath, hfree, rfl, hhash⟩, rfl⟩
    exact ⟨hkind, c, rendered, hc, hplanned, hrendered, hhash, hpath, hfree, rfl⟩
  · rintro ⟨hkind, c, rendered, hc, hplanned, hrendered, hhash, hpath, hfree, rfl⟩
    exact ⟨hkind, c, hc, rewrites, hplanned, rendered, hrendered, ⟨hpath, hfree, rfl, hhash⟩, rfl⟩

theorem validateBaseCopy_eq_ok : validateBaseCopy w paths s source o = .ok t ↔
    ∃ b, w.bases.find? (fun b => b.sourceFile = source) = some b ∧
      get? b.baseArtifactId paths.bases = some o.destination ∧
      s.Free o (.base b.baseArtifactId) ∧ t = s.cover o (.base b.baseArtifactId) := by
  unfold validateBaseCopy
  cases w.bases.find? (fun b => b.sourceFile = source) with
  | none => simp
  | some b =>
    simp only [bind_unit_eq_ok, reject_eq_ok, not_or, not_not, ne_eq, Except.ok.injEq,
      Option.some.injEq, exists_eq_left']
    constructor
    · rintro ⟨⟨hpath, hfree⟩, rfl⟩
      exact ⟨hpath, hfree, rfl⟩
    · rintro ⟨hpath, hfree, rfl⟩
      exact ⟨⟨hpath, hfree⟩, rfl⟩

/-- A copy that is accepted makes the output of a record that nothing before it covers. -/
theorem validateCopy_eq_ok {kind : FileKind} (haction : o.action = .copy kind)
    (hid : o.operationId = copiedId X o) (hkind : source.kind = kind) :
    validateCopy w paths s source o kind = .ok t ↔
      ∃ record, Makes X w paths source o record ∧ s.Free o record ∧ t = s.cover o record := by
  cases kind with
  | markdown =>
    rw [validateCopy, validateMarkdownCopy_eq_ok]
    constructor
    · rintro ⟨d, hd, hplanned, hpath, hfree, rfl⟩
      exact ⟨_, .copiedNote hd hkind hpath hplanned haction hid, hfree, rfl⟩
    · rintro ⟨_, hmakes, hfree, rfl⟩
      cases hmakes with
      | copiedNote hd _ hpath hplanned _ _ => exact ⟨_, hd, hplanned, hpath, hfree, rfl⟩
      | _ => simp_all
  | asset =>
    rw [validateCopy, validateAssetCopy_eq_ok]
    constructor
    · rintro ⟨e, he, hpath, hfree, rfl⟩
      exact ⟨_, .copiedAsset he hkind hpath haction hid, hfree, rfl⟩
    · rintro ⟨_, hmakes, hfree, rfl⟩
      cases hmakes with
      | copiedAsset he _ hpath _ _ => exact ⟨_, he, hpath, hfree, rfl⟩
      | _ => simp_all
  | canvas =>
    rw [validateCopy, validateCanvasCopy_eq_ok]
    constructor
    · rintro ⟨c, hc, hplanned, hpath, hfree, rfl⟩
      exact ⟨_, .copiedCanvas hc hkind hpath hplanned haction hid, hfree, rfl⟩
    · rintro ⟨_, hmakes, hfree, rfl⟩
      cases hmakes with
      | copiedCanvas hc _ hpath hplanned _ _ => exact ⟨_, hc, hplanned, hpath, hfree, rfl⟩
      | _ => simp_all
  | base =>
    rw [validateCopy, validateBaseCopy_eq_ok]
    constructor
    · rintro ⟨b, hb, hpath, hfree, rfl⟩
      exact ⟨_, .copiedBase hb hkind hpath haction hid, hfree, rfl⟩
    · rintro ⟨_, hmakes, hfree, rfl⟩
      cases hmakes with
      | copiedBase hb _ hpath _ _ => exact ⟨_, hb, hpath, hfree, rfl⟩
      | _ => simp_all

/-- What is accepted of one operation. -/
theorem validateAction_eq_ok :
    (∃ id, validateAction X w paths s source o = .ok (t, id) ∧ o.operationId = id) ↔
      ∃ record, Makes X w paths source o record ∧ s.Free o record ∧ t = s.cover o record := by
  unfold validateAction
  cases haction : o.action with
  | copy kind =>
    simp only [bind_eq_ok, exists_unit, reject_eq_ok, not_not, ne_eq, Except.ok.injEq,
      Prod.mk.injEq]
    constructor
    · rintro ⟨_, ⟨hkind, _, hcopy, rfl, rfl⟩, hid⟩
      exact (validateCopy_eq_ok haction hid hkind).mp hcopy
    · rintro ⟨record, hmakes, hfree, rfl⟩
      have hcopied : source.kind = kind ∧ o.operationId = copiedId X o := by
        cases hmakes <;> simp_all
      exact ⟨_, ⟨hcopied.1, _, (validateCopy_eq_ok haction hcopied.2 hcopied.1).mpr
        ⟨record, hmakes, hfree, rfl⟩, rfl, rfl⟩, hcopied.2⟩
  | rewriteMarkdown outputHash replacements =>
    simp only [bind_eq_ok, Except.ok.injEq, Prod.mk.injEq, validateMarkdownRewrite_eq_ok]
    constructor
    · rintro ⟨_, ⟨_, ⟨hkind, d, hd, hplanned, hne, hpath, hfree, rfl⟩, rfl, rfl⟩, hid⟩
      exact ⟨_, .rewrittenNote hd hkind hpath hplanned hne haction hid, hfree, rfl⟩
    · rintro ⟨_, hmakes, hfree, rfl⟩
      cases hmakes with
      | rewrittenNote hd hkind hpath hplanned hne haction' hid =>
        obtain ⟨rfl, rfl⟩ := OutputAction.rewriteMarkdown.inj (haction.symm.trans haction')
        exact ⟨_, ⟨_, ⟨hkind, _, hd, hplanned, hne, hpath, hfree, rfl⟩, rfl, rfl⟩, hid⟩
      | _ => simp_all
  | rewriteCanvas outputHash rewrites =>
    simp only [bind_eq_ok, Except.ok.injEq, Prod.mk.injEq, validateCanvasRewrite_eq_ok]
    constructor
    · rintro ⟨_, ⟨_, ⟨hkind, c, rendered, hc, hplanned, hrendered, rfl, hpath, hfree, rfl⟩, rfl,
        rfl⟩, hid⟩
      exact ⟨_, .rewrittenCanvas hc hkind hpath hplanned hrendered haction hid, hfree, rfl⟩
    · rintro ⟨_, hmakes, hfree, rfl⟩
      cases hmakes with
      | rewrittenCanvas hc hkind hpath hplanned hrendered haction' hid =>
        obtain ⟨rfl, rfl⟩ := OutputAction.rewriteCanvas.inj (haction.symm.trans haction')
        exact ⟨_, ⟨_, ⟨hkind, _, _, hc, hplanned, hrendered, rfl, hpath, hfree, rfl⟩, rfl, rfl⟩,
          hid⟩
      | _ => simp_all

/-- An operation makes the output of one record. -/
theorem Makes.unique {r r' : CanvasReferenceTarget} (h : Makes X w paths source o r)
    (h' : Makes X w paths source o r') : r = r' := by
  cases h <;> cases h' <;> simp_all

theorem Produces.unique {r r' : CanvasReferenceTarget} (h : Produces X snapshots w paths o r)
    (h' : Produces X snapshots w paths o r') : r = r' := by
  obtain ⟨source, hreads, hmakes⟩ := h
  obtain ⟨source', hreads', hmakes'⟩ := h'
  obtain rfl := Option.some.inj (hreads.sealed.symm.trans hreads'.sealed)
  exact hmakes.unique hmakes'

/-- It goes where the record is to go. -/
theorem Makes.path {r : CanvasReferenceTarget} (h : Makes X w paths source o r) :
    canvasReferenceOutputPath paths r = some o.destination := by
  cases h <;> assumption

theorem operationSource_eq_ok :
    (operationSource snapshots o = .ok source ∧ source.contentHash = o.expectedHash) ↔
      Reads snapshots o source := by
  unfold operationSource
  constructor
  · rintro ⟨h, hhash⟩
    split at h
    · cases h
    · rename_i found hfound
      obtain rfl := Except.ok.inj h
      exact ⟨hfound, hhash⟩
  · rintro ⟨hsealed, hhash⟩
    rw [hsealed]
    exact ⟨rfl, hhash⟩

/-- What is accepted of an operation, after those that are covered. -/
theorem validateOperation_eq_ok : validateOperation X policy snapshots w paths s o = .ok t ↔
    validateOutputLogicalPath X.toExternals policy.pathLimits o.destination = .ok () ∧
    portableKey X.toExternals o.destination ∉
      (s.visited.map fun o => portableKey X.toExternals o.destination) ∧
    ¬ NotAfter OutputOperation.key s.visited o ∧
    ∃ record, Produces X snapshots w paths o record ∧ s.Free o record ∧
      t = Coverage.cover { s with visited := o :: s.visited } o record := by
  have hfree : ∀ record, Coverage.Free { s with visited := o :: s.visited } o record ↔
      s.Free o record := by
    intro record
    cases record <;> exact Iff.rfl
  simp only [validateOperation, bind_eq_ok, exists_unit, reject_eq_ok, not_not, ne_eq, Prod.exists,
    Except.ok.injEq]
  constructor
  · rintro ⟨hvalid, hfresh, hafter, source, hsource, hhash, s', id, haction, hid, rfl⟩
    obtain ⟨record, hmakes, hrecord, rfl⟩ := validateAction_eq_ok.mp ⟨id, haction, hid⟩
    exact ⟨hvalid, hfresh, hafter, record,
      ⟨source, operationSource_eq_ok.mp ⟨hsource, hhash⟩, hmakes⟩, (hfree record).mp hrecord, rfl⟩
  · rintro ⟨hvalid, hfresh, hafter, record, ⟨source, hreads, hmakes⟩, hrecord, rfl⟩
    obtain ⟨hsource, hhash⟩ := operationSource_eq_ok.mpr hreads
    obtain ⟨id, haction, hid⟩ := validateAction_eq_ok.mpr
      ⟨record, hmakes, (hfree record).mpr hrecord, rfl⟩
    exact ⟨hvalid, hfresh, hafter, source, hsource, hhash, _, id, haction, hid, rfl⟩

/-! ## All of them -/

/-- What is covered after the operations. -/
structure Tracks (X : Crates) (snapshots : List VaultSnapshot) (w : CanonicalWorkspace)
    (paths : OutputPathMaps) (s : Coverage) (before : List OutputOperation) : Prop where
  visited : s.visited = before
  documents : ∀ path, path ∈ s.documentOutputs ↔
    ∃ o ∈ before, o.destination = path ∧ ∃ id, Produces X snapshots w paths o (.document id)
  assets : ∀ path, path ∈ s.assetOutputs ↔
    ∃ o ∈ before, o.destination = path ∧ ∃ id, Produces X snapshots w paths o (.asset id)
  canvases : ∀ id, id ∈ s.canvases ↔ ∃ o ∈ before, Produces X snapshots w paths o (.canvas id)
  bases : ∀ id, id ∈ s.bases ↔ ∃ o ∈ before, Produces X snapshots w paths o (.base id)

theorem tracks_empty : Tracks X snapshots w paths .empty [] := by
  constructor <;> simp [Coverage.empty]

theorem tracks_cover {before : List OutputOperation} (h : Tracks X snapshots w paths s before)
    {record : CanvasReferenceTarget} (ho : Produces X snapshots w paths o record) :
    Tracks X snapshots w paths (Coverage.cover { s with visited := o :: s.visited } o record)
      (o :: before) := by
  have hother : ∀ r, Produces X snapshots w paths o r ↔ r = record :=
    fun r => ⟨fun hr => hr.unique ho, fun hr => hr ▸ ho⟩
  obtain ⟨hvisited, hdocuments, hassets, hcanvases, hbases⟩ := h
  cases record <;> constructor <;>
    simp [Coverage.cover, hvisited, hdocuments, hassets, hcanvases, hbases, hother, eq_comm]

/-- An operation that goes where no other does covers what no other does. -/
theorem free_of_fresh {before : List OutputOperation} (h : Tracks X snapshots w paths s before)
    {record : CanvasReferenceTarget} (ho : Produces X snapshots w paths o record)
    (hfresh : portableKey X.toExternals o.destination ∉
      before.map fun o => portableKey X.toExternals o.destination) : s.Free o record := by
  have hsame : ∀ o' ∈ before, o'.destination ≠ o.destination := fun o' ho' heq =>
    hfresh (List.mem_map.mpr ⟨o', ho', by rw [heq]⟩)
  have hpath : ∀ o', Produces X snapshots w paths o' record → o'.destination = o.destination := by
    rintro o' ⟨_, -, hmakes'⟩
    obtain ⟨_, -, hmakes⟩ := ho
    exact Option.some.inj (hmakes'.path.symm.trans hmakes.path)
  cases record with
  | document id =>
    intro hmem
    obtain ⟨o', ho', heq, -⟩ := (h.documents _).mp hmem
    exact hsame o' ho' heq
  | asset id =>
    intro hmem
    obtain ⟨o', ho', heq, -⟩ := (h.assets _).mp hmem
    exact hsame o' ho' heq
  | canvas id =>
    intro hmem
    obtain ⟨o', ho', hproduces⟩ := (h.canvases _).mp hmem
    exact hsame o' ho' (hpath o' hproduces)
  | base id =>
    intro hmem
    obtain ⟨o', ho', hproduces⟩ := (h.bases _).mp hmem
    exact hsame o' ho' (hpath o' hproduces)

/-- The maps have an output path for every record, and for nothing else. -/
structure PathsCover (w : CanonicalWorkspace) (paths : OutputPathMaps) : Prop where
  documents : ∀ id, id ∈ paths.documents.map Prod.fst ↔ id ∈ w.documents.map Prod.fst
  assets : ∀ id, id ∈ paths.assets.map Prod.fst ↔ id ∈ w.assets.map Prod.fst
  canvases : ∀ id, id ∈ paths.canvases.map Prod.fst ↔ id ∈ w.canvases.map Prod.fst
  bases : ∀ id, id ∈ paths.bases.map Prod.fst ↔ id ∈ w.bases.map BaseArtifact.baseArtifactId

/-- The operations make the output of every record, each at its own path, and nothing else. -/
structure PlanCovered (X : Crates) (policy : CompilerPolicy) (snapshots : List VaultSnapshot)
    (w : CanonicalWorkspace) (paths : OutputPathMaps) (operations : List OutputOperation) :
    Prop where
  keys : PathsCover w paths
  valid : ∀ path ∈ paths.values, validateOutputLogicalPath X.toExternals policy.pathLimits path =
    .ok ()
  made : ∀ o ∈ operations, ∃ record, Produces X snapshots w paths o record
  distinct : (operations.map fun o => portableKey X.toExternals o.destination).Nodup
  ascending : (operations.map OutputOperation.key).Pairwise (· < ·)
  documents : ∀ e ∈ paths.documents, ∃ o ∈ operations, o.destination = e.2 ∧
    ∃ id, Produces X snapshots w paths o (.document id)
  assets : ∀ e ∈ paths.assets, ∃ o ∈ operations, o.destination = e.2 ∧
    ∃ id, Produces X snapshots w paths o (.asset id)
  canvases : ∀ e ∈ w.canvases, ∃ o ∈ operations, Produces X snapshots w paths o (.canvas e.1)
  bases : ∀ b ∈ w.bases, ∃ o ∈ operations, Produces X snapshots w paths o (.base b.baseArtifactId)

theorem validatePathCoverage_eq_ok :
    validatePathCoverage w paths = .ok () ↔ PathsCover w paths := by
  simp only [validatePathCoverage, bind_eq_ok, exists_unit, reject_eq_ok, ne_eq, not_not,
    sortedSet_eq_iff]
  constructor
  · rintro ⟨hdocuments, hassets, hcanvases, hbases⟩
    exact ⟨hdocuments, hassets, hcanvases, hbases⟩
  · intro h
    exact ⟨h.documents, h.assets, h.canvases, h.bases⟩

/-- Where a record is to go is one of the output paths. -/
theorem outputPath_mem {r : CanvasReferenceTarget} {path : String}
    (h : canvasReferenceOutputPath paths r = some path) : path ∈ paths.values := by
  unfold OutputPathMaps.values
  cases r with
  | document id => simp [List.mem_map_of_mem (f := Prod.snd) (mem_of_get? h)]
  | asset id => simp [List.mem_map_of_mem (f := Prod.snd) (mem_of_get? h)]
  | canvas id => simp [List.mem_map_of_mem (f := Prod.snd) (mem_of_get? h)]
  | base id => simp [List.mem_map_of_mem (f := Prod.snd) (mem_of_get? h)]

theorem tracks_step {before : List OutputOperation} (h : Tracks X snapshots w paths s before)
    (ht : validateOperation X policy snapshots w paths s o = .ok t) :
    Tracks X snapshots w paths t (o :: before) := by
  obtain ⟨-, -, -, record, hproduces, -, rfl⟩ := validateOperation_eq_ok.mp ht
  exact tracks_cover h hproduces

variable {operations : List OutputOperation}

/-- The loop runs through when every operation has its record, and none is where one before it
is. -/
theorem validateOperations_isOk (hvalid : ∀ path ∈ paths.values,
    validateOutputLogicalPath X.toExternals policy.pathLimits path = .ok ()) :
    (∃ t, operations.foldlM (validateOperation X policy snapshots w paths) .empty = .ok t) ↔
      (operations.map fun o => portableKey X.toExternals o.destination).Nodup ∧
      (operations.map OutputOperation.key).Pairwise (· < ·) ∧
      ∀ o ∈ operations, ∃ record, Produces X snapshots w paths o record := by
  rw [foldlM_isOk _ (fun before o =>
      portableKey X.toExternals o.destination ∉
        (before.map fun o => portableKey X.toExternals o.destination) ∧
      (∀ p ∈ before.head?, OutputOperation.key p < o.key) ∧
      ∃ record, Produces X snapshots w paths o record)
    (fun s before => Tracks X snapshots w paths s before) ?_
    (fun s b o t hs ht => tracks_step hs ht) operations tracks_empty, scannedFrom_and,
    scannedFrom_and, scanned_fresh, scanned_ascending, scannedFrom_const]
  intro s before o hs
  constructor
  · rintro ⟨t, ht⟩
    obtain ⟨-, hfresh, hafter, record, hproduces, -, -⟩ := validateOperation_eq_ok.mp ht
    rw [hs.visited] at hfresh hafter
    exact ⟨hfresh, not_notAfter.mp hafter, record, hproduces⟩
  · rintro ⟨hfresh, hafter, record, hproduces⟩
    have hpath : canvasReferenceOutputPath paths record = some o.destination := by
      obtain ⟨_, -, hmakes⟩ := hproduces
      exact hmakes.path
    refine ⟨_, validateOperation_eq_ok.mpr ⟨hvalid _ (outputPath_mem hpath), ?_, ?_, record,
      hproduces, free_of_fresh hs hproduces hfresh, rfl⟩⟩
    · rwa [hs.visited]
    · rw [hs.visited]
      exact not_notAfter.mpr hafter

theorem tracks_operations
    (h : operations.foldlM (validateOperation X policy snapshots w paths) .empty = .ok s) :
    Tracks X snapshots w paths s operations.reverse := by
  have htracks := foldlM_represents (fun s before => Tracks X snapshots w paths s before)
    (fun s b o t hs ht => tracks_step hs ht) operations tracks_empty h
  rwa [List.append_nil] at htracks

/-- What is covered at the end is what should be. -/
theorem covered_iff (hkeys : PathsCover w paths)
    (h : Tracks X snapshots w paths s operations.reverse) :
    (sortedSet s.documentOutputs = sortedSet (paths.documents.map Prod.snd) ∧
      sortedSet s.assetOutputs = sortedSet (paths.assets.map Prod.snd) ∧
      sortedSet s.canvases = sortedSet (w.canvases.map Prod.fst) ∧
      sortedSet s.bases = sortedSet (w.bases.map BaseArtifact.baseArtifactId)) ↔
    (∀ e ∈ paths.documents, ∃ o ∈ operations, o.destination = e.2 ∧
      ∃ id, Produces X snapshots w paths o (.document id)) ∧
    (∀ e ∈ paths.assets, ∃ o ∈ operations, o.destination = e.2 ∧
      ∃ id, Produces X snapshots w paths o (.asset id)) ∧
    (∀ e ∈ w.canvases, ∃ o ∈ operations, Produces X snapshots w paths o (.canvas e.1)) ∧
    ∀ b ∈ w.bases, ∃ o ∈ operations,
      Produces X snapshots w paths o (.base b.baseArtifactId) := by
  have hplace : ∀ {o record}, Produces X snapshots w paths o record →
      canvasReferenceOutputPath paths record = some o.destination := by
    rintro o record ⟨_, -, hmakes⟩
    exact hmakes.path
  simp only [sortedSet_eq_iff, h.documents, h.assets, h.canvases, h.bases, List.mem_reverse]
  refine and_congr ?_ (and_congr ?_ (and_congr ?_ ?_))
  · constructor
    · intro hset e he
      exact (hset e.2).mpr (List.mem_map_of_mem he)
    · intro hcovered path
      refine ⟨?_, fun hpath => ?_⟩
      · rintro ⟨o, ho, rfl, id, hproduces⟩
        exact List.mem_map_of_mem (f := Prod.snd) (mem_of_get? (hplace hproduces))
      · obtain ⟨e, he, rfl⟩ := List.mem_map.mp hpath
        exact hcovered e he
  · constructor
    · intro hset e he
      exact (hset e.2).mpr (List.mem_map_of_mem he)
    · intro hcovered path
      refine ⟨?_, fun hpath => ?_⟩
      · rintro ⟨o, ho, rfl, id, hproduces⟩
        exact List.mem_map_of_mem (f := Prod.snd) (mem_of_get? (hplace hproduces))
      · obtain ⟨e, he, rfl⟩ := List.mem_map.mp hpath
        exact hcovered e he
  · constructor
    · intro hset e he
      exact (hset e.1).mpr (List.mem_map_of_mem he)
    · intro hcovered id
      refine ⟨?_, fun hid => ?_⟩
      · rintro ⟨o, ho, hproduces⟩
        exact (hkeys.canvases id).mp
          (List.mem_map_of_mem (f := Prod.fst) (mem_of_get? (hplace hproduces)))
      · obtain ⟨e, he, rfl⟩ := List.mem_map.mp hid
        exact hcovered e he
  · constructor
    · intro hset b hb
      exact (hset b.baseArtifactId).mpr (List.mem_map_of_mem hb)
    · intro hcovered id
      refine ⟨?_, fun hid => ?_⟩
      · rintro ⟨o, ho, hproduces⟩
        exact (hkeys.bases id).mp
          (List.mem_map_of_mem (f := Prod.fst) (mem_of_get? (hplace hproduces)))
      · obtain ⟨b, hb, rfl⟩ := List.mem_map.mp hid
        exact hcovered b hb

theorem planCovered_of_ok
    (h : validatePlanPathsAndOperations X policy snapshots w paths operations = .ok ()) :
    PlanCovered X policy snapshots w paths operations := by
  unfold validatePlanPathsAndOperations at h
  obtain ⟨hcoverage, h⟩ := bind_unit_eq_ok.mp h
  obtain ⟨hpaths, h⟩ := bind_unit_eq_ok.mp h
  obtain ⟨s, hfold, hsets⟩ := bind_eq_ok.mp h
  have hkeys := validatePathCoverage_eq_ok.mp hcoverage
  have hvalid := forM_eq_ok.mp hpaths
  rw [reject_eq_ok, ne_eq, ne_eq, ne_eq, ne_eq, ← not_and_or, ← not_and_or, ← not_and_or, not_not,
    covered_iff hkeys (tracks_operations hfold)] at hsets
  obtain ⟨hdistinct, hascending, hmade⟩ := (validateOperations_isOk hvalid).mp ⟨s, hfold⟩
  exact ⟨hkeys, hvalid, hmade, hdistinct, hascending, hsets.1, hsets.2.1, hsets.2.2.1, hsets.2.2.2⟩

theorem ok_of_planCovered (h : PlanCovered X policy snapshots w paths operations) :
    validatePlanPathsAndOperations X policy snapshots w paths operations = .ok () := by
  obtain ⟨s, hfold⟩ := (validateOperations_isOk h.valid).mpr ⟨h.distinct, h.ascending, h.made⟩
  unfold validatePlanPathsAndOperations
  refine bind_unit_eq_ok.mpr ⟨validatePathCoverage_eq_ok.mpr h.keys,
    bind_unit_eq_ok.mpr ⟨forM_eq_ok.mpr h.valid, bind_eq_ok.mpr ⟨s, hfold, ?_⟩⟩⟩
  rw [reject_eq_ok, ne_eq, ne_eq, ne_eq, ne_eq, ← not_and_or, ← not_and_or, ← not_and_or, not_not,
    covered_iff h.keys (tracks_operations hfold)]
  exact ⟨h.documents, h.assets, h.canvases, h.bases⟩

/-- **What the validator accepts.** -/
theorem validatePlan_iff :
    validatePlanPathsAndOperations X policy snapshots w paths operations = .ok () ↔
      PlanCovered X policy snapshots w paths operations :=
  ⟨planCovered_of_ok, ok_of_planCovered⟩

end

end Okc.Core
