import Okc.Core.Blocks
import Okc.Core.Bulk

/-!
# The corpus of a draft plan (`corpus.rs:61-128`)

`prepare_from_plan` takes the blocks and the frontmatter of every document of the plan's workspace
and seals them. The identities of documents and blocks are hashed once more on the way.

* `document_of_prepare`: every document of the workspace is in the corpus, with its blocks.
* `prepare_keepsBody`: what a note says outside its frontmatter is in the blocks of the corpus.
-/

namespace Okc.Core

open Okc.Lib

section

variable (X : Externals)

def integrationDocumentId (documentId : DocumentId) : DocumentId :=
  ⟨X.fromParts "okc:document:v3\x00" [documentId.hash.bytes]⟩

/-- The block of the corpus that a block of a document becomes. -/
def integrationBlock (documentId : DocumentId) (block : Block) : SourceBlock where
  blockId := ⟨X.fromParts "okc:block:v3\x00" [documentId.hash.bytes, block.blockId.hash.bytes]⟩
  contentHash := X.fromDomainBytes "okc:block-content:v3\x00" (utf8 block.comparisonText)
  text := block.comparisonText

/-- The metadata of a key: an array has a value for each of its items. -/
def keyMetadata (documentId : DocumentId) (key : String) (value : Value) :
    Except OkcError (List MetadataValue) :=
  match value.items with
  | some values => values.zipIdx.mapM fun (value, index) => do
    reject (2 ^ 32 ≤ index) (.invalidConfig "frontmatter array exceeds u32::MAX values")
    MetadataValue.new X documentId key index value
  | none => do
    let metadata ← MetadataValue.new X documentId key 0 value
    .ok [metadata]

def documentMetadata (documentId : DocumentId) (frontmatter : Option Value) :
    Except OkcError (List MetadataValue) :=
  match frontmatter.bind Value.entries with
  | some entries => do
    let metadata ← entries.mapM fun (key, value) => keyMetadata X documentId key value
    .ok metadata.flatten
  | none => .ok []

/-- One turn of the document loop. -/
def integrationDocument (document : Document) : Except OkcError IntegrationDocument := do
  let documentId := integrationDocumentId X document.documentId
  let metadata ← documentMetadata X documentId document.frontmatter
  .ok {
    sourceId := document.sourceFile.sourceId
    documentId := documentId
    originalPath := document.sourceFile.originalPath
    documentHash :=
      X.fromDomainBytes "okc:document-body:v3\x00" (utf8 document.comparisonText)
    blocks := document.blocks.map (integrationBlock X documentId)
    metadata := metadata }

/-- `block_texts`, by the identities of the document and of the block. -/
def blockTextsOf (documents : List Document) : List ((DocumentId ×ₗ BlockId) × String) :=
  collect <| documents.flatMap fun document =>
    document.blocks.map fun block =>
      let documentId := integrationDocumentId X document.documentId
      (toLex (documentId, (integrationBlock X documentId block).blockId), block.comparisonText)

end

def prepareFromPlan (X : Crates) (policy : CompilerPolicy) (workspace : CanonicalWorkspace) :
    Except OkcError (IntegrationCorpus × List ((DocumentId ×ₗ BlockId) × String)) := do
  let documents := workspace.documents.map Prod.snd
  let integrated ← documents.mapM (integrationDocument X.toExternals)
  let corpus ← IntegrationCorpus.seal X.toExternals
    (X.fromDomainBytes "okc:policy:v3\x00" (policy.toValue X).canonicalJson) integrated
  .ok (corpus, blockTextsOf X.toExternals documents)

/-! ## What is kept -/

section

variable {X : Crates} {policy : CompilerPolicy} {workspace : CanonicalWorkspace}
  {corpus : IntegrationCorpus} {texts : List ((DocumentId ×ₗ BlockId) × String)}

/-- Sealing orders the documents, their blocks and their metadata. -/
theorem mem_documents_of_seal {policyHash : ContentHash} {documents : List IntegrationDocument}
    (h : IntegrationCorpus.seal X.toExternals policyHash documents = .ok corpus)
    {d : IntegrationDocument} (hd : d ∈ documents) :
    ∃ document ∈ corpus.documents, document.documentId = d.documentId ∧
      document.blocks.Perm d.blocks ∧ document.metadata.Perm d.metadata := by
  obtain ⟨_, -, h⟩ := bind_eq_ok.mp h
  obtain rfl := Except.ok.inj h
  exact ⟨_, List.mem_map_of_mem (List.mem_mergeSort.mpr hd), rfl, List.mergeSort_perm _ _,
    List.mergeSort_perm _ _⟩

theorem validCorpus_of_seal {policyHash : ContentHash} {documents : List IntegrationDocument}
    (h : IntegrationCorpus.seal X.toExternals policyHash documents = .ok corpus) :
    ValidCorpus X.toExternals corpus := by
  obtain ⟨_, hvalid, h⟩ := bind_eq_ok.mp h
  obtain rfl := Except.ok.inj h
  exact validateCorpus_eq_ok.mp hvalid

/-- **Every document of the workspace is in the corpus, with its blocks.** -/
theorem document_of_prepare (h : prepareFromPlan X policy workspace = .ok (corpus, texts))
    {d : Document} (hd : d ∈ workspace.documents.map Prod.snd) :
    ∃ document ∈ corpus.documents,
      document.documentId = integrationDocumentId X.toExternals d.documentId ∧
      ∀ b ∈ d.blocks, integrationBlock X.toExternals document.documentId b ∈ document.blocks := by
  obtain ⟨integrated, hmap, h⟩ := bind_eq_ok.mp h
  obtain ⟨c, hseal, h⟩ := bind_eq_ok.mp h
  obtain ⟨rfl, -⟩ := Prod.mk.inj (Except.ok.inj h)
  obtain ⟨e, he, hde⟩ := mem_of_mapM_left hmap hd
  obtain ⟨metadata, -, hde⟩ := bind_eq_ok.mp hde
  obtain rfl := Except.ok.inj hde
  obtain ⟨document, hdocument, hid, hblocks, -⟩ := mem_documents_of_seal hseal he
  refine ⟨document, hdocument, hid, fun b hb => hblocks.mem_iff.mpr ?_⟩
  rw [hid]
  exact List.mem_map_of_mem hb

end

/-- **No text of a body is lost.** The blocks of a note cover every line of its body that is not
blank, each once, and each of them is in the corpus, as its slice of the file with its breaks
unified and normalised. -/
theorem prepare_keepsBody {X : Crates} {limits : PathLimits} {file : SourceFile} {bytes : Bytes}
    {d : Document} {diagnostics : List Diagnostic} {policy : CompilerPolicy}
    {workspace : CanonicalWorkspace} {corpus : IntegrationCorpus}
    {texts : List ((DocumentId ×ₗ BlockId) × String)}
    (hparse : parseMarkdown X limits file bytes = .ok (d, diagnostics))
    (hd : d ∈ workspace.documents.map Prod.snd)
    (h : prepareFromPlan X policy workspace = .ok (corpus, texts)) :
    (∃ text, utf8 text = bytes ∧
      BlocksCover X.toExternals bytes (markdownBody text.toList)
        (size text.toList - size (markdownBody text.toList)) d.blocks) ∧
    ∃ document ∈ corpus.documents,
      document.documentId = integrationDocumentId X.toExternals d.documentId ∧
      ∀ b ∈ d.blocks, ∃ s ∈ document.blocks, ∃ slice : List Char,
        s.blockId = (integrationBlock X.toExternals document.documentId b).blockId ∧
        (bytes.take b.span.byteEnd).drop b.span.byteStart = utf8 (String.ofList slice) ∧
        s.text = normalizeText X.toExternals slice := by
  obtain ⟨text, htext, hcover⟩ := parseMarkdown_blocks hparse
  obtain ⟨document, hdocument, hid, hblocks⟩ := document_of_prepare h hd
  refine ⟨⟨text, htext, hcover⟩, document, hdocument, hid, fun b hb => ?_⟩
  obtain ⟨slice, hslice, hcomparison⟩ := hcover.text b hb
  exact ⟨_, hblocks b hb, slice, rfl, hslice, hcomparison⟩

/-! ## A corpus of one note -/

/-- The file of a note that says `Hi`. -/
def hiFile : SourceFile := (plainNote "s" "hi.md" 1).sourceFile

theorem parseMarkdown_hi : ∃ d diagnostics,
    parseMarkdown (plainCrates (plainExternals prefixHash)) CompilerPolicy.default.pathLimits
      hiFile (utf8 "Hi") = .ok (d, diagnostics) ∧ d.sourceFile = hiFile ∧ d.frontmatter = none ∧
      d.blocks.length = 1 := by
  have hpath : validateSourcePathPair (plainExternals prefixHash)
      CompilerPolicy.default.pathLimits hiFile.originalPath hiFile.logicalPath = .ok () := by
    decide +kernel
  have hsplit : (splitFrontmatter "Hi".toList).1 = none := by decide +kernel
  obtain ⟨found, hfound⟩ := @parseFrontmatter_none (plainCrates (plainExternals prefixHash))
    "Hi".toList hiFile.logicalPath hsplit
  obtain ⟨d, diagnostics, h⟩ := @parseMarkdown_isOk (plainCrates (plainExternals prefixHash))
    CompilerPolicy.default.pathLimits hiFile hpath "Hi" _ hfound
  obtain ⟨text, frontmatter, htext, hparsed, hfile, hvalue, hblocks⟩ := parts_parseMarkdown h
  obtain rfl := utf8_injective htext
  refine ⟨d, diagnostics, h, hfile, ?_, ?_⟩
  · rw [hsplit] at hparsed
    rw [hvalue, ← (Prod.mk.inj (Except.ok.inj hparsed)).1]
  · rw [hblocks]
    rfl

/-- One valid document is sealed. -/
theorem seal_isOk_of_one {X : Externals} (policyHash : ContentHash) {d : IntegrationDocument}
    (hd : ValidDocument X d) (hstub : ScannedFrom (Insertable X) [] [d.stubPath]) :
    ∃ c, IntegrationCorpus.seal X policyHash [d] = .ok c := by
  have hblocks : d.blocks.mergeSort (fun a b => a.blockId ≤ b.blockId) = d.blocks :=
    List.mergeSort_of_pairwise ((List.pairwise_map.mp hd.blocksSorted).imp fun h =>
      decide_eq_true (le_of_lt h))
  have hmetadata : d.metadata.mergeSort (fun a b => a.metadataId ≤ b.metadataId) = d.metadata :=
    List.mergeSort_of_pairwise ((List.pairwise_map.mp hd.metadataSorted).imp fun h =>
      decide_eq_true (le_of_lt h))
  have hsort : ([d].mergeSort fun a b => a.documentId ≤ b.documentId).map (fun d =>
      { d with
        blocks := d.blocks.mergeSort fun a b => a.blockId ≤ b.blockId
        metadata := d.metadata.mergeSort fun a b => a.metadataId ≤ b.metadataId }) = [d] := by
    rw [List.mergeSort_singleton, List.map_singleton, hblocks, hmetadata]
  unfold IntegrationCorpus.seal
  dsimp only
  rw [hsort]
  refine ⟨_, bind_unit_eq_ok.mpr ⟨validateCorpus_eq_ok.mpr ?_, rfl⟩⟩
  exact
    { schemaVersion := rfl
      nonempty := List.cons_ne_nil _ _
      corpusHash := rfl
      sorted := List.pairwise_singleton _ _
      document := fun e he => List.mem_singleton.mp he ▸ hd
      outputPaths := hstub
      sourcePaths := List.nodup_singleton _ }

theorem prepareFromPlan_hi {d : Document} (hfile : d.sourceFile = hiFile)
    (hfrontmatter : d.frontmatter = none) (hblocks : d.blocks.length ≤ 1) :
    ∃ corpus texts, prepareFromPlan (plainCrates (plainExternals prefixHash)) .default
      ⟨[(d.documentId, d)], [], [], []⟩ = .ok (corpus, texts) := by
  obtain ⟨document, hdocument⟩ : ∃ document,
      integrationDocument (plainExternals prefixHash) d = .ok document ∧
      document.sourceId = ⟨"s"⟩ ∧ document.originalPath = "hi.md" ∧ document.metadata = [] ∧
      document.blocks =
        d.blocks.map (integrationBlock (plainExternals prefixHash) document.documentId) := by
    unfold integrationDocument documentMetadata
    rw [hfrontmatter, hfile]
    exact ⟨_, rfl, rfl, rfl, rfl, rfl⟩
  obtain ⟨hone, hsource, hpath, hmetadata, hdocument⟩ := hdocument
  have hname : validateComponent .default "hi.md" = .ok () := by decide
  have hportable : Portable (plainExternals prefixHash) "hi.md" :=
    (portable_plain ["hi.md"] (joinSlash_singleton _).symm (by simp) (by simpa using hname)
      (by decide)).1
  have hstub : Portable (plainExternals prefixHash) "legacy/s/hi.md" := by
    refine (portable_plain ["legacy", "s", "hi.md"] (by decide +kernel) (by simp) ?_ (by decide)).1
    simp only [List.mem_cons, List.not_mem_nil, or_false, forall_eq_or_imp, forall_eq]
    exact ⟨by decide, by decide, hname⟩
  have hstubPath : document.stubPath = "legacy/s/hi.md" := by
    rw [IntegrationDocument.stubPath, hsource, hpath]
    decide +kernel
  have hvalid : ValidDocument (plainExternals prefixHash) document :=
    { originalPath := hpath ▸ hportable
      sourceId := by
        rw [hsource]
        decide
      blocksSorted := by
        rw [hdocument, List.map_map]
        obtain hnone | hone := Nat.le_one_iff_eq_zero_or_eq_one.mp hblocks
        · rw [List.length_eq_zero_iff.mp hnone]
          exact List.Pairwise.nil
        · obtain ⟨block, hblock⟩ := List.length_eq_one_iff.mp hone
          rw [hblock]
          exact List.pairwise_singleton _ _
      block := by
        rw [hdocument]
        intro b hb
        obtain ⟨block, -, rfl⟩ := List.mem_map.mp hb
        rfl
      metadataSorted := by
        rw [hmetadata]
        exact List.Pairwise.nil
      slots := by
        rw [hmetadata]
        exact List.nodup_nil
      metadata := by
        rw [hmetadata]
        exact nofun }
  have hinsertable :
      ScannedFrom (Insertable (plainExternals prefixHash)) [] [document.stubPath] := by
    have hfold : Function.Injective (plainExternals prefixHash).fullCasefoldNfc := fun _ _ h => h
    refine insertable_of_apart hfold (fun p hp => ?_) (List.pairwise_singleton _ _)
    rw [List.mem_singleton.mp hp, hstubPath]
    exact hstub
  obtain ⟨corpus, hseal⟩ := seal_isOk_of_one
    ((plainExternals prefixHash).fromDomainBytes "okc:policy:v3\x00"
      (CompilerPolicy.default.toValue (plainCrates (plainExternals prefixHash))).canonicalJson)
    hvalid hinsertable
  refine ⟨corpus, _, bind_eq_ok.mpr ⟨[document], ?_, bind_eq_ok.mpr ⟨corpus, hseal, rfl⟩⟩⟩
  rw [mapM_eq_ok]
  exact .cons hone .nil

/-- The note is covered by its one block, and the block is in the corpus. -/
theorem prepare_keepsBody_hi : ∃ d diagnostics corpus texts,
    parseMarkdown (plainCrates (plainExternals prefixHash)) CompilerPolicy.default.pathLimits
      hiFile (utf8 "Hi") = .ok (d, diagnostics) ∧
    prepareFromPlan (plainCrates (plainExternals prefixHash)) .default
      ⟨[(d.documentId, d)], [], [], []⟩ = .ok (corpus, texts) ∧ d.blocks.length = 1 ∧
    ∃ document ∈ corpus.documents, ∀ b ∈ d.blocks, ∃ s ∈ document.blocks, ∃ slice : List Char,
      s.text = normalizeText (plainExternals prefixHash) slice := by
  obtain ⟨d, diagnostics, hparse, hfile, hfrontmatter, hblocks⟩ := parseMarkdown_hi
  obtain ⟨corpus, texts, hprepare⟩ := prepareFromPlan_hi hfile hfrontmatter hblocks.le
  have hd : d ∈ [(d.documentId, d)].map Prod.snd := List.mem_singleton_self d
  obtain ⟨-, document, hdocument, -, hkeeps⟩ := prepare_keepsBody hparse hd hprepare
  refine ⟨d, diagnostics, corpus, texts, hparse, hprepare, hblocks, document, hdocument,
    fun b hb => ?_⟩
  obtain ⟨s, hs, slice, -, -, htext⟩ := hkeeps b hb
  exact ⟨s, hs, slice, htext⟩

end Okc.Core
