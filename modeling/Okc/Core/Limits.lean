import Okc.Core.Bulk
import Okc.Core.Artifact

/-!
# Size limits (`integration.rs:1451-1466`)

The verifier reads the manifest and the plan of an artifact up to fixed sizes that nothing bounds
when the artifact is compiled. A manifest grows with the files it lists, so a valid plan over enough
documents has a manifest the verifier refuses.

* `length_manifest`: the size of a manifest over an inventory.
* `bulkPlan_keepsLimits`: the limits leave room for a plan.
* `bulkPlan_breaks_limits`: a valid plan over 8192 documents is beyond them.
-/

namespace Okc.Core

open Okc.Lib

/-- The plan and the manifest of its artifact keep the verifier's limits. -/
def KeepsLimits (X : Externals) (p : ApprovedIntegrationPlan) : Prop :=
  p.toValue.canonicalJsonPretty.length ≤ maxApprovedPlanBytes ∧
    ∀ files provenance, materializedFiles X p = .ok files →
      provenanceJsonl X p files = .ok provenance →
      (expectedManifest X p files provenance).toValue.canonicalJsonPretty.length ≤
        maxManifestBytes

/-- A hash adds its 64 digits to a string literal. -/
theorem size_quote_append_hash (s : String) (h : ContentHash) :
    size (quote (s ++ h.hex)) = size (quote s) + 64 := by
  rw [ContentHash.hex, size_quote_append_hex, h.length_bytes]

theorem size_quote_hash (h : ContentHash) : size (quote h.hex) = 66 := by
  have hs := size_quote_append_hash "" h
  rw [String.empty_append] at hs
  exact hs

/-! ## Manifests -/

section Manifest

variable {X : Externals} {p : ApprovedIntegrationPlan} {files : List OutputFile}

/-- An entry of a manifest: two hashes, the path and the length. -/
theorem prettySize_manifestFile (path : String) (bytes : Bytes) :
    (manifestFile X path bytes).toValue.prettySize (0 + 1 + 1) =
      220 + size (quote path) + (Value.nat bytes.length).prettySize 3 := by
  have hpath : size (quote "path") = 6 := by decide
  have hlen : size (quote "byte_len") = 10 := by decide
  have hraw : size (quote "raw_sha256") = 12 := by decide
  have hcontent : size (quote "content_hash") = 14 := by decide
  simp (disch := simp) only [manifestFile, ManifestFile.toValue, Value.prettySize_object,
    List.map_cons, List.map_nil, List.sum_cons, List.sum_nil, Value.prettySize_str, size_quote_hash,
    ContentHash.toValue, hpath, hlen, hraw, hcontent, Nat.reduceAdd]
  omega

/-- A manifest is its header and its entries. -/
theorem length_manifest (hne : files ≠ []) :
    (manifestOf p (inventoryFromBytes X files)).toValue.canonicalJsonPretty.length =
      349 + size (quote p.integrationPlanId) +
        (files.map fun f => 226 + size (quote f.1) + (Value.nat f.2.length).prettySize 3).sum := by
  have hentries : (inventoryFromBytes X files).map ManifestFile.toValue ≠ [] := by
    intro h
    have hlength := congrArg List.length (List.map_eq_nil_iff.mp h)
    rw [inventoryFromBytes, (sortByPath_perm _ _).length_eq, List.length_map] at hlength
    exact hne (List.length_eq_zero_iff.mp hlength)
  have hfiles : (Value.arr ((inventoryFromBytes X files).map ManifestFile.toValue)).prettySize
      (0 + 1) = 4 + (files.map fun f =>
        226 + size (quote f.1) + (Value.nat f.2.length).prettySize 3).sum := by
    rw [Value.prettySize_arr _ hentries, List.map_map, inventoryFromBytes,
      ((sortByPath_perm ManifestFile.path _).map _).sum_eq, List.map_map]
    refine congrArg (4 + ·) (congrArg List.sum (List.map_congr_left fun f _ => ?_))
    simp only [Function.comp_apply, prettySize_manifestFile]
    omega
  have hkeys : size (quote "format_family") = 15 ∧ size (quote "schema_version") = 16 ∧
      size (quote "product_version") = 17 ∧ size (quote "integration_plan_id") = 21 ∧
      size (quote "corpus_hash") = 13 ∧ size (quote "taxonomy_hash") = 15 ∧
      size (quote "pack_profile") = 14 ∧ size (quote "files") = 7 := by decide
  have hconsts : size (quote "okc") = 5 ∧ (Value.nat integrationSchemaVersion).prettySize 1 = 1 ∧
      size (quote productVersion) = 7 ∧ size (quote packProfile) = 31 := by decide
  simp (disch := simp) only [Value.length_canonicalJsonPretty, manifestOf,
    CompiledVaultManifest.toValue, Value.prettySize_object, List.map_cons, List.map_nil,
    List.sum_cons, List.sum_nil, Value.prettySize_str, size_quote_hash, ContentHash.toValue, hkeys,
    hconsts, hfiles]
  omega

/-- Every entry takes its two hashes. -/
theorem length_manifest_ge (hne : files ≠ []) :
    226 * files.length ≤
      (manifestOf p (inventoryFromBytes X files)).toValue.canonicalJsonPretty.length := by
  have hsum := List.card_nsmul_le_sum (files.map fun f =>
    226 + size (quote f.1) + (Value.nat f.2.length).prettySize 3) 226 fun k hk => by
      obtain ⟨f, -, rfl⟩ := List.mem_map.mp hk
      omega
  rw [length_manifest hne]
  rw [List.length_map, smul_eq_mul] at hsum
  omega

theorem length_manifest_le {a b : Nat} (hne : files ≠ []) (hb : 0 < b)
    (hpath : ∀ f ∈ files, len f.1 ≤ a) (hbytes : ∀ f ∈ files, f.2.length < 10 ^ b) :
    (manifestOf p (inventoryFromBytes X files)).toValue.canonicalJsonPretty.length ≤
      349 + size (quote p.integrationPlanId) + files.length * (228 + 6 * a + b) := by
  have hsum := List.sum_le_card_nsmul (files.map fun f =>
    226 + size (quote f.1) + (Value.nat f.2.length).prettySize 3) (228 + 6 * a + b) fun k hk => by
      obtain ⟨f, hf, rfl⟩ := List.mem_map.mp hk
      have hquote := (size_quote f.1).2
      have hnat := Value.prettySize_nat_le 3 hb (hbytes f hf)
      have hlen := hpath f hf
      omega
  rw [length_manifest hne]
  rw [List.length_map, smul_eq_mul] at hsum
  omega

end Manifest

/-! ## A plan beyond the limits -/

/-- Nothing in validation keeps a plan within the limits. -/
theorem bulkPlan_breaks_limits (sha256 : Bytes → ContentHash) :
    ¬ KeepsLimits (plainExternals sha256) (bulkPlan (plainExternals sha256) 8192) := by
  intro hlimits
  have h := bulkPlan_valid sha256 (show 0 < 8192 by decide) (by decide)
  obtain ⟨files, hf⟩ := materializedFiles_isOk h
  obtain ⟨provenance, hprov⟩ := provenanceJsonl_isOk h hf
  have hcount : (payload (bulkPlan (plainExternals sha256) 8192) files provenance).length =
      8195 := by
    have hlength := (materializedFiles_paths h hf).length_eq
    simp only [List.length_map] at hlength
    simp [payload, hlength, outputPaths, bulkPlan, bulkTaxonomy, bulkCorpus]
  have hne : payload (bulkPlan (plainExternals sha256) 8192) files provenance ≠ [] := by
    simp [payload]
  have hge := length_manifest_ge (X := plainExternals sha256)
    (p := bulkPlan (plainExternals sha256) 8192) hne
  have hle := hlimits.2 files provenance hf hprov
  rw [hcount] at hge
  have hmax := hge.trans hle
  rw [maxManifestBytes] at hmax
  omega

/-! ## A plan within the limits -/

theorem length_bulkPlan (sha256 : Bytes → ContentHash) : (bulkPlan (plainExternals sha256) 1).toValue.canonicalJsonPretty.length ≤
    20000 := by
  rw [Value.length_canonicalJsonPretty]
  simp (disch := simp) only [ApprovedIntegrationPlan.toValue, bulkPlan, bulkCorpus, bulkDocument,
    bulkBlock, bulkMetadata, IntegrationCorpus.toValue, IntegrationDocument.toValue,
    SourceBlock.toValue, MetadataValue.toValue, List.range_one, List.map_cons, List.map_nil,
    Value.prettySize_object, Value.prettySize_arr, Value.prettySize_arr_nil, Value.prettySize_str,
    Value.prettySize_bool, Value.prettySize_null, List.sum_cons, List.sum_nil, ContentHash.toValue,
    BlockId.toValue, DocumentId.toValue, size_quote_hash, size_quote_append_hash,
    TaxonomyProposal.toValue, bulkTaxonomy, bulkCluster, TaxonomyCluster.toValue, bulkApproval,
    ApprovalBinding.toValue, bulkRevision, ApprovedClusterRevision.toValue,
    SynthesisProposal.toValue, bulkProposal, SynthesisProposal.seal, bulkDispositions, bulkTargets,
    SourceDisposition.toValue, DispositionTarget.toValue, DispositionTarget.ofBlock,
    DispositionTarget.ofMetadata, DispositionTargetKind.toValue, DispositionKind.toValue,
    List.flatMap_cons, List.flatMap_nil, List.append_nil, CriticReport.toValue, bulkCritic,
    CriticReport.seal, ClusterApproval.approve, ClusterApproval.toValue, Value.option,
    expectedPlanId, BlockId.toString, DocumentId.toString]
  decide

section Notes

variable {documents : List IntegrationDocument} {dispositions : List SourceDisposition}

/-- The metadata a note retains are entries of its documents. -/
theorem mem_retainedMetadata {v : Value} (h : v ∈ retainedMetadata documents dispositions) :
    ∃ d ∈ documents, ∃ m ∈ d.metadata, ∃ kind, v = retainedEntry d.documentId m kind := by
  obtain ⟨d, hd, hv⟩ := List.mem_flatMap.mp h
  obtain ⟨m, hm, hv⟩ := List.mem_filterMap.mp hv
  split at hv
  · cases hv
  · split_ifs at hv
    exact ⟨d, hd, m, hm, _, (Option.some.inj hv).symm⟩

theorem length_retainedMetadata (d : IntegrationDocument) (dispositions : List SourceDisposition) :
    (retainedMetadata [d] dispositions).length ≤ d.metadata.length := by
  rw [retainedMetadata, List.flatMap_singleton]
  exact List.length_filterMap_le _ _

/-- The blocks a note preserves are blocks of its documents. -/
theorem mem_preservedBlocks {item : DocumentId × SourceBlock}
    (h : item ∈ preservedBlocks documents dispositions) :
    ∃ d ∈ documents, ∃ b ∈ d.blocks, item = (d.documentId, b) := by
  obtain ⟨d, hd, hitem⟩ := List.mem_flatMap.mp h
  obtain ⟨b, hb, hitem⟩ := List.mem_filterMap.mp hitem
  split_ifs at hitem
  exact ⟨d, hd, b, hb, (Option.some.inj hitem).symm⟩

theorem length_preservedBlocks (d : IntegrationDocument) (dispositions : List SourceDisposition) :
    (preservedBlocks [d] dispositions).length ≤ d.blocks.length := by
  rw [preservedBlocks, List.flatMap_singleton]
  exact List.length_filterMap_le _ _

end Notes

/-- A record is that of a revision of the plan. -/
theorem provenanceRecord_eq_ok {X : Externals} {p : ApprovedIntegrationPlan} {file : OutputFile}
    {r : ProvenanceRecord} (h : provenanceRecord X p file = .ok r) :
    ∃ kind c revision evidence source, (kind = "canonical_note" ∨ kind = "legacy_redirect") ∧
      c ∈ p.taxonomy.clusters ∧ revision ∈ p.clusters ∧
      (evidence = evidenceSet revision.proposal.evidence ∨ ∃ d ∈ p.corpus.documents,
        evidence = d.blocks.map fun b => ⟨d.documentId, b.blockId, b.contentHash⟩) ∧
      r = recordOf X p file kind c revision evidence source := by
  have hrevision : ∀ {id revision}, get? id p.revisionById = some revision →
      revision ∈ p.clusters := fun {id revision} hr => by
    obtain ⟨r', hr', heq⟩ := List.mem_map.mp (mem_of_mem_collect (mem_of_get? hr))
    obtain rfl : r' = revision := congrArg Prod.snd heq
    exact hr'
  unfold provenanceRecord at h
  split at h
  · rename_i c hc
    obtain ⟨c', hc', heq⟩ := List.mem_map.mp (mem_of_mem_collect (mem_of_get? hc))
    obtain rfl : c' = c := congrArg Prod.snd heq
    split at h
    · cases h
    · rename_i revision hr
      exact ⟨_, c', revision, _, _, Or.inl rfl, hc', hrevision hr, Or.inl rfl,
        (Except.ok.inj h).symm⟩
  · split at h
    · cases h
    · rename_i d hd
      obtain ⟨d', hd', heq⟩ := List.mem_map.mp (mem_of_mem_collect (mem_of_get? hd))
      obtain rfl : d' = d := congrArg Prod.snd heq
      split at h
      · cases h
      · rename_i c hc
        split at h
        · cases h
        · rename_i revision hr
          exact ⟨_, c, revision, _, _, Or.inr rfl, List.mem_of_find?_eq_some hc, hrevision hr,
            Or.inr ⟨d', hd', rfl⟩, (Except.ok.inj h).symm⟩

theorem len_underHeading (heading : String) (parts : List String) :
    len (underHeading heading parts) ≤ len heading + len (concat parts) := by
  unfold underHeading
  split_ifs
  · exact Nat.zero_le _
  · exact (len_append _ _).le

theorem len_stripMd_le (path : String) : len (stripMd path) ≤ len path := by
  unfold stripMd
  split_ifs
  · have htake : (path.toList.take (path.toList.length - 3)).map Char.utf8Size <+:
        path.toList.map Char.utf8Size := (List.take_prefix _ _).map _
    have hsum := htake.sublist.sum_le_sum fun _ _ => Nat.zero_le _
    rwa [← len_ofList, ← len_ofList, String.ofList_toList] at hsum
  · exact le_refl _

section Small

variable (sha256 : Bytes → ContentHash)

theorem len_yamlScalar (s : String) : len (yamlScalar s) = size (quote s) := by
  rw [yamlScalar, Value.text, len_ofList, Value.str, compact, size]

theorem len_planId : size (quote (bulkPlan (plainExternals sha256) 1).integrationPlanId) = 78 := by
  have hid : size (quote "integration_") = 14 := by decide
  rw [bulkPlan, expectedPlanId, size_quote_append_hash, hid]

theorem prettySize_retainedEntry (kind : DispositionKind) : (retainedEntry ⟨indexHash 0⟩
    (bulkMetadata (plainExternals sha256) 0) kind).prettySize 1 ≤ 1000 := by
  have hdoc : size (quote "doc_") = 6 := by decide
  cases kind <;>
  · simp (disch := simp) only [retainedEntry, bulkMetadata, Value.prettySize_object, List.map_cons,
      List.map_nil, List.sum_cons, List.sum_nil, Value.prettySize_str, DocumentId.toValue,
      DocumentId.toString, size_quote_append_hash, DispositionKind.toValue, hdoc]
    decide

variable {sha256}

/-- What the note retains of the one document: at most its one value. -/
theorem len_retainedLine {retained : List Value}
    (h : retainedMetadata [bulkDocument (plainExternals sha256) 0]
      (bulkDispositions (plainExternals sha256) 1) = retained) :
    len (retainedLine retained) ≤ 1100 := by
  have hretained : retained.length ≤ 1 ∧ ∀ v ∈ retained, v.prettySize 1 ≤ 1000 := by
    rw [← h]
    refine ⟨length_retainedMetadata _ _, fun v hv => ?_⟩
    obtain ⟨d, hd, m, hm, kind, rfl⟩ := mem_retainedMetadata hv
    obtain rfl := List.mem_singleton.mp hd
    obtain rfl := List.mem_singleton.mp hm
    exact prettySize_retainedEntry sha256 kind
  have htext : len (Value.arr retained).text ≤ 1006 := by
    rw [Value.text, len_ofList, ← size]
    have harr := Value.prettySize_arr_le 0 hretained.2
    exact (size_compact_le _ 0).trans (harr.trans (by omega))
  have hkey : len "okc_retained_metadata: " = 23 := by decide
  have hbreak : len "\n" = 1 := rfl
  have hline : retainedLine retained =
      "okc_retained_metadata: " ++ (Value.arr retained).text ++ "\n" := rfl
  rw [hline, len_append, len_append, hkey, hbreak]
  omega

theorem len_preserved {items : List (DocumentId × SourceBlock)}
    (h : preservedBlocks [bulkDocument (plainExternals sha256) 0]
      (bulkDispositions (plainExternals sha256) 1) = items) :
    len (concat (items.map renderPreserved)) ≤ 200 := by
  have hitem : ∀ item ∈ items, item = (⟨indexHash 0⟩, bulkBlock (plainExternals sha256) 0) := by
    rw [← h]
    intro item hitem
    obtain ⟨d, hd, b, hb, rfl⟩ := mem_preservedBlocks hitem
    obtain rfl := List.mem_singleton.mp hd
    obtain rfl := List.mem_singleton.mp hb
    rfl
  have hlength : items.length ≤ 1 := by
    rw [← h]
    exact length_preservedBlocks _ _
  have hone : len (renderPreserved (⟨indexHash 0⟩, bulkBlock (plainExternals sha256) 0)) ≤ 190 := by
    show len ("\n<!-- okc-source: " ++ ("doc_" ++ (indexHash 0).hex) ++ " " ++
      ("block_" ++ (indexHash 0).hex) ++ " -->\n\n" ++ trimEnd "Kept as it is." ++ "\n") ≤ 190
    simp only [len_append, ContentHash.len_hex]
    decide
  have hsum := List.sum_le_card_nsmul ((items.map renderPreserved).map len) 190 fun k hk => by
    obtain ⟨_, hs, rfl⟩ := List.mem_map.mp hk
    obtain ⟨item, hi, rfl⟩ := List.mem_map.mp hs
    rw [hitem item hi]
    exact hone
  rw [List.length_map, List.length_map, smul_eq_mul] at hsum
  rw [len_concat]
  omega

theorem length_bulkNote {text : String}
    (h : renderCanonicalNote (bulkPlan (plainExternals sha256) 1) (bulkCluster 1)
      (bulkRevision (plainExternals sha256) 1) = .ok text) : len text ≤ 10000 := by
  have hdocs : noteDocuments (bulkCorpus (plainExternals sha256) 1) (bulkCluster 1) =
      [bulkDocument (plainExternals sha256) 0] := by
    simp [noteDocuments, bulkCorpus, bulkCluster, List.range_one, bulkDocument]
  simp only [renderCanonicalNote, bind_eq_ok, Except.ok.injEq] at h
  obtain ⟨links, hlinks, rfl⟩ := h
  obtain rfl : [] = links := Except.ok.inj hlinks
  have hretained := @len_retainedLine sha256 _ rfl
  have hpreserved := @len_preserved sha256 _ rfl
  show len (concat [concat [
      "---\nokc_generated: true\nokc_schema: 3\n", "okc_cluster_id: ", yamlScalar "all", "\n",
      "okc_integration_plan: ",
      yamlScalar (bulkPlan (plainExternals sha256) 1).integrationPlanId, "\n",
      if retainedMetadata (noteDocuments (bulkCorpus (plainExternals sha256) 1) (bulkCluster 1))
          (bulkDispositions (plainExternals sha256) 1) = [] then ""
      else retainedLine (retainedMetadata
        (noteDocuments (bulkCorpus (plainExternals sha256) 1) (bulkCluster 1))
        (bulkDispositions (plainExternals sha256) 1)), "---\n\n"],
    "# ", "All notes", "\n", concat [],
    underHeading "\n## Preserved source material\n" ((preservedBlocks
      (noteDocuments (bulkCorpus (plainExternals sha256) 1) (bulkCluster 1))
      (bulkDispositions (plainExternals sha256) 1)).map renderPreserved),
    underHeading "\n## Contradictions\n" [], underHeading "\n## Related\n" []]) ≤ 10000
  have hheading := len_underHeading "\n## Preserved source material\n" ((preservedBlocks
    [bulkDocument (plainExternals sha256) 0] (bulkDispositions (plainExternals sha256) 1)).map
      renderPreserved)
  have hall : size (quote "all") = 5 := by decide
  have hlits : len "---\nokc_generated: true\nokc_schema: 3\n" = 38 ∧
      len "okc_cluster_id: " = 16 ∧ len "\n" = 1 ∧ len "okc_integration_plan: " = 22 ∧
      len "---\n\n" = 5 ∧ len "# " = 2 ∧ len "All notes" = 9 ∧ len (concat []) = 0 ∧
      len "\n## Preserved source material\n" = 30 ∧
      len (underHeading "\n## Contradictions\n" []) = 0 ∧
      len (underHeading "\n## Related\n" []) = 0 := by decide
  rw [hdocs]
  generalize retainedMetadata _ _ = retained at hretained ⊢
  have hline : len (if retained = [] then "" else retainedLine retained) ≤ 1100 := by
    split_ifs
    · exact Nat.zero_le _
    · exact hretained
  simp only [len_concat, List.map_cons, List.map_nil, List.sum_cons, List.sum_nil, len_yamlScalar,
    len_planId, hall, hlits] at hline ⊢
  omega

theorem length_bulkStub {canonical : String} (h : len canonical ≤ 100) :
    len (renderLegacyStub (bulkPlan (plainExternals sha256) 1)
      (bulkDocument (plainExternals sha256) 0) canonical) ≤ 1000 := by
  have hdoc : size (quote "doc_") = 6 := by decide
  show len ("---\nokc_redirect: true\nokc_schema: 3\nokc_source_document: " ++
    yamlScalar ("doc_" ++ (indexHash 0).hex) ++ "\nokc_integration_plan: " ++
    yamlScalar (bulkPlan (plainExternals sha256) 1).integrationPlanId ++
    "\n---\n\nThis source note was integrated into [[" ++ stripMd canonical ++ "]].\n") ≤ 1000
  have hlits : len "---\nokc_redirect: true\nokc_schema: 3\nokc_source_document: " = 58 ∧
    len "\nokc_integration_plan: " = 23 ∧
    len "\n---\n\nThis source note was integrated into [[" = 45 ∧ len "]].\n" = 4 := by decide
  have hstrip := len_stripMd_le canonical
  simp only [len_append, len_yamlScalar, size_quote_append_hash, len_planId, hdoc, hlits]
  omega

/-- The files of the one-document plan are small. -/
theorem length_bulkFile {files : List OutputFile}
    (hf : materializedFiles (plainExternals sha256) (bulkPlan (plainExternals sha256) 1) =
      .ok files) : ∀ f ∈ files, f.2.length ≤ 10000 := by
  simp only [materializedFiles, bind_eq_ok, exists_unit, Except.ok.injEq] at hf
  obtain ⟨notes, hnotes, stubs, hstubs, -, rfl⟩ := hf
  have hnote : ∀ note ∈ notes, ∃ text, len text ≤ 10000 ∧
      note = (("knowledge/all.md", utf8 text), [(⟨indexHash 0⟩, "knowledge/all.md")]) := by
    intro note hn
    obtain ⟨r, hr, hrn⟩ := mem_of_mapM_right hnotes hn
    obtain rfl := List.mem_singleton.mp hr
    obtain ⟨c, text, hc, -, ht, rfl⟩ := materializeNote_eq_ok.mp hrn
    obtain rfl : bulkCluster 1 = c := by
      have hmem := mem_of_mem_collect (mem_of_get? hc)
      obtain ⟨c', hc', heq⟩ := List.mem_map.mp hmem
      obtain rfl := List.mem_singleton.mp hc'
      exact congrArg Prod.snd heq
    exact ⟨text, length_bulkNote ht, rfl⟩
  intro f hmem
  rcases List.mem_append.mp (mem_sortByPath.mp hmem) with hn | hs
  · obtain ⟨note, hnmem, rfl⟩ := List.mem_map.mp hn
    obtain ⟨text, htext, rfl⟩ := hnote note hnmem
    simpa using htext
  · obtain ⟨d, hd, hds⟩ := mem_of_mapM_right hstubs hs
    obtain rfl := List.mem_singleton.mp hd
    unfold materializeStub at hds
    split at hds
    · cases hds
    · rename_i canonical hcanonical
      have htarget := mem_of_mem_collect (mem_of_get? hcanonical)
      obtain ⟨note, hn, hpair⟩ := List.mem_flatMap.mp htarget
      obtain ⟨text, -, rfl⟩ := hnote note hn
      obtain rfl : canonical = "knowledge/all.md" :=
        congrArg Prod.snd (List.mem_singleton.mp hpair)
      rw [bind_unit_eq_ok] at hds
      obtain rfl := Except.ok.inj hds.2
      have hstub := @length_bulkStub sha256 "knowledge/all.md" (by decide)
      rw [length_utf8]
      exact hstub.trans (by decide)

/-- The record of a file, of at most one evidence item. -/
theorem prettySize_recordOf {file : OutputFile} {kind : String} (hkind : len kind ≤ 20)
    (hpath : len file.1 ≤ 30) {evidence : List SectionEvidence} (hone : evidence.length ≤ 1)
    {source : Option DocumentId} :
    (recordOf (plainExternals sha256) (bulkPlan (plainExternals sha256) 1) file kind (bulkCluster 1)
      (bulkRevision (plainExternals sha256) 1) evidence source).toValue.prettySize 0 ≤ 5000 := by
  have hevidence : (Value.arr (evidence.map SectionEvidence.toValue)).prettySize 1 ≤ _ :=
    Value.prettySize_arr_le 1 (n := 400) fun v hv => by
      obtain ⟨e, -, rfl⟩ := List.mem_map.mp hv
      simp (disch := simp) only [SectionEvidence.toValue, Value.prettySize_object, List.map_cons,
        List.map_nil, List.sum_cons, List.sum_nil, Value.prettySize_str, DocumentId.toValue,
        DocumentId.toString, BlockId.toValue, BlockId.toString, ContentHash.toValue,
        size_quote_append_hash, size_quote_hash]
      decide
  have hsource : (Value.option DocumentId.toValue source).prettySize 1 ≤ 70 := by
    cases source with
    | none => decide
    | some id =>
      have hdoc : size (quote "doc_") = 6 := by decide
      simp only [Value.option, DocumentId.toValue, DocumentId.toString, Value.prettySize_str,
        size_quote_append_hash, hdoc]
      omega
  have hquoteKind := (size_quote kind).2
  have hquotePath := (size_quote file.1).2
  have hkeys : size (quote "schema_version") = 16 ∧ size (quote "record_id") = 11 ∧
      size (quote "kind") = 6 ∧ size (quote "output_path") = 13 ∧ size (quote "output_hash") = 13 ∧
      size (quote "integration_plan_id") = 21 ∧ size (quote "cluster_id") = 12 ∧
      size (quote "proposal_hash") = 15 ∧ size (quote "critic_hash") = 13 ∧
      size (quote "approval_hash") = 15 ∧ size (quote "evidence") = 10 ∧
      size (quote "source_document") = 17 := by decide
  have hvalues : (Value.nat integrationSchemaVersion).prettySize 1 = 1 ∧
      size (quote "record_") = 9 ∧ size (quote (bulkCluster 1).clusterId) = 5 := by decide
  rw [List.length_map] at hevidence
  simp (disch := simp) only [recordOf, ProvenanceRecord.toValue, Value.prettySize_object,
    List.map_cons, List.map_nil, List.sum_cons, List.sum_nil, Value.prettySize_str, Value.option_some,
    ContentHash.toValue, size_quote_hash, size_quote_append_hash, hkeys, hvalues, len_planId,
    Nat.zero_add]
  have hmul : evidence.length * (2 * 1 + 4 + 400) ≤ 406 := by omega
  omega

theorem bulkFiles {files : List OutputFile}
    (hf : materializedFiles (plainExternals sha256) (bulkPlan (plainExternals sha256) 1) =
      .ok files) : files.length = 2 ∧ ∀ f ∈ files, len f.1 ≤ 30 := by
  have hpaths := materializedFiles_paths (bulkPlan_valid sha256 Nat.one_pos (by decide)) hf
  have hshort : ∀ q ∈ outputPaths (bulkPlan (plainExternals sha256) 1), len q ≤ 30 := by
    have hnote : len (bulkCluster 1).notePath ≤ 30 := by decide
    have hlits : len "legacy/" = 7 ∧ len "s" = 1 ∧ len "/" = 1 := by decide
    have hstub : len (bulkDocument (plainExternals sha256) 0).stubPath ≤ 30 := by
      simp only [IntegrationDocument.stubPath, bulkDocument, len_append, len_bulkName, hlits]
      decide
    exact List.forall_mem_cons.mpr ⟨hnote, List.forall_mem_singleton.mpr hstub⟩
  have hlength := hpaths.length_eq
  rw [List.length_map] at hlength
  exact ⟨hlength, fun f hmem => hshort _ (hpaths.mem_iff.mp (List.mem_map_of_mem hmem))⟩

/-- The provenance of the one-document plan is small. -/
theorem length_bulkProvenance {files : List OutputFile} {provenance : Bytes}
    (hf : materializedFiles (plainExternals sha256) (bulkPlan (plainExternals sha256) 1) =
      .ok files)
    (hprov : provenanceJsonl (plainExternals sha256) (bulkPlan (plainExternals sha256) 1) files =
      .ok provenance) : provenance.length ≤ 20000 := by
  obtain ⟨hlength, hshort⟩ := bulkFiles hf
  simp only [provenanceJsonl, bind_eq_ok, Except.ok.injEq] at hprov
  obtain ⟨records, hrecords, rfl⟩ := hprov
  have hrecord : ∀ r ∈ records, r.toValue.canonicalJson.length ≤ 5000 := by
    intro r hr
    obtain ⟨file, hfile, hfr⟩ := mem_of_mapM_right hrecords hr
    have hpath := hshort file hfile
    obtain ⟨kind, c, revision, evidence, source, hkind, hc, hrev, hevidence, rfl⟩ :=
      provenanceRecord_eq_ok hfr
    obtain rfl := List.mem_singleton.mp hc
    obtain rfl := List.mem_singleton.mp hrev
    refine (Value.length_canonicalJson_le _ 0).trans (prettySize_recordOf ?_ hpath ?_)
    · rcases hkind with rfl | rfl <;> decide
    · rcases hevidence with rfl | ⟨d, hd, rfl⟩
      · exact Nat.zero_le _
      · obtain rfl := List.mem_singleton.mp hd
        exact le_refl _
  have hsum := List.sum_le_card_nsmul
    (records.map fun r => (r.toValue.canonicalJson ++ utf8 "\n").length) 5001 fun k hk => by
      obtain ⟨r, hr, rfl⟩ := List.mem_map.mp hk
      have hbreak : (utf8 "\n").length = 1 := rfl
      have := hrecord r hr
      rw [List.length_append, hbreak]
      omega
  rw [List.length_map, smul_eq_mul, ← (mapM_eq_ok.mp hrecords).length_eq, hlength] at hsum
  rw [List.length_flatMap]
  exact hsum.trans (by decide)

/-- **The limits leave room for a plan.** -/
theorem bulkPlan_keepsLimits :
    KeepsLimits (plainExternals sha256) (bulkPlan (plainExternals sha256) 1) := by
  refine ⟨(length_bulkPlan sha256).trans (by decide), fun files provenance hf hprov => ?_⟩
  obtain ⟨hlength, hshort⟩ := bulkFiles hf
  have hfile := length_bulkFile hf
  have hplan := length_bulkPlan sha256
  have hprovenance := length_bulkProvenance hf hprov
  have hpayload : ∀ f ∈ payload (bulkPlan (plainExternals sha256) 1) files provenance,
      len f.1 ≤ 30 ∧ f.2.length ≤ 20000 := by
    have hpaths : len planPath ≤ 30 ∧ len provenancePath ≤ 30 := by decide
    intro f hf
    simp only [payload, List.mem_append, List.mem_cons, List.not_mem_nil, or_false] at hf
    rcases hf with hf | rfl | rfl
    · exact ⟨hshort f hf, (hfile f hf).trans (by decide)⟩
    · exact ⟨hpaths.1, hplan⟩
    · exact ⟨hpaths.2, hprovenance⟩
  have hne : payload (bulkPlan (plainExternals sha256) 1) files provenance ≠ [] := by
    simp [payload]
  have hmanifest := length_manifest_le (X := plainExternals sha256)
    (p := bulkPlan (plainExternals sha256) 1) (a := 30) (b := 5) hne (by decide)
    (fun f hf => (hpayload f hf).1) fun f hf => lt_of_le_of_lt (hpayload f hf).2 (by decide)
  have hcount : (payload (bulkPlan (plainExternals sha256) 1) files provenance).length = 4 := by
    rw [payload, List.length_append, hlength]
    rfl
  rw [len_planId, hcount] at hmanifest
  exact hmanifest.trans (by decide)

end Small

end Okc.Core
