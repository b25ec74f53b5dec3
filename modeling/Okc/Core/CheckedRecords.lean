import Okc.Core.Blocks
import Okc.Core.InspectedRecords
import Okc.Core.LinkSpans
import Okc.Core.ResolvedRecords

/-!
# The records of a plan are checked against its files (`plan.rs:609-814`)

Every plan is checked to hold records of its sealed files: identities, places in the files, file
references that stand in the canvas, occurrences of assets. What was read and then resolved passes.

* `spans_parseMarkdown`: sections, blocks and links of a note stand in its file.
* `pending_canvasFileReferences`: the nodes that refer to files have an identity each.
* `validateWorkspaceSources_iff`: the resolved records pass exactly when no two Bases have one
  identity.
-/

namespace Okc.Core

open Okc.Lib

/-! ## Sections -/

/-- The span stands in a text that ends at the offset. -/
def SourceSpan.Within (stop : Nat) (span : SourceSpan) : Prop :=
  span.byteStart ≤ span.byteEnd ∧ span.byteEnd ≤ stop

theorem SourceSpan.Within.mono {a b : Nat} {span : SourceSpan} (h : span.Within a) (hab : a ≤ b) :
    span.Within b := ⟨h.1, h.2.trans hab⟩

section Scan

variable {X : Externals} {documentId : DocumentId}

namespace BlockScan

theorem sections_flushParagraph (s : BlockScan) :
    (s.flushParagraph X documentId).sections = s.sections := by
  unfold flushParagraph
  split
  · rfl
  · rfl

theorem offset_flushParagraph (s : BlockScan) :
    (s.flushParagraph X documentId).offset = s.offset := by
  unfold flushParagraph
  split
  · rfl
  · rfl

/-- A line adds the section that it heads, if it does. -/
theorem sections_line (s : BlockScan) (line : List Char) :
    (s.line X documentId line).sections = s.sections ∨
      ∃ entry : Section, entry.span = ⟨s.offset, s.offset + size line⟩ ∧
        (s.line X documentId line).sections = s.sections ++ [entry] := by
  have hflush := @sections_flushParagraph X documentId s
  unfold BlockScan.line
  dsimp only
  split
  · split
    · exact Or.inl rfl
    · exact Or.inl rfl
  · split
    · exact Or.inl hflush
    · split
      · refine Or.inr ⟨_, ?_, by rw [← hflush]; rfl⟩
        dsimp only
        rw [offset_flushParagraph]
      · split
        · exact Or.inl hflush
        · split
          · exact Or.inl rfl
          · exact Or.inl rfl

/-- The sections so far stand before the offset. -/
theorem within_run (lines : List (List Char)) {s : BlockScan}
    (h : ∀ entry ∈ s.sections, entry.span.Within s.offset) :
    ∀ entry ∈ (s.run X documentId lines).sections,
      entry.span.Within (s.offset + size lines.flatten) := by
  induction lines generalizing s with
  | nil =>
    rw [BlockScan.run]
    exact h
  | cons line rest ih =>
    have hstep : ∀ entry ∈ (s.line X documentId line).sections,
        entry.span.Within (s.offset + size line) := by
      intro entry hentry
      obtain hsame | ⟨new, hspan, hnew⟩ := @sections_line X documentId s line
      · rw [hsame] at hentry
        exact (h entry hentry).mono (Nat.le_add_right _ _)
      · rw [hnew] at hentry
        rcases List.mem_append.mp hentry with hold | hlast
        · exact (h entry hold).mono (Nat.le_add_right _ _)
        · rw [List.mem_singleton.mp hlast, hspan]
          exact ⟨Nat.le_add_right _ _, le_rfl⟩
    have hrest := ih (s := { s.line X documentId line with offset := s.offset + size line }) hstep
    rw [BlockScan.run, List.flatten_cons, size_append, ← Nat.add_assoc]
    exact hrest

theorem sections_finish (s : BlockScan) : (s.finish X documentId).sections = s.sections := by
  unfold finish
  dsimp only
  rw [sections_flushParagraph]
  split
  · rfl
  · rfl

end BlockScan

theorem spans_assignSectionBlocks (blocks : List Block) (sections : List Section) :
    (assignSectionBlocks blocks sections).map Section.span = sections.map Section.span := by
  induction sections with
  | nil => rfl
  | cons s rest ih =>
    rw [assignSectionBlocks, List.map_cons, ih]
    rfl

theorem within_scanBlocks (body : List Char) (offset : Nat) :
    ∀ entry ∈ (scanBlocks X documentId body offset).1, entry.span.Within (offset + size body) := by
  have hrun := @BlockScan.within_run X documentId (rawLines body)
    ⟨offset, [], [], none, none, []⟩ fun _ hmem => absurd hmem List.not_mem_nil
  rw [flatten_rawLines] at hrun
  intro entry hentry
  have hspan : entry.span ∈ (((BlockScan.mk offset [] [] none none []).run X documentId
      (rawLines body)).finish X documentId).sections.map Section.span := by
    rw [← spans_assignSectionBlocks]
    exact List.mem_map_of_mem hentry
  rw [BlockScan.sections_finish] at hspan
  obtain ⟨found, hfound, heq⟩ := List.mem_map.mp hspan
  rw [← heq]
  exact hrun found hfound

end Scan

/-! ## The places of a note's records -/

section

variable {X : Crates} {limits : PathLimits} {file : SourceFile} {bytes : Bytes}

theorem sections_parseMarkdown {d : Document} {diagnostics : List Diagnostic}
    (h : parseMarkdown X limits file bytes = .ok (d, diagnostics)) :
    ∃ text : String, utf8 text = bytes ∧
      d.sections = (scanBlocks X.toExternals d.documentId (markdownBody text.toList)
        (size text.toList - size (markdownBody text.toList))).1 := by
  rw [parseMarkdown] at h
  obtain ⟨-, -, h⟩ := bind_eq_ok.mp h
  cases htext : String.fromUTF8? ⟨bytes.toArray⟩ with
  | none =>
    rw [htext] at h
    cases h
  | some text =>
    rw [htext] at h
    obtain ⟨⟨frontmatter, found⟩, hfrontmatter, h⟩ := bind_eq_ok.mp h
    obtain ⟨rfl, rfl⟩ := Prod.mk.inj (Except.ok.inj h)
    exact ⟨text, utf8_of_fromUTF8? htext, rfl⟩

/-- **Sections, blocks and links of a note stand in its file.** -/
theorem spans_parseMarkdown {d : Document} {diagnostics : List Diagnostic}
    (h : parseMarkdown X limits file bytes = .ok (d, diagnostics)) :
    ∀ span ∈ d.spans, span.Within bytes.length := by
  intro span hspan
  have hsize : ∀ text : String, utf8 text = bytes → size text.toList = bytes.length := by
    rintro text rfl
    rw [length_utf8, size_toList]
  rcases List.mem_append.mp hspan with hspan | hlink
  · rcases List.mem_append.mp hspan with hsection | hblock
    · obtain ⟨entry, hentry, rfl⟩ := List.mem_map.mp hsection
      obtain ⟨text, htext, hsections⟩ := sections_parseMarkdown h
      rw [hsections] at hentry
      have hwithin := within_scanBlocks _ _ entry hentry
      have hbody : size (markdownBody text.toList) ≤ size text.toList := by
        obtain ⟨pre, hpre⟩ := markdownBody_suffix text.toList
        rw [← congrArg size hpre, size_append]
        exact Nat.le_add_left _ _
      rw [Nat.sub_add_cancel hbody, hsize text htext] at hwithin
      exact hwithin
    · obtain ⟨block, hmem, rfl⟩ := List.mem_map.mp hblock
      obtain ⟨text, -, hcover⟩ := parseMarkdown_blocks h
      obtain ⟨-, hlt, hle⟩ := hcover.inside block hmem
      exact ⟨hlt.le, hle⟩
  · obtain ⟨link, hmem, rfl⟩ := List.mem_map.mp hlink
    obtain ⟨text, htext, hlocated⟩ := located_links h
    obtain ⟨before, raw, after, hcut, hstart, hend, -⟩ :=
      hlocated.stands (List.mem_map_of_mem hmem)
    have hlength := hsize text htext
    rw [hcut, size_append, size_append] at hlength
    have hstart' : link.byteStart = 0 + size before := hstart
    have hend' : link.byteEnd = 0 + size before + size raw := hend
    unfold DocumentLink.span SourceSpan.Within
    dsimp only
    omega

/-! ## The references of a canvas -/

/-- The references are as they are read, one for a node. -/
theorem pending_canvasNodeReferences {path : String} {nodes : List Value} {seen : List String}
    {references : List CanvasFileReference}
    (h : canvasNodeReferences path seen nodes = .ok references) :
    (references.map CanvasFileReference.nodeId).Nodup ∧ ∀ r ∈ references, r.nodeId ∉ seen ∧
      r.resolution = .pending := by
  induction nodes generalizing seen references with
  | nil =>
    obtain rfl := Except.ok.inj h
    exact ⟨List.nodup_nil, fun _ hmem => absurd hmem List.not_mem_nil⟩
  | cons node rest ih =>
    unfold canvasNodeReferences at h
    obtain ⟨-, h⟩ := bind_unit_eq_ok.mp h
    cases hid : (node.field "id").bind Value.asStr with
    | none =>
      rw [hid] at h
      cases h
    | some nodeId =>
      rw [hid] at h
      obtain ⟨-, h⟩ := bind_unit_eq_ok.mp h
      obtain ⟨hfresh, h⟩ := bind_unit_eq_ok.mp h
      have hfresh := reject_eq_ok.mp hfresh
      -- a node before it is not among the rest
      have hrest : ∀ {found}, canvasNodeReferences path (nodeId :: seen) rest = .ok found →
          (found.map CanvasFileReference.nodeId).Nodup ∧ ∀ r ∈ found,
            r.nodeId ≠ nodeId ∧ r.nodeId ∉ seen ∧ r.resolution = .pending := by
        intro found hfound
        obtain ⟨hnodup, hall⟩ := ih hfound
        refine ⟨hnodup, fun r hr => ?_⟩
        obtain ⟨hnew, hpending⟩ := hall r hr
        exact ⟨fun heq => hnew (heq ▸ List.mem_cons_self),
          fun hmem => hnew (List.mem_cons_of_mem _ hmem), hpending⟩
      split_ifs at h
      · cases hfile : (node.field "file").bind Value.asStr with
        | none =>
          rw [hfile] at h
          cases h
        | some rawPath =>
          rw [hfile] at h
          obtain ⟨found, hfound, h⟩ := bind_eq_ok.mp h
          obtain rfl := Except.ok.inj h
          obtain ⟨hnodup, hall⟩ := hrest hfound
          refine ⟨List.nodup_cons.mpr ⟨fun hmem => ?_, hnodup⟩, fun r hr => ?_⟩
          · obtain ⟨r, hr, heq⟩ := List.mem_map.mp hmem
            exact (hall r hr).1 heq
          · rcases List.mem_cons.mp hr with rfl | hr
            · exact ⟨hfresh, rfl⟩
            · exact (hall r hr).2
      · obtain ⟨hnodup, hall⟩ := hrest h
        exact ⟨hnodup, fun r hr => (hall r hr).2⟩

theorem pending_canvasFileReferences {value : Value} {path : String}
    {references : List CanvasFileReference} (h : canvasFileReferences value path = .ok references) :
    (references.map CanvasFileReference.nodeId).Nodup ∧
      ∀ r ∈ references, r.resolution = .pending := by
  obtain ⟨nodes, found, hfound, rfl⟩ : ∃ nodes found,
      canvasNodeReferences path [] nodes = .ok found ∧
        found.mergeSort (fun a b => decide (a.nodeId ≤ b.nodeId)) = references := by
    unfold canvasFileReferences at h
    obtain ⟨-, h⟩ := bind_unit_eq_ok.mp h
    split at h
    · split at h
      · obtain ⟨-, h⟩ := bind_unit_eq_ok.mp h
        obtain ⟨found, hfound, h⟩ := bind_eq_ok.mp h
        exact ⟨_, found, hfound, Except.ok.inj h⟩
      · cases h
    · obtain ⟨-, h⟩ := bind_unit_eq_ok.mp h
      obtain ⟨found, hfound, h⟩ := bind_eq_ok.mp h
      exact ⟨_, found, hfound, Except.ok.inj h⟩
  obtain ⟨hnodup, hall⟩ := pending_canvasNodeReferences hfound
  have hperm := List.mergeSort_perm found fun a b => decide (a.nodeId ≤ b.nodeId)
  exact ⟨(hperm.map _).nodup_iff.mpr hnodup, fun r hr => (hall r (hperm.mem_iff.mp hr)).2⟩

/-- What a canvas says again when its text is read again. -/
theorem references_parseCanvas {canvas : Canvas} (h : parseCanvas X file bytes = .ok canvas) :
    canvasFileReferences canvas.value canvas.sourceFile.logicalPath =
      .ok canvas.fileReferences := by
  unfold parseCanvas at h
  obtain ⟨⟨value, references⟩, hjson, h⟩ := bind_eq_ok.mp h
  obtain rfl := Except.ok.inj h
  unfold parseCanvasJson at hjson
  split at hjson
  · cases hjson
  · split at hjson
    · cases hjson
    · obtain ⟨found, hfound, hjson⟩ := bind_eq_ok.mp hjson
      obtain ⟨rfl, rfl⟩ := Prod.mk.inj (Except.ok.inj hjson)
      exact hfound

end

/-! ## The checks -/

section

variable {X : Crates} {limits : PathLimits} {w w' : CanonicalWorkspace}
  {snapshots : List VaultSnapshot} {read : List ReadFile}

theorem validateCanvasTarget_eq_ok {target : CanvasReferenceTarget} :
    validateCanvasTarget w target = .ok () ↔ Present w target := by
  unfold validateCanvasTarget
  rw [reject_eq_ok, Bool.not_eq_false]
  cases target with
  | document id => exact Iff.rfl
  | asset id => exact Iff.rfl
  | canvas id => exact Iff.rfl
  | base id => simp [Present]

theorem isSome_get?_of_keys {κ ν ν' : Type} [LinearOrder κ] {m : List (κ × ν)} {m' : List (κ × ν')}
    (h : m'.map Prod.fst = m.map Prod.fst) {k : κ} (hk : (get? k m).isSome) :
    (get? k m').isSome := by
  rw [Option.isSome_iff_ne_none] at hk ⊢
  rw [ne_eq, get?_eq_none, h]
  exact fun hnone => hk (get?_eq_none.mpr hnone)

theorem Relinked.present (h : Relinked w w') {target : CanvasReferenceTarget}
    (ht : Present w target) : Present w' target := by
  cases target with
  | document id => exact isSome_get?_of_keys h.documentKeys ht
  | asset id =>
    unfold Present
    rw [h.assets]
    exact ht
  | canvas id => exact isSome_get?_of_keys h.canvasKeys ht
  | base id =>
    unfold Present
    rw [h.bases]
    exact ht

theorem Relinked.settled (h : Relinked w w') {resolution : CanvasReferenceResolution}
    (hs : Settled w resolution) : Settled w' resolution := by
  cases hs with
  | resolved ht => exact .resolved (h.present ht)
  | unresolved => exact .unresolved
  | ambiguous hcount hascending hall =>
    exact .ambiguous hcount hascending fun t ht => h.present (hall t ht)

/-- A reference that is settled is the one that the canvas has. -/
theorem validateReference_of_settled {canvas : Canvas} {reference : CanvasFileReference}
    (h : Settled w reference.resolution) :
    validateReference w canvas (reference.pending, reference) = .ok () := by
  unfold validateReference
  rw [bind_unit_eq_ok]
  have hsame : ¬ (reference.pending.nodeId ≠ reference.nodeId ∨
      reference.pending.rawPath ≠ reference.rawPath) := fun hstale =>
    hstale.elim (fun hid => hid rfl) fun hpath => hpath rfl
  refine ⟨reject_eq_ok.mpr hsame, ?_⟩
  dsimp only
  generalize reference.resolution = resolution at h
  cases h with
  | resolved ht => exact validateCanvasTarget_eq_ok.mpr ht
  | unresolved => rfl
  | ambiguous hcount hascending hall =>
    refine bind_unit_eq_ok.mpr ⟨reject_eq_ok.mpr ?_, forM_eq_ok.mpr fun t ht => ?_⟩
    · rintro (hfew | hchain)
      · omega
      · exact hchain hascending
    · exact validateCanvasTarget_eq_ok.mpr (hall t ht)

theorem Document.spans_of_pending {d d' : Document} (h : d'.pending = d.pending) :
    d'.spans = d.spans := by
  have hsections : d'.pending.sections = d.pending.sections := congrArg Document.sections h
  have hblocks : d'.pending.blocks = d.pending.blocks := congrArg Document.blocks h
  have hlinks : d'.links.map DocumentLink.pending = d.links.map DocumentLink.pending :=
    congrArg Document.links h
  have hspans := congrArg (List.map DocumentLink.span) hlinks
  rw [List.map_map, List.map_map] at hspans
  have hspans : d'.links.map DocumentLink.span = d.links.map DocumentLink.span := hspans
  have hsections : d'.sections = d.sections := hsections
  have hblocks : d'.blocks = d.blocks := hblocks
  rw [Document.spans, Document.spans, hsections, hblocks, hspans]

/-- **A note passes.** -/
theorem validateDocument_of_records (h : RecordsOf X limits read w)
    (hlength : ∀ r ∈ read, r.1.byteLen = r.2.length) (hsealed : ∀ r ∈ read, Sealed snapshots r.1)
    (hw : Relinked w w') {e : DocumentId × Document} (he : e ∈ w'.documents) :
    validateDocument X snapshots e = .ok () := by
  obtain ⟨e', he', hkey, hsame⟩ := hw.document he
  obtain ⟨hid, -, bytes, diagnostics, hread, hparsed⟩ := h.document e' he'
  obtain ⟨hfile, hdocument⟩ := Document.file_of_pending hsame
  unfold validateDocument
  rw [bind_unit_eq_ok, bind_unit_eq_ok, ← hfile, ← hdocument, ← hkey,
    ← Document.spans_of_pending hsame]
  refine ⟨validateFile_eq_ok.mpr (hsealed _ hread), reject_eq_ok.mpr ?_,
    forM_eq_ok.mpr fun span hspan => reject_eq_ok.mpr ?_⟩
  · rintro (hne | hne)
    · exact hne hid
    · exact hne (documentId_of_parseMarkdown hparsed)
  · have hwithin := spans_parseMarkdown hparsed span hspan
    have hbytes : e'.2.sourceFile.byteLen = bytes.length := hlength _ hread
    unfold SourceSpan.Within at hwithin
    omega

/-- **A canvas passes.** -/
theorem validateCanvas_of_records (h : RecordsOf X limits read w)
    (hsealed : ∀ r ∈ read, Sealed snapshots r.1) (hw : Relinked w w') {e : CanvasId × Canvas}
    (he : e ∈ w'.canvases)
    (hsettled : ∀ reference ∈ e.2.fileReferences, Settled w' reference.resolution) :
    validateCanvas X w' snapshots e = .ok () := by
  obtain ⟨e', he', hkey, hsame⟩ := hw.canvas he
  obtain ⟨hid, hkind, bytes, hread, hparsed⟩ := h.canvas e' he'
  obtain ⟨hfile, hcanvas⟩ := Canvas.file_of_pending hsame
  have hvalue : e'.2.pending.value = e.2.pending.value := congrArg Canvas.value hsame
  have hvalue : e'.2.value = e.2.value := hvalue
  -- the references that were read are those that are resolved
  have hreferences : e'.2.fileReferences = e.2.fileReferences.map CanvasFileReference.pending := by
    have hmapped : e'.2.fileReferences.map CanvasFileReference.pending =
        e.2.fileReferences.map CanvasFileReference.pending := congrArg Canvas.fileReferences hsame
    rw [← hmapped]
    refine (List.map_id' _).symm.trans (List.map_congr_left fun r hr => ?_)
    have hpending := (pending_canvasFileReferences (references_parseCanvas hparsed)).2 r hr
    exact (CanvasFileReference.pending_of_resolution hpending).symm
  have hparsedAgain : canvasFileReferences e.2.value e.2.sourceFile.logicalPath =
      .ok (e.2.fileReferences.map CanvasFileReference.pending) := by
    rw [← hvalue, ← hfile, ← hreferences]
    exact references_parseCanvas hparsed
  unfold validateCanvas
  rw [bind_unit_eq_ok, bind_unit_eq_ok, bind_unit_eq_ok, bind_eq_ok]
  refine ⟨?_, reject_eq_ok.mpr ?_, reject_eq_ok.mpr ?_, _, orStale_eq_ok.mpr hparsedAgain, ?_⟩
  · rw [← hfile]
    exact validateFile_eq_ok.mpr (hsealed _ hread)
  · rw [← hfile]
    exact fun hne => hne hkind
  · rw [← hkey, ← hcanvas, ← hfile]
    rintro (hne | hne)
    · exact hne hid
    · exact hne (canvasId_of_parseCanvas hparsed)
  · rw [bind_unit_eq_ok]
    refine ⟨reject_eq_ok.mpr fun hne => hne (List.length_map _),
      forM_eq_ok.mpr fun pair hpair => ?_⟩
    obtain ⟨r, hr, rfl⟩ : ∃ r ∈ e.2.fileReferences, (r.pending, r) = pair := by
      have hzip := @List.zip_map' _ _ _ CanvasFileReference.pending id e.2.fileReferences
      rw [List.map_id] at hzip
      rw [hzip] at hpair
      exact List.mem_map.mp hpair
    exact validateReference_of_settled (hsettled r hr)

/-- **An asset passes.** -/
theorem validateAsset_of_records {files : List SourceFile} {e : AssetId × Asset}
    (h : AssetOk X.toExternals files e) (hsealed : ∀ file ∈ files, Sealed snapshots file) :
    validateAsset X snapshots e = .ok () := by
  unfold validateAsset
  rw [bind_unit_eq_ok, bind_unit_eq_ok]
  refine ⟨reject_eq_ok.mpr ?_, scan_eq_ok.mpr ?_, reject_eq_ok.mpr fun hne => hne h.basename⟩
  · rintro (hne | hnil)
    · exact hne h.id.symm
    · exact h.nonempty hnil
  · have hascending := scanned_ascending.mpr h.ascending
    have hall : ScannedFrom (fun _ file => file ∈ e.2.sources) [] e.2.sources :=
      scannedFrom_const.mpr fun _ hfile => hfile
    refine (scannedFrom_and.mpr ⟨hall, hascending⟩).imp fun before file ⟨hfile, hafter⟩ => ?_
    obtain ⟨hread, hkind, hid⟩ := h.source file hfile
    unfold validateOccurrence
    rw [bind_unit_eq_ok, bind_unit_eq_ok, bind_unit_eq_ok]
    refine ⟨validateFile_eq_ok.mpr (hsealed file hread), reject_eq_ok.mpr fun hne => hne hkind,
      reject_eq_ok.mpr fun hne => hne ?_, reject_eq_ok.mpr (not_notAfter.mpr hafter)⟩
    rw [h.id]
    exact hid

/-- **The resolved records pass exactly when no two Bases have one identity.** -/
theorem validateWorkspaceSources_iff (h : RecordsOf X limits read w)
    (hlength : ∀ r ∈ read, r.1.byteLen = r.2.length) (hsealed : ∀ r ∈ read, Sealed snapshots r.1)
    (hw : Relinked w w')
    (hsettled : ∀ e ∈ w'.canvases, ∀ r ∈ e.2.fileReferences, Settled w' r.resolution) :
    validateWorkspaceSources X w' snapshots = .ok () ↔
      (w.bases.map BaseArtifact.baseArtifactId).Nodup := by
  have hfiles : ∀ file ∈ read.map Prod.fst, Sealed snapshots file := by
    intro file hfile
    obtain ⟨r, hr, rfl⟩ := List.mem_map.mp hfile
    exact hsealed r hr
  have hbases : scan (validateBase X snapshots) [] w.bases = .ok () ↔
      (w.bases.map BaseArtifact.baseArtifactId).Nodup := by
    rw [scan_eq_ok, ← scanned_fresh]
    constructor
    · intro hscan
      refine hscan.imp fun before base hok => ?_
      unfold validateBase at hok
      obtain ⟨-, hok⟩ := bind_unit_eq_ok.mp hok
      obtain ⟨-, hok⟩ := bind_unit_eq_ok.mp hok
      exact (not_or.mp (reject_eq_ok.mp hok)).2
    · intro hscan
      have hall : ScannedFrom (fun _ base => base ∈ w.bases) [] w.bases :=
        scannedFrom_const.mpr fun _ hbase => hbase
      refine (scannedFrom_and.mpr ⟨hall, hscan⟩).imp fun before base ⟨hbase, hfresh⟩ => ?_
      obtain ⟨hkind, hread, hid⟩ := h.base base hbase
      unfold validateBase
      rw [bind_unit_eq_ok, bind_unit_eq_ok]
      refine ⟨validateFile_eq_ok.mpr (hfiles _ hread), reject_eq_ok.mpr fun hne => hne hkind,
        reject_eq_ok.mpr ?_⟩
      rintro (hne | hmem)
      · exact hne hid
      · exact hfresh hmem
  unfold validateWorkspaceSources
  rw [bind_unit_eq_ok, bind_unit_eq_ok, bind_unit_eq_ok, hw.assets, hw.bases, hbases]
  constructor
  · rintro ⟨-, -, -, hnodup⟩
    exact hnodup
  · intro hnodup
    refine ⟨forM_eq_ok.mpr fun e he => validateDocument_of_records h hlength hsealed hw he,
      forM_eq_ok.mpr fun e he => validateCanvas_of_records h hsealed hw he (hsettled e he),
      forM_eq_ok.mpr fun e he => validateAsset_of_records (h.asset e he) hfiles, hnodup⟩

end

end Okc.Core
