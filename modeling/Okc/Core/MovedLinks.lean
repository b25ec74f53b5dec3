import Okc.Core.Blocks
import Okc.Core.MarkdownRewrite

/-!
# What the links of a rewritten note name (`plan.rs:2588-2653`, `plan.rs:2856-2904`)

A note is planned, written and read back. The check of what was read back compares the raw targets,
the headings, the blocks and the labels of the links, not their paths.

* `path_of_kept`: a link whose other parts were kept is read with the path that was written.
* **`rewritten_note`**: every link that was resolved names the output path of its target, every other
  one is as it was, and the source can be put together again.
* **`rewritten_note_fixed`**: planning a rewritten note again leaves it alone.
-/

namespace Okc.Core

open Okc.Lib

/-! ## The path of a rendered target -/

section

variable {limits : PathLimits} {link reparsed : Link} {path : String}

/-- Only the syntax, the fragment and the label of a link say how its target is written. -/
theorem renderLinkTarget_congr (hstyle : reparsed.linkSyntax = link.linkSyntax)
    (hheading : reparsed.heading = link.heading) (hblock : reparsed.blockId = link.blockId)
    (hdisplay : reparsed.display = link.display) (path : String) :
    renderLinkTarget reparsed path = renderLinkTarget link path := by
  unfold renderLinkTarget
  rw [hstyle, hheading, hblock, hdisplay]

/-- The path of a target is read by its syntax alone. -/
theorem parseTarget_path_congr (hstyle : reparsed.linkSyntax = link.linkSyntax)
    (target : String) : (parseTarget reparsed target).1 = (parseTarget link target).1 := by
  unfold parseTarget
  rw [hstyle]
  cases link.linkSyntax <;> rfl

/-- A wikilink is cut at its marks, and nothing is lost. -/
theorem wiki_path_of_kept {raw : List Char} {byteStart byteEnd : Nat} {embed : Bool}
    (hne : path ≠ "")
    (hraw : raw = path.toList ++ marked '#' (link.heading.map String.toList) ++
      marked '^' (link.blockId.map String.toList) ++ marked '|' (link.display.map String.toList))
    (hheading : (parseWikiLink raw byteStart byteEnd embed).heading = link.heading)
    (hblock : (parseWikiLink raw byteStart byteEnd embed).blockId = link.blockId)
    (hdisplay : (parseWikiLink raw byteStart byteEnd embed).display = link.display) :
    (parseWikiLink raw byteStart byteEnd embed).path = some path := by
  have hcut : ∀ (mark : Char) (part : Option (List Char)) (kept : Option String),
      part.map String.ofList = kept → (part.map (mark :: ·)).getD [] =
        marked mark (kept.map String.toList) := by
    rintro mark part _ rfl
    cases part <;> simp [marked]
  obtain ⟨-, hbar⟩ := splitOnce_eq (rfl : splitOnce '|' raw = splitOnce '|' raw)
  obtain ⟨-, hcaret⟩ := splitOnce_eq
    (rfl : splitOnce '^' (splitOnce '|' raw).1 = splitOnce '^' (splitOnce '|' raw).1)
  obtain ⟨-, hhash⟩ := splitOnce_eq (rfl : splitOnce '#' (splitOnce '^' (splitOnce '|' raw).1).1 =
    splitOnce '#' (splitOnce '^' (splitOnce '|' raw).1).1)
  rw [hcut _ _ _ hdisplay] at hbar
  rw [hcut _ _ _ hblock] at hcaret
  rw [hcut _ _ _ hheading] at hhash
  have htarget := List.append_cancel_right (hbar.symm.trans hraw)
  have hbefore := List.append_cancel_right (hcaret.symm.trans htarget)
  have hpath := List.append_cancel_right (hhash.symm.trans hbefore)
  simp only [parseWikiLink, hpath, nonemptyText, String.ofList_toList]
  rw [if_neg fun hnil => hne (String.toList_eq_nil_iff.mp hnil)]

/-- **A target whose other parts were kept is read with the path that was written.** -/
theorem path_of_kept (hlink : ParsedLink link)
    (hpath : ∀ c ∈ splitSlash path, c = ".." ∨ validateComponent limits c = .ok ())
    (hkept : (parseTarget link (renderLinkTarget link path)).2 =
      (link.heading, link.blockId, link.display)) :
    (parseTarget link (renderLinkTarget link path)).1 = some path := by
  cases hstyle : link.linkSyntax with
  | wiki =>
    have hne : path ≠ "" :=
      (⟨hpath, fun h => nomatch h⟩ : TargetPath limits .markdown path).ne_empty
    have hraw : (renderLinkTarget link path).toList = path.toList ++
        marked '#' (link.heading.map String.toList) ++
        marked '^' (link.blockId.map String.toList) ++
        marked '|' (link.display.map String.toList) := by
      have hencode : encodePart .wiki = String.toList := rfl
      simp only [renderLinkTarget, hstyle, hencode, String.toList_ofList]
    simp only [parseTarget, hstyle, Prod.mk.injEq] at hkept ⊢
    exact wiki_path_of_kept hne hraw hkept.1 hkept.2.1 hkept.2.2
  | markdown =>
    have hp : TargetPath limits .markdown path := ⟨hpath, fun h => nomatch h⟩
    have hcaret : ∀ h, link.heading = some h → h.toList.head? ≠ some '^' ∧ link.blockId = none := by
      cases hlink with
      | wiki => cases hstyle
      | markdown hparse => exact (markdown_of_parse hparse).2
    have hrender : (renderLinkTarget link path).toList =
        (encodeMarkdownDestinationComponent path).toList ++
          marked '#' (link.heading.map (encodePart .markdown)) ++
          marked '^' (link.blockId.map (encodePart .markdown)) := by
      have hdisplay : marked '|' ((none : Option String).map String.toList) = [] := rfl
      simp only [renderLinkTarget, hstyle, String.toList_ofList, hdisplay, List.append_nil]
      rfl
    rw [parseTarget_markdown hstyle] at hkept ⊢
    cases hblock : link.blockId with
    | some block =>
      -- a target with a block is read without it
      have hheading : link.heading = none := by
        cases hheading : link.heading with
        | none => rfl
        | some h => exact absurd ((hcaret h hheading).2.symm.trans hblock) (by simp)
      have hnone := splitMarkdownTarget_block hp block
      rw [hheading, hblock] at hrender
      have hempty : marked '#' ((none : Option String).map (encodePart .markdown)) = [] := rfl
      rw [hempty, List.append_nil, Option.map_some] at hrender
      rw [← hrender] at hnone
      rw [hblock, hnone] at hkept
      cases (Prod.mk.inj (Prod.mk.inj hkept).2).1
    | none =>
      have hsplit := splitMarkdownTarget_heading hp fun h hh => (hcaret h hh).1
      rw [hblock] at hrender
      have hempty : marked '^' ((none : Option String).map (encodePart .markdown)) = [] := rfl
      rw [hempty, List.append_nil] at hrender
      rw [hrender, hsplit]

/-- The components of a relative target. -/
theorem relative_components {X : Externals} {origin target : String}
    (h : validateOutputLogicalPath X limits target = .ok ()) :
    ∀ c ∈ splitSlash (relativeOutputTarget origin target),
      c = ".." ∨ validateComponent limits c = .ok () := by
  obtain ⟨hwithin, -⟩ := validateOutputLogicalPath_eq_ok.mp h
  have hvalid : ∀ c ∈ splitSlash target, validateComponent limits c = .ok () := fun c hc =>
    (hwithin.component c hc).1
  have hT := outputParts_of_valid h
  have hfilter := OutputParts.filter hT.name
  unfold relativeOutputTarget
  simp only [hfilter]
  split_ifs with hresult
  · have hlast : fileName target = some ((splitSlash target).getLast hT.ne_nil) := by
      have hmem := List.getLast_mem hT.ne_nil
      rw [fileName, pathParts_eq_self fun c hc => ⟨(hT.name c hc).1, (hT.name c hc).2.1⟩,
        List.getLast?_eq_getLast_of_ne_nil hT.ne_nil]
      exact Option.filter_some_pos (by simpa using (hT.name _ hmem).2.2)
    have hmem := List.getLast_mem hT.ne_nil
    intro c hc
    have hslash : ∀ c ∈ [(splitSlash target).getLast hT.ne_nil], '/' ∉ c.toList := by
      intro c hc hslash
      rw [List.mem_singleton.mp hc] at hslash
      exact absurd (hT.chars _ hmem '/' hslash) (by decide)
    rw [hlast, Option.getD_some, ← joinSlash_singleton ((splitSlash target).getLast hT.ne_nil),
      splitSlash_joinSlash (List.cons_ne_nil _ _) hslash, List.mem_singleton] at hc
    rw [hc]
    exact .inr (hvalid _ hmem)
  · intro c hc
    have hchars : ∀ c ∈ List.replicate
        (((splitSlash (parent origin)).filter fun part => decide (part ≠ "")).length -
          commonLength ((splitSlash (parent origin)).filter fun part => decide (part ≠ ""))
            (splitSlash target)) ".." ++
        (splitSlash target).drop (commonLength
          ((splitSlash (parent origin)).filter fun part => decide (part ≠ ""))
          (splitSlash target)), '/' ∉ c.toList := by
      intro c hc
      rcases List.mem_append.mp hc with hc | hc
      · rw [(List.mem_replicate.mp hc).2]
        decide
      · exact fun hslash => absurd (hT.chars c (List.mem_of_mem_drop hc) '/' hslash) (by decide)
    rw [splitSlash_joinSlash hresult hchars] at hc
    rcases List.mem_append.mp hc with hc | hc
    · exact .inl (List.mem_replicate.mp hc).2
    · exact .inr (hvalid c (List.mem_of_mem_drop hc))

end

/-! ## What is planned -/

section

variable {X : Crates} {limits : PathLimits} {policy : CompilerPolicy} {paths : OutputPathMaps}
  {document : Document} {destination : String} {link : DocumentLink}
  {replacements : List RewriteReplacement}

/-- What a successful plan is. -/
theorem planned_eq_ok (h : plannedMarkdownReplacements paths document = .ok replacements) :
    ∃ destination, get? document.documentId paths.documents = some destination ∧
      (∀ link ∈ document.links, ∃ output,
        targetOutput paths document destination link = .ok output) ∧
      ∀ r, r ∈ replacements ↔ ∃ link ∈ document.links, ∃ output,
        targetOutput paths document destination link = .ok output ∧
        writtenTarget destination link output ≠ link.rawTarget ∧
        r = ⟨link.span, writtenTarget destination link output⟩ := by
  unfold plannedMarkdownReplacements at h
  obtain ⟨destination, hdestination, h⟩ := bind_eq_ok.mp h
  obtain ⟨planned, hplanned, h⟩ := bind_eq_ok.mp h
  obtain ⟨-, h⟩ := bind_unit_eq_ok.mp h
  have hsorted := Except.ok.inj h
  refine ⟨destination, ?_, fun link hl => ?_, fun r => ?_⟩
  · unfold sealedOutputPath at hdestination
    split at hdestination
    · cases hdestination
    · rename_i found hfound
      rw [hfound, Except.ok.inj hdestination]
  · obtain ⟨rs, -, hrs⟩ := mem_of_mapM_left hplanned hl
    obtain ⟨output, houtput, -⟩ := bind_eq_ok.mp hrs
    exact ⟨output, houtput⟩
  · rw [← hsorted, (List.mergeSort_perm _ _).mem_iff, List.mem_flatten]
    constructor
    · rintro ⟨rs, hmem, hr⟩
      obtain ⟨link, hl, hrs⟩ := mem_of_mapM_right hplanned hmem
      obtain ⟨output, houtput, hrs⟩ := bind_eq_ok.mp hrs
      rw [← Except.ok.inj hrs] at hr
      split_ifs at hr with hne
      · exact ⟨link, hl, output, houtput, hne, List.mem_singleton.mp hr⟩
      · cases hr
    · rintro ⟨link, hl, output, houtput, hne, rfl⟩
      obtain ⟨rs, hmem, hrs⟩ := mem_of_mapM_left hplanned hl
      obtain ⟨output', houtput', hrs⟩ := bind_eq_ok.mp hrs
      obtain rfl := Except.ok.inj (houtput.symm.trans houtput')
      refine ⟨rs, hmem, ?_⟩
      rw [← Except.ok.inj hrs, if_pos hne]
      exact List.mem_cons_self

/-- The links of a document stand at different places. -/
def Spread (links : List DocumentLink) : Prop := (links.map DocumentLink.span).Nodup

theorem spread_parseMarkdown {file : SourceFile} {bytes : Bytes} {d : Document}
    {diagnostics : List Diagnostic} (h : parseMarkdown X limits file bytes = .ok (d, diagnostics)) :
    Spread d.links := by
  obtain ⟨text, -, hlocated⟩ := located_links h
  have hpair := List.pairwise_map.mp hlocated.pairwise
  refine List.pairwise_map.mpr (List.Pairwise.imp_of_mem (fun {a b} ha _ hab hspan => ?_) hpair)
  obtain ⟨before, raw, after, -, hstart, hend, -⟩ := hlocated.stands (List.mem_map_of_mem ha)
  have hstarts : a.byteStart = b.byteStart := congrArg SourceSpan.byteStart hspan
  omega

/-- **The target that is expected is the one that was written.** -/
theorem expectedTarget_of_planned (hspread : Spread document.links)
    (hreplacements : ∀ r, r ∈ replacements ↔ ∃ link ∈ document.links, ∃ output,
      targetOutput paths document destination link = .ok output ∧
      writtenTarget destination link output ≠ link.rawTarget ∧
      r = ⟨link.span, writtenTarget destination link output⟩)
    (hl : link ∈ document.links) {output : Option String}
    (houtput : targetOutput paths document destination link = .ok output) :
    expectedTarget replacements link = writtenTarget destination link output := by
  unfold expectedTarget
  cases hfind : replacements.find? fun r => r.span = link.span with
  | some r =>
    have hspan : r.span = link.span := by simpa using List.find?_some hfind
    obtain ⟨link', hl', output', houtput', -, rfl⟩ :=
      (hreplacements r).mp (List.mem_of_find?_eq_some hfind)
    obtain rfl := List.inj_on_of_nodup_map hspread hl' hl hspan
    obtain rfl := Except.ok.inj (houtput.symm.trans houtput')
    rfl
  | none =>
    by_contra hne
    have hmem := (hreplacements ⟨link.span, writtenTarget destination link output⟩).mpr
      ⟨link, hl, output, houtput, Ne.symm hne, rfl⟩
    simpa using List.find?_eq_none.mp hfind _ hmem

/-! ## What is read back -/

/-- The written link keeps the parts of the original one, and is read with the path of the target
that the original one was resolved to. -/
structure LinkMoved (paths : OutputPathMaps) (document : Document) (destination : String)
    (link written : DocumentLink) : Prop where
  kept : LinkKept written.rawTarget link written
  target : ∃ output, targetOutput paths document destination link = .ok output ∧
    written.rawTarget = writtenTarget destination link output ∧
    written.path = (output.map (relativeOutputTarget destination)).or link.path

theorem linkMoved_of_kept {written : DocumentLink} {output : Option String}
    (hlink : ParsedLink link.toLink) (hwritten : ParsedLink written.toLink)
    (houtput : targetOutput paths document destination link = .ok output)
    (hvalid : ∀ path, output = some path → validateOutputLogicalPath X.toExternals limits path =
      .ok ())
    (hkept : LinkKept (writtenTarget destination link output) link written) :
    LinkMoved paths document destination link written := by
  refine ⟨{ hkept with rawTarget := rfl }, output, houtput, hkept.rawTarget, ?_⟩
  have hparts := hwritten.parts
  cases output with
  | none =>
    have hraw : written.rawTarget = link.rawTarget := hkept.rawTarget
    have hpath := congrArg Prod.fst hparts
    rw [hraw, parseTarget_path_congr hkept.linkSyntax, hlink.parts] at hpath
    exact hpath.symm
  | some path =>
    have hraw : written.rawTarget =
        renderLinkTarget written.toLink (relativeOutputTarget destination path) :=
      hkept.rawTarget.trans (renderLinkTarget_congr hkept.linkSyntax hkept.heading hkept.blockId
        hkept.display _).symm
    have hread := path_of_kept hwritten (relative_components (hvalid path rfl)) (by
      rw [← hraw, hparts])
    rw [← hraw, hparts] at hread
    exact hread

/-- The output paths that a note can be linked to are valid. -/
def OutputsValid (X : Externals) (limits : PathLimits) (paths : OutputPathMaps) : Prop :=
  (∀ id path, get? id paths.documents = some path →
    validateOutputLogicalPath X limits path = .ok ()) ∧
  ∀ id path, get? id paths.assets = some path → validateOutputLogicalPath X limits path = .ok ()

theorem valid_of_targetOutput (hvalid : OutputsValid X.toExternals limits paths) {path : String}
    (h : targetOutput paths document destination link = .ok (some path)) :
    validateOutputLogicalPath X.toExternals limits path = .ok () := by
  unfold targetOutput at h
  split at h
  · cases h
  · split_ifs at h
    · cases Except.ok.inj h
    · split at h
      · cases h
      · rename_i found hfound
        rw [← Option.some.inj (Except.ok.inj h)]
        exact hvalid.1 _ _ hfound
  · split at h
    · cases h
    · rename_i found hfound
      rw [← Option.some.inj (Except.ok.inj h)]
      exact hvalid.2 _ _ hfound
  · cases Except.ok.inj (bind_unit_eq_ok.mp h).2
  · cases Except.ok.inj (bind_unit_eq_ok.mp h).2

/-- The document has the links that were found in the source, each with some resolution. -/
structure Inspected (X : Crates) (limits : PathLimits) (document : Document) (source : Bytes) :
    Prop where
  parsed : ∃ inspected found,
    parseMarkdown X limits document.sourceFile source = .ok (inspected, found) ∧
    document.links.map DocumentLink.toLink = inspected.links.map DocumentLink.toLink

theorem Inspected.parsedLink {source : Bytes} (h : Inspected X limits document source)
    (hl : link ∈ document.links) : ParsedLink link.toLink := by
  obtain ⟨inspected, found, hparse, hlinks⟩ := h.parsed
  have hmem : link.toLink ∈ inspected.links.map DocumentLink.toLink :=
    hlinks ▸ List.mem_map_of_mem hl
  obtain ⟨link', hl', heq⟩ := List.mem_map.mp hmem
  exact heq ▸ parsed_parseMarkdown hparse link' hl'

theorem Inspected.spread {source : Bytes} (h : Inspected X limits document source) :
    Spread document.links := by
  obtain ⟨inspected, found, hparse, hlinks⟩ := h.parsed
  have hspans : ∀ links : List DocumentLink, links.map DocumentLink.span =
      (links.map DocumentLink.toLink).map fun link => ⟨link.byteStart, link.byteEnd⟩ := by
    intro links
    rw [List.map_map]
    rfl
  unfold Spread
  rw [hspans, hlinks, ← hspans]
  exact spread_parseMarkdown hparse

variable {source output : Bytes}

theorem moved_of_rewritten (hinspected : Inspected X limits document source)
    (hvalid : OutputsValid X.toExternals limits paths)
    (hdestination : get? document.documentId paths.documents = some destination)
    (hplan : plannedMarkdownReplacements paths document = .ok replacements)
    (hrender : renderRewrittenMarkdown X policy document destination source replacements =
      .ok output) : ∃ d diagnostics, parseMarkdown X policy.pathLimits
        (outputFile X document destination output) output = .ok (d, diagnostics) ∧
      List.Forall₂ (LinkMoved paths document destination) document.links d.links := by
  obtain ⟨destination', hdestination', houtputs, hreplacements⟩ := planned_eq_ok hplan
  obtain rfl := Option.some.inj (hdestination.symm.trans hdestination')
  obtain ⟨d, diagnostics, hparse, hkept⟩ := (rewritten_spec hrender).reparsed
  refine ⟨d, diagnostics, hparse, List.forall₂_iff_zip.mpr ⟨hkept.length_eq, fun {a b} hab => ?_⟩⟩
  obtain ⟨ha, hb⟩ := List.of_mem_zip hab
  obtain ⟨output, houtput⟩ := houtputs a ha
  have hlink := List.forall₂_zip hkept hab
  rw [expectedTarget_of_planned hinspected.spread hreplacements ha houtput] at hlink
  have hpaths : ∀ path, output = some path →
      validateOutputLogicalPath X.toExternals limits path = .ok () := by
    rintro path rfl
    exact valid_of_targetOutput hvalid houtput
  exact linkMoved_of_kept (hinspected.parsedLink ha) (parsed_parseMarkdown hparse b hb) houtput
    hpaths hlink

/-- **A rewritten note means what its source does.** The rewriter puts other targets into the spans
of links and copies the rest, so the source can be put together again; and what is written is read
with the same links, of which those that were resolved name, relative to where the note stands, the
output paths of their targets. -/
theorem rewritten_note (hinspected : Inspected X limits document source)
    (hvalid : OutputsValid X.toExternals limits paths)
    (hdestination : get? document.documentId paths.documents = some destination)
    (hplan : plannedMarkdownReplacements paths document = .ok replacements)
    (hrender : renderRewrittenMarkdown X policy document destination source replacements =
      .ok output) :
    splice output 0 (undo source 0 0 (replacements.map RewriteReplacement.edit)) = source ∧
    (∀ r ∈ replacements, ∃ link ∈ document.links, link.span = r.span ∧
      span source r.span.byteStart r.span.byteEnd = utf8 link.rawTarget) ∧
    ∃ d diagnostics, parseMarkdown X policy.pathLimits
        (outputFile X document destination output) output = .ok (d, diagnostics) ∧
      List.Forall₂ (LinkMoved paths document destination) document.links d.links := by
  have hspec := rewritten_spec hrender
  refine ⟨?_, hspec.bound, moved_of_rewritten hinspected hvalid hdestination hplan hrender⟩
  rw [hspec.spliced]
  exact splice_undo hspec.fits

def oldLink : DocumentLink :=
  { parseWikiLink "old".toList 2 5 false with
    linkId := ⟨indexHash 3⟩
    resolution := .resolved ⟨indexHash 2⟩ }

/-- The note `[[old]]`, its link resolved to another note. -/
def movedNote : Document :=
  { plainNote "vault" "a.md" 1 with
    sourceFile := { (plainNote "vault" "a.md" 1).sourceFile with
      byteLen := 7
      contentHash := (plainExternals prefixHash).contentHash (utf8 "[[old]]") }
    links := [oldLink] }

def movedPaths : OutputPathMaps where
  documents := [(⟨indexHash 1⟩, "knowledge/a.md"), (⟨indexHash 2⟩, "knowledge/b.md")]
  assets := []
  canvases := []
  bases := []

def movedReplacement : RewriteReplacement := ⟨⟨2, 5⟩, "b.md"⟩

/-- The links of a note without frontmatter. -/
theorem links_of_text {X : Crates} {file : SourceFile} (note : String)
    (hpath : validateSourcePathPair X.toExternals limits file.originalPath file.logicalPath = .ok ())
    (hplain : (splitFrontmatter note.toList).1 = none) :
    ∃ d diagnostics, parseMarkdown X limits file (utf8 note) = .ok (d, diagnostics) ∧
      d.links.map DocumentLink.toLink = scanLinkLines none
        (size note.toList - size (markdownBody note.toList)) (rawLines (markdownBody note.toList)) := by
  obtain ⟨parsed, hparsed⟩ := parseFrontmatter_none (X := X) file.logicalPath hplain
  obtain ⟨d, diagnostics, h⟩ := parseMarkdown_isOk hpath hparsed
  obtain ⟨text, htext, hlinks⟩ := links_parseMarkdown h
  obtain rfl := utf8_injective htext
  exact ⟨d, diagnostics, h, hlinks⟩

theorem inspected_movedNote : Inspected (plainCrates (plainExternals prefixHash)) .default movedNote
    (utf8 "[[old]]") := by
  obtain ⟨d, diagnostics, h, hlinks⟩ := @links_of_text .default
    (plainCrates (plainExternals prefixHash)) movedNote.sourceFile "[[old]]" (by decide +kernel)
    (by decide +kernel)
  refine ⟨d, diagnostics, h, ?_⟩
  rw [hlinks]
  decide +kernel

theorem outputsValid_moved : OutputsValid (plainExternals prefixHash) .default movedPaths := by
  have hdocuments : ∀ e ∈ movedPaths.documents,
      validateOutputLogicalPath (plainExternals prefixHash) .default e.2 = .ok () := by
    decide +kernel
  constructor
  · intro id path h
    exact hdocuments (id, path) (mem_of_get? h)
  · intro id path h
    cases h

theorem planned_movedNote : plannedMarkdownReplacements movedPaths movedNote =
    .ok [movedReplacement] := by
  have hdestination : sealedOutputPath movedPaths movedNote.documentId = .ok "knowledge/a.md" := by
    decide +kernel
  have hmap : movedNote.links.mapM (plannedReplacement movedPaths movedNote "knowledge/a.md") =
      .ok [[movedReplacement]] := by
    decide +kernel
  refine bind_eq_ok.mpr ⟨_, hdestination, bind_eq_ok.mpr ⟨_, hmap, ?_⟩⟩
  rw [List.flatten_singleton, List.mergeSort_singleton]
  exact bind_unit_eq_ok.mpr ⟨by decide +kernel, rfl⟩

theorem rendered_movedNote : renderRewrittenMarkdown (plainCrates (plainExternals prefixHash))
    .default movedNote "knowledge/a.md" (utf8 "[[old]]") [movedReplacement] =
      .ok (utf8 "[[b.md]]") := by
  have hspliced : splice (utf8 "[[old]]") 0 ([movedReplacement].map RewriteReplacement.edit) =
      utf8 "[[b.md]]" := by
    decide +kernel
  have hreread : validateRewrittenMarkdownLinks (plainCrates (plainExternals prefixHash)) .default
      movedNote "knowledge/a.md" (utf8 "[[b.md]]") [movedReplacement] = .ok () := by
    obtain ⟨d, diagnostics, h, hlinks⟩ := @links_of_text CompilerPolicy.default.pathLimits
      (plainCrates (plainExternals prefixHash))
      (outputFile (plainCrates (plainExternals prefixHash)) movedNote "knowledge/a.md"
        (utf8 "[[b.md]]")) "[[b.md]]" (by decide +kernel) (by decide +kernel)
    have hscan : scanLinkLines none (size "[[b.md]]".toList - size (markdownBody "[[b.md]]".toList))
        (rawLines (markdownBody "[[b.md]]".toList)) = [parseWikiLink "b.md".toList 2 6 false] := by
      decide +kernel
    obtain ⟨written, hwritten, hlink⟩ := List.map_eq_singleton_iff.mp (hlinks.trans hscan)
    have hkept : LinkKept "b.md" oldLink written := by
      constructor <;> rw [hlink] <;> rfl
    have hexpected : expectedTarget [movedReplacement] oldLink = "b.md" := by
      decide +kernel
    unfold validateRewrittenMarkdownLinks
    rw [h]
    refine bind_unit_eq_ok.mpr ⟨?_, ?_⟩
    · rw [hwritten]
      rfl
    · rw [hwritten]
      refine reject_eq_ok.mpr ?_
      rintro ⟨p, hp, hnot⟩
      rw [List.mem_singleton.mp hp, hexpected] at hnot
      exact hnot hkept
  unfold renderRewrittenMarkdown
  refine bind_unit_eq_ok.mpr ⟨reject_eq_ok.mpr (by decide +kernel), bind_unit_eq_ok.mpr ⟨?_, ?_⟩⟩
  · rw [fromUTF8?_utf8]
    rfl
  · refine bind_unit_eq_ok.mpr ⟨by decide +kernel, bind_unit_eq_ok.mpr ⟨by decide +kernel,
      bind_unit_eq_ok.mpr ⟨by decide +kernel, ?_⟩⟩⟩
    rw [hspliced]
    refine bind_unit_eq_ok.mpr ⟨?_, bind_unit_eq_ok.mpr ⟨hreread, rfl⟩⟩
    rw [fromUTF8?_utf8]
    rfl

theorem destination_movedNote :
    get? movedNote.documentId movedPaths.documents = some "knowledge/a.md" := by
  decide +kernel

/-- The link of `[[old]]` is written as `[[b.md]]`. -/
theorem rewritten_note_moved :
    splice (utf8 "[[b.md]]") 0 (undo (utf8 "[[old]]") 0 0
      ([movedReplacement].map RewriteReplacement.edit)) = utf8 "[[old]]" ∧
    (∀ r ∈ [movedReplacement], ∃ link ∈ movedNote.links, link.span = r.span ∧
      span (utf8 "[[old]]") r.span.byteStart r.span.byteEnd = utf8 link.rawTarget) ∧
    ∃ d diagnostics, parseMarkdown (plainCrates (plainExternals prefixHash))
        CompilerPolicy.default.pathLimits (outputFile (plainCrates (plainExternals prefixHash))
          movedNote "knowledge/a.md" (utf8 "[[b.md]]")) (utf8 "[[b.md]]") = .ok (d, diagnostics) ∧
      List.Forall₂ (LinkMoved movedPaths movedNote "knowledge/a.md") movedNote.links d.links :=
  @rewritten_note (plainCrates (plainExternals prefixHash)) .default .default movedPaths movedNote
    "knowledge/a.md" [movedReplacement] (utf8 "[[old]]") (utf8 "[[b.md]]") inspected_movedNote
    outputsValid_moved destination_movedNote planned_movedNote rendered_movedNote

/-! ## Once more -/

/-- The resolution of a link in the note that was moved. -/
def LinkResolution.relocate (old new : DocumentId) : LinkResolution → LinkResolution
  | .resolved target => .resolved (if target = old then new else target)
  | resolution => resolution

/-- A link that was read back, resolved as the original one. -/
def relinkedLink (old new : DocumentId) (original written : DocumentLink) : DocumentLink :=
  { written with resolution := original.resolution.relocate old new }

/-- The note that was read back, its links resolved as in the source. -/
def relinked (document d : Document) : Document :=
  { d with
    links := List.zipWith (relinkedLink document.documentId d.documentId) document.links d.links }

/-- The output paths, when the note is where it was put. -/
structure Relocated (paths paths' : OutputPathMaps) (old new : DocumentId) (destination : String) :
    Prop where
  moved : get? new paths'.documents = some destination
  others : ∀ id path, id ≠ old → get? id paths.documents = some path →
    get? id paths'.documents = some path
  assets : paths'.assets = paths.assets

/-- What is left as it is can be left so again. -/
theorem preservedTarget_relocate {d : Document} {written : DocumentLink}
    (hfile : d.sourceFile.logicalPath = destination) (hpath : written.path = link.path)
    (h : preservedTarget document destination link = .ok ()) :
    preservedTarget d destination written = .ok () := by
  unfold preservedTarget at h ⊢
  rw [hpath]
  cases hlink : link.path with
  | none => rfl
  | some path =>
    rw [hlink] at h
    have hcontained := reject_eq_ok.mp h
    rw [not_or] at hcontained
    refine reject_eq_ok.mpr fun hescape => ?_
    rw [hfile, or_self] at hescape
    exact hcontained.2 hescape

theorem targetOutput_relocate {paths' : OutputPathMaps} {d : Document} {written : DocumentLink}
    (hdestination : get? document.documentId paths.documents = some destination)
    (hmoved : Relocated paths paths' document.documentId d.documentId destination)
    (hfile : d.sourceFile.logicalPath = destination)
    (hresolved : written.resolution =
      link.resolution.relocate document.documentId d.documentId) {target : Option String}
    (htarget : targetOutput paths document destination link = .ok target)
    (hpath : written.path = (target.map (relativeOutputTarget destination)).or link.path) :
    targetOutput paths' d destination written = .ok target := by
  unfold targetOutput at htarget ⊢
  rw [hresolved]
  cases hresolution : link.resolution with
  | pending =>
    rw [hresolution] at htarget
    cases htarget
  | unresolved =>
    rw [hresolution] at htarget
    obtain ⟨hkeep, hnone⟩ := bind_unit_eq_ok.mp htarget
    obtain rfl := Except.ok.inj hnone
    exact bind_unit_eq_ok.mpr ⟨preservedTarget_relocate hfile hpath hkeep, rfl⟩
  | ambiguous candidates =>
    rw [hresolution] at htarget
    obtain ⟨hkeep, hnone⟩ := bind_unit_eq_ok.mp htarget
    obtain rfl := Except.ok.inj hnone
    exact bind_unit_eq_ok.mpr ⟨preservedTarget_relocate hfile hpath hkeep, rfl⟩
  | asset assetId =>
    rw [hresolution] at htarget
    simp only [LinkResolution.relocate] at htarget ⊢
    rw [hmoved.assets]
    cases hfound : get? assetId paths.assets with
    | none =>
      rw [hfound] at htarget
      cases htarget
    | some path =>
      rw [hfound] at htarget
      exact htarget
  | resolved id =>
    rw [hresolution] at htarget
    simp only [LinkResolution.relocate] at htarget ⊢
    by_cases hself : link.path = none ∧ id = document.documentId
    · rw [if_pos hself] at htarget
      obtain rfl := Except.ok.inj htarget
      rw [if_pos hself.2, if_pos ⟨hpath.trans hself.1, rfl⟩]
    · rw [if_neg hself] at htarget
      cases hfound : get? id paths.documents with
      | none =>
        rw [hfound] at htarget
        cases htarget
      | some path =>
        rw [hfound] at htarget
        obtain rfl := Except.ok.inj htarget
        -- the written link has a path, so it is not one of the note to itself
        have hsome : written.path ≠ none := by
          rw [hpath]
          exact Option.some_ne_none _
        rw [if_neg fun h => hsome h.1]
        by_cases hid : id = document.documentId
        · rw [if_pos hid, hmoved.moved]
          rw [hid, hdestination] at hfound
          rw [hfound]
        · rw [if_neg hid, hmoved.others id path hid hfound]

/-- A note whose links are all written as they should be is left alone. -/
theorem planned_nil (hdestination : get? document.documentId paths.documents = some destination)
    (h : ∀ link ∈ document.links, ∃ target,
      targetOutput paths document destination link = .ok target ∧
      writtenTarget destination link target = link.rawTarget) :
    plannedMarkdownReplacements paths document = .ok [] := by
  have hnone : ∀ link ∈ document.links,
      plannedReplacement paths document destination link = .ok [] := by
    intro link hl
    obtain ⟨target, htarget, hwritten⟩ := h link hl
    refine bind_eq_ok.mpr ⟨target, htarget, ?_⟩
    simp only [hwritten, ne_eq, not_true, if_false]
  have hpointwise : ∀ link ∈ document.links, ∀ rs,
      plannedReplacement paths document destination link = .ok rs ↔ True ∧ rs = [] := by
    intro link hl rs
    rw [hnone link hl, true_and, Except.ok.injEq, eq_comm]
  have hmap := (mapM_eq_ok_map hpointwise).mpr ⟨fun _ _ => trivial, rfl⟩
  have hflat : (document.links.map fun _ => ([] : List RewriteReplacement)).flatten = [] :=
    List.flatten_eq_nil_iff.mpr fun rs hrs => (List.mem_map.mp hrs).elim fun _ h => h.2.symm
  unfold plannedMarkdownReplacements sealedOutputPath
  rw [hdestination]
  refine bind_eq_ok.mpr ⟨destination, rfl, bind_eq_ok.mpr ⟨_, hmap, ?_⟩⟩
  rw [hflat, List.mergeSort_nil]
  exact bind_unit_eq_ok.mpr ⟨rfl, rfl⟩

/-- A link that was moved is written as it is to be. -/
theorem LinkMoved.settled {written : DocumentLink} {target : Option String} (old new : DocumentId)
    (hkept : LinkKept written.rawTarget link written)
    (hraw : written.rawTarget = writtenTarget destination link target) :
    writtenTarget destination (relinkedLink old new link written) target = written.rawTarget := by
  cases target with
  | none => rfl
  | some path =>
    rw [hraw]
    exact renderLinkTarget_congr hkept.linkSyntax hkept.heading hkept.blockId hkept.display _

/-- **Planning a rewritten note again leaves it alone.** When the note stands where it was put, and
its links are resolved as they were, there is nothing left to rewrite. -/
theorem rewritten_note_fixed {paths' : OutputPathMaps} {d : Document}
    {diagnostics : List Diagnostic} (hinspected : Inspected X limits document source)
    (hvalid : OutputsValid X.toExternals limits paths)
    (hdestination : get? document.documentId paths.documents = some destination)
    (hplan : plannedMarkdownReplacements paths document = .ok replacements)
    (hrender : renderRewrittenMarkdown X policy document destination source replacements =
      .ok output)
    (hparse : parseMarkdown X policy.pathLimits (outputFile X document destination output) output =
      .ok (d, diagnostics))
    (hmoved : Relocated paths paths' document.documentId d.documentId destination) :
    plannedMarkdownReplacements paths' (relinked document d) = .ok [] := by
  obtain ⟨d', diagnostics', hparse', hlinks⟩ :=
    moved_of_rewritten hinspected hvalid hdestination hplan hrender
  obtain ⟨rfl, rfl⟩ := Prod.mk.inj (Except.ok.inj (hparse.symm.trans hparse'))
  obtain ⟨-, -, -, -, hfile, -⟩ := parts_parseMarkdown hparse
  have hat : (relinked document d).sourceFile.logicalPath = destination := by
    rw [relinked, hfile]
    rfl
  refine planned_nil hmoved.moved fun link hl => ?_
  obtain ⟨⟨original, written⟩, hpair, rfl⟩ : ∃ p ∈ document.links.zip d.links,
      relinkedLink document.documentId d.documentId p.1 p.2 = link := by
    rw [relinked, ← List.map_uncurry_zip_eq_zipWith] at hl
    exact List.mem_map.mp hl
  obtain ⟨hkept, target, htarget, hraw, hpath⟩ := List.forall₂_zip hlinks hpair
  exact ⟨target, targetOutput_relocate (d := relinked document d) hdestination hmoved hat rfl
    htarget hpath, LinkMoved.settled _ _ hkept hraw⟩

theorem documentId_parseMarkdown {file : SourceFile} {bytes : Bytes} {d : Document}
    {diagnostics : List Diagnostic} (h : parseMarkdown X limits file bytes = .ok (d, diagnostics)) :
    d.documentId = ⟨X.fromParts "okc:document:v2\x00" (fileParts file)⟩ := by
  rw [parseMarkdown] at h
  obtain ⟨-, -, h⟩ := bind_eq_ok.mp h
  cases htext : String.fromUTF8? ⟨bytes.toArray⟩ with
  | none =>
    rw [htext] at h
    cases h
  | some text =>
    rw [htext] at h
    obtain ⟨⟨frontmatter, _⟩, -, h⟩ := bind_eq_ok.mp h
    rw [← (Prod.mk.inj (Except.ok.inj h)).1]

/-- The identity of the note `[[b.md]]`. -/
def newId : DocumentId :=
  ⟨(plainExternals prefixHash).fromParts "okc:document:v2\x00"
    (fileParts (outputFile (plainCrates (plainExternals prefixHash)) movedNote "knowledge/a.md"
      (utf8 "[[b.md]]")))⟩

def newPaths : OutputPathMaps :=
  { movedPaths with documents := movedPaths.documents ++ [(newId, "knowledge/a.md")] }

theorem relocated_movedNote :
    Relocated movedPaths newPaths movedNote.documentId newId "knowledge/a.md" := by
  refine ⟨by decide +kernel, fun id path hid h => ?_, rfl⟩
  have hmem := mem_of_get? h
  simp only [movedPaths, List.mem_cons, Prod.mk.injEq, List.not_mem_nil, or_false] at hmem
  rcases hmem with ⟨rfl, rfl⟩ | ⟨rfl, rfl⟩
  · exact absurd rfl hid
  · decide +kernel

/-- `[[b.md]]` is left as it is. -/
theorem rewritten_note_fixed_moved : ∃ d diagnostics,
    parseMarkdown (plainCrates (plainExternals prefixHash)) CompilerPolicy.default.pathLimits
      (outputFile (plainCrates (plainExternals prefixHash)) movedNote "knowledge/a.md"
        (utf8 "[[b.md]]")) (utf8 "[[b.md]]") = .ok (d, diagnostics) ∧
    plannedMarkdownReplacements newPaths (relinked movedNote d) = .ok [] := by
  obtain ⟨d, diagnostics, h, -⟩ := @links_of_text CompilerPolicy.default.pathLimits
    (plainCrates (plainExternals prefixHash)) (outputFile (plainCrates (plainExternals prefixHash))
      movedNote "knowledge/a.md" (utf8 "[[b.md]]")) "[[b.md]]" (by decide +kernel)
    (by decide +kernel)
  have hid : d.documentId = newId := documentId_parseMarkdown h
  refine ⟨d, diagnostics, h, ?_⟩
  exact @rewritten_note_fixed (plainCrates (plainExternals prefixHash)) .default .default movedPaths
    movedNote "knowledge/a.md" [movedReplacement] (utf8 "[[old]]") (utf8 "[[b.md]]") newPaths d
    diagnostics inspected_movedNote outputsValid_moved destination_movedNote planned_movedNote
    rendered_movedNote h (hid ▸ relocated_movedNote)

end

end Okc.Core
