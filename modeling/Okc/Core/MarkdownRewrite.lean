import Okc.Lib.Splice
import Okc.Core.CanvasRewrite
import Okc.Core.LinkTarget
import Okc.Core.LinkSpans
import Okc.Core.Resolution

/-!
# Rewriting a note (`plan.rs:2588-2676`, `plan.rs:2789-2904`)

The links of a note that goes elsewhere are written again, each in its own syntax and with the path
of its target relative to where the note will stand. What was written is read back before it is
returned.

* `rewritten_spec`: what the text that is returned is made of, and what it is read as.
-/

namespace Okc.Core

open Okc.Lib

structure RewriteReplacement where
  span : SourceSpan
  replacement : String
deriving DecidableEq

def DocumentLink.span (link : DocumentLink) : SourceSpan := ⟨link.byteStart, link.byteEnd⟩

def RewriteReplacement.edit (r : RewriteReplacement) : Edit UInt8 :=
  ⟨r.span.byteStart, r.span.byteEnd, utf8 r.replacement⟩

section

variable (paths : OutputPathMaps) (document : Document)

/-! ## What is planned -/

/-- The check of a target that is left as it is. -/
def preservedTarget (destination : String) (link : DocumentLink) : Except OkcError Unit :=
  match link.path with
  | none => .ok ()
  | some path => ensurePreservedMarkdownTargetIsContained document.sourceFile.logicalPath
      destination path link.rawTarget

/-- The output path that a link is to name, if it is one that is written again. -/
def targetOutput (destination : String) (link : DocumentLink) :
    Except OkcError (Option String) :=
  match link.resolution with
  | .pending => .error (.planStale ("document " ++ document.documentId.toString ++
      " contains a pending link resolution"))
  | .resolved target =>
    if link.path = none ∧ target = document.documentId then .ok none
    else
      match get? target paths.documents with
      | none => .error (.planStale ("document " ++ document.documentId.toString ++
          " link target " ++ target.toString ++ " has no sealed output path"))
      | some path => .ok (some path)
  | .asset assetId =>
    match get? assetId paths.assets with
    | none => .error (.planStale ("document " ++ document.documentId.toString ++
        " asset target " ++ assetId.toString ++ " has no sealed output path"))
    | some path => .ok (some path)
  | .unresolved | .ambiguous _ => do
    preservedTarget document destination link
    .ok none

/-- The target as it will be written. -/
def writtenTarget (destination : String) (link : DocumentLink) : Option String → String
  | none => link.rawTarget
  | some output => renderLinkTarget link.toLink (relativeOutputTarget destination output)

/-- The body of the loop of `planned_markdown_replacements`. -/
def plannedReplacement (destination : String) (link : DocumentLink) :
    Except OkcError (List RewriteReplacement) := do
  let output ← targetOutput paths document destination link
  let replacement := writtenTarget destination link output
  .ok (if replacement ≠ link.rawTarget then [⟨link.span, replacement⟩] else [])

/-- The loop of `validate_markdown_replacement_structure`. -/
def replacementStructure (sourceLen : Nat) : Nat → List RewriteReplacement → Except OkcError Unit
  | _, [] => .ok ()
  | previousEnd, r :: rs => do
    reject (r.span.byteStart < previousEnd ∨ r.span.byteEnd ≤ r.span.byteStart ∨
        sourceLen < r.span.byteEnd)
      (.planStale "Markdown rewrite spans overlap or are out of bounds")
    replacementStructure sourceLen r.span.byteEnd rs

/-- `validate_markdown_replacement_structure`. -/
def validateMarkdownReplacementStructure (sourceLen : Nat)
    (replacements : List RewriteReplacement) : Except OkcError Unit :=
  replacementStructure sourceLen 0 replacements

/-- `planned_markdown_replacements`. -/
def plannedMarkdownReplacements : Except OkcError (List RewriteReplacement) := do
  let destination ← sealedOutputPath paths document.documentId
  let replacements ← document.links.mapM (plannedReplacement paths document destination)
  let sorted := replacements.flatten.mergeSort fun a b =>
    decide (a.span.byteStart ≤ b.span.byteStart)
  validateMarkdownReplacementStructure document.sourceFile.byteLen sorted
  .ok sorted

end

section

variable (X : Crates) (policy : CompilerPolicy) (document : Document) (destination : String)

/-! ## What is written -/

/-- The target that a link is expected to be read back with. -/
def expectedTarget (replacements : List RewriteReplacement) (original : DocumentLink) : String :=
  ((replacements.find? fun r => r.span = original.span).map
    RewriteReplacement.replacement).getD original.rawTarget

/-- The link that was read back means what the original one does. -/
structure LinkKept (target : String) (original reparsed : DocumentLink) : Prop where
  rawTarget : reparsed.rawTarget = target
  linkSyntax : reparsed.linkSyntax = original.linkSyntax
  heading : reparsed.heading = original.heading
  blockId : reparsed.blockId = original.blockId
  display : reparsed.display = original.display
  embed : reparsed.embed = original.embed

instance (target : String) (original reparsed : DocumentLink) :
    Decidable (LinkKept target original reparsed) :=
  decidable_of_iff (reparsed.rawTarget = target ∧ reparsed.linkSyntax = original.linkSyntax ∧
      reparsed.heading = original.heading ∧ reparsed.blockId = original.blockId ∧
      reparsed.display = original.display ∧ reparsed.embed = original.embed)
    ⟨fun h => ⟨h.1, h.2.1, h.2.2.1, h.2.2.2.1, h.2.2.2.2.1, h.2.2.2.2.2⟩,
      fun h => ⟨h.1, h.2, h.3, h.4, h.5, h.6⟩⟩

/-- The file that a rewritten note is read back as. -/
def outputFile (output : Bytes) : SourceFile :=
  { document.sourceFile with
    originalPath := destination
    logicalPath := destination
    byteLen := output.length
    contentHash := X.contentHash output
    fileId := X.fileId destination .markdown (X.contentHash output) }

/-- `validate_rewritten_markdown_links`. -/
def validateRewrittenMarkdownLinks (output : Bytes) (replacements : List RewriteReplacement) :
    Except OkcError Unit := do
  let (reparsed, _) ←
    orStale (parseMarkdown X policy.pathLimits (outputFile X document destination output) output)
  reject (reparsed.links.length ≠ document.links.length)
    (.planStale ("rewritten Markdown " ++ document.documentId.toString ++
      " changed the number of parsed links"))
  reject (∃ p ∈ document.links.zip reparsed.links,
      ¬ LinkKept (expectedTarget replacements p.1) p.1 p.2)
    (.planStale ("rewritten Markdown " ++ document.documentId.toString ++
      " changed unintended link semantics"))

/-- `source.get(start..end)`. -/
def sourceSlice (source : Bytes) (s : SourceSpan) : Option Bytes :=
  if s.byteStart ≤ s.byteEnd ∧ s.byteEnd ≤ source.length then
    some (Okc.Lib.span source s.byteStart s.byteEnd)
  else none

/-- The checks of one replacement. -/
def checkReplacement (r : RewriteReplacement) : Except OkcError Unit :=
  match document.links.find? fun link => link.span = r.span with
  | none => .error (.planStale "Markdown rewrite span is not bound to a sealed link")
  | some link => reject (r.replacement = link.rawTarget)
      (.planStale "Markdown rewrite contains a no-op replacement")

/-- `render_rewritten_markdown`. -/
def renderRewrittenMarkdown (source : Bytes) (replacements : List RewriteReplacement) :
    Except OkcError Bytes := do
  reject (source.length ≠ document.sourceFile.byteLen ∨
      X.contentHash source ≠ document.sourceFile.contentHash)
    (.identityMismatch ("Markdown source \x60" ++ document.sourceFile.sourceId.value ++ "/" ++
      document.sourceFile.logicalPath ++ "\x60 changed after inspection"))
  reject (String.fromUTF8? ⟨source.toArray⟩ = none)
    (.malformedInput document.sourceFile.logicalPath ("Markdown must be UTF-8: " ++
      X.utf8Error source))
  validateMarkdownReplacementStructure document.sourceFile.byteLen replacements
  document.links.forM fun link =>
    reject (sourceSlice source link.span ≠ some (utf8 link.rawTarget))
      (.planStale ("Markdown link " ++ link.linkId.toString ++
        " source slice does not match its sealed raw target"))
  replacements.forM (checkReplacement document)
  let output := splice source 0 (replacements.map RewriteReplacement.edit)
  reject (String.fromUTF8? ⟨output.toArray⟩ = none)
    (.planStale ("rewritten Markdown is not UTF-8: " ++ X.utf8Error output))
  validateRewrittenMarkdownLinks X policy document destination output replacements
  .ok output

end

/-! ## Links that were parsed -/

theorem parsed_scanWikiLink {line cs rest : List Char} {lineOffset : Nat} {link : Link}
    (h : scanWikiLink line lineOffset cs = some (link, rest)) : ParsedLink link := by
  rw [scanWikiLink] at h
  split_ifs at h <;> simp only [Option.bind_eq_bind, Option.bind_some] at h
  · obtain ⟨⟨raw, after⟩, -, h⟩ := Option.bind_eq_some_iff.mp h
    rw [← (Prod.mk.inj (Option.some.inj h)).1]
    exact .wiki ..
  · obtain ⟨⟨raw, after⟩, -, h⟩ := Option.bind_eq_some_iff.mp h
    rw [← (Prod.mk.inj (Option.some.inj h)).1]
    exact .wiki ..
  · cases h

theorem parsed_scanMarkdownLink {line cs rest : List Char} {lineOffset : Nat} {link : Link}
    (h : scanMarkdownLink line lineOffset cs = some (link, rest)) : ParsedLink link := by
  rw [scanMarkdownLink] at h
  split_ifs at h
  · exact .markdown h
  · exact .markdown h

theorem parsed_scanStep {line : List Char} {lineOffset : Nat} {c : Char} {cs : List Char}
    {link : Link} (h : link ∈ (scanStep line lineOffset c cs).1) : ParsedLink link := by
  unfold scanStep at h
  split_ifs at h
  · cases h
  · cases h
  · cases hwiki : scanWikiLink line lineOffset (c :: cs) with
    | some found =>
      rw [hwiki, Option.some_or] at h
      obtain rfl := Option.some.inj h
      exact parsed_scanWikiLink hwiki
    | none =>
      rw [hwiki, Option.none_or] at h
      cases hmarkdown : scanMarkdownLink line lineOffset (c :: cs) with
      | none =>
        rw [hmarkdown] at h
        cases h
      | some found =>
        rw [hmarkdown] at h
        obtain rfl := Option.some.inj h
        exact parsed_scanMarkdownLink hmarkdown

theorem parsed_scanFrom {line : List Char} {lineOffset : Nat} :
    ∀ (skip : Nat) (cs : List Char), ∀ link ∈ scanFrom line lineOffset skip cs, ParsedLink link
  | _, [], link, h => absurd h (by simp [scanFrom])
  | skip + 1, _ :: cs, link, h => parsed_scanFrom skip cs link h
  | 0, c :: cs, link, h => by
    rcases List.mem_append.mp h with hstep | hrest
    · exact parsed_scanStep (Option.mem_toList.mp hstep)
    · exact parsed_scanFrom _ cs link hrest

theorem parsed_scanLinkLines (fence : Option (Char × Nat)) (offset : Nat)
    (lines : List (List Char)) : ∀ link ∈ scanLinkLines fence offset lines, ParsedLink link := by
  induction lines generalizing fence offset with
  | nil =>
    intro link h
    cases fence <;> simp [scanLinkLines] at h
  | cons line rest ih =>
    intro link h
    cases fence with
    | some fence => exact ih _ _ link h
    | none =>
      unfold scanLinkLines at h
      split at h
      · exact ih _ _ link h
      · rcases List.mem_append.mp h with hline | hrest
        · split_ifs at hline
          · cases hline
          · exact parsed_scanFrom _ _ link hline
        · exact ih _ _ link hrest

theorem parsed_parseMarkdown {X : Crates} {limits : PathLimits} {file : SourceFile} {bytes : Bytes}
    {d : Document} {diagnostics : List Diagnostic}
    (h : parseMarkdown X limits file bytes = .ok (d, diagnostics)) :
    ∀ link ∈ d.links, ParsedLink link.toLink := by
  intro link hl
  obtain ⟨text, -, hlinks⟩ := links_parseMarkdown h
  exact parsed_scanLinkLines _ _ _ _ (hlinks ▸ List.mem_map_of_mem hl)

/-- What is recorded of a link is what its raw target is read as. -/
theorem ParsedLink.parts {link : Link} (h : ParsedLink link) :
    parseTarget link link.rawTarget = (link.path, link.heading, link.blockId, link.display) := by
  cases h with
  | wiki raw byteStart byteEnd embed =>
    simp only [parseTarget, parseWikiLink, String.toList_ofList]
  | markdown h =>
    unfold parseInlineMarkdownLink at h
    obtain ⟨labelEnd, -, h⟩ := Option.bind_eq_some_iff.mp h
    dsimp only at h
    split at h
    · cases h
    · split at h <;>
        · obtain ⟨targetEnd, -, h⟩ := Option.bind_eq_some_iff.mp h
          split at h
          · cases h
          · obtain ⟨rest, -, h⟩ := Option.bind_eq_some_iff.mp h
            cases h
            simp only [parseTarget, String.toList_ofList]

/-! ## What is accepted -/

section

variable {X : Crates} {policy : CompilerPolicy} {document : Document} {destination : String}
  {source output : Bytes} {replacements : List RewriteReplacement} {paths : OutputPathMaps}

theorem fits_of_replacementStructure {sourceLen previousEnd : Nat} (hle : previousEnd ≤ sourceLen)
    (h : replacementStructure sourceLen previousEnd replacements = .ok ()) :
    Fits sourceLen previousEnd (replacements.map RewriteReplacement.edit) := by
  induction replacements generalizing previousEnd with
  | nil => exact hle
  | cons r rs ih =>
    obtain ⟨hr, hrs⟩ := bind_unit_eq_ok.mp h
    have hspan := reject_eq_ok.mp hr
    rw [not_or, not_or] at hspan
    obtain ⟨hstart, hne, hend⟩ := hspan
    exact ⟨Nat.le_of_not_lt hstart, (Nat.lt_of_not_le hne).le, Nat.le_of_not_lt hend,
      ih (Nat.le_of_not_lt hend) hrs⟩

/-- What the text that is returned is made of, and what it is read as. -/
structure RewrittenNote (X : Crates) (policy : CompilerPolicy) (document : Document)
    (destination : String) (source : Bytes) (replacements : List RewriteReplacement)
    (output : Bytes) : Prop where
  sealed : X.contentHash source = document.sourceFile.contentHash
  fits : Fits source.length 0 (replacements.map RewriteReplacement.edit)
  /-- Every span is that of a link, and holds its target. -/
  bound : ∀ r ∈ replacements, ∃ link ∈ document.links, link.span = r.span ∧
    span source r.span.byteStart r.span.byteEnd = utf8 link.rawTarget
  spliced : output = splice source 0 (replacements.map RewriteReplacement.edit)
  reparsed : ∃ d diagnostics, parseMarkdown X policy.pathLimits
    (outputFile X document destination output) output = .ok (d, diagnostics) ∧
    List.Forall₂ (fun original reparsed =>
      LinkKept (expectedTarget replacements original) original reparsed) document.links d.links

theorem rewritten_spec
    (h : renderRewrittenMarkdown X policy document destination source replacements = .ok output) :
    RewrittenNote X policy document destination source replacements output := by
  unfold renderRewrittenMarkdown at h
  obtain ⟨hsealed, h⟩ := bind_unit_eq_ok.mp h
  obtain ⟨-, h⟩ := bind_unit_eq_ok.mp h
  obtain ⟨hstructure, h⟩ := bind_unit_eq_ok.mp h
  obtain ⟨hslices, h⟩ := bind_unit_eq_ok.mp h
  obtain ⟨hchecks, h⟩ := bind_unit_eq_ok.mp h
  obtain ⟨-, h⟩ := bind_unit_eq_ok.mp h
  obtain ⟨hlinks, h⟩ := bind_unit_eq_ok.mp h
  have houtput := (Except.ok.inj h).symm
  have hsource := reject_eq_ok.mp hsealed
  rw [not_or, not_not, not_not] at hsource
  rw [← hsource.1] at hstructure
  refine ⟨hsource.2, fits_of_replacementStructure (Nat.zero_le _) hstructure, fun r hr => ?_,
    houtput, ?_⟩
  · have hcheck := forM_eq_ok.mp hchecks r hr
    unfold checkReplacement at hcheck
    split at hcheck
    · cases hcheck
    · rename_i link hfind
      have hmem := List.mem_of_find?_eq_some hfind
      have hspan : link.span = r.span := by simpa using List.find?_some hfind
      have hslice := not_not.mp (reject_eq_ok.mp (forM_eq_ok.mp hslices link hmem))
      unfold sourceSlice at hslice
      split at hslice
      · exact ⟨link, hmem, hspan, hspan ▸ Option.some.inj hslice⟩
      · cases hslice
  · rw [← houtput] at hlinks
    obtain ⟨⟨d, diagnostics⟩, hreparsed, hchecked⟩ := bind_eq_ok.mp hlinks
    obtain ⟨hlength, hkept⟩ := bind_unit_eq_ok.mp hchecked
    refine ⟨d, diagnostics, ?_, List.forall₂_iff_zip.mpr ⟨?_, fun {a b} hab => ?_⟩⟩
    · unfold orStale at hreparsed
      cases hparse : parseMarkdown X policy.pathLimits
          (outputFile X document destination output) output with
      | error e =>
        rw [hparse] at hreparsed
        cases hreparsed
      | ok parsed =>
        rw [hparse] at hreparsed
        exact congrArg _ (Except.ok.inj hreparsed)
    · exact (not_not.mp (reject_eq_ok.mp hlength)).symm
    · by_contra hnot
      exact reject_eq_ok.mp hkept ⟨(a, b), hab, hnot⟩

end

end Okc.Core
