import Okc.Core.Bulk
import Okc.Core.Retention

/-!
# What stands on one line of a note (`integration.rs:1635-1778`)

The renderer writes titles, headings, IDs and the texts of contradictions into lines that it lays
out itself. A text with a line break of its own would go on in a line of the author's choosing.

* `LinesHold`: each of these texts stays on its line.
* `LinesOpen`: the summary of a contradiction and the date of a claim do, which no validator asks.
* `breaks_renderCanonicalNote`: then a note has the line breaks of its layout and of the bodies and
  source blocks it carries, and no other.
* `linesHold_iff`: for a valid plan the two unchecked texts are all that is missing.
-/

namespace Okc.Core

open Okc.Lib

/-! ## Texts of one line -/

/-- No control character and no line break. -/
def OneLine (s : String) : Prop := ∀ c ∈ s.toList, isControl c = false ∧ c ≠ '\n' ∧ c ≠ '\r'

/-- A line break is a control character. -/
theorem oneLine_iff {s : String} : OneLine s ↔ ∀ c ∈ s.toList, isControl c = false := by
  refine ⟨fun h c hc => (h c hc).1, fun h c hc => ⟨h c hc, ?_, ?_⟩⟩
  · rintro rfl
    exact absurd (h _ hc) (by decide)
  · rintro rfl
    exact absurd (h _ hc) (by decide)

theorem Bounded.oneLine {s : String} {minimum maximum : Nat} (h : Bounded s minimum maximum) :
    OneLine s :=
  oneLine_iff.mpr h.2.2

theorem OneLine.breaks {s : String} (h : OneLine s) : breaks s = 0 :=
  breaks_of_clear (oneLine_iff.mp h)

/-- A portable path is on one line. -/
theorem Portable.oneLine {X : Externals} {path : String} (h : Portable X path) : OneLine path := by
  refine oneLine_iff.mpr fun c hc => ?_
  by_cases hslash : c = '/'
  · rw [hslash]
    decide
  · obtain ⟨component, hmem, hcc⟩ := mem_splitSlash_of_mem hc hslash
    have hv := (h.component component hmem).1
    simp only [validateComponent, bind_unit_eq_ok, reject_eq_ok, not_or, List.any_eq_true,
      not_exists, not_and] at hv
    have hf := hv.1.2.2.2.2.2 c hcc
    simp only [forbiddenChar, Bool.or_eq_true, not_or] at hf
    exact Bool.eq_false_iff.mpr hf.1.2

theorem breaks_documentId (id : DocumentId) : breaks id.toString = 0 := by
  have hstart : breaks "doc_" = 0 := by decide +kernel
  rw [DocumentId.toString, breaks_append, hstart, ContentHash.hex,
    breaks_of_clear (isControl_hex _)]

theorem breaks_blockId (id : BlockId) : breaks id.toString = 0 := by
  have hstart : breaks "block_" = 0 := by decide +kernel
  rw [BlockId.toString, breaks_append, hstart, ContentHash.hex,
    breaks_of_clear (isControl_hex _)]

theorem breaks_yamlScalar (value : String) : breaks (yamlScalar value) = 0 :=
  Value.breaks_text _

/-! ## The texts of a note -/

/-- Each text that the renderer places on a line of its own layout is of one line. -/
structure LinesHold (plan : ApprovedIntegrationPlan) (cluster : TaxonomyCluster)
    (p : SynthesisProposal) : Prop where
  clusterId : OneLine cluster.clusterId
  title : OneLine cluster.title
  heading : ∀ s ∈ p.sections, OneLine s.heading ∧ OneLine s.sectionId
  summary : ∀ c ∈ p.contradictions, OneLine c.summary
  claim : ∀ c ∈ p.contradictions, ∀ x ∈ c.claims, OneLine x.context ∧ OneLine x.renderedClaim
  observedAt : ∀ c ∈ p.contradictions, ∀ x ∈ c.claims, ∀ o ∈ x.observedAt, OneLine o
  related : ∀ l ∈ p.relatedLinks, ∀ t,
    get? l.targetClusterId plan.taxonomy.clustersById = some t → OneLine t.title

/-- The two texts that no validator looks at are of one line. -/
def LinesOpen (p : SynthesisProposal) : Prop :=
  ∀ c ∈ p.contradictions, OneLine c.summary ∧ ∀ x ∈ c.claims, ∀ o ∈ x.observedAt, OneLine o

/-! ## The line breaks of a note -/

/-- A heading with a blank line before it, and what stands under it. -/
def headed (parts : List Nat) : Nat := if parts = [] then 0 else 2 + parts.sum

/-- The line breaks of the layout and of the bodies and source blocks. -/
def noteBreaks (plan : ApprovedIntegrationPlan) (cluster : TaxonomyCluster)
    (p : SynthesisProposal) : Nat :=
  let documents := noteDocuments plan.corpus cluster
  8 + (if retainedMetadata documents p.dispositions = [] then 0 else 1) +
    (p.sections.map fun s => 4 + breaks (trimEnd s.markdownBody)).sum +
    headed ((preservedBlocks documents p.dispositions).map fun item =>
      4 + breaks (trimEnd item.2.text)) +
    headed (p.contradictions.map fun c => 2 + 2 * c.claims.length) +
    headed (p.relatedLinks.map fun _ => 2)

theorem breaks_underHeading {heading : String} (h : breaks heading = 2) (parts : List String) :
    breaks (underHeading heading parts) = headed (parts.map breaks) := by
  unfold underHeading headed
  by_cases hp : parts = []
  · have hnil : breaks "" = 0 := by decide +kernel
    rw [if_pos hp, if_pos (by rw [hp, List.map_nil]), hnil]
  · rw [if_neg hp, if_neg (by simpa using hp), breaks_append, h, breaks_concat]

theorem breaks_renderSection {s : SynthesisSection} (hh : OneLine s.heading)
    (hid : OneLine s.sectionId) :
    breaks (renderSection s) = 4 + breaks (trimEnd s.markdownBody) := by
  have h₁ : breaks "\n## " = 1 := by decide +kernel
  have h₂ : breaks " \x7b#" = 0 := by decide +kernel
  have h₃ : breaks "\x7d\n\n" = 2 := by decide +kernel
  have h₄ : breaks "\n" = 1 := by decide +kernel
  simp only [renderSection, breaks_append, h₁, h₂, h₃, h₄, hh.breaks, hid.breaks]
  ring

theorem breaks_renderPreserved (item : DocumentId × SourceBlock) :
    breaks (renderPreserved item) = 4 + breaks (trimEnd item.2.text) := by
  have h₁ : breaks "\n<!-- okc-source: " = 1 := by decide +kernel
  have h₂ : breaks " " = 0 := by decide +kernel
  have h₃ : breaks " -->\n\n" = 2 := by decide +kernel
  have h₄ : breaks "\n" = 1 := by decide +kernel
  unfold renderPreserved
  simp only [breaks_append, h₁, h₂, h₃, h₄, breaks_documentId, breaks_blockId]
  ring

theorem breaks_renderClaim {x : ContradictionClaim} (hc : OneLine x.context)
    (hr : OneLine x.renderedClaim) (ho : ∀ o ∈ x.observedAt, OneLine o) :
    breaks (renderClaim x) = 2 := by
  have h₁ : breaks "\n- **" = 1 := by decide +kernel
  have h₂ : breaks ":** " = 0 := by decide +kernel
  have h₃ : breaks " (\x60" = 0 := by decide +kernel
  have h₄ : breaks "\x60)" = 0 := by decide +kernel
  have h₅ : breaks "\n" = 1 := by decide +kernel
  cases hobs : x.observedAt with
  | none =>
    have hnil : breaks "" = 0 := by decide +kernel
    simp only [renderClaim, hobs, breaks_append, h₁, h₂, h₅, hc.breaks, hr.breaks, hnil]
  | some o =>
    simp only [renderClaim, hobs, breaks_append, h₁, h₂, h₃, h₄, h₅, hc.breaks, hr.breaks,
      (ho o hobs).breaks]

theorem sum_map_const {α : Type} {f : α → Nat} {k : Nat} {l : List α} (h : ∀ x ∈ l, f x = k) :
    (l.map f).sum = k * l.length := by
  rw [List.map_congr_left h, List.map_const', List.sum_replicate, smul_eq_mul, Nat.mul_comm]

theorem breaks_renderContradiction {c : ContradictionSet} (hs : OneLine c.summary)
    (hc : ∀ x ∈ c.claims, OneLine x.context ∧ OneLine x.renderedClaim)
    (ho : ∀ x ∈ c.claims, ∀ o ∈ x.observedAt, OneLine o) :
    breaks (renderContradiction c) = 2 + 2 * c.claims.length := by
  have h₁ : breaks "\n### " = 1 := by decide +kernel
  have h₂ : breaks "\n" = 1 := by decide +kernel
  have hclaims : (c.claims.map fun x => breaks (renderClaim x)).sum = 2 * c.claims.length :=
    sum_map_const fun x hx => breaks_renderClaim (hc x hx).1 (hc x hx).2 (ho x hx)
  simp only [renderContradiction, breaks_append, breaks_concat, List.map_map, Function.comp_def,
    h₁, h₂, hs.breaks, hclaims]

theorem breaks_renderLink {clusters : List (String × TaxonomyCluster)} {l : RelatedLink}
    {text : String} (h : renderLink clusters l = .ok text)
    (ht : ∀ t, get? l.targetClusterId clusters = some t →
      OneLine t.title ∧ OneLine t.canonicalPath) : breaks text = 2 := by
  have h₁ : breaks "\n- " = 1 := by decide +kernel
  have h₂ : breaks ": [[knowledge/" = 0 := by decide +kernel
  have h₃ : breaks "|" = 0 := by decide +kernel
  have h₄ : breaks "]]\n" = 1 := by decide +kernel
  have hkind : ∀ kind : RelatedLinkKind, breaks kind.debug = 0 := by
    intro kind
    cases kind <;> decide +kernel
  unfold renderLink at h
  cases hg : get? l.targetClusterId clusters with
  | none => simp [hg] at h
  | some t =>
    rw [hg] at h
    obtain rfl := Except.ok.inj h
    simp only [breaks_append, h₁, h₂, h₃, h₄, hkind, (ht t hg).1.breaks, (ht t hg).2.breaks]

theorem breaks_renderFrontMatter (plan : ApprovedIntegrationPlan) (cluster : TaxonomyCluster)
    (retained : List Value) :
    breaks (renderFrontMatter plan cluster retained) = 7 + if retained = [] then 0 else 1 := by
  have h₁ : breaks "---\nokc_generated: true\nokc_schema: 3\n" = 3 := by decide +kernel
  have h₂ : breaks "okc_cluster_id: " = 0 := by decide +kernel
  have h₃ : breaks "\n" = 1 := by decide +kernel
  have h₄ : breaks "okc_integration_plan: " = 0 := by decide +kernel
  have h₅ : breaks "---\n\n" = 2 := by decide +kernel
  have h₆ : breaks "okc_retained_metadata: " = 0 := by decide +kernel
  have hline : breaks (if retained = [] then "" else retainedLine retained) =
      if retained = [] then 0 else 1 := by
    by_cases hr : retained = []
    · have hnil : breaks "" = 0 := by decide +kernel
      rw [if_pos hr, if_pos hr, hnil]
    · rw [if_neg hr, if_neg hr]
      unfold retainedLine
      simp only [breaks_append, h₆, h₃, Value.breaks_text]
  simp only [renderFrontMatter, breaks_concat, List.map_cons, List.map_nil, List.sum_cons,
    List.sum_nil, h₁, h₂, h₃, h₄, h₅, breaks_yamlScalar, hline]
  ring

/-- **The lines of a note.** Where every text keeps to its line, the layout, the bodies and the
source blocks make all the lines there are. -/
theorem breaks_renderCanonicalNote {plan : ApprovedIntegrationPlan} {cluster : TaxonomyCluster}
    {revision : ApprovedClusterRevision} {text : String}
    (h : LinesHold plan cluster revision.proposal)
    (hpaths : ∀ t ∈ plan.taxonomy.clusters, OneLine t.canonicalPath)
    (hmem : ∀ id t, get? id plan.taxonomy.clustersById = some t → t ∈ plan.taxonomy.clusters)
    (ht : renderCanonicalNote plan cluster revision = .ok text) :
    breaks text = noteBreaks plan cluster revision.proposal := by
  simp only [renderCanonicalNote, bind_eq_ok] at ht
  obtain ⟨links, hlinks, ht⟩ := ht
  obtain rfl := Except.ok.inj ht
  have h₁ : breaks "# " = 0 := by decide +kernel
  have h₂ : breaks "\n" = 1 := by decide +kernel
  have h₃ : breaks "\n## Preserved source material\n" = 2 := by decide +kernel
  have h₄ : breaks "\n## Contradictions\n" = 2 := by decide +kernel
  have h₅ : breaks "\n## Related\n" = 2 := by decide +kernel
  have hsections : revision.proposal.sections.map (fun s => breaks (renderSection s)) =
      revision.proposal.sections.map fun s => 4 + breaks (trimEnd s.markdownBody) :=
    List.map_congr_left fun s hs => breaks_renderSection (h.heading s hs).1 (h.heading s hs).2
  have hcontradictions : revision.proposal.contradictions.map
        (fun c => breaks (renderContradiction c)) =
      revision.proposal.contradictions.map fun c => 2 + 2 * c.claims.length :=
    List.map_congr_left fun c hc =>
      breaks_renderContradiction (h.summary c hc) (h.claim c hc) (h.observedAt c hc)
  have hrelated : links.map breaks = revision.proposal.relatedLinks.map fun _ => 2 :=
    map_of_mapM hlinks fun l hl link hlink =>
      breaks_renderLink hlink fun t hg => ⟨h.related l hl t hg, hpaths t (hmem _ _ hg)⟩
  simp only [breaks_concat, List.map_cons, List.map_nil, List.sum_cons, List.sum_nil,
    breaks_renderFrontMatter, breaks_underHeading h₃, breaks_underHeading h₄,
    breaks_underHeading h₅, List.map_map, Function.comp_def, h₁, h₂, h.title.breaks, hsections,
    hcontradictions, hrelated, breaks_renderPreserved, noteBreaks]
  ring

/-! ## Which plans keep their lines -/

/-- A valid plan keeps to one line whatever a validator looks at. -/
theorem LinesOpen.linesHold {X : Externals} {p : ApprovedIntegrationPlan} (hv : ValidPlan X p)
    {r : ApprovedClusterRevision} (hr : r ∈ p.clusters) {c : TaxonomyCluster}
    (hc : get? r.proposal.clusterId p.taxonomy.clustersById = some c) (h : LinesOpen r.proposal) :
    LinesHold p c r.proposal := by
  obtain ⟨d, hd, hg, hrev⟩ := hv.cluster_of_revision hr
  obtain rfl : c = d := Option.some.inj (hc.symm.trans hg)
  have hcluster := hv.taxonomy.cluster c hd
  have hp := hrev.proposal
  exact {
    clusterId := hcluster.idBounded.oneLine
    title := hcluster.titleBounded.oneLine
    heading := fun s hs =>
      ⟨(hp.sections s hs).headingBounded.oneLine, (hp.sections s hs).idBounded.oneLine⟩
    summary := fun c hc => (h c hc).1
    claim := fun c hc x hx =>
      have hx := (hp.contradictions c hc).claim x hx
      ⟨hx.contextBounded.oneLine, hx.claimBounded.oneLine⟩
    observedAt := fun c hc => (h c hc).2
    related := fun l _ t ht =>
      (hv.taxonomy.cluster t (hv.taxonomy.get?_clustersById.mp ht).1).titleBounded.oneLine }

theorem LinesHold.linesOpen {plan : ApprovedIntegrationPlan} {cluster : TaxonomyCluster}
    {p : SynthesisProposal} (h : LinesHold plan cluster p) : LinesOpen p :=
  fun c hc => ⟨h.summary c hc, h.observedAt c hc⟩

/-- **What keeps a note's lines.** In a valid plan every text placed on a line keeps to it exactly
when the summaries and dates of the contradictions do, and such a note has no line beyond its
layout, its bodies and its source blocks. -/
theorem linesHold_iff {X : Externals} {p : ApprovedIntegrationPlan} (hv : ValidPlan X p) :
    ((∀ r ∈ p.clusters, ∀ c, get? r.proposal.clusterId p.taxonomy.clustersById = some c →
        LinesHold p c r.proposal) ↔ ∀ r ∈ p.clusters, LinesOpen r.proposal) ∧
      ∀ r ∈ p.clusters, ∀ c, get? r.proposal.clusterId p.taxonomy.clustersById = some c →
        ∀ text, renderCanonicalNote p c r = .ok text → LinesOpen r.proposal →
          breaks text = noteBreaks p c r.proposal := by
  refine ⟨⟨fun h r hr => ?_, fun h r hr c hc => (h r hr).linesHold hv hr hc⟩, ?_⟩
  · obtain ⟨c, _, hc, _⟩ := hv.cluster_of_revision hr
    exact (h r hr c hc).linesOpen
  · intro r hr c hc text ht hopen
    refine breaks_renderCanonicalNote (hopen.linesHold hv hr hc) ?_ ?_ ht
    · exact fun t ht => (hv.taxonomy.cluster t ht).canonicalPath.oneLine
    · exact fun id t ht => (hv.taxonomy.get?_clustersById.mp ht).1

/-! ## A summary with a heading of its own -/

/-- A contradiction between two claims on that block. -/
def disputed (X : Externals) (summary : String) : NoteContent where
  path := "all.md"
  sections := []
  links := []
  contradictions := [⟨"c", summary,
    [⟨"a", "Kept.", none, "One reading", [bulkCitation X]⟩,
      ⟨"b", "Lost.", none, "Another reading", [bulkCitation X]⟩]⟩]

theorem disputed_ok (sha256 : Bytes → ContentHash) (summary : String) :
    (disputed (plainExternals sha256) summary).Ok (plainExternals sha256) 1 where
  path := (portable_note "all.md" (by decide) (by decide)).1
  notePath := (portable_note "all.md" (by decide) (by decide)).2
  markdown := by
    show ".md".toList <:+ (asciiLower "all.md").toList
    decide
  sectionIds := List.nodup_nil
  sections := fun s hs => absurd hs (List.not_mem_nil)
  links := fun l hl => absurd hl (List.not_mem_nil)
  contradictionIds := List.nodup_singleton _
  contradictions := by
    intro c hc
    have hev := evidenceOk_bulkCitation (plainExternals sha256)
    rw [List.mem_singleton.mp hc]
    refine ⟨by simp [Bounded]; decide, le_refl _, by simp, ?_⟩
    rintro x (_ | ⟨_, _ | ⟨_, ⟨⟩⟩⟩)
    · exact ⟨by simp [Bounded]; decide, by simp [Bounded]; decide, List.cons_ne_nil _ _, hev⟩
    · exact ⟨by simp [Bounded]; decide, by simp [Bounded]; decide, List.cons_ne_nil _ _, hev⟩

/-- Whatever the summary says, the note says it too. -/
theorem carries_summary {plan : ApprovedIntegrationPlan} {cluster : TaxonomyCluster}
    {revision : ApprovedClusterRevision} {text : String}
    (ht : renderCanonicalNote plan cluster revision = .ok text)
    {c : ContradictionSet} (hc : c ∈ revision.proposal.contradictions) :
    Occurs c.summary text := by
  simp only [renderCanonicalNote, bind_eq_ok] at ht
  obtain ⟨links, -, ht⟩ := ht
  obtain rfl := Except.ok.inj ht
  have hcontradiction : Occurs c.summary (renderContradiction c) :=
    (((occurs_refl _).append_left _).append_right _).append_right _
  have hunder := hcontradiction.trans
    (occurs_underHeading "\n## Contradictions\n" (List.mem_map_of_mem hc))
  refine hunder.trans (occurs_concat ?_)
  simp only [List.mem_cons, true_or, or_true]

theorem linesHold_iff_disputed :
    (∀ r ∈ (notePlan (plainExternals prefixHash) 1
        (disputed (plainExternals prefixHash) "Kept or lost")).clusters, LinesOpen r.proposal) ∧
      ∀ r ∈ (notePlan (plainExternals prefixHash) 1
        (disputed (plainExternals prefixHash) "Kept or lost")).clusters, ∀ c,
        get? r.proposal.clusterId (notePlan (plainExternals prefixHash) 1
          (disputed (plainExternals prefixHash) "Kept or lost")).taxonomy.clustersById = some c →
        LinesHold (notePlan (plainExternals prefixHash) 1
          (disputed (plainExternals prefixHash) "Kept or lost")) c r.proposal := by
  have hopen : ∀ r ∈ (notePlan (plainExternals prefixHash) 1
      (disputed (plainExternals prefixHash) "Kept or lost")).clusters, LinesOpen r.proposal := by
    have hsummary : Bounded "Kept or lost" 1 16 := by simp [Bounded]; decide
    intro r hr c hc
    rw [List.mem_singleton.mp hr] at hc
    rw [List.mem_singleton.mp hc]
    refine ⟨hsummary.oneLine, ?_⟩
    rintro x (_ | ⟨_, _ | ⟨_, ⟨⟩⟩⟩) o ho <;> cases ho
  exact ⟨hopen, (linesHold_iff (notePlan_valid (by omega) (by omega)
    (disputed_ok prefixHash "Kept or lost"))).1.mpr hopen⟩

/-- A valid plan whose note has a section that no section of the proposal is. -/
theorem heading_forged :
    ValidPlan (plainExternals prefixHash) (notePlan (plainExternals prefixHash) 1
        (disputed (plainExternals prefixHash) "Kept or lost\n\n## Forged")) ∧
      ¬ LinesHold (notePlan (plainExternals prefixHash) 1
          (disputed (plainExternals prefixHash) "Kept or lost\n\n## Forged"))
        (noteCluster 1 (disputed (plainExternals prefixHash) "Kept or lost\n\n## Forged"))
        (noteProposal (plainExternals prefixHash) 1
          (disputed (plainExternals prefixHash) "Kept or lost\n\n## Forged")) ∧
      ∀ text, renderCanonicalNote (notePlan (plainExternals prefixHash) 1
          (disputed (plainExternals prefixHash) "Kept or lost\n\n## Forged"))
        (noteCluster 1 (disputed (plainExternals prefixHash) "Kept or lost\n\n## Forged"))
        (noteRevision (plainExternals prefixHash) 1
          (disputed (plainExternals prefixHash) "Kept or lost\n\n## Forged")) = .ok text →
        Occurs "Kept or lost\n\n## Forged" text := by
  refine ⟨notePlan_valid (by omega) (by omega) (disputed_ok prefixHash _), fun h => ?_,
    fun text ht => carries_summary ht (List.mem_singleton_self _)⟩
  have hline := (h.summary _ (List.mem_singleton_self _)) '\n' (by decide)
  exact hline.2.1 rfl

end Okc.Core
