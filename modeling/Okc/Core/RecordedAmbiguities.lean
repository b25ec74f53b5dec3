import Okc.Core.ResolvedRecords

/-!
# Ambiguities are recorded as conflicts (`plan.rs:394-480`, `plan.rs:899-1062`)

For every link and every file reference that is left ambiguous a plan holds one conflict, and no
other conflict is about a link or a reference. The validator goes from the conflicts back to the
workspace: it looks a link up by its identity and its target, and takes the first that it finds.

* `markdownCoverage_iff`, `canvasCoverage_iff`: what the validator asks for, in any order of the
  conflicts.
* `LinksFound`: the lookup finds every ambiguous link.
* `markdownCoverage_reported_iff`, `canvasCoverage_reported`: the conflicts of `resolve_links` are
  accepted, those about links exactly when the lookup finds the links, the others always.
-/

namespace Okc.Core

open Okc.Lib

section

variable (w : CanonicalWorkspace) (exactGroups : List ExactDuplicateGroup)

/-! ## What a conflict says -/

/-- What the validator reads of a conflict about a link. -/
def linkRecord (c : Conflict) : Option LinkAmbiguity :=
  match c.subject with
  | some (.markdownLink documentId linkId rawTarget) =>
    (conflictCandidates w c documentId linkId rawTarget).toOption.map
      (linkAmbiguity w exactGroups documentId linkId rawTarget)
  | _ => none

/-- What the validator reads of a conflict about a reference. -/
def referenceRecord (c : Conflict) : Option ReferenceAmbiguity :=
  match c.subject with
  | some (.canvasReference canvasId nodeId rawPath) =>
    (conflictTargets w c canvasId nodeId rawPath).toOption.map fun found =>
      ⟨canvasId, nodeId, rawPath, found.2⟩
  | _ => none

/-- A conflict about a link is about an ambiguous one, and as it is made for that. -/
def LinkReadable (c : Conflict) : Prop :=
  ∀ documentId linkId rawTarget, c.subject = some (.markdownLink documentId linkId rawTarget) →
    ∃ candidates, conflictCandidates w c documentId linkId rawTarget = .ok candidates ∧
      AmbiguityConflict
        (linkAmbiguity w exactGroups documentId linkId rawTarget candidates).documents
        (markdownAmbiguityMessage rawTarget) c

/-- A conflict about a reference is about an ambiguous one, and as it is made for that. -/
def ReferenceReadable (c : Conflict) : Prop :=
  ∀ canvasId nodeId rawPath, c.subject = some (.canvasReference canvasId nodeId rawPath) →
    ∃ found, conflictTargets w c canvasId nodeId rawPath = .ok found ∧
      AmbiguityConflict (sortedSet (documentTargets found.2))
        (canvasAmbiguityMessage canvasId found.1 found.2) c

/-- The lookup finds every link that is ambiguous: no link before it has its identity and its
target. -/
def LinksFound : Prop :=
  ∀ e ∈ w.documents, ∀ link ∈ e.2.links, link.candidates.isSome →
    e.2.links.find? (fun other => other.linkId = link.linkId ∧ other.rawTarget = link.rawTarget) =
      some link

end

section

variable {w : CanonicalWorkspace} {exactGroups : List ExactDuplicateGroup}
  {conflicts : List Conflict}

theorem validateLinkConflict_eq_ok (actual : List LinkAmbiguity) (c : Conflict)
    (t : List LinkAmbiguity) : validateLinkConflict w exactGroups actual c = .ok t ↔
      LinkReadable w exactGroups c ∧ (∀ r ∈ linkRecord w exactGroups c, r ∉ actual) ∧
        t = (linkRecord w exactGroups c).toList ++ actual := by
  unfold validateLinkConflict linkRecord LinkReadable
  cases hsubject : c.subject with
  | none => simp [eq_comm]
  | some subject =>
    cases subject with
    | canvasReference canvasId nodeId rawPath => simp [eq_comm]
    | markdownLink documentId linkId rawTarget =>
      cases hfound : conflictCandidates w c documentId linkId rawTarget with
      | error e =>
        refine iff_of_false (fun h => ?_) fun h => ?_
        · obtain ⟨_, h, -⟩ := bind_eq_ok.mp h
          rw [hfound] at h
          cases h
        · obtain ⟨_, h, -⟩ := h.1 documentId linkId rawTarget rfl
          rw [hfound] at h
          cases h
      | ok candidates =>
        dsimp only
        rw [bind_eq_ok, hfound]
        simp only [Except.ok.injEq, exists_eq_left', bind_unit_eq_ok, reject_eq_ok, not_or, not_not]
        constructor
        · rintro ⟨⟨hconflict, hnew⟩, rfl⟩
          refine ⟨fun d l raw heq => ?_, fun r hr => ?_, rfl⟩
          · obtain ⟨rfl, rfl, rfl⟩ := ConflictSubject.markdownLink.inj (Option.some.inj heq)
            exact ⟨candidates, hfound, hconflict⟩
          · obtain rfl := Option.some.inj hr
            exact hnew
        · rintro ⟨hread, hnew, rfl⟩
          obtain ⟨candidates', hfound', hconflict⟩ := hread documentId linkId rawTarget rfl
          obtain rfl := Except.ok.inj (hfound.symm.trans hfound')
          exact ⟨⟨hconflict, hnew _ rfl⟩, rfl⟩

theorem validateReferenceConflict_eq_ok (actual : List ReferenceAmbiguity) (c : Conflict)
    (t : List ReferenceAmbiguity) : validateReferenceConflict w actual c = .ok t ↔
      ReferenceReadable w c ∧ (∀ r ∈ referenceRecord w c, r ∉ actual) ∧
        t = (referenceRecord w c).toList ++ actual := by
  unfold validateReferenceConflict referenceRecord ReferenceReadable
  cases hsubject : c.subject with
  | none => simp [eq_comm]
  | some subject =>
    cases subject with
    | markdownLink documentId linkId rawTarget => simp [eq_comm]
    | canvasReference canvasId nodeId rawPath =>
      cases hfound : conflictTargets w c canvasId nodeId rawPath with
      | error e =>
        refine iff_of_false (fun h => ?_) fun h => ?_
        · obtain ⟨_, h, -⟩ := bind_eq_ok.mp h
          rw [hfound] at h
          cases h
        · obtain ⟨_, h, -⟩ := h.1 canvasId nodeId rawPath rfl
          rw [hfound] at h
          cases h
      | ok found =>
        dsimp only
        rw [bind_eq_ok, hfound]
        simp only [Except.ok.injEq, exists_eq_left', bind_unit_eq_ok, reject_eq_ok, not_or, not_not]
        constructor
        · rintro ⟨⟨hconflict, hnew⟩, rfl⟩
          refine ⟨fun d l raw heq => ?_, fun r hr => ?_, rfl⟩
          · obtain ⟨rfl, rfl, rfl⟩ := ConflictSubject.canvasReference.inj (Option.some.inj heq)
            exact ⟨found, hfound, hconflict⟩
          · obtain rfl := Option.some.inj hr
            exact hnew
        · rintro ⟨hread, hnew, rfl⟩
          obtain ⟨found', hfound', hconflict⟩ := hread canvasId nodeId rawPath rfl
          obtain rfl := Except.ok.inj (hfound.symm.trans hfound')
          exact ⟨⟨hconflict, hnew _ rfl⟩, rfl⟩

/-- **What the validator asks of the conflicts about links**, in any order. -/
theorem markdownCoverage_iff : validateMarkdownConflictCoverage w exactGroups conflicts = .ok () ↔
    (∀ c ∈ conflicts, LinkReadable w exactGroups c) ∧
      (conflicts.filterMap (linkRecord w exactGroups)).Nodup ∧
        ∀ r, r ∈ conflicts.filterMap (linkRecord w exactGroups) ↔
          r ∈ expectedLinkAmbiguities w exactGroups := by
  unfold validateMarkdownConflictCoverage
  rw [bind_eq_ok]
  simp only [foldlM_records validateLinkConflict_eq_ok, reject_eq_ok, not_not]
  constructor
  · rintro ⟨_, ⟨hread, hnodup, -, rfl⟩, hsub, hsup⟩
    rw [List.append_nil] at hsub hsup
    exact ⟨hread, hnodup, fun r => ⟨fun hr => hsub (List.mem_reverse.mpr hr),
      fun hr => List.mem_reverse.mp (hsup hr)⟩⟩
  · rintro ⟨hread, hnodup, hsame⟩
    refine ⟨_, ⟨hread, hnodup, fun _ _ => List.not_mem_nil, rfl⟩, fun r hr => ?_, fun r hr => ?_⟩
    · rw [List.append_nil] at hr
      exact (hsame r).mp (List.mem_reverse.mp hr)
    · rw [List.append_nil]
      exact List.mem_reverse.mpr ((hsame r).mpr hr)

/-- **What the validator asks of the conflicts about references**, in any order. -/
theorem canvasCoverage_iff : validateCanvasConflictCoverage w conflicts = .ok () ↔
    (∀ c ∈ conflicts, ReferenceReadable w c) ∧ (conflicts.filterMap (referenceRecord w)).Nodup ∧
      ∀ r, r ∈ conflicts.filterMap (referenceRecord w) ↔ r ∈ expectedReferenceAmbiguities w := by
  unfold validateCanvasConflictCoverage
  rw [bind_eq_ok]
  simp only [foldlM_records validateReferenceConflict_eq_ok, reject_eq_ok, not_not]
  constructor
  · rintro ⟨_, ⟨hread, hnodup, -, rfl⟩, hsub, hsup⟩
    rw [List.append_nil] at hsub hsup
    exact ⟨hread, hnodup, fun r => ⟨fun hr => hsub (List.mem_reverse.mpr hr),
      fun hr => List.mem_reverse.mp (hsup hr)⟩⟩
  · rintro ⟨hread, hnodup, hsame⟩
    refine ⟨_, ⟨hread, hnodup, fun _ _ => List.not_mem_nil, rfl⟩, fun r hr => ?_, fun r hr => ?_⟩
    · rw [List.append_nil] at hr
      exact (hsame r).mp (List.mem_reverse.mp hr)
    · rw [List.append_nil]
      exact List.mem_reverse.mpr ((hsame r).mpr hr)

/-! ## The conflicts of an inspection -/

variable {X : Crates} {map : List (DocumentId × DocumentId)} {others : List Conflict}

theorem conflictCandidates_eq_ok (hw : DocumentsKeyed w) {e : DocumentId × Document}
    (he : e ∈ w.documents) {c : Conflict} {linkId : LinkId} {rawTarget : String}
    {candidates : List DocumentId} :
    conflictCandidates w c e.2.documentId linkId rawTarget = .ok candidates ↔
      ∃ link, e.2.links.find? (fun link => link.linkId = linkId ∧ link.rawTarget = rawTarget) =
        some link ∧ link.candidates = some candidates := by
  unfold conflictCandidates
  rw [hw.key e he, get?_of_mem hw.sorted.nodup he]
  dsimp only
  cases hfind : e.2.links.find? fun link =>
      link.linkId = linkId ∧ link.rawTarget = rawTarget with
  | none => simp
  | some link =>
    dsimp only
    cases hcandidates : link.candidates with
    | none => simp [hcandidates]
    | some found => simp [hcandidates]

theorem conflictTargets_eq_ok (hw : Sorted w.canvases) {e : CanvasId × Canvas}
    (he : e ∈ w.canvases) (hid : e.1 = e.2.canvasId) {c : Conflict} {nodeId rawPath : String}
    {found : CanvasFileReference × List CanvasReferenceTarget} :
    conflictTargets w c e.2.canvasId nodeId rawPath = .ok found ↔
      e.2.fileReferences.find? (fun r => r.nodeId = nodeId ∧ r.rawPath = rawPath) =
        some found.1 ∧ found.1.candidates = some found.2 := by
  unfold conflictTargets
  rw [← hid, get?_of_mem hw.nodup he]
  dsimp only
  cases hfind : e.2.fileReferences.find? fun r => r.nodeId = nodeId ∧ r.rawPath = rawPath with
  | none => simp
  | some reference =>
    dsimp only
    cases hcandidates : reference.candidates with
    | none =>
      simp only [reduceCtorEq, Option.some.injEq, false_iff, not_and]
      rintro rfl
      simp [hcandidates]
    | some candidates =>
      simp only [Except.ok.injEq, Option.some.injEq, Prod.ext_iff]
      constructor
      · rintro ⟨rfl, rfl⟩
        exact ⟨rfl, hcandidates⟩
      · rintro ⟨rfl, h⟩
        exact ⟨rfl, Option.some.inj (hcandidates.symm.trans h)⟩

/-- What a conflict of an inspection is about. -/
inductive About (X : Crates) (map : List (DocumentId × DocumentId)) (w : CanonicalWorkspace) :
    Conflict → Prop
  | link {e : DocumentId × Document} {link : DocumentLink} {candidates : List DocumentId}
      (he : e ∈ w.documents) (hlink : link ∈ e.2.links) (h : link.candidates = some candidates) :
      About X map w (linkConflict X map e.2.documentId link.linkId link.rawTarget candidates)
  | reference {e : CanvasId × Canvas} {r : CanvasFileReference}
      {candidates : List CanvasReferenceTarget} (he : e ∈ w.canvases)
      (hr : r ∈ e.2.fileReferences) (h : r.candidates = some candidates) :
      About X map w (referenceConflict X e.2.canvasId r.nodeId r.rawPath candidates)
  | neither {c : Conflict} (h : c.subject = none) : About X map w c

/-- The conflicts about the links and the references of a workspace. -/
def ambiguityReports (X : Crates) (map : List (DocumentId × DocumentId)) (w : CanonicalWorkspace) :
    List Conflict :=
  (w.documents.flatMap fun e => e.2.links.flatMap (linkConflicts X map e.2)) ++
    w.canvases.flatMap fun e => e.2.fileReferences.flatMap (referenceConflicts X e.2)

/-- The conflicts are the reports, and others about neither a link nor a reference. -/
structure Reported (X : Crates) (map : List (DocumentId × DocumentId)) (w : CanonicalWorkspace)
    (others conflicts : List Conflict) : Prop where
  perm : conflicts.Perm (others ++ ambiguityReports X map w)
  others : ∀ c ∈ others, c.subject = none
  nodup : conflicts.Nodup

theorem Reported.link (h : Reported X map w others conflicts) {e : DocumentId × Document}
    (he : e ∈ w.documents) {link : DocumentLink} (hlink : link ∈ e.2.links)
    {candidates : List DocumentId} (hcandidates : link.candidates = some candidates) :
    linkConflict X map e.2.documentId link.linkId link.rawTarget candidates ∈ conflicts := by
  refine h.perm.mem_iff.mpr (List.mem_append_right _ (List.mem_append_left _ ?_))
  refine List.mem_flatMap.mpr ⟨e, he, List.mem_flatMap.mpr ⟨link, hlink, ?_⟩⟩
  rw [linkConflicts, hcandidates]
  exact List.mem_singleton_self _

theorem Reported.reference (h : Reported X map w others conflicts) {e : CanvasId × Canvas}
    (he : e ∈ w.canvases) {r : CanvasFileReference} (hr : r ∈ e.2.fileReferences)
    {candidates : List CanvasReferenceTarget} (hcandidates : r.candidates = some candidates) :
    referenceConflict X e.2.canvasId r.nodeId r.rawPath candidates ∈ conflicts := by
  refine h.perm.mem_iff.mpr (List.mem_append_right _ (List.mem_append_right _ ?_))
  refine List.mem_flatMap.mpr ⟨e, he, List.mem_flatMap.mpr ⟨r, hr, ?_⟩⟩
  rw [referenceConflicts, hcandidates]
  exact List.mem_singleton_self _

theorem Reported.about (h : Reported X map w others conflicts) {c : Conflict}
    (hc : c ∈ conflicts) : About X map w c := by
  rcases List.mem_append.mp (h.perm.mem_iff.mp hc) with hother | hreport
  · exact .neither (h.others c hother)
  · rcases List.mem_append.mp hreport with hlinks | hreferences
    · obtain ⟨e, he, hc⟩ := List.mem_flatMap.mp hlinks
      obtain ⟨link, hlink, hc⟩ := List.mem_flatMap.mp hc
      obtain ⟨candidates, hcandidates, rfl⟩ := List.mem_map.mp hc
      exact .link he hlink (Option.mem_toList.mp hcandidates)
    · obtain ⟨e, he, hc⟩ := List.mem_flatMap.mp hreferences
      obtain ⟨r, hr, hc⟩ := List.mem_flatMap.mp hc
      obtain ⟨candidates, hcandidates, rfl⟩ := List.mem_map.mp hc
      exact .reference he hr (Option.mem_toList.mp hcandidates)

/-- Two links of a note are not reported by one conflict. -/
theorem Reported.disjoint (h : Reported X map w others conflicts) {e : DocumentId × Document}
    (he : e ∈ w.documents) {link link' : DocumentLink} (hlink : link ∈ e.2.links)
    (hlink' : link' ∈ e.2.links) (hne : link ≠ link') :
    List.Disjoint (linkConflicts X map e.2 link) (linkConflicts X map e.2 link') := by
  have hreports := (List.nodup_append.mp (h.perm.nodup_iff.mp h.nodup)).2.1
  have hnote := (List.nodup_flatMap.mp (List.nodup_append.mp hreports).1).1 e he
  have hpairs := (List.nodup_flatMap.mp hnote).2
  have hsymm : Std.Symm (Function.onFun List.Disjoint (linkConflicts X map e.2)) :=
    ⟨fun _ _ hdisjoint => List.Disjoint.symm hdisjoint⟩
  exact hpairs.forall hlink hlink' hne

/-- A link that the lookup finds is read from its conflict. -/
theorem linkRecord_of_found (hw : DocumentsKeyed w) {e : DocumentId × Document}
    (he : e ∈ w.documents) {link : DocumentLink}
    (hfind : e.2.links.find? (fun other =>
      other.linkId = link.linkId ∧ other.rawTarget = link.rawTarget) = some link)
    {candidates : List DocumentId} (h : link.candidates = some candidates) :
    linkRecord w exactGroups
        (linkConflict X map e.2.documentId link.linkId link.rawTarget candidates) =
      some (linkAmbiguity w exactGroups e.2.documentId link.linkId link.rawTarget candidates) := by
  have hread := (conflictCandidates_eq_ok hw he
    (c := linkConflict X map e.2.documentId link.linkId link.rawTarget candidates)).mpr
    ⟨link, hfind, h⟩
  show Option.map _ (conflictCandidates w _ e.2.documentId link.linkId link.rawTarget).toOption = _
  rw [hread]
  rfl

theorem linkRecord_of_none {c : Conflict} (h : c.subject = none) :
    linkRecord w exactGroups c = none := by
  unfold linkRecord
  rw [h]

theorem referenceRecord_of_none {c : Conflict} (h : c.subject = none) :
    referenceRecord w c = none := by
  unfold referenceRecord
  rw [h]

/-- No conflict about a reference is read as one about a link. -/
theorem linkRecord_referenceConflict {canvasId : CanvasId} {nodeId rawPath : String}
    {candidates : List CanvasReferenceTarget} :
    linkRecord w exactGroups (referenceConflict X canvasId nodeId rawPath candidates) = none := rfl

theorem referenceRecord_linkConflict {documentId : DocumentId} {linkId : LinkId}
    {rawTarget : String} {candidates : List DocumentId} :
    referenceRecord w (linkConflict X map documentId linkId rawTarget candidates) = none := rfl

/-- **The reports about links are accepted exactly when the lookup finds the links.** -/
theorem markdownCoverage_reported_iff (hw : DocumentsKeyed w)
    (hmap : map = representativeMap w exactGroups) (h : Reported X map w others conflicts) :
    validateMarkdownConflictCoverage w exactGroups conflicts = .ok () ↔ LinksFound w := by
  subst hmap
  rw [markdownCoverage_iff]
  constructor
  · rintro ⟨hread, -, -⟩ e he link hlink hambiguous
    obtain ⟨candidates, hcandidates⟩ := Option.isSome_iff_exists.mp hambiguous
    have hmem := h.link he hlink hcandidates
    obtain ⟨candidates', hlookup, hconflict⟩ := hread _ hmem _ _ _ rfl
    obtain ⟨found, hfind, hfound⟩ := (conflictCandidates_eq_ok hw he).mp hlookup
    by_cases hsame : found = link
    · rw [← hsame] at hfind ⊢
      exact hfind
    · -- the link that is found has a conflict of its own, which is the same
      exfalso
      obtain ⟨hid, hraw⟩ : found.linkId = link.linkId ∧ found.rawTarget = link.rawTarget := by
        simpa using List.find?_some hfind
      have hdocuments := hconflict.documents
      have heq : linkConflict X (representativeMap w exactGroups) e.2.documentId link.linkId
            link.rawTarget candidates =
          linkConflict X (representativeMap w exactGroups) e.2.documentId found.linkId
            found.rawTarget candidates' := by
        rw [← hid, ← hraw]
        unfold linkConflict conflictWithSubject
        unfold linkConflict conflictWithSubject linkAmbiguity at hdocuments
        dsimp only at hdocuments
        rw [hdocuments]
      have hfirst : linkConflict X (representativeMap w exactGroups) e.2.documentId link.linkId
            link.rawTarget candidates ∈
          linkConflicts X (representativeMap w exactGroups) e.2 found := by
        rw [heq, linkConflicts, hfound]
        exact List.mem_singleton_self _
      refine h.disjoint he (List.mem_of_find?_eq_some hfind) hlink hsame hfirst ?_
      rw [linkConflicts, hcandidates]
      exact List.mem_singleton_self _
  · intro hfound
    have hlinks : ∀ {e link candidates}, e ∈ w.documents → link ∈ e.2.links →
        link.candidates = some candidates →
        linkRecord w exactGroups
            (linkConflict X (representativeMap w exactGroups) e.2.documentId link.linkId
              link.rawTarget candidates) =
          some (linkAmbiguity w exactGroups e.2.documentId link.linkId link.rawTarget candidates) :=
      fun he hlink hcandidates => linkRecord_of_found hw he
        (hfound _ he _ hlink (Option.isSome_iff_exists.mpr ⟨_, hcandidates⟩)) hcandidates
    have hback : ∀ c ∈ conflicts, ∀ r ∈ linkRecord w exactGroups c,
        linkConflict X (representativeMap w exactGroups) r.documentId r.linkId r.rawTarget
          r.candidates = c := by
      intro c hc r hr
      cases h.about hc with
      | link he hlink hcandidates =>
        rw [hlinks he hlink hcandidates] at hr
        obtain rfl := Option.some.inj hr
        rfl
      | reference he href hcandidates =>
        rw [linkRecord_referenceConflict] at hr
        cases hr
      | neither hnone =>
        rw [linkRecord_of_none hnone] at hr
        cases hr
    refine ⟨fun c hc => ?_, nodup_filterMap h.nodup hback, fun r => ?_⟩
    · intro documentId linkId rawTarget hsubject
      cases h.about hc with
      | @link e link candidates he hlink hcandidates =>
        obtain ⟨rfl, rfl, rfl⟩ := ConflictSubject.markdownLink.inj (Option.some.inj hsubject)
        have hfind := hfound e he link hlink (Option.isSome_iff_exists.mpr ⟨_, hcandidates⟩)
        exact ⟨candidates, (conflictCandidates_eq_ok hw he).mpr ⟨link, hfind, hcandidates⟩,
          ⟨rfl, rfl, rfl, rfl, rfl, rfl⟩⟩
      | reference he hr h => cases hsubject
      | neither hnone =>
        rw [hnone] at hsubject
        cases hsubject
    · unfold expectedLinkAmbiguities
      simp only [List.mem_filterMap, List.mem_flatMap, Option.map_eq_some_iff]
      constructor
      · rintro ⟨c, hc, hr⟩
        cases h.about hc with
        | @link e link candidates he hlink hcandidates =>
          rw [hlinks he hlink hcandidates] at hr
          exact ⟨e, he, link, hlink, candidates, hcandidates, Option.some.inj hr⟩
        | reference he href hcandidates =>
          rw [linkRecord_referenceConflict] at hr
          cases hr
        | neither hnone =>
          rw [linkRecord_of_none hnone] at hr
          cases hr
      · rintro ⟨e, he, link, hlink, candidates, hcandidates, rfl⟩
        exact ⟨_, h.link he hlink hcandidates, hlinks he hlink hcandidates⟩

/-- A node of a canvas is looked up by its identity. -/
theorem referenceRecord_of_nodes (hsorted : Sorted w.canvases)
    (hids : ∀ e ∈ w.canvases, e.1 = e.2.canvasId)
    (hnodes : ∀ e ∈ w.canvases, (e.2.fileReferences.map CanvasFileReference.nodeId).Nodup)
    {e : CanvasId × Canvas} (he : e ∈ w.canvases) {r : CanvasFileReference}
    (hr : r ∈ e.2.fileReferences) {candidates : List CanvasReferenceTarget}
    (h : r.candidates = some candidates) {c : Conflict} :
    conflictTargets w c e.2.canvasId r.nodeId r.rawPath = .ok (r, candidates) := by
  refine (conflictTargets_eq_ok hsorted he (hids e he)).mpr ⟨?_, h⟩
  refine find?_of_unique hr (decide_eq_true ⟨rfl, rfl⟩) fun other hother hsame => ?_
  exact List.inj_on_of_nodup_map (hnodes e he) hother hr (of_decide_eq_true hsame).1

/-- **The reports about references are accepted.** -/
theorem canvasCoverage_reported (hsorted : Sorted w.canvases)
    (hids : ∀ e ∈ w.canvases, e.1 = e.2.canvasId)
    (hnodes : ∀ e ∈ w.canvases, (e.2.fileReferences.map CanvasFileReference.nodeId).Nodup)
    (h : Reported X map w others conflicts) :
    validateCanvasConflictCoverage w conflicts = .ok () := by
  have hreferences : ∀ {e r candidates}, e ∈ w.canvases → r ∈ e.2.fileReferences →
      r.candidates = some candidates →
      referenceRecord w (referenceConflict X e.2.canvasId r.nodeId r.rawPath candidates) =
        some ⟨e.2.canvasId, r.nodeId, r.rawPath, candidates⟩ := by
    intro e r candidates he hr hcandidates
    have hread := @referenceRecord_of_nodes w hsorted hids hnodes e he r hr candidates hcandidates
      (referenceConflict X e.2.canvasId r.nodeId r.rawPath candidates)
    show Option.map _ (conflictTargets w _ e.2.canvasId r.nodeId r.rawPath).toOption = _
    rw [hread]
    rfl
  have hback : ∀ c ∈ conflicts, ∀ r ∈ referenceRecord w c,
      referenceConflict X r.canvasId r.nodeId r.rawPath r.candidates = c := by
    intro c hc r hr
    cases h.about hc with
    | link he hlink hcandidates =>
      rw [referenceRecord_linkConflict] at hr
      cases hr
    | reference he href hcandidates =>
      rw [hreferences he href hcandidates] at hr
      obtain rfl := Option.some.inj hr
      rfl
    | neither hnone =>
      rw [referenceRecord_of_none hnone] at hr
      cases hr
  refine canvasCoverage_iff.mpr ⟨fun c hc => ?_, nodup_filterMap h.nodup hback, fun r => ?_⟩
  · intro canvasId nodeId rawPath hsubject
    cases h.about hc with
    | link he hlink hcandidates => cases hsubject
    | @reference e r candidates he hr hcandidates =>
      obtain ⟨rfl, rfl, rfl⟩ := ConflictSubject.canvasReference.inj (Option.some.inj hsubject)
      exact ⟨(r, candidates), referenceRecord_of_nodes hsorted hids hnodes he hr hcandidates,
        ⟨rfl, rfl, rfl, rfl, rfl, rfl⟩⟩
    | neither hnone =>
      rw [hnone] at hsubject
      cases hsubject
  · unfold expectedReferenceAmbiguities
    simp only [List.mem_filterMap, List.mem_flatMap, Option.map_eq_some_iff]
    constructor
    · rintro ⟨c, hc, hr⟩
      cases h.about hc with
      | link he hlink hcandidates =>
        rw [referenceRecord_linkConflict] at hr
        cases hr
      | @reference e r candidates he href hcandidates =>
        rw [hreferences he href hcandidates] at hr
        exact ⟨e, he, r, href, candidates, hcandidates, Option.some.inj hr⟩
      | neither hnone =>
        rw [referenceRecord_of_none hnone] at hr
        cases hr
    · rintro ⟨e, he, r, hr, candidates, hcandidates, rfl⟩
      exact ⟨_, h.reference he hr hcandidates, hreferences he hr hcandidates⟩

end

end Okc.Core
