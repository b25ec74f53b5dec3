import Okc.Core.LinkTarget

/-!
# Relative targets (`plan.rs:3361-3417`)

A link names its target relative to the directory of the document it stands in. Where the target is
that directory itself, which a document of another source may be, nothing is left to write, and the
last component of the target is written instead.

* `resolve_relativeOutputTarget`: resolving the relative target gives the target back, except where
  it is the directory of the document.
-/

namespace Okc.Core

open Okc.Lib

/-! ## The two functions -/

/-- How many components two paths begin with in common. -/
def commonLength (xs ys : List String) : Nat :=
  ((xs.zip ys).takeWhile fun c => c.1 = c.2).length

/-- `relative_output_target`. -/
def relativeOutputTarget (origin target : String) : String :=
  let originParent := (splitSlash (parent origin)).filter fun part => part ≠ ""
  let targetParts := (splitSlash target).filter fun part => part ≠ ""
  let common := commonLength originParent targetParts
  let result := List.replicate (originParent.length - common) ".." ++ targetParts.drop common
  if result = [] then (fileName target).getD target else joinSlash result

/-- The loop of `resolve_contained_relative_path`. -/
def resolveComponents (parts : List String) : List String → Option (List String)
  | [] => some parts
  | component :: rest =>
    if component = "." then resolveComponents parts rest
    else if component = "" then none
    else if component = ".." then
      if parts = [] then none else resolveComponents parts.dropLast rest
    else resolveComponents (parts ++ [component]) rest

/-- A drive letter: two bytes, of which the second is a colon. -/
def hasDrivePrefix (target : String) : Bool :=
  match target.toList with
  | letter :: ':' :: _ => letter.isAlpha
  | _ => false

/-- `resolve_contained_relative_path`. -/
def resolveContainedRelativePath (current target : String) : Option String :=
  if target = "" ∨ target.toList.head? = some '/' ∨ '\\' ∈ target.toList ∨
      target.toList.any isControl ∨ hasDrivePrefix target then none
  else
    let parts := (splitSlash current).dropLast.filter fun component => component ≠ ""
    (resolveComponents parts (splitSlash target)).bind fun parts =>
      if parts = [] then none else some (joinSlash parts)

/-! ## Common prefixes -/

theorem take_commonLength : ∀ xs ys : List String,
    xs.take (commonLength xs ys) = ys.take (commonLength xs ys)
  | [], _ => by simp [commonLength]
  | _ :: _, [] => by simp [commonLength]
  | x :: xs, y :: ys => by
    by_cases h : x = y
    · have ih := take_commonLength xs ys
      simp only [commonLength, List.zip_cons_cons, List.takeWhile_cons, h, decide_true, if_true,
        List.length_cons, List.take_succ_cons] at ih ⊢
      rw [ih]
    · simp [commonLength, h]

theorem commonLength_le (xs ys : List String) :
    commonLength xs ys ≤ xs.length ∧ commonLength xs ys ≤ ys.length := by
  have hprefix : (xs.zip ys).takeWhile (fun c => decide (c.1 = c.2)) <+: xs.zip ys :=
    List.takeWhile_prefix _
  have h := hprefix.length_le
  rw [List.length_zip] at h
  exact ⟨h.trans (min_le_left _ _), h.trans (min_le_right _ _)⟩

theorem commonLength_self (xs : List String) : commonLength xs xs = xs.length := by
  induction xs with
  | nil => rfl
  | cons x xs ih => simpa [commonLength] using ih

/-! ## Resolving -/

theorem resolveComponents_up : ∀ (n : Nat) (parts rest : List String), n ≤ parts.length →
    resolveComponents parts (List.replicate n ".." ++ rest) =
      resolveComponents (parts.take (parts.length - n)) rest
  | 0, parts, rest, _ => by simp
  | n + 1, parts, rest, h => by
    have hne : parts ≠ [] := by
      rintro rfl
      simp at h
    have hup := resolveComponents_up n parts.dropLast rest (by rw [List.length_dropLast]; omega)
    rw [List.replicate_succ, List.cons_append, resolveComponents, if_neg (by decide),
      if_neg (by decide), if_pos rfl, if_neg hne, hup, List.length_dropLast, List.dropLast_eq_take,
      List.take_take]
    congr 2
    omega

theorem resolveComponents_names : ∀ (names parts : List String),
    (∀ c ∈ names, c ≠ "" ∧ c ≠ "." ∧ c ≠ "..") →
    resolveComponents parts names = some (parts ++ names)
  | [], parts, _ => by rw [resolveComponents, List.append_nil]
  | c :: names, parts, h => by
    obtain ⟨hempty, hdot, hup⟩ := h c List.mem_cons_self
    rw [resolveComponents, if_neg hdot, if_neg hempty, if_neg hup,
      resolveComponents_names names _ fun d hd => h d (List.mem_cons_of_mem _ hd),
      List.append_assoc, List.singleton_append]

/-! ## The round trip -/

/-- The components of an output path. -/
structure OutputParts (parts : List String) : Prop where
  ne_nil : parts ≠ []
  name : ∀ c ∈ parts, c ≠ "" ∧ c ≠ "." ∧ c ≠ ".."
  chars : ∀ c ∈ parts, ∀ x ∈ c.toList, forbiddenChar x = false

theorem outputParts_of_valid {X : Externals} {limits : PathLimits} {path : String}
    (h : validateOutputLogicalPath X limits path = .ok ()) : OutputParts (splitSlash path) := by
  obtain ⟨hwithin, -⟩ := validateOutputLogicalPath_eq_ok.mp h
  refine ⟨splitSlash_ne_nil path, fun c hc => validateComponent_nonempty (hwithin.component c hc).1,
    fun c hc x hx => ?_⟩
  have hvalid := (hwithin.component c hc).1
  simp only [validateComponent, bind_unit_eq_ok, reject_eq_ok, not_or, List.any_eq_true,
    not_exists, not_and, Bool.not_eq_true] at hvalid
  exact hvalid.1.2.2.2.2.2 x hx

theorem OutputParts.filter {parts : List String} (h : ∀ c ∈ parts, c ≠ "" ∧ c ≠ "." ∧ c ≠ "..") :
    (parts.filter fun part => decide (part ≠ "")) = parts :=
  List.filter_eq_self.mpr fun c hc => decide_eq_true (h c hc).1

/-- Names and steps up make up a target that can be resolved. -/
theorem resolve_joinSlash {current : String} {parts result : List String}
    (hcurrent : (splitSlash current).dropLast = parts)
    (hparts : ∀ c ∈ parts, c ≠ "" ∧ c ≠ "." ∧ c ≠ "..") (hne : result ≠ [])
    (hresult : ∀ c ∈ result, c ≠ "" ∧ ∀ x ∈ c.toList, forbiddenChar x = false) :
    resolveContainedRelativePath current (joinSlash result) =
      (resolveComponents parts result).bind fun parts =>
        if parts = [] then none else some (joinSlash parts) := by
  have hslash : ∀ c ∈ result, '/' ∉ c.toList := fun c hc hmem =>
    absurd ((hresult c hc).2 '/' hmem) (by decide)
  have hsplit := splitSlash_joinSlash hne hslash
  have hchars : ∀ x ∈ (joinSlash result).toList, x = '/' ∨ forbiddenChar x = false := by
    intro x hx
    by_cases hxs : x = '/'
    · exact Or.inl hxs
    · obtain ⟨c, hc, hxc⟩ := mem_splitSlash_of_mem hx hxs
      rw [hsplit] at hc
      exact Or.inr ((hresult c hc).2 x hxc)
  have hclear : ∀ x, x ≠ '/' → forbiddenChar x = true → x ∉ (joinSlash result).toList := by
    intro x hne hbad hmem
    rcases hchars x hmem with h | h
    · exact hne h
    · rw [hbad] at h
      cases h
  have hcontrol : (joinSlash result).toList.any isControl = false := by
    rw [List.any_eq_false]
    intro x hx hctl
    rcases hchars x hx with rfl | h
    · exact absurd hctl (by decide)
    · simp only [forbiddenChar, hctl, Bool.or_true, Bool.true_or] at h
      cases h
  have hdrive : hasDrivePrefix (joinSlash result) = false := by
    unfold hasDrivePrefix
    split
    · next letter rest heq =>
      have hcolon : ':' ∈ (joinSlash result).toList := by
        rw [heq]
        exact List.mem_cons_of_mem _ List.mem_cons_self
      exact absurd hcolon (hclear ':' (by decide) (by decide))
    · rfl
  have hempty : joinSlash result ≠ "" := by
    intro he
    rw [he] at hsplit
    rw [← hsplit] at hresult
    exact (hresult "" (by decide)).1 rfl
  have hhead : (joinSlash result).toList.head? ≠ some '/' := by
    refine head?_of_splitSlash fun c hc => ?_
    rw [hsplit] at hc
    exact ⟨(hresult c hc).1, hslash c hc⟩
  rw [resolveContainedRelativePath, if_neg, hsplit, hcurrent, OutputParts.filter hparts]
  rw [not_or, not_or, not_or, not_or]
  exact ⟨hempty, hhead, hclear '\\' (by decide) (by decide), by simp [hcontrol], by simp [hdrive]⟩

/-- **Resolving the relative target gives the target back, except where it is the directory of the
document.** -/
theorem resolve_relativeOutputTarget {X : Externals} {limits : PathLimits} {origin target : String}
    (horigin : validateOutputLogicalPath X limits origin = .ok ())
    (htarget : validateOutputLogicalPath X limits target = .ok ()) :
    resolveContainedRelativePath origin (relativeOutputTarget origin target) = some target ↔
      splitSlash target ≠ (splitSlash origin).dropLast := by
  have hO := outputParts_of_valid horigin
  have hT := outputParts_of_valid htarget
  obtain ⟨dir, hdir⟩ : ∃ dir, (splitSlash origin).dropLast = dir := ⟨_, rfl⟩
  obtain ⟨names, hnames⟩ : ∃ names, splitSlash target = names := ⟨_, rfl⟩
  rw [hnames] at hT
  have hjoin : joinSlash names = target := by rw [← hnames, joinSlash_splitSlash]
  have hdirNames : ∀ c ∈ dir, c ≠ "" ∧ c ≠ "." ∧ c ≠ ".." := fun c hc =>
    hO.name c (List.mem_of_mem_dropLast (hdir ▸ hc))
  have hdirChars : ∀ c ∈ dir, '/' ∉ c.toList := fun c hc hmem =>
    absurd (hO.chars c (List.mem_of_mem_dropLast (hdir ▸ hc)) '/' hmem) (by decide)
  have horiginParts : pathParts origin = splitSlash origin :=
    pathParts_eq_self fun c hc => ⟨(hO.name c hc).1, (hO.name c hc).2.1⟩
  have hparent : (splitSlash (parent origin)).filter (fun part => decide (part ≠ "")) = dir := by
    rw [parent, horiginParts, hdir]
    by_cases hnil : dir = []
    · subst hnil
      decide
    · rw [splitSlash_joinSlash hnil hdirChars, OutputParts.filter hdirNames]
  obtain ⟨common, hcommon⟩ : ∃ n, commonLength dir names = n := ⟨_, rfl⟩
  have htake := take_commonLength dir names
  obtain ⟨hdirLe, hnamesLe⟩ := commonLength_le dir names
  rw [hcommon] at htake hdirLe hnamesLe
  unfold relativeOutputTarget
  simp only [hparent, hnames, OutputParts.filter hT.name, hcommon, hdir]
  by_cases hresult : List.replicate (dir.length - common) ".." ++ names.drop common = []
  · -- all of the target is the directory: its last name is written, and read as one below it
    obtain ⟨hups, hrest⟩ := List.append_eq_nil_iff.mp hresult
    have hlen : dir.length = common ∧ names.length = common := by
      have hup := congrArg List.length hups
      have hdrop := congrArg List.length hrest
      rw [List.length_replicate, List.length_nil] at hup
      rw [List.length_drop, List.length_nil] at hdrop
      omega
    have heq : names = dir := by
      rw [← hlen.1, List.take_length, hlen.1, ← hlen.2, List.take_length] at htake
      exact htake.symm
    refine iff_of_false ?_ (not_not.mpr heq)
    have hlast : fileName target = some (names.getLast hT.ne_nil) := by
      have hmem := List.getLast_mem hT.ne_nil
      rw [fileName, pathParts_eq_self fun c hc =>
        ⟨(hT.name c (hnames ▸ hc)).1, (hT.name c (hnames ▸ hc)).2.1⟩, hnames,
        List.getLast?_eq_getLast_of_ne_nil hT.ne_nil]
      exact Option.filter_some_pos (by simpa using (hT.name _ hmem).2.2)
    have hmem := List.getLast_mem hT.ne_nil
    rw [if_pos hresult, hlast, Option.getD_some, ← joinSlash_singleton (names.getLast hT.ne_nil),
      resolve_joinSlash hdir hdirNames (List.cons_ne_nil _ _)
        (by simpa using ⟨(hT.name _ hmem).1, hT.chars _ hmem⟩),
      resolveComponents_names _ _ (by simpa using hT.name _ hmem), Option.bind_some,
      if_neg (by simp)]
    intro h
    have hlonger := congrArg (List.length ∘ splitSlash) (Option.some.inj h)
    simp only [Function.comp_apply] at hlonger
    rw [splitSlash_joinSlash (by simp) (fun c hc => ?_), hnames, List.length_append,
      List.length_singleton, hlen.1, hlen.2] at hlonger
    · omega
    · rcases List.mem_append.mp hc with hc | hc
      · exact hdirChars c hc
      · rw [List.mem_singleton.mp hc]
        exact fun hslash => absurd (hT.chars _ hmem '/' hslash) (by decide)
  · have hne : names ≠ dir := by
      rintro rfl
      rw [commonLength_self] at hcommon
      exact hresult (by simp [← hcommon])
    refine iff_of_true ?_ hne
    have hdropNames : ∀ c ∈ names.drop common, c ≠ "" ∧ c ≠ "." ∧ c ≠ ".." := fun c hc =>
      hT.name c (List.mem_of_mem_drop hc)
    have hparts : ∀ c ∈ List.replicate (dir.length - common) ".." ++ names.drop common,
        c ≠ "" ∧ ∀ x ∈ c.toList, forbiddenChar x = false := by
      intro c hc
      rcases List.mem_append.mp hc with hc | hc
      · rw [(List.mem_replicate.mp hc).2]
        refine ⟨by decide, fun x hx => ?_⟩
        obtain rfl : x = '.' := by simpa using hx
        decide
      · exact ⟨(hdropNames c hc).1, hT.chars c (List.mem_of_mem_drop hc)⟩
    rw [if_neg hresult, resolve_joinSlash hdir hdirNames hresult hparts,
      resolveComponents_up _ _ _ (Nat.sub_le _ _), resolveComponents_names _ _ hdropNames,
      Nat.sub_sub_self hdirLe, htake, List.take_append_drop, Option.bind_some, if_neg hT.ne_nil,
      hjoin]

theorem resolve_relativeOutputTarget_sibling :
    resolveContainedRelativePath "knowledge/a/A.md"
        (relativeOutputTarget "knowledge/a/A.md" "knowledge/b/B.md") = some "knowledge/b/B.md" ↔
      splitSlash "knowledge/b/B.md" ≠ (splitSlash "knowledge/a/A.md").dropLast :=
  @resolve_relativeOutputTarget (plainExternals prefixHash) .default _ _
    (by decide +kernel) (by decide +kernel)

/-- One source has the note `a.md`, the other a directory of that name. -/
def directoryWorkspace : CanonicalWorkspace where
  documents := [plainNote "first" "a.md" 1, plainNote "second" "a.md/b.md" 2].map fun d =>
    (d.documentId, d)
  canvases := []
  assets := []
  bases := []

/-- A link from the second note to the first comes out as a link to `knowledge/a.md/a.md`. -/
theorem directory_target_lost :
    (allocateDocumentPaths (plainCrates (plainExternals prefixHash)) .default directoryWorkspace
        (representativeMap directoryWorkspace [])).map Prod.fst =
      .ok [(⟨indexHash 1⟩, "knowledge/a.md"), (⟨indexHash 2⟩, "knowledge/a.md/b.md")] ∧
    relativeOutputTarget "knowledge/a.md/b.md" "knowledge/a.md" = "a.md" ∧
    resolveContainedRelativePath "knowledge/a.md/b.md"
      (relativeOutputTarget "knowledge/a.md/b.md" "knowledge/a.md") ≠ some "knowledge/a.md" := by
  refine ⟨?_, by decide +kernel, by decide +kernel⟩
  have hids : (representativeMap directoryWorkspace []).map Prod.snd =
      [⟨indexHash 1⟩, ⟨indexHash 2⟩] := by decide +kernel
  have hset : sortedSet [(⟨indexHash 1⟩ : DocumentId), ⟨indexHash 2⟩] =
      [⟨indexHash 1⟩, ⟨indexHash 2⟩] := sortedSet_eq_self (by decide +kernel)
  have horder : allocationOrder (plainExternals prefixHash) directoryWorkspace
      (representativeMap directoryWorkspace []) =
        [plainNote "first" "a.md" 1, plainNote "second" "a.md/b.md" 2] := by
    rw [allocationOrder, hids, hset]
    exact List.mergeSort_of_pairwise (by decide +kernel)
  have hloop : (allocateDocuments (plainCrates (plainExternals prefixHash)) .default
      [plainNote "first" "a.md" 1, plainNote "second" "a.md/b.md" 2]).map
        DocumentAllocation.output =
      .ok [(⟨indexHash 1⟩, "knowledge/a.md"), (⟨indexHash 2⟩, "knowledge/a.md/b.md")] := by
    decide +kernel
  unfold allocateDocumentPaths
  rw [show (plainCrates (plainExternals prefixHash)).toExternals = plainExternals prefixHash from rfl,
    horder]
  cases hs : allocateDocuments (plainCrates (plainExternals prefixHash)) .default
      [plainNote "first" "a.md" 1, plainNote "second" "a.md/b.md" 2] with
  | error e =>
    rw [hs] at hloop
    cases hloop
  | ok s =>
    rw [hs] at hloop
    exact hloop

end Okc.Core
