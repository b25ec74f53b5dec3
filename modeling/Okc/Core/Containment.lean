import Okc.Core.Resolution

/-!
# Two resolvers of relative targets (`plan.rs:2368-2404`, `plan.rs:3337-3390`)

Links are looked up by the lenient `resolve_relative_source_path`. A target that nothing is found
for is kept when the strict `resolve_contained_relative_path` resolves it inside the vault.

* `relativeComponents_of_contained`: the loops agree where the strict one succeeds.
* `resolve_contained_spec`: what the strict resolver gives is a path of names, and the lenient one
  gives the same.
-/

namespace Okc.Core

open Okc.Lib

/-- A component of a canonical path. -/
structure PlainName (component : String) : Prop where
  nonempty : component ≠ ""
  dot : component ≠ "."
  dotDot : component ≠ ".."

instance (component : String) : Decidable (PlainName component) :=
  decidable_of_iff (component ≠ "" ∧ component ≠ "." ∧ component ≠ "..")
    ⟨fun h => ⟨h.1, h.2.1, h.2.2⟩, fun h => ⟨h.nonempty, h.dot, h.dotDot⟩⟩

/-- A relative path that is spelled canonically. -/
def CanonicalPath (path : String) : Prop := ∀ c ∈ splitSlash path, PlainName c

instance (path : String) : Decidable (CanonicalPath path) :=
  inferInstanceAs (Decidable (∀ c ∈ splitSlash path, PlainName c))

/-- Where the strict loop succeeds, the lenient one does the same, and only names are pushed. -/
theorem relativeComponents_of_contained {components parts resolved : List String}
    (h : resolveComponents parts components = some resolved)
    (hparts : ∀ c ∈ parts, PlainName c ∧ '/' ∉ c.toList)
    (hslash : ∀ c ∈ components, '/' ∉ c.toList) :
    relativeComponents parts components = some resolved ∧
      ∀ c ∈ resolved, PlainName c ∧ '/' ∉ c.toList := by
  induction components generalizing parts with
  | nil =>
    obtain rfl := Option.some.inj h
    exact ⟨rfl, hparts⟩
  | cons component rest ih =>
    have hrest : ∀ c ∈ rest, '/' ∉ c.toList := fun c hc => hslash c (List.mem_cons_of_mem _ hc)
    rw [resolveComponents] at h
    by_cases hdot : component = "."
    · rw [if_pos hdot] at h
      rw [relativeComponents, if_pos (Or.inr hdot)]
      exact ih h hparts hrest
    rw [if_neg hdot] at h
    by_cases hempty : component = ""
    · rw [if_pos hempty] at h
      cases h
    rw [if_neg hempty] at h
    rw [relativeComponents, if_neg (not_or.mpr ⟨hempty, hdot⟩)]
    by_cases hup : component = ".."
    · rw [if_pos hup] at h ⊢
      by_cases hnil : parts = []
      · rw [if_pos hnil] at h
        cases h
      · rw [if_neg hnil] at h ⊢
        exact ih h (fun c hc => hparts c (List.mem_of_mem_dropLast hc)) hrest
    · rw [if_neg hup] at h ⊢
      refine ih h (fun c hc => ?_) hrest
      rcases List.mem_append.mp hc with hc | hc
      · exact hparts c hc
      · obtain rfl := List.mem_singleton.mp hc
        exact ⟨⟨hempty, hdot, hup⟩, hslash _ List.mem_cons_self⟩

theorem slashed_eq_self {cs : List Char} (h : '\\' ∉ cs) : slashed cs = cs := by
  unfold slashed
  refine (List.map_congr_left fun c hc => ?_).trans (List.map_id cs)
  refine if_neg fun he => h ?_
  rwa [he] at hc

theorem dropWhile_slash_eq_self {cs : List Char} (h : cs.head? ≠ some '/') :
    cs.dropWhile (· = '/') = cs := by
  cases cs with
  | nil => rfl
  | cons c cs =>
    refine List.dropWhile_cons_of_neg ?_
    simpa using h

/-- The directory of a canonical path, read by either resolver. -/
theorem CanonicalPath.directory {current : String} (h : CanonicalPath current) :
    ((splitSlash current).dropLast.filter fun component => decide (component ≠ "")) =
        (splitSlash current).dropLast ∧
      ((splitSlash (parent current)).filter fun part => decide (part ≠ "")) =
        (splitSlash current).dropLast := by
  have hnames : ∀ c ∈ (splitSlash current).dropLast, c ≠ "" ∧ c ≠ "." ∧ c ≠ ".." := fun c hc =>
    have hname := h c (List.mem_of_mem_dropLast hc)
    ⟨hname.nonempty, hname.dot, hname.dotDot⟩
  refine ⟨OutputParts.filter hnames, ?_⟩
  rw [parent, pathParts_eq_self fun c hc => ⟨(h c hc).nonempty, (h c hc).dot⟩]
  by_cases hnil : (splitSlash current).dropLast = []
  · rw [hnil]
    decide
  · rw [splitSlash_joinSlash hnil fun c hc =>
      slash_not_mem_of_mem_splitSlash (List.mem_of_mem_dropLast hc), OutputParts.filter hnames]

/-- **A target the strict resolver takes is resolved to a path of names, and the lenient resolver
gives the same path.** -/
theorem resolve_contained_spec {current : String} (hcurrent : CanonicalPath current)
    (target : String) {p : String} (h : resolveContainedRelativePath current target = some p) :
    p ≠ "" ∧ CanonicalPath p ∧ resolveRelativeSourcePath current target = some p := by
  obtain ⟨hstrict, hlenient⟩ := hcurrent.directory
  unfold resolveContainedRelativePath at h
  split_ifs at h with hbad
  simp only [not_or] at hbad
  obtain ⟨-, hhead, hbackslash, -, -⟩ := hbad
  rw [hstrict] at h
  obtain ⟨parts, hresolve, hp⟩ := Option.bind_eq_some_iff.mp h
  split_ifs at hp with hne
  obtain rfl := Option.some.inj hp
  obtain ⟨hrelative, hnames⟩ := relativeComponents_of_contained hresolve
    (fun c hc => ⟨hcurrent c (List.mem_of_mem_dropLast hc),
      slash_not_mem_of_mem_splitSlash (List.mem_of_mem_dropLast hc)⟩)
    fun c hc => slash_not_mem_of_mem_splitSlash hc
  have hsplit : splitSlash (joinSlash parts) = parts :=
    splitSlash_joinSlash hne fun c hc => (hnames c hc).2
  have hcanonical : CanonicalPath (joinSlash parts) := fun c hc => (hnames c (hsplit ▸ hc)).1
  refine ⟨fun hempty => ?_, hcanonical, ?_⟩
  · exact (hcanonical "" (by rw [hempty]; decide)).nonempty rfl
  · unfold resolveRelativeSourcePath
    rw [if_neg hhead, hlenient, dropWhile_slash_eq_self hhead, slashed_eq_self hbackslash,
      String.ofList_toList]
    show (relativeComponents _ _).map joinSlash = _
    rw [hrelative]
    rfl

theorem contained_of_preserved_canvas {destination rawPath sourcePath nodeId : String}
    (h : ensurePreservedCanvasTargetIsContained destination rawPath sourcePath nodeId = .ok ()) :
    ∃ p, resolveContainedRelativePath sourcePath rawPath = some p := by
  simp only [ensurePreservedCanvasTargetIsContained, reject_eq_ok, not_or] at h
  exact Option.ne_none_iff_exists'.mp h.1

theorem contained_of_preserved_markdown {sourcePath destination decodedPath rawTarget : String}
    (h : ensurePreservedMarkdownTargetIsContained sourcePath destination decodedPath rawTarget =
      .ok ()) : ∃ p, resolveContainedRelativePath sourcePath decodedPath = some p := by
  simp only [ensurePreservedMarkdownTargetIsContained, reject_eq_ok, not_or] at h
  exact Option.ne_none_iff_exists'.mp h.1

/-- **A target that is judged safe to preserve is the one that was looked up**: what the strict
resolver gives is a path of names, the lenient one gives the same, and both checks of a preserved
target ask the strict one. -/
theorem contained_target_looked_up {current : String} (hcurrent : CanonicalPath current)
    (target : String) :
    (∀ p, resolveContainedRelativePath current target = some p →
      p ≠ "" ∧ CanonicalPath p ∧ resolveRelativeSourcePath current target = some p) ∧
    (∀ destination nodeId,
      ensurePreservedCanvasTargetIsContained destination target current nodeId = .ok () →
        ∃ p, resolveContainedRelativePath current target = some p ∧
          resolveRelativeSourcePath current target = some p) ∧
    ∀ destination rawTarget,
      ensurePreservedMarkdownTargetIsContained current destination target rawTarget = .ok () →
        ∃ p, resolveContainedRelativePath current target = some p ∧
          resolveRelativeSourcePath current target = some p := by
  have hspec := fun p => @resolve_contained_spec current hcurrent target p
  refine ⟨hspec, fun destination nodeId h => ?_, fun destination rawTarget h => ?_⟩
  · obtain ⟨p, hp⟩ := contained_of_preserved_canvas h
    exact ⟨p, hp, (hspec p hp).2.2⟩
  · obtain ⟨p, hp⟩ := contained_of_preserved_markdown h
    exact ⟨p, hp, (hspec p hp).2.2⟩

/-- The theorem at work on a target in another directory. -/
theorem contained_target_looked_up_image :
    resolveRelativeSourcePath "notes/2024/plan.md" "../img/./map.png" = some "notes/img/map.png" :=
  ((contained_target_looked_up (by decide) "../img/./map.png").1 "notes/img/map.png"
    (by decide)).2.2

end Okc.Core
