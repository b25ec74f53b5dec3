import Okc.Core.Parse
import Okc.Core.Bulk

/-!
# Heading paths (`parse.rs:394-424`, `458-473`)

The line loop of `scan_blocks` keeps the headings that are open on a stack, and cuts the stack to
the level of the next heading less one, as if every level above it were on the stack. A section
encloses what comes after it up to a heading of its own level or above, which is what
`assign_section_blocks` goes by.

* `outlined_scanBlocks`: each heading's path is the path before it, cut by its level.
* `length_enclosing_lt`: at most one section of each level above encloses a section.
* `headingPaths_iff`: every path is the chain of the enclosing headings iff every section is deeper
  than the one before it, or has an enclosing section at each level above its own.
-/

namespace Okc.Core

open Okc.Lib

/-! ## Enclosing sections -/

def levelAt (sections : List Section) (i : Nat) : Nat :=
  (sections[i]?.map Section.headingLevel).getD 0

/-- The later section starts in the range of the earlier one: no heading on the way to it, nor
itself, is of the earlier one's level or above. -/
def Encloses (sections : List Section) (a b : Nat) : Prop :=
  a < b ∧ ∀ k ≤ b, a < k → levelAt sections a < levelAt sections k

instance (sections : List Section) (a b : Nat) : Decidable (Encloses sections a b) :=
  inferInstanceAs (Decidable (a < b ∧ ∀ k ≤ b, a < k → levelAt sections a < levelAt sections k))

/-- The sections that enclose a section, the outermost first. -/
def enclosing (sections : List Section) (i : Nat) : List Section :=
  ((List.range i).filter fun a => Encloses sections a i).filterMap fun a => sections[a]?

/-- The section's path is the chain of the enclosing sections' headings, and its own. -/
def PathRight (sections : List Section) (i : Nat) : Prop :=
  ∀ s ∈ sections[i]?, s.headingPath = (enclosing sections i).map Section.heading ++ [s.heading]

/-- The section is deeper than the one before it, or every level above its own encloses it. -/
def Stepped (sections : List Section) (i : Nat) : Prop :=
  (∀ j, j + 1 = i → levelAt sections j < levelAt sections i) ∨
    (enclosing sections i).length + 1 = levelAt sections i

theorem levelAt_append {sections : List Section} (s : Section) {i : Nat}
    (h : i < sections.length) : levelAt (sections ++ [s]) i = levelAt sections i := by
  rw [levelAt, levelAt, List.getElem?_append_left h]

theorem levelAt_length (sections : List Section) (s : Section) :
    levelAt (sections ++ [s]) sections.length = s.headingLevel := by
  simp [levelAt]

theorem encloses_append {sections : List Section} (s : Section) {a b : Nat}
    (h : b < sections.length) : Encloses (sections ++ [s]) a b ↔ Encloses sections a b := by
  refine and_congr_right fun hab => forall_congr' fun k => forall_congr' fun hk =>
    forall_congr' fun _ => ?_
  rw [levelAt_append s (hab.trans h), levelAt_append s (hk.trans_lt h)]

theorem enclosing_append {sections : List Section} (s : Section) {i : Nat}
    (h : i < sections.length) : enclosing (sections ++ [s]) i = enclosing sections i := by
  unfold enclosing
  simp only [encloses_append s h]
  refine List.filterMap_congr fun a ha => ?_
  have hai := List.mem_range.mp (List.mem_filter.mp ha).1
  exact List.getElem?_append_left (hai.trans h)

/-- The sections that are open after the last one: those that enclose it, and itself. -/
def openSections : List Section → List Section
  | [] => []
  | s :: rest => enclosing (s :: rest) rest.length ++ [(s :: rest).getLast (by simp)]

theorem openSections_append (sections : List Section) (s : Section) :
    openSections (sections ++ [s]) = enclosing (sections ++ [s]) sections.length ++ [s] := by
  cases sections with
  | nil => rfl
  | cons t rest => simp [openSections]

/-- **The next section is enclosed by the open sections of a level above its own.** -/
theorem enclosing_next (sections : List Section) (s : Section) :
    enclosing (sections ++ [s]) sections.length =
      (openSections sections).filter fun t => t.headingLevel < s.headingLevel := by
  induction sections using List.reverseRecOn with
  | nil => rfl
  | append_singleton before p _ =>
    set sections := before ++ [p] with hsections
    have hlen : sections.length = before.length + 1 := by simp [hsections]
    have hnext : ∀ a, Encloses (sections ++ [s]) a sections.length ↔
        (a = before.length ∨ Encloses sections a before.length) ∧
          levelAt sections a < s.headingLevel := by
      intro a
      constructor
      · rintro ⟨ha, h⟩
        have hlast := h _ le_rfl ha
        rw [levelAt_append s ha, levelAt_length] at hlast
        refine ⟨?_, hlast⟩
        rcases Nat.lt_or_ge a before.length with hlt | hge
        · refine Or.inr ⟨hlt, fun k hk hak => ?_⟩
          have hk' : k < sections.length := by omega
          have := h k (by omega) hak
          rwa [levelAt_append s ha, levelAt_append s hk'] at this
        · exact Or.inl (by omega)
      · rintro ⟨hor, hlast⟩
        have ha : a < sections.length := by
          rcases hor with rfl | h
          · omega
          · exact h.1.trans (by omega)
        refine ⟨ha, fun k hk hak => ?_⟩
        rw [levelAt_append s ha]
        rcases Nat.lt_or_ge k sections.length with hlt | hge
        · rw [levelAt_append s hlt]
          rcases hor with rfl | h
          · omega
          · exact h.2 k (by omega) hak
        · obtain rfl : k = sections.length := by omega
          rwa [levelAt_length]
    rw [openSections_append, List.filter_append, ← hsections]
    unfold enclosing
    simp only [hnext]
    rw [hlen, List.range_succ, List.filter_append, List.filterMap_append]
    congr 1
    · rw [List.filter_filterMap, List.filterMap_filter, List.filterMap_filter]
      refine List.filterMap_congr fun a ha => ?_
      have ha : a < sections.length := (List.mem_range.mp ha).trans (by omega)
      have hne : a ≠ before.length := (List.mem_range.mp ‹_›).ne
      rw [List.getElem?_append_left ha, List.getElem?_eq_getElem ha]
      have hlevel : levelAt sections a = sections[a].headingLevel := by
        rw [levelAt, List.getElem?_eq_getElem ha]
        rfl
      by_cases henc : Encloses sections a before.length <;>
        by_cases hlt : sections[a].headingLevel < s.headingLevel <;>
        simp [henc, hlt, hlevel, hne, Option.filter]
    · have hget : (sections ++ [s])[before.length]? = some p := by
        rw [List.getElem?_append_left (by omega), hsections, List.getElem?_append_right le_rfl]
        simp
      have hlevel : levelAt sections before.length = p.headingLevel := by
        rw [hsections, levelAt_length]
      by_cases hlt : p.headingLevel < s.headingLevel <;> simp [hlt, hlevel, hget]

/-! ## Levels of open sections -/

/-- Sections that each are deeper than the one before. -/
def Rising (sections : List Section) : Prop :=
  sections.Pairwise fun s t => s.headingLevel < t.headingLevel

theorem rising_openSections (sections : List Section) : Rising (openSections sections) := by
  induction sections using List.reverseRecOn with
  | nil => exact List.Pairwise.nil
  | append_singleton before s ih =>
    rw [openSections_append, enclosing_next]
    refine List.pairwise_append.mpr ⟨ih.filter _, List.pairwise_singleton _ _, fun t ht u hu => ?_⟩
    rw [List.mem_singleton.mp hu]
    exact of_decide_eq_true (List.mem_filter.mp ht).2

/-- Of rising sections, those above a level come first. -/
theorem filter_rising {sections : List Section} (h : Rising sections) (level : Nat) :
    (sections.filter fun s => s.headingLevel < level) =
      sections.take (sections.filter fun s => s.headingLevel < level).length := by
  induction sections with
  | nil => rfl
  | cons s rest ih =>
    obtain ⟨hs, hrest⟩ := List.pairwise_cons.mp h
    by_cases hlt : s.headingLevel < level
    · rw [List.filter_cons_of_pos (by simpa using hlt), List.length_cons, List.take_succ_cons,
        ← ih hrest]
    · have hnone : (rest.filter fun s => s.headingLevel < level) = [] :=
        List.filter_eq_nil_iff.mpr fun t ht hlt' =>
          hlt ((hs t ht).trans (of_decide_eq_true hlt'))
      rw [List.filter_cons_of_neg (by simpa using hlt), hnone]
      rfl

/-- Rising sections from level one on, below a level, are fewer than that. -/
theorem length_rising {sections : List Section} (h : Rising sections) {level : Nat}
    (hone : ∀ s ∈ sections, 1 ≤ s.headingLevel) (hlt : ∀ s ∈ sections, s.headingLevel < level) :
    sections.length ≤ level - 1 := by
  have hnodup : (sections.map Section.headingLevel).Nodup :=
    (List.pairwise_map.mpr h).imp ne_of_lt
  have hsub : sections.map Section.headingLevel ⊆ List.Ico 1 level := by
    intro k hk
    obtain ⟨s, hs, rfl⟩ := List.mem_map.mp hk
    exact List.Ico.mem.mpr ⟨hone s hs, hlt s hs⟩
  simpa using (hnodup.subperm hsub).length_le

/-- All open sections enclose the next one iff the last one does. -/
theorem filter_eq_self_iff {before : List Section} {p : Section} {level : Nat} :
    ((openSections (before ++ [p])).filter fun t => t.headingLevel < level).length =
      (openSections (before ++ [p])).length ↔ p.headingLevel < level := by
  rw [List.length_filter_eq_length_iff]
  have hrise := rising_openSections (before ++ [p])
  rw [openSections_append] at hrise ⊢
  constructor
  · intro h
    exact of_decide_eq_true (h p (by simp))
  · intro hp t ht
    rcases List.mem_append.mp ht with ht | ht
    · exact decide_eq_true (((List.pairwise_append.mp hrise).2.2 t ht p (by simp)).trans hp)
    · rw [List.mem_singleton.mp ht]
      exact decide_eq_true hp

/-! ## The stack -/

/-- The sections that a heading stack leads to: each heading's path is the path before it, cut to
its level less one, and the heading. -/
inductive Outlined : List Section → List String → Prop
  | nil : Outlined [] []
  | snoc {sections : List Section} {stack : List String} {s : Section}
    (h : Outlined sections stack) (hlevel : 1 ≤ s.headingLevel)
    (hpath : s.headingPath = stack.take (s.headingLevel - 1) ++ [s.heading]) :
    Outlined (sections ++ [s]) s.headingPath

theorem Outlined.one_le {sections : List Section} {stack : List String}
    (h : Outlined sections stack) : ∀ s ∈ sections, 1 ≤ s.headingLevel := by
  induction h with
  | nil => simp
  | snoc _ hlevel _ ih =>
    intro t ht
    rcases List.mem_append.mp ht with ht | ht
    · exact ih t ht
    · rwa [List.mem_singleton.mp ht]

theorem mem_openSections {sections : List Section} {s : Section} (h : s ∈ openSections sections) :
    s ∈ sections := by
  cases sections with
  | nil => cases h
  | cons t rest =>
    rcases List.mem_append.mp h with h | h
    · obtain ⟨a, -, ha⟩ := List.mem_filterMap.mp h
      exact List.mem_of_getElem? ha
    · rw [List.mem_singleton.mp h]
      exact List.getLast_mem _

theorem pathRight_append {sections : List Section} (s : Section) {i : Nat}
    (h : i < sections.length) : PathRight (sections ++ [s]) i ↔ PathRight sections i := by
  rw [PathRight, PathRight, List.getElem?_append_left h, enclosing_append s h]

theorem stepped_append {sections : List Section} (s : Section) {i : Nat}
    (h : i < sections.length) : Stepped (sections ++ [s]) i ↔ Stepped sections i := by
  rw [Stepped, Stepped, enclosing_append s h, levelAt_append s h]
  refine or_congr_left (forall_congr' fun j => forall_congr' fun hj => ?_)
  rw [levelAt_append s (by omega)]

/-- **At most one section of each level above encloses a section.** -/
theorem length_enclosing_lt {sections : List Section} {stack : List String} {s : Section}
    (h : Outlined sections stack) :
    (enclosing (sections ++ [s]) sections.length).length ≤ s.headingLevel - 1 := by
  rw [enclosing_next]
  refine length_rising ((rising_openSections sections).filter _) (fun t ht => ?_) fun t ht => ?_
  · exact h.one_le t (mem_openSections (List.mem_filter.mp ht).1)
  · exact of_decide_eq_true (List.mem_filter.mp ht).2

/-- On a stack of the open headings, the next path is right iff its section is stepped. -/
theorem pathRight_iff_stepped {sections : List Section} {s : Section}
    (h : Outlined sections ((openSections sections).map Section.heading))
    (hlevel : 1 ≤ s.headingLevel)
    (hpath : s.headingPath = ((openSections sections).map Section.heading).take
      (s.headingLevel - 1) ++ [s.heading]) :
    PathRight (sections ++ [s]) sections.length ↔ Stepped (sections ++ [s]) sections.length := by
  have hbound := @length_enclosing_lt sections _ s h
  have hall : (enclosing (sections ++ [s]) sections.length).length =
      (openSections sections).length ↔
      ∀ j, j + 1 = sections.length → levelAt (sections ++ [s]) j < s.headingLevel := by
    rw [enclosing_next]
    induction sections using List.reverseRecOn with
    | nil => simp [openSections]
    | append_singleton before p _ =>
      rw [filter_eq_self_iff]
      have hp : levelAt (before ++ [p] ++ [s]) before.length = p.headingLevel := by
        rw [levelAt_append s (by simp), levelAt_length]
      constructor
      · intro hlt j hj
        obtain rfl : j = before.length := by simpa using hj
        rwa [hp]
      · exact fun hlt => hp ▸ hlt _ (by simp)
  have hle : (enclosing (sections ++ [s]) sections.length).length ≤
      (openSections sections).length := by
    rw [enclosing_next]
    exact List.length_filter_le _ _
  have hright : PathRight (sections ++ [s]) sections.length ↔
      min (s.headingLevel - 1) (openSections sections).length =
        (enclosing (sections ++ [s]) sections.length).length := by
    rw [PathRight, List.getElem?_append_right le_rfl, Nat.sub_self]
    simp only [List.getElem?_cons_zero, Option.mem_some_iff, forall_eq']
    rw [hpath, List.append_left_inj, enclosing_next,
      filter_rising (rising_openSections sections), ← List.map_take, List.map_take,
      List.map_take, List.take_eq_take_iff, ← enclosing_next, List.length_map, List.length_take,
      min_eq_left hle]
  rw [hright, Stepped, levelAt_length, ← hall]
  omega

/-- **Every path is right iff every section is stepped**, for the sections of a heading stack. -/
theorem Outlined.paths_iff {sections : List Section} {stack : List String}
    (h : Outlined sections stack) :
    ((∀ i < sections.length, PathRight sections i) ↔ ∀ i < sections.length, Stepped sections i) ∧
      ((∀ i < sections.length, PathRight sections i) →
        stack = (openSections sections).map Section.heading) := by
  induction h with
  | nil => simp [openSections]
  | @snoc sections stack s h hlevel hpath ih =>
    obtain ⟨hiff, hstack⟩ := ih
    have hsplit : ∀ P : Nat → Prop, (∀ i < (sections ++ [s]).length, P i) ↔
        (∀ i < sections.length, P i) ∧ P sections.length := by
      intro P
      rw [List.length_append, List.length_singleton]
      exact Nat.forall_lt_succ_right
    have hpaths : (∀ i < sections.length, PathRight (sections ++ [s]) i) ↔
        ∀ i < sections.length, PathRight sections i :=
      forall₂_congr fun _ hi => pathRight_append s hi
    have hsteps : (∀ i < sections.length, Stepped (sections ++ [s]) i) ↔
        ∀ i < sections.length, Stepped sections i :=
      forall₂_congr fun _ hi => stepped_append s hi
    rw [hsplit, hsplit, hpaths, hsteps]
    constructor
    · rw [← hiff]
      refine and_congr_right fun hright => ?_
      have heq := hstack hright
      exact pathRight_iff_stepped (heq ▸ h) hlevel (heq ▸ hpath)
    · rintro ⟨-, hlast⟩
      rw [openSections_append, List.map_append]
      exact hlast s (by simp)

/-! ## The line loop -/

/-- What a section's path depends on. -/
def Section.outline (s : Section) : Nat × String × List String :=
  (s.headingLevel, s.heading, s.headingPath)

theorem Outlined.congr {sections : List Section} {stack : List String}
    (h : Outlined sections stack) : ∀ {others : List Section},
      others.map Section.outline = sections.map Section.outline → Outlined others stack := by
  induction h with
  | nil =>
    intro others heq
    rw [List.map_eq_nil_iff.mp heq]
    exact .nil
  | @snoc sections stack s _ hlevel hpath ih =>
    intro others heq
    rw [List.map_append] at heq
    obtain ⟨before, last, rfl, hbefore, hlast⟩ := List.map_eq_append_iff.mp heq
    obtain ⟨t, rest, rfl, ht, hrest⟩ := List.map_eq_cons_iff.mp hlast
    obtain rfl := List.map_eq_nil_iff.mp hrest
    simp only [Section.outline, Prod.mk.injEq] at ht
    obtain ⟨htlevel, htheading, htpath⟩ := ht
    rw [← htpath]
    refine .snoc (ih hbefore) (htlevel ▸ hlevel) ?_
    rw [htpath, htlevel, htheading, hpath]

theorem outline_assignSectionBlocks (blocks : List Block) (sections : List Section) :
    (assignSectionBlocks blocks sections).map Section.outline = sections.map Section.outline := by
  induction sections with
  | nil => rfl
  | cons s rest ih => rw [assignSectionBlocks, List.map_cons, ih]; rfl

section Scan

variable (X : Externals) (documentId : DocumentId)

namespace BlockScan

/-- The sections so far, and the headings open after them. -/
def Outlines (s : BlockScan) : Prop := Outlined s.sections s.headingStack

theorem outlines_flushParagraph {s : BlockScan} (h : s.Outlines) :
    (s.flushParagraph X documentId).Outlines := by
  unfold flushParagraph
  split <;> exact h

theorem one_le_headingOf {line : List Char} {level : Nat} {heading : String}
    (h : headingOf line = some (level, heading)) : 1 ≤ level := by
  simp only [headingOf] at h
  split at h
  · next hlevel =>
    obtain ⟨rfl, -⟩ := Prod.mk.inj (Option.some.inj h)
    exact hlevel.1
  · cases h

theorem outlines_line {s : BlockScan} (h : s.Outlines) (line : List Char) :
    (s.line X documentId line).Outlines := by
  have hflush := outlines_flushParagraph X documentId h
  unfold BlockScan.line
  dsimp only
  split
  · split
    · exact h
    · exact h
  · split
    · exact hflush
    · split
      · next level heading hheading =>
        exact .snoc hflush (one_le_headingOf hheading) rfl
      · split
        · exact hflush
        · split <;> exact h

theorem outlines_run : ∀ (lines : List (List Char)) {s : BlockScan}, s.Outlines →
    (s.run X documentId lines).Outlines
  | [], _, h => h
  | line :: rest, _, h => by
    rw [run]
    exact outlines_run rest (outlines_line X documentId h line)

theorem outlines_finish {s : BlockScan} (h : s.Outlines) : (s.finish X documentId).Outlines := by
  unfold finish
  refine outlines_flushParagraph X documentId ?_
  split
  · exact h
  · exact h

end BlockScan

/-- Each heading's path is the path before it, cut by its level. -/
theorem outlined_scanBlocks (body : List Char) (baseOffset : Nat) :
    ∃ stack, Outlined (scanBlocks X documentId body baseOffset).1 stack := by
  have hrun := BlockScan.outlines_run X documentId (rawLines body)
    (s := ⟨baseOffset, [], [], none, none, []⟩) Outlined.nil
  exact ⟨_, (BlockScan.outlines_finish X documentId hrun).congr
    (outline_assignSectionBlocks _ _)⟩

/-- **Every heading path is the chain of the enclosing headings** iff every section is deeper than
the one before it, or has an enclosing section at each level above its own. -/
theorem headingPaths_iff (body : List Char) (baseOffset : Nat) :
    (∀ i < (scanBlocks X documentId body baseOffset).1.length,
      PathRight (scanBlocks X documentId body baseOffset).1 i) ↔
    ∀ i < (scanBlocks X documentId body baseOffset).1.length,
      Stepped (scanBlocks X documentId body baseOffset).1 i := by
  obtain ⟨stack, h⟩ := outlined_scanBlocks X documentId body baseOffset
  exact h.paths_iff.1

end Scan

/-- Two sections of one level under a section two levels above. -/
def skippedBody : List Char := "# A\n### B\n### C\n".toList

/-- A sibling is taken for an enclosing section. -/
theorem sibling_encloses :
    ((scanBlocks (plainExternals prefixHash) ⟨indexHash 1⟩ skippedBody 0).1.map
      Section.headingPath = [["A"], ["A", "B"], ["A", "B", "C"]]) ∧
    ¬ ∀ i < (scanBlocks (plainExternals prefixHash) ⟨indexHash 1⟩ skippedBody 0).1.length,
      PathRight (scanBlocks (plainExternals prefixHash) ⟨indexHash 1⟩ skippedBody 0).1 i := by
  have hpaths : (scanBlocks (plainExternals prefixHash) ⟨indexHash 1⟩ skippedBody 0).1.map
      Section.headingPath = [["A"], ["A", "B"], ["A", "B", "C"]] := by decide +kernel
  have henclosing : (enclosing (scanBlocks (plainExternals prefixHash) ⟨indexHash 1⟩
      skippedBody 0).1 2).map Section.heading = ["A"] := by decide +kernel
  refine ⟨hpaths, fun h => ?_⟩
  generalize (scanBlocks (plainExternals prefixHash) ⟨indexHash 1⟩ skippedBody 0).1 = sections at *
  have hlen : sections.length = 3 := by simpa using congrArg List.length hpaths
  have hlast : sections[2].headingPath = ["A", "B", "C"] := by
    have := congrArg (fun l => l[2]?) hpaths
    simpa [List.getElem?_eq_getElem (show 2 < sections.length by omega)] using this
  have hright := h 2 (by omega) _ (List.getElem?_eq_getElem (by omega))
  rw [hlast, henclosing] at hright
  simp at hright

end Okc.Core
