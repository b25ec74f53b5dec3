import Okc.Core.Fences
import Okc.Core.ByteScan

/-!
# What the blocks of a note cover (`parse.rs:341-456`)

`scan_blocks` cuts the lines of a body: every block is a run of whole lines, and what is between two
blocks are blank lines.

* `Cut`: lines and the blocks that are cut from them.
* `cut_scanBlocks`: the invariant of the line loop is that the lines up to an open paragraph or
  fence are cut.
* `Cut.sliced`, `Cut.apart`, `Cut.covered`: where the blocks are, that they do not overlap, and that
  a line with something in it is in exactly one of them.
* `parseMarkdown_blocks`: the same of the spans in the file.
-/

namespace Okc.Core

open Okc.Lib

section

variable (X : Externals) (base : Nat)

/-- A block of a slice of the body, after what comes before it. -/
structure CutAt (before slice : List Char) (block : Block) : Prop where
  span : block.span = ⟨base + size before, base + size before + size slice⟩
  text : block.comparisonText = normalizeText X slice

/-- Lines, and the blocks that are cut from them: a blank line may be left out. -/
inductive Cut : List (List Char) → List Block → Prop
  | nil : Cut [] []
  | blank {lines blocks} (line : List Char) (h : Cut lines blocks)
      (hblank : line.all isWhitespace = true) : Cut (lines ++ [line]) blocks
  | block {lines blocks} (group : List (List Char)) (b : Block) (h : Cut lines blocks)
      (hgroup : group ≠ []) (hb : CutAt X base lines.flatten group.flatten b) :
      Cut (lines ++ group) (blocks ++ [b])

/-- Lines are cut up to a group that is open. -/
structure OpenGroup (lines : List (List Char)) (blocks : List Block) (start : Nat) (text : List Char) :
    Prop where
  group : ∃ closed group, lines = closed ++ group ∧ group ≠ [] ∧ Cut X base closed blocks ∧
    start = base + size closed.flatten ∧ text = group.flatten

/-- The state of the loop after the lines. -/
structure CutSoFar (lines : List (List Char)) (s : BlockScan) : Prop where
  offset : s.offset = base + size lines.flatten
  closed : s.fence = none → s.paragraph = none → Cut X base lines s.blocks
  paragraph : ∀ start text, s.paragraph = some (start, text) →
    s.fence = none ∧ OpenGroup X base lines s.blocks start text
  fence : ∀ marker minimum start text, s.fence = some (marker, minimum, start, text) →
    s.paragraph = none ∧ OpenGroup X base lines s.blocks start text

end

section

variable {X : Externals} {base : Nat} {documentId : DocumentId} {lines : List (List Char)}
  {blocks : List Block}

/-! ## The loop -/

theorem cutAt_newBlock (kind : BlockKind) (index : Nat) (before slice : List Char) :
    CutAt X base before slice
      (newBlock X documentId kind (base + size before) index slice) := ⟨rfl, rfl⟩

/-- An open group is closed by a block. -/
theorem OpenGroup.cut {start : Nat} {text : List Char} (h : OpenGroup X base lines blocks start text)
    (kind : BlockKind) (index : Nat) :
    Cut X base lines (blocks ++ [newBlock X documentId kind start index text]) := by
  obtain ⟨closed, group, rfl, hgroup, hcut, rfl, rfl⟩ := h.group
  exact .block group _ hcut hgroup (cutAt_newBlock kind index _ _)

/-- An open group takes one more line. -/
theorem OpenGroup.extend {start : Nat} {text : List Char} (h : OpenGroup X base lines blocks start text)
    (line : List Char) : OpenGroup X base (lines ++ [line]) blocks start (text ++ line) := by
  obtain ⟨closed, group, rfl, hgroup, hcut, rfl, rfl⟩ := h.group
  exact ⟨closed, group ++ [line], by rw [List.append_assoc],
    List.append_ne_nil_of_left_ne_nil hgroup _, hcut, rfl, by simp⟩

/-- A line opens a group. -/
theorem Cut.openGroup (h : Cut X base lines blocks) (line : List Char) :
    OpenGroup X base (lines ++ [line]) blocks (base + size lines.flatten) line :=
  ⟨lines, [line], rfl, List.cons_ne_nil _ _, h, rfl, by simp⟩

/-- A heading is a block of its own. -/
theorem Cut.pushHeading {s : BlockScan} (h : Cut X base lines s.blocks)
    (hoffset : s.offset = base + size lines.flatten) (level : Nat) (heading : String)
    (line : List Char) :
    Cut X base (lines ++ [line]) (s.pushHeading X documentId level heading line).blocks := by
  refine .block [line] _ h (List.cons_ne_nil _ _) ?_
  rw [List.flatten_singleton, hoffset]
  exact cutAt_newBlock _ _ _ _

/-- Without a fence everything is cut once the paragraph is flushed. -/
theorem CutSoFar.flush {s : BlockScan} (h : CutSoFar X base lines s) (hfence : s.fence = none) :
    Cut X base lines (s.flushParagraph X documentId).blocks ∧
      (s.flushParagraph X documentId).paragraph = none ∧
      (s.flushParagraph X documentId).fence = none ∧
      (s.flushParagraph X documentId).offset = s.offset := by
  unfold BlockScan.flushParagraph
  cases hparagraph : s.paragraph with
  | none => exact ⟨h.closed hfence hparagraph, hparagraph, hfence, rfl⟩
  | some group =>
    obtain ⟨start, text⟩ := group
    exact ⟨(h.paragraph start text hparagraph).2.cut .paragraph _, rfl, hfence, rfl⟩

/-- Everything is cut. -/
theorem cutSoFar_of_cut {s : BlockScan} (hoffset : s.offset = base + size lines.flatten)
    (hcut : Cut X base lines s.blocks) (hfence : s.fence = none) (hparagraph : s.paragraph = none) :
    CutSoFar X base lines s where
  offset := hoffset
  closed _ _ := hcut
  paragraph _ _ h := by
    rw [hparagraph] at h
    cases h
  fence _ _ _ _ h := by
    rw [hfence] at h
    cases h

theorem blank_of_trimBreaks {line : List Char} (h : (trimBreaks line).all isWhitespace = true) :
    line.all isWhitespace = true := by
  rw [← List.rdropWhile_append_rtakeWhile (p := fun c => c = '\r' ∨ c = '\n') (l := line),
    List.all_append, Bool.and_eq_true]
  refine ⟨h, List.all_eq_true.mpr fun c hc => ?_⟩
  have hbreak := List.mem_rtakeWhile_imp hc
  rcases of_decide_eq_true hbreak with rfl | rfl
  · decide
  · decide

/-- A group is open. -/
theorem cutSoFar_of_paragraph {s : BlockScan} {start : Nat} {text : List Char}
    (hoffset : s.offset = base + size lines.flatten)
    (hopen : OpenGroup X base lines s.blocks start text) (hfence : s.fence = none)
    (hparagraph : s.paragraph = some (start, text)) : CutSoFar X base lines s where
  offset := hoffset
  closed _ h := by
    rw [hparagraph] at h
    cases h
  paragraph start' text' h := by
    rw [hparagraph] at h
    cases h
    exact ⟨hfence, hopen⟩
  fence _ _ _ _ h := by
    rw [hfence] at h
    cases h

theorem cutSoFar_of_fence {s : BlockScan} {marker : Char} {minimum start : Nat} {text : List Char}
    (hoffset : s.offset = base + size lines.flatten)
    (hopen : OpenGroup X base lines s.blocks start text)
    (hfence : s.fence = some (marker, minimum, start, text)) (hparagraph : s.paragraph = none) :
    CutSoFar X base lines s where
  offset := hoffset
  closed h _ := by
    rw [hfence] at h
    cases h
  paragraph _ _ h := by
    rw [hparagraph] at h
    cases h
  fence _ _ _ _ h := by
    rw [hfence] at h
    cases h
    exact ⟨hparagraph, hopen⟩

/-- **A turn of the loop cuts one line more.** -/
theorem CutSoFar.line {s : BlockScan} (h : CutSoFar X base lines s) (line : List Char) :
    CutSoFar X base (lines ++ [line])
      { s.line X documentId line with offset := s.offset + size line } := by
  have hoffset : s.offset + size line = base + size (lines ++ [line]).flatten := by
    rw [h.offset, List.flatten_append, List.flatten_singleton, size_append, Nat.add_assoc]
  unfold BlockScan.line
  cases hfence : s.fence with
  | some fence =>
    obtain ⟨marker, minimum, start, text⟩ := fence
    obtain ⟨hparagraph, hopen⟩ := h.fence marker minimum start text hfence
    dsimp only
    split_ifs
    · exact cutSoFar_of_cut hoffset ((hopen.extend line).cut .code _) rfl hparagraph
    · exact cutSoFar_of_fence hoffset (hopen.extend line) rfl hparagraph
  | none =>
    have hflush : Cut X base lines (s.flushParagraph X documentId).blocks ∧ _ := h.flush hfence
    obtain ⟨hcut, hparagraph, hnofence, hsame⟩ := hflush
    dsimp only
    cases openingFence (trimBreaks line) with
    | some opening =>
      obtain ⟨marker, minimum⟩ := opening
      have hopen := hcut.openGroup line
      rw [← h.offset] at hopen
      exact cutSoFar_of_fence hoffset hopen rfl hparagraph
    | none =>
      dsimp only
      cases BlockScan.headingOf line with
      | some heading =>
        obtain ⟨level, heading⟩ := heading
        exact cutSoFar_of_cut hoffset (hcut.pushHeading (hsame.trans h.offset) level heading line)
          hnofence hparagraph
      | none =>
        dsimp only
        split_ifs with hblank
        · exact cutSoFar_of_cut hoffset (.blank line hcut (blank_of_trimBreaks hblank)) hnofence
            hparagraph
        · cases hopen : s.paragraph with
          | some group =>
            obtain ⟨start, text⟩ := group
            exact cutSoFar_of_paragraph hoffset ((h.paragraph start text hopen).2.extend line)
              rfl rfl
          | none =>
            have hgroup := (h.closed hfence hopen).openGroup line
            rw [← h.offset] at hgroup
            exact cutSoFar_of_paragraph hoffset hgroup rfl rfl

theorem CutSoFar.run {s : BlockScan} (rest : List (List Char)) (h : CutSoFar X base lines s) :
    CutSoFar X base (lines ++ rest) (s.run X documentId rest) := by
  induction rest generalizing s lines with
  | nil => rwa [List.append_nil, BlockScan.run]
  | cons line rest ih =>
    rw [List.append_cons, BlockScan.run]
    exact ih (h.line line)

theorem CutSoFar.finish {s : BlockScan} (h : CutSoFar X base lines s) :
    Cut X base lines (s.finish X documentId).blocks := by
  unfold BlockScan.finish
  cases hfence : s.fence with
  | none => exact (h.flush hfence).1
  | some fence =>
    obtain ⟨marker, minimum, start, text⟩ := fence
    obtain ⟨hparagraph, hopen⟩ := h.fence marker minimum start text hfence
    have hcut : Cut X base lines (_ ++ [newBlock X documentId _ start _ text]) :=
      hopen.cut .code s.blocks.length
    simpa [BlockScan.flushParagraph, BlockScan.pushBlock, hparagraph] using hcut

/-- **The blocks of a body are cut from its lines.** -/
theorem cut_scanBlocks (body : List Char) :
    Cut X base (rawLines body) (scanBlocks X documentId body base).2 := by
  have hstart : CutSoFar X base [] ⟨base, [], [], none, none, []⟩ :=
    cutSoFar_of_cut (by simp) .nil rfl rfl
  exact (hstart.run (rawLines body)).finish

/-! ## What is cut -/

/-- A block is the text between two places of the lines. -/
theorem Cut.sliced (h : Cut X base lines blocks) (hlines : ∀ l ∈ lines, l ≠ []) {block : Block}
    (hblock : block ∈ blocks) : ∃ before slice after, lines.flatten = before ++ slice ++ after ∧
      slice ≠ [] ∧ CutAt X base before slice block := by
  induction h with
  | nil => cases hblock
  | blank line _ _ ih =>
    obtain ⟨before, slice, after, htext, hslice, hat⟩ :=
      ih (fun l hl => hlines l (List.mem_append_left _ hl)) hblock
    exact ⟨before, slice, after ++ line, by simp [htext], hslice, hat⟩
  | @block lines blocks group b _ hgroup hb ih =>
    rcases List.mem_append.mp hblock with hblock | hblock
    · obtain ⟨before, slice, after, htext, hslice, hat⟩ :=
        ih (fun l hl => hlines l (List.mem_append_left _ hl)) hblock
      exact ⟨before, slice, after ++ group.flatten, by simp [htext], hslice, hat⟩
    · obtain rfl := List.mem_singleton.mp hblock
      refine ⟨lines.flatten, group.flatten, [], by simp, fun hnil => ?_, hb⟩
      obtain ⟨line, rest, rfl⟩ := List.exists_cons_of_ne_nil hgroup
      exact hlines line (by simp) (List.append_eq_nil_iff.mp hnil).1

theorem Cut.bounded (h : Cut X base lines blocks) :
    ∀ block ∈ blocks, block.span.byteEnd ≤ base + size lines.flatten := by
  induction h with
  | nil => exact nofun
  | blank line _ _ ih =>
    intro block hblock
    have := ih block hblock
    rw [List.flatten_append, size_append]
    omega
  | block group b _ _ hb ih =>
    intro block hblock
    rw [List.flatten_append, size_append]
    rcases List.mem_append.mp hblock with hblock | hblock
    · have := ih block hblock
      omega
    · rw [List.mem_singleton.mp hblock, hb.span]
      exact (Nat.add_assoc _ _ _).le

/-- **The blocks stand one after the other.** -/
theorem Cut.apart (h : Cut X base lines blocks) :
    blocks.Pairwise fun a b => a.span.byteEnd ≤ b.span.byteStart := by
  induction h with
  | nil => exact List.Pairwise.nil
  | blank _ _ _ ih => exact ih
  | block group b hcut _ hb ih =>
    refine List.pairwise_append.mpr ⟨ih, List.pairwise_singleton _ _, fun a ha c hc => ?_⟩
    rw [List.mem_singleton.mp hc, hb.span]
    exact hcut.bounded a ha

/-- **A line with something in it is in a block.** -/
theorem Cut.covered (h : Cut X base lines blocks) {before after : List (List Char)}
    {line : List Char} (hlines : lines = before ++ line :: after)
    (hvisible : line.all isWhitespace = false) : ∃ block ∈ blocks,
      block.span.byteStart ≤ base + size before.flatten ∧
      base + size before.flatten + size line ≤ block.span.byteEnd := by
  induction h generalizing after with
  | nil => simp at hlines
  | @blank lines blocks last _ hblank ih =>
    obtain rfl | ⟨after, final, rfl⟩ := List.eq_nil_or_concat' after
    · obtain ⟨-, hlast⟩ := List.append_inj' hlines rfl
      cases hlast
      rw [hvisible] at hblank
      cases hblank
    · rw [← List.cons_append, ← List.append_assoc] at hlines
      exact ih (List.append_inj' hlines rfl).1
  | @block lines blocks group b _ hgroup hb ih =>
    rcases List.append_eq_append_iff.mp hlines with ⟨inner, rfl, hinner⟩ | ⟨inner, hinner, hafter⟩
    · -- the line is in the group
      refine ⟨b, by simp, ?_⟩
      rw [hb.span, hinner]
      simp only [List.flatten_append, List.flatten_cons, size_append]
      omega
    · cases inner with
      | nil =>
        refine ⟨b, by simp, ?_⟩
        rw [List.append_nil] at hinner
        rw [List.nil_append] at hafter
        rw [hb.span, ← hinner, ← hafter]
        simp only [List.flatten_cons, size_append]
        omega
      | cons first inner =>
        obtain ⟨rfl, rfl⟩ := List.cons.inj hafter
        obtain ⟨block, hblock, hspan⟩ := ih hinner
        exact ⟨block, List.mem_append_left _ hblock, hspan⟩

end

/-! ## The blocks of a document -/

/-- What a document has of its file. -/
theorem parts_parseMarkdown {X : Crates} {limits : PathLimits} {file : SourceFile} {bytes : Bytes}
    {d : Document} {diagnostics : List Diagnostic}
    (h : parseMarkdown X limits file bytes = .ok (d, diagnostics)) :
    ∃ text frontmatter, utf8 text = bytes ∧
      parseFrontmatter X ((splitFrontmatter text.toList).1.map String.ofList) file.logicalPath =
        .ok (frontmatter, diagnostics) ∧
      d.sourceFile = file ∧ d.frontmatter = frontmatter.value ∧
      d.blocks = (scanBlocks X.toExternals d.documentId (markdownBody text.toList)
        (size text.toList - size (markdownBody text.toList))).2 := by
  rw [parseMarkdown] at h
  obtain ⟨-, -, h⟩ := bind_eq_ok.mp h
  cases htext : String.fromUTF8? ⟨bytes.toArray⟩ with
  | none =>
    rw [htext] at h
    cases h
  | some text =>
    rw [htext] at h
    obtain ⟨⟨frontmatter, found⟩, hfrontmatter, h⟩ := bind_eq_ok.mp h
    obtain ⟨rfl, rfl⟩ := Prod.mk.inj (Except.ok.inj h)
    exact ⟨text, frontmatter, utf8_of_fromUTF8? htext, hfrontmatter, rfl, rfl, rfl⟩

/-- The blocks of a file whose body begins at an offset. -/
structure BlocksCover (X : Externals) (bytes : Bytes) (body : List Char) (offset : Nat)
    (blocks : List Block) : Prop where
  inside : ∀ b ∈ blocks, offset ≤ b.span.byteStart ∧ b.span.byteStart < b.span.byteEnd ∧
    b.span.byteEnd ≤ bytes.length
  boundaries : ∀ b ∈ blocks,
    IsCharBoundary bytes b.span.byteStart ∧ IsCharBoundary bytes b.span.byteEnd
  text : ∀ b ∈ blocks, ∃ slice : List Char,
    (bytes.take b.span.byteEnd).drop b.span.byteStart = utf8 (String.ofList slice) ∧
      b.comparisonText = normalizeText X slice
  apart : blocks.Pairwise fun a b => a.span.byteEnd ≤ b.span.byteStart
  covered : ∀ before line after, rawLines body = before ++ line :: after →
    line.all isWhitespace = false → ∃! b, b ∈ blocks ∧
      b.span.byteStart ≤ offset + size before.flatten ∧
      offset + size before.flatten + size line ≤ b.span.byteEnd

/-- Of blocks that stand one after the other only one has a given part. -/
theorem eq_of_overlap {blocks : List Block}
    (hapart : blocks.Pairwise fun a b => a.span.byteEnd ≤ b.span.byteStart) {a b : Block}
    (ha : a ∈ blocks) (hb : b ∈ blocks) {start stop : Nat} (hne : start < stop)
    (hastart : a.span.byteStart ≤ start) (hastop : stop ≤ a.span.byteEnd)
    (hbstart : b.span.byteStart ≤ start) (hbstop : stop ≤ b.span.byteEnd) : a = b := by
  by_contra hab
  have heither : blocks.Pairwise fun x y => x.span.byteEnd ≤ y.span.byteStart ∨
      y.span.byteEnd ≤ x.span.byteStart := hapart.imp Or.inl
  have hsymm : Std.Symm fun x y : Block => x.span.byteEnd ≤ y.span.byteStart ∨
      y.span.byteEnd ≤ x.span.byteStart := ⟨fun _ _ => Or.symm⟩
  rcases heither.forall ha hb hab with h | h
  · omega
  · omega

/-- **The blocks of a document cover its body.** -/
theorem parseMarkdown_blocks {X : Crates} {limits : PathLimits} {file : SourceFile} {bytes : Bytes}
    {d : Document} {diagnostics : List Diagnostic}
    (h : parseMarkdown X limits file bytes = .ok (d, diagnostics)) :
    ∃ text, utf8 text = bytes ∧
      BlocksCover X.toExternals bytes (markdownBody text.toList)
        (size text.toList - size (markdownBody text.toList)) d.blocks := by
  obtain ⟨text, _, rfl, -, -, -, hblocks⟩ := parts_parseMarkdown h
  refine ⟨text, rfl, ?_⟩
  obtain ⟨pre, hpre⟩ := markdownBody_suffix text.toList
  have hoffset : size text.toList - size (markdownBody text.toList) = size pre := by
    conv_lhs => rw [← hpre, size_append, hpre]
    exact Nat.add_sub_cancel _ _
  rw [hoffset] at hblocks ⊢
  generalize markdownBody text.toList = body at hblocks hpre ⊢
  have hcut : Cut X.toExternals (size pre) (rawLines body)
      (scanBlocks X.toExternals d.documentId body (size pre)).2 := cut_scanBlocks body
  rw [← hblocks] at hcut
  have hnonempty : ∀ l ∈ rawLines body, l ≠ [] := fun l hl => ne_nil_of_rawLines hl
  -- where a block stands in the file
  have hplace : ∀ b ∈ d.blocks, ∃ before slice after,
      text.toList = pre ++ before ++ slice ++ after ∧ slice ≠ [] ∧
        b.span = ⟨size (pre ++ before), size (pre ++ before ++ slice)⟩ ∧
        b.comparisonText = normalizeText X.toExternals slice := by
    intro b hb
    obtain ⟨before, slice, after, htext, hslice, hat⟩ := hcut.sliced hnonempty hb
    rw [flatten_rawLines] at htext
    refine ⟨before, slice, after, by rw [← hpre, htext]; simp, hslice, ?_, hat.text⟩
    rw [hat.span, size_append, size_append, size_append]
  refine ⟨fun b hb => ?_, fun b hb => ?_, fun b hb => ?_, hcut.apart, ?_⟩
  · obtain ⟨before, slice, after, htext, hslice, hspan, -⟩ := hplace b hb
    have hsize := congrArg size htext
    rw [size_toList, ← length_utf8] at hsize
    have hpos : size slice ≠ 0 := fun hzero => hslice (size_eq_zero hzero)
    rw [hspan]
    simp only [size_append] at hsize ⊢
    omega
  · obtain ⟨before, slice, after, htext, -, hspan, -⟩ := hplace b hb
    rw [hspan]
    refine ⟨isCharBoundary_size (?_ : _ = _ ++ (slice ++ after)), isCharBoundary_size htext⟩
    rw [htext, List.append_assoc]
  · obtain ⟨before, slice, after, htext, -, hspan, hcomparison⟩ := hplace b hb
    refine ⟨slice, ?_, hcomparison⟩
    rw [hspan]
    exact take_drop_utf8 htext
  · intro before line after hlines hvisible
    obtain ⟨block, hblock, hstart, hstop⟩ := hcut.covered hlines hvisible
    have hline : line ≠ [] := hnonempty line (by rw [hlines]; simp)
    have hpos : size line ≠ 0 := fun hzero => hline (size_eq_zero hzero)
    refine ⟨block, ⟨hblock, hstart, hstop⟩, ?_⟩
    rintro other ⟨hother, hstart', hstop'⟩
    exact eq_of_overlap hcut.apart hother hblock (by omega) hstart' hstop' hstart hstop

end Okc.Core
