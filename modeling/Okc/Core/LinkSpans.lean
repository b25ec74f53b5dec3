import Okc.Lib.Octets
import Okc.Core.Parse

/-!
# Where the links of a note stand (`parse.rs:561-838`)

The rewriter replaces spans, and refuses a plan when the bytes of one are not the target that was
scanned.

* `scanFrom_cons`: the loop goes on at a rest of what the turn read.
* `Located`: links one after the other in a text, each at its span, with at least one character
  between them.
* `located_scanFrom`, `located_scanLinkLines`: so the links of a line and of a body stand.
-/

namespace Okc.Core

open Okc.Lib

/-! ## The searches -/

theorem ne_of_high {a c : Char} (hc : 128 ≤ c.toNat) (ha : a.toNat < 128) : c ≠ a := fun h => by
  rw [h] at hc
  omega

theorem walks_balanced : Walks (findBalancedDelimiter '[' ']') where
  finish _ _ h := nomatch h
  pass s c cs h := by
    rw [findBalancedDelimiter.eq_def]
    simp only [if_neg (ne_of_high h (a := '\\') (by decide)),
      if_neg (ne_of_high h (a := '[') (by decide)), if_neg (ne_of_high h (a := ']') (by decide))]
  escape _ _ _ := rfl
  escape_last _ := rfl
  step s c _ hne := by
    by_cases hopen : c = '['
    · exact Or.inl ⟨s + 1, fun cs => by rw [findBalancedDelimiter.eq_def]; simp [hopen]⟩
    · by_cases hclose : c = ']'
      · by_cases hs : 0 < s
        · exact Or.inl ⟨s - 1, fun cs => by rw [findBalancedDelimiter.eq_def]; simp [hclose, hs]⟩
        · exact Or.inr (Or.inl fun cs => by rw [findBalancedDelimiter.eq_def]; simp [hclose, hs])
      · exact Or.inl ⟨s, fun cs => by
          rw [findBalancedDelimiter.eq_def]; simp [hne, hopen, hclose]⟩

theorem walks_angle : Walks fun (_ : Unit) cs => findAngleEnd cs where
  finish _ _ h := nomatch h
  pass _ c cs h := by
    rw [findAngleEnd.eq_def]
    simp only [if_neg (ne_of_high h (a := '\\') (by decide)),
      if_neg (ne_of_high h (a := '>') (by decide))]
  escape _ _ _ := rfl
  escape_last _ := rfl
  step _ c _ hne := by
    by_cases hclose : c = '>'
    · exact Or.inr (Or.inl fun cs => by rw [findAngleEnd.eq_def]; simp [hclose])
    · exact Or.inl ⟨(), fun cs => by rw [findAngleEnd.eq_def]; simp [hne, hclose]⟩

theorem walks_target : Walks fun nested cs => some (findTargetEnd nested cs) where
  finish _ _ h := (Option.some.inj h).symm
  pass s c cs h := by
    rw [findTargetEnd.eq_def]
    simp only [if_neg (ne_of_high h (a := '\\') (by decide)),
      if_neg (ne_of_high h (a := '(') (by decide)), ne_of_high h (a := ')') (by decide),
      ne_of_high h (a := ' ') (by decide), ne_of_high h (a := '\t') (by decide), false_and,
      or_false, if_false]
  escape _ _ _ := rfl
  escape_last _ := rfl
  step s c _ hne := by
    by_cases hopen : c = '('
    · exact Or.inl ⟨s + 1, fun cs => by rw [findTargetEnd.eq_def]; simp [hopen]⟩
    · by_cases hclose : c = ')' ∧ 0 < s
      · exact Or.inl ⟨s - 1, fun cs => by rw [findTargetEnd.eq_def]; simp [hclose]⟩
      · by_cases hend : c = ')' ∨ c = ' ' ∨ c = '\t'
        · exact Or.inr (Or.inl fun cs => by
            rw [findTargetEnd.eq_def]
            simp only [if_neg hne, if_neg hopen, if_neg hclose, if_pos hend])
        · exact Or.inl ⟨s, fun cs => by
            rw [findTargetEnd.eq_def]
            simp only [if_neg hne, if_neg hopen, if_neg hclose, if_neg hend]⟩

theorem walks_close : Walks findMarkdownClose where
  finish _ _ h := nomatch h
  pass s c cs h := by
    rw [findMarkdownClose.eq_def]
    simp only [if_neg (ne_of_high h (a := '\\') (by decide)),
      ne_of_high h (a := '\x27') (by decide), ne_of_high h (a := '\x22') (by decide),
      ne_of_high h (a := ')') (by decide), false_and, or_self, if_false]
  escape _ _ _ := rfl
  escape_last _ := rfl
  step s c _ hne := by
    by_cases hquote : c = '\x27' ∨ c = '\x22'
    · exact Or.inl ⟨_, fun cs => by
        rw [findMarkdownClose.eq_def]
        simp only [if_neg hne, if_pos hquote]
        rfl⟩
    · by_cases hclose : c = ')' ∧ s = none
      · exact Or.inr (Or.inr fun cs => by
          rw [findMarkdownClose.eq_def]
          simp only [if_neg hne, if_neg hquote, if_pos hclose])
      · exact Or.inl ⟨s, fun cs => by
          rw [findMarkdownClose.eq_def]
          simp only [if_neg hne, if_neg hquote, if_neg hclose]⟩

theorem findBacktickClose_suffix {expected run : Nat} {cs rest : List Char}
    (h : findBacktickClose expected run cs = some rest) : rest <:+ cs := by
  induction cs generalizing run with
  | nil =>
    rw [findBacktickClose] at h
    split_ifs at h
    exact Option.some.inj h ▸ List.suffix_refl _
  | cons c cs ih =>
    rw [findBacktickClose] at h
    split_ifs at h
    · exact (ih h).trans (List.suffix_cons _ _)
    · exact Option.some.inj h ▸ List.suffix_refl _
    · exact (ih h).trans (List.suffix_cons _ _)

theorem findBalancedDelimiter_head {nested : Nat} {cs rest : List Char}
    (h : findBalancedDelimiter '[' ']' nested cs = some rest) : rest.head? = some ']' := by
  fun_induction findBalancedDelimiter '[' ']' nested cs <;> simp_all
  rw [← h]
  rfl

theorem findAngleEnd_head {cs rest : List Char} (h : findAngleEnd cs = some rest) :
    rest.head? = some '>' := by
  fun_induction findAngleEnd cs <;> simp_all
  rw [← h]
  rfl

/-- Something is passed before the rest. -/
theorem findMarkdownClose_suffix {quoted : Option Char} {cs rest : List Char}
    (h : findMarkdownClose quoted cs = some rest) : ∃ d, d :: rest <:+ cs := by
  fun_induction findMarkdownClose quoted cs with
  | case1 => cases h
  | case2 => cases h
  | case3 _ d cs ih =>
    obtain ⟨e, he⟩ := ih h
    exact ⟨e, (he.trans (List.suffix_cons _ _)).trans (List.suffix_cons _ _)⟩
  | case4 _ c cs _ _ ih =>
    obtain ⟨e, he⟩ := ih h
    exact ⟨e, he.trans (List.suffix_cons _ _)⟩
  | case5 _ c cs => exact ⟨c, Option.some.inj h ▸ List.suffix_refl _⟩
  | case6 _ c cs _ _ _ ih =>
    obtain ⟨e, he⟩ := ih h
    exact ⟨e, he.trans (List.suffix_cons _ _)⟩

/-! ## One link -/

/-- The link was found in `cs`, a rest of the line: its target is there, at its span, and at least
one character stands between it and the rest where the scan goes on. -/
structure FoundIn (line : List Char) (lineOffset : Nat) (cs rest : List Char) (link : Link) :
    Prop where
  intro ::
  stands : ∃ before raw next after, cs = before ++ raw ++ next :: after ∧ rest <:+ after ∧
    link.byteStart = lineOffset + indexOf line (raw ++ next :: after) ∧
    link.byteEnd = lineOffset + indexOf line (next :: after) ∧ link.rawTarget = String.ofList raw

theorem exists_next {d : Char} {rest cs : List Char} (h : d :: rest <:+ cs) :
    ∃ next after, cs = next :: after ∧ rest <:+ after := by
  obtain ⟨pre, rfl⟩ := h
  cases pre with
  | nil => exact ⟨d, rest, rfl, List.suffix_refl _⟩
  | cons p pre => exact ⟨p, pre ++ d :: rest, rfl, ⟨pre ++ [d], by simp⟩⟩

section Line

variable {line : List Char} {lineOffset : Nat}

theorem FoundIn.of_suffix {cs ds rest : List Char} {link : Link}
    (h : FoundIn line lineOffset cs rest link) (hcs : cs <:+ ds) :
    FoundIn line lineOffset ds rest link := by
  obtain ⟨before, raw, next, after, rfl, hrest⟩ := h.stands
  obtain ⟨pre, rfl⟩ := hcs
  exact ⟨pre ++ before, raw, next, after, by simp only [List.append_assoc], hrest⟩

theorem FoundIn.suffix {cs rest : List Char} {link : Link}
    (h : FoundIn line lineOffset cs rest link) : rest <:+ cs := by
  obtain ⟨before, raw, next, after, rfl, hrest, -⟩ := h.stands
  exact (hrest.trans (List.suffix_cons _ _)).trans (List.suffix_append _ _)

theorem between_append (pre rest : List Char) : between (pre ++ rest) rest = pre := by
  rw [between, List.length_append, Nat.add_sub_cancel, List.take_left]

theorem found_of_close {label target targetEnd after rest : List Char} {link : Link}
    (htarget : target <:+ label) (htargetEnd : targetEnd <:+ target) (hafter : after <:+ targetEnd)
    (hclose : findMarkdownClose none after = some rest)
    (hstart : link.byteStart = lineOffset + indexOf line target)
    (hend : link.byteEnd = lineOffset + indexOf line targetEnd)
    (hraw : link.rawTarget = String.ofList (between target targetEnd)) :
    FoundIn line lineOffset label rest link := by
  obtain ⟨d, hd⟩ := findMarkdownClose_suffix hclose
  obtain ⟨next, tail, rfl, hrest⟩ := exists_next (hd.trans hafter)
  obtain ⟨raw, rfl⟩ := htargetEnd
  obtain ⟨before, rfl⟩ := htarget
  rw [between_append] at hraw
  exact ⟨before, raw, next, tail, (List.append_assoc _ _ _).symm, hrest, hstart, hend, hraw⟩

theorem parseInlineMarkdownLink_found {label rest : List Char} {embed : Bool} {link : Link}
    (h : parseInlineMarkdownLink line lineOffset label embed = some (link, rest)) :
    FoundIn line lineOffset label rest link := by
  rw [parseInlineMarkdownLink] at h
  obtain ⟨labelEnd, hlabel, h⟩ := Option.bind_eq_some_iff.mp h
  have hcursor : ((labelEnd.drop 1).drop 1).dropWhile isAsciiWhitespace <:+ label :=
    (((List.dropWhile_suffix _).trans (List.drop_suffix _ _)).trans (List.drop_suffix _ _)).trans
      (walks_balanced.suffix 0 label hlabel)
  dsimp only at h
  generalize ((labelEnd.drop 1).drop 1).dropWhile isAsciiWhitespace = cursor at h hcursor
  split_ifs at h with hparenthesis hangle
  · obtain ⟨targetEnd, hend, h⟩ := Option.bind_eq_some_iff.mp h
    split_ifs at h
    obtain ⟨_, hclose, h⟩ := Option.bind_eq_some_iff.mp h
    obtain ⟨rfl, rfl⟩ := Prod.mk.inj (Option.some.inj h)
    exact found_of_close ((List.drop_suffix _ _).trans hcursor) (walks_angle.suffix () _ hend)
      (List.drop_suffix _ _) hclose rfl rfl rfl
  · obtain ⟨targetEnd, hend, h⟩ := Option.bind_eq_some_iff.mp h
    split_ifs at h
    obtain ⟨_, hclose, h⟩ := Option.bind_eq_some_iff.mp h
    obtain ⟨rfl, rfl⟩ := Prod.mk.inj (Option.some.inj h)
    exact found_of_close hcursor (walks_target.suffix 0 _ hend) (List.suffix_refl _) hclose rfl rfl
      rfl

theorem found_of_cut {cs opening raw rest : List Char} {embed : Bool} (hline : cs <:+ line)
    (hopening : opening <:+ cs) (hcut : cutAt "]]".toList opening = some (raw, rest)) :
    FoundIn line lineOffset cs rest (parseWikiLink raw (lineOffset + indexOf line opening)
      (lineOffset + indexOf line opening + size raw) embed) := by
  obtain ⟨rfl, -⟩ := cutAt_eq_some.mp hcut
  obtain ⟨pre, hpre⟩ := hopening.trans hline
  obtain ⟨before, rfl⟩ := hopening
  have hclosing : "]]".toList ++ rest = ']' :: ']' :: rest := rfl
  rw [List.append_assoc, hclosing] at hpre ⊢
  refine ⟨before, raw, ']', ']' :: rest, (List.append_assoc _ _ _).symm, List.suffix_cons _ _,
    rfl, ?_, rfl⟩
  have hsize : size line = size pre + size raw + size (']' :: ']' :: rest) := by
    rw [← hpre, size_append, size_append, Nat.add_assoc]
  have hindex : indexOf line (raw ++ ']' :: ']' :: rest) + size raw =
      indexOf line (']' :: ']' :: rest) := by
    rw [indexOf, indexOf, size_append]
    omega
  rw [← hindex, ← Nat.add_assoc]
  rfl

theorem scanWikiLink_found {cs rest : List Char} {link : Link} (hline : cs <:+ line)
    (h : scanWikiLink line lineOffset cs = some (link, rest)) :
    FoundIn line lineOffset cs rest link := by
  rw [scanWikiLink] at h
  split_ifs at h <;> simp only [Option.bind_eq_bind, Option.bind_some] at h
  · obtain ⟨⟨raw, after⟩, hcut, h⟩ := Option.bind_eq_some_iff.mp h
    obtain ⟨rfl, rfl⟩ := Prod.mk.inj (Option.some.inj h)
    exact found_of_cut hline (List.drop_suffix _ _) hcut
  · obtain ⟨⟨raw, after⟩, hcut, h⟩ := Option.bind_eq_some_iff.mp h
    obtain ⟨rfl, rfl⟩ := Prod.mk.inj (Option.some.inj h)
    exact found_of_cut hline (List.drop_suffix _ _) hcut
  · cases h

theorem scanMarkdownLink_found {cs rest : List Char} {link : Link}
    (h : scanMarkdownLink line lineOffset cs = some (link, rest)) :
    FoundIn line lineOffset cs rest link := by
  rw [scanMarkdownLink] at h
  split_ifs at h
  · exact (parseInlineMarkdownLink_found h).of_suffix (List.drop_suffix _ _)
  · exact (parseInlineMarkdownLink_found h).of_suffix (List.drop_suffix _ _)

/-! ## The loop -/

/-- **One turn.** It goes on at a rest, and a link it found stands in what it read. -/
theorem scanStep_found (lineOffset : Nat) (c : Char) {cs : List Char} (hline : c :: cs <:+ line) :
    (scanStep line lineOffset c cs).2 <:+ cs ∧ ∀ link ∈ (scanStep line lineOffset c cs).1,
      FoundIn line lineOffset (c :: cs) (scanStep line lineOffset c cs).2 link := by
  have hfound : ∀ {link rest}, FoundIn line lineOffset (c :: cs) rest link → rest <:+ cs := by
    intro link rest h
    obtain ⟨before, raw, next, after, hcs, hrest, -⟩ := h.stands
    cases hpre : before ++ raw with
    | nil =>
      rw [hpre, List.nil_append] at hcs
      exact (List.cons.inj hcs).2 ▸ hrest
    | cons d pre =>
      rw [hpre, List.cons_append] at hcs
      rw [(List.cons.inj hcs).2]
      exact (hrest.trans (List.suffix_cons _ _)).trans (List.suffix_append _ _)
  rw [scanStep]
  split_ifs
  · exact ⟨List.drop_suffix _ _, fun _ h => absurd h (Option.not_mem_none _)⟩
  · refine ⟨?_, fun _ h => absurd h (Option.not_mem_none _)⟩
    have hafter : cs.dropWhile (· == '\x60') <:+ cs := List.dropWhile_suffix _
    dsimp only
    cases hclose : findBacktickClose ((cs.takeWhile (· == '\x60')).length + 1) 0
      (cs.dropWhile (· == '\x60')) with
    | none => exact hafter
    | some rest => exact (findBacktickClose_suffix hclose).trans hafter
  · cases hwiki : scanWikiLink line lineOffset (c :: cs) with
    | some found =>
      obtain ⟨link, rest⟩ := found
      have h := scanWikiLink_found hline hwiki
      exact ⟨hfound h, fun _ hl => Option.mem_some.mp hl ▸ h⟩
    | none =>
      cases hmarkdown : scanMarkdownLink line lineOffset (c :: cs) with
      | some found =>
        obtain ⟨link, rest⟩ := found
        have h := scanMarkdownLink_found hmarkdown
        exact ⟨hfound h, fun _ hl => Option.mem_some.mp hl ▸ h⟩
      | none => exact ⟨List.suffix_refl _, fun _ h => absurd h (Option.not_mem_none _)⟩

theorem scanFrom_skip {cs rest : List Char} (h : rest <:+ cs) :
    scanFrom line lineOffset (cs.length - rest.length) cs =
      scanFrom line lineOffset 0 rest := by
  obtain ⟨pre, rfl⟩ := h
  rw [List.length_append, Nat.add_sub_cancel]
  induction pre with
  | nil => rfl
  | cons c pre ih => exact ih

theorem scanFrom_cons {c : Char} {cs : List Char} (hline : c :: cs <:+ line) :
    scanFrom line lineOffset 0 (c :: cs) =
      (scanStep line lineOffset c cs).1.toList ++
        scanFrom line lineOffset 0 (scanStep line lineOffset c cs).2 := by
  have hsuffix := (scanStep_found lineOffset c hline).1
  rw [← scanFrom_skip hsuffix]
  rfl

end Line

/-! ## Links one after the other -/

/-- The links stand in the text one after the other: the target of each is at its span, and the next
link stands after the character that follows it. -/
def Located (base : Nat) (cs : List Char) : List Link → Prop
  | [] => True
  | link :: links => ∃ before raw next after, cs = before ++ raw ++ next :: after ∧
      link.byteStart = base + size before ∧ link.byteEnd = base + size before + size raw ∧
      link.rawTarget = String.ofList raw ∧ Located (link.byteEnd + next.utf8Size) after links

theorem Located.prepend {base : Nat} {cs : List Char} {links : List Link} (pre : List Char)
    (h : Located (base + size pre) cs links) : Located base (pre ++ cs) links := by
  cases links with
  | nil => trivial
  | cons link links =>
    obtain ⟨before, raw, next, after, rfl, hstart, hend, hraw, hlinks⟩ := h
    refine ⟨pre ++ before, raw, next, after, by simp only [List.append_assoc], ?_, ?_, hraw,
      hlinks⟩
    · rw [hstart, size_append, Nat.add_assoc]
    · rw [hend, size_append, Nat.add_assoc base]

theorem Located.append {base : Nat} {cs ds : List Char} {links more : List Link}
    (h : Located base cs links) (hmore : Located (base + size cs) ds more) :
    Located base (cs ++ ds) (links ++ more) := by
  induction links generalizing base cs with
  | nil => exact hmore.prepend cs
  | cons link links ih =>
    obtain ⟨before, raw, next, after, rfl, hstart, hend, hraw, hlinks⟩ := h
    refine ⟨before, raw, next, after ++ ds, by simp, hstart, hend, hraw, ih hlinks ?_⟩
    have hsize : link.byteEnd + next.utf8Size + size after =
        base + size (before ++ raw ++ next :: after) := by
      rw [hend, size_append, size_append, size_cons]
      omega
    rwa [hsize]

theorem Located.stands {base : Nat} {cs : List Char} {links : List Link}
    (h : Located base cs links) {link : Link} (hl : link ∈ links) :
    ∃ before raw after, cs = before ++ raw ++ after ∧ link.byteStart = base + size before ∧
      link.byteEnd = base + size before + size raw ∧ link.rawTarget = String.ofList raw := by
  induction links generalizing base cs with
  | nil => cases hl
  | cons first links ih =>
    obtain ⟨before, raw, next, after, rfl, hstart, hend, hraw, hlinks⟩ := h
    rcases List.mem_cons.mp hl with rfl | hl
    · exact ⟨before, raw, next :: after, rfl, hstart, hend, hraw⟩
    · obtain ⟨between, raw', rest, rfl, hstart', hend', hraw'⟩ := ih hlinks hl
      refine ⟨before ++ raw ++ next :: between, raw', rest, by simp, ?_, ?_, hraw'⟩
      · rw [hstart', hend, size_append, size_append, size_cons]
        omega
      · rw [hend', hend, size_append, size_append, size_cons]
        omega

/-- The spans are strictly ordered and do not touch. -/
theorem Located.pairwise {base : Nat} {cs : List Char} {links : List Link}
    (h : Located base cs links) : links.Pairwise fun a b => a.byteEnd < b.byteStart := by
  induction links generalizing base cs with
  | nil => exact List.Pairwise.nil
  | cons first links ih =>
    obtain ⟨before, raw, next, after, rfl, hstart, hend, hraw, hlinks⟩ := h
    refine List.pairwise_cons.mpr ⟨fun link hl => ?_, ih hlinks⟩
    obtain ⟨between, _, _, _, hbegin, -⟩ := hlinks.stands hl
    have hpos := next.utf8Size_pos
    omega

/-- **The links of a line.** -/
theorem located_scanFrom {line : List Char} (lineOffset : Nat) {pre cs : List Char}
    (hline : pre ++ cs = line) :
    Located (lineOffset + size pre) cs (scanFrom line lineOffset 0 cs) := by
  match cs with
  | [] => exact trivial
  | c :: cs =>
    have hsuffix : c :: cs <:+ line := ⟨pre, hline⟩
    obtain ⟨hrest, hfound⟩ := scanStep_found lineOffset c hsuffix
    have hshorter := hrest.length_le
    rw [scanFrom_cons hsuffix]
    generalize (scanStep line lineOffset c cs).2 = rest at hrest hfound hshorter
    cases hlink : (scanStep line lineOffset c cs).1 with
    | none =>
      obtain ⟨passed, rfl⟩ := hrest
      have hlater : (pre ++ c :: passed) ++ rest = line := by
        rw [← hline, List.append_assoc, List.cons_append]
      have ih := located_scanFrom lineOffset hlater
      rw [size_append, ← Nat.add_assoc] at ih
      exact ih.prepend (c :: passed)
    | some link =>
      obtain ⟨before, raw, next, after, hcs, ⟨passed, rfl⟩, hstart, hend, hraw⟩ :=
        (hfound link hlink).stands
      rw [hcs] at hline ⊢
      have hlater : (pre ++ before ++ raw ++ next :: passed) ++ rest = line := by
        simp only [← hline, List.append_assoc, List.cons_append]
      have hsize : size line =
          size pre + size before + size raw + size (next :: (passed ++ rest)) := by
        rw [← hline, size_append, size_append, size_append]
        omega
      have hbegin : link.byteStart = lineOffset + size pre + size before := by
        rw [hstart, indexOf, size_append]
        omega
      have hstop : link.byteEnd = lineOffset + size pre + size before + size raw := by
        rw [hend, indexOf]
        omega
      have ih := located_scanFrom lineOffset hlater
      refine ⟨before, raw, next, passed ++ rest, rfl, hbegin, hstop, hraw, ?_⟩
      refine Located.prepend passed ?_
      have hbase : link.byteEnd + next.utf8Size + size passed =
          lineOffset + size (pre ++ before ++ raw ++ next :: passed) := by
        rw [hstop, size_append, size_append, size_append, size_cons]
        omega
      rwa [hbase]
termination_by cs.length

theorem located_scanInlineLinks (line : List Char) (lineOffset : Nat) :
    Located lineOffset line (scanInlineLinks (String.ofList line) lineOffset) := by
  have h := located_scanFrom lineOffset (List.nil_append line)
  rwa [scanInlineLinks, String.toList_ofList]

/-! ## Lines -/

theorem trimRawLineEnding_prefix (line : List Char) : trimRawLineEnding line <+: line := by
  rw [trimRawLineEnding]
  split_ifs
  · exact (List.dropLast_prefix _).trans (List.dropLast_prefix _)
  · exact List.dropLast_prefix _
  · exact List.prefix_refl _

/-- **The links of lines.** Those inside fences have none. -/
theorem located_scanLinkLines (fence : Option (Char × Nat)) (offset : Nat)
    (lines : List (List Char)) :
    Located offset lines.flatten (scanLinkLines fence offset lines) := by
  induction lines generalizing fence offset with
  | nil => cases fence <;> exact trivial
  | cons line rest ih =>
    have hnone : ∀ fence, Located offset (line :: rest).flatten
        (scanLinkLines fence (offset + size line) rest) := fun fence =>
      (ih fence (offset + size line)).prepend line
    cases fence with
    | some opening => exact hnone _
    | none =>
      rw [scanLinkLines]
      cases openingFence (trimRawLineEnding line) with
      | some opening => exact hnone _
      | none =>
        refine Located.append ?_ (ih none (offset + size line))
        split_ifs
        · exact trivial
        · obtain ⟨ending, hending⟩ := trimRawLineEnding_prefix line
          have hending' : Located (offset + size (trimRawLineEnding line)) ending [] := trivial
          have hcontent := (located_scanInlineLinks (trimRawLineEnding line) offset).append hending'
          rwa [hending, List.append_nil] at hcontent

theorem flatten_rawLines (cs : List Char) : (rawLines cs).flatten = cs := by
  fun_induction rawLines cs <;> simp_all

/-! ## The body -/

theorem closeFrontmatter_suffix {lines : List (List Char)} {raw body : List Char}
    (h : closeFrontmatter lines = some (raw, body)) : body <:+ lines.flatten := by
  induction lines generalizing raw with
  | nil => cases h
  | cons line rest ih =>
    rw [closeFrontmatter] at h
    dsimp only at h
    split_ifs at h
    · obtain ⟨-, rfl⟩ := Prod.mk.inj (Option.some.inj h)
      exact List.suffix_append _ _
    · obtain ⟨⟨raw', body'⟩, hclose, he⟩ := Option.map_eq_some_iff.mp h
      obtain ⟨-, rfl⟩ := Prod.mk.inj he
      exact (ih hclose).trans (List.suffix_append _ _)

theorem splitFrontmatter_suffix (text : List Char) : (splitFrontmatter text).2 <:+ text := by
  have hcandidate : (if text.head? = some bom then text.tail else text) <:+ text := by
    split_ifs
    · exact List.tail_suffix _
    · exact List.suffix_refl _
  rw [splitFrontmatter]
  generalize (if text.head? = some bom then text.tail else text) = candidate at hcandidate
  have hflatten := flatten_rawLines candidate
  dsimp only
  cases hlines : rawLines candidate with
  | nil => exact List.suffix_refl _
  | cons first rest =>
    dsimp only
    split_ifs
    · exact List.suffix_refl _
    · cases hclose : closeFrontmatter rest with
      | none => exact List.suffix_refl _
      | some closed =>
        obtain ⟨raw, body⟩ := closed
        rw [hlines, List.flatten_cons] at hflatten
        refine (closeFrontmatter_suffix hclose).trans (List.IsSuffix.trans ?_ hcandidate)
        rw [← hflatten]
        exact List.suffix_append _ _

/-- The body of a note: after the frontmatter or, without one, after the byte order mark. -/
def markdownBody (text : List Char) : List Char :=
  let rest := (splitFrontmatter text).2
  if rest.length = text.length ∧ rest.head? = some bom then rest.tail else rest

theorem markdownBody_suffix (text : List Char) : markdownBody text <:+ text := by
  rw [markdownBody]
  split_ifs
  · exact (List.tail_suffix _).trans (splitFrontmatter_suffix text)
  · exact splitFrontmatter_suffix text

theorem map_toLink_mapIdx (X : Externals) (documentId : DocumentId) (links : List Link) :
    (links.mapIdx (newLink X documentId)).map DocumentLink.toLink = links := by
  refine List.ext_getElem? fun i => ?_
  rw [List.getElem?_map, List.getElem?_mapIdx, Option.map_map]
  exact congrFun Option.map_id _

theorem utf8_of_fromUTF8? {bytes : Bytes} {text : String}
    (h : String.fromUTF8? ⟨bytes.toArray⟩ = some text) : utf8 text = bytes := by
  rw [String.fromUTF8?] at h
  split_ifs at h
  rw [← Option.some.inj h]
  rfl

/-- The links of a document, without their identities. -/
theorem links_parseMarkdown {X : Crates} {limits : PathLimits} {file : SourceFile} {bytes : Bytes}
    {d : Document} {diagnostics : List Diagnostic}
    (h : parseMarkdown X limits file bytes = .ok (d, diagnostics)) :
    ∃ text, utf8 text = bytes ∧ d.links.map DocumentLink.toLink =
      scanLinkLines none (size text.toList - size (markdownBody text.toList))
        (rawLines (markdownBody text.toList)) := by
  rw [parseMarkdown] at h
  obtain ⟨-, -, h⟩ := bind_eq_ok.mp h
  cases htext : String.fromUTF8? ⟨bytes.toArray⟩ with
  | none =>
    rw [htext] at h
    cases h
  | some text =>
    rw [htext] at h
    obtain ⟨⟨frontmatter, _⟩, -, h⟩ := bind_eq_ok.mp h
    refine ⟨text, utf8_of_fromUTF8? htext, ?_⟩
    rw [← (Prod.mk.inj (Except.ok.inj h)).1]
    exact map_toLink_mapIdx _ _ _

/-- **The links of a document stand in its file, one after the other.** -/
theorem located_links {X : Crates} {limits : PathLimits} {file : SourceFile} {bytes : Bytes}
    {d : Document} {diagnostics : List Diagnostic}
    (h : parseMarkdown X limits file bytes = .ok (d, diagnostics)) :
    ∃ text, utf8 text = bytes ∧ Located 0 text.toList (d.links.map DocumentLink.toLink) := by
  obtain ⟨text, htext, hlinks⟩ := links_parseMarkdown h
  obtain ⟨pre, hpre⟩ := markdownBody_suffix text.toList
  refine ⟨text, htext, ?_⟩
  have hoffset : size text.toList - size (markdownBody text.toList) = size pre := by
    conv_lhs => rw [← hpre, size_append, hpre]
    exact Nat.add_sub_cancel _ _
  have hlocated := located_scanLinkLines none (0 + size pre) (rawLines (markdownBody text.toList))
  rw [flatten_rawLines] at hlocated
  rw [hlinks, hoffset, ← hpre, ← Nat.zero_add (size pre), hpre]
  conv => arg 2; rw [← hpre]
  exact hlocated.prepend pre

end Okc.Core
