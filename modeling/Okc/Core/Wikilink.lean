import Okc.Core.Lines
import Okc.Lib.Search

/-!
# Reading links back (`parse.rs:617-942`)

The scanner of inline links, and what it finds on the lines where the renderer wrote a link of its
own: the line of a redirect stub and a line under `## Related`.

The scanner walks bytes; every byte it looks for is ASCII, so the model walks characters. What the
source keeps as an index is here the rest of the line from there.

* `scanInlineLinks`: escapes, code spans, wikilinks and inline Markdown links.
* `head?_scanInlineLinks`: the first link of a line, after plain text, is what is cut at `]]`.
* `linksRead_iff`: the links of a valid plan's notes name their targets exactly when no canonical
  path has a `#`, `^` or `]]` in it or ends in `].md`.
-/

namespace Okc.Core

open Okc.Lib

/-! ## Links -/

inductive LinkSyntax
  | wiki
  | markdown
deriving DecidableEq

/-- What the scanner finds. -/
structure Link where
  linkSyntax : LinkSyntax
  byteStart : Nat
  byteEnd : Nat
  rawTarget : String
  path : Option String
  heading : Option String
  blockId : Option String
  display : Option String
  embed : Bool
deriving DecidableEq

/-- The text from where `cs` begins to where its rest `rest` begins. -/
def between (cs rest : List Char) : List Char := cs.take (cs.length - rest.length)

/-- The index of the rest of a line. -/
def indexOf (line rest : List Char) : Nat := size line - size rest

/-- `(!path.is_empty()).then(|| path.to_owned())`. -/
def nonemptyText (cs : List Char) : Option String :=
  if cs = [] then none else some (String.ofList cs)

/-- `parse_wiki_link`. -/
def parseWikiLink (raw : List Char) (byteStart byteEnd : Nat) (embed : Bool) : Link :=
  let (target, display) := splitOnce '|' raw
  let (beforeBlock, blockId) := splitOnce '^' target
  let (path, heading) := splitOnce '#' beforeBlock
  { linkSyntax := .wiki
    byteStart := byteStart
    byteEnd := byteEnd
    rawTarget := String.ofList raw
    path := nonemptyText path
    heading := heading.map String.ofList
    blockId := blockId.map String.ofList
    display := display.map String.ofList
    embed := embed }

/-! ## Markdown links -/

/-- `find_balanced_delimiter`: the rest from the closing delimiter on. -/
def findBalancedDelimiter (opening closing : Char) : Nat → List Char → Option (List Char)
  | _, [] => none
  | nested, c :: cs =>
    if c = '\\' then
      match cs with
      | [] => none
      | _ :: rest => findBalancedDelimiter opening closing nested rest
    else if c = opening then findBalancedDelimiter opening closing (nested + 1) cs
    else if c = closing then
      if 0 < nested then findBalancedDelimiter opening closing (nested - 1) cs
      else some (c :: cs)
    else findBalancedDelimiter opening closing nested cs

/-- The target loop in angle brackets: the rest from the `>` on. -/
def findAngleEnd : List Char → Option (List Char)
  | [] => none
  | c :: cs =>
    if c = '>' then some (c :: cs)
    else if c = '\\' then
      match cs with
      | [] => none
      | _ :: rest => findAngleEnd rest
    else findAngleEnd cs

/-- The target loop without angle brackets: the rest from the end of the target on. -/
def findTargetEnd : Nat → List Char → List Char
  | _, [] => []
  | nested, c :: cs =>
    if c = '\\' then
      match cs with
      | [] => []
      | _ :: rest => findTargetEnd nested rest
    else if c = '(' then findTargetEnd (nested + 1) cs
    else if c = ')' ∧ 0 < nested then findTargetEnd (nested - 1) cs
    else if c = ')' ∨ c = ' ' ∨ c = '\t' then c :: cs
    else findTargetEnd nested cs

/-- `find_markdown_close`: the rest after the closing parenthesis. -/
def findMarkdownClose : Option Char → List Char → Option (List Char)
  | _, [] => none
  | quoted, c :: cs =>
    if c = '\\' then
      match cs with
      | [] => none
      | _ :: rest => findMarkdownClose quoted rest
    else if c = '\x27' ∨ c = '\x22' then
      findMarkdownClose
        (if quoted = some c then none else if quoted = none then some c else quoted) cs
    else if c = ')' ∧ quoted = none then some cs
    else findMarkdownClose quoted cs

/-- `u8::is_ascii_whitespace`. -/
def isAsciiWhitespace (c : Char) : Bool := c ∈ [' ', '\t', '\n', '\x0c', '\r']

def isExternalTarget (target : String) : Bool :=
  ["http://", "https://", "mailto:", "data:", "obsidian:", "//"].any fun scheme =>
    scheme.toList.isPrefixOf (asciiLower target).toList

/-- `hex_value`. -/
def hexValue (value : UInt8) : Option UInt8 :=
  if 48 ≤ value ∧ value ≤ 57 then some (value - 48)
  else if 97 ≤ value ∧ value ≤ 102 then some (value - 97 + 10)
  else if 65 ≤ value ∧ value ≤ 70 then some (value - 65 + 10)
  else none

/-- The decoding loop of `percent_decode_path`. -/
def percentDecode : Bytes → Option Bytes
  | [] => some []
  | 37 :: high :: low :: rest => do
    let high ← hexValue high
    let low ← hexValue low
    let rest ← percentDecode rest
    some ((high <<< 4 ||| low) :: rest)
  | b :: rest =>
    if b = 37 then none else (percentDecode rest).map fun decoded => b :: decoded

def percentDecodePath (value : String) : Option String :=
  (percentDecode (utf8 value)).bind fun decoded => String.fromUTF8? ⟨decoded.toArray⟩

/-- `split_markdown_target`. -/
def splitMarkdownTarget (raw : List Char) : Option String × Option String × Option String :=
  if isExternalTarget (String.ofList raw) then (none, none, none)
  else
    let (path, fragment) := splitOnce '#' raw
    let (heading, blockId) := match fragment with
      | some fragment =>
        if fragment.head? = some '^' then
          (none, some (String.ofList (fragment.dropWhile (· == '^'))))
        else (some (String.ofList fragment), none)
      | none => (none, none)
    ((nonemptyText path).map fun path => (percentDecodePath path).getD path, heading, blockId)

/-- `parse_inline_markdown_link`: the link and the rest of the line after it. -/
def parseInlineMarkdownLink (line : List Char) (lineOffset : Nat) (label : List Char)
    (embed : Bool) : Option (Link × List Char) := do
  let labelEnd ← findBalancedDelimiter '[' ']' 0 label
  let openParenthesis := labelEnd.drop 1
  if openParenthesis.head? ≠ some '(' then none
  else
    let cursor := (openParenthesis.drop 1).dropWhile isAsciiWhitespace
    let angleWrapped := cursor.head? = some '<'
    let target := if angleWrapped then cursor.drop 1 else cursor
    let targetEnd ← if angleWrapped then findAngleEnd target else some (findTargetEnd 0 target)
    if targetEnd.length = target.length then none
    else
      let rest ← findMarkdownClose none (if angleWrapped then targetEnd.drop 1 else targetEnd)
      let raw := between target targetEnd
      let (path, heading, blockId) := splitMarkdownTarget raw
      some ({ linkSyntax := .markdown
              byteStart := lineOffset + indexOf line target
              byteEnd := lineOffset + indexOf line targetEnd
              rawTarget := String.ofList raw
              path := path
              heading := heading
              blockId := blockId
              display := some (String.ofList (between label labelEnd))
              embed := embed }, rest)

/-! ## The scanner -/

/-- `find_backtick_close`: the rest after a run of `expected` backticks. The first argument counts
the backticks just passed. -/
def findBacktickClose (expected : Nat) : Nat → List Char → Option (List Char)
  | run, [] => if run = expected then some [] else none
  | run, c :: cs =>
    if c = '\x60' then findBacktickClose expected (run + 1) cs
    else if run = expected then some (c :: cs)
    else findBacktickClose expected 0 cs

/-- The wikilink that begins a text, and the rest after its `]]`. -/
def scanWikiLink (line : List Char) (lineOffset : Nat) (cs : List Char) :
    Option (Link × List Char) := do
  let (embed, opening) ←
    if "![[".toList <+: cs then some (true, cs.drop 3)
    else if "[[".toList <+: cs then some (false, cs.drop 2)
    else none
  let (raw, rest) ← cutAt "]]".toList opening
  let start := lineOffset + indexOf line opening
  some (parseWikiLink raw start (start + size raw) embed, rest)

/-- The inline Markdown link that begins a text, and the rest after it. -/
def scanMarkdownLink (line : List Char) (lineOffset : Nat) (cs : List Char) :
    Option (Link × List Char) :=
  if "![".toList <+: cs then parseInlineMarkdownLink line lineOffset (cs.drop 2) true
  else if cs.head? = some '[' ∧ ¬ "[[".toList <+: cs then
    parseInlineMarkdownLink line lineOffset (cs.drop 1) false
  else none

/-- One turn of the loop at `c`: the link found, and where the next turn begins. -/
def scanStep (line : List Char) (lineOffset : Nat) (c : Char) (cs : List Char) :
    Option Link × List Char :=
  if c = '\\' then (none, cs.drop 1)
  else if c = '\x60' then
    let after := cs.dropWhile (· == '\x60')
    let run := (cs.takeWhile (· == '\x60')).length + 1
    (none, (findBacktickClose run 0 after).getD after)
  else
    match (scanWikiLink line lineOffset (c :: cs)).or (scanMarkdownLink line lineOffset (c :: cs)) with
    | some (link, rest) => (some link, rest)
    | none => (none, cs)

/-- The loop. The first argument counts the characters that the turn before has passed. -/
def scanFrom (line : List Char) (lineOffset : Nat) : Nat → List Char → List Link
  | _, [] => []
  | skip + 1, _ :: cs => scanFrom line lineOffset skip cs
  | 0, c :: cs =>
    let (link, rest) := scanStep line lineOffset c cs
    link.toList ++ scanFrom line lineOffset (cs.length - rest.length) cs

/-- `scan_inline_links`, with the links of its one line. -/
def scanInlineLinks (line : String) (lineOffset : Nat) : List Link :=
  scanFrom line.toList lineOffset 0 line.toList

/-! ## The first link of a line -/

/-- No escape, no code span and no link begins with the character. -/
def Plain (c : Char) : Prop := c ∉ ['\\', '\x60', '[', '!']

section Scan

variable {line : List Char} {lineOffset : Nat}

theorem scanStep_plain {c : Char} (h : Plain c) (cs : List Char) :
    scanStep line lineOffset c cs = (none, cs) := by
  simp only [Plain, List.mem_cons, List.not_mem_nil, or_false, not_or] at h
  obtain ⟨hescape, hcode, hopen, hembed⟩ := h
  have hwiki : scanWikiLink line lineOffset (c :: cs) = none := by
    have h₁ : ¬ "![[".toList <+: c :: cs := fun hp => hembed (List.cons_prefix_cons.mp hp).1.symm
    have h₂ : ¬ "[[".toList <+: c :: cs := fun hp => hopen (List.cons_prefix_cons.mp hp).1.symm
    simp only [scanWikiLink, if_neg h₁, if_neg h₂]
    rfl
  have hmarkdown : scanMarkdownLink line lineOffset (c :: cs) = none := by
    have h₁ : ¬ "![".toList <+: c :: cs := fun hp => hembed (List.cons_prefix_cons.mp hp).1.symm
    have h₂ : ¬ ((c :: cs).head? = some '[' ∧ ¬ "[[".toList <+: c :: cs) := fun hp =>
      hopen (Option.some.inj hp.1)
    rw [scanMarkdownLink, if_neg h₁, if_neg h₂]
  rw [scanStep, if_neg hescape, if_neg hcode, hwiki, hmarkdown]
  rfl

/-- The scanner walks over plain text. -/
theorem scanFrom_plain {before : List Char} (h : ∀ c ∈ before, Plain c) (rest : List Char) :
    scanFrom line lineOffset 0 (before ++ rest) = scanFrom line lineOffset 0 rest := by
  induction before with
  | nil => rfl
  | cons c cs ih =>
    rw [List.cons_append, scanFrom, scanStep_plain (h c List.mem_cons_self)]
    simp only [Option.toList_none, List.nil_append, Nat.sub_self]
    exact ih fun d hd => h d (List.mem_cons_of_mem _ hd)

theorem head?_scanFrom_wiki {opening raw after : List Char}
    (h : cutAt "]]".toList opening = some (raw, after)) :
    ∃ byteStart byteEnd, (scanFrom line lineOffset 0 ('[' :: '[' :: opening)).head? =
      some (parseWikiLink raw byteStart byteEnd false) := by
  have h₁ : ¬ "![[".toList <+: '[' :: '[' :: opening := fun hp =>
    absurd (List.cons_prefix_cons.mp hp).1 (by decide)
  have h₂ : "[[".toList <+: '[' :: '[' :: opening := ⟨opening, rfl⟩
  refine ⟨lineOffset + indexOf line opening, lineOffset + indexOf line opening + size raw, ?_⟩
  have hwiki : scanWikiLink line lineOffset ('[' :: '[' :: opening) =
      some (parseWikiLink raw (lineOffset + indexOf line opening)
        (lineOffset + indexOf line opening + size raw) false, after) := by
    simp only [scanWikiLink, if_neg h₁, if_pos h₂, Option.bind_eq_bind, Option.bind_some,
      List.drop_succ_cons, List.drop_zero, h]
  rw [scanFrom, scanStep, if_neg (by decide), if_neg (by decide), hwiki]
  rfl

/-- **The first link of a line.** After plain text, what stands between `[[` and the first `]]`. -/
theorem head?_scanInlineLinks {line : String} {before opening raw after : List Char}
    (hline : line.toList = before ++ "[[".toList ++ opening) (hb : ∀ c ∈ before, Plain c)
    (h : cutAt "]]".toList opening = some (raw, after)) (lineOffset : Nat) :
    ∃ byteStart byteEnd, (scanInlineLinks line lineOffset).head? =
      some (parseWikiLink raw byteStart byteEnd false) := by
  have hopen : "[[".toList = ['[', '['] := by decide
  rw [scanInlineLinks]
  generalize line.toList = whole at hline ⊢
  have hwhole : whole = before ++ '[' :: '[' :: opening := by rw [hline, hopen]; simp
  rw [hwhole, scanFrom_plain hb]
  exact head?_scanFrom_wiki h

end Scan

/-! ## Reading a wikilink -/

/-- The link names a path alone exactly when that is its text, up to the display. -/
theorem parseWikiLink_names {raw : List Char} {byteStart byteEnd : Nat} {embed : Bool}
    {path : String} :
    ((parseWikiLink raw byteStart byteEnd embed).path = some path ∧
      (parseWikiLink raw byteStart byteEnd embed).heading = none ∧
      (parseWikiLink raw byteStart byteEnd embed).blockId = none) ↔
    (splitOnce '|' raw).1 = path.toList ∧ path ≠ "" ∧ '#' ∉ path.toList ∧ '^' ∉ path.toList := by
  simp only [parseWikiLink, Option.map_eq_none_iff, splitOnce_snd_eq_none]
  generalize (splitOnce '|' raw).1 = target
  constructor
  · rintro ⟨hpath, hheading, hblock⟩
    rw [splitOnce_of_not_mem hblock] at hpath hheading
    rw [splitOnce_of_not_mem hheading, nonemptyText] at hpath
    by_cases hnil : target = []
    · rw [if_pos hnil] at hpath
      cases hpath
    · rw [if_neg hnil] at hpath
      obtain rfl := Option.some.inj hpath
      rw [String.toList_ofList]
      exact ⟨rfl, fun he => hnil (String.ofList_eq_empty_iff.mp he), hheading, hblock⟩
  · rintro ⟨rfl, hne, hheading, hblock⟩
    rw [splitOnce_of_not_mem hblock]
    rw [splitOnce_of_not_mem hheading, nonemptyText, if_neg (by simpa using hne),
      String.ofList_toList]
    exact ⟨rfl, hheading, hblock⟩

/-- The first link of the line is a wikilink to the note at `path` as a whole. -/
def ReadsBack (line path : String) : Prop :=
  ∀ lineOffset, ∃ link, (scanInlineLinks line lineOffset).head? = some link ∧
    link.linkSyntax = .wiki ∧ (link.path = some path ∨ link.path = some (stripMd path)) ∧
    link.heading = none ∧ link.blockId = none

/-- What is cut out at `]]` decides what the line reads. -/
theorem readsBack_iff {line path : String} {before opening raw after : List Char}
    (hline : line.toList = before ++ "[[".toList ++ opening) (hb : ∀ c ∈ before, Plain c)
    (h : cutAt "]]".toList opening = some (raw, after)) :
    ReadsBack line path ↔ ∃ q, (q = path ∨ q = stripMd path) ∧
      (splitOnce '|' raw).1 = q.toList ∧ q ≠ "" ∧ '#' ∉ q.toList ∧ '^' ∉ q.toList := by
  constructor
  · intro hread
    obtain ⟨link, hhead, -, hpath, hheading, hblock⟩ := hread 0
    obtain ⟨byteStart, byteEnd, hfirst⟩ := head?_scanInlineLinks hline hb h 0
    obtain rfl : parseWikiLink raw byteStart byteEnd false = link :=
      Option.some.inj (hfirst.symm.trans hhead)
    rcases hpath with hpath | hpath
    · exact ⟨_, Or.inl rfl, parseWikiLink_names.mp ⟨hpath, hheading, hblock⟩⟩
    · exact ⟨_, Or.inr rfl, parseWikiLink_names.mp ⟨hpath, hheading, hblock⟩⟩
  · rintro ⟨q, hq, hnames⟩ lineOffset
    obtain ⟨byteStart, byteEnd, hfirst⟩ := head?_scanInlineLinks hline hb h lineOffset
    obtain ⟨hpath, hheading, hblock⟩ := parseWikiLink_names.mpr hnames
    refine ⟨_, hfirst, rfl, ?_, hheading, hblock⟩
    rcases hq with rfl | rfl
    · exact Or.inl hpath
    · exact Or.inr hpath

/-! ## The lines of the links -/

/-- The line of a redirect stub. -/
def stubLine (canonical : String) : String :=
  "This source note was integrated into " ++ "[[" ++ stripMd canonical ++ "]]."

/-- The line of a related link. -/
def relatedLine (kind : RelatedLinkKind) (target : TaxonomyCluster) : String :=
  "- " ++ kind.debug ++ ": " ++ "[[" ++ target.notePath ++ "|" ++ target.title ++ "]]"

/-- No character of the link syntax, and nothing that its `]]` would join. -/
structure LinkSafe (path : String) : Prop where
  heading : '#' ∉ path.toList
  block : '^' ∉ path.toList
  closing : ¬ [']', ']'] <:+: path.toList
  bracket : ¬ [']', '.', 'm', 'd'] <:+ path.toList

/-- The cut on the line of a stub is at its end unless the path closes the link before. -/
theorem cutAt_stub_iff {s raw after : List Char}
    (h : cutAt [']', ']'] (s ++ [']', ']', '.']) = some (raw, after)) :
    raw <+: s ∧ (raw = s ↔ ¬ [']', ']'] <:+: s ∧ ¬ [']'] <:+ s) := by
  obtain ⟨hcut, hmin⟩ := cutAt_eq_some.mp h
  have hle : raw.length ≤ s.length := hmin s ['.'] (by simp)
  have hstart : raw <+: s := by
    refine List.prefix_of_prefix_length_le ?_ (List.prefix_append s [']', ']', '.']) hle
    rw [hcut, List.append_assoc]
    exact List.prefix_append _ _
  refine ⟨hstart, ?_, ?_⟩
  · rintro rfl
    constructor
    · rintro ⟨a, b, rfl⟩
      have := hmin a (b ++ [']', ']', '.']) (by simp)
      simp at this
    · rintro ⟨t, rfl⟩
      have := hmin t [']', '.'] (by simp)
      simp at this
  · rintro ⟨hword, hsuffix⟩
    obtain ⟨u, rfl⟩ := hstart
    have hrest : u ++ [']', ']', '.'] = [']', ']'] ++ after := by simpa using hcut
    match u with
    | [] => exact (List.append_nil raw).symm
    | [x] =>
      obtain rfl : x = ']' := (List.cons.inj hrest).1
      exact absurd (List.suffix_append raw [']']) hsuffix
    | x :: y :: u =>
      obtain ⟨rfl, htail⟩ : x = ']' ∧ y :: u ++ [']', ']', '.'] = ']' :: after :=
        List.cons.inj hrest
      obtain rfl : y = ']' := (List.cons.inj htail).1
      exact absurd ⟨raw, u, by simp⟩ hword

/-- A path without `]]` is inside the cut, together with the bar after it. -/
theorem cutAt_related {path title raw after : List Char} (h : ¬ [']', ']'] <:+: path)
    (hcut : cutAt [']', ']'] (path ++ '|' :: title) = some (raw, after)) :
    ∃ display, raw = path ++ '|' :: display := by
  obtain ⟨heq, -⟩ := cutAt_eq_some.mp hcut
  rw [List.append_assoc] at heq
  rcases List.append_eq_append_iff.mp heq with ⟨u, rfl, hu⟩ | ⟨u, rfl, hu⟩
  · cases u with
    | nil => exact absurd (List.cons.inj hu).1 (by decide)
    | cons x display =>
      obtain rfl := (List.cons.inj hu).1
      exact ⟨display, rfl⟩
  · match u with
    | [] => exact absurd (List.cons.inj hu).1 (by decide)
    | [x] => exact absurd (List.cons.inj (List.cons.inj hu).2).1 (by decide)
    | x :: y :: u =>
      obtain ⟨rfl, htail⟩ := List.cons.inj hu
      obtain ⟨rfl, -⟩ := List.cons.inj htail
      exact absurd ⟨raw, u, by simp⟩ h

/-! ## Canonical paths -/

/-- An occurrence of a word does not begin in a text without its first character. -/
theorem infix_append_right_iff {x : Char} {word before rest : List Char} (h : x ∉ before) :
    x :: word <:+: before ++ rest ↔ x :: word <:+: rest := by
  induction before with
  | nil => rfl
  | cons c cs ih =>
    obtain ⟨hc, hcs⟩ : x ≠ c ∧ x ∉ cs := by simpa using h
    rw [List.cons_append, List.infix_cons_iff, ih hcs, or_iff_right]
    exact fun hp => hc (List.cons_prefix_cons.mp hp).1

theorem suffix_append_right_iff {x : Char} {word before rest : List Char} (h : x ∉ before) :
    x :: word <:+ before ++ rest ↔ x :: word <:+ rest := by
  induction before with
  | nil => rfl
  | cons c cs ih =>
    obtain ⟨hc, hcs⟩ : x ≠ c ∧ x ∉ cs := by simpa using h
    rw [List.cons_append, List.suffix_cons_iff, ih hcs, or_iff_right]
    exact fun he => hc (List.cons.inj he).1

/-- Nor does it end in a text without its last character. -/
theorem infix_append_left_iff {x : Char} {word rest after : List Char} (h : x ∉ after) :
    word ++ [x] <:+: rest ++ after ↔ word ++ [x] <:+: rest := by
  rw [← List.reverse_infix, ← @List.reverse_infix _ _ rest]
  simp only [List.reverse_append, List.reverse_singleton, List.singleton_append]
  exact infix_append_right_iff (by simpa using h)

/-- The text of a path is its stripped text, with or without the suffix. -/
theorem stripMd_cases (path : String) :
    path.toList = (stripMd path).toList ++ ['.', 'm', 'd'] ∨
      stripMd path = path ∧ ¬ ['.', 'm', 'd'] <:+ path.toList := by
  have hmd : ".md".toList = ['.', 'm', 'd'] := by decide
  unfold stripMd
  rw [hmd]
  by_cases h : ['.', 'm', 'd'] <:+ path.toList
  · left
    rw [if_pos h, String.toList_ofList]
    obtain ⟨t, ht⟩ := h
    rw [← ht]
    simp
  · exact Or.inr ⟨if_neg h, h⟩

/-- A path that ends in `.md`, in any case, does not end in a bracket. -/
theorem not_bracket_suffix {path : String} (hmd : ".md".toList <:+ (asciiLower path).toList) :
    ¬ [']'] <:+ path.toList := by
  rintro ⟨t, ht⟩
  have hsplit : ".md".toList = ['.', 'm', 'd'] := by decide
  obtain ⟨u, hu⟩ := hmd
  have hlast := congrArg List.getLast? hu
  rw [asciiLower, ← ht, hsplit] at hlast
  simp at hlast

theorem linkSafe_iff {path : String} (hmd : ".md".toList <:+ (asciiLower path).toList) :
    LinkSafe path ↔ '#' ∉ (stripMd ("knowledge/" ++ path)).toList ∧
      '^' ∉ (stripMd ("knowledge/" ++ path)).toList ∧
      ¬ [']', ']'] <:+: (stripMd ("knowledge/" ++ path)).toList ∧
      ¬ [']'] <:+ (stripMd ("knowledge/" ++ path)).toList := by
  have hroot : ∀ c ∈ ['#', '^', ']'], c ∉ "knowledge/".toList := by simp
  have happend : ("knowledge/" ++ path).toList = "knowledge/".toList ++ path.toList :=
    String.toList_append
  generalize "knowledge/".toList = root at hroot happend
  have hmem : ∀ c ∈ ['#', '^'], c ∈ path.toList ↔ c ∈ ("knowledge/" ++ path).toList := by
    intro c hc
    have hroot := hroot c (by revert hc; simp; tauto)
    rw [happend, List.mem_append, or_iff_right hroot]
  have hword : [']', ']'] <:+: path.toList ↔ [']', ']'] <:+: ("knowledge/" ++ path).toList := by
    rw [happend, infix_append_right_iff (hroot ']' (by simp))]
  have hsuffix : [']', '.', 'm', 'd'] <:+ path.toList ↔
      [']', '.', 'm', 'd'] <:+ ("knowledge/" ++ path).toList := by
    rw [happend, suffix_append_right_iff (hroot ']' (by simp))]
  have hbracket : ¬ [']'] <:+ ("knowledge/" ++ path).toList := by
    rw [happend, suffix_append_right_iff (hroot ']' (by simp))]
    exact not_bracket_suffix hmd
  have hsafe : LinkSafe path ↔ '#' ∉ path.toList ∧ '^' ∉ path.toList ∧
      ¬ [']', ']'] <:+: path.toList ∧ ¬ [']', '.', 'm', 'd'] <:+ path.toList :=
    ⟨fun h => ⟨h.heading, h.block, h.closing, h.bracket⟩, fun ⟨h₁, h₂, h₃, h₄⟩ => ⟨h₁, h₂, h₃, h₄⟩⟩
  rw [hsafe, hmem '#' (by simp), hmem '^' (by simp), hword, hsuffix]
  generalize "knowledge/" ++ path = whole at *
  rcases stripMd_cases whole with hmds | ⟨hsame, hnot⟩
  · rw [hmds]
    have hclose : [']', ']'] <:+: (stripMd whole).toList ++ ['.', 'm', 'd'] ↔
        [']', ']'] <:+: (stripMd whole).toList :=
      @infix_append_left_iff ']' [']'] _ _ (by decide)
    have hend : [']', '.', 'm', 'd'] <:+ (stripMd whole).toList ++ ['.', 'm', 'd'] ↔
        [']'] <:+ (stripMd whole).toList :=
      (@List.suffix_append_inj_of_length_eq _ [']'] _ _ _ rfl).trans (and_iff_left rfl)
    simp [hclose, hend]
  · have hnone : ¬ [']', '.', 'm', 'd'] <:+ whole.toList := fun h =>
      hnot ((List.suffix_cons ']' _).trans h)
    rw [hsame]
    simp [hnone, hbracket]

/-! ## Reading the lines back -/

theorem stripMd_length_le (path : String) :
    (stripMd path).toList.length ≤ path.toList.length := by
  rcases stripMd_cases path with h | ⟨h, -⟩
  · rw [h]
    simp
  · rw [h]

theorem mem_stripMd {path : String} {c : Char} (h : c ∈ (stripMd path).toList) :
    c ∈ path.toList := by
  rcases stripMd_cases path with hs | ⟨hs, -⟩
  · rw [hs]
    exact List.mem_append_left _ h
  · rwa [hs] at h

/-- **The line of a stub.** It reads back exactly when the path in it cannot end the link or begin
a fragment. -/
theorem readsBack_stub {path : String} (hne : stripMd path ≠ "") (hbar : '|' ∉ path.toList) :
    ReadsBack (stubLine path) path ↔ '#' ∉ (stripMd path).toList ∧ '^' ∉ (stripMd path).toList ∧
      ¬ [']', ']'] <:+: (stripMd path).toList ∧ ¬ [']'] <:+ (stripMd path).toList := by
  have hclose : "]]".toList = [']', ']'] := by decide
  have hrest : "]].".toList = [']', ']', '.'] := by decide
  have hline : (stubLine path).toList = "This source note was integrated into ".toList ++
      "[[".toList ++ ((stripMd path).toList ++ [']', ']', '.']) := by
    unfold stubLine
    simp only [String.toList_append, List.append_assoc, hrest]
  have hplain : ∀ c ∈ "This source note was integrated into ".toList, Plain c := by
    simp [Plain]
  have hcloses : [']', ']'] <:+: (stripMd path).toList ++ [']', ']', '.'] :=
    ⟨(stripMd path).toList, ['.'], by simp⟩
  obtain ⟨⟨raw, after⟩, hcut⟩ := cutAt_isSome hcloses
  obtain ⟨hstart, hraw⟩ := cutAt_stub_iff hcut
  have htarget : (splitOnce '|' raw).1 = raw := by
    rw [splitOnce_of_not_mem fun hmem => hbar (mem_stripMd (hstart.subset hmem))]
  rw [readsBack_iff hline hplain (hclose ▸ hcut), htarget, ← hraw]
  constructor
  · rintro ⟨q, hq, rfl, -, hheading, hblock⟩
    have hsame : q.toList = (stripMd path).toList := by
      refine hstart.eq_of_length_le ?_
      rcases hq with rfl | rfl
      · exact stripMd_length_le _
      · exact le_refl _
    exact ⟨hsame ▸ hheading, hsame ▸ hblock, hsame⟩
  · rintro ⟨hheading, hblock, rfl⟩
    exact ⟨_, Or.inr rfl, rfl, hne, hheading, hblock⟩

/-- The line of a related link to a path that cannot end the link or begin a fragment. -/
theorem readsBack_related {kind : RelatedLinkKind} {t : TaxonomyCluster}
    (hheading : '#' ∉ t.notePath.toList) (hblock : '^' ∉ t.notePath.toList)
    (hclosing : ¬ [']', ']'] <:+: t.notePath.toList) (hbar : '|' ∉ t.notePath.toList) :
    ReadsBack (relatedLine kind t) t.notePath := by
  have hclose : "]]".toList = [']', ']'] := by decide
  have hline : (relatedLine kind t).toList = ("- " ++ kind.debug ++ ": ").toList ++
      "[[".toList ++ (t.notePath.toList ++ '|' :: (t.title.toList ++ [']', ']'])) := by
    have hone : "|".toList = ['|'] := by decide
    simp only [relatedLine, String.toList_append, List.append_assoc, hone, hclose,
      List.cons_append, List.nil_append]
  have hplain : ∀ c ∈ ("- " ++ kind.debug ++ ": ").toList, Plain c := by
    cases kind <;> simp [Plain, RelatedLinkKind.debug]
  have hcloses : [']', ']'] <:+: t.notePath.toList ++ '|' :: (t.title.toList ++ [']', ']']) :=
    ⟨t.notePath.toList ++ '|' :: t.title.toList, [], by simp⟩
  obtain ⟨⟨raw, after⟩, hcut⟩ := cutAt_isSome hcloses
  obtain ⟨display, rfl⟩ := cutAt_related hclosing hcut
  have hne : t.notePath ≠ "" := by
    intro h
    have hroot : ("knowledge/" ++ t.canonicalPath).toList = [] := by
      rw [← TaxonomyCluster.notePath, h]
      rfl
    simp at hroot
  refine (readsBack_iff hline hplain (hclose ▸ hcut)).mpr
    ⟨_, Or.inl rfl, ?_, hne, hheading, hblock⟩
  rw [splitOnce_append hbar]

/-! ## The links of a plan -/

/-- A line of a text, between two line breaks. -/
def LineOf (line text : String) : Prop := OneLine line ∧ Occurs ("\n" ++ line ++ "\n") text

theorem OneLine.append {s t : String} (hs : OneLine s) (ht : OneLine t) : OneLine (s ++ t) := by
  intro c hc
  rw [String.toList_append, List.mem_append] at hc
  exact hc.elim (hs c) (ht c)

theorem oneLine_of_all {s : String} (h : (s.toList.all fun c => !isControl c) = true) :
    OneLine s :=
  oneLine_iff.mpr fun c hc => by simpa using List.all_eq_true.mp h c hc

theorem OneLine.stripMd {path : String} (h : OneLine path) : OneLine (stripMd path) :=
  fun c hc => h c (mem_stripMd hc)

theorem lineOf_stub {plan : ApprovedIntegrationPlan} {d : IntegrationDocument} {canonical : String}
    (h : OneLine canonical) : LineOf (stubLine canonical) (renderLegacyStub plan d canonical) := by
  constructor
  · have htext : OneLine "This source note was integrated into " :=
      oneLine_of_all (by decide +kernel)
    have hopen : OneLine "[[" := oneLine_of_all (by decide +kernel)
    have hclose : OneLine "]]." := oneLine_of_all (by decide +kernel)
    exact ((htext.append hopen).append h.stripMd).append hclose
  · have hopen : "\n---\n\nThis source note was integrated into [[" =
        "\n---\n" ++ ("\n" ++ ("This source note was integrated into " ++ "[[")) := by
      decide +kernel
    have hclose : "]].\n" = "]]." ++ "\n" := by decide +kernel
    unfold renderLegacyStub stubLine
    rw [hopen, hclose]
    refine ⟨"---\nokc_redirect: true\nokc_schema: 3\nokc_source_document: " ++
      yamlScalar d.documentId.toString ++ "\nokc_integration_plan: " ++
      yamlScalar plan.integrationPlanId ++ "\n---\n", "", ?_⟩
    simp only [String.append_assoc, String.append_empty]

theorem lineOf_related {plan : ApprovedIntegrationPlan} {cluster : TaxonomyCluster}
    {revision : ApprovedClusterRevision} {text : String}
    (ht : renderCanonicalNote plan cluster revision = .ok text) {l : RelatedLink}
    (hl : l ∈ revision.proposal.relatedLinks) {t : TaxonomyCluster}
    (hg : get? l.targetClusterId plan.taxonomy.clustersById = some t) (hpath : OneLine t.notePath)
    (htitle : OneLine t.title) : LineOf (relatedLine l.kind t) text := by
  constructor
  · have hkind : OneLine l.kind.debug := by
      cases l.kind <;> exact oneLine_of_all (by decide +kernel)
    have hdash : OneLine "- " := oneLine_of_all (by decide +kernel)
    have hcolon : OneLine ": " := oneLine_of_all (by decide +kernel)
    have hopen : OneLine "[[" := oneLine_of_all (by decide +kernel)
    have hbar : OneLine "|" := oneLine_of_all (by decide +kernel)
    have hclose : OneLine "]]" := oneLine_of_all (by decide +kernel)
    exact ((((((hdash.append hkind).append hcolon).append hopen).append hpath).append
      hbar).append htitle).append hclose
  · simp only [renderCanonicalNote, bind_eq_ok] at ht
    obtain ⟨links, hlinks, ht⟩ := ht
    obtain rfl := Except.ok.inj ht
    obtain ⟨link, hmem, hlink⟩ := mem_of_mapM_left hlinks hl
    rw [renderLink, hg] at hlink
    have htext : "\n" ++ relatedLine l.kind t ++ "\n" = link := by
      have hopen : ": [[knowledge/" = ": " ++ ("[[" ++ "knowledge/") := by decide +kernel
      have hdash : "\n- " = "\n" ++ "- " := by decide +kernel
      have hclose : "]]\n" = "]]" ++ "\n" := by decide +kernel
      rw [← Except.ok.inj hlink, hopen, hdash, hclose, relatedLine, TaxonomyCluster.notePath]
      simp only [String.append_assoc]
    rw [htext]
    exact (occurs_underHeading "\n## Related\n" hmem).trans (occurs_concat (by simp))

section Plan

variable {X : Externals} {p : ApprovedIntegrationPlan} {files : List OutputFile}

/-- Every redirect stub and every related link reads back as a link to the whole note. -/
structure LinksRead (p : ApprovedIntegrationPlan) : Prop where
  stub : ∀ d ∈ p.corpus.documents, ∀ c ∈ p.taxonomy.clusters, d.documentId ∈ c.documentIds →
    ReadsBack (stubLine c.notePath) c.notePath
  related : ∀ r ∈ p.clusters, ∀ l ∈ r.proposal.relatedLinks, ∀ t,
    get? l.targetClusterId p.taxonomy.clustersById = some t →
      ReadsBack (relatedLine l.kind t) t.notePath

/-- The lines that `LinksRead` is about stand in the files. -/
theorem lines_of_links (h : ValidPlan X p) (hf : materializedFiles X p = .ok files) :
    (∀ d ∈ p.corpus.documents, ∀ c ∈ p.taxonomy.clusters, d.documentId ∈ c.documentIds →
      ∃ text, (d.stubPath, utf8 text) ∈ files ∧ LineOf (stubLine c.notePath) text) ∧
    ∀ r ∈ p.clusters, ∀ c ∈ p.taxonomy.clusters, r.proposal.clusterId = c.clusterId →
      ∀ l ∈ r.proposal.relatedLinks, ∀ t,
        get? l.targetClusterId p.taxonomy.clustersById = some t →
        ∃ text, (c.notePath, utf8 text) ∈ files ∧ LineOf (relatedLine l.kind t) text := by
  have hnote : ∀ c ∈ p.taxonomy.clusters, OneLine c.notePath := fun c hc =>
    (h.portable_outputPaths _ (List.mem_append_left _ (List.mem_map_of_mem hc))).oneLine
  constructor
  · intro d hd c hc hdc
    exact ⟨_, stub_mem_materializedFiles h hf hd hc hdc, lineOf_stub (hnote c hc)⟩
  · intro r hr c hc hid l hl t hg
    obtain ⟨text, ht, hmem⟩ := note_mem_materializedFiles h hf hr hc hid
    have htarget := (h.taxonomy.get?_clustersById.mp hg).1
    exact ⟨text, hmem, lineOf_related ht hl hg (hnote t htarget)
      (h.taxonomy.cluster t htarget).titleBounded.oneLine⟩

theorem bar_not_mem_notePath (h : ValidPlan X p) {c : TaxonomyCluster}
    (hc : c ∈ p.taxonomy.clusters) : '|' ∉ c.notePath.toList := by
  have hportable := h.portable_outputPaths c.notePath
    (List.mem_append_left _ (List.mem_map_of_mem hc))
  intro hmem
  obtain ⟨component, hcomponent, hcc⟩ := mem_splitSlash_of_mem hmem (by decide)
  have hv := (hportable.component component hcomponent).1
  simp only [validateComponent, bind_unit_eq_ok, reject_eq_ok, not_or, List.any_eq_true,
    not_exists, not_and] at hv
  have hforbidden := hv.1.2.2.2.2.2 '|' hcc
  exact hforbidden (by decide)

theorem stripMd_notePath_ne_empty (c : TaxonomyCluster) : stripMd c.notePath ≠ "" := by
  have hlen : 10 ≤ c.notePath.toList.length := by
    rw [TaxonomyCluster.notePath, String.toList_append, List.length_append]
    exact Nat.le_add_right 10 _
  intro hnil
  rcases stripMd_cases c.notePath with hs | ⟨hs, -⟩
  · rw [hs, hnil] at hlen
    exact absurd hlen (by decide)
  · rw [← hs, hnil] at hlen
    exact absurd hlen (by decide)

/-- The stub of a cluster reads back exactly when its path is safe. -/
theorem readsBack_stub_iff (h : ValidPlan X p) {c : TaxonomyCluster}
    (hc : c ∈ p.taxonomy.clusters) :
    ReadsBack (stubLine c.notePath) c.notePath ↔ LinkSafe c.canonicalPath := by
  rw [linkSafe_iff (h.taxonomy.cluster c hc).markdown]
  exact readsBack_stub (stripMd_notePath_ne_empty c) (bar_not_mem_notePath h hc)

theorem LinkSafe.notePath {c : TaxonomyCluster} (h : LinkSafe c.canonicalPath) :
    '#' ∉ c.notePath.toList ∧ '^' ∉ c.notePath.toList ∧ ¬ [']', ']'] <:+: c.notePath.toList := by
  have hroot : ∀ x ∈ ['#', '^', ']'], x ∉ "knowledge/".toList := by simp
  rw [TaxonomyCluster.notePath, String.toList_append, List.mem_append, List.mem_append,
    infix_append_right_iff (hroot ']' (by simp))]
  exact ⟨fun hm => hm.elim (hroot '#' (by simp)) h.heading,
    fun hm => hm.elim (hroot '^' (by simp)) h.block, h.closing⟩

/-- **Which links read back.** In a valid plan every redirect and related link, on a line of its
file, names the whole target note exactly when no canonical path has a character of the link syntax
in it. -/
theorem linksRead_iff (h : ValidPlan X p) (hf : materializedFiles X p = .ok files) :
    (LinksRead p ↔ ∀ c ∈ p.taxonomy.clusters, LinkSafe c.canonicalPath) ∧
    (∀ d ∈ p.corpus.documents, ∀ c ∈ p.taxonomy.clusters, d.documentId ∈ c.documentIds →
      ∃ text, (d.stubPath, utf8 text) ∈ files ∧ LineOf (stubLine c.notePath) text) ∧
    ∀ r ∈ p.clusters, ∀ c ∈ p.taxonomy.clusters, r.proposal.clusterId = c.clusterId →
      ∀ l ∈ r.proposal.relatedLinks, ∀ t,
        get? l.targetClusterId p.taxonomy.clustersById = some t →
        ∃ text, (c.notePath, utf8 text) ∈ files ∧ LineOf (relatedLine l.kind t) text := by
  refine ⟨⟨fun hread c hc => ?_, fun hsafe => ⟨?_, ?_⟩⟩, lines_of_links h hf⟩
  · have hcluster := h.taxonomy.cluster c hc
    obtain ⟨id, hid⟩ := List.exists_mem_of_ne_nil _ hcluster.nonempty
    obtain ⟨d, hd, rfl⟩ := List.mem_map.mp (hcluster.known id hid)
    exact (readsBack_stub_iff h hc).mp (hread.stub d hd c hc hid)
  · intro d _ c hc _
    exact (readsBack_stub_iff h hc).mpr (hsafe c hc)
  · intro r _ l _ t hg
    have htarget := (h.taxonomy.get?_clustersById.mp hg).1
    obtain ⟨hheading, hblock, hclosing⟩ := (hsafe t htarget).notePath
    exact readsBack_related hheading hblock hclosing (bar_not_mem_notePath h htarget)

end Plan

/-- A note at the given path, related to itself. -/
def related (path : String) : NoteContent where
  path := path
  sections := []
  links := [⟨.related, "all", []⟩]
  contradictions := []

theorem related_ok (sha256 : Bytes → ContentHash) (path : String)
    (hname : validateComponent .default path = .ok ()) (hlen : len path ≤ 1014)
    (hmd : ".md".toList <:+ (asciiLower path).toList) :
    (related path).Ok (plainExternals sha256) 1 where
  path := (portable_note path hname hlen).1
  notePath := (portable_note path hname hlen).2
  markdown := hmd
  sectionIds := List.nodup_nil
  sections := fun s hs => absurd hs List.not_mem_nil
  links := fun l hl => by
    rw [List.mem_singleton.mp hl]
    exact ⟨rfl, List.nodup_nil, fun item hitem => absurd hitem List.not_mem_nil⟩
  contradictionIds := List.nodup_nil
  contradictions := fun c hc => absurd hc List.not_mem_nil

theorem linksRead_iff_related :
    LinksRead (notePlan (plainExternals prefixHash) 1 (related "all.md")) := by
  have hmd : ".md".toList <:+ (asciiLower "all.md").toList := by decide
  have h := notePlan_valid (n := 1) (by omega) (by omega)
    (related_ok prefixHash "all.md" (by decide) (by decide) hmd)
  obtain ⟨files, hf⟩ := materializedFiles_isOk h
  refine (linksRead_iff h hf).1.mpr fun c hc => ?_
  rw [List.mem_singleton.mp hc]
  show LinkSafe "all.md"
  exact ⟨by decide, by decide, by decide, by decide⟩

/-- A plan whose redirect leads to a heading of another note. -/
theorem link_misread :
    ValidPlan (plainExternals prefixHash)
        (notePlan (plainExternals prefixHash) 1 (related "a#b.md")) ∧
      ¬ LinksRead (notePlan (plainExternals prefixHash) 1 (related "a#b.md")) ∧
      (scanInlineLinks (stubLine "knowledge/a#b.md") 0).map
          (fun link => (link.path, link.heading)) = [(some "knowledge/a", some "b")] := by
  have hmd : ".md".toList <:+ (asciiLower "a#b.md").toList := by decide
  have h := notePlan_valid (n := 1) (by omega) (by omega)
    (related_ok prefixHash "a#b.md" (by decide) (by decide) hmd)
  refine ⟨h, fun hread => ?_, by decide +kernel⟩
  have hsafe : LinkSafe "a#b.md" := (readsBack_stub_iff h (List.mem_singleton_self _)).mp
    (hread.stub _ List.mem_cons_self _ (List.mem_singleton_self _) List.mem_cons_self)
  exact hsafe.heading (by decide)

end Okc.Core
