import Okc.Core.Allocation

/-!
# Link targets of the output (`plan.rs:3361-3467`)

A rewritten link names the output path of its target relative to the document it stands in.
`render_link_target` writes the target with the heading, the block and the display of the original,
and a check parses it again. A Markdown destination is percent-encoded throughout, but only its
path is decoded when it is parsed, and its block is written without the `#` that introduces one.

* `percentDecode_encode`: decoding undoes the encoding.
* `roundTrips_iff`: a rendered target reads back, except a Markdown one with a block or with a heading
  that has something to escape.
-/

namespace Okc.Core

open Okc.Lib

/-! ## Percent encoding -/

/-- The body of the loop of `encode_markdown_destination_component`. -/
def encodeMarkdownChar (character : Char) : List Char :=
  match character with
  | ' ' => ['%', '2', '0']
  | '%' => ['%', '2', '5']
  | '#' => ['%', '2', '3']
  | '(' => ['%', '2', '8']
  | ')' => ['%', '2', '9']
  | '<' => ['%', '3', 'C']
  | '>' => ['%', '3', 'E']
  | '\\' => ['%', '5', 'C']
  | _ => [character]

def encodeMarkdownDestinationComponent (value : String) : String :=
  String.ofList (value.toList.flatMap encodeMarkdownChar)

/-- The characters a Markdown destination cannot contain as they are. -/
def escapedChars : List Char := [' ', '%', '#', '(', ')', '<', '>', '\\']

theorem encodeMarkdownChar_of_not_mem {c : Char} (h : c ∉ escapedChars) :
    encodeMarkdownChar c = [c] := by
  simp only [escapedChars, List.mem_cons, List.not_mem_nil, or_false, not_or] at h
  unfold encodeMarkdownChar
  split <;> simp_all

theorem encodeMarkdownChar_length {c : Char} (h : c ∈ escapedChars) :
    (encodeMarkdownChar c).length = 3 := by
  simp only [escapedChars, List.mem_cons, List.not_mem_nil, or_false] at h
  rcases h with rfl | rfl | rfl | rfl | rfl | rfl | rfl | rfl <;> rfl

/-- A character of the encoding is the character itself, or one of an escape. -/
theorem mem_encodeMarkdownChar {c x : Char} (h : x ∈ encodeMarkdownChar c) :
    x = c ∧ c ∉ escapedChars ∨ x ∈ ['%', '0', '2', '3', '5', '8', '9', 'C', 'E'] := by
  by_cases hc : c ∈ escapedChars
  · refine Or.inr ?_
    simp only [escapedChars, List.mem_cons, List.not_mem_nil, or_false] at hc
    rcases hc with rfl | rfl | rfl | rfl | rfl | rfl | rfl | rfl <;>
      · simp only [encodeMarkdownChar, List.mem_cons, List.not_mem_nil, or_false] at h
        rcases h with rfl | rfl | rfl <;> decide
  · rw [encodeMarkdownChar_of_not_mem hc, List.mem_singleton] at h
    exact Or.inl ⟨h, hc⟩

/-- Text keeps its spelling exactly when it has nothing to escape. -/
theorem encode_eq_self {value : String} :
    encodeMarkdownDestinationComponent value = value ↔ ∀ c ∈ value.toList, c ∉ escapedChars := by
  rw [encodeMarkdownDestinationComponent, ← String.toList_inj, String.toList_ofList]
  constructor
  · intro h c hc hescaped
    -- an escape makes the text longer
    obtain ⟨before, after, hsplit⟩ := List.append_of_mem hc
    have hgrow : ∀ cs : List Char, cs.length ≤ (cs.flatMap encodeMarkdownChar).length := by
      intro cs
      induction cs with
      | nil => exact le_refl _
      | cons c cs ih =>
        have hone : 1 ≤ (encodeMarkdownChar c).length := by
          by_cases hc : c ∈ escapedChars
          · rw [encodeMarkdownChar_length hc]
            omega
          · rw [encodeMarkdownChar_of_not_mem hc]
            exact le_refl _
        rw [List.flatMap_cons, List.length_append, List.length_cons]
        omega
    have hlen := congrArg List.length h
    rw [hsplit, List.flatMap_append, List.flatMap_cons, List.length_append, List.length_append,
      encodeMarkdownChar_length hescaped, List.length_append, List.length_cons] at hlen
    have := hgrow before
    have := hgrow after
    omega
  · intro h
    have hself : ∀ cs : List Char, (∀ c ∈ cs, c ∉ escapedChars) →
        cs.flatMap encodeMarkdownChar = cs := by
      intro cs hcs
      induction cs with
      | nil => rfl
      | cons c cs ih =>
        rw [List.flatMap_cons, encodeMarkdownChar_of_not_mem (hcs c List.mem_cons_self),
          ih fun x hx => hcs x (List.mem_cons_of_mem _ hx)]
        rfl
    exact hself _ h

theorem percentDecode_byte {b : UInt8} (h : b ≠ 37) (rest : Bytes) :
    percentDecode (b :: rest) = (percentDecode rest).map fun decoded => b :: decoded := by
  rw [percentDecode, if_neg h]
  exact fun _ _ _ h37 _ => h h37

theorem percentDecode_bytes {bytes : Bytes} (h : (37 : UInt8) ∉ bytes) (rest : Bytes) :
    percentDecode (bytes ++ rest) = (percentDecode rest).map fun decoded => bytes ++ decoded := by
  induction bytes with
  | nil => simp
  | cons b bytes ih =>
    rw [List.mem_cons, not_or] at h
    rw [List.cons_append, percentDecode_byte (Ne.symm h.1), ih h.2, Option.map_map]
    rfl

/-- One character of the encoding, decoded. -/
theorem percentDecode_encodeChar (c : Char) (rest : Bytes) :
    percentDecode ((encodeMarkdownChar c).flatMap String.utf8EncodeChar ++ rest) =
      (percentDecode rest).map fun decoded => String.utf8EncodeChar c ++ decoded := by
  by_cases hc : c ∈ escapedChars
  · simp only [escapedChars, List.mem_cons, List.not_mem_nil, or_false] at hc
    rcases hc with rfl | rfl | rfl | rfl | rfl | rfl | rfl | rfl <;>
      · cases hrest : percentDecode rest <;>
          simp [encodeMarkdownChar, String.utf8EncodeChar, percentDecode, hexValue, hrest]
        decide
  · rw [encodeMarkdownChar_of_not_mem hc, List.flatMap_singleton]
    refine percentDecode_bytes (fun h => hc ?_) rest
    have hpercent : c = '%' := Char.toNat_inj.mp (ascii_mem_utf8EncodeChar (by decide) h)
    rw [hpercent]
    decide

/-- **Decoding undoes the encoding.** -/
theorem percentDecode_encode (value : String) :
    percentDecodePath (encodeMarkdownDestinationComponent value) = some value := by
  have hbytes : ∀ cs : List Char, percentDecode ((cs.flatMap encodeMarkdownChar).flatMap
      String.utf8EncodeChar) = some (cs.flatMap String.utf8EncodeChar) := by
    intro cs
    induction cs with
    | nil => rfl
    | cons c cs ih =>
      rw [List.flatMap_cons, List.flatMap_append, percentDecode_encodeChar, ih]
      rfl
  have hvalue : value.toList.flatMap String.utf8EncodeChar = utf8 value := by
    rw [← utf8_ofList, String.ofList_toList]
  rw [percentDecodePath, encodeMarkdownDestinationComponent, utf8_ofList, hbytes, hvalue]
  simp only [utf8, Array.toArray_toList, Option.bind_some, String.fromUTF8?, value.isValidUTF8]
  rfl

/-! ## Rendering and parsing again -/

/-- How `render_link_target` writes a part of the target. -/
def encodePart (linkSyntax : LinkSyntax) (value : String) : List Char :=
  match linkSyntax with
  | .markdown => (encodeMarkdownDestinationComponent value).toList
  | .wiki => value.toList

/-- A part that a link may have, after the character that introduces it. -/
def marked (mark : Char) (part : Option (List Char)) : List Char :=
  (part.map (mark :: ·)).getD []

/-- `render_link_target`. -/
def renderLinkTarget (link : Link) (path : String) : String :=
  let display := match link.linkSyntax with
    | .wiki => link.display
    | .markdown => none
  String.ofList (encodePart link.linkSyntax path ++
    marked '#' (link.heading.map (encodePart link.linkSyntax)) ++
    marked '^' (link.blockId.map (encodePart link.linkSyntax)) ++
    marked '|' (display.map String.toList))

/-- The path, the heading, the block and the display of a link. -/
abbrev LinkParts := Option String × Option String × Option String × Option String

/-- The parts of a target read with a link's syntax: the display of a Markdown link is its label,
which stands outside the target. -/
def parseTarget (link : Link) (target : String) : LinkParts :=
  match link.linkSyntax with
  | .wiki =>
    let parsed := parseWikiLink target.toList link.byteStart link.byteEnd link.embed
    (parsed.path, parsed.heading, parsed.blockId, parsed.display)
  | .markdown =>
    let (path, heading, blockId) := splitMarkdownTarget target.toList
    (path, heading, blockId, link.display)

/-- The links that the two parsers make. -/
inductive ParsedLink : Link → Prop
  | wiki (raw : List Char) (byteStart byteEnd : Nat) (embed : Bool) :
    ParsedLink (parseWikiLink raw byteStart byteEnd embed)
  | markdown {line label rest : List Char} {lineOffset : Nat} {embed : Bool} {link : Link}
    (h : parseInlineMarkdownLink line lineOffset label embed = some (link, rest)) :
    ParsedLink link

/-- A path of valid components and steps up; in a wikilink, free of what ends a part of one. -/
structure TargetPath (limits : PathLimits) (linkSyntax : LinkSyntax) (path : String) : Prop where
  component : ∀ c ∈ splitSlash path, c = ".." ∨ validateComponent limits c = .ok ()
  wiki : linkSyntax = .wiki → '#' ∉ path.toList ∧ '^' ∉ path.toList ∧ '|' ∉ path.toList ∧
    ¬ "]]".toList <:+: path.toList

theorem TargetPath.nameOk {limits : PathLimits} {linkSyntax : LinkSyntax} {path : String}
    (h : TargetPath limits linkSyntax path) : ∀ c ∈ splitSlash path, NameOk c := by
  intro c hc
  rcases h.component c hc with rfl | hvalid
  · exact ⟨by decide, by decide⟩
  · exact validateComponent_nameOk hvalid

theorem TargetPath.ne_empty {limits : PathLimits} {linkSyntax : LinkSyntax} {path : String}
    (h : TargetPath limits linkSyntax path) : path ≠ "" := by
  rintro rfl
  exact (h.nameOk "" (by decide)).1 rfl

theorem TargetPath.colon {limits : PathLimits} {linkSyntax : LinkSyntax} {path : String}
    (h : TargetPath limits linkSyntax path) : ':' ∉ path.toList := by
  intro hmem
  obtain ⟨c, hc, hcolon⟩ := mem_splitSlash_of_mem hmem (by decide)
  rcases h.component c hc with rfl | hvalid
  · exact absurd hcolon (by decide)
  · simp only [validateComponent, bind_unit_eq_ok, reject_eq_ok, not_or, List.any_eq_true,
      not_exists, not_and] at hvalid
    exact hvalid.1.2.2.2.2.2 ':' hcolon (by decide)

/-! ### Wikilinks -/

/-- What a parsed wikilink cannot contain where. -/
theorem parseWikiLink_parts (raw : List Char) (byteStart byteEnd : Nat) (embed : Bool) :
    (∀ h, (parseWikiLink raw byteStart byteEnd embed).heading = some h →
      '^' ∉ h.toList ∧ '|' ∉ h.toList) ∧
    ∀ b, (parseWikiLink raw byteStart byteEnd embed).blockId = some b → '|' ∉ b.toList := by
  have hsplit : ∀ (sep : Char) (xs : List Char), sep ∉ (splitOnce sep xs).1 ∧
      xs = (splitOnce sep xs).1 ++ ((splitOnce sep xs).2.map (sep :: ·)).getD [] :=
    fun _ _ => splitOnce_eq rfl
  obtain ⟨hbar, -⟩ := hsplit '|' raw
  obtain ⟨hcaret, htarget⟩ := hsplit '^' (splitOnce '|' raw).1
  obtain ⟨-, hbefore⟩ := hsplit '#' (splitOnce '^' (splitOnce '|' raw).1).1
  constructor
  · intro h hh
    obtain ⟨heading, hheading, rfl⟩ := Option.map_eq_some_iff.mp hh
    rw [String.toList_ofList]
    rw [hheading, Option.map_some, Option.getD_some] at hbefore
    have hsub : ∀ x ∈ heading, x ∈ (splitOnce '^' (splitOnce '|' raw).1).1 := fun x hx =>
      hbefore ▸ List.mem_append_right _ (List.mem_cons_of_mem _ hx)
    refine ⟨fun hx => hcaret (hsub _ hx), fun hx => hbar ?_⟩
    rw [htarget]
    exact List.mem_append_left _ (hsub _ hx)
  · intro b hb
    obtain ⟨block, hblock, rfl⟩ := Option.map_eq_some_iff.mp hb
    rw [String.toList_ofList]
    rw [hblock, Option.map_some, Option.getD_some] at htarget
    exact fun hx => hbar (htarget ▸ List.mem_append_right _ (List.mem_cons_of_mem _ hx))

/-- **A wikilink reads back.** -/
theorem parseTarget_wiki {limits : PathLimits} {path : String} (hp : TargetPath limits .wiki path)
    (raw : List Char) (byteStart byteEnd : Nat) (embed : Bool) :
    parseTarget (parseWikiLink raw byteStart byteEnd embed)
        (renderLinkTarget (parseWikiLink raw byteStart byteEnd embed) path) =
      (some path, (parseWikiLink raw byteStart byteEnd embed).heading,
        (parseWikiLink raw byteStart byteEnd embed).blockId,
        (parseWikiLink raw byteStart byteEnd embed).display) := by
  obtain ⟨hheading, hblock⟩ := parseWikiLink_parts raw byteStart byteEnd embed
  obtain ⟨hhash, hcaret, hbar, -⟩ := hp.wiki rfl
  generalize hlink : parseWikiLink raw byteStart byteEnd embed = link at hheading hblock ⊢
  have hwiki : link.linkSyntax = .wiki := by rw [← hlink]; rfl
  have hmark : ∀ {c mark : Char} {part : Option String}, c ≠ mark →
      (∀ t, part = some t → c ∉ t.toList) → c ∉ marked mark (part.map String.toList) := by
    intro c mark part hne hpart
    cases part with
    | none => exact List.not_mem_nil
    | some t =>
      intro hmem
      rcases List.mem_cons.mp hmem with h | h
      · exact hne h
      · exact hpart t rfl h
  have hencode : encodePart .wiki = String.toList := rfl
  have hrender : (renderLinkTarget link path).toList =
      path.toList ++ marked '#' (link.heading.map String.toList) ++
        marked '^' (link.blockId.map String.toList) ++
        marked '|' (link.display.map String.toList) := by
    simp only [renderLinkTarget, hwiki, hencode, String.toList_ofList]
  have hbefore : '|' ∉ path.toList ++ marked '#' (link.heading.map String.toList) ++
      marked '^' (link.blockId.map String.toList) := by
    rw [List.mem_append, List.mem_append, not_or, not_or]
    exact ⟨⟨hbar, hmark (by decide) fun t ht => (hheading t ht).2⟩, hmark (by decide) hblock⟩
  have htarget : '^' ∉ path.toList ++ marked '#' (link.heading.map String.toList) := by
    rw [List.mem_append, not_or]
    exact ⟨hcaret, hmark (by decide) fun t ht => (hheading t ht).1⟩
  have hcut : ∀ part : Option String,
      (part.map String.toList).map String.ofList = part := by
    intro part
    cases part <;> simp
  simp only [marked] at hrender hbefore htarget
  simp only [parseTarget, hwiki, parseWikiLink, hrender, splitOnce_tail hbefore,
    splitOnce_tail htarget, splitOnce_tail hhash, hcut, nonemptyText, String.ofList_toList]
  rw [if_neg fun hnil => hp.ne_empty (String.toList_eq_nil_iff.mp hnil)]

/-! ### Markdown links -/

theorem toLower_eq_self {c : Char} (h : ¬ c.toLower.isAlpha) : c.toLower = c := by
  rw [Char.isAlpha_toLower_eq_isAlpha] at h
  refine Char.toLower_eq_of_not_isUpper fun hupper => h ?_
  rw [Char.isAlpha, hupper, Bool.true_or]

/-- A path without a colon and a leading slash is no external target, whatever fragment follows. -/
theorem not_external {path fragment : List Char} (hne : path ≠ []) (hcolon : ':' ∉ path)
    (hslash : path.head? ≠ some '/')
    (hfragment : ∀ c, fragment.head? = some c → c = '#' ∨ c = '^') :
    isExternalTarget (String.ofList (path ++ fragment)) = false := by
  rw [isExternalTarget, List.any_eq_false]
  intro scheme hscheme hprefixed
  rw [List.isPrefixOf_iff_prefix, asciiLower, String.toList_ofList, String.toList_ofList,
    List.map_append] at hprefixed
  -- the scheme does not reach the fragment
  have hshort : scheme.toList <+: path.map Char.toLower := by
    rcases List.prefix_or_prefix_of_prefix hprefixed (List.prefix_append _ _) with h | h
    · exact h
    · obtain ⟨more, hmore⟩ := h
      cases more with
      | nil => exact ⟨[], by rw [List.append_nil, ← hmore, List.append_nil]⟩
      | cons c more =>
        rw [← hmore, List.prefix_append_right_inj] at hprefixed
        obtain ⟨x, hx, hxc⟩ : ∃ x, fragment.head? = some x ∧ x.toLower = c := by
          cases fragment with
          | nil => simp at hprefixed
          | cons x xs => exact ⟨x, rfl, (List.cons_prefix_cons.mp hprefixed).1.symm⟩
        have hc : c ∈ scheme.toList := hmore ▸ List.mem_append_right _ List.mem_cons_self
        have hclear : ∀ s ∈ ["http://", "https://", "mailto:", "data:", "obsidian:", "//"],
            '#' ∉ s.toList ∧ '^' ∉ s.toList := by decide
        rw [← hxc] at hc
        rcases hfragment x hx with rfl | rfl
        · exact absurd hc (hclear scheme hscheme).1
        · exact absurd hc (hclear scheme hscheme).2
  have hmarks : ∀ s ∈ ["http://", "https://", "mailto:", "data:", "obsidian:", "//"],
      ':' ∈ s.toList ∨ s.toList.head? = some '/' := by decide
  rcases hmarks scheme hscheme with hmem | hhead
  · obtain ⟨c, hc, hlower⟩ := List.mem_map.mp (hshort.subset hmem)
    refine hcolon ?_
    rwa [← hlower, toLower_eq_self (by rw [hlower]; decide)]
  · obtain ⟨x, xs, rfl⟩ := List.exists_cons_of_ne_nil hne
    rw [List.map_cons] at hshort
    obtain ⟨more, hmore⟩ := hshort
    cases hs : scheme.toList with
    | nil =>
      rw [hs] at hhead
      cases hhead
    | cons y ys =>
      rw [hs] at hhead hmore
      cases hhead
      have hlower : x.toLower = '/' := (List.cons.inj hmore).1.symm
      rw [toLower_eq_self (by rw [hlower]; decide)] at hlower
      exact hslash (by rw [hlower]; rfl)

/-- What a parsed Markdown target has: a heading that does not begin with `^`, or a block, not
both. -/
theorem splitMarkdownTarget_fragment {raw : List Char} {path heading blockId : Option String}
    (h : splitMarkdownTarget raw = (path, heading, blockId)) :
    ∀ t, heading = some t → t.toList.head? ≠ some '^' ∧ blockId = none := by
  rw [splitMarkdownTarget] at h
  split at h
  · cases h
    exact fun _ ht => nomatch ht
  · dsimp only at h
    cases hfragment : (splitOnce '#' raw).2 with
    | none =>
      rw [hfragment] at h
      cases h
      exact fun _ ht => nomatch ht
    | some fragment =>
      rw [hfragment] at h
      dsimp only at h
      by_cases hcaret : fragment.head? = some '^'
      · rw [if_pos hcaret] at h
        cases h
        exact fun _ ht => nomatch ht
      · rw [if_neg hcaret] at h
        cases h
        intro t ht
        rw [← Option.some.inj ht, String.toList_ofList]
        exact ⟨hcaret, rfl⟩

/-- A Markdown target, read part by part. -/
theorem parseTarget_markdown {link : Link} (h : link.linkSyntax = .markdown) (target : String) :
    parseTarget link target = ((splitMarkdownTarget target.toList).1,
      (splitMarkdownTarget target.toList).2.1, (splitMarkdownTarget target.toList).2.2,
      link.display) := by
  rw [parseTarget, h]

theorem encode_head {value : String} (h : value.toList.head? ≠ some '^') :
    (encodeMarkdownDestinationComponent value).toList.head? ≠ some '^' := by
  rw [encodeMarkdownDestinationComponent, String.toList_ofList]
  cases hv : value.toList with
  | nil => simp
  | cons c cs =>
    intro hhead
    rw [hv] at h
    have hmem : '^' ∈ encodeMarkdownChar c := by
      rw [List.flatMap_cons] at hhead
      cases hc : encodeMarkdownChar c with
      | nil =>
        by_cases hescaped : c ∈ escapedChars
        · have := encodeMarkdownChar_length hescaped
          simp [hc] at this
        · simp [encodeMarkdownChar_of_not_mem hescaped] at hc
      | cons x xs =>
        rw [hc, List.cons_append, List.head?_cons] at hhead
        exact Option.some.inj hhead ▸ List.mem_cons_self
    rcases mem_encodeMarkdownChar hmem with ⟨rfl, -⟩ | hdigit
    · exact h rfl
    · exact absurd hdigit (by decide)

/-- A path keeps out of its encoding what it does not contain itself. -/
theorem not_mem_encode {value : String} {x : Char} (h : x ∉ value.toList)
    (hx : x ∉ ['%', '0', '2', '3', '5', '8', '9', 'C', 'E']) :
    x ∉ (encodeMarkdownDestinationComponent value).toList := by
  rw [encodeMarkdownDestinationComponent, String.toList_ofList]
  intro hmem
  obtain ⟨c, hc, hxc⟩ := List.mem_flatMap.mp hmem
  rcases mem_encodeMarkdownChar hxc with ⟨rfl, -⟩ | hdigit
  · exact h hc
  · exact hx hdigit

theorem hash_not_mem_encode (value : String) :
    '#' ∉ (encodeMarkdownDestinationComponent value).toList := by
  rw [encodeMarkdownDestinationComponent, String.toList_ofList]
  intro hmem
  obtain ⟨c, hc, hxc⟩ := List.mem_flatMap.mp hmem
  rcases mem_encodeMarkdownChar hxc with ⟨rfl, hescaped⟩ | hdigit
  · exact hescaped (by decide)
  · exact absurd hdigit (by decide)

/-- The two shapes of a parsed Markdown link. -/
theorem markdown_of_parse {line label rest : List Char} {lineOffset : Nat} {embed : Bool}
    {link : Link} (h : parseInlineMarkdownLink line lineOffset label embed = some (link, rest)) :
    link.linkSyntax = .markdown ∧
      ∀ heading, link.heading = some heading → heading.toList.head? ≠ some '^' ∧
        link.blockId = none := by
  unfold parseInlineMarkdownLink at h
  obtain ⟨labelEnd, -, h⟩ := Option.bind_eq_some_iff.mp h
  dsimp only at h
  split at h
  · cases h
  · -- with or without angle brackets
    split at h <;>
      · obtain ⟨targetEnd, -, h⟩ := Option.bind_eq_some_iff.mp h
        split at h
        · cases h
        · obtain ⟨rest, -, h⟩ := Option.bind_eq_some_iff.mp h
          rcases hparts : splitMarkdownTarget _ with ⟨path, heading, blockId⟩
          rw [hparts] at h
          cases h
          exact ⟨rfl, splitMarkdownTarget_fragment hparts⟩

section Markdown

variable {limits : PathLimits} {path : String}

/-- The rendered target is not taken for an external one. -/
theorem encode_not_external (hp : TargetPath limits .markdown path) {fragment : List Char}
    (hfragment : ∀ c, fragment.head? = some c → c = '#' ∨ c = '^') :
    isExternalTarget (String.ofList ((encodeMarkdownDestinationComponent path).toList ++
      fragment)) = false := by
  obtain ⟨x, xs, hx⟩ := List.exists_cons_of_ne_nil
    (fun hnil => hp.ne_empty (String.toList_eq_nil_iff.mp hnil) : path.toList ≠ [])
  have hslash : path.toList.head? ≠ some '/' := head?_of_splitSlash hp.nameOk
  have hencoded : (encodeMarkdownDestinationComponent path).toList =
      encodeMarkdownChar x ++ xs.flatMap encodeMarkdownChar := by
    rw [encodeMarkdownDestinationComponent, String.toList_ofList, hx, List.flatMap_cons]
  obtain ⟨y, ys, hy⟩ : ∃ y ys, encodeMarkdownChar x = y :: ys := by
    refine List.exists_cons_of_ne_nil fun hnil => ?_
    by_cases hescaped : x ∈ escapedChars
    · have := encodeMarkdownChar_length hescaped
      simp [hnil] at this
    · simp [encodeMarkdownChar_of_not_mem hescaped] at hnil
  refine not_external ?_ (not_mem_encode hp.colon (by decide)) ?_ hfragment
  · rw [hencoded, hy]
    exact List.cons_ne_nil _ _
  · rw [hencoded, hy, List.cons_append, List.head?_cons]
    intro hhead
    rcases mem_encodeMarkdownChar (hy ▸ List.mem_cons_self : y ∈ encodeMarkdownChar x) with
      ⟨rfl, -⟩ | hdigit
    · exact hslash (by rw [hx, List.head?_cons, hhead])
    · rw [Option.some.inj hhead] at hdigit
      exact absurd hdigit (by decide)

theorem nonemptyText_encode (hp : TargetPath limits .markdown path) :
    (nonemptyText (encodeMarkdownDestinationComponent path).toList).map
      (fun path => (percentDecodePath path).getD path) = some path := by
  have hne : (encodeMarkdownDestinationComponent path).toList ≠ [] := by
    intro hnil
    have hdecode := percentDecode_encode path
    rw [String.toList_eq_nil_iff.mp hnil] at hdecode
    exact hp.ne_empty (Option.some.inj hdecode).symm
  rw [nonemptyText, if_neg hne, Option.map_some, String.ofList_toList, percentDecode_encode]
  rfl

/-- A target without a block: its path is decoded, its heading is not. -/
theorem splitMarkdownTarget_heading (hp : TargetPath limits .markdown path)
    {heading : Option String} (hcaret : ∀ h, heading = some h → h.toList.head? ≠ some '^') :
    splitMarkdownTarget ((encodeMarkdownDestinationComponent path).toList ++
        marked '#' (heading.map (encodePart .markdown))) =
      (some path, heading.map encodeMarkdownDestinationComponent, none) := by
  have hfragment : ∀ c, (marked '#' (heading.map (encodePart .markdown))).head? = some c →
      c = '#' ∨ c = '^' := by
    intro c hc
    cases heading with
    | none => cases hc
    | some h => exact Or.inl (Option.some.inj hc).symm
  have hexternal := encode_not_external hp hfragment
  rw [splitMarkdownTarget, hexternal, if_neg (by decide), marked,
    splitOnce_tail (hash_not_mem_encode path)]
  simp only [nonemptyText_encode hp]
  cases heading with
  | none => rfl
  | some h =>
    simp only [Option.map_some, encodePart, if_neg (encode_head (hcaret h rfl)),
      String.ofList_toList]

/-- A target with a block has no fragment: the block becomes a part of the path. -/
theorem splitMarkdownTarget_block (hp : TargetPath limits .markdown path) (block : String) :
    (splitMarkdownTarget ((encodeMarkdownDestinationComponent path).toList ++
      marked '^' (some (encodePart .markdown block)))).2.2 = none := by
  have hfragment : ∀ c, (marked '^' (some (encodePart .markdown block))).head? = some c →
      c = '#' ∨ c = '^' := fun c hc => Or.inr (Option.some.inj hc).symm
  have hexternal := encode_not_external hp hfragment
  have hhash : '#' ∉ (encodeMarkdownDestinationComponent path).toList ++
      marked '^' (some (encodePart .markdown block)) := by
    rw [List.mem_append, not_or]
    refine ⟨hash_not_mem_encode path, fun hmem => ?_⟩
    rcases List.mem_cons.mp hmem with h | h
    · exact absurd h (by decide)
    · exact hash_not_mem_encode block h
  rw [splitMarkdownTarget, hexternal, if_neg (by decide), splitOnce_of_not_mem hhash]

end Markdown

/-- A Markdown link with a block, or with a heading that has something to escape. -/
def LosesFragment (link : Link) : Prop :=
  link.linkSyntax = .markdown ∧
    (link.blockId ≠ none ∨ ∃ heading, link.heading = some heading ∧
      ∃ c ∈ heading.toList, c ∈ escapedChars)

/-- **A rendered target reads back, except a Markdown one with a block or with a heading that has
something to escape.** -/
theorem roundTrips_iff {limits : PathLimits} {link : Link} (hlink : ParsedLink link)
    {path : String} (hp : TargetPath limits link.linkSyntax path) :
    parseTarget link (renderLinkTarget link path) =
        (some path, link.heading, link.blockId, link.display) ↔
      ¬ LosesFragment link := by
  cases hlink with
  | wiki raw byteStart byteEnd embed =>
    exact iff_of_true (parseTarget_wiki hp raw byteStart byteEnd embed) fun h => nomatch h.1
  | markdown hparse =>
    obtain ⟨hmarkdown, hfragment⟩ := markdown_of_parse hparse
    rw [hmarkdown] at hp
    have hrender : (renderLinkTarget link path).toList =
        (encodeMarkdownDestinationComponent path).toList ++
          marked '#' (link.heading.map (encodePart .markdown)) ++
          marked '^' (link.blockId.map (encodePart .markdown)) := by
      have hdisplay : marked '|' ((none : Option String).map String.toList) = [] := rfl
      simp only [renderLinkTarget, hmarkdown, String.toList_ofList, hdisplay, List.append_nil]
      rfl
    cases hblock : link.blockId with
    | some block =>
      have hheading : link.heading = none := by
        cases hheading : link.heading with
        | none => rfl
        | some h => exact absurd ((hfragment h hheading).2.symm.trans hblock) (by simp)
      refine iff_of_false (fun h => ?_) (not_not.mpr ⟨hmarkdown, Or.inl (by simp [hblock])⟩)
      have hnone := splitMarkdownTarget_block hp block
      rw [hheading, hblock] at hrender
      have hempty : marked '#' ((none : Option String).map (encodePart .markdown)) = [] := rfl
      rw [hempty, List.append_nil, Option.map_some] at hrender
      have hparsed : (parseTarget link (renderLinkTarget link path)).2.2.1 = none := by
        rw [parseTarget_markdown hmarkdown, hrender, hnone]
      rw [h] at hparsed
      cases hparsed
    | none =>
      have hsplit := splitMarkdownTarget_heading hp fun h hh => (hfragment h hh).1
      rw [hblock] at hrender
      have hempty : marked '^' ((none : Option String).map (encodePart .markdown)) = [] := rfl
      rw [hempty, List.append_nil] at hrender
      rw [parseTarget_markdown hmarkdown, hrender, hsplit]
      simp only [Prod.mk.injEq, true_and, and_true]
      cases hheading : link.heading with
      | none => simp [LosesFragment, hblock, hheading]
      | some h =>
        simp only [Option.map_some, Option.some.injEq, encode_eq_self, LosesFragment, hmarkdown,
          hblock, hheading, ne_eq, not_true, false_or, true_and, exists_eq_left', not_exists,
          not_and]

/-- The wikilink `[[old#Part^id|shown]]`, moved to `notes/b`. -/
theorem roundTrips_iff_moved :
    parseTarget (parseWikiLink "old#Part^id|shown".toList 2 19 false)
        (renderLinkTarget (parseWikiLink "old#Part^id|shown".toList 2 19 false) "notes/b") =
        (some "notes/b", some "Part", some "id", some "shown") ↔
      ¬ LosesFragment (parseWikiLink "old#Part^id|shown".toList 2 19 false) :=
  @roundTrips_iff .default _ (.wiki "old#Part^id|shown".toList 2 19 false) _
    ⟨by decide +kernel, by decide +kernel⟩

/-- The link of `[b](<b.md#My Heading>)`. -/
def headingLink : Link where
  linkSyntax := .markdown
  byteStart := 5
  byteEnd := 20
  rawTarget := "b.md#My Heading"
  path := some "b.md"
  heading := some "My Heading"
  blockId := none
  display := some "b"
  embed := false

/-- The heading is escaped, and read back as it was escaped. -/
theorem heading_escaped :
    scanInlineLinks "[b](<b.md#My Heading>)" 0 = [headingLink] ∧
      (∀ c ∈ splitSlash "b.md", validateComponent .default c = .ok ()) ∧
      renderLinkTarget headingLink "b.md" = "b.md#My%20Heading" ∧
      parseTarget headingLink (renderLinkTarget headingLink "b.md") ≠
        (some "b.md", headingLink.heading, headingLink.blockId, headingLink.display) := by
  decide +kernel

end Okc.Core
