import Okc.Core.Corpus
import Okc.Lib.JsonFields

/-!
# Frontmatter in the corpus (`parse.rs:168-278`, `corpus.rs:89-109`)

A frontmatter section is a mapping, or it is kept as text. The corpus has a value for each item of a
sequence and for each other value, under its key and an index; a text is not in it.

* `texts_scanBlocks`: the texts of the blocks depend on the body only.
* `slots_perm_iff`: what the slots of a mapping tell of it is the items under each key.
* `frontmatter_kept_iff`: when two notes with one body and different sections are told apart.
-/

namespace Okc.Core

open Okc.Lib

/-! ## Sections -/

/-- What a frontmatter section says. -/
inductive Frontmatter
  | absent
  | text (raw : String)
  | mapping (entries : List (String × Value))

/-- The section as `parse_frontmatter` takes it. -/
def frontmatterOf (X : Crates) : Option String → Frontmatter
  | none => .absent
  | some raw =>
    match X.yaml raw with
    | .ok (.ok json) =>
      match json.entries with
      | some entries => .mapping entries
      | none => .text raw
    | _ => .text raw

/-- The section of a note. -/
def sectionOf (X : Crates) (note : String) : Frontmatter :=
  frontmatterOf X ((splitFrontmatter note.toList).1.map String.ofList)

/-- The entries that become metadata. -/
def Frontmatter.entries : Frontmatter → List (String × Value)
  | .absent => []
  | .text _ => []
  | .mapping entries => entries

/-- The items of a sequence, or the one value that it is. -/
def itemsOf (value : Value) : List Value := value.items.getD [value]

/-- The items under a key of a mapping, none if it is missing. -/
def itemsAt (key : String) (entries : List (String × Value)) : List Value :=
  ((get? key entries).map itemsOf).getD []

/-- The items under a key of a section. -/
def Frontmatter.valuesAt (f : Frontmatter) (key : String) : List Value := itemsAt key f.entries

/-! ## Slots -/

/-- The key, the index and the value. -/
def MetadataValue.slot (m : MetadataValue) : String × Nat × Value := (m.key, m.valueIndex, m.value)

def keySlots (key : String) (values : List Value) : List (String × Nat × Value) :=
  values.zipIdx.map fun p => (key, p.2, p.1)

/-- The slots of a mapping. -/
def slotsOf (entries : List (String × Value)) : List (String × Nat × Value) :=
  entries.flatMap fun e => keySlots e.1 (itemsOf e.2)

theorem keySlots_injective {key : String} {values others : List Value}
    (h : keySlots key values = keySlots key others) : values = others := by
  have hvalues : ∀ l : List Value, (keySlots key l).map (fun s => s.2.2) = l := fun l => by
    unfold keySlots
    rw [List.map_map]
    exact List.zipIdx_map_fst 0 l
  rw [← hvalues values, h, hvalues]

/-- The slots of a key are in the order of their indices. -/
theorem keySlots_sorted (key : String) (values : List Value) :
    (keySlots key values).Pairwise fun s t => s.2.1 < t.2.1 := by
  unfold keySlots
  rw [List.pairwise_map]
  have hindices : (values.zipIdx.map Prod.snd).Pairwise (· < ·) := by
    rw [List.zipIdx_map_snd]
    exact List.pairwise_lt_range'
  exact List.pairwise_map.mp hindices

theorem eq_of_keySlots_perm {key : String} {values others : List Value}
    (h : (keySlots key values).Perm (keySlots key others)) : values = others := by
  refine keySlots_injective (h.eq_of_pairwise (fun s t _ _ hst hts => ?_)
    (keySlots_sorted key values) (keySlots_sorted key others))
  exact absurd hst (not_lt_of_gt hts)

theorem filter_keySlots_self (key : String) (values : List Value) :
    (keySlots key values).filter (fun s => decide (s.1 = key)) = keySlots key values := by
  refine List.filter_eq_self.mpr fun s hs => ?_
  obtain ⟨p, -, rfl⟩ := List.mem_map.mp hs
  exact decide_eq_true rfl

theorem filter_keySlots_ne {key other : String} (h : other ≠ key) (values : List Value) :
    (keySlots other values).filter (fun s => decide (s.1 = key)) = [] := by
  refine List.filter_eq_nil_iff.mpr fun s hs => ?_
  obtain ⟨p, -, rfl⟩ := List.mem_map.mp hs
  simpa using h

/-- The slots of a key are those of its values. -/
theorem filter_slotsOf {entries : List (String × Value)} (h : (entries.map Prod.fst).Nodup)
    (key : String) : (slotsOf entries).filter (fun s => decide (s.1 = key)) =
      keySlots key (itemsAt key entries) := by
  induction entries with
  | nil => rfl
  | cons e rest ih =>
    obtain ⟨k, v⟩ := e
    obtain ⟨hk, hrest⟩ := List.nodup_cons.mp h
    have hstep : slotsOf ((k, v) :: rest) = keySlots k (itemsOf v) ++ slotsOf rest := rfl
    rw [hstep, List.filter_append, ih hrest]
    unfold itemsAt
    rw [get?]
    by_cases hkey : k = key
    · subst hkey
      rw [if_pos rfl, filter_keySlots_self, get?_eq_none.mpr hk]
      exact List.append_nil _
    · rw [if_neg hkey, filter_keySlots_ne hkey, List.nil_append]

/-- **The slots of two mappings are the same iff each key has the same items.** -/
theorem slots_perm_iff {m n : List (String × Value)} (hm : (m.map Prod.fst).Nodup)
    (hn : (n.map Prod.fst).Nodup) :
    (slotsOf m).Perm (slotsOf n) ↔ ∀ key, itemsAt key m = itemsAt key n := by
  constructor
  · intro hperm key
    have hkey := hperm.filter fun s => decide (s.1 = key)
    rw [filter_slotsOf hm, filter_slotsOf hn] at hkey
    exact eq_of_keySlots_perm hkey
  · intro hvalues
    rw [List.perm_iff_count]
    intro s
    have hcount : ∀ l : List (String × Value), (l.map Prod.fst).Nodup →
        (slotsOf l).count s = (keySlots s.1 (itemsAt s.1 l)).count s := by
      intro l hl
      rw [← filter_slotsOf hl]
      exact (List.count_filter (by simp)).symm
    rw [hcount m hm, hcount n hn, hvalues]

/-! ## Blocks -/

section

variable {X : Externals}

/-- Two scans that have seen the same text, each under its own document and offset. -/
structure TextAlike (s t : BlockScan) : Prop where
  blocks : s.blocks.map Block.comparisonText = t.blocks.map Block.comparisonText
  paragraph : s.paragraph.map Prod.snd = t.paragraph.map Prod.snd
  fence : s.fence.map (fun f => (f.1, f.2.1, f.2.2.2)) =
    t.fence.map fun f => (f.1, f.2.1, f.2.2.2)

variable {d e : DocumentId} {s t : BlockScan}

theorem TextAlike.pushBlock (h : TextAlike s t) (kind : BlockKind) (start other : Nat)
    (slice : List Char) :
    TextAlike (s.pushBlock X d kind start slice) (t.pushBlock X e kind other slice) := by
  refine ⟨?_, h.paragraph, h.fence⟩
  unfold BlockScan.pushBlock
  rw [List.map_append, List.map_append, h.blocks]
  rfl

theorem TextAlike.flushParagraph (h : TextAlike s t) :
    TextAlike (s.flushParagraph X d) (t.flushParagraph X e) := by
  have hparagraph := h.paragraph
  unfold BlockScan.flushParagraph
  cases hs : s.paragraph with
  | none =>
    rw [hs] at hparagraph
    rw [Option.map_eq_none_iff.mp hparagraph.symm]
    exact h
  | some p =>
    obtain ⟨start, text⟩ := p
    rw [hs] at hparagraph
    obtain ⟨q, hq, hqt⟩ := Option.map_eq_some_iff.mp hparagraph.symm
    obtain ⟨other, text'⟩ := q
    obtain rfl : text' = text := hqt
    rw [hq]
    have hpush := h.pushBlock (X := X) (d := d) (e := e) .paragraph start other text'
    exact ⟨hpush.blocks, rfl, hpush.fence⟩

theorem TextAlike.pushHeading (h : TextAlike s t) (level : Nat) (heading : String)
    (line : List Char) :
    TextAlike (s.pushHeading X d level heading line) (t.pushHeading X e level heading line) := by
  refine ⟨?_, h.paragraph, h.fence⟩
  unfold BlockScan.pushHeading BlockScan.pushBlock
  rw [List.map_append, List.map_append, h.blocks]
  rfl

/-- A turn of the line loop reads the line, the fence and the paragraph. -/
theorem TextAlike.line (h : TextAlike s t) (line : List Char) :
    TextAlike (s.line X d line) (t.line X e line) := by
  have hfence := h.fence
  unfold BlockScan.line
  cases hs : s.fence with
  | some opened =>
    obtain ⟨marker, minimum, start, text⟩ := opened
    rw [hs] at hfence
    obtain ⟨⟨marker', minimum', other, text'⟩, ht, heq⟩ := Option.map_eq_some_iff.mp hfence.symm
    obtain ⟨rfl, rfl, rfl⟩ : marker' = marker ∧ minimum' = minimum ∧ text' = text := by
      simpa using heq
    rw [ht]
    dsimp only
    split
    · exact ⟨(h.pushBlock .code start other _).blocks, h.paragraph, rfl⟩
    · exact ⟨h.blocks, h.paragraph, rfl⟩
  | none =>
    rw [hs] at hfence
    rw [Option.map_eq_none_iff.mp hfence.symm]
    dsimp only
    cases openingFence (trimBreaks line) with
    | some opening =>
      exact ⟨h.flushParagraph.blocks, h.flushParagraph.paragraph, rfl⟩
    | none =>
      cases BlockScan.headingOf line with
      | some found => exact h.flushParagraph.pushHeading found.1 found.2 line
      | none =>
        dsimp only
        split
        · exact h.flushParagraph
        · have hparagraph := h.paragraph
          cases hp : s.paragraph with
          | none =>
            rw [hp] at hparagraph
            rw [Option.map_eq_none_iff.mp hparagraph.symm]
            exact ⟨h.blocks, rfl, rfl⟩
          | some open' =>
            rw [hp] at hparagraph
            obtain ⟨⟨other, text'⟩, ht, heq⟩ := Option.map_eq_some_iff.mp hparagraph.symm
            obtain rfl : text' = open'.2 := heq
            rw [ht]
            exact ⟨h.blocks, rfl, rfl⟩

theorem TextAlike.run (lines : List (List Char)) (h : TextAlike s t) :
    TextAlike (s.run X d lines) (t.run X e lines) := by
  induction lines generalizing s t with
  | nil => exact h
  | cons l ls ih =>
    have hline := h.line (X := X) (d := d) (e := e) l
    exact ih ⟨hline.blocks, hline.paragraph, hline.fence⟩

theorem TextAlike.finish (h : TextAlike s t) : TextAlike (s.finish X d) (t.finish X e) := by
  have hfence := h.fence
  unfold BlockScan.finish
  cases hs : s.fence with
  | none =>
    rw [hs] at hfence
    rw [Option.map_eq_none_iff.mp hfence.symm]
    exact h.flushParagraph
  | some opened =>
    obtain ⟨marker, minimum, start, text⟩ := opened
    rw [hs] at hfence
    obtain ⟨⟨marker', minimum', other, text'⟩, ht, heq⟩ := Option.map_eq_some_iff.mp hfence.symm
    obtain ⟨rfl, rfl, rfl⟩ : marker' = marker ∧ minimum' = minimum ∧ text' = text := by
      simpa using heq
    rw [ht]
    exact (h.pushBlock .code start other text').flushParagraph

/-- **The texts of the blocks depend on the body only.** -/
theorem texts_scanBlocks (body : List Char) (start other : Nat) :
    (scanBlocks X d body start).2.map Block.comparisonText =
      (scanBlocks X e body other).2.map Block.comparisonText := by
  have hstart : TextAlike ⟨start, [], [], none, none, []⟩ ⟨other, [], [], none, none, []⟩ :=
    ⟨rfl, rfl, rfl⟩
  exact (hstart.run (rawLines body)).finish.blocks

end

/-! ## The document of a note -/

section

variable {X : Crates}

/-- What `parse_frontmatter` keeps of a section are the entries of a mapping. -/
theorem entries_parseFrontmatter {raw : Option String} {path : String} {parsed : ParsedFrontmatter}
    {diagnostics : List Diagnostic}
    (h : parseFrontmatter X raw path = .ok (parsed, diagnostics)) :
    (parsed.value.bind Value.entries).getD [] = (frontmatterOf X raw).entries := by
  cases raw with
  | none =>
    obtain ⟨rfl, -⟩ := Prod.mk.inj (Except.ok.inj h)
    rfl
  | some raw =>
    unfold parseFrontmatter at h
    unfold frontmatterOf
    dsimp only at h ⊢
    cases hyaml : X.yaml raw with
    | error error =>
      rw [hyaml] at h
      dsimp only at h
      split at h
      · cases h
      · obtain ⟨rfl, -⟩ := Prod.mk.inj (Except.ok.inj h)
        rfl
    | ok represented =>
      cases represented with
      | error error =>
        rw [hyaml] at h
        obtain ⟨rfl, -⟩ := Prod.mk.inj (Except.ok.inj h)
        rfl
      | ok json =>
        rw [hyaml] at h
        dsimp only at h ⊢
        cases hentries : json.entries with
        | none =>
          rw [hentries] at h
          obtain ⟨rfl, -⟩ := Prod.mk.inj (Except.ok.inj h)
          rfl
        | some entries =>
          rw [hentries] at h
          obtain ⟨rfl, -⟩ := Prod.mk.inj (Except.ok.inj h)
          exact congrArg (Option.getD · []) hentries

theorem slot_new {X : Externals} {documentId : DocumentId} {key : String} {index : Nat}
    {value : Value} {m : MetadataValue}
    (h : MetadataValue.new X documentId key index value = .ok m) :
    m.slot = (key, index, value) := by
  obtain ⟨-, h⟩ := bind_unit_eq_ok.mp h
  obtain rfl := Except.ok.inj h
  rfl

/-- The metadata of a key are its slots. -/
theorem slots_keyMetadata {X : Externals} {documentId : DocumentId} {key : String} {value : Value}
    {metadata : List MetadataValue} (h : keyMetadata X documentId key value = .ok metadata) :
    metadata.map MetadataValue.slot = keySlots key (itemsOf value) := by
  unfold keyMetadata at h
  unfold itemsOf
  cases hitems : value.items with
  | none =>
    rw [hitems] at h
    obtain ⟨m, hm, h⟩ := bind_eq_ok.mp h
    obtain rfl := Except.ok.inj h
    rw [List.map_singleton, slot_new hm]
    rfl
  | some values =>
    rw [hitems] at h
    have hslots : ∀ p ∈ values.zipIdx, ∀ m, (do
        reject (2 ^ 32 ≤ p.2) (.invalidConfig "frontmatter array exceeds u32::MAX values")
        MetadataValue.new X documentId key p.2 p.1) = Except.ok m → m.slot = (key, p.2, p.1) :=
      fun p _ m hm => slot_new (bind_unit_eq_ok.mp hm).2
    exact map_of_mapM h hslots

theorem slots_documentMetadata {X : Externals} {documentId : DocumentId}
    {frontmatter : Option Value} {metadata : List MetadataValue}
    (h : documentMetadata X documentId frontmatter = .ok metadata) :
    metadata.map MetadataValue.slot = slotsOf ((frontmatter.bind Value.entries).getD []) := by
  unfold documentMetadata at h
  cases hentries : frontmatter.bind Value.entries with
  | none =>
    rw [hentries] at h
    obtain rfl := Except.ok.inj h
    rfl
  | some entries =>
    rw [hentries] at h
    obtain ⟨groups, hgroups, h⟩ := bind_eq_ok.mp h
    obtain rfl := Except.ok.inj h
    rw [List.map_flatten]
    unfold slotsOf
    rw [List.flatMap_def, Option.getD_some]
    refine congrArg List.flatten ?_
    exact map_of_mapM hgroups fun entry _ metadata hmetadata =>
      slots_keyMetadata hmetadata

/-- **Every document of the workspace is in the corpus with the texts of its blocks and the slots of
its frontmatter.** -/
theorem contents_of_prepare {policy : CompilerPolicy} {workspace : CanonicalWorkspace}
    {corpus : IntegrationCorpus} {texts : List ((DocumentId ×ₗ BlockId) × String)}
    (h : prepareFromPlan X policy workspace = .ok (corpus, texts)) {d : Document}
    (hd : d ∈ workspace.documents.map Prod.snd) {e : IntegrationDocument}
    (he : e ∈ corpus.documents)
    (hid : e.documentId = integrationDocumentId X.toExternals d.documentId) :
    (e.blocks.map SourceBlock.text).Perm (d.blocks.map Block.comparisonText) ∧
    (e.metadata.map MetadataValue.slot).Perm
      (slotsOf ((d.frontmatter.bind Value.entries).getD [])) := by
  obtain ⟨integrated, hmap, h⟩ := bind_eq_ok.mp h
  obtain ⟨c, hseal, h⟩ := bind_eq_ok.mp h
  obtain ⟨rfl, -⟩ := Prod.mk.inj (Except.ok.inj h)
  obtain ⟨x, hx, hdx⟩ := mem_of_mapM_left hmap hd
  obtain ⟨metadata, hmetadata, hdx⟩ := bind_eq_ok.mp hdx
  obtain rfl := Except.ok.inj hdx
  obtain ⟨document, hdocument, hdid, hblocks, hslots⟩ := mem_documents_of_seal hseal hx
  obtain rfl := (validCorpus_of_seal hseal).document_unique he hdocument (hid.trans hdid.symm)
  refine ⟨(hblocks.map SourceBlock.text).trans ?_, (hslots.map MetadataValue.slot).trans ?_⟩
  · rw [List.map_map]
    rfl
  · rw [slots_documentMetadata hmetadata]

/-- `e` is what a corpus has of a note. -/
inductive CorpusDocument (X : Crates) (note : String) (e : IntegrationDocument) : Prop
  | intro {limits : PathLimits} {file : SourceFile} {d : Document} {diagnostics : List Diagnostic}
      {policy : CompilerPolicy} {workspace : CanonicalWorkspace} {corpus : IntegrationCorpus}
      {texts : List ((DocumentId ×ₗ BlockId) × String)}
      (hparse : parseMarkdown X limits file (utf8 note) = .ok (d, diagnostics))
      (hd : d ∈ workspace.documents.map Prod.snd)
      (hprepare : prepareFromPlan X policy workspace = .ok (corpus, texts))
      (he : e ∈ corpus.documents)
      (hid : e.documentId = integrationDocumentId X.toExternals d.documentId)

/-- **The document has the texts of the blocks and the slots of the entries.** -/
theorem CorpusDocument.spec {note : String} {e : IntegrationDocument}
    (h : CorpusDocument X note e) :
    (∃ id start, (e.blocks.map SourceBlock.text).Perm ((scanBlocks X.toExternals id
      (markdownBody note.toList) start).2.map Block.comparisonText)) ∧
    (e.metadata.map MetadataValue.slot).Perm (slotsOf (sectionOf X note).entries) := by
  obtain ⟨hparse, hd, hprepare, he, hid⟩ := h
  obtain ⟨text, parsed, htext, hparsed, -, hvalue, hblocks⟩ := parts_parseMarkdown hparse
  obtain rfl := utf8_injective htext
  obtain ⟨hbody, hslots⟩ := contents_of_prepare hprepare hd he hid
  refine ⟨⟨_, _, hblocks ▸ hbody⟩, ?_⟩
  rw [hvalue, entries_parseFrontmatter hparsed] at hslots
  exact hslots

end

/-! ## What can be read back -/

/-- Documents of which the same is known: the texts of the blocks and the slots of the metadata. -/
def IntegrationDocument.SameContents (d e : IntegrationDocument) : Prop :=
  (d.blocks.map SourceBlock.text).Perm (e.blocks.map SourceBlock.text) ∧
  (d.metadata.map MetadataValue.slot).Perm (e.metadata.map MetadataValue.slot)

/-- A value that is no sequence and the sequence of it alone have the same items. -/
theorem itemsOf_eq_iff {v w : Value} :
    itemsOf v = itemsOf w ↔ v = w ∨ (w.items = none ∧ v = .arr [w]) ∨
      (v.items = none ∧ w = .arr [v]) := by
  unfold itemsOf
  cases hv : v.items with
  | none =>
    cases hw : w.items with
    | none =>
      have hne : ∀ x, v ≠ .arr x ∧ w ≠ .arr x := by
        intro x
        constructor <;> rintro rfl <;> simp [Value.items_arr] at hv hw
      simp [(hne _).1, (hne _).2]
    | some ys =>
      obtain rfl := Value.eq_arr_of_items hw
      have hne : v ≠ .arr ys := by
        rintro rfl
        simp [Value.items_arr] at hv
      simp [hne, Value.arr_injective.eq_iff, eq_comm]
  | some xs =>
    obtain rfl := Value.eq_arr_of_items hv
    cases hw : w.items with
    | none =>
      have hne : Value.arr xs ≠ w := by
        rintro rfl
        simp [Value.items_arr] at hw
      simp [hne, Value.arr_injective.eq_iff]
    | some ys =>
      obtain rfl := Value.eq_arr_of_items hw
      simp [Value.arr_injective.eq_iff]

section

variable {X : Crates} {note₁ note₂ : String} {e₁ e₂ : IntegrationDocument}

theorem nodup_entries (X : Crates) (note : String) :
    ((sectionOf X note).entries.map Prod.fst).Nodup := by
  unfold sectionOf
  cases (splitFrontmatter note.toList).1.map String.ofList with
  | none => exact List.nodup_nil
  | some raw =>
    unfold frontmatterOf
    dsimp only
    split
    · split
      · next entries hentries => exact (Value.sorted_entries hentries).nodup
      · exact List.nodup_nil
    · exact List.nodup_nil

/-- With one body, what is known of two notes is the items under each key. -/
theorem sameContents_iff
    (h₁ : CorpusDocument X note₁ e₁) (h₂ : CorpusDocument X note₂ e₂)
    (hbody : markdownBody note₁.toList = markdownBody note₂.toList) :
    e₁.SameContents e₂ ↔
      ∀ key, (sectionOf X note₁).valuesAt key = (sectionOf X note₂).valuesAt key := by
  obtain ⟨⟨id₁, start₁, htexts₁⟩, hslots₁⟩ := h₁.spec
  obtain ⟨⟨id₂, start₂, htexts₂⟩, hslots₂⟩ := h₂.spec
  have htexts : (e₁.blocks.map SourceBlock.text).Perm (e₂.blocks.map SourceBlock.text) := by
    rw [hbody, texts_scanBlocks (e := id₂) _ start₁ start₂] at htexts₁
    exact htexts₁.trans htexts₂.symm
  have hvalues := slots_perm_iff (nodup_entries X note₁) (nodup_entries X note₂)
  constructor
  · intro hsame
    exact hvalues.mp (hslots₁.symm.trans (hsame.2.trans hslots₂))
  · intro hkey
    exact ⟨htexts, hslots₁.trans ((hvalues.mpr hkey).trans hslots₂.symm)⟩

end

/-! ## Sections that are no mappings -/

/-- A parser that reads nothing. -/
theorem parseFrontmatter_plain {X : Externals} (raw path : String) : ∃ diagnostics,
    parseFrontmatter (plainCrates X) (some raw) path =
      .ok ((opaqueFrontmatter X raw path "did not find expected node content").1, diagnostics) := by
  unfold parseFrontmatter plainCrates
  dsimp only
  rw [if_neg (by decide +kernel)]
  exact ⟨_, rfl⟩

/-- A note of which the corpus has nothing. -/
theorem corpusDocument_empty {note raw : String}
    (hsplit : (splitFrontmatter note.toList).1 = some raw.toList)
    (hbody : markdownBody note.toList = []) :
    ∃ e, CorpusDocument (plainCrates (plainExternals prefixHash)) note e ∧ e.blocks = [] ∧
      e.metadata = [] := by
  have hpath : validateSourcePathPair (plainExternals prefixHash)
      CompilerPolicy.default.pathLimits hiFile.originalPath hiFile.logicalPath = .ok () := by
    decide +kernel
  obtain ⟨found, hparsed⟩ := parseFrontmatter_plain (X := plainExternals prefixHash) raw
    hiFile.logicalPath
  have hfrontmatter : (splitFrontmatter note.toList).1.map String.ofList = some raw := by
    rw [hsplit, Option.map_some, String.ofList_toList]
  rw [← hfrontmatter] at hparsed
  obtain ⟨d, diagnostics, hparse⟩ := @parseMarkdown_isOk (plainCrates (plainExternals prefixHash))
    CompilerPolicy.default.pathLimits hiFile hpath note _ hparsed
  obtain ⟨text, parsed, htext, hparts, hfile, hvalue, hblocks⟩ := parts_parseMarkdown hparse
  obtain rfl := utf8_injective htext
  rw [hparsed] at hparts
  obtain ⟨rfl, -⟩ := Prod.mk.inj (Except.ok.inj hparts)
  rw [hbody] at hblocks
  have hnone : d.blocks = [] := hblocks
  obtain ⟨corpus, texts, hprepare⟩ :=
    prepareFromPlan_hi hfile hvalue (by rw [hnone]; exact Nat.zero_le 1)
  have hd : d ∈ [(d.documentId, d)].map Prod.snd := List.mem_singleton_self d
  obtain ⟨e, he, hid, -⟩ := document_of_prepare hprepare hd
  obtain ⟨htexts, hslots⟩ := contents_of_prepare hprepare hd he hid
  refine ⟨e, .intro hparse hd hprepare he hid, ?_, ?_⟩
  · rw [hnone] at htexts
    exact List.map_eq_nil_iff.mp htexts.eq_nil
  · rw [hvalue] at hslots
    exact List.map_eq_nil_iff.mp hslots.eq_nil

/-- A section of one bracket and a section of two, without a body behind them. -/
theorem brackets : (∃ e₁, CorpusDocument (plainCrates (plainExternals prefixHash))
      "---\n[\n---\n" e₁ ∧ e₁.blocks = [] ∧ e₁.metadata = []) ∧
    (∃ e₂, CorpusDocument (plainCrates (plainExternals prefixHash)) "---\n[[\n---\n" e₂ ∧
      e₂.blocks = [] ∧ e₂.metadata = []) ∧
    markdownBody "---\n[\n---\n".toList = markdownBody "---\n[[\n---\n".toList :=
  ⟨@corpusDocument_empty _ "[\n" (by decide +kernel) (by decide +kernel),
    @corpusDocument_empty _ "[[\n" (by decide +kernel) (by decide +kernel),
    by decide +kernel⟩

end Okc.Core
