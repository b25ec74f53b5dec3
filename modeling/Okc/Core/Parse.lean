import Okc.Core.Policy
import Okc.Lib.Groups

/-!
# Parsing source files (`parse.rs`)

A Markdown file becomes its frontmatter, sections, blocks and links; a Canvas its file references.
YAML, CommonMark and JSON are read by other crates (`Crates`); the line scanners are the program's
own, and run here on characters where the source keeps byte offsets. What the scanners find is the
subject of `Okc.Core.LinkSpans`, `Okc.Core.ByteScan` and `Okc.Core.Blocks`.
-/

namespace Okc.Core

open Okc.Lib

/-! ## Diagnostics -/

inductive Severity
  | info
  | warning
  | error
deriving DecidableEq

/-- The codes the modelled stages give. -/
inductive DiagnosticCode
  | excludedPath
  | malformedFrontmatter
  | opaqueBaseUnvalidated
  | nearDuplicateCandidate
  | pathSanitized
  | linkUnresolved
  | linkAmbiguity
deriving DecidableEq

structure Diagnostic where
  code : DiagnosticCode
  severity : Severity
  message : String
  logicalPath : Option String := none
  sourceFileId : Option SourceFileId := none
  documentId : Option DocumentId := none
  span : Option SourceSpan := none
  remediation : Option String := none

/-- `Diagnostic::warning(..).for_path(..)`. -/
def Diagnostic.warningFor (code : DiagnosticCode) (message path : String) : Diagnostic where
  code := code
  severity := .warning
  message := message
  logicalPath := some path

/-! ## Lines -/

/-- `raw_lines`: the lines of a text, each with its ending. -/
def rawLines : List Char → List (List Char)
  | [] => []
  | '\r' :: '\n' :: rest => ['\r', '\n'] :: rawLines rest
  | c :: rest =>
    if c = '\r' ∨ c = '\n' then [c] :: rawLines rest
    else
      match rawLines rest with
      | [] => [[c]]
      | line :: lines => (c :: line) :: lines

def trimRawLineEnding (line : List Char) : List Char :=
  if ['\r', '\n'] <:+ line then line.dropLast.dropLast
  else if line.getLast? = some '\r' ∨ line.getLast? = some '\n' then line.dropLast
  else line

/-- `trim_end_matches(['\r', '\n'])`. -/
def trimBreaks (line : List Char) : List Char := line.rdropWhile fun c => c = '\r' ∨ c = '\n'

/-- `replace("\r\n", "\n").replace('\r', "\n")`. -/
def unifyBreaks : List Char → List Char
  | [] => []
  | '\r' :: '\n' :: rest => '\n' :: unifyBreaks rest
  | c :: rest => (if c = '\r' then '\n' else c) :: unifyBreaks rest

def normalizeText (X : Externals) (value : List Char) : String :=
  X.nfc (String.ofList (unifyBreaks value))

/-- The byte order mark. -/
def bom : Char := '\ufeff'

/-- The frontmatter lines before its closing line, and the lines after that. -/
def closeFrontmatter : List (List Char) → Option (List Char × List Char)
  | [] => none
  | line :: rest =>
    let trimmed := trimRawLineEnding line
    if trimmed = "---".toList ∨ trimmed = "...".toList then some ([], rest.flatten)
    else (closeFrontmatter rest).map fun (raw, body) => (line ++ raw, body)

/-- `split_frontmatter`: the raw frontmatter and the body. The body's offset is what precedes it. -/
def splitFrontmatter (text : List Char) : Option (List Char) × List Char :=
  let candidate := if text.head? = some bom then text.tail else text
  match rawLines candidate with
  | [] => (none, text)
  | first :: rest =>
    let content := trimRawLineEnding first
    if content ≠ "---".toList ∨ content.length = first.length then (none, text)
    else
      match closeFrontmatter rest with
      | some (raw, body) => (some raw, body)
      | none => (none, text)

/-! ## Frontmatter -/

/-- The frontmatter of a document as parsed: the value, its `aliases`, `tags` and `title`, and its
hash. -/
structure ParsedFrontmatter where
  value : Option Value
  aliases : List String
  tags : List String
  title : Option String
  hash : ContentHash

/-- `string_list_field`. -/
def stringListField (value : Value) (key : String) : List String :=
  let values := match value.field key with
    | some v =>
      match v.asStr, v.items with
      | some text, _ => [text]
      | none, some items => items.filterMap Value.asStr
      | none, none => []
    | none => []
  sortedSet values

/-- `opaque_frontmatter`, with the diagnostic it pushes. -/
def opaqueFrontmatter (X : Externals) (raw path reason : String) :
    ParsedFrontmatter × List Diagnostic :=
  (⟨none, [], [], none, X.fromDomainBytes "okc:frontmatter-opaque:v2\x00" (utf8 raw)⟩,
    [.warningFor .malformedFrontmatter ("frontmatter kept opaque: " ++ reason) path])

/-- `parse_frontmatter`, with the diagnostics it pushes. -/
def parseFrontmatter (X : Crates) (raw : Option String) (path : String) :
    Except OkcError (ParsedFrontmatter × List Diagnostic) :=
  match raw with
  | none =>
    .ok (⟨none, [], [], none, X.fromDomainBytes "okc:frontmatter:v2\x00" (utf8 "null")⟩, [])
  | some raw =>
    match X.yaml raw with
    | .ok (.ok json) =>
      match json.entries with
      | some _ => .ok (⟨some json, stringListField json "aliases", stringListField json "tags",
          (json.field "title").bind Value.asStr,
          X.fromDomainBytes "okc:frontmatter:v2\x00" json.canonicalJson⟩, [])
      | none => .ok (opaqueFrontmatter X.toExternals raw path
          "frontmatter root must be a YAML mapping")
    | .ok (.error error) => .ok (opaqueFrontmatter X.toExternals raw path
        ("frontmatter cannot be represented canonically: " ++ error))
    | .error error =>
      if (cutAt "duplicate entry".toList error.toList).isSome then
        .error (.malformedInput path ("duplicate YAML frontmatter key: " ++ error))
      else .ok (opaqueFrontmatter X.toExternals raw path error)

/-! ## Fences -/

/-- `opening_fence`: the marker and the length of its run. -/
def openingFence (line : List Char) : Option (Char × Nat) :=
  let rest := line.dropWhile (· == ' ')
  if 3 < (line.takeWhile (· == ' ')).length then none
  else
    match rest with
    | [] => none
    | marker :: _ =>
      let length := (rest.takeWhile (· == marker)).length
      if (marker = '\x60' ∨ marker = '~') ∧ 3 ≤ length then some (marker, length) else none

def isClosingFence (line : List Char) (marker : Char) (minimum : Nat) : Bool :=
  let rest := line.dropWhile (· == ' ')
  (line.takeWhile (· == ' ')).length ≤ 3 && rest.head? == some marker &&
    minimum ≤ (rest.takeWhile (· == marker)).length &&
    (rest.dropWhile (· == marker)).all isAsciiWhitespace

/-! ## Blocks -/

def isNumberedListItem (value : List Char) : Bool :=
  let split := match splitOnce '.' value with
    | (before, some after) => some (before, after)
    | (_, none) =>
      match splitOnce ')' value with
      | (before, some after) => some (before, after)
      | (_, none) => none
  split.any fun (before, after) =>
    !before.isEmpty && before.all Char.isDigit && after.head?.any isAsciiWhitespace

def classifyBlockKind (default : BlockKind) (slice : List Char) : BlockKind :=
  if default ≠ .paragraph then default
  else
    let trimmed := slice.dropWhile isWhitespace
    if "> [!".toList <+: trimmed then .callout
    else if ">".toList <+: trimmed then .quote
    else if "$$".toList <+: trimmed ∨ "\\[".toList <+: trimmed then .math
    else if "- ".toList <+: trimmed ∨ "* ".toList <+: trimmed ∨ "+ ".toList <+: trimmed ∨
        isNumberedListItem trimmed then .list
    else .paragraph

/-- `explicit_block_id`: the last word of the last line with one, after its caret. -/
def explicitBlockId (X : Externals) (block : List Char) : Option String := do
  let textLines := ((normalizeText X block).toList.splitOn '\n').map trimRawLineEnding
  let line ← textLines.reverse.find? fun line => !line.all isWhitespace
  let word := (line.rdropWhile isWhitespace).rtakeWhile fun c => !isWhitespace c
  let candidate ← if word.head? = some '^' then some word.tail else none
  if candidate ≠ [] ∧ candidate.all fun c => c.isAlphanum || c == '-' || c == '_' then
    some (String.ofList candidate)
  else none

section Scan

variable (X : Externals) (documentId : DocumentId)

/-- The parts of a block's identity. -/
def blockParts (index : Nat) (contentHash : ContentHash) : List Bytes :=
  [documentId.hash.bytes, toBeBytes index, contentHash.bytes]

/-- The block `push_block` makes of a slice that begins at a byte offset of the file. -/
def newBlock (kind : BlockKind) (start index : Nat) (slice : List Char) : Block :=
  let contentHash := X.fromDomainBytes "okc:block-content:v2\x00" (utf8 (String.ofList slice))
  { blockId := ⟨X.fromParts "okc:block:v2\x00" (blockParts documentId index contentHash)⟩
    kind := classifyBlockKind kind slice
    span := ⟨start, start + size slice⟩
    contentHash := contentHash
    comparisonText := normalizeText X slice
    explicitId := explicitBlockId X slice }

/-- The state of the line loop of `scan_blocks`: an open paragraph or fence is where it begins and
the text seen of it. -/
structure BlockScan where
  offset : Nat
  sections : List Section
  blocks : List Block
  paragraph : Option (Nat × List Char)
  fence : Option (Char × Nat × Nat × List Char)
  headingStack : List String

namespace BlockScan

/-- `push_block`. -/
def pushBlock (s : BlockScan) (kind : BlockKind) (start : Nat) (slice : List Char) : BlockScan :=
  { s with blocks := s.blocks ++ [newBlock X documentId kind start s.blocks.length slice] }

/-- `flush_paragraph`. -/
def flushParagraph (s : BlockScan) : BlockScan :=
  match s.paragraph with
  | some (start, text) =>
    { s.pushBlock X documentId .paragraph start text with paragraph := none }
  | none => s

/-- The heading a line is, with its level. -/
def headingOf (line : List Char) : Option (Nat × String) :=
  let trimmed := trimBreaks line
  let hashCount := (trimmed.takeWhile (· == '#')).length
  let rest := trimmed.drop hashCount
  if 1 ≤ hashCount ∧ hashCount ≤ 6 ∧ rest.head?.any isAsciiWhitespace then
    some (hashCount, trim (String.ofList rest))
  else none

/-- A heading line: its section and its block. -/
def pushHeading (s : BlockScan) (level : Nat) (heading : String) (line : List Char) : BlockScan :=
  let headingStack := s.headingStack.take (level - 1) ++ [heading]
  let entry : Section :=
    { sectionId := ⟨X.fromParts "okc:section:v2\x00"
        [documentId.hash.bytes, toBeBytes s.sections.length, utf8 heading]⟩
      headingLevel := level
      heading := heading
      headingPath := headingStack
      blocks := []
      span := ⟨s.offset, s.offset + size line⟩ }
  { s with sections := s.sections ++ [entry], headingStack := headingStack }.pushBlock X documentId
    .heading s.offset line

/-- One turn of the line loop, up to the offset. -/
def line (s : BlockScan) (line : List Char) : BlockScan :=
  let trimmed := trimBreaks line
  match s.fence with
  | some (marker, minimum, start, text) =>
    if isClosingFence trimmed marker minimum then
      { s.pushBlock X documentId .code start (text ++ line) with fence := none }
    else { s with fence := some (marker, minimum, start, text ++ line) }
  | none =>
    match openingFence trimmed with
    | some (marker, minimum) =>
      { s.flushParagraph X documentId with fence := some (marker, minimum, s.offset, line) }
    | none =>
      match headingOf line with
      | some (level, heading) =>
        (s.flushParagraph X documentId).pushHeading X documentId level heading line
      | none =>
        if trimmed.all isWhitespace then s.flushParagraph X documentId
        else
          match s.paragraph with
          | some (start, text) => { s with paragraph := some (start, text ++ line) }
          | none => { s with paragraph := some (s.offset, line) }

/-- The line loop. -/
def run (s : BlockScan) : List (List Char) → BlockScan
  | [] => s
  | l :: ls => run { s.line X documentId l with offset := s.offset + size l } ls

/-- What is open at the end of the body: a fence, then a paragraph. -/
def finish (s : BlockScan) : BlockScan :=
  let s := match s.fence with
    | some (_, _, start, text) => s.pushBlock X documentId .code start text
    | none => s
  s.flushParagraph X documentId

end BlockScan

/-- `assign_section_blocks`. -/
def assignSectionBlocks (blocks : List Block) : List Section → List Section
  | [] => []
  | entry :: rest =>
    let stop := rest.find? fun next => next.headingLevel ≤ entry.headingLevel
    let inside := blocks.filter fun block => entry.span.byteStart ≤ block.span.byteStart ∧
      ∀ next ∈ stop, block.span.byteStart < next.span.byteStart
    { entry with blocks := inside.map Block.blockId } :: assignSectionBlocks blocks rest

/-- `scan_blocks`. -/
def scanBlocks (body : List Char) (baseOffset : Nat) : List Section × List Block :=
  let start : BlockScan := ⟨baseOffset, [], [], none, none, []⟩
  let scanned := (start.run X documentId (rawLines body)).finish X documentId
  (assignSectionBlocks scanned.blocks scanned.sections, scanned.blocks)

/-! ## Links -/

/-- The line loop of `scan_links`, inside or outside a fence. -/
def scanLinkLines : Option (Char × Nat) → Nat → List (List Char) → List Link
  | _, _, [] => []
  | some (marker, minimum), offset, line :: rest =>
    scanLinkLines
      (if isClosingFence (trimRawLineEnding line) marker minimum then none
        else some (marker, minimum)) (offset + size line) rest
  | none, offset, line :: rest =>
    match openingFence (trimRawLineEnding line) with
    | some opening => scanLinkLines (some opening) (offset + size line) rest
    | none =>
      let content := trimRawLineEnding line
      let found := if "    ".toList <+: content ∨ content.head? = some '\t' then []
        else scanInlineLinks (String.ofList content) offset
      found ++ scanLinkLines none (offset + size line) rest

/-- The parts of a link's identity. -/
def linkParts (ordinal : Nat) (rawTarget : String) : List Bytes :=
  [documentId.hash.bytes, toBeBytes ordinal, utf8 rawTarget]

/-- A link that was found, under its identity and not resolved yet. -/
def newLink (ordinal : Nat) (link : Link) : DocumentLink where
  toLink := link
  linkId := ⟨X.fromParts "okc:link:v2\x00" (linkParts documentId ordinal link.rawTarget)⟩
  resolution := .pending

/-- `scan_links`. -/
def scanLinks (body : List Char) (baseOffset : Nat) : List DocumentLink :=
  (scanLinkLines none baseOffset (rawLines body)).mapIdx (newLink X documentId)

end Scan

/-! ## Documents -/

/-- The parts of a document's, a Canvas's or a Base's identity. -/
def fileParts (file : SourceFile) : List Bytes := [file.snapshotId.hash.bytes, file.fileId.hash.bytes]

/-- `parse_markdown`, with the diagnostics it pushes. -/
def parseMarkdown (X : Crates) (limits : PathLimits) (file : SourceFile) (bytes : Bytes) :
    Except OkcError (Document × List Diagnostic) := do
  validateSourcePathPair X.toExternals limits file.originalPath file.logicalPath
  match String.fromUTF8? ⟨bytes.toArray⟩ with
  | none => .error (.malformedInput file.logicalPath
      ("Markdown must be UTF-8: " ++ X.utf8Error bytes))
  | some text => do
    let (raw, rest) := splitFrontmatter text.toList
    let (frontmatter, diagnostics) ←
      parseFrontmatter X (raw.map String.ofList) file.logicalPath
    -- without frontmatter, a byte order mark is not part of the body
    let body := if rest.length = text.toList.length ∧ rest.head? = some bom then rest.tail else rest
    let bodyOffset := size text.toList - size body
    let normalizedBody := normalizeText X.toExternals body
    let projection := X.markdownToHtml normalizedBody
    let projection :=
      if normalizedBody.toList.head? = some bom then String.singleton bom ++ projection
      else projection
    let documentId : DocumentId := ⟨X.fromParts "okc:document:v2\x00" (fileParts file)⟩
    let (sections, blocks) := scanBlocks X.toExternals documentId body bodyOffset
    .ok ({
      documentId := documentId
      sourceFile := file
      title := (frontmatter.title.or (sections.head?.map Section.heading)).or
        (fileStem file.logicalPath)
      aliases := frontmatter.aliases
      tags := frontmatter.tags
      frontmatter := frontmatter.value
      frontmatterHash := frontmatter.hash
      bodyHash := X.fromDomainBytes "okc:body:v2\x00" (utf8 projection)
      comparisonText := normalizedBody
      sections := sections
      blocks := blocks
      links := scanLinks X.toExternals documentId body bodyOffset }, diagnostics)

/-! ## Canvases -/

/-- The node loop of `canvas_file_references`, after the nodes with the given identities. -/
def canvasNodeReferences (logicalPath : String) : List String → List Value →
    Except OkcError (List CanvasFileReference)
  | _, [] => .ok []
  | seen, node :: rest => do
    let malformed (reason : String) : OkcError := .malformedInput logicalPath reason
    reject (node.entries.isNone) (malformed "JSON Canvas nodes must be objects")
    match (node.field "id").bind Value.asStr with
    | none => .error (malformed "JSON Canvas node is missing a string \x60id\x60")
    | some nodeId => do
      reject (nodeId = "") (malformed "JSON Canvas node ID must not be empty")
      reject (nodeId ∈ seen)
        (malformed ("JSON Canvas contains duplicate node ID \x60" ++ nodeId ++ "\x60"))
      if (node.field "type").bind Value.asStr = some "file" then
        match (node.field "file").bind Value.asStr with
        | none => .error (malformed ("JSON Canvas file node \x60" ++ nodeId ++
            "\x60 is missing a string \x60file\x60"))
        | some rawPath => do
          let references ← canvasNodeReferences logicalPath (nodeId :: seen) rest
          .ok (⟨nodeId, rawPath, .pending⟩ :: references)
      else canvasNodeReferences logicalPath (nodeId :: seen) rest

def canvasFileReferences (value : Value) (logicalPath : String) :
    Except OkcError (List CanvasFileReference) := do
  let malformed (reason : String) : OkcError := .malformedInput logicalPath reason
  reject (value.entries.isNone) (malformed "JSON Canvas root must be an object")
  let nodes ← match value.field "nodes" with
    | some nodes =>
      match nodes.items with
      | some nodes => .ok nodes
      | none => .error (malformed "JSON Canvas \x60nodes\x60 must be an array")
    | none => .ok []
  reject ((value.field "edges").any fun edges => edges.items.isNone)
    (malformed "JSON Canvas \x60edges\x60 must be an array")
  let references ← canvasNodeReferences logicalPath [] nodes
  .ok (references.mergeSort fun a b => decide (a.nodeId ≤ b.nodeId))

def parseCanvasJson (X : Crates) (logicalPath : String) (bytes : Bytes) :
    Except OkcError (Value × List CanvasFileReference) :=
  match String.fromUTF8? ⟨bytes.toArray⟩ with
  | none => .error (.malformedInput logicalPath ("Canvas must be UTF-8: " ++ X.utf8Error bytes))
  | some _ =>
    match X.parseJsonStrict bytes with
    | .error error => .error (.malformedInput logicalPath ("invalid JSON Canvas: " ++ error))
    | .ok value => do
      let references ← canvasFileReferences value logicalPath
      .ok (value, references)

/-- `parse_canvas`, without the typed copy of its nodes and edges. -/
def parseCanvas (X : Crates) (file : SourceFile) (bytes : Bytes) : Except OkcError Canvas := do
  let (value, references) ← parseCanvasJson X file.logicalPath bytes
  .ok ⟨⟨X.fromParts "okc:canvas:v2\x00" (fileParts file)⟩, file, value, references⟩

/-! ## Files -/

/-- What parsing has gathered so far. -/
structure Parsed where
  workspace : CanonicalWorkspace
  diagnostics : List Diagnostic

/-- `AssetId::from_parts` of a content hash. -/
def Externals.assetId (X : Externals) (contentHash : ContentHash) : AssetId :=
  ⟨X.fromParts "okc:asset:v2\x00" [contentHash.bytes]⟩

def parseFile (X : Crates) (limits : PathLimits) (p : Parsed) (file : SourceFile) (bytes : Bytes) :
    Except OkcError Parsed := do
  validateSourcePathPair X.toExternals limits file.originalPath file.logicalPath
  let w := p.workspace
  match file.kind with
  | .markdown => do
    let (document, diagnostics) ← parseMarkdown X limits file bytes
    .ok ⟨{ w with documents := insertKey document.documentId document w.documents },
      p.diagnostics ++ diagnostics⟩
  | .canvas => do
    let canvas ← parseCanvas X file bytes
    .ok ⟨{ w with canvases := insertKey canvas.canvasId canvas w.canvases }, p.diagnostics⟩
  | .base =>
    let base : BaseArtifact := ⟨⟨X.fromParts "okc:base:v2\x00" (fileParts file)⟩, file⟩
    .ok ⟨{ w with bases := w.bases ++ [base] }, p.diagnostics ++ [.warningFor .opaqueBaseUnvalidated
      "Obsidian Base is preserved opaquely; internal references are not validated"
      file.logicalPath]⟩
  | .asset =>
    let assetId := X.assetId file.contentHash
    let asset := match get? assetId w.assets with
      | some asset => asset.mergeSources [file]
      | none => .fromSource assetId file
    .ok ⟨{ w with assets := insertKey assetId asset w.assets }, p.diagnostics⟩

end Okc.Core
