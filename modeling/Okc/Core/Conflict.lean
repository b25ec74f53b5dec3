import Okc.Core.Parse

/-!
# Conflicts (`plan.rs:282-392`, `plan.rs:482-505`, `plan.rs:3212-3254`)

A conflict is identified by a hash of its facts; its resolution is left out. `conflict` orders the
documents and computes the identity, `validate_integrity` checks both again.

* `validateIntegrity_conflict`: what the constructor makes passes its own check exactly when no text
  of it contains NUL.
-/

namespace Okc.Core

open Okc.Lib

inductive ConflictKind
  | pathExact
  | pathCasefold
  | unicodeNormalization
  | titleAmbiguity
  | aliasAmbiguity
  | frontmatterValue
  | linkAmbiguity
  | contentNearDuplicate
deriving DecidableEq

/-- `rename_all = "SCREAMING_SNAKE_CASE"`. -/
def ConflictKind.word : ConflictKind → String
  | .pathExact => "PATH_EXACT"
  | .pathCasefold => "PATH_CASEFOLD"
  | .unicodeNormalization => "UNICODE_NORMALIZATION"
  | .titleAmbiguity => "TITLE_AMBIGUITY"
  | .aliasAmbiguity => "ALIAS_AMBIGUITY"
  | .frontmatterValue => "FRONTMATTER_VALUE"
  | .linkAmbiguity => "LINK_AMBIGUITY"
  | .contentNearDuplicate => "CONTENT_NEAR_DUPLICATE"

inductive ConflictResolution
  | unresolved
  | autoResolvedByNormativeRule
  | userResolved
  | providerSuggested
  | waivedByPolicy
deriving DecidableEq

inductive ConflictSubject
  | markdownLink (documentId : DocumentId) (linkId : LinkId) (rawTarget : String)
  | canvasReference (canvasId : CanvasId) (nodeId rawPath : String)
deriving DecidableEq

def ConflictSubject.toValue : ConflictSubject → Value
  | .markdownLink documentId linkId rawTarget => .object [("type", .str "markdown_link"),
      ("document_id", documentId.toValue), ("link_id", linkId.toValue),
      ("raw_target", .str rawTarget)]
  | .canvasReference canvasId nodeId rawPath => .object [("type", .str "canvas_reference"),
      ("canvas_id", canvasId.toValue), ("node_id", .str nodeId), ("raw_path", .str rawPath)]

structure Conflict where
  conflictId : String
  contentHash : ContentHash
  kind : ConflictKind
  required : Bool
  subject : Option ConflictSubject
  resolution : ConflictResolution
  documents : List DocumentId
  message : String
  score : Option ℚ
deriving DecidableEq

/-- `ConflictContentIdentity`. -/
def conflictIdentity (X : Crates) (kind : ConflictKind) (required : Bool)
    (subject : Option ConflictSubject) (documents : List DocumentId) (message : String)
    (score : Option ℚ) : Value :=
  .object [("kind", .str kind.word), ("required", .bool required),
    ("subject", (subject.map ConflictSubject.toValue).getD .null),
    ("documents", .arr (documents.map DocumentId.toValue)), ("message", .str message),
    ("score", (score.map X.floatValue).getD .null)]

/-- `calculate_conflict_content_hash`; a score is finite. -/
def conflictContentHash (X : Crates) (kind : ConflictKind) (required : Bool)
    (subject : Option ConflictSubject) (documents : List DocumentId) (message : String)
    (score : Option ℚ) : ContentHash :=
  X.canonicalHash "okc:conflict:v2\x00"
    (conflictIdentity X kind required subject documents message score)

/-- `conflict_with_subject`. -/
def conflictWithSubject (X : Crates) (kind : ConflictKind) (required : Bool)
    (subject : Option ConflictSubject) (documents : List DocumentId) (message : String)
    (score : Option ℚ) (resolution : ConflictResolution) : Conflict :=
  let documents := sortedSet documents
  let contentHash := conflictContentHash X kind required subject documents message score
  { conflictId := "conflict_" ++ contentHash.hex
    contentHash := contentHash
    kind := kind
    required := required
    subject := subject
    resolution := resolution
    documents := documents
    message := message
    score := score }

/-- `conflict`. -/
def conflict (X : Crates) (kind : ConflictKind) (required : Bool) (documents : List DocumentId)
    (message : String) (score : Option ℚ) (resolution : ConflictResolution) : Conflict :=
  conflictWithSubject X kind required none documents message score resolution

/-! ## The check -/

/-- The part of `validate_integrity` about the subject. -/
def validateSubject (conflictId : String) : Option ConflictSubject → Except OkcError Unit
  | none => .ok ()
  | some (.markdownLink _ _ rawTarget) =>
    reject ('\x00' ∈ rawTarget.toList)
      (.planStale ("conflict \x60" ++ conflictId ++ "\x60 has an invalid Markdown link subject"))
  | some (.canvasReference _ nodeId rawPath) =>
    reject (nodeId = "" ∨ '\x00' ∈ nodeId.toList ∨ '\x00' ∈ rawPath.toList)
      (.planStale ("conflict \x60" ++ conflictId ++ "\x60 has an invalid Canvas reference subject"))

/-- `Conflict::validate_integrity`. -/
def Conflict.validateIntegrity (X : Crates) (c : Conflict) : Except OkcError Unit := do
  reject (¬ c.documents.IsChain (· < ·))
    (.planStale ("conflict \x60" ++ c.conflictId ++ "\x60 document IDs are not strictly ordered"))
  reject ('\x00' ∈ c.message.toList)
    (.planStale ("conflict \x60" ++ c.conflictId ++ "\x60 message contains NUL"))
  validateSubject c.conflictId c.subject
  let expected := conflictContentHash X c.kind c.required c.subject c.documents c.message c.score
  reject (c.contentHash ≠ expected ∨ c.conflictId ≠ "conflict_" ++ expected.hex)
    (.planStale ("conflict \x60" ++ c.conflictId ++
      "\x60 content hash does not match its payload"))

/-- No text of a conflict contains NUL, and a canvas node has an identity. -/
structure ConflictClear (subject : Option ConflictSubject) (message : String) : Prop where
  message : '\x00' ∉ message.toList
  link : ∀ documentId linkId rawTarget, subject = some (.markdownLink documentId linkId rawTarget) →
    '\x00' ∉ rawTarget.toList
  node : ∀ canvasId nodeId rawPath, subject = some (.canvasReference canvasId nodeId rawPath) →
    nodeId ≠ "" ∧ '\x00' ∉ nodeId.toList ∧ '\x00' ∉ rawPath.toList

/-- **A conflict passes its own check when its texts are clear, and only then.** -/
theorem validateIntegrity_conflict {X : Crates} {kind : ConflictKind} {required : Bool}
    {subject : Option ConflictSubject} {documents : List DocumentId} {message : String}
    {score : Option ℚ} {resolution : ConflictResolution} :
    (conflictWithSubject X kind required subject documents message score
      resolution).validateIntegrity X = .ok () ↔ ConflictClear subject message := by
  have hchain : (sortedSet documents).IsChain (· < ·) :=
    List.isChain_iff_pairwise.mpr (sortedSet_sorted documents)
  rw [Conflict.validateIntegrity, bind_unit_eq_ok, bind_unit_eq_ok, bind_unit_eq_ok, reject_eq_ok,
    reject_eq_ok, reject_eq_ok]
  simp only [conflictWithSubject, hchain, true_and, ne_eq, not_true, or_self,
    not_false_eq_true, and_true]
  constructor
  · rintro ⟨hmessage, hsubject⟩
    refine ⟨hmessage, ?_, ?_⟩ <;> rintro _ _ _ rfl <;>
      simpa [validateSubject] using hsubject
  · rintro ⟨hmessage, hlink, hnode⟩
    refine ⟨hmessage, ?_⟩
    cases subject with
    | none => rfl
    | some subject =>
      cases subject with
      | markdownLink d l raw => simpa [validateSubject] using hlink d l raw rfl
      | canvasReference d n raw => simpa [validateSubject] using hnode d n raw rfl

end Okc.Core
