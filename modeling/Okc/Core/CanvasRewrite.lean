import Okc.Lib.JsonFields
import Okc.Lib.Octets
import Okc.Core.Parse

/-!
# Rewriting a canvas (`plan.rs:2983-3110`)

A canvas whose file nodes point at notes that were moved is written again: each rewrite replaces the
`file` field of the one node that has its identity, inside JSON whose other fields the program does
not know. The text is read back before it is returned.

* `rewriteNodes_spec`, `rewriteAll_spec`: what one rewrite, and all of them, do to the nodes.
* `render_rewritten_canvas_spec`: what the text that is returned decodes to.
-/

namespace Okc.Core

open Okc.Lib

structure CanvasReferenceRewrite where
  nodeId : String
  originalPath : String
  replacementPath : String
  target : CanvasReferenceTarget
deriving DecidableEq

/-- `Display`; the text of an I/O error is left out. -/
def OkcError.display : OkcError → String
  | .invalidConfig message => "invalid configuration: " ++ message
  | .unsafePath path reason => "unsafe path \x60" ++ path ++ "\x60: " ++ reason
  | .resourceLimit message => "resource limit exceeded: " ++ message
  | .malformedInput path reason => "malformed input \x60" ++ path ++ "\x60: " ++ reason
  | .identityMismatch message => "identity mismatch for \x60" ++ message ++ "\x60"
  | .planStale message => "plan is stale: " ++ message
  | .proposalInvalid message => "proposal is invalid: " ++ message
  | .approvalStale message => "approval is stale or missing: " ++ message
  | .outputExists path => "destination already exists: " ++ path
  | .verificationFailed message => "verification failed: " ++ message
  | .io path _ => "I/O error at " ++ path
  | .json message => "JSON error: " ++ message
  | .internal message => "internal invariant failed: " ++ message

/-- `map_err(|error| OkcError::PlanStale(error.to_string()))`. -/
def orStale {α : Type} (x : Except OkcError α) : Except OkcError α :=
  x.mapError fun error => .planStale error.display

section

variable (canvas : Canvas)

/-- `OkcError::PlanStale` about the canvas. -/
def staleCanvas (before after : String) : OkcError :=
  .planStale (before ++ canvas.canvasId.toString ++ after)

/-- A text field of a node. -/
def nodeText (key : String) (node : Value) : Option String := (node.field key).bind Value.asStr

/-- The loop over the nodes, with how many of them had the identity. -/
def rewriteNodes (rewrite : CanvasReferenceRewrite) :
    List Value → Except OkcError (List Value × Nat)
  | [] => .ok ([], 0)
  | node :: rest =>
    if nodeText "id" node = some rewrite.nodeId then do
      reject (nodeText "type" node ≠ some "file" ∨
          nodeText "file" node ≠ some rewrite.originalPath)
        (staleCanvas canvas "Canvas " (" rewrite node \x60" ++ rewrite.nodeId ++
          "\x60 is not the sealed file reference"))
      reject (node.entries.isNone) (staleCanvas canvas "Canvas "
        (" rewrite node \x60" ++ rewrite.nodeId ++ "\x60 is not an object"))
      let (nodes, found) ← rewriteNodes rewrite rest
      .ok (node.setField "file" (.str rewrite.replacementPath) :: nodes, found + 1)
    else do
      let (nodes, found) ← rewriteNodes rewrite rest
      .ok (node :: nodes, found)

/-- Whether the resolution of a reference admits the target of a rewrite. -/
def targetIsSealed (rewrite : CanvasReferenceRewrite) : CanvasReferenceResolution → Bool
  | .resolved target => target = rewrite.target
  | .ambiguous candidates => rewrite.target ∈ candidates
  | .pending => false
  | .unresolved => false

/-- The body of the loop over the rewrites. -/
def rewriteOne (nodes : List Value) (rewrite : CanvasReferenceRewrite) :
    Except OkcError (List Value) := do
  reject (rewrite.originalPath = rewrite.replacementPath) (staleCanvas canvas "Canvas "
    (" contains a no-op rewrite for node \x60" ++ rewrite.nodeId ++ "\x60"))
  match canvas.fileReferences.find? fun reference => reference.nodeId = rewrite.nodeId with
  | none => .error (staleCanvas canvas "Canvas "
      (" rewrite references unknown node \x60" ++ rewrite.nodeId ++ "\x60"))
  | some reference => do
    reject (reference.rawPath ≠ rewrite.originalPath ∨
        targetIsSealed rewrite reference.resolution = false) (staleCanvas canvas "Canvas "
      (" rewrite for node \x60" ++ rewrite.nodeId ++ "\x60 is not bound to its resolved reference"))
    let (nodes, found) ← rewriteNodes canvas rewrite nodes
    reject (found ≠ 1) (staleCanvas canvas "Canvas " (" rewrite node \x60" ++ rewrite.nodeId ++
      "\x60 did not match exactly one file node"))
    .ok nodes

/-- Each pair of the two indexes has one node and one path. -/
def indexAgrees (indexed sealed : List CanvasFileReference) : Prop :=
  indexed.length = sealed.length ∧
    ∀ p ∈ indexed.zip sealed, p.1.nodeId = p.2.nodeId ∧ p.1.rawPath = p.2.rawPath

instance (indexed sealed : List CanvasFileReference) : Decidable (indexAgrees indexed sealed) :=
  inferInstanceAs (Decidable (_ ∧ _))

/-- The path that a reference of the rewritten canvas is expected to have. -/
def expectedPath (rewrites : List CanvasReferenceRewrite) (original : CanvasFileReference) :
    String :=
  ((rewrites.find? fun rewrite => rewrite.nodeId = original.nodeId).map
    CanvasReferenceRewrite.replacementPath).getD original.rawPath

def renderRewrittenCanvas (X : Crates) (rewrites : List CanvasReferenceRewrite) :
    Except OkcError Bytes := do
  reject (rewrites = [] ∨ ¬ (rewrites.map CanvasReferenceRewrite.nodeId).IsChain (· < ·))
    (staleCanvas canvas "Canvas " " rewrites must be non-empty and strictly ordered by node ID")
  let indexed ← orStale (canvasFileReferences canvas.value canvas.sourceFile.logicalPath)
  reject (¬ indexAgrees indexed canvas.fileReferences)
    (staleCanvas canvas "Canvas " " file-reference index is stale")
  match (canvas.value.field "nodes").bind Value.items with
  | none => .error (staleCanvas canvas "Canvas " " lost its node array")
  | some nodes => do
    let nodes ← rewrites.foldlM (rewriteOne canvas) nodes
    let rewritten := canvas.value.setField "nodes" (.arr nodes)
    let encoded := rewritten.canonicalJsonPretty
    let (reparsed, references) ←
      orStale (parseCanvasJson X canvas.sourceFile.logicalPath encoded)
    reject (reparsed ≠ rewritten ∨ references.length ≠ indexed.length)
      (staleCanvas canvas "rewritten Canvas " " failed semantic reparse")
    reject (∃ p ∈ indexed.zip references, p.2.nodeId ≠ p.1.nodeId ∨
        p.2.rawPath ≠ expectedPath rewrites p.1)
      (staleCanvas canvas "rewritten Canvas " " changed an unintended file reference")
    .ok encoded

end

/-! ## What a rewrite does to the nodes -/

/-- The rewrites leave the node alone, or one of them replaces its `file`. -/
structure Rewritten (rewrites : List CanvasReferenceRewrite) (node node' : Value) : Prop where
  kept : (∀ rewrite ∈ rewrites, nodeText "id" node ≠ some rewrite.nodeId) → node' = node
  replaced : ∀ rewrite ∈ rewrites, nodeText "id" node = some rewrite.nodeId →
    nodeText "type" node = some "file" ∧ nodeText "file" node = some rewrite.originalPath ∧
      node'.field "file" = some (.str rewrite.replacementPath) ∧
      ∀ key, key ≠ "file" → node'.field key = node.field key

variable {canvas : Canvas} {rewrite : CanvasReferenceRewrite}

theorem rewriteNodes_spec {nodes nodes' : List Value} {found : Nat}
    (h : rewriteNodes canvas rewrite nodes = .ok (nodes', found)) :
    List.Forall₂ (Rewritten [rewrite]) nodes nodes' ∧
      found = nodes.countP fun node => nodeText "id" node = some rewrite.nodeId := by
  induction nodes generalizing nodes' found with
  | nil =>
    obtain ⟨rfl, rfl⟩ := Prod.mk.inj (Except.ok.inj h)
    exact ⟨.nil, rfl⟩
  | cons node rest ih =>
    rw [rewriteNodes] at h
    by_cases hid : nodeText "id" node = some rewrite.nodeId
    · rw [if_pos hid, bind_unit_eq_ok, reject_eq_ok, not_or, not_not, not_not, bind_unit_eq_ok,
        reject_eq_ok, bind_eq_ok] at h
      obtain ⟨⟨htype, hfile⟩, hobject, ⟨nodes, n⟩, hrest, h⟩ := h
      obtain ⟨rfl, rfl⟩ := Prod.mk.inj (Except.ok.inj h)
      obtain ⟨hnodes, rfl⟩ := ih hrest
      refine ⟨.cons ⟨fun hnone => absurd hid (hnone rewrite List.mem_cons_self), ?_⟩ hnodes, ?_⟩
      · intro r hr _
        obtain rfl := List.mem_singleton.mp hr
        refine ⟨htype, hfile, Value.field_setField_self ?_ _ _, ?_⟩
        · simpa [Option.isSome_iff_ne_none] using hobject
        · exact fun key hkey => Value.field_setField_ne _ (Ne.symm hkey) _
      · rw [List.countP_cons_of_pos (by simpa using hid)]
    · rw [if_neg hid, bind_eq_ok] at h
      obtain ⟨⟨nodes, n⟩, hrest, h⟩ := h
      obtain ⟨rfl, rfl⟩ := Prod.mk.inj (Except.ok.inj h)
      obtain ⟨hnodes, rfl⟩ := ih hrest
      refine ⟨.cons ⟨fun _ => rfl, fun r hr hin => ?_⟩ hnodes, ?_⟩
      · obtain rfl := List.mem_singleton.mp hr
        exact absurd hin hid
      · rw [List.countP_cons_of_neg (by simpa using hid)]

variable {rewrites : List CanvasReferenceRewrite}

/-- No rewrite changes the identity of a node. -/
theorem Rewritten.id_eq {node node' : Value} (h : Rewritten rewrites node node') :
    nodeText "id" node' = nodeText "id" node := by
  by_cases hin : ∃ r ∈ rewrites, nodeText "id" node = some r.nodeId
  · obtain ⟨r, hr, hid⟩ := hin
    unfold nodeText
    rw [(h.replaced r hr hid).2.2.2 "id" (by decide)]
  · rw [h.kept fun r hr hid => hin ⟨r, hr, hid⟩]

theorem Rewritten.cons {node between node' : Value} (hfirst : Rewritten [rewrite] node between)
    (hrest : Rewritten rewrites between node')
    (hnew : ∀ r ∈ rewrites, r.nodeId ≠ rewrite.nodeId) :
    Rewritten (rewrite :: rewrites) node node' := by
  have hsame := hfirst.id_eq
  refine ⟨fun hnone => ?_, fun r hmem hid => ?_⟩
  · have hbetween := hfirst.kept fun r hr => by
      obtain rfl := List.mem_singleton.mp hr
      exact hnone _ List.mem_cons_self
    rw [← hbetween]
    exact hrest.kept fun r hr => hsame ▸ hnone r (List.mem_cons_of_mem _ hr)
  · rcases List.mem_cons.mp hmem with rfl | hr
    · have hkept : node' = between := hrest.kept fun r' hr' hid' =>
        hnew r' hr' (Option.some.inj (hid'.symm.trans (hsame.trans hid)))
      rw [hkept]
      exact hfirst.replaced _ List.mem_cons_self hid
    · have hkept : between = node := hfirst.kept fun r' hr' hid' => by
        obtain rfl := List.mem_singleton.mp hr'
        exact hnew r hr (Option.some.inj (hid.symm.trans hid'))
      rw [← hkept] at hid ⊢
      exact hrest.replaced r hr hid

theorem rewriteOne_spec {nodes nodes' : List Value}
    (h : rewriteOne canvas nodes rewrite = .ok nodes') :
    List.Forall₂ (Rewritten [rewrite]) nodes nodes' ∧
      (nodes.countP fun node => nodeText "id" node = some rewrite.nodeId) = 1 := by
  rw [rewriteOne, bind_unit_eq_ok] at h
  obtain ⟨-, h⟩ := h
  split at h
  · cases h
  · rw [bind_unit_eq_ok, bind_eq_ok] at h
    obtain ⟨-, ⟨nodes, found⟩, hnodes, h⟩ := h
    rw [bind_unit_eq_ok, reject_eq_ok, not_not] at h
    obtain ⟨hfound, h⟩ := h
    obtain rfl := Except.ok.inj h
    obtain ⟨hrewritten, hcount⟩ := rewriteNodes_spec hnodes
    exact ⟨hrewritten, hcount ▸ hfound⟩

theorem countP_id_eq {nodes nodes' : List Value}
    (h : List.Forall₂ (Rewritten rewrites) nodes nodes') (nodeId : String) :
    (nodes'.countP fun node => nodeText "id" node = some nodeId) =
      nodes.countP fun node => nodeText "id" node = some nodeId := by
  induction h with
  | nil => rfl
  | cons hnode _ ih => simp only [List.countP_cons, ih, hnode.id_eq]

/-- **All the rewrites together**: each replaces the `file` of the one node that has its identity,
and the other nodes stay. -/
theorem rewriteAll_spec {nodes nodes' : List Value}
    (hids : (rewrites.map CanvasReferenceRewrite.nodeId).Nodup)
    (h : rewrites.foldlM (rewriteOne canvas) nodes = .ok nodes') :
    List.Forall₂ (Rewritten rewrites) nodes nodes' ∧
      ∀ r ∈ rewrites, (nodes.countP fun node => nodeText "id" node = some r.nodeId) = 1 := by
  induction rewrites generalizing nodes with
  | nil =>
    obtain rfl := Except.ok.inj h
    refine ⟨List.forall₂_same.mpr fun node _ => ⟨fun _ => rfl, fun r hr => ?_⟩, fun r hr => ?_⟩
    · cases hr
    · cases hr
  | cons rewrite rewrites ih =>
    rw [List.foldlM_cons, bind_eq_ok] at h
    obtain ⟨between, hone, hrest⟩ := h
    rw [List.map_cons, List.nodup_cons] at hids
    have hnew : ∀ r ∈ rewrites, r.nodeId ≠ rewrite.nodeId := fun r hr he =>
      hids.1 (he ▸ List.mem_map_of_mem hr)
    obtain ⟨hfirst, hcount⟩ := rewriteOne_spec hone
    obtain ⟨hothers, hcounts⟩ := ih hids.2 hrest
    refine ⟨?_, fun r hr => ?_⟩
    · clear hone hrest hcount hcounts ih
      induction hfirst generalizing nodes' with
      | nil =>
        cases hothers
        exact .nil
      | cons hnode _ ih =>
        cases hothers with
        | cons hnode' hothers => exact .cons (hnode.cons hnode' hnew) (ih hothers)
    · rcases List.mem_cons.mp hr with rfl | hr
      · exact hcount
      · rw [← countP_id_eq hfirst]
        exact hcounts r hr

theorem orStale_eq_ok {α : Type} {x : Except OkcError α} {a : α} :
    orStale x = .ok a ↔ x = .ok a := by
  cases x <;> simp [orStale, Except.mapError]

theorem parseJsonStrict_of_canvas {X : Crates} {path : String} {bytes : Bytes} {value : Value}
    {references : List CanvasFileReference}
    (h : parseCanvasJson X path bytes = .ok (value, references)) :
    X.parseJsonStrict bytes = .ok value := by
  unfold parseCanvasJson at h
  split at h
  · cases h
  · split at h
    · cases h
    · next hparse =>
      rw [bind_eq_ok] at h
      obtain ⟨_, -, h⟩ := h
      obtain ⟨rfl, -⟩ := Prod.mk.inj (Except.ok.inj h)
      exact hparse

/-- **What the text of a rewritten canvas decodes to**: the value of the canvas in which each
rewrite replaced the `file` field of its node. Every other field of the canvas, every other node and every
other field of these nodes is as it was, in the same order. -/
theorem render_rewritten_canvas_spec {X : Crates} {canvas : Canvas}
    {rewrites : List CanvasReferenceRewrite} {encoded : Bytes}
    (h : renderRewrittenCanvas canvas X rewrites = .ok encoded) :
    ∃ value nodes nodes', X.parseJsonStrict encoded = .ok value ∧
      (canvas.value.field "nodes").bind Value.items = some nodes ∧
      (value.field "nodes").bind Value.items = some nodes' ∧
      (∀ key, key ≠ "nodes" → value.field key = canvas.value.field key) ∧
      List.Forall₂ (Rewritten rewrites) nodes nodes' ∧
      ∀ r ∈ rewrites, (nodes.countP fun node => nodeText "id" node = some r.nodeId) = 1 := by
  rw [renderRewrittenCanvas, bind_unit_eq_ok, reject_eq_ok, not_or, not_not] at h
  obtain ⟨⟨-, hchain⟩, h⟩ := h
  rw [bind_eq_ok] at h
  obtain ⟨indexed, -, h⟩ := h
  rw [bind_unit_eq_ok] at h
  obtain ⟨-, h⟩ := h
  split at h
  · cases h
  · next nodes hnodes =>
    rw [bind_eq_ok] at h
    obtain ⟨nodes', hall, h⟩ := h
    rw [bind_eq_ok] at h
    obtain ⟨⟨reparsed, references⟩, hparse, h⟩ := h
    rw [bind_unit_eq_ok, reject_eq_ok, not_or, not_not, bind_unit_eq_ok] at h
    obtain ⟨⟨rfl, -⟩, -, h⟩ := h
    obtain rfl := Except.ok.inj h
    have hids : (rewrites.map CanvasReferenceRewrite.nodeId).Nodup :=
      (List.isChain_iff_pairwise.mp hchain).imp fun hlt => ne_of_lt hlt
    obtain ⟨hrewritten, hcounts⟩ := rewriteAll_spec hids hall
    obtain ⟨v, hv, -⟩ := Option.bind_eq_some_iff.mp hnodes
    refine ⟨_, nodes, nodes', parseJsonStrict_of_canvas (orStale_eq_ok.mp hparse), hnodes, ?_,
      fun key hkey => Value.field_setField_ne _ (Ne.symm hkey) _, hrewritten, hcounts⟩
    rw [Value.field_setField_self (Value.isSome_entries_of_field hv), Option.bind_some,
      Value.items_arr]

theorem parseCanvasJson_eq {X : Crates} {path text : String} {value : Value}
    {references : List CanvasFileReference} (hvalue : X.parseJsonStrict (utf8 text) = .ok value)
    (hreferences : canvasFileReferences value path = .ok references) :
    parseCanvasJson X path (utf8 text) = .ok (value, references) := by
  unfold parseCanvasJson
  rw [fromUTF8?_utf8]
  simp only [hvalue, hreferences]
  rfl

/-- A canvas of one file node. -/
def boardNode (file : String) : Value :=
  .object [("file", .str file), ("id", .str "n1"), ("type", .str "file")]

def boardValue (file : String) : Value := .object [("nodes", .arr [boardNode file])]

def board : Canvas where
  canvasId := ⟨indexHash 5⟩
  sourceFile := { (plainNote "vault" "board.canvas" 5).sourceFile with kind := .canvas }
  value := boardValue "plan.md"
  fileReferences := [⟨"n1", "plan.md", .resolved (.document ⟨indexHash 1⟩)⟩]

def boardRewrite : CanvasReferenceRewrite :=
  ⟨"n1", "plan.md", "knowledge/plan.md", .document ⟨indexHash 1⟩⟩

/-- A parser that reads the rewritten canvas. -/
def boardParser (bytes : Bytes) : Except String Value :=
  if bytes = (boardValue "knowledge/plan.md").canonicalJsonPretty then
    .ok (boardValue "knowledge/plan.md")
  else .error "expected value"

def boardCrates : Crates :=
  { plainCrates (plainExternals prefixHash) with parseJsonStrict := boardParser }

theorem entries_boardNode (file : String) : (boardNode file).entries =
    some [("file", .str file), ("id", .str "n1"), ("type", .str "file")] := by
  refine Value.entries_object ?_
  show List.Pairwise (· < ·) ["file", "id", "type"]
  decide

theorem entries_boardValue (file : String) :
    (boardValue file).entries = some [("nodes", .arr [boardNode file])] := by
  refine Value.entries_object ?_
  show List.Pairwise (· < ·) ["nodes"]
  decide

theorem field_boardValue (file key : String) :
    (boardValue file).field key = get? key [("nodes", .arr [boardNode file])] := by
  rw [Value.field, entries_boardValue, Option.bind_some]

theorem nodeText_boardNode (file : String) : nodeText "id" (boardNode file) = some "n1" ∧
    nodeText "type" (boardNode file) = some "file" ∧
    nodeText "file" (boardNode file) = some file := by
  unfold nodeText Value.field
  rw [entries_boardNode]
  exact ⟨rfl, rfl, rfl⟩

theorem canvasFileReferences_board (file : String) :
    canvasFileReferences (boardValue file) "board.canvas" = .ok [⟨"n1", file, .pending⟩] := by
  obtain ⟨hid, htype, hfile⟩ := nodeText_boardNode file
  unfold nodeText at hid htype hfile
  have hnodes : canvasNodeReferences "board.canvas" [] [boardNode file] =
      .ok [⟨"n1", file, .pending⟩] := by
    unfold canvasNodeReferences
    simp only [entries_boardNode, hid, htype, hfile]
    rfl
  have hobject : (boardValue file).entries.isNone = false := by
    rw [entries_boardValue]
    rfl
  have hfield : (boardValue file).field "nodes" = some (.arr [boardNode file]) :=
    field_boardValue file "nodes"
  have hedges : (boardValue file).field "edges" = none := field_boardValue file "edges"
  unfold canvasFileReferences
  simp only [hobject, hfield, hedges, Value.items_arr]
  show (canvasNodeReferences "board.canvas" [] [boardNode file] >>= fun references => _) = _
  rw [hnodes]
  show Except.ok (List.mergeSort [_] _) = _
  rw [List.mergeSort_singleton]

/-- Its path is rewritten. -/
theorem render_board : renderRewrittenCanvas board boardCrates [boardRewrite] =
    .ok (boardValue "knowledge/plan.md").canonicalJsonPretty := by
  obtain ⟨hid, htype, hfile⟩ := nodeText_boardNode "plan.md"
  have hmatch : nodeText "id" (boardNode "plan.md") = some boardRewrite.nodeId := hid
  have hnode : (boardNode "plan.md").setField "file" (.str "knowledge/plan.md") =
      boardNode "knowledge/plan.md" := by
    unfold Value.setField
    rw [entries_boardNode]
    rfl
  have hnodes : rewriteNodes board boardRewrite [boardNode "plan.md"] =
      .ok ([boardNode "knowledge/plan.md"], 1) := by
    unfold rewriteNodes
    rw [if_pos hmatch, htype, hfile, entries_boardNode, ← hnode]
    rfl
  have hone : rewriteOne board [boardNode "plan.md"] boardRewrite =
      .ok [boardNode "knowledge/plan.md"] := by
    unfold rewriteOne
    rw [hnodes]
    rfl
  have hvalue : board.value.setField "nodes" (.arr [boardNode "knowledge/plan.md"]) =
      boardValue "knowledge/plan.md" := by
    unfold Value.setField
    rw [show board.value = boardValue "plan.md" from rfl, entries_boardValue]
    rfl
  have hparse : parseCanvasJson boardCrates "board.canvas"
      (boardValue "knowledge/plan.md").canonicalJsonPretty =
        .ok (boardValue "knowledge/plan.md", [⟨"n1", "knowledge/plan.md", .pending⟩]) := by
    have hread : boardCrates.parseJsonStrict
        (boardValue "knowledge/plan.md").canonicalJsonPretty =
          .ok (boardValue "knowledge/plan.md") := by
      have hparser : boardCrates.parseJsonStrict = boardParser := rfl
      rw [hparser, boardParser, if_pos rfl]
    exact parseCanvasJson_eq hread (canvasFileReferences_board _)
  have hfield : (board.value.field "nodes").bind Value.items = some [boardNode "plan.md"] := by
    rw [show board.value = boardValue "plan.md" from rfl, field_boardValue]
    exact Value.items_arr _
  have hall : [boardRewrite].foldlM (rewriteOne board) [boardNode "plan.md"] =
      .ok [boardNode "knowledge/plan.md"] := by
    rw [List.foldlM_cons, hone]
    rfl
  rw [renderRewrittenCanvas, bind_unit_eq_ok, reject_eq_ok]
  refine ⟨by decide, bind_eq_ok.mpr ⟨[⟨"n1", "plan.md", .pending⟩],
    orStale_eq_ok.mpr (canvasFileReferences_board "plan.md"), bind_unit_eq_ok.mpr
      ⟨reject_eq_ok.mpr (by decide), ?_⟩⟩⟩
  rw [hfield]
  refine bind_eq_ok.mpr ⟨_, hall, ?_⟩
  rw [hvalue]
  refine bind_eq_ok.mpr ⟨_, orStale_eq_ok.mpr hparse, bind_unit_eq_ok.mpr
    ⟨reject_eq_ok.mpr (by simp), bind_unit_eq_ok.mpr ⟨reject_eq_ok.mpr (by decide), rfl⟩⟩⟩

/-- The theorem at work: the path of the node is replaced in what the text decodes to. -/
theorem render_rewritten_canvas_spec_board : ∃ value, boardCrates.parseJsonStrict
    (boardValue "knowledge/plan.md").canonicalJsonPretty = .ok value ∧
      ∀ key, key ≠ "nodes" → value.field key = board.value.field key := by
  obtain ⟨value, -, -, hvalue, -, -, hother, -⟩ := render_rewritten_canvas_spec render_board
  exact ⟨value, hvalue, hother⟩

end Okc.Core
