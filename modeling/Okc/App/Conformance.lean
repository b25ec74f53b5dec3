import Okc.App.Response

/-!
# Checking an output against its schema (`okc-ai/src/lib.rs:1739-1856`)

`validateJsonInstance` walks a schema and a value together. The walk expects what the walk over
the schema alone has checked, and panics where it does not find it. A number is compared as the
`f64` it is read as, which is finite and so a rational; that reading is `serde_json`'s (`f64`).

A value conforms if every part of it keeps the keywords of the schema node that describes it. A
bound on a count is a `u64`, and one that is written in any other way is not read.

* `walkInstance_spec`: under a portable schema the walk does not panic, and accepts what keeps the
  keywords that it reads.
* `validateJsonInstance_iff`: it accepts what conforms iff the value meets no bound of another
  form, or breaks a keyword that is read.
-/

namespace Okc.App

open Okc.Lib Okc.Core

/-! ## Numbers and equality -/

/-- The value of a run of digits. -/
def decimal (cs : List Char) : Option Nat :=
  if cs ≠ [] ∧ cs.all Char.isDigit then
    some (cs.foldl (fun n c => 10 * n + (c.toNat - 48)) 0)
  else none

/-- `Value::as_u64`. -/
def asU64 : Json → Option Nat
  | .num n => (decimal n.text.toList).filter fun k => k < 2 ^ 64
  | _ => none

/-- `Value::as_i64`. -/
def asI64 : Json → Option Int
  | .num n =>
    match n.text.toList with
    | '-' :: digits => ((decimal digits).filter fun k => k ≤ 2 ^ 63).map fun k => -(k : Int)
    | digits => ((decimal digits).filter fun k => k < 2 ^ 63).map fun k => (k : Int)
  | _ => none

/-- `Number::eq`: floats compare as floats, and zero has two signs. -/
def sameNumber (n m : Number) : Bool :=
  n.text == m.text || (n.text ∈ ["0.0", "-0.0"] && m.text ∈ ["0.0", "-0.0"])

mutual
/-- `Value::eq`. -/
def sameJson : Json → Json → Bool
  | .null, .null => true
  | .bool a, .bool b => a == b
  | .num n, .num m => sameNumber n m
  | .str s, .str t => s == t
  | .arr xs, .arr ys => sameItems xs ys
  | .obj es, .obj fs => sameEntries es fs
  | _, _ => false

def sameItems : List Json → List Json → Bool
  | [], [] => true
  | x :: xs, y :: ys => sameJson x y && sameItems xs ys
  | _, _ => false

def sameEntries : List (String × Json) → List (String × Json) → Bool
  | [], [] => true
  | (k, v) :: es, (l, w) :: fs => k == l && sameJson v w && sameEntries es fs
  | _, _ => false
end

/-- `Value::as_object`. -/
def asObject : Json → Option (List (String × Json))
  | .obj entries => some entries
  | _ => none

/-! ## The walk -/

/-- How the walk stops: an `expect` or an index that fails, or an error. -/
inductive Stop
  | panic
  | refused (e : ProviderError)
deriving DecidableEq

/-- `Option::expect`. -/
def expect {α : Type} : Option α → Except Stop α
  | some a => .ok a
  | none => .error .panic

def violation (path what : String) : Stop :=
  .refused (invalidResponse ("structured output \x60" ++ path ++ "\x60 " ++ what))

/-- A call of the walk: the schema it expects, and the value it indexes. -/
structure Visit where
  schema : Option Json
  value : Option Json
  path : String

/-- Whether a value has a type. -/
def typeMatches (kind : String) (value : Json) : Bool :=
  match value with
  | .null => kind == "null"
  | .bool _ => kind == "boolean"
  | .num _ => kind == "number" || (kind == "integer" &&
      ((asI64 value).isSome || (asU64 value).isSome))
  | .str _ => kind == "string"
  | .arr _ => kind == "array"
  | .obj _ => kind == "object"

/-- The bounds on a count, of which a `u64` is read. On a 64-bit target it is a `usize`. -/
def outOfBounds (object : List (String × Json)) (minimum maximum : String) (count : Nat) : Bool :=
  ((get? minimum object).bind asU64).any (fun bound => count < bound) ||
    ((get? maximum object).bind asU64).any fun bound => bound < count

section Walk

variable (f64 : Number → Option ℚ)

/-- `Value::as_f64`, if it is finite. -/
def asF64 : Json → Option ℚ
  | .num n => f64 n
  | _ => none

/-- The `match (kind, value)` of the walk: its checks, and the calls it makes. -/
def checkPiece (object : List (String × Json)) (kind path : String) (value : Json) :
    Except Stop (List Visit) :=
  if kind = "number" ∨ kind = "integer" then
    match asF64 f64 value with
    | none => .error (violation path "is not finite")
    | some number => do
      reject (((get? "minimum" object).bind (asF64 f64)).any (fun minimum => number < minimum) ||
          ((get? "maximum" object).bind (asF64 f64)).any fun maximum => maximum < number)
        (violation path "violates numeric bounds")
      .ok []
  else
    match value with
    | .obj entries =>
      if kind = "object" then do
        let properties ← expect ((get? "properties" object).bind asObject)
        reject (entries.length ≠ properties.length ∨ ∃ e ∈ entries, get? e.1 properties = none)
          (violation path "has missing or unknown properties")
        .ok (properties.map fun e => ⟨some e.2, get? e.1 entries, path ++ "." ++ e.1⟩)
      else .ok []
    | .arr items =>
      if kind = "array" then do
        reject (outOfBounds object "minItems" "maxItems" items.length)
          (violation path "violates array bounds")
        .ok (items.zipIdx.map fun e =>
          ⟨get? "items" object, some e.1, path ++ "[" ++ Nat.repr e.2 ++ "]"⟩)
      else .ok []
    | .str text =>
      if kind = "string" then do
        reject (outOfBounds object "minLength" "maxLength" text.toList.length)
          (violation path "violates string bounds")
        .ok []
      else .ok []
    | _ => .ok []

/-- The `enum` check of the walk. -/
def checkAllowed (object : List (String × Json)) (path : String) (value : Json) :
    Except Stop Unit :=
  match get? "enum" object with
  | some (.arr allowed) =>
    reject (∀ a ∈ allowed, sameJson a value = false) (violation path "is outside its enum")
  | _ => .ok ()

/-- What the walk does at one node, and the calls it makes. -/
def checkNode (schema value : Json) (path : String) : Except Stop (List Visit) := do
  let object ← expect (asObject schema)
  let kind ← expect ((get? "type" object).bind asStr)
  reject (typeMatches kind value = false) (violation path "has the wrong type")
  checkAllowed object path value
  checkPiece f64 object kind path value

theorem mem_checkPiece {object : List (String × Json)} {kind path : String} {value : Json}
    {visits : List Visit} (h : checkPiece f64 object kind path value = .ok visits) {c : Visit}
    (hc : c ∈ visits) {v : Json} (hv : c.value = some v) : sizeOf v < sizeOf value := by
  unfold checkPiece at h
  split at h
  · split at h
    · cases h
    · simp only [bind_unit_eq_ok, Except.ok.injEq] at h
      rw [← h.2] at hc
      cases hc
  · split at h
    · next entries =>
      split at h
      · simp only [bind_eq_ok, exists_unit, Except.ok.injEq] at h
        obtain ⟨properties, -, -, rfl⟩ := h
        obtain ⟨e, -, rfl⟩ := List.mem_map.mp hc
        have := List.sizeOf_lt_of_mem (mem_of_get? hv)
        simp only [Json.obj.sizeOf_spec]
        simp only [Prod.mk.sizeOf_spec] at this
        omega
      · cases h
        cases hc
    · next items =>
      split at h
      · simp only [bind_unit_eq_ok, Except.ok.injEq] at h
        obtain ⟨-, rfl⟩ := h
        obtain ⟨⟨x, i⟩, hx, rfl⟩ := List.mem_map.mp hc
        obtain rfl := Option.some.inj hv
        have := List.sizeOf_lt_of_mem (List.fst_mem_of_mem_zipIdx hx)
        simp only [Json.arr.sizeOf_spec] at this ⊢
        omega
      · cases h
        cases hc
    · split at h
      · simp only [bind_unit_eq_ok, Except.ok.injEq] at h
        rw [← h.2] at hc
        cases hc
      · cases h
        cases hc
    · cases h
      cases hc

theorem expect_eq_ok {α : Type} {o : Option α} {a : α} : expect o = .ok a ↔ o = some a := by
  cases o <;> simp [expect]

theorem checkAllowed_eq_ok {object : List (String × Json)} {path : String} {value : Json} :
    checkAllowed object path value = .ok () ↔
      ∀ allowed, get? "enum" object = some (.arr allowed) →
        ∃ a ∈ allowed, sameJson a value = true := by
  unfold checkAllowed
  split
  · next allowed hallowed => simp [hallowed]
  · next hother =>
    simp only [true_iff]
    exact fun allowed hallowed => absurd hallowed (hother allowed)

theorem checkNode_eq_ok {schema value : Json} {path : String} {visits : List Visit} :
    checkNode f64 schema value path = .ok visits ↔
      ∃ object kind, schema = .obj object ∧ get? "type" object = some (.str kind) ∧
        typeMatches kind value = true ∧ checkAllowed object path value = .ok () ∧
        checkPiece f64 object kind path value = .ok visits := by
  have hobject : ∀ object, asObject schema = some object ↔ schema = .obj object := fun object => by
    cases schema <;> simp [asObject]
  simp only [checkNode, bind_eq_ok, exists_unit, reject_eq_ok, Bool.not_eq_false, expect_eq_ok,
    hobject, Option.bind_eq_some_iff, asStr_eq_some, exists_eq_right]
  constructor
  · rintro ⟨object, hschema, kind, hkind, hrest⟩
    exact ⟨object, kind, hschema, hkind, hrest⟩
  · rintro ⟨object, kind, hschema, hkind, hrest⟩
    exact ⟨object, hschema, kind, hkind, hrest⟩

theorem sizeOf_visit {schema value : Json} {path : String} {visits : List Visit}
    (h : checkNode f64 schema value path = .ok visits) {c : Visit} (hc : c ∈ visits) {v : Json}
    (hv : c.value = some v) : sizeOf v < sizeOf value := by
  obtain ⟨object, kind, -, -, -, -, hpiece⟩ := (checkNode_eq_ok f64).mp h
  exact mem_checkPiece f64 hpiece hc hv

/-- The `walk` of `validate_json_instance`. -/
def walkInstance (schema value : Json) (path : String) : Except Stop Unit :=
  match hnode : checkNode f64 schema value path with
  | .error stop => .error stop
  | .ok visits =>
    forM visits.attach fun c => do
      let node ← expect c.1.schema
      match hv : c.1.value with
      | none => .error .panic
      | some v =>
        have _hlt := sizeOf_visit f64 hnode c.2 hv
        walkInstance node v c.1.path
termination_by sizeOf value
decreasing_by exact _hlt

/-- `validate_json_instance`. -/
def validateJsonInstance (schema value : Value) : Except Stop Unit := do
  (validatePortableSchema schema).mapError Stop.refused
  walkInstance f64 schema.json value.json "$"

/-- One call of the walk. -/
def runVisit (c : Visit) : Except Stop Unit := do
  let node ← expect c.schema
  let v ← expect c.value
  walkInstance f64 node v c.path

/-- The walk checks a node and makes its calls. -/
theorem walkInstance_eq (schema value : Json) (path : String) :
    walkInstance f64 schema value path =
      (checkNode f64 schema value path >>= fun visits => forM visits (runVisit f64)) := by
  rw [walkInstance]
  split
  · next stop hstop => rw [hstop]; rfl
  · next visits hvisits =>
    have hcalls : (checkNode f64 schema value path >>= fun visits => forM visits (runVisit f64)) =
        forM visits.attach fun c => runVisit f64 c.1 := by
      conv_rhs => rw [← List.forM_map, List.attach_map_subtype_val]
      rw [hvisits]
      rfl
    rw [hcalls]
    refine congrArg _ (funext fun c => ?_)
    refine bind_congr fun node => ?_
    split
    · next hnone => rw [hnone]; rfl
    · next v hsome => simp only [hsome]; rfl

/-! ## What a portable schema promises the walk -/

/-- An entry of a schema node. -/
def keyword (key : String) : Json → Option Json
  | .obj object => get? key object
  | _ => none

/-- What the walk over a schema has checked of a node. -/
structure Promised (levels : Nat) (node : Json) (object : List (String × Json)) (kind : String) :
    Prop where
  isObject : node = .obj object
  type : get? "type" object = some (.str kind)
  properties : kind = "object" → ∃ properties, get? "properties" object = some (.obj properties) ∧
    ∀ e ∈ properties, walk levels e.2 = .ok ()
  items : kind = "array" → ∃ items, get? "items" object = some items ∧ walk levels items = .ok ()

theorem schemaProperties_eq_ok {object properties : List (String × Json)}
    (h : schemaProperties object = .ok properties) :
    get? "properties" object = some (.obj properties) := by
  simp only [schemaProperties, bind_unit_eq_ok] at h
  obtain ⟨-, h⟩ := h
  split at h
  · next hfound hrequired =>
    split at h
    · cases h
    · simp only [bind_unit_eq_ok, Except.ok.injEq] at h
      rw [hfound, h.2]
  · cases h
  · cases h

theorem promised_of_walk {levels : Nat} {node : Json} (h : walk (levels + 1) node = .ok ()) :
    ∃ object kind, Promised levels node object kind := by
  cases node with
  | obj object =>
    simp only [walk, bind_eq_ok, exists_unit, forM_eq_ok] at h
    obtain ⟨-, kind, hkind, children, hchildren, hwalk, -⟩ := h
    refine ⟨object, kind, rfl, ?_, fun hobject => ?_, fun harray => ?_⟩
    · unfold schemaType at hkind
      split at hkind
      · cases hkind
      · next found hfound =>
        simp only [bind_unit_eq_ok, Except.ok.injEq] at hkind
        obtain ⟨v, hv, hs⟩ := Option.bind_eq_some_iff.mp hfound
        rw [hv, asStr_eq_some.mp hs, hkind.2]
    · rw [schemaChildren, if_pos hobject] at hchildren
      cases hproperties : schemaProperties object with
      | error e => rw [hproperties] at hchildren; cases hchildren
      | ok properties =>
        rw [hproperties] at hchildren
        obtain rfl := Except.ok.inj hchildren
        exact ⟨properties, schemaProperties_eq_ok hproperties,
          fun e he => hwalk _ (List.mem_map_of_mem he)⟩
    · subst harray
      rw [schemaChildren, if_neg (by decide), if_pos rfl] at hchildren
      split at hchildren
      · next items hitems =>
        obtain rfl := Except.ok.inj hchildren
        exact ⟨items, hitems, hwalk _ List.mem_cons_self⟩
      · cases hchildren
  | _ => cases h

/-! ## Conforming -/

/-- The schema that describes an item or a property of a value. -/
inductive Child : Json → Json → Json → Json → Prop
  | property {schema child v : Json} {properties entries : List (String × Json)} {key : String}
    (hs : keyword "properties" schema = some (.obj properties))
    (hc : get? key properties = some child) (hv : get? key entries = some v) :
    Child schema (.obj entries) child v
  | item {schema child v : Json} {items : List Json}
    (hs : keyword "items" schema = some child) (hv : v ∈ items) :
    Child schema (.arr items) child v

/-- The schema nodes that describe the parts of a value, at every depth. -/
inductive Applies : Json → Json → Json → Json → Prop
  | here (schema value : Json) : Applies schema value schema value
  | deeper {schema value child v node piece : Json} (hc : Child schema value child v)
    (h : Applies child v node piece) : Applies schema value node piece

/-- Exactly the declared properties, and a number within its bounds. -/
structure KeepsShape (node piece : Json) : Prop where
  properties : ∀ entries, piece = .obj entries →
    ∃ properties, keyword "properties" node = some (.obj properties) ∧
      ∀ key, key ∈ entries.map Prod.fst ↔ key ∈ properties.map Prod.fst
  number : ∀ n, piece = .num n → ∃ number, f64 n = some number ∧
    (∀ minimum, (keyword "minimum" node).bind (asF64 f64) = some minimum → minimum ≤ number) ∧
    ∀ maximum, (keyword "maximum" node).bind (asF64 f64) = some maximum → number ≤ maximum

/-- What a value has to keep of the node that describes it, apart from bounds on counts. -/
structure Keeps (node piece : Json) : Prop extends KeepsShape f64 node piece where
  type : ∃ kind, keyword "type" node = some (.str kind) ∧ typeMatches kind piece = true
  enum : ∀ allowed, keyword "enum" node = some (.arr allowed) →
    ∃ a ∈ allowed, sameJson a piece = true

/-- What bounds a piece: two keywords, and what they count. -/
def counted : Json → Option (String × String × Nat)
  | .arr items => some ("minItems", "maxItems", items.length)
  | .str text => some ("minLength", "maxLength", text.toList.length)
  | _ => none

/-- Every bound that the node declares for the piece is a count, and the piece keeps it. -/
def KeepsBounds (node piece : Json) : Prop :=
  ∀ minimum maximum count, counted piece = some (minimum, maximum, count) →
    (∀ bound, keyword minimum node = some bound → ∃ k, asU64 bound = some k ∧ k ≤ count) ∧
    ∀ bound, keyword maximum node = some bound → ∃ k, asU64 bound = some k ∧ count ≤ k

/-- The piece keeps the bounds that are counts. -/
def KeepsCounts (node piece : Json) : Prop :=
  ∀ minimum maximum count, counted piece = some (minimum, maximum, count) →
    (∀ k, (keyword minimum node).bind asU64 = some k → k ≤ count) ∧
    ∀ k, (keyword maximum node).bind asU64 = some k → count ≤ k

/-- Every bound that the node declares for the piece is a count. -/
def BoundsCount (node piece : Json) : Prop :=
  ∀ minimum maximum count, counted piece = some (minimum, maximum, count) →
    ∀ bound, keyword minimum node = some bound ∨ keyword maximum node = some bound →
      asU64 bound ≠ none

/-- A value conforms to a schema. -/
def Conforms (schema value : Json) : Prop :=
  ∀ node piece, Applies schema value node piece → Keeps f64 node piece ∧ KeepsBounds node piece

theorem keepsBounds_iff {node piece : Json} :
    KeepsBounds node piece ↔ KeepsCounts node piece ∧ BoundsCount node piece := by
  constructor
  · intro h
    refine ⟨fun minimum maximum count hc => ⟨fun k hk => ?_, fun k hk => ?_⟩,
      fun minimum maximum count hc bound hb => ?_⟩
    · obtain ⟨bound, hbound, hk⟩ := Option.bind_eq_some_iff.mp hk
      obtain ⟨m, hm, hle⟩ := (h _ _ _ hc).1 bound hbound
      exact Option.some.inj (hm.symm.trans hk) ▸ hle
    · obtain ⟨bound, hbound, hk⟩ := Option.bind_eq_some_iff.mp hk
      obtain ⟨m, hm, hle⟩ := (h _ _ _ hc).2 bound hbound
      exact Option.some.inj (hm.symm.trans hk) ▸ hle
    · rcases hb with hb | hb
      · obtain ⟨m, hm, -⟩ := (h _ _ _ hc).1 bound hb
        simp [hm]
      · obtain ⟨m, hm, -⟩ := (h _ _ _ hc).2 bound hb
        simp [hm]
  · rintro ⟨hcounts, hbounds⟩ minimum maximum count hc
    constructor <;> intro bound hb
    · obtain ⟨k, hk⟩ := Option.ne_none_iff_exists'.mp (hbounds _ _ _ hc bound (Or.inl hb))
      exact ⟨k, hk, (hcounts _ _ _ hc).1 k (by rw [hb]; exact hk)⟩
    · obtain ⟨k, hk⟩ := Option.ne_none_iff_exists'.mp (hbounds _ _ _ hc bound (Or.inr hb))
      exact ⟨k, hk, (hcounts _ _ _ hc).2 k (by rw [hb]; exact hk)⟩

/-! ## One node -/

/-- The calls of the walk are the children of the value, under their schemas. -/
structure Calls (levels : Nat) (node value : Json) (visits : List Visit) : Prop where
  sound : ∀ c ∈ visits, ∃ child v, c.schema = some child ∧ c.value = some v ∧
    Child node value child v ∧ walk levels child = .ok ()
  complete : ∀ child v, Child node value child v →
    ∃ c ∈ visits, c.schema = some child ∧ c.value = some v

/-- A check that passes where the condition holds, and refuses where it does not. -/
def Checks {α : Type} (x : Except Stop α) (P : Prop) (Q : α → Prop) : Prop :=
  (∃ a, x = .ok a ∧ P ∧ Q a) ∨ (∃ e, x = .error (.refused e)) ∧ ¬ P

theorem outOfBounds_eq_false {object : List (String × Json)} {minimum maximum : String}
    {count : Nat} :
    outOfBounds object minimum maximum count = false ↔
      (∀ k, (get? minimum object).bind asU64 = some k → k ≤ count) ∧
      ∀ k, (get? maximum object).bind asU64 = some k → count ≤ k := by
  simp [outOfBounds, Option.any_eq_false]

theorem checks_reject {α : Type} {bad : Prop} [Decidable bad] {path what : String} {a : α}
    {P : Prop} {Q : α → Prop} (hP : ¬ bad ↔ P) (hQ : P → Q a) :
    Checks (reject bad (violation path what) >>= fun _ => .ok a) P Q := by
  unfold reject
  split
  · next hbad => exact Or.inr ⟨⟨_, rfl⟩, fun h => hP.mpr h hbad⟩
  · next hgood => exact Or.inl ⟨a, rfl, hP.mp hgood, hQ (hP.mp hgood)⟩

/-- One check after another. -/
theorem checks_seq {α : Type} {x : Except Stop Unit} {y : Except Stop α} {P R S : Prop}
    {Q : α → Prop} (hx : Checks x P fun _ => True) (hy : P → Checks y R Q) (hS : P ∧ R ↔ S) :
    Checks (x >>= fun _ => y) S Q := by
  rcases hx with ⟨_, rfl, hP, -⟩ | ⟨⟨e, rfl⟩, hP⟩
  · rcases hy hP with ⟨a, rfl, hR, hQ⟩ | ⟨⟨e, rfl⟩, hR⟩
    · exact Or.inl ⟨a, rfl, hS.mp ⟨hP, hR⟩, hQ⟩
    · exact Or.inr ⟨⟨e, rfl⟩, fun h => hR (hS.mpr h).2⟩
  · exact Or.inr ⟨⟨e, rfl⟩, fun h => hP (hS.mpr h).1⟩

/-- A value without children makes no call. -/
theorem calls_nil {levels : Nat} {node value : Json} (harr : ∀ items, value ≠ .arr items)
    (hobj : ∀ entries, value ≠ .obj entries) : Calls levels node value [] := by
  refine ⟨fun c hc => (by cases hc), fun child v hc => ?_⟩
  cases hc with
  | property => exact absurd rfl (hobj _)
  | item => exact absurd rfl (harr _)

theorem checkPiece_number {levels : Nat} {node : Json} {object : List (String × Json)}
    {kind path : String} {n : Number} (hp : Promised levels node object kind)
    (htype : typeMatches kind (.num n) = true) :
    Checks (checkPiece f64 object kind path (.num n))
      (KeepsShape f64 node (.num n) ∧ KeepsCounts node (.num n)) (Calls levels node (.num n)) := by
  have hkind : kind = "number" ∨ kind = "integer" := by
    simp only [typeMatches, Bool.or_eq_true, Bool.and_eq_true, beq_iff_eq] at htype
    exact htype.imp id And.left
  obtain ⟨rfl, -, -, -⟩ := hp
  have hcounts : KeepsCounts (.obj object) (.num n) := fun _ _ _ h => by cases h
  unfold checkPiece
  rw [if_pos hkind, asF64]
  cases hnumber : f64 n with
  | none =>
    refine Or.inr ⟨⟨_, rfl⟩, fun h => ?_⟩
    obtain ⟨number, hsome, -⟩ := h.1.number n rfl
    rw [hnumber] at hsome
    cases hsome
  | some number =>
    refine checks_reject ?_ fun _ => calls_nil (by simp) (by simp)
    simp only [Bool.or_eq_true, Option.any_eq_true, decide_eq_true_eq, not_or, not_exists, not_and,
      not_lt]
    constructor
    · rintro ⟨hmin, hmax⟩
      refine ⟨⟨fun _ h => (by cases h), fun m hm => ?_⟩, hcounts⟩
      cases hm
      exact ⟨number, hnumber, hmin, hmax⟩
    · rintro ⟨hshape, -⟩
      obtain ⟨m, hm, hmin, hmax⟩ := hshape.number n rfl
      obtain rfl := Option.some.inj (hm.symm.trans hnumber)
      exact ⟨hmin, hmax⟩

theorem checkPiece_string {levels : Nat} {node : Json} {object : List (String × Json)}
    {kind path : String} {text : String} (hp : Promised levels node object kind)
    (htype : typeMatches kind (.str text) = true) :
    Checks (checkPiece f64 object kind path (.str text))
      (KeepsShape f64 node (.str text) ∧ KeepsCounts node (.str text))
      (Calls levels node (.str text)) := by
  obtain rfl : kind = "string" := by simpa [typeMatches] using htype
  obtain ⟨rfl, -, -, -⟩ := hp
  unfold checkPiece
  rw [if_neg (by decide)]
  dsimp only
  rw [if_pos rfl]
  refine checks_reject ?_ fun _ => calls_nil (by simp) (by simp)
  rw [Bool.not_eq_true, outOfBounds_eq_false]
  constructor
  · intro h
    refine ⟨⟨fun _ h => (by cases h), fun _ h => (by cases h)⟩, fun minimum maximum count hc => ?_⟩
    cases hc
    exact h
  · exact fun h => h.2 _ _ _ rfl

theorem checkPiece_array {levels : Nat} {node : Json} {object : List (String × Json)}
    {kind path : String} {items : List Json} (hp : Promised levels node object kind)
    (htype : typeMatches kind (.arr items) = true) :
    Checks (checkPiece f64 object kind path (.arr items))
      (KeepsShape f64 node (.arr items) ∧ KeepsCounts node (.arr items))
      (Calls levels node (.arr items)) := by
  obtain rfl : kind = "array" := by simpa [typeMatches] using htype
  obtain ⟨rfl, -, -, hitems⟩ := hp
  obtain ⟨child, hchild, hwalk⟩ := hitems rfl
  unfold checkPiece
  rw [if_neg (by decide)]
  dsimp only
  rw [if_pos rfl]
  refine checks_reject ?_ fun _ => ⟨fun c hc => ?_, fun child v hc => ?_⟩
  · rw [Bool.not_eq_true, outOfBounds_eq_false]
    constructor
    · intro h
      refine ⟨⟨fun _ h => (by cases h), fun _ h => (by cases h)⟩, fun minimum maximum count hc => ?_⟩
      cases hc
      exact h
    · exact fun h => h.2 _ _ _ rfl
  · obtain ⟨⟨x, i⟩, hx, rfl⟩ := List.mem_map.mp hc
    exact ⟨child, x, hchild, rfl, .item hchild (List.fst_mem_of_mem_zipIdx hx), hwalk⟩
  · cases hc with
    | item hs hv =>
      obtain ⟨i, hi, rfl⟩ := List.mem_iff_getElem.mp hv
      refine ⟨_, List.mem_map_of_mem (List.mk_mem_zipIdx_iff_getElem?.mpr
        (List.getElem?_eq_getElem hi)), hs, rfl⟩

/-- As many keys, and no other: the same keys. -/
theorem sameKeys_iff {entries properties : List (String × Json)} (he : Sorted entries)
    (hp : Sorted properties) :
    ¬ (entries.length ≠ properties.length ∨ ∃ e ∈ entries, get? e.1 properties = none) ↔
      ∀ key, key ∈ entries.map Prod.fst ↔ key ∈ properties.map Prod.fst := by
  simp only [ne_eq, not_or, not_not, not_exists, not_and, get?_eq_none]
  constructor
  · rintro ⟨hlen, hin⟩ key
    have hsub : (entries.map Prod.fst).Subperm (properties.map Prod.fst) := by
      refine he.nodup.subperm fun k hk => ?_
      obtain ⟨e, hmem, rfl⟩ := List.mem_map.mp hk
      exact hin e hmem
    exact (hsub.perm_of_length_le (by simp [hlen])).mem_iff
  · intro h
    have hperm := (List.perm_ext_iff_of_nodup he.nodup hp.nodup).mpr h
    refine ⟨by simpa using hperm.length_eq, fun e hmem => ?_⟩
    exact (h e.1).mp (List.mem_map_of_mem hmem)

theorem checkPiece_object {levels : Nat} {node : Json} {object : List (String × Json)}
    {kind path : String} {entries : List (String × Json)} (hp : Promised levels node object kind)
    (hnode : Canonical node) (hentries : Sorted entries)
    (htype : typeMatches kind (.obj entries) = true) :
    Checks (checkPiece f64 object kind path (.obj entries))
      (KeepsShape f64 node (.obj entries) ∧ KeepsCounts node (.obj entries))
      (Calls levels node (.obj entries)) := by
  obtain rfl : kind = "object" := by simpa [typeMatches] using htype
  obtain ⟨rfl, -, hproperties, -⟩ := hp
  obtain ⟨properties, hget, hwalk⟩ := hproperties rfl
  have hsorted : Sorted properties :=
    (canonicalEntries_iff.mp hnode.2 _ (mem_of_get? hget)).1
  unfold checkPiece
  rw [if_neg (by decide)]
  dsimp only
  rw [if_pos rfl, hget]
  change Checks (reject (entries.length ≠ properties.length ∨
    ∃ e ∈ entries, get? e.1 properties = none) _ >>= fun _ => .ok _) _ _
  refine checks_reject ?_ fun hgood => ?_
  · rw [sameKeys_iff hentries hsorted]
    constructor
    · intro h
      refine ⟨⟨fun other heq => ?_, fun _ h => (by cases h)⟩, fun _ _ _ h => (by cases h)⟩
      cases heq
      exact ⟨properties, hget, h⟩
    · rintro ⟨hshape, -⟩
      obtain ⟨found, hfound, h⟩ := hshape.properties entries rfl
      cases hget.symm.trans hfound
      exact h
  · obtain ⟨found, hfound, hkeys⟩ := hgood.1.properties entries rfl
    cases hget.symm.trans hfound
    refine ⟨fun c hc => ?_, fun child v hc => ?_⟩
    · obtain ⟨e, he, rfl⟩ := List.mem_map.mp hc
      obtain ⟨v, hv⟩ : ∃ v, get? e.1 entries = some v := by
        refine Option.ne_none_iff_exists'.mp fun hnone => get?_eq_none.mp hnone ?_
        exact (hkeys e.1).mpr (List.mem_map_of_mem he)
      exact ⟨e.2, v, rfl, hv, .property hget (get?_of_mem hsorted.nodup he) hv, hwalk e he⟩
    · cases hc with
      | property hs hchild hv =>
        cases hget.symm.trans hs
        exact ⟨_, List.mem_map_of_mem (mem_of_get? hchild), rfl, hv⟩

theorem checks_checkAllowed (object : List (String × Json)) (path : String) (value : Json) :
    Checks (checkAllowed object path value)
      (∀ allowed, get? "enum" object = some (.arr allowed) →
        ∃ a ∈ allowed, sameJson a value = true) fun _ => True := by
  rw [← @checkAllowed_eq_ok object path value]
  unfold Checks checkAllowed reject
  split
  · split
    · exact Or.inr ⟨⟨_, rfl⟩, by simp⟩
    · exact Or.inl ⟨(), rfl, rfl, trivial⟩
  · exact Or.inl ⟨(), rfl, rfl, trivial⟩

theorem checkPiece_spec {levels : Nat} {node value : Json} {object : List (String × Json)}
    {kind path : String} (hp : Promised levels node object kind) (hnode : Canonical node)
    (hvalue : Canonical value) (htype : typeMatches kind value = true) :
    Checks (checkPiece f64 object kind path value)
      (KeepsShape f64 node value ∧ KeepsCounts node value) (Calls levels node value) := by
  cases value with
  | num n => exact checkPiece_number f64 hp htype
  | str text => exact checkPiece_string f64 hp htype
  | arr items => exact checkPiece_array f64 hp htype
  | obj entries => exact checkPiece_object f64 hp hnode hvalue.1 htype
  | _ =>
    have hkind : ¬ (kind = "number" ∨ kind = "integer") := by
      rintro (rfl | rfl) <;> simp [typeMatches] at htype
    unfold checkPiece
    rw [if_neg hkind]
    exact Or.inl ⟨[], rfl, ⟨⟨fun _ h => (by cases h), fun _ h => (by cases h)⟩,
      fun _ _ _ h => (by cases h)⟩, calls_nil (by simp) (by simp)⟩

/-- **What one node of a portable schema checks**, and the calls it makes. -/
theorem checkNode_spec {levels : Nat} {node value : Json} (path : String)
    (hw : walk (levels + 1) node = .ok ()) (hnode : Canonical node) (hvalue : Canonical value) :
    Checks (checkNode f64 node value path) (Keeps f64 node value ∧ KeepsCounts node value)
      (Calls levels node value) := by
  obtain ⟨object, kind, hp⟩ := promised_of_walk hw
  obtain rfl := hp.isObject
  have hkind : expect ((get? "type" object).bind asStr) = .ok kind := by
    rw [hp.type]
    rfl
  have htype : Checks (reject (typeMatches kind value = false)
      (violation path "has the wrong type")) (typeMatches kind value = true) fun _ => True := by
    unfold Checks reject
    split
    · next h => exact Or.inr ⟨⟨_, rfl⟩, by simp [h]⟩
    · next h => exact Or.inl ⟨(), rfl, by simpa using h, trivial⟩
  have hrest : typeMatches kind value = true →
      Checks (checkAllowed object path value >>= fun _ => checkPiece f64 object kind path value)
        ((∀ allowed, get? "enum" object = some (.arr allowed) →
          ∃ a ∈ allowed, sameJson a value = true) ∧
          KeepsShape f64 (.obj object) value ∧ KeepsCounts (.obj object) value)
        (Calls levels (.obj object) value) := fun h =>
    checks_seq (checks_checkAllowed object path value)
      (fun _ => checkPiece_spec f64 hp hnode hvalue h) Iff.rfl
  unfold checkNode
  change Checks (expect ((get? "type" object).bind asStr) >>= _) _ _
  rw [hkind]
  refine checks_seq htype hrest ?_
  constructor
  · rintro ⟨h, henum, hshape, hcounts⟩
    exact ⟨⟨hshape, ⟨kind, hp.type, h⟩, henum⟩, hcounts⟩
  · rintro ⟨⟨hshape, ⟨other, hother, h⟩, henum⟩, hcounts⟩
    cases hp.type.symm.trans hother
    exact ⟨h, henum, hshape, hcounts⟩

/-! ## The whole walk -/

/-- Every part of the value keeps what the walk reads of its schema. -/
def KeepsRead (schema value : Json) : Prop :=
  ∀ node piece, Applies schema value node piece → Keeps f64 node piece ∧ KeepsCounts node piece

theorem keepsRead_iff {schema value : Json} :
    KeepsRead f64 schema value ↔ (Keeps f64 schema value ∧ KeepsCounts schema value) ∧
      ∀ child v, Child schema value child v → KeepsRead f64 child v := by
  constructor
  · exact fun h => ⟨h _ _ (.here _ _), fun child v hc node piece ha => h _ _ (.deeper hc ha)⟩
  · rintro ⟨hhere, hbelow⟩ node piece ha
    cases ha with
    | here => exact hhere
    | deeper hc ha => exact hbelow _ _ hc _ _ ha

theorem canonical_child {schema value child v : Json} (hs : Canonical schema)
    (hv : Canonical value) (h : Child schema value child v) : Canonical child ∧ Canonical v := by
  have hkeyword : ∀ {key : String} {w : Json}, keyword key schema = some w → Canonical w := by
    intro key w hw
    cases schema with
    | obj object => exact canonicalEntries_iff.mp hs.2 _ (mem_of_get? hw)
    | _ => cases hw
  cases h with
  | property hp hc hget =>
    exact ⟨canonicalEntries_iff.mp (hkeyword hp).2 _ (mem_of_get? hc),
      canonicalEntries_iff.mp hv.2 _ (mem_of_get? hget)⟩
  | item hi hmem => exact ⟨hkeyword hi, canonicalItems_iff.mp hv _ hmem⟩

theorem checks_forM {α : Type} {f : α → Except Stop Unit} {P : α → Prop} {l : List α}
    (h : ∀ x ∈ l, Checks (f x) (P x) fun _ => True) :
    Checks (forM l f) (∀ x ∈ l, P x) fun _ => True := by
  induction l with
  | nil => exact Or.inl ⟨(), rfl, by simp, trivial⟩
  | cons x xs ih =>
    rw [List.forM_cons]
    refine checks_seq (h x List.mem_cons_self) (fun _ => ih fun y hy =>
      h y (List.mem_cons_of_mem _ hy)) ?_
    simp

/-- **The walk does not panic, and accepts what keeps the keywords that it reads.** -/
theorem walkInstance_spec : ∀ (levels : Nat) {schema value : Json} (path : String),
    walk levels schema = .ok () → Canonical schema → Canonical value →
      Checks (walkInstance f64 schema value path) (KeepsRead f64 schema value) fun _ => True
  | 0, _, _, _, hw, _, _ => by cases hw
  | levels + 1, schema, value, path, hw, hs, hv => by
    rw [walkInstance_eq]
    rcases checkNode_spec f64 path hw hs hv with ⟨visits, hvisits, hkeeps, hcalls⟩ |
      ⟨⟨e, he⟩, hnot⟩
    · rw [hvisits]
      change Checks (forM visits (runVisit f64)) _ _
      have hall : ∀ c ∈ visits, Checks (runVisit f64 c) (∀ child v, c.schema = some child →
          c.value = some v → KeepsRead f64 child v) fun _ => True := by
        rintro ⟨_, _, path⟩ hc
        obtain ⟨child, v, rfl, rfl, hchild, hwalk⟩ := hcalls.sound _ hc
        obtain ⟨hcs, hcv⟩ := canonical_child hs hv hchild
        rcases walkInstance_spec levels path hwalk hcs hcv with ⟨_, hok, hk, -⟩ | ⟨⟨e, he⟩, hk⟩
        · refine Or.inl ⟨(), hok, fun child' v' h h' => ?_, trivial⟩
          cases h
          cases h'
          exact hk
        · exact Or.inr ⟨⟨e, he⟩, fun h => hk (h _ _ rfl rfl)⟩
      have hiff : (∀ c ∈ visits, ∀ child v, c.schema = some child → c.value = some v →
          KeepsRead f64 child v) ↔ KeepsRead f64 schema value := by
        rw [keepsRead_iff f64, and_iff_right hkeeps]
        constructor
        · intro h child v hc
          obtain ⟨c, hmem, hcs, hcv⟩ := hcalls.complete child v hc
          exact h c hmem child v hcs hcv
        · intro h c hc child v hcs hcv
          obtain ⟨child', v', hcs', hcv', hchild, -⟩ := hcalls.sound c hc
          cases hcs.symm.trans hcs'
          cases hcv.symm.trans hcv'
          exact h _ _ hchild
      rw [← hiff]
      exact checks_forM hall
    · rw [he]
      refine Or.inr ⟨⟨e, rfl⟩, fun h => hnot ?_⟩
      exact ((keepsRead_iff f64).mp h).1

theorem validateJsonInstance_spec {schema : Value} (value : Value)
    (hs : validatePortableSchema schema = .ok ()) :
    Checks (validateJsonInstance f64 schema value) (KeepsRead f64 schema.json value.json)
      fun _ => True := by
  unfold validateJsonInstance
  rw [hs]
  exact walkInstance_spec f64 33 "$" hs schema.canonical value.canonical

/-- **The check accepts what conforms** iff every bound on a count that a part of the value meets
is itself a count, or some part breaks a keyword that is read. It never panics. -/
theorem validateJsonInstance_iff {schema : Value} (value : Value)
    (hs : validatePortableSchema schema = .ok ()) :
    (validateJsonInstance f64 schema value ≠ .error .panic ∧
      (validateJsonInstance f64 schema value = .ok () ↔
        Conforms f64 schema.json value.json)) ↔
      (∀ node piece, Applies schema.json value.json node piece → BoundsCount node piece) ∨
        ∃ node piece, Applies schema.json value.json node piece ∧
          ¬ (Keeps f64 node piece ∧ KeepsCounts node piece) := by
  have hconforms : Conforms f64 schema.json value.json ↔ KeepsRead f64 schema.json value.json ∧
      ∀ node piece, Applies schema.json value.json node piece → BoundsCount node piece := by
    simp only [Conforms, KeepsRead, keepsBounds_iff]
    exact ⟨fun h => ⟨fun n p ha => ⟨(h n p ha).1, (h n p ha).2.1⟩, fun n p ha => (h n p ha).2.2⟩,
      fun h n p ha => ⟨(h.1 n p ha).1, (h.1 n p ha).2, h.2 n p ha⟩⟩
  have hbroken : (∃ node piece, Applies schema.json value.json node piece ∧
      ¬ (Keeps f64 node piece ∧ KeepsCounts node piece)) ↔
      ¬ KeepsRead f64 schema.json value.json := by
    simp only [KeepsRead, not_forall, exists_prop]
  rw [hconforms, hbroken]
  rcases validateJsonInstance_spec f64 value hs with ⟨_, hok, hkeeps, -⟩ | ⟨⟨e, he⟩, hnot⟩
  · rw [hok]
    simp [hkeeps]
  · rw [he]
    simp [hnot]

end Walk

/-- A schema for texts of at most two characters. -/
def shortText : Value := .object [("maxLength", .nat 2), ("type", .str "string")]

theorem json_shortText :
    shortText.json = .obj [("maxLength", (Value.nat 2).json), ("type", .str "string")] :=
  congrArg Json.obj (collect_eq_self (by unfold Sorted; decide))

theorem validateJsonInstance_iff_shortText :
    validatePortableSchema shortText = .ok () ∧
      validateJsonInstance (fun _ => none) shortText (.str "abc") ≠ .error .panic ∧
      (validateJsonInstance (fun _ => none) shortText (.str "abc") = .ok () ↔
        Conforms (fun _ => none) shortText.json (Value.str "abc").json) := by
  have hs : validatePortableSchema shortText = .ok () := by
    rw [validatePortableSchema, json_shortText]
    rfl
  refine ⟨hs, (validateJsonInstance_iff _ _ hs).mpr (Or.inl fun node piece ha => ?_)⟩
  rw [json_shortText] at ha
  cases ha with
  | here =>
    intro minimum maximum count hc bound hb
    cases hc
    simp only [keyword, get?, reduceCtorEq, if_true, String.reduceEq, if_false, false_or,
      Option.some.injEq] at hb
    subst hb
    decide +kernel
  | deeper hchild => cases hchild

/-- Two, written as a float. -/
def floatTwo : Number := ⟨"2.0", by decide, forall_of_all (by decide +kernel)⟩

/-- An array schema whose bound is written as a float. -/
def floatBound : Value :=
  .object [("items", .object [("type", .str "null")]),
    ("minItems", ⟨.num floatTwo, trivial⟩), ("type", .str "array")]

theorem json_floatBound : floatBound.json =
    .obj [("items", .obj [("type", .str "null")]), ("minItems", .num floatTwo),
      ("type", .str "array")] :=
  congrArg Json.obj (collect_eq_self (by unfold Sorted; decide))

/-- A bound that is not written as a count is not read: the empty array passes. -/
theorem bound_ignored :
    validatePortableSchema floatBound = .ok () ∧
      validateJsonInstance (fun _ => none) floatBound (.arr []) = .ok () ∧
      ¬ (validateJsonInstance (fun _ => none) floatBound (.arr []) ≠ .error .panic ∧
        (validateJsonInstance (fun _ => none) floatBound (.arr []) = .ok () ↔
          Conforms (fun _ => none) floatBound.json (Value.arr []).json)) := by
  have hs : validatePortableSchema floatBound = .ok () := by
    rw [validatePortableSchema, json_floatBound]
    rfl
  have hok : validateJsonInstance (fun _ => none) floatBound (.arr []) = .ok () := by
    rw [validateJsonInstance, hs, json_floatBound]
    change walkInstance _ _ _ _ = _
    rw [walkInstance_eq]
    rfl
  refine ⟨hs, hok, fun ⟨_, hiff⟩ => ?_⟩
  have hbounds := (hiff.mp hok _ _ (.here _ _)).2
  rw [json_floatBound] at hbounds
  obtain ⟨k, hk, -⟩ := (hbounds "minItems" "maxItems" 0 rfl).1 (.num floatTwo) rfl
  revert k
  decide +kernel

end Okc.App
