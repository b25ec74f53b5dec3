import Okc.Lib.JsonSyntax
import Okc.Core.Policy

/-!
# Strict JSON (`json.rs`)

`parse_json_strict` reads JSON with a visitor of its own, so that a repeated key is an error where
`serde_json` would keep the last entry. The reader of `serde_json` is a parameter: it makes a syntax
tree of the bytes and presents it to the visitor, the items and entries in the order of the text.

* `visitValue_spec`: the visitor accepts a tree iff no object in it repeats a key, and then gives
  what the decoder of `serde_json` gives.
-/

namespace Okc.Core

open Okc.Lib

/-- A double: a finite one, identified by its printed text, or not a number of JSON. -/
inductive Double
  | finite (n : Number)
  | infinite (negative : Bool)
  | nan

/-- A numeral as the reader presents it. One with a fraction or an exponent, or out of the range of
the integers, is read as a finite double or refused. -/
inductive Numeral
  | unsigned (n : Nat)
  | signed (i : Int)
  | double (n : Number)

/-- `serde_json::Number::from_f64`. -/
def numberFromF64 : Double → Option Value
  | .finite n => some ⟨.num n, trivial⟩
  | .infinite _ => none
  | .nan => none

/-! ## The visitor -/

def visitBool (value : Bool) : Except String Value := .ok (.bool value)

def visitI64 (value : Int) : Except String Value := .ok (intValue value)

def visitU64 (value : Nat) : Except String Value := .ok (.nat value)

def visitF64 (value : Double) : Except String Value :=
  match numberFromF64 value with
  | some number => .ok number
  | none => .error "JSON number must be finite"

def visitString (value : String) : Except String Value := .ok (.str value)

def visitUnit : Except String Value := .ok .null

section

variable {σ : Type} (read : σ → String)

mutual
/-- `UniqueJsonVisitor`, on what the reader presents of a tree. -/
def visitValue : JsonSyntax σ Numeral → Except String Value
  | .null => visitUnit
  | .bool value => visitBool value
  | .num (.unsigned value) => visitU64 value
  | .num (.signed value) => visitI64 value
  | .num (.double value) => visitF64 (.finite value)
  | .str value => visitString (read value)
  | .arr items => do
    let values ← visitSeq items
    .ok (.arr values)
  | .obj entries => do
    let values ← visitMap [] entries
    .ok (.object values)

/-- The loop of `visit_seq`. -/
def visitSeq : List (JsonSyntax σ Numeral) → Except String (List Value)
  | [] => .ok []
  | item :: rest => do
    let value ← visitValue item
    let values ← visitSeq rest
    .ok (value :: values)

/-- The loop of `visit_map`, with the entries inserted so far. -/
def visitMap (values : List (String × Value)) :
    List (σ × JsonSyntax σ Numeral) → Except String (List (String × Value))
  | [] => .ok values
  | (key, item) :: rest => do
    reject (read key ∈ values.map Prod.fst) "duplicate JSON object key"
    let value ← visitValue item
    visitMap (insertKey (read key) value values) rest
end

/-- The number that the decoder of `serde_json` makes of a numeral. -/
def Numeral.value : Numeral → Value
  | .unsigned n => .nat n
  | .signed i => intValue i
  | .double n => (numberFromF64 (.finite n)).getD .null

/-- `serde_json::from_slice::<Value>`, given the reader. -/
def fromSlice (reader : Bytes → Except String (JsonSyntax σ Numeral)) (bytes : Bytes) :
    Except String Value :=
  (reader bytes).map (JsonSyntax.value read Numeral.value)

/-- `parse_json_strict`, given the reader. -/
def parseJsonStrict (reader : Bytes → Except String (JsonSyntax σ Numeral)) (bytes : Bytes) :
    Except String Value := do
  let tree ← reader bytes
  visitValue read tree

/-! ## What the visitor accepts -/

variable {read}

theorem visitSeq_spec {items : List (JsonSyntax σ Numeral)} {values : List Value}
    (ih : ∀ x ∈ items, ∀ v, visitValue read x = .ok v ↔
      x.Distinct read ∧ v = x.value read Numeral.value) :
    visitSeq read items = .ok values ↔
      (∀ x ∈ items, x.Distinct read) ∧
        values = items.map (JsonSyntax.value read Numeral.value) := by
  induction items generalizing values with
  | nil => simp [visitSeq, eq_comm]
  | cons x xs ihs =>
    have hrest := fun values => @ihs values fun y hy => ih y (List.mem_cons_of_mem _ hy)
    simp only [visitSeq, bind_eq_ok, ih x List.mem_cons_self, hrest, Except.ok.injEq,
      List.forall_mem_cons, List.map_cons]
    constructor
    · rintro ⟨v, ⟨hx, rfl⟩, vs, ⟨hxs, rfl⟩, rfl⟩
      exact ⟨⟨hx, hxs⟩, rfl⟩
    · rintro ⟨⟨hx, hxs⟩, rfl⟩
      exact ⟨_, ⟨hx, rfl⟩, _, ⟨hxs, rfl⟩, rfl⟩

/-- The loop over the entries of an object, after some that were inserted. -/
theorem visitMap_spec {entries : List (σ × JsonSyntax σ Numeral)}
    {inserted values : List (String × Value)}
    (ih : ∀ e ∈ entries, ∀ v, visitValue read e.2 = .ok v ↔
      e.2.Distinct read ∧ v = e.2.value read Numeral.value) :
    visitMap read inserted entries = .ok values ↔
      (entries.map fun e => read e.1).Nodup ∧
        (∀ e ∈ entries, read e.1 ∉ inserted.map Prod.fst) ∧
        (∀ e ∈ entries, e.2.Distinct read) ∧
        values = (entries.map fun e => (read e.1, e.2.value read Numeral.value)).foldl
          (fun m e => insertKey e.1 e.2 m) inserted := by
  induction entries generalizing inserted with
  | nil => simp [visitMap, eq_comm]
  | cons e es ihs =>
    have hrest := fun inserted => @ihs inserted fun d hd => ih d (List.mem_cons_of_mem _ hd)
    rw [visitMap, bind_unit_eq_ok, reject_eq_ok, bind_eq_ok]
    simp only [ih e List.mem_cons_self, hrest, mem_keys_insertKey, not_or, List.forall_mem_cons,
      List.map_cons, List.foldl_cons]
    rw [List.nodup_cons]
    have hkey : read e.1 ∉ es.map (fun d => read d.1) ↔ ∀ d ∈ es, read d.1 ≠ read e.1 := by
      simp only [List.mem_map, not_exists, not_and, ne_eq]
    rw [hkey]
    constructor
    · rintro ⟨hnew, v, ⟨he, rfl⟩, hnodup, hothers, hes, rfl⟩
      exact ⟨⟨fun d hd => (hothers d hd).1, hnodup⟩,
        ⟨hnew, fun d hd => (hothers d hd).2⟩, ⟨he, hes⟩, rfl⟩
    · rintro ⟨⟨hfirst, hnodup⟩, ⟨hnew, hothers⟩, ⟨he, hes⟩, rfl⟩
      exact ⟨hnew, _, ⟨he, rfl⟩, hnodup, fun d hd => ⟨hfirst d hd, hothers d hd⟩, hes, rfl⟩

/-- **The visitor accepts a tree iff no object in it repeats a key**, and then gives its value. -/
theorem visitValue_spec (t : JsonSyntax σ Numeral) (v : Value) :
    visitValue read t = .ok v ↔ t.Distinct read ∧ v = t.value read Numeral.value := by
  induction t using JsonSyntax.induction generalizing v with
  | null => simp [visitValue, visitUnit, JsonSyntax.value, JsonSyntax.distinct_null, eq_comm]
  | bool b => simp [visitValue, visitBool, JsonSyntax.value, JsonSyntax.distinct_bool, eq_comm]
  | num n =>
    cases n <;> simp [visitValue, visitU64, visitI64, visitF64, numberFromF64, JsonSyntax.value,
      Numeral.value, JsonSyntax.distinct_num, eq_comm]
  | str s => simp [visitValue, visitString, JsonSyntax.value, JsonSyntax.distinct_str, eq_comm]
  | arr items ih =>
    simp only [visitValue, bind_eq_ok, visitSeq_spec ih, Except.ok.injEq, JsonSyntax.distinct_arr,
      JsonSyntax.value, JsonSyntax.valueItems_eq]
    constructor
    · rintro ⟨values, ⟨hitems, rfl⟩, rfl⟩
      exact ⟨hitems, rfl⟩
    · rintro ⟨hitems, rfl⟩
      exact ⟨_, ⟨hitems, rfl⟩, rfl⟩
  | obj entries ih =>
    simp only [visitValue, bind_eq_ok, visitMap_spec ih, Except.ok.injEq, JsonSyntax.distinct_obj,
      JsonSyntax.value, JsonSyntax.valueEntries_eq, List.map_nil, List.not_mem_nil,
      not_false_eq_true, implies_true, true_and]
    have hcollected : ∀ fields : List (String × Value), Value.object (collect fields) =
        Value.object fields := fun fields => Value.ext (by
      simp only [Value.object]
      rw [collect_map, collect_eq_self (sorted_collect _)])
    constructor
    · rintro ⟨values, ⟨hkeys, hentries, rfl⟩, rfl⟩
      exact ⟨⟨hkeys, hentries⟩, hcollected _⟩
    · rintro ⟨⟨hkeys, hentries⟩, rfl⟩
      exact ⟨_, ⟨hkeys, hentries, rfl⟩, hcollected _⟩

/-- **`parse_json_strict` accepts exactly the texts in which no object, at any depth, repeats a
key**, and gives what the ordinary decoder gives. -/
theorem parseJsonStrict_spec (read : σ → String)
    (reader : Bytes → Except String (JsonSyntax σ Numeral)) (bytes : Bytes) :
    ((∃ v, parseJsonStrict read reader bytes = .ok v) ↔
      ∃ t, reader bytes = .ok t ∧ t.Distinct read) ∧
    ∀ v, parseJsonStrict read reader bytes = .ok v → fromSlice read reader bytes = .ok v := by
  simp only [parseJsonStrict, fromSlice, bind_eq_ok, visitValue_spec]
  constructor
  · constructor
    · rintro ⟨v, t, ht, hdistinct, -⟩
      exact ⟨t, ht, hdistinct⟩
    · rintro ⟨t, ht, hdistinct⟩
      exact ⟨_, t, ht, hdistinct, rfl⟩
  · rintro v ⟨t, ht, -, rfl⟩
    rw [ht]
    rfl

/-- The second entry of a key is refused, in an object inside an array as well. -/
example : parseJsonStrict id (fun _ => .ok (.arr [.obj [("a", .null), ("b", .null), ("a", .null)]]))
    [] = .error "duplicate JSON object key" := rfl

end

end Okc.Core
