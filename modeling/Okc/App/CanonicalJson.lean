import Okc.Core.Identity
import Okc.Lib.ByteOrder
import Okc.Lib.JsonOrder
import Okc.Lib.SortBy

/-!
# Canonical JSON (`okc-core/src/canonical.rs:12-52`, `okc-ai/src/lib.rs:1554-1579`)

The two crates each sort the keys of a value before they hash it. `okc-core` empties every map and
fills it again from its sorted entries, with the items sorted first; `okc-ai` builds a second value
from the sorted keys. `serde_json::Map` is a `BTreeMap`, or an `IndexMap` under the feature
`preserve_order`: a `MapBacking` is what the two have in common, that a key behind all others goes
to the end.

* `sortJson_eq`, `canonicalize_eq`: both are `Lib.sortJson`.
* `canonicalJson_agree`: the crates write one text for a value, two values get one text exactly when
  they are equal up to the order of keys, and a value that was sorted stays as it is.
-/

namespace Okc.App

open Okc.Lib Okc.Core

/-- What `serde_json::Map` is built on, with the entries in the order of its iterator. -/
structure MapBacking where
  insert : String → Json → List (String × Json) → List (String × Json)
  insert_last : ∀ {k : String} {v : Json} {m : List (String × Json)},
    (∀ e ∈ m, e.1 < k) → insert k v m = m ++ [(k, v)]

namespace MapBacking

/-- `BTreeMap`. -/
def btree : MapBacking where
  insert := insertKey
  insert_last {k v m} h := by
    induction m with
    | nil => rfl
    | cons e rest ih =>
      have hlt := h e List.mem_cons_self
      obtain ⟨k', v'⟩ := e
      rw [insertKey, if_neg hlt.asymm, if_neg (Ne.symm hlt.ne),
        ih fun e he => h e (List.mem_cons_of_mem _ he)]
      rfl

/-- `IndexMap`: a key that is there keeps its place. -/
def index : MapBacking where
  insert k v m :=
    if k ∈ m.map Prod.fst then m.map fun e => if e.1 = k then (k, v) else e else m ++ [(k, v)]
  insert_last {k v m} h := by
    refine if_neg fun hk => ?_
    obtain ⟨e, he, rfl⟩ := List.mem_map.mp hk
    exact lt_irrefl _ (h e he)

variable (B : MapBacking)

/-- `sort_json`. -/
def sortJson : Json → Json
  | .arr items => .arr (items.attach.map fun item => sortJson item.1)
  | .obj map =>
    let entries := sortBy (fun e => byteOrder e.1) map
    .obj (entries.attach.foldl (fun map entry => B.insert entry.1.1 (sortJson entry.1.2) map) [])
  | value => value
termination_by value => sizeOf value
decreasing_by
  · have := List.sizeOf_lt_of_mem item.2
    simp only [Json.arr.sizeOf_spec]
    omega
  · obtain ⟨⟨key, value⟩, hmem⟩ := entry
    have := List.sizeOf_lt_of_mem (mem_sortBy.mp hmem)
    simp only [Json.obj.sizeOf_spec, Prod.mk.sizeOf_spec] at this ⊢
    omega

/-- `to_canonical_json` of a value. -/
def toCanonicalJson (value : Json) : Bytes := utf8 (String.ofList (compact (B.sortJson value)))

/-- `map[key]` for a key of the map. -/
def valueAt (map : List (String × Json)) (key : String) (h : key ∈ map.map Prod.fst) : Json :=
  (get? key map).get (Option.isSome_iff_ne_none.mpr fun hnone => get?_eq_none.mp hnone h)

theorem valueAt_mem (map : List (String × Json)) (key : String) (h : key ∈ map.map Prod.fst) :
    (key, valueAt map key h) ∈ map :=
  mem_of_get? (Option.some_get _).symm

/-- `canonicalize`. -/
def canonicalize : Json → Json
  | .arr items => .arr (items.attach.map fun item => canonicalize item.1)
  | .obj map =>
    let keys := sortBy byteOrder (map.map Prod.fst)
    .obj (keys.attach.foldl (fun ordered key =>
      B.insert key.1 (canonicalize (valueAt map key.1 (mem_sortBy.mp key.2))) ordered) [])
  | other => other
termination_by value => sizeOf value
decreasing_by
  · have := List.sizeOf_lt_of_mem item.2
    simp only [Json.arr.sizeOf_spec]
    omega
  · have := List.sizeOf_lt_of_mem (valueAt_mem map key.1 (mem_sortBy.mp key.2))
    simp only [Json.obj.sizeOf_spec, Prod.mk.sizeOf_spec] at this ⊢
    omega

/-- `canonical_json`. -/
def canonicalJson (value : Json) : Bytes := utf8 (String.ofList (compact (B.canonicalize value)))

/-! ## Filling a map in the order of its keys -/

section

variable {B}

/-- Keys that come in order are put at the end. -/
theorem foldl_insert (B : MapBacking) {α : Type} (key : α → String) (value : α → Json) {l : List α}
    (h : (l.map key).Pairwise (· < ·)) :
    l.foldl (fun map a => B.insert (key a) (value a) map) [] = l.map fun a => (key a, value a) := by
  induction l using List.reverseRecOn with
  | nil => rfl
  | append_singleton l a ih =>
    rw [List.map_append, List.pairwise_append] at h
    rw [List.foldl_append, ih h.1, List.foldl_cons, List.foldl_nil, List.map_append]
    refine B.insert_last fun e he => ?_
    obtain ⟨b, hb, rfl⟩ := List.mem_map.mp he
    exact h.2.2 (key b) (List.mem_map_of_mem hb) (key a) List.mem_cons_self

/-- Sorting by the bytes is sorting by the keys. -/
theorem sortBy_byteOrder {α : Type} (key : α → String) (l : List α) :
    sortBy (fun a => byteOrder (key a)) l = sortBy key l := by
  unfold sortBy
  simp only [byteOrder_le]

/-- What is collected from distinct keys is the sorted entries. -/
theorem collect_eq_sortBy {map : List (String × Json)} (h : (map.map Prod.fst).Nodup) :
    collect map = sortBy Prod.fst map :=
  (sorted_collect map).eq_of_perm (pairwise_lt_of_sortBy h)
    ((collect_perm h).trans (sortBy_perm _ _).symm)

/-- The items of an array are taken one after the other. -/
theorem attach_map {α β : Type} (f : α → β) (l : List α) :
    (l.attach.map fun a => f a.1) = l.map f := by
  simp

theorem collect_sortEntries {map : List (String × Json)} (h : (map.map Prod.fst).Nodup) :
    collect (sortEntries map) = (sortBy Prod.fst map).map fun e => (e.1, Lib.sortJson e.2) := by
  rw [sortEntries_eq_map, ← collect_map, collect_eq_sortBy h]

/-! ## The two recursions -/

/-- **`sort_json` sorts the keys of every object.** -/
theorem sortJson_eq {value : Json} (h : DistinctKeys value) :
    B.sortJson value = Lib.sortJson value := by
  fun_induction sortJson B value with
  | case1 items ih =>
    have hitems := distinctItems_iff.mp h
    rw [Lib.sortJson, sortItems_eq_map]
    refine congrArg Json.arr ?_
    rw [attach_map B.sortJson]
    exact List.map_congr_left fun item hitem => ih ⟨item, hitem⟩ (hitems item hitem)
  | case2 map entries ih =>
    have hentries := distinctEntries_iff.mp h.2
    have hsorted : entries = sortBy Prod.fst map := sortBy_byteOrder Prod.fst map
    have hkeys : (entries.attach.map fun entry => entry.1.1).Pairwise (· < ·) := by
      rw [attach_map fun e : String × Json => e.1, hsorted]
      exact pairwise_lt_of_sortBy h.1
    rw [B.foldl_insert (fun entry : {e // e ∈ entries} => entry.1.1)
        (fun entry => B.sortJson entry.1.2) hkeys,
      attach_map fun e : String × Json => (e.1, B.sortJson e.2), Lib.sortJson,
      collect_sortEntries h.1, ← hsorted]
    refine congrArg Json.obj (List.map_congr_left fun e he => ?_)
    rw [ih ⟨e, he⟩ (hentries e (mem_sortBy.mp he))]
  | case3 value harr hobj =>
    cases value with
    | arr items => exact absurd rfl (harr items)
    | obj map => exact absurd rfl (hobj map)
    | _ => rfl

/-- **`canonicalize` sorts the keys of every object.** -/
theorem canonicalize_eq {value : Json} (h : DistinctKeys value) :
    B.canonicalize value = Lib.sortJson value := by
  fun_induction canonicalize B value with
  | case1 items ih =>
    have hitems := distinctItems_iff.mp h
    rw [Lib.sortJson, sortItems_eq_map]
    refine congrArg Json.arr ?_
    rw [attach_map B.canonicalize]
    exact List.map_congr_left fun item hitem => ih ⟨item, hitem⟩ (hitems item hitem)
  | case2 map keys ih =>
    have hentries := distinctEntries_iff.mp h.2
    have hsorted : keys = (sortBy Prod.fst map).map Prod.fst := by
      rw [map_sortBy Prod.fst id fun _ => rfl]
      exact sortBy_byteOrder id _
    have hkeys : (keys.attach.map fun key => key.1).Pairwise (· < ·) := by
      rw [attach_map fun key : String => key, List.map_id', hsorted]
      exact pairwise_lt_of_sortBy h.1
    -- the value of a key is looked up in the map as it was
    have hvalue : ∀ key : {key // key ∈ keys},
        (key.1, B.canonicalize (valueAt map key.1 (mem_sortBy.mp key.2))) =
          (key.1, Lib.sortJson ((get? key.1 map).getD .null)) := by
      intro key
      have hmem := valueAt_mem map key.1 (mem_sortBy.mp key.2)
      rw [ih [] key (hentries _ hmem), get?_of_mem h.1 hmem, Option.getD_some]
    rw [B.foldl_insert (fun key : {key // key ∈ keys} => key.1)
        (fun key => B.canonicalize (valueAt map key.1 (mem_sortBy.mp key.2))) hkeys,
      List.map_congr_left fun key _ => hvalue key,
      attach_map fun key : String => (key, Lib.sortJson ((get? key map).getD .null)), hsorted,
      List.map_map, Lib.sortJson, collect_sortEntries h.1]
    refine congrArg Json.obj (List.map_congr_left fun e he => ?_)
    have hget : get? e.1 map = some e.2 := get?_of_mem h.1 (mem_sortBy.mp he)
    rw [Function.comp_apply, hget, Option.getD_some]
  | case3 value harr hobj =>
    cases value with
    | arr items => exact absurd rfl (harr items)
    | obj map => exact absurd rfl (hobj map)
    | _ => rfl

/-- The text of a value whose maps are sorted, as the other modules have it. -/
theorem toCanonicalJson_value (v : Value) : B.toCanonicalJson v.json = v.canonicalJson := by
  rw [toCanonicalJson, sortJson_eq v.canonical.distinct, Value.canonicalJson]

end

end MapBacking

/-- **The two crates agree on canonical texts.** -/
theorem canonicalJson_agree (B : MapBacking) (v w : UnsortedValue) :
    B.toCanonicalJson v.json = B.canonicalJson v.json ∧
      (B.toCanonicalJson v.json = B.toCanonicalJson w.json ↔ EqUpToOrder v.json w.json) ∧
      B.sortJson (B.sortJson v.json) = B.sortJson v.json ∧
      B.canonicalize (B.canonicalize v.json) = B.canonicalize v.json := by
  have htext : Function.Injective fun value : Json => utf8 (String.ofList (compact value)) :=
    fun _ _ h => compact_injective (String.ofList_injective (utf8_injective h))
  have hsorted := (canonical_sortJson v.json).distinct
  refine ⟨?_, ?_, ?_, ?_⟩
  · rw [MapBacking.toCanonicalJson, MapBacking.canonicalJson, MapBacking.sortJson_eq v.distinct,
      MapBacking.canonicalize_eq v.distinct]
  · rw [MapBacking.toCanonicalJson, MapBacking.toCanonicalJson, htext.eq_iff,
      MapBacking.sortJson_eq v.distinct, MapBacking.sortJson_eq w.distinct]
    exact sortJson_eq_iff v.distinct w.distinct
  · rw [MapBacking.sortJson_eq v.distinct, MapBacking.sortJson_eq hsorted, sortJson_sortJson]
  · rw [MapBacking.canonicalize_eq v.distinct, MapBacking.canonicalize_eq hsorted,
      sortJson_sortJson]

end Okc.App
