import Okc.Lib.Json

/-!
# Setting a field of an object

`Value.setField` is `Map::insert` on an object; a value that is no object is left alone.

* `field_setField_self`, `field_setField_ne`: the field has its new value, and the others their old.
* `items_arr`, `eq_arr_of_items`: the items of an array are those it was made of.
-/

namespace Okc.Lib.Value

/-- The entries of an object are sorted by key. -/
theorem sorted_entries {v : Value} {es : List (String × Value)} (h : v.entries = some es) :
    Sorted es := by
  obtain ⟨json, hcanonical⟩ := v
  cases json with
  | obj entries =>
    obtain rfl := Option.some.inj h
    have hsorted := hcanonical.1
    unfold Sorted at hsorted ⊢
    rw [List.map_map]
    have hkeys : (Prod.fst ∘ fun e : { x // x ∈ entries } =>
        ((e.1.1, ⟨e.1.2, canonicalEntries_iff.mp hcanonical.2 e.1 e.2⟩) : String × Value)) =
        fun e => e.1.1 := rfl
    rw [hkeys, List.attach_map_val (f := Prod.fst)]
    exact hsorted
  | _ => cases h

theorem items_arr (xs : List Value) : (arr xs).items = some xs := by
  unfold arr items
  refine congrArg some (List.ext_getElem (by simp) fun i h₁ h₂ => ?_)
  exact ext (by simp)

theorem eq_arr_of_items {v : Value} {xs : List Value} (h : v.items = some xs) : v = arr xs := by
  obtain ⟨json, hcanonical⟩ := v
  cases json with
  | arr items =>
    obtain rfl := Option.some.inj h
    unfold arr
    exact ext (by simp)
  | _ => cases h

def setField (v : Value) (key : String) (x : Value) : Value :=
  match v.entries with
  | some es => object (insertKey key x es)
  | none => v

theorem entries_setField {v : Value} {es : List (String × Value)} (h : v.entries = some es)
    (key : String) (x : Value) : (v.setField key x).entries = some (insertKey key x es) := by
  unfold setField
  rw [h]
  exact entries_object (sorted_insertKey key x (sorted_entries h))

theorem field_setField_self {v : Value} (h : v.entries.isSome = true) (key : String) (x : Value) :
    (v.setField key x).field key = some x := by
  obtain ⟨es, hes⟩ := Option.isSome_iff_exists.mp h
  rw [field, entries_setField hes, Option.bind_some, get?_insertKey_self]

theorem field_setField_ne (v : Value) {key q : String} (h : key ≠ q) (x : Value) :
    (v.setField key x).field q = v.field q := by
  cases hes : v.entries with
  | none =>
    unfold setField
    rw [hes]
  | some es =>
    rw [field, entries_setField hes, Option.bind_some, get?_insertKey_ne x es h, field, hes,
      Option.bind_some]

/-- A value with a field is an object. -/
theorem isSome_entries_of_field {v x : Value} {key : String} (h : v.field key = some x) :
    v.entries.isSome = true := by
  obtain ⟨es, hes, -⟩ := Option.bind_eq_some_iff.mp h
  rw [hes]
  rfl

end Okc.Lib.Value
