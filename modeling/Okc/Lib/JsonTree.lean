import Okc.Lib.Json

/-!
# Values inside a JSON value

`Within v w` says that `w` is `v` or an item or entry somewhere inside it.

* `Json.induction`: induction over a value from the values it holds.
* `within_arr`, `within_obj`: what is within an array or an object is it, or within what it holds.
-/

namespace Okc.Lib

/-- Induction over a value from the values it holds. -/
theorem Json.induction {P : Json → Prop}
    (scalar : ∀ v : Json, (∀ items, v ≠ .arr items) → (∀ entries, v ≠ .obj entries) → P v)
    (arr : ∀ items : List Json, (∀ x ∈ items, P x) → P (.arr items))
    (obj : ∀ entries : List (String × Json), (∀ e ∈ entries, P e.2) → P (.obj entries))
    (v : Json) : P v := by
  induction hsize : sizeOf v using Nat.strong_induction_on generalizing v with
  | _ n ih =>
    subst hsize
    cases v with
    | arr items =>
      refine arr items fun x hx => ih (sizeOf x) ?_ x rfl
      have := List.sizeOf_lt_of_mem hx
      simp only [Json.arr.sizeOf_spec]
      omega
    | obj entries =>
      refine obj entries fun e he => ih (sizeOf e.2) ?_ e.2 rfl
      have := List.sizeOf_lt_of_mem he
      obtain ⟨key, v⟩ := e
      simp only [Json.obj.sizeOf_spec]
      simp only [Prod.mk.sizeOf_spec] at this
      omega
    | null | bool | num | str => exact scalar _ (by simp) (by simp)

/-- A value is the other, or holds it at some depth. -/
inductive Within : Json → Json → Prop
  | self (v : Json) : Within v v
  | item {items : List Json} {x v : Json} (hx : x ∈ items) (h : Within x v) :
    Within (.arr items) v
  | value {entries : List (String × Json)} {e : String × Json} {v : Json} (he : e ∈ entries)
    (h : Within e.2 v) : Within (.obj entries) v

theorem Within.trans {u v w : Json} (h : Within u v) (hw : Within v w) : Within u w := by
  induction h with
  | self => exact hw
  | item hx _ ih => exact .item hx (ih hw)
  | value he _ ih => exact .value he (ih hw)

theorem within_arr {items : List Json} {v : Json} :
    Within (.arr items) v ↔ v = .arr items ∨ ∃ x ∈ items, Within x v := by
  constructor
  · intro h
    cases h with
    | self => exact Or.inl rfl
    | item hx h => exact Or.inr ⟨_, hx, h⟩
  · rintro (rfl | ⟨x, hx, h⟩)
    · exact .self _
    · exact .item hx h

theorem within_obj {entries : List (String × Json)} {v : Json} :
    Within (.obj entries) v ↔ v = .obj entries ∨ ∃ e ∈ entries, Within e.2 v := by
  constructor
  · intro h
    cases h with
    | self => exact Or.inl rfl
    | value he h => exact Or.inr ⟨_, he, h⟩
  · rintro (rfl | ⟨e, he, h⟩)
    · exact .self _
    · exact .value he h

theorem within_scalar {v w : Json} (harr : ∀ items, v ≠ .arr items)
    (hobj : ∀ entries, v ≠ .obj entries) : Within v w ↔ w = v := by
  constructor
  · intro h
    cases h with
    | self => rfl
    | item => exact absurd rfl (harr _)
    | value => exact absurd rfl (hobj _)
  · rintro rfl
    exact .self _

theorem within_str {s : String} {v : Json} : Within (.str s) v ↔ v = .str s :=
  within_scalar (by simp) (by simp)

end Okc.Lib
