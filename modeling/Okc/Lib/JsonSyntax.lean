import Okc.Lib.Json

/-!
# JSON syntax trees

What a JSON text says, before its objects become maps: the entries of an object stand in the order
of the text, and a key may stand there twice. String literals and numerals are of any types; `read` and
`number` say what they denote.

* `JsonSyntax.value`: the value a tree denotes, where the last entry of a key wins.
* `JsonSyntax.Distinct`: no object of the tree, at any depth, has two entries with one key.
* `distinct_arr`, `distinct_obj`: what that says of an array and of an object.
-/

namespace Okc.Lib

inductive JsonSyntax (σ ν : Type)
  | null
  | bool (b : Bool)
  | num (n : ν)
  | str (s : σ)
  | arr (items : List (JsonSyntax σ ν))
  | obj (entries : List (σ × JsonSyntax σ ν))

namespace JsonSyntax

variable {σ ν : Type}

/-- Induction over a tree from the trees it holds. -/
theorem induction {P : JsonSyntax σ ν → Prop} (null : P .null) (bool : ∀ b, P (.bool b))
    (num : ∀ n, P (.num n)) (str : ∀ s, P (.str s))
    (arr : ∀ items : List (JsonSyntax σ ν), (∀ x ∈ items, P x) → P (.arr items))
    (obj : ∀ entries : List (σ × JsonSyntax σ ν), (∀ e ∈ entries, P e.2) → P (.obj entries)) :
    ∀ t : JsonSyntax σ ν, P t
  | .null => null
  | .bool b => bool b
  | .num n => num n
  | .str s => str s
  | .arr items => arr items fun x hx =>
    have := List.sizeOf_lt_of_mem hx
    JsonSyntax.induction null bool num str arr obj x
  | .obj entries => obj entries fun e he =>
    have := List.sizeOf_lt_of_mem he
    JsonSyntax.induction null bool num str arr obj e.2
termination_by t => sizeOf t
decreasing_by
  · simp only [JsonSyntax.arr.sizeOf_spec]
    omega
  · obtain ⟨key, t⟩ := e
    simp only [JsonSyntax.obj.sizeOf_spec]
    simp only [Prod.mk.sizeOf_spec] at this
    omega

/-- A tree is the other, or holds it at some depth. -/
inductive Within : JsonSyntax σ ν → JsonSyntax σ ν → Prop
  | self (t : JsonSyntax σ ν) : Within t t
  | item {items : List (JsonSyntax σ ν)} {x t : JsonSyntax σ ν} (hx : x ∈ items) (h : Within x t) :
    Within (.arr items) t
  | value {entries : List (σ × JsonSyntax σ ν)} {e : σ × JsonSyntax σ ν} {t : JsonSyntax σ ν}
    (he : e ∈ entries) (h : Within e.2 t) : Within (.obj entries) t

section Denotation

variable (read : σ → String) (number : ν → Value)

mutual
/-- The value of a tree. -/
def value : JsonSyntax σ ν → Value
  | .null => .null
  | .bool b => .bool b
  | .num n => number n
  | .str s => .str (read s)
  | .arr items => .arr (valueItems items)
  | .obj entries => .object (valueEntries entries)

def valueItems : List (JsonSyntax σ ν) → List Value
  | [] => []
  | x :: xs => value x :: valueItems xs

def valueEntries : List (σ × JsonSyntax σ ν) → List (String × Value)
  | [] => []
  | (key, x) :: es => (read key, value x) :: valueEntries es
end

/-- No object, at any depth, has two entries with one key. -/
def Distinct (t : JsonSyntax σ ν) : Prop :=
  ∀ entries, Within t (.obj entries) → (entries.map fun e => read e.1).Nodup

variable {read number}

theorem valueItems_eq (items : List (JsonSyntax σ ν)) :
    valueItems read number items = items.map (value read number) := by
  induction items with
  | nil => rfl
  | cons x xs ih => rw [valueItems, ih, List.map_cons]

theorem valueEntries_eq (entries : List (σ × JsonSyntax σ ν)) :
    valueEntries read number entries = entries.map fun e => (read e.1, value read number e.2) := by
  induction entries with
  | nil => rfl
  | cons e es ih => rw [valueEntries, ih, List.map_cons]

theorem distinct_null : Distinct read (.null : JsonSyntax σ ν) := by
  intro entries h
  cases h

theorem distinct_bool (b : Bool) : Distinct read (.bool b : JsonSyntax σ ν) := by
  intro entries h
  cases h

theorem distinct_num (n : ν) : Distinct read (.num n : JsonSyntax σ ν) := by
  intro entries h
  cases h

theorem distinct_str (s : σ) : Distinct read (.str s : JsonSyntax σ ν) := by
  intro entries h
  cases h

theorem distinct_arr {items : List (JsonSyntax σ ν)} :
    Distinct read (.arr items) ↔ ∀ x ∈ items, Distinct read x := by
  constructor
  · exact fun h x hx entries hin => h entries (.item hx hin)
  · intro h entries hin
    cases hin with
    | item hx hin => exact h _ hx entries hin

theorem distinct_obj {entries : List (σ × JsonSyntax σ ν)} :
    Distinct read (.obj entries) ↔
      (entries.map fun e => read e.1).Nodup ∧ ∀ e ∈ entries, Distinct read e.2 := by
  constructor
  · exact fun h => ⟨h entries (.self _), fun e he inner hin => h inner (.value he hin)⟩
  · rintro ⟨hkeys, h⟩ inner hin
    cases hin with
    | self => exact hkeys
    | value he hin => exact h _ he inner hin

end Denotation

end JsonSyntax

end Okc.Lib
