import Okc.App.Admission
import Okc.Lib.JsonTree

/-!
# Reading a provider's answer (`okc-ai/src/lib.rs:1177-1191`, `1409-1432`, `1597-1611`)

`findString` looks for a string under one of some keys. It goes through a value depth first, and
takes a string that stands outside every such entry as well, as soon as it meets one.

* `findString_eq_none`: nothing is found iff the value holds no string at all.
* `findString_cases`: what is found is stored under a key, or is the first string of the value and
  stands outside.
* `findString_stored_iff`: the string that is found is always one stored under a key iff no string
  that stands outside is read first, except one that is stored under a key as well.
-/

namespace Okc.App

open Okc.Lib Okc.Core

/-- `ProviderError::new(ProviderErrorKind::InvalidResponse, message)`. -/
def invalidResponse (message : String) : ProviderError := ⟨.invalidResponse, message⟩

/-- The first of the keys that the object has a string under. -/
def keyedString (keys : List String) (map : List (String × Json)) : Option String :=
  keys.findSome? fun key => (get? key map).bind asStr

mutual
/-- `find_string`. -/
def findString (keys : List String) : Json → Option String
  | .str text => some text
  | .arr items => findStringItems keys items
  | .obj map =>
    match keyedString keys map with
    | some text => some text
    | none => findStringValues keys map
  | .null => none
  | .bool _ => none
  | .num _ => none

/-- `items.iter().find_map(..)`. -/
def findStringItems (keys : List String) : List Json → Option String
  | [] => none
  | item :: rest => (findString keys item).or (findStringItems keys rest)

/-- `map.values().find_map(..)`. -/
def findStringValues (keys : List String) : List (String × Json) → Option String
  | [] => none
  | (_, item) :: rest => (findString keys item).or (findStringValues keys rest)
end

/-- The text of a Gemini interaction, with its status. -/
def geminiText (wire : Value) : Except ProviderError (String × String) := do
  let status := ((wire.field "status").bind Value.asStr).getD "completed"
  reject (status ≠ "completed") ⟨.refusal, "Gemini interaction did not complete"⟩
  match findString ["output_text", "text"] wire.json with
  | some text => .ok (text, status)
  | none => .error (invalidResponse "Gemini response has no structured text")

/-- `sanitize_provider_message`. -/
def sanitizeProviderMessage (value : String) : String :=
  String.ofList ((value.toList.filter fun c => !isControl c).take 512)

/-- The message of `normalize_http_error`, for a body that is or is not JSON. -/
def httpErrorMessage (status : Nat) (body : Option Value) : String :=
  let message := (body.bind fun v => findString ["message", "error", "detail"] v.json).map
    sanitizeProviderMessage
  (message.filter fun text => text != "").getD ("provider returned HTTP " ++ Nat.repr status)

/-! ## What is found -/

theorem findStringItems_eq (keys : List String) (items : List Json) :
    findStringItems keys items = items.findSome? (findString keys) := by
  induction items with
  | nil => rfl
  | cons item rest ih =>
    rw [findStringItems, ih, List.findSome?_cons]
    cases findString keys item <;> rfl

theorem findStringValues_eq (keys : List String) (entries : List (String × Json)) :
    findStringValues keys entries = entries.findSome? fun e => findString keys e.2 := by
  induction entries with
  | nil => rfl
  | cons e rest ih =>
    rw [findStringValues, ih, List.findSome?_cons]
    cases findString keys e.2 <;> rfl

/-- A string stored under one of the keys, in an object of the value. -/
def Stored (keys : List String) (v : Json) (text : String) : Prop :=
  ∃ entries, Within v (.obj entries) ∧ ∃ key ∈ keys, get? key entries = some (.str text)

/-- A value without a string, at any depth. -/
def Stringless (v : Json) : Prop := ∀ text, ¬ Within v (.str text)

/-- The first string of a value, where it is not one that an object stores under a key. -/
inductive Outside (keys : List String) : Json → String → Prop
  | bare (text : String) : Outside keys (.str text) text
  | item {before : List Json} {x : Json} {after : List Json} {text : String}
    (hbefore : ∀ y ∈ before, Stringless y) (h : Outside keys x text) :
    Outside keys (.arr (before ++ x :: after)) text
  | value {before : List (String × Json)} {e : String × Json} {after : List (String × Json)}
    {text : String}
    (hkeys : ∀ key ∈ keys, ∀ s, get? key (before ++ e :: after) ≠ some (.str s))
    (hbefore : ∀ y ∈ before, Stringless y.2) (h : Outside keys e.2 text) :
    Outside keys (.obj (before ++ e :: after)) text

theorem asStr_eq_some {v : Json} {s : String} : asStr v = some s ↔ v = .str s := by
  cases v <;> simp [asStr]

theorem keyedString_eq_none {keys : List String} {map : List (String × Json)} :
    keyedString keys map = none ↔ ∀ key ∈ keys, ∀ s, get? key map ≠ some (.str s) := by
  simp only [keyedString, List.findSome?_eq_none_iff, Option.bind_eq_none_iff, ne_eq]
  refine forall₂_congr fun key _ => ⟨fun h s hs => ?_, fun h v hv => ?_⟩
  · simpa [asStr] using h _ hs
  · exact Option.eq_none_iff_forall_ne_some.mpr fun s hs => h s (hv.trans (by
      rw [asStr_eq_some.mp hs]))

theorem keyedString_eq_some {keys : List String} {map : List (String × Json)} {text : String}
    (h : keyedString keys map = some text) :
    ∃ key ∈ keys, get? key map = some (.str text) := by
  obtain ⟨key, hkey, hs⟩ := List.exists_of_findSome?_eq_some h
  obtain ⟨v, hv, htext⟩ := Option.bind_eq_some_iff.mp hs
  exact ⟨key, hkey, by rw [hv, asStr_eq_some.mp htext]⟩

/-- **Nothing is found iff the value holds no string at all.** -/
theorem findString_eq_none (keys : List String) (v : Json) :
    findString keys v = none ↔ Stringless v := by
  induction v using Json.induction with
  | scalar v harr hobj =>
    simp only [Stringless, within_scalar harr hobj]
    cases v with
    | arr items => exact absurd rfl (harr items)
    | obj entries => exact absurd rfl (hobj entries)
    | _ => simp [findString]
  | arr items ih =>
    rw [findString, findStringItems_eq, List.findSome?_eq_none_iff]
    simp only [Stringless, within_arr, reduceCtorEq, false_or, not_exists, not_and]
    exact ⟨fun h text x hx => (ih x hx).mp (h x hx) text,
      fun h x hx => (ih x hx).mpr fun text => h text x hx⟩
  | obj entries ih =>
    have hvalues : findStringValues keys entries = none ↔ Stringless (.obj entries) := by
      rw [findStringValues_eq, List.findSome?_eq_none_iff]
      simp only [Stringless, within_obj, reduceCtorEq, false_or, not_exists, not_and]
      exact ⟨fun h text e he => (ih e he).mp (h e he) text,
        fun h e he => (ih e he).mpr fun text => h text e he⟩
    rw [findString]
    split
    · next text hkeyed =>
      obtain ⟨key, -, hget⟩ := keyedString_eq_some hkeyed
      simp only [reduceCtorEq, Stringless, false_iff, not_forall, not_not]
      exact ⟨text, .value (mem_of_get? hget) (.self _)⟩
    · exact hvalues

theorem Stored.item {keys : List String} {items : List Json} {x : Json} {text : String}
    (hx : x ∈ items) (h : Stored keys x text) : Stored keys (.arr items) text := by
  obtain ⟨entries, hin, hkey⟩ := h
  exact ⟨entries, .item hx hin, hkey⟩

theorem Stored.value {keys : List String} {entries : List (String × Json)} {e : String × Json}
    {text : String} (he : e ∈ entries) (h : Stored keys e.2 text) :
    Stored keys (.obj entries) text := by
  obtain ⟨inner, hin, hkey⟩ := h
  exact ⟨inner, .value he hin, hkey⟩

/-- **What is found is stored under a key, or is the first string of the value.** -/
theorem findString_cases {keys : List String} {v : Json} {text : String}
    (h : findString keys v = some text) : Stored keys v text ∨ Outside keys v text := by
  induction v using Json.induction with
  | scalar v harr hobj =>
    cases v with
    | arr items => exact absurd rfl (harr items)
    | obj entries => exact absurd rfl (hobj entries)
    | str s =>
      obtain rfl := Option.some.inj h
      exact Or.inr (.bare s)
    | _ => cases h
  | arr items ih =>
    rw [findString, findStringItems_eq, List.findSome?_eq_some_iff] at h
    obtain ⟨before, x, after, rfl, hx, hbefore⟩ := h
    rcases ih x (by simp) hx with hs | ho
    · exact Or.inl (hs.item (by simp))
    · exact Or.inr (.item (fun y hy => (findString_eq_none keys y).mp (hbefore y hy)) ho)
  | obj entries ih =>
    rw [findString] at h
    split at h
    · next found hkeyed =>
      obtain rfl := Option.some.inj h
      exact Or.inl ⟨entries, .self _, keyedString_eq_some hkeyed⟩
    · next hnone =>
      rw [findStringValues_eq, List.findSome?_eq_some_iff] at h
      obtain ⟨before, e, after, rfl, he, hbefore⟩ := h
      rcases ih e (by simp) he with hs | ho
      · exact Or.inl (hs.value (by simp))
      · exact Or.inr (.value (keyedString_eq_none.mp hnone)
          (fun y hy => (findString_eq_none keys y.2).mp (hbefore y hy)) ho)

/-- A first string that stands outside is what is found. -/
theorem findString_of_outside {keys : List String} {v : Json} {text : String}
    (h : Outside keys v text) : findString keys v = some text := by
  induction h with
  | bare text => rfl
  | item hbefore _ ih =>
    rw [findString, findStringItems_eq, List.findSome?_eq_some_iff]
    exact ⟨_, _, _, rfl, ih, fun y hy => (findString_eq_none keys y).mpr (hbefore y hy)⟩
  | value hkeys hbefore _ ih =>
    rw [findString, keyedString_eq_none.mpr hkeys, findStringValues_eq,
      List.findSome?_eq_some_iff]
    exact ⟨_, _, _, rfl, ih, fun y hy => (findString_eq_none keys y.2).mpr (hbefore y hy)⟩

theorem not_stringless_of_stored {keys : List String} {v : Json} {text : String}
    (h : Stored keys v text) : ¬ Stringless v := by
  obtain ⟨entries, hin, key, -, hget⟩ := h
  exact fun hnone => hnone text (hin.trans (.value (mem_of_get? hget) (.self _)))

/-- **A string stored under a key is found iff none that stands outside is read first**, unless it
is stored under a key as well. Where a key has a string, some string is found in any case. -/
theorem findString_stored_iff (keys : List String) (v : Json) :
    ((∀ text, findString keys v = some text → Stored keys v text) ∧
      ((∃ text, Stored keys v text) → ∃ text, findString keys v = some text)) ↔
      ∀ text, Outside keys v text → Stored keys v text := by
  have hfound : (∃ text, Stored keys v text) → ∃ text, findString keys v = some text := by
    rintro ⟨text, h⟩
    refine Option.ne_none_iff_exists'.mp fun hnone => not_stringless_of_stored h ?_
    exact (findString_eq_none keys v).mp hnone
  constructor
  · rintro ⟨hstored, -⟩ text ho
    exact hstored text (findString_of_outside ho)
  · exact fun h => ⟨fun text hs => (findString_cases hs).elim id (h text), hfound⟩

theorem geminiText_stored {wire : Value} {text status : String}
    (h : geminiText wire = .ok (text, status))
    (hfirst : ∀ s, Outside ["output_text", "text"] wire.json s →
      Stored ["output_text", "text"] wire.json s) :
    Stored ["output_text", "text"] wire.json text := by
  simp only [geminiText, bind_unit_eq_ok] at h
  obtain ⟨-, h⟩ := h
  split at h
  · next found hfound =>
    obtain ⟨rfl, -⟩ := Prod.mk.inj (Except.ok.inj h)
    exact ((findString_stored_iff _ _).mpr hfirst).1 _ hfound
  · cases h

/-- An interaction that completed without an output. -/
def emptyInteraction : Value :=
  .object [("id", .str "interaction-7"), ("status", .str "completed")]

theorem json_emptyInteraction :
    emptyInteraction.json = .obj [("id", .str "interaction-7"), ("status", .str "completed")] :=
  congrArg Json.obj (collect_eq_self (by unfold Sorted; decide))

/-- An interaction without an output has its identity for a text. -/
theorem interaction_identity :
    geminiText emptyInteraction = .ok ("interaction-7", "completed") ∧
      ¬ ((∀ text, findString ["output_text", "text"] emptyInteraction.json = some text →
          Stored ["output_text", "text"] emptyInteraction.json text) ∧
        ((∃ text, Stored ["output_text", "text"] emptyInteraction.json text) →
          ∃ text, findString ["output_text", "text"] emptyInteraction.json = some text)) := by
  have hfound : findString ["output_text", "text"] emptyInteraction.json =
      some "interaction-7" := by
    rw [json_emptyInteraction]
    rfl
  have hstatus : (emptyInteraction.field "status").bind Value.asStr = some "completed" := by
    rw [Value.field, emptyInteraction, Value.entries_object (by unfold Sorted; decide)]
    rfl
  refine ⟨?_, fun ⟨hstored, _⟩ => ?_⟩
  · rw [geminiText, hstatus, hfound]
    rfl
  · obtain ⟨entries, hin, key, hkey, hget⟩ := hstored _ hfound
    simp only [json_emptyInteraction, within_obj, within_str, List.mem_cons, List.not_mem_nil,
      or_false, exists_eq_or_imp, exists_eq_left, Json.obj.injEq, reduceCtorEq] at hin
    subst hin
    revert key
    decide

end Okc.App
