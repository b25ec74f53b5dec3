import Mathlib
import Okc.Lib.OrdMap
import Okc.Lib.Text

/-!
# JSON values and their canonical text

`Json` is the tree a JSON text denotes, with objects as entry lists. A `Value` is a tree whose
objects are strictly key-sorted (`Canonical`), which is what a map-backed `Value` can hold;
records are encoded by the combinators `Value.object`, `Value.arr`, `Value.str`, so an encoding
is a `Value` by construction. `compact` and `pretty` are the two printers.

* `compact_injective`: the compact text determines the tree. Only numbers are not
  self-delimiting, which `Stops` covers.
* `sortJson_value`: sorting object keys does nothing to a `Value`.
* `Value.object_inj`: a record's encoding determines its fields.
* `Value.prettySize_object`, `Value.prettySize_arr`: how long the indented text is;
  `Value.length_canonicalJson_le`: the compact text is no longer.
-/

namespace Okc.Lib

/-- The characters of JSON number texts. -/
def isNumeric (c : Char) : Bool :=
  c.isDigit || c == '-' || c == '+' || c == '.' || c == 'e' || c == 'E'

/-- A number, identified with its printed text. -/
structure Number where
  text : String
  numeric : text.toList ≠ [] ∧ ∀ c ∈ text.toList, isNumeric c = true
deriving DecidableEq

theorem Number.ext {n m : Number} (h : n.text = m.text) : n = m := by
  cases n
  cases m
  simpa using h

/-- A JSON tree. -/
inductive Json
  | null
  | bool (b : Bool)
  | num (n : Number)
  | str (s : String)
  | arr (items : List Json)
  | obj (entries : List (String × Json))

/-! ## Printing -/

/-- The one-letter escapes. -/
def shortEscape (c : Char) : Option Char :=
  match c with
  | '"' => some '"'
  | '\\' => some '\\'
  | '\x08' => some 'b'
  | '\t' => some 't'
  | '\n' => some 'n'
  | '\x0c' => some 'f'
  | '\r' => some 'r'
  | _ => none

/-- A character inside a string literal: the remaining controls below U+0020 as `\u00xx`. -/
def escape (c : Char) : List Char :=
  match shortEscape c with
  | some e => ['\\', e]
  | none =>
    if c.toNat < 0x20 then
      ['\\', 'u', '0', '0', hexDigit (c.toNat / 16), hexDigit (c.toNat % 16)]
    else [c]

/-- A string literal with its quotes. -/
def quote (s : String) : List Char := '"' :: s.toList.flatMap escape ++ ['"']

/-- The separator before an array item or an object entry. -/
def comma (first : Bool) : List Char := if first then [] else [',']

mutual
/-- `serde_json::to_string`. -/
def compact : Json → List Char
  | .null => ['n', 'u', 'l', 'l']
  | .bool true => ['t', 'r', 'u', 'e']
  | .bool false => ['f', 'a', 'l', 's', 'e']
  | .num n => n.text.toList
  | .str s => quote s
  | .arr items => '[' :: compactItems true items ++ [']']
  | .obj entries => '{' :: compactEntries true entries ++ ['}']

def compactItems (first : Bool) : List Json → List Char
  | [] => []
  | x :: xs => comma first ++ compact x ++ compactItems false xs

def compactEntries (first : Bool) : List (String × Json) → List Char
  | [] => []
  | (k, v) :: es => comma first ++ quote k ++ ':' :: compact v ++ compactEntries false es
end

/-- A line break and the indentation of nesting depth `d`. -/
def newline (d : Nat) : List Char := '\n' :: List.replicate (2 * d) ' '

mutual
/-- `serde_json::to_string_pretty` at nesting depth `d`. -/
def pretty (d : Nat) : Json → List Char
  | .null => ['n', 'u', 'l', 'l']
  | .bool true => ['t', 'r', 'u', 'e']
  | .bool false => ['f', 'a', 'l', 's', 'e']
  | .num n => n.text.toList
  | .str s => quote s
  | .arr [] => ['[', ']']
  | .arr (x :: xs) => '[' :: prettyItems (d + 1) true (x :: xs) ++ newline d ++ [']']
  | .obj [] => ['{', '}']
  | .obj (e :: es) => '{' :: prettyEntries (d + 1) true (e :: es) ++ newline d ++ ['}']

def prettyItems (d : Nat) (first : Bool) : List Json → List Char
  | [] => []
  | x :: xs => comma first ++ newline d ++ pretty d x ++ prettyItems d false xs

def prettyEntries (d : Nat) (first : Bool) : List (String × Json) → List Char
  | [] => []
  | (k, v) :: es =>
    comma first ++ newline d ++ quote k ++ ':' :: ' ' :: pretty d v ++ prettyEntries d false es
end

/-! ## The compact text determines the tree -/

theorem shortEscape_inj {c d e : Char} (hc : shortEscape c = some e) (hd : shortEscape d = some e) :
    c = d := by
  unfold shortEscape at hc hd
  split at hc <;> cases hc <;> split at hd <;> first | rfl | simp at hd

theorem shortEscape_ne_u (c : Char) : shortEscape c ≠ some 'u' := by
  unfold shortEscape
  split <;> simp

theorem shortEscape_quote : shortEscape '"' = some '"' := rfl

theorem shortEscape_backslash : shortEscape '\\' = some '\\' := rfl

/-- A character's escape is recovered from the text it starts. -/
theorem escape_append_inj {c d : Char} {r s : List Char}
    (h : escape c ++ r = escape d ++ s) : c = d ∧ r = s := by
  unfold escape at h
  cases hc : shortEscape c with
  | some e =>
    cases hd : shortEscape d with
    | some f =>
      simp only [hc, hd, List.cons_append, List.nil_append, List.cons.injEq, true_and] at h
      exact ⟨shortEscape_inj hc (h.1 ▸ hd), h.2⟩
    | none =>
      simp only [hc, hd] at h
      split_ifs at h
      · simp only [List.cons_append, List.cons.injEq, true_and] at h
        exact absurd (h.1 ▸ hc) (shortEscape_ne_u c)
      · simp only [List.cons_append, List.nil_append, List.cons.injEq] at h
        rw [← h.1, shortEscape_backslash] at hd
        cases hd
  | none =>
    cases hd : shortEscape d with
    | some f =>
      simp only [hc, hd] at h
      split_ifs at h
      · simp only [List.cons_append, List.cons.injEq, true_and] at h
        exact absurd (h.1 ▸ hd) (shortEscape_ne_u d)
      · simp only [List.cons_append, List.nil_append, List.cons.injEq] at h
        rw [h.1, shortEscape_backslash] at hc
        cases hc
    | none =>
      simp only [hc, hd] at h
      split_ifs at h with hlc hld hld
      · simp only [List.cons_append, List.nil_append, List.cons.injEq, true_and] at h
        have hi := hexDigit_inj_all _ (by omega) _ (by omega) h.1
        have lo := hexDigit_inj_all _ (by omega) _ (by omega) h.2.1
        exact ⟨Char.toNat_inj.mp (by omega), h.2.2⟩
      · simp only [List.cons_append, List.nil_append, List.cons.injEq] at h
        rw [← h.1, shortEscape_backslash] at hd
        cases hd
      · simp only [List.cons_append, List.nil_append, List.cons.injEq] at h
        rw [h.1, shortEscape_backslash] at hc
        cases hc
      · simpa using h

/-- No escape starts with the closing quote. -/
theorem escape_append_ne_quote (c : Char) (r s : List Char) : escape c ++ r ≠ '"' :: s := by
  intro h
  unfold escape at h
  cases hc : shortEscape c with
  | some e => simp [hc] at h
  | none =>
    simp only [hc] at h
    split_ifs at h
    · simp at h
    · simp only [List.cons_append, List.nil_append, List.cons.injEq] at h
      rw [h.1, shortEscape_quote] at hc
      cases hc

theorem flatMap_escape_inj : ∀ {cs ds r s : List Char},
    cs.flatMap escape ++ '"' :: r = ds.flatMap escape ++ '"' :: s → cs = ds ∧ r = s
  | [], [], _, _, h => by simpa using h
  | [], d :: ds, _, _, h => by
    rw [List.flatMap_cons, List.append_assoc] at h
    exact absurd h.symm (escape_append_ne_quote d _ _)
  | c :: cs, [], _, _, h => by
    rw [List.flatMap_cons, List.append_assoc] at h
    exact absurd h (escape_append_ne_quote c _ _)
  | c :: cs, d :: ds, _, _, h => by
    simp only [List.flatMap_cons, List.append_assoc] at h
    obtain ⟨rfl, hrest⟩ := escape_append_inj h
    obtain ⟨rfl, hr⟩ := flatMap_escape_inj hrest
    exact ⟨rfl, hr⟩

theorem quote_append_inj {a b : String} {r s : List Char} (h : quote a ++ r = quote b ++ s) :
    a = b ∧ r = s := by
  simp only [quote, List.cons_append, List.append_assoc, List.cons.injEq, true_and,
    List.nil_append] at h
  obtain ⟨ht, h⟩ := flatMap_escape_inj h
  exact ⟨String.toList_inj.mp ht, h⟩

/-- The text after a number does not continue it. -/
def Stops (r : List Char) : Prop := ∀ c ∈ r.head?, isNumeric c = false

theorem stops_cons {c : Char} {r : List Char} : Stops (c :: r) ↔ isNumeric c = false := by
  simp [Stops]

theorem numeric_append_inj : ∀ {a b r s : List Char}, (∀ c ∈ a, isNumeric c = true) →
    (∀ c ∈ b, isNumeric c = true) → Stops r → Stops s → a ++ r = b ++ s → a = b ∧ r = s
  | [], [], _, _, _, _, _, _, h => ⟨rfl, h⟩
  | [], d :: b, r, s, _, hb, hr, _, h => by
    rw [List.nil_append] at h
    rw [h, List.cons_append, stops_cons, hb d List.mem_cons_self] at hr
    cases hr
  | c :: a, [], r, s, ha, _, _, hs, h => by
    rw [List.nil_append] at h
    rw [← h, List.cons_append, stops_cons, ha c List.mem_cons_self] at hs
    cases hs
  | c :: a, d :: b, r, s, ha, hb, hr, hs, h => by
    rw [List.cons_append, List.cons_append, List.cons.injEq] at h
    obtain ⟨rfl, htail⟩ := h
    obtain ⟨rfl, hrs⟩ := numeric_append_inj (fun x hx => ha x (List.mem_cons_of_mem _ hx))
      (fun x hx => hb x (List.mem_cons_of_mem _ hx)) hr hs htail
    exact ⟨rfl, hrs⟩

/-- What a JSON text is, told by its first character. -/
def shapeOf (c : Char) : Nat :=
  if isNumeric c then 3
  else if c = 'n' then 0
  else if c = 't' then 1
  else if c = 'f' then 2
  else if c = '"' then 4
  else if c = '[' then 5
  else if c = '{' then 6
  else 7

def Json.shape : Json → Nat
  | .null => 0
  | .bool true => 1
  | .bool false => 2
  | .num _ => 3
  | .str _ => 4
  | .arr _ => 5
  | .obj _ => 6

theorem compact_shape (j : Json) : ∃ c cs, compact j = c :: cs ∧ shapeOf c = j.shape := by
  cases j with
  | null => exact ⟨_, _, rfl, by decide⟩
  | bool b => cases b <;> exact ⟨_, _, rfl, by decide⟩
  | num n =>
    obtain ⟨hne, hnum⟩ := n.numeric
    cases ht : n.text.toList with
    | nil => exact absurd ht hne
    | cons c cs =>
      refine ⟨c, cs, ht, ?_⟩
      have hc : isNumeric c = true := hnum c (ht ▸ List.mem_cons_self)
      simp [shapeOf, hc, Json.shape]
  | str s => exact ⟨_, _, rfl, rfl⟩
  | arr items => exact ⟨_, _, rfl, rfl⟩
  | obj entries => exact ⟨_, _, rfl, rfl⟩

theorem shape_eq {j k : Json} {r s : List Char} (h : compact j ++ r = compact k ++ s) :
    j.shape = k.shape := by
  obtain ⟨c, cs, hj, hc⟩ := compact_shape j
  obtain ⟨d, ds, hk, hd⟩ := compact_shape k
  rw [hj, hk, List.cons_append, List.cons_append, List.cons.injEq] at h
  rw [← hc, ← hd, h.1]

theorem compact_append_ne {j : Json} {c : Char} {r s : List Char} (hc : shapeOf c = 7) :
    compact j ++ r ≠ c :: s := by
  intro h
  obtain ⟨d, ds, hj, hd⟩ := compact_shape j
  rw [hj, List.cons_append, List.cons.injEq] at h
  rw [h.1, hc] at hd
  cases j with
  | bool b => cases b <;> cases hd
  | _ => cases hd

theorem stops_close : Stops (']' :: r) ∧ Stops ('}' :: r) :=
  ⟨stops_cons.mpr (by decide), stops_cons.mpr (by decide)⟩

theorem stops_compactItems (xs : List Json) (r : List Char) :
    Stops (compactItems false xs ++ ']' :: r) := by
  cases xs with
  | nil => exact stops_close.1
  | cons x xs =>
    rw [compactItems, comma]
    exact stops_cons.mpr (by decide)

theorem stops_compactEntries (es : List (String × Json)) (r : List Char) :
    Stops (compactEntries false es ++ '}' :: r) := by
  cases es with
  | nil => exact stops_close.2
  | cons e es =>
    rw [compactEntries, comma]
    exact stops_cons.mpr (by decide)

mutual
theorem compact_append_inj : ∀ (j k : Json) {r s : List Char}, Stops r → Stops s →
    compact j ++ r = compact k ++ s → j = k ∧ r = s
  | .null, k, r, s, _, _, h => by
    have hk := shape_eq h
    cases k with
    | null => simpa [compact] using h
    | bool b => cases b <;> simp [Json.shape] at hk
    | _ => simp [Json.shape] at hk
  | .bool b, k, r, s, _, _, h => by
    have hk := shape_eq h
    cases k with
    | bool c => cases b <;> cases c <;> simp_all [compact, Json.shape]
    | _ => cases b <;> simp [Json.shape] at hk
  | .num n, k, r, s, hr, hs, h => by
    have hk := shape_eq h
    cases k with
    | num m =>
      rw [compact, compact] at h
      obtain ⟨ht, hrs⟩ := numeric_append_inj n.numeric.2 m.numeric.2 hr hs h
      exact ⟨congrArg Json.num (Number.ext (String.toList_inj.mp ht)), hrs⟩
    | bool b => cases b <;> simp [Json.shape] at hk
    | _ => simp [Json.shape] at hk
  | .str a, k, r, s, _, _, h => by
    have hk := shape_eq h
    cases k with
    | str b =>
      obtain ⟨rfl, hrs⟩ := quote_append_inj h
      exact ⟨rfl, hrs⟩
    | bool b => cases b <;> simp [Json.shape] at hk
    | _ => simp [Json.shape] at hk
  | .arr xs, k, r, s, _, _, h => by
    have hk := shape_eq h
    cases k with
    | arr ys =>
      simp only [compact, List.cons_append, List.append_assoc, List.nil_append, List.cons.injEq,
        true_and] at h
      obtain ⟨rfl, hrs⟩ := compactItems_inj xs ys h
      exact ⟨rfl, hrs⟩
    | bool b => cases b <;> simp [Json.shape] at hk
    | _ => simp [Json.shape] at hk
  | .obj es, k, r, s, _, _, h => by
    have hk := shape_eq h
    cases k with
    | obj fs =>
      simp only [compact, List.cons_append, List.append_assoc, List.nil_append, List.cons.injEq,
        true_and] at h
      obtain ⟨rfl, hrs⟩ := compactEntries_inj es fs h
      exact ⟨rfl, hrs⟩
    | bool b => cases b <;> simp [Json.shape] at hk
    | _ => simp [Json.shape] at hk

theorem compactItems_inj : ∀ (xs ys : List Json) {first : Bool} {r s : List Char},
    compactItems first xs ++ ']' :: r = compactItems first ys ++ ']' :: s → xs = ys ∧ r = s
  | [], [], _, _, _, h => by simpa [compactItems] using h
  | [], y :: ys, first, _, _, h => by
    cases first with
    | false => simp [compactItems, comma] at h
    | true =>
      simp only [compactItems, comma, if_true, List.nil_append, List.append_assoc] at h
      exact absurd h.symm (compact_append_ne (by decide))
  | x :: xs, [], first, _, _, h => by
    cases first with
    | false => simp [compactItems, comma] at h
    | true =>
      simp only [compactItems, comma, if_true, List.nil_append, List.append_assoc] at h
      exact absurd h (compact_append_ne (by decide))
  | x :: xs, y :: ys, first, r, s, h => by
    rw [compactItems, compactItems, List.append_assoc, List.append_assoc, List.append_assoc,
      List.append_assoc] at h
    obtain ⟨rfl, htail⟩ := compact_append_inj x y (stops_compactItems xs r)
      (stops_compactItems ys s) (List.append_cancel_left h)
    obtain ⟨rfl, hrs⟩ := compactItems_inj xs ys htail
    exact ⟨rfl, hrs⟩

theorem compactEntries_inj : ∀ (es fs : List (String × Json)) {first : Bool} {r s : List Char},
    compactEntries first es ++ '}' :: r = compactEntries first fs ++ '}' :: s → es = fs ∧ r = s
  | [], [], _, _, _, h => by simpa [compactEntries] using h
  | [], (k, v) :: fs, first, _, _, h => by
    cases first <;> simp [compactEntries, comma, quote] at h
  | (k, v) :: es, [], first, _, _, h => by
    cases first <;> simp [compactEntries, comma, quote] at h
  | (k, v) :: es, (l, w) :: fs, first, r, s, h => by
    simp only [compactEntries, List.append_assoc, List.cons_append] at h
    obtain ⟨rfl, hvalue⟩ := quote_append_inj (List.append_cancel_left h)
    obtain ⟨rfl, htail⟩ := compact_append_inj v w (stops_compactEntries es r)
      (stops_compactEntries fs s) (List.cons.inj hvalue).2
    obtain ⟨rfl, hrs⟩ := compactEntries_inj es fs htail
    exact ⟨rfl, hrs⟩
end

/-- **The compact text determines the tree.** -/
theorem compact_injective : Function.Injective compact := by
  intro j k h
  have hn : Stops [] := by simp [Stops]
  exact (compact_append_inj j k hn hn (by rw [h])).1

instance : DecidableEq Json := fun _ _ => decidable_of_iff _ compact_injective.eq_iff

/-! ## Values: trees with sorted objects -/

mutual
/-- Every object in the tree is strictly sorted by key. -/
def Canonical : Json → Prop
  | .arr items => CanonicalItems items
  | .obj entries => Sorted entries ∧ CanonicalEntries entries
  | _ => True

def CanonicalItems : List Json → Prop
  | [] => True
  | x :: xs => Canonical x ∧ CanonicalItems xs

def CanonicalEntries : List (String × Json) → Prop
  | [] => True
  | (_, v) :: es => Canonical v ∧ CanonicalEntries es
end

theorem canonicalItems_iff {items : List Json} :
    CanonicalItems items ↔ ∀ x ∈ items, Canonical x := by
  induction items with
  | nil => simp [CanonicalItems]
  | cons x xs ih => simp [CanonicalItems, ih]

theorem canonicalEntries_iff {entries : List (String × Json)} :
    CanonicalEntries entries ↔ ∀ e ∈ entries, Canonical e.2 := by
  induction entries with
  | nil => simp [CanonicalEntries]
  | cons e es ih => simp [CanonicalEntries, ih]

mutual
/-- Sort the keys of every object, at every depth. -/
def sortJson : Json → Json
  | .arr items => .arr (sortItems items)
  | .obj entries => .obj (collect (sortEntries entries))
  | j => j

def sortItems : List Json → List Json
  | [] => []
  | x :: xs => sortJson x :: sortItems xs

def sortEntries : List (String × Json) → List (String × Json)
  | [] => []
  | (k, v) :: es => (k, sortJson v) :: sortEntries es
end

mutual
/-- Sorting does nothing to a sorted tree. -/
theorem sortJson_eq : ∀ (j : Json), Canonical j → sortJson j = j
  | .null, _ => rfl
  | .bool _, _ => rfl
  | .num _, _ => rfl
  | .str _, _ => rfl
  | .arr items, h => by rw [sortJson, sortItems_eq items h]
  | .obj entries, h => by rw [sortJson, sortEntries_eq entries h.2, collect_eq_self h.1]

theorem sortItems_eq : ∀ (items : List Json), CanonicalItems items → sortItems items = items
  | [], _ => rfl
  | x :: xs, h => by rw [sortItems, sortJson_eq x h.1, sortItems_eq xs h.2]

theorem sortEntries_eq : ∀ (entries : List (String × Json)), CanonicalEntries entries →
    sortEntries entries = entries
  | [], _ => rfl
  | (k, v) :: es, h => by rw [sortEntries, sortJson_eq v h.1, sortEntries_eq es h.2]
end

/-- A JSON value whose objects are ordered maps. -/
structure Value where
  json : Json
  canonical : Canonical json
deriving DecidableEq

namespace Value

theorem ext {v w : Value} (h : v.json = w.json) : v = w := by
  cases v
  cases w
  cases h
  rfl

theorem ext_iff {v w : Value} : v = w ↔ v.json = w.json := ⟨congrArg json, ext⟩

theorem json_injective : Function.Injective json := fun _ _ h => ext h

def null : Value := ⟨.null, trivial⟩

def bool (b : Bool) : Value := ⟨.bool b, trivial⟩

def str (s : String) : Value := ⟨.str s, trivial⟩

theorem toList_repr_numeric (n : Nat) :
    (Nat.repr n).toList ≠ [] ∧ ∀ c ∈ (Nat.repr n).toList, isNumeric c = true := by
  rw [Nat.toList_repr]
  refine ⟨Nat.toDigits_ne_nil, fun c hc => ?_⟩
  have hd := Nat.isDigit_of_mem_toDigits (by decide) (by decide) hc
  simp [isNumeric, hd]

/-- An unsigned integer. -/
def nat (n : Nat) : Value := ⟨.num ⟨Nat.repr n, toList_repr_numeric n⟩, trivial⟩

def arr (items : List Value) : Value :=
  ⟨.arr (items.map json), canonicalItems_iff.mpr (by simp [canonical])⟩

/-- A record or map: its entries, collected into key order. -/
def object (fields : List (String × Value)) : Value :=
  ⟨.obj (collect (fields.map fun f => (f.1, f.2.json))),
    sorted_collect _, canonicalEntries_iff.mpr fun e he => by
      obtain ⟨f, _, rfl⟩ := List.mem_map.mp (mem_of_mem_collect he)
      exact f.2.canonical⟩

/-- `Option<T>`: `None` is `null`. -/
def option {α : Type} (f : α → Value) : Option α → Value
  | none => null
  | some a => f a

theorem option_some {α : Type} (f : α → Value) (a : α) : option f (some a) = f a := rfl

theorem str_inj {s t : String} : str s = str t ↔ s = t := by
  simp [ext_iff, str]

theorem bool_inj {a b : Bool} : bool a = bool b ↔ a = b := by
  simp [ext_iff, bool]

theorem nat_inj {m n : Nat} : nat m = nat n ↔ m = n := by
  refine ⟨fun h => ?_, fun h => h ▸ rfl⟩
  have ht : Nat.repr m = Nat.repr n := congrArg Number.text (Json.num.inj (ext_iff.mp h))
  have hd : Nat.toDigits 10 m = Nat.toDigits 10 n := by
    rw [← Nat.toList_repr, ← Nat.toList_repr, ht]
  rw [← Nat.ofDigitChars_ten_toDigits (n := m), hd, Nat.ofDigitChars_ten_toDigits]

theorem arr_injective : Function.Injective arr := by
  intro xs ys h
  exact json_injective.list_map (Json.arr.inj (congrArg json h))

/-- The encoding of a list determines the list when that of an item determines the item. -/
theorem arr_map_inj {α : Type} {f : α → Value} (hf : Function.Injective f) {xs ys : List α} :
    arr (xs.map f) = arr (ys.map f) ↔ xs = ys :=
  ⟨fun h => hf.list_map (arr_injective h), fun h => h ▸ rfl⟩

theorem option_inj {α : Type} {f : α → Value} (hf : Function.Injective f) (hn : ∀ a, f a ≠ null)
    {x y : Option α} : option f x = option f y ↔ x = y := by
  refine ⟨fun h => ?_, fun h => h ▸ rfl⟩
  cases x with
  | none =>
    cases y with
    | none => rfl
    | some b => exact absurd h.symm (hn b)
  | some a =>
    cases y with
    | none => exact absurd h (hn a)
    | some b => exact congrArg some (hf h)

theorem str_ne_null (s : String) : str s ≠ null := by
  simp [ext_iff, str, null]

/-- **A record's encoding determines its fields.** -/
theorem object_inj {fs gs : List (String × Value)} (hn : (fs.map Prod.fst).Nodup)
    (hk : fs.map Prod.fst = gs.map Prod.fst) (h : object fs = object gs) : fs = gs := by
  have hkeys : ∀ l : List (String × Value),
      (l.map fun f => (f.1, f.2.json)).map Prod.fst = l.map Prod.fst := fun l => by simp
  have hmap := collect_injective (by rw [hkeys]; exact hn) (by rw [hkeys, hkeys, hk])
    (Json.obj.inj (congrArg json h))
  refine Function.Injective.list_map (fun a b hab => ?_) hmap
  simp only [Prod.mk.injEq] at hab
  exact Prod.ext hab.1 (ext hab.2)

/-! ### Views -/

/-- `Value::as_object`. -/
def entries : Value → Option (List (String × Value))
  | ⟨.obj es, h⟩ =>
    some (es.attach.map fun e => (e.1.1, ⟨e.1.2, canonicalEntries_iff.mp h.2 e.1 e.2⟩))
  | _ => none

/-- `Value::as_array`. -/
def items : Value → Option (List Value)
  | ⟨.arr xs, h⟩ => some (xs.attach.map fun ⟨x, hx⟩ => ⟨x, canonicalItems_iff.mp h x hx⟩)
  | _ => none

/-- `Value::as_str`. -/
def asStr : Value → Option String
  | ⟨.str s, _⟩ => some s
  | _ => none

/-- `Value::get` of a key. -/
def field (key : String) (v : Value) : Option Value := v.entries.bind (get? key)

theorem entries_object {fields : List (String × Value)} (hs : Sorted fields) :
    (object fields).entries = some fields := by
  have hcollect : collect (fields.map fun f => (f.1, f.2.json)) =
      fields.map fun f => (f.1, f.2.json) := by
    refine collect_eq_self ?_
    unfold Sorted at hs ⊢
    rwa [List.map_map]
  unfold object entries
  refine congrArg some (List.ext_getElem (by simp [hcollect]) fun i h₁ h₂ => ?_)
  have he := List.getElem_of_eq hcollect (by simpa using h₁)
  rw [List.getElem_map] at he
  exact Prod.ext (by simp [he]) (ext (by simp [he]))

/-- The bytes of the compact text, keys sorted. -/
def canonicalJson (v : Value) : Bytes := utf8 (String.ofList (compact (sortJson v.json)))

/-- The bytes of the indented text, keys sorted, with a final line break. -/
def canonicalJsonPretty (v : Value) : Bytes :=
  utf8 (String.ofList (pretty 0 (sortJson v.json)) ++ "\n")

/-- `serde_json::to_string` of a value. -/
def text (v : Value) : String := String.ofList (compact v.json)

theorem sortJson_value (v : Value) : sortJson v.json = v.json := sortJson_eq v.json v.canonical

/-- **Distinct values have distinct canonical texts.** -/
theorem canonicalJson_injective : Function.Injective canonicalJson := by
  intro v w h
  rw [canonicalJson, canonicalJson, sortJson_value, sortJson_value] at h
  exact ext (compact_injective (String.ofList_injective (utf8_injective h)))

end Value

/-! ## One line -/

theorem break_not_mem_escape (c : Char) : '\n' ∉ escape c := by
  unfold escape
  split
  · rename_i e he
    unfold shortEscape at he
    intro hmem
    split at he <;> cases he <;> revert hmem <;> decide
  · rename_i he
    split_ifs with hlow
    · have hdigits := byte_halves_lt (UInt8.ofNat c.toNat)
      have hval : (UInt8.ofNat c.toNat).toNat = c.toNat := by
        rw [UInt8.toNat_ofNat']
        omega
      rw [hval] at hdigits
      have hdigit : ∀ n < 16, hexDigit n ≠ '\n' := by decide
      simp only [List.mem_cons, List.not_mem_nil, or_false, not_or]
      exact ⟨by decide, by decide, by decide, by decide, (hdigit _ hdigits.1).symm,
        (hdigit _ hdigits.2).symm⟩
    · rintro hmem
      rw [← List.mem_singleton.mp hmem] at hlow
      exact hlow (by decide)

theorem break_not_mem_quote (s : String) : '\n' ∉ quote s := by
  unfold quote
  intro hmem
  rcases List.mem_append.mp hmem with hmem | hmem
  · rcases List.mem_cons.mp hmem with hc | hmem
    · exact absurd hc (by decide)
    · obtain ⟨c, -, hc⟩ := List.mem_flatMap.mp hmem
      exact break_not_mem_escape c hc
  · exact absurd (List.mem_singleton.mp hmem) (by decide)

theorem break_not_mem_comma (first : Bool) : '\n' ∉ comma first := by
  cases first <;> decide

mutual
/-- The compact text of a tree has no line break. -/
theorem break_not_mem_compact : ∀ j : Json, '\n' ∉ compact j
  | .null => by decide
  | .bool true => by decide
  | .bool false => by decide
  | .num n => fun hmem => absurd (n.numeric.2 _ hmem) (by decide)
  | .str s => break_not_mem_quote s
  | .arr items => by
    have hitems := break_not_mem_compactItems items true
    simp [compact, hitems]
  | .obj entries => by
    have hentries := break_not_mem_compactEntries entries true
    simp [compact, hentries]

theorem break_not_mem_compactItems : ∀ (items : List Json) (first : Bool),
    '\n' ∉ compactItems first items
  | [], _ => List.not_mem_nil
  | x :: xs, first => by
    have hx := break_not_mem_compact x
    have hxs := break_not_mem_compactItems xs false
    have hcomma := break_not_mem_comma first
    simp [compactItems, hx, hxs, hcomma]

theorem break_not_mem_compactEntries : ∀ (entries : List (String × Json)) (first : Bool),
    '\n' ∉ compactEntries first entries
  | [], _ => List.not_mem_nil
  | (k, v) :: es, first => by
    have hk := break_not_mem_quote k
    have hv := break_not_mem_compact v
    have hes := break_not_mem_compactEntries es false
    have hcomma := break_not_mem_comma first
    simp [compactEntries, hk, hv, hes, hcomma]
end

theorem compact_ne_nil : ∀ j : Json, compact j ≠ []
  | .null => by decide
  | .bool true => by decide
  | .bool false => by decide
  | .num n => n.numeric.1
  | .str s => by simp [compact, quote]
  | .arr items => by simp [compact]
  | .obj entries => by simp [compact]

theorem Value.break_not_mem_canonicalJson (v : Value) : (10 : UInt8) ∉ v.canonicalJson :=
  break_not_mem_utf8 (break_not_mem_compact _)

theorem Value.canonicalJson_ne_nil (v : Value) : v.canonicalJson ≠ [] := by
  intro h
  have hnil : utf8 "" = [] := by decide
  exact compact_ne_nil _ (String.ofList_eq_empty_iff.mp (utf8_injective (h.trans hnil.symm)))

theorem Value.breaks_text (v : Value) : breaks v.text = 0 := by
  refine List.count_eq_zero.mpr ?_
  rw [Value.text, String.toList_ofList]
  exact break_not_mem_compact v.json

/-! ## Length of the printed texts -/

/-- The number of bytes of a text given by its characters. -/
def size (cs : List Char) : Nat := (cs.map Char.utf8Size).sum

@[simp] theorem size_nil : size [] = 0 := rfl

@[simp] theorem size_cons (c : Char) (cs : List Char) : size (c :: cs) = c.utf8Size + size cs := by
  simp [size]

@[simp] theorem size_append (cs ds : List Char) : size (cs ++ ds) = size cs + size ds := by
  simp [size]

theorem size_toList (s : String) : size s.toList = len s := by
  rw [size, ← len_ofList, String.ofList_toList]

theorem size_newline (d : Nat) : size (newline d) = 2 * d + 1 := by
  have hspace : Char.utf8Size ' ' = 1 := rfl
  have hbreak : Char.utf8Size '\n' = 1 := rfl
  rw [newline, size_cons, hbreak, size, List.map_replicate, List.sum_replicate, hspace]
  simp [Nat.add_comm]

theorem size_escape (c : Char) :
    c.utf8Size ≤ size (escape c) ∧ size (escape c) ≤ 6 * c.utf8Size := by
  have hascii : ∀ x ∈ ['"', '\\', 'b', 't', 'n', 'f', 'r', 'u', '0'], x.utf8Size = 1 :=
    forall_of_all (by decide)
  have hpos := c.utf8Size_pos
  have hsmall : c.toNat < 0x20 → c.utf8Size = 1 := fun h => by
    have hval : c.val.toNat < 0x20 := h
    simp only [Char.utf8Size]
    rw [if_pos (UInt32.le_iff_toNat_le.mpr (by simp; omega))]
  unfold escape
  cases hs : shortEscape c with
  | some e =>
    have he : e.utf8Size = 1 ∧ c.utf8Size = 1 := by
      unfold shortEscape at hs
      split at hs <;> cases hs <;> exact ⟨rfl, rfl⟩
    simp only [size_cons, size_nil, he.1, he.2, hascii '\\' (by simp)]
    omega
  | none =>
    split_ifs with hc
    · have hhex := fun n (hn : n < 16) => utf8Size_hexDigit_all n hn
      simp only [size_cons, size_nil, hhex _ (show c.toNat / 16 < 16 by omega),
        hhex _ (show c.toNat % 16 < 16 by omega), hsmall hc, hascii '\\' (by simp),
        hascii 'u' (by simp), hascii '0' (by simp)]
      omega
    · simp only [size_cons, size_nil]
      omega

/-- A string literal is longer than the string, at most by the quotes and six bytes for one. -/
theorem size_quote (s : String) : len s + 2 ≤ size (quote s) ∧ size (quote s) ≤ 6 * len s + 2 := by
  have hquote : Char.utf8Size '"' = 1 := rfl
  have hmap : ∀ cs : List Char, size cs ≤ size (cs.flatMap escape) ∧
      size (cs.flatMap escape) ≤ 6 * size cs := fun cs => by
    induction cs with
    | nil => simp
    | cons c cs ih =>
      have := size_escape c
      simp only [List.flatMap_cons, size_cons, size_append]
      omega
  have := hmap s.toList
  rw [size_toList] at this
  rw [quote, List.cons_append, size_cons, size_append, size_cons, size_nil, hquote]
  omega

/-- Hexadecimal digits are not escaped. -/
theorem size_quote_append_hex (s : String) (bytes : Bytes) :
    size (quote (s ++ hex bytes)) = size (quote s) + 2 * bytes.length := by
  have hdigit : ∀ n < 16, size (escape (hexDigit n)) = 1 := by decide
  have hhex : ∀ bytes, size ((hexChars bytes).flatMap escape) = 2 * bytes.length := fun bytes => by
    induction bytes with
    | nil => rfl
    | cons b bs ih =>
      obtain ⟨hb, lb⟩ := byte_halves_lt b
      simp only [hexChars, List.flatMap_cons, size_append, hdigit _ hb, hdigit _ lb, ih,
        List.length_cons]
      omega
  simp only [quote, String.toList_append, List.flatMap_append, List.cons_append, size_cons,
    size_append, hex, String.toList_ofList, hhex]
  omega

theorem size_comma (first : Bool) : size (comma first) = if first then 0 else 1 := by
  cases first <;> rfl

theorem size_prettyItems (d : Nat) (items : List Json) :
    size (prettyItems d false items) =
      (items.map fun x => 2 * d + 2 + size (pretty d x)).sum := by
  induction items with
  | nil => rfl
  | cons x xs ih =>
    simp only [prettyItems, size_append, size_newline, size_comma, List.map_cons, List.sum_cons, ih,
      Bool.false_eq_true, if_false]
    omega

theorem size_prettyEntries (d : Nat) (entries : List (String × Json)) :
    size (prettyEntries d false entries) =
      (entries.map fun e => 2 * d + 4 + size (quote e.1) + size (pretty d e.2)).sum := by
  have hcolon : Char.utf8Size ':' = 1 := rfl
  have hspace : Char.utf8Size ' ' = 1 := rfl
  induction entries with
  | nil => rfl
  | cons e es ih =>
    simp only [prettyEntries, size_append, size_cons, size_newline, size_comma, hcolon, hspace,
      List.map_cons, List.sum_cons, ih, Bool.false_eq_true, if_false]
    omega

/-- The first item has no comma before it. -/
theorem size_first_item (d : Nat) (x : Json) (xs : List Json) :
    size (prettyItems d true (x :: xs)) + 1 = size (prettyItems d false (x :: xs)) := by
  simp only [prettyItems, size_append, size_comma]
  simp
  omega

theorem size_first_entry (d : Nat) (e : String × Json) (es : List (String × Json)) :
    size (prettyEntries d true (e :: es)) + 1 = size (prettyEntries d false (e :: es)) := by
  simp only [prettyEntries, size_append, size_comma]
  simp
  omega

mutual
/-- The compact text is no longer than the indented one. -/
theorem size_compact_le : ∀ (j : Json) (d : Nat), size (compact j) ≤ size (pretty d j)
  | .null, _ => le_refl _
  | .bool true, _ => le_refl _
  | .bool false, _ => le_refl _
  | .num _, _ => le_refl _
  | .str _, _ => le_refl _
  | .arr [], _ => le_refl _
  | .arr (x :: xs), d => by
    have := size_compactItems_le (x :: xs) (d + 1) true
    simp only [compact, pretty, size_append, size_cons, size_nil]
    omega
  | .obj [], _ => le_refl _
  | .obj (e :: es), d => by
    have := size_compactEntries_le (e :: es) (d + 1) true
    simp only [compact, pretty, size_append, size_cons, size_nil]
    omega

theorem size_compactItems_le : ∀ (items : List Json) (d : Nat) (first : Bool),
    size (compactItems first items) ≤ size (prettyItems d first items)
  | [], _, _ => le_refl _
  | x :: xs, d, first => by
    have hx := size_compact_le x d
    have hxs := size_compactItems_le xs d false
    simp only [compactItems, prettyItems, size_append]
    omega

theorem size_compactEntries_le : ∀ (entries : List (String × Json)) (d : Nat) (first : Bool),
    size (compactEntries first entries) ≤ size (prettyEntries d first entries)
  | [], _, _ => le_refl _
  | (k, v) :: es, d, first => by
    have hv := size_compact_le v d
    have hes := size_compactEntries_le es d false
    simp only [compactEntries, prettyEntries, size_append, size_cons]
    omega
end

namespace Value

/-- The number of bytes of the indented text at a nesting depth. -/
def prettySize (d : Nat) (v : Value) : Nat := size (pretty d v.json)

theorem length_canonicalJsonPretty (v : Value) :
    v.canonicalJsonPretty.length = v.prettySize 0 + 1 := by
  have hbreak : len "\n" = 1 := rfl
  rw [canonicalJsonPretty, sortJson_value, length_utf8, len, String.utf8ByteSize_append]
  rw [← len, ← len, hbreak, len_ofList, prettySize, size]

theorem length_canonicalJson_le (v : Value) (d : Nat) :
    v.canonicalJson.length ≤ v.prettySize d := by
  rw [canonicalJson, sortJson_value, length_utf8, len_ofList]
  exact size_compact_le v.json d

theorem prettySize_str (d : Nat) (s : String) : (str s).prettySize d = size (quote s) := by
  rw [prettySize, str, pretty]

theorem prettySize_nat (d n : Nat) : (nat n).prettySize d = len (Nat.repr n) := by
  rw [prettySize, nat, pretty, size_toList]

/-- A number has as many bytes as digits. -/
theorem prettySize_nat_le (d : Nat) {n k : Nat} (hk : 0 < k) (h : n < 10 ^ k) :
    (nat n).prettySize d ≤ k := by
  have hdigits : ∀ c ∈ (Nat.repr n).toList, c.utf8Size = 1 := fun c hc => by
    rw [Nat.toList_repr] at hc
    have hd := Nat.isDigit_of_mem_toDigits (by decide) (by decide) hc
    simp only [Char.isDigit, Bool.and_eq_true, decide_eq_true_eq] at hd
    simp only [Char.utf8Size]
    exact if_pos (UInt32.le_trans hd.2 (by decide))
  have hlength := (Nat.length_repr_le_iff hk).mpr h
  rw [prettySize_nat, ← size_toList, size, List.map_congr_left hdigits]
  rw [← String.length_toList, Nat.toList_repr] at hlength
  simpa using hlength

theorem prettySize_bool (d : Nat) (b : Bool) : (bool b).prettySize d = if b then 4 else 5 := by
  cases b <;> rfl

theorem prettySize_null (d : Nat) : null.prettySize d = 4 := rfl

theorem prettySize_arr_nil (d : Nat) : (arr []).prettySize d = 2 := rfl

theorem prettySize_arr (d : Nat) {items : List Value} (h : items ≠ []) :
    (arr items).prettySize d =
      2 * d + 2 + (items.map fun v => 2 * d + 4 + v.prettySize (d + 1)).sum := by
  have hopen : Char.utf8Size '[' = 1 := rfl
  have hclose : Char.utf8Size ']' = 1 := rfl
  cases items with
  | nil => exact absurd rfl h
  | cons v vs =>
    have hfirst := size_first_item (d + 1) v.json (vs.map json)
    have hitems := size_prettyItems (d + 1) ((v :: vs).map json)
    rw [List.map_map] at hitems
    have hsum : (((v :: vs).map ((fun x => 2 * (d + 1) + 2 + size (pretty (d + 1) x)) ∘ json))) =
        (v :: vs).map fun v => 2 * d + 4 + v.prettySize (d + 1) := by
      refine List.map_congr_left fun w _ => ?_
      show 2 * (d + 1) + 2 + w.prettySize (d + 1) = _
      omega
    rw [hsum] at hitems
    simp only [prettySize, arr, List.map_cons, pretty, size_append, size_cons, size_nil,
      size_newline, hopen, hclose] at hitems ⊢
    omega

theorem prettySize_arr_le (d : Nat) {items : List Value} {n : Nat}
    (h : ∀ v ∈ items, v.prettySize (d + 1) ≤ n) :
    (arr items).prettySize d ≤ 2 * d + 2 + items.length * (2 * d + 4 + n) := by
  by_cases hne : items = []
  · rw [hne, prettySize_arr_nil]
    omega
  · rw [prettySize_arr d hne]
    have hsum := List.sum_le_card_nsmul (items.map fun v => 2 * d + 4 + v.prettySize (d + 1))
      (2 * d + 4 + n) fun k hk => by
        obtain ⟨v, hv, rfl⟩ := List.mem_map.mp hk
        exact Nat.add_le_add_left (h v hv) _
    rw [List.length_map, smul_eq_mul] at hsum
    omega

theorem prettySize_object (d : Nat) {fields : List (String × Value)} (h : fields ≠ [])
    (hn : (fields.map Prod.fst).Nodup) :
    (object fields).prettySize d = 2 * d + 2 +
      (fields.map fun f => 2 * d + 6 + size (quote f.1) + f.2.prettySize (d + 1)).sum := by
  have hopen : Char.utf8Size '\x7b' = 1 := rfl
  have hclose : Char.utf8Size '\x7d' = 1 := rfl
  have hkeys : ((fields.map fun f => (f.1, f.2.json)).map Prod.fst).Nodup := by
    rw [List.map_map]
    exact hn
  have hperm := collect_perm hkeys
  have hsum := ((hperm.map fun e =>
    2 * (d + 1) + 4 + size (quote e.1) + size (pretty (d + 1) e.2)).sum_eq)
  rw [List.map_map] at hsum
  have hfields : (fields.map ((fun e : String × Json =>
      2 * (d + 1) + 4 + size (quote e.1) + size (pretty (d + 1) e.2)) ∘
        fun f => (f.1, f.2.json))) =
      fields.map fun f => 2 * d + 6 + size (quote f.1) + f.2.prettySize (d + 1) := by
    refine List.map_congr_left fun f _ => ?_
    show 2 * (d + 1) + 4 + size (quote f.1) + f.2.prettySize (d + 1) = _
    omega
  rw [hfields] at hsum
  show size (pretty d (.obj (collect (fields.map fun f => (f.1, f.2.json))))) = _
  cases hc : collect (fields.map fun f => (f.1, f.2.json)) with
  | nil =>
    rw [hc] at hperm
    exact absurd (List.map_eq_nil_iff.mp hperm.symm.eq_nil) h
  | cons e es =>
    have hfirst := size_first_entry (d + 1) e es
    have hentries := size_prettyEntries (d + 1) (e :: es)
    rw [hc] at hsum
    rw [hsum] at hentries
    simp only [pretty, size_append, size_cons, size_nil, size_newline, hopen, hclose]
    omega

end Value

end Okc.Lib
