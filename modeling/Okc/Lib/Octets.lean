import Mathlib
import Okc.Lib.Json
import Okc.Lib.Search

/-!
# A text as its bytes

A byte is held as the character of its number. What compares characters with ASCII characters only is
then one definition for a text and for its bytes.

* `slice`: a slice of bytes as a text, which fails off the boundaries of characters.
* `Walks.octets`: a scan that looks for ASCII characters and escapes, run on the bytes, stops where it
  stops on the characters. The escape of a longer character leaves it in the middle of that.
* `cutAt_octets`: so does the search for a word.
-/

namespace Okc.Lib

/-! ## Bytes as characters -/

def octet (b : UInt8) : Char := Char.ofNat b.toNat

def octetsOf (c : Char) : List Char := (String.utf8EncodeChar c).map octet

/-- The bytes of a text. -/
def octets (cs : List Char) : List Char := cs.flatMap octetsOf

theorem toNat_octet (b : UInt8) : (octet b).toNat = b.toNat := by
  have hlt := b.toNat_lt
  have hvalid : b.toNat.isValidChar := Or.inl (by omega)
  rw [octet, Char.ofNat, dif_pos hvalid]
  rfl

theorem map_octet_utf8 (s : String) : (utf8 s).map octet = octets s.toList := by
  conv_lhs => rw [← String.ofList_toList (s := s)]
  rw [utf8_ofList, List.map_flatMap]
  rfl

@[simp] theorem octets_nil : octets [] = [] := rfl

@[simp] theorem octets_cons (c : Char) (cs : List Char) :
    octets (c :: cs) = octetsOf c ++ octets cs := rfl

@[simp] theorem octets_append (cs ds : List Char) : octets (cs ++ ds) = octets cs ++ octets ds :=
  List.flatMap_append

theorem octetsOf_ascii {c : Char} (h : c.toNat < 128) : octetsOf c = [c] := by
  have hval : c.val.toNat = c.toNat := rfl
  rw [octetsOf, String.utf8EncodeChar, if_pos (by omega), List.map_singleton]
  refine congrArg (· :: []) (Char.toNat_inj.mp ?_)
  rw [toNat_octet, hval, UInt8.toNat_ofNat_of_lt' (Nat.lt_trans h (by decide))]

theorem octets_ascii {cs : List Char} (h : ∀ c ∈ cs, c.toNat < 128) : octets cs = cs := by
  induction cs with
  | nil => rfl
  | cons c cs ih =>
    rw [octets_cons, octetsOf_ascii (h c List.mem_cons_self),
      ih fun d hd => h d (List.mem_cons_of_mem _ hd)]
    rfl

/-- The first byte of a longer encoding is above 191, the others are above 127. -/
theorem octetsOf_high {c : Char} (h : 128 ≤ c.toNat) :
    ∃ x xs, octetsOf c = x :: xs ∧ 192 ≤ x.toNat ∧ ∀ y ∈ xs, 128 ≤ y.toNat := by
  have hval : c.val.toNat = c.toNat := rfl
  have hoctet : ∀ n, n < 256 → (octet (UInt8.ofNat n)).toNat = n := fun n hn => by
    rw [toNat_octet, UInt8.toNat_ofNat_of_lt' hn]
  rw [octetsOf, String.utf8EncodeChar, if_neg (by omega)]
  split_ifs
  all_goals
    refine ⟨_, _, rfl, ?_, fun y hy => ?_⟩
    · rw [hoctet _ (by omega)]
      omega
    · simp only [List.map_cons, List.map_nil, List.mem_cons, List.not_mem_nil, or_false] at hy
      obtain rfl | rfl | rfl := hy <;> rw [hoctet _ (by omega)] <;> omega

/-- The bytes after the first are never ASCII. -/
theorem octetsOf_eq_cons (c : Char) : ∃ x xs, octetsOf c = x :: xs ∧ ∀ y ∈ xs, 128 ≤ y.toNat := by
  by_cases h : c.toNat < 128
  · exact ⟨c, [], octetsOf_ascii h, by simp⟩
  · obtain ⟨x, xs, he, -, hxs⟩ := octetsOf_high (Nat.le_of_not_lt h)
    exact ⟨x, xs, he, hxs⟩

theorem high_of_mem_octetsOf {c : Char} (h : 128 ≤ c.toNat) : ∀ y ∈ octetsOf c, 128 ≤ y.toNat := by
  obtain ⟨x, xs, he, hx, hxs⟩ := octetsOf_high h
  intro y hy
  rw [he] at hy
  rcases List.mem_cons.mp hy with rfl | hy
  · omega
  · exact hxs y hy

theorem length_octetsOf (c : Char) : (octetsOf c).length = c.utf8Size := by
  rw [octetsOf, List.length_map, String.length_utf8EncodeChar]

@[simp] theorem length_octets (cs : List Char) : (octets cs).length = size cs := by
  induction cs with
  | nil => rfl
  | cons c cs ih => rw [octets_cons, List.length_append, length_octetsOf, ih, size_cons]

/-! ## Slices -/

/-- `is_char_boundary` of the place where a rest begins. -/
def IsBoundary (rest : List Char) : Prop := ∀ c ∈ rest.head?, c.toNat < 128 ∨ 192 ≤ c.toNat

instance (rest : List Char) : Decidable (IsBoundary rest) := by
  unfold IsBoundary
  cases rest.head? with
  | none => exact isTrue (by simp)
  | some c => exact decidable_of_iff (c.toNat < 128 ∨ 192 ≤ c.toNat) (by simp)

/-- The text that bytes are, if they are UTF-8. -/
def decodeOctets (cs : List Char) : Option (List Char) :=
  (String.fromUTF8? ⟨(cs.map fun c => UInt8.ofNat c.toNat).toArray⟩).map String.toList

/-- `&text[start..stop]`, where `start` and `stop` are what the text has from there on. -/
def slice (start stop : List Char) : Option (List Char) :=
  if IsBoundary start ∧ IsBoundary stop ∧ stop.length ≤ start.length then
    decodeOctets (start.take (start.length - stop.length))
  else none

theorem isBoundary_octets (cs : List Char) : IsBoundary (octets cs) := by
  cases cs with
  | nil => simp [IsBoundary]
  | cons c cs =>
    intro d hd
    by_cases h : c.toNat < 128
    · rw [octets_cons, octetsOf_ascii h] at hd
      exact Or.inl (Option.mem_some.mp hd ▸ h)
    · obtain ⟨x, xs, he, hx, -⟩ := octetsOf_high (Nat.le_of_not_lt h)
      rw [octets_cons, he] at hd
      exact Or.inr (Option.mem_some.mp hd ▸ hx)

/-- `is_char_boundary`. -/
def IsCharBoundary (bytes : Bytes) (i : Nat) : Prop :=
  i ≤ bytes.length ∧ IsBoundary ((bytes.drop i).map octet)

theorem isCharBoundary_size {s : String} {before after : List Char}
    (h : s.toList = before ++ after) : IsCharBoundary (utf8 s) (size before) := by
  have hoctets : (utf8 s).map octet = octets before ++ octets after := by
    rw [map_octet_utf8, h, octets_append]
  have hlength : (utf8 s).length = size before + size after := by
    rw [← List.length_map (f := octet), hoctets, List.length_append, length_octets, length_octets]
  refine ⟨by omega, ?_⟩
  rw [List.map_drop, hoctets, ← length_octets, List.drop_left]
  exact isBoundary_octets after

theorem fromUTF8?_utf8 (s : String) : String.fromUTF8? ⟨(utf8 s).toArray⟩ = some s := by
  rw [utf8, Array.toArray_toList]
  exact dif_pos s.isValidUTF8

theorem decodeOctets_octets (cs : List Char) : decodeOctets (octets cs) = some cs := by
  have hbytes : (octets cs).map (fun c => UInt8.ofNat c.toNat) = utf8 (String.ofList cs) := by
    rw [← String.toList_ofList (l := cs), ← map_octet_utf8, List.map_map, String.toList_ofList]
    refine List.map_id'' (fun b => ?_) _
    rw [Function.comp_apply, toNat_octet]
    exact UInt8.ofNat_toNat
  rw [decodeOctets, hbytes, fromUTF8?_utf8, Option.map_some, String.toList_ofList]

/-- A slice between two places of a text. -/
theorem slice_octets (cs rest : List Char) : slice (octets (cs ++ rest)) (octets rest) = some cs := by
  rw [slice, if_pos ⟨isBoundary_octets _, isBoundary_octets _, by simp⟩, octets_append,
    List.length_append, Nat.add_sub_cancel, List.take_left]
  exact decodeOctets_octets cs

/-! ## Scans for ASCII characters -/

/-- A scan that goes on, or stops, at each ASCII character; the one after a backslash is passed. -/
structure Walks {σ : Type} (f : σ → List Char → Option (List Char)) : Prop where
  finish : ∀ s rest, f s [] = some rest → rest = []
  pass : ∀ s c cs, 128 ≤ c.toNat → f s (c :: cs) = f s cs
  escape : ∀ s c cs, f s ('\\' :: c :: cs) = f s cs
  escape_last : ∀ s, f s ['\\'] = f s []
  step : ∀ s c, c.toNat < 128 → c ≠ '\\' → (∃ s', ∀ cs, f s (c :: cs) = f s' cs) ∨
    (∀ cs, f s (c :: cs) = some (c :: cs)) ∨ ∀ cs, f s (c :: cs) = some cs

namespace Walks

variable {σ : Type} {f : σ → List Char → Option (List Char)}

theorem pass_append (h : Walks f) (s : σ) {ks : List Char} (hk : ∀ y ∈ ks, 128 ≤ y.toNat)
    (rest : List Char) : f s (ks ++ rest) = f s rest := by
  induction ks with
  | nil => rfl
  | cons k ks ih =>
    rw [List.cons_append, h.pass s k _ (hk k List.mem_cons_self)]
    exact ih fun y hy => hk y (List.mem_cons_of_mem _ hy)

/-- It stops at a rest of what it reads. -/
theorem suffix (h : Walks f) (s : σ) (cs : List Char) {rest : List Char} :
    f s cs = some rest → rest <:+ cs := by
  match cs with
  | [] =>
    intro hr
    rw [h.finish s rest hr]
  | c :: cs =>
    by_cases hhigh : 128 ≤ c.toNat
    · rw [h.pass s c cs hhigh]
      exact fun hr => (h.suffix s cs hr).trans (List.suffix_cons _ _)
    · by_cases hescape : c = '\\'
      · subst hescape
        match cs with
        | [] =>
          rw [h.escape_last s]
          exact fun hr => h.finish s rest hr ▸ List.nil_suffix
        | d :: cs =>
          rw [h.escape s d cs]
          exact fun hr =>
            ((h.suffix s cs hr).trans (List.suffix_cons _ _)).trans (List.suffix_cons _ _)
      · rcases h.step s c (Nat.lt_of_not_le hhigh) hescape with ⟨s', hs⟩ | hs | hs
        · rw [hs]
          exact fun hr => (h.suffix s' cs hr).trans (List.suffix_cons _ _)
        · rw [hs]
          exact fun hr => Option.some.inj hr ▸ List.suffix_refl _
        · rw [hs]
          exact fun hr => Option.some.inj hr ▸ List.suffix_cons _ _
termination_by cs.length

/-- **On the bytes of a text it stops where it stops on the text.** -/
theorem octets (h : Walks f) (s : σ) (cs : List Char) :
    f s (Lib.octets cs) = (f s cs).map Lib.octets := by
  match cs with
  | [] =>
    rw [octets_nil]
    cases hf : f s [] with
    | none => rfl
    | some rest => rw [h.finish s rest hf]; rfl
  | c :: cs =>
    by_cases hhigh : 128 ≤ c.toNat
    · rw [octets_cons, h.pass_append s (high_of_mem_octetsOf hhigh), h.pass s c cs hhigh,
        h.octets s cs]
    · have hascii := octetsOf_ascii (Nat.lt_of_not_le hhigh)
      rw [octets_cons, hascii, List.singleton_append]
      by_cases hescape : c = '\\'
      · subst hescape
        match cs with
        | [] =>
          rw [octets_nil, h.escape_last s]
          exact h.octets s []
        | d :: cs =>
          obtain ⟨x, xs, he, hxs⟩ := octetsOf_eq_cons d
          rw [octets_cons, he, List.cons_append, h.escape, h.pass_append s hxs, h.escape,
            h.octets s cs]
      · rcases h.step s c (Nat.lt_of_not_le hhigh) hescape with ⟨s', hs⟩ | hs | hs
        · rw [hs, hs, h.octets s' cs]
        · rw [hs, hs, Option.map_some, octets_cons, hascii, List.singleton_append]
        · rw [hs, hs, Option.map_some]
termination_by cs.length

end Walks

/-! ## Runs and words of ASCII characters -/

theorem dropWhile_octets {p : Char → Bool} (hp : ∀ c, p c = true → c.toNat < 128)
    (cs : List Char) : (octets cs).dropWhile p = octets (cs.dropWhile p) := by
  induction cs with
  | nil => rfl
  | cons c cs ih =>
    by_cases h : c.toNat < 128
    · rw [octets_cons, octetsOf_ascii h, List.singleton_append, List.dropWhile_cons,
        List.dropWhile_cons, ih]
      split_ifs
      · rfl
      · rw [octets_cons, octetsOf_ascii h, List.singleton_append]
    · obtain ⟨x, xs, he, hx, -⟩ := octetsOf_high (Nat.le_of_not_lt h)
      have hc : ¬ p c = true := fun hpc => h (hp c hpc)
      have hx' : ¬ p x = true := fun hpx => absurd (hp x hpx) (by omega)
      rw [octets_cons, he, List.cons_append, List.dropWhile_cons, if_neg hx', List.dropWhile_cons,
        if_neg hc, octets_cons, he, List.cons_append]

theorem takeWhile_octets {p : Char → Bool} (hp : ∀ c, p c = true → c.toNat < 128)
    (cs : List Char) : (octets cs).takeWhile p = cs.takeWhile p := by
  induction cs with
  | nil => rfl
  | cons c cs ih =>
    by_cases h : c.toNat < 128
    · rw [octets_cons, octetsOf_ascii h, List.singleton_append, List.takeWhile_cons,
        List.takeWhile_cons, ih]
    · obtain ⟨x, xs, he, hx, -⟩ := octetsOf_high (Nat.le_of_not_lt h)
      have hc : ¬ p c = true := fun hpc => h (hp c hpc)
      have hx' : ¬ p x = true := fun hpx => absurd (hp x hpx) (by omega)
      rw [octets_cons, he, List.cons_append, List.takeWhile_cons, if_neg hx', List.takeWhile_cons,
        if_neg hc]

theorem all_octets {p : Char → Bool} (hp : ∀ c, p c = true → c.toNat < 128) (cs : List Char) :
    (octets cs).all p = cs.all p := by
  induction cs with
  | nil => rfl
  | cons c cs ih =>
    by_cases h : c.toNat < 128
    · rw [octets_cons, octetsOf_ascii h, List.singleton_append, List.all_cons, List.all_cons, ih]
    · obtain ⟨x, xs, he, hx, -⟩ := octetsOf_high (Nat.le_of_not_lt h)
      have hc : p c = false := Bool.eq_false_iff.mpr fun hpc => h (hp c hpc)
      have hx' : p x = false := Bool.eq_false_iff.mpr fun hpx => absurd (hp x hpx) (by omega)
      rw [octets_cons, he, List.cons_append, List.all_cons, List.all_cons, hc, hx', Bool.false_and,
        Bool.false_and]

theorem head?_octets {a : Char} (ha : a.toNat < 128) {cs : List Char} :
    (octets cs).head? = some a ↔ cs.head? = some a := by
  cases cs with
  | nil => exact Iff.rfl
  | cons c cs =>
    by_cases h : c.toNat < 128
    · rw [octets_cons, octetsOf_ascii h]
      exact Iff.rfl
    · obtain ⟨x, xs, he, hx, -⟩ := octetsOf_high (Nat.le_of_not_lt h)
      rw [octets_cons, he]
      refine iff_of_false (fun hx' => ?_) fun hc => h (Option.some.inj hc ▸ ha)
      rw [Option.some.inj hx'] at hx
      omega

theorem prefix_octets {w : List Char} (hw : ∀ c ∈ w, c.toNat < 128) {cs : List Char} :
    w <+: octets cs ↔ w <+: cs := by
  induction w generalizing cs with
  | nil => simp
  | cons a w ih =>
    have ha := hw a List.mem_cons_self
    cases cs with
    | nil => exact Iff.rfl
    | cons c cs =>
      by_cases h : c.toNat < 128
      · rw [octets_cons, octetsOf_ascii h, List.singleton_append, List.cons_prefix_cons,
          List.cons_prefix_cons, ih fun d hd => hw d (List.mem_cons_of_mem _ hd)]
      · obtain ⟨x, xs, he, hx, -⟩ := octetsOf_high (Nat.le_of_not_lt h)
        rw [octets_cons, he, List.cons_append, List.cons_prefix_cons, List.cons_prefix_cons]
        refine iff_of_false (fun ⟨hax, _⟩ => ?_) fun ⟨hac, _⟩ => h (hac ▸ ha)
        rw [hax] at ha
        omega

/-- What follows a word. -/
theorem drop_octets {w : List Char} (hw : ∀ c ∈ w, c.toNat < 128) {cs : List Char}
    (h : w <+: cs) : (octets cs).drop w.length = octets (cs.drop w.length) := by
  obtain ⟨rest, rfl⟩ := h
  rw [octets_append, octets_ascii hw, List.drop_left, List.drop_left]

theorem cutAt_append_high {w : List Char} (hw : ∀ c ∈ w, c.toNat < 128) (hne : w ≠ [])
    {ks : List Char} (hk : ∀ y ∈ ks, 128 ≤ y.toNat) (rest : List Char) :
    cutAt w (ks ++ rest) = (cutAt w rest).map fun cut => (ks ++ cut.1, cut.2) := by
  induction ks with
  | nil => simp
  | cons k ks ih =>
    obtain ⟨a, w, rfl⟩ := List.exists_cons_of_ne_nil hne
    have hnot : ¬ a :: w <+: k :: (ks ++ rest) := fun hp => by
      have hak := (List.cons_prefix_cons.mp hp).1
      have ha := hw a List.mem_cons_self
      have := hk k List.mem_cons_self
      rw [hak] at ha
      omega
    rw [List.cons_append, cutAt, if_neg hnot, ih fun y hy => hk y (List.mem_cons_of_mem _ hy),
      Option.map_map]
    rfl

/-- **The search for a word finds the same place in the bytes.** -/
theorem cutAt_octets {w : List Char} (hw : ∀ c ∈ w, c.toNat < 128) (hne : w ≠ [])
    (cs : List Char) :
    cutAt w (octets cs) = (cutAt w cs).map fun cut => (octets cut.1, octets cut.2) := by
  induction cs with
  | nil =>
    rw [octets_nil, cutAt, if_neg hne]
    rfl
  | cons c cs ih =>
    by_cases h : c.toNat < 128
    · have hascii : octets (c :: cs) = c :: octets cs := by
        rw [octets_cons, octetsOf_ascii h, List.singleton_append]
      rw [hascii, cutAt, cutAt, ih, ← hascii]
      by_cases hp : w <+: c :: cs
      · rw [if_pos ((prefix_octets hw).mpr hp), if_pos hp, drop_octets hw hp]
        rfl
      · rw [if_neg fun hq => hp ((prefix_octets hw).mp hq), if_neg hp, Option.map_map,
          Option.map_map]
        refine congrFun (congrArg Option.map (funext fun cut => ?_)) _
        simp only [Function.comp_apply, octets_cons, octetsOf_ascii h, List.singleton_append]
    · have hhigh := Nat.le_of_not_lt h
      have hnot : ¬ w <+: c :: cs := by
        obtain ⟨a, w, rfl⟩ := List.exists_cons_of_ne_nil hne
        exact fun hp => h ((List.cons_prefix_cons.mp hp).1 ▸ hw a List.mem_cons_self)
      rw [octets_cons, cutAt_append_high hw hne (high_of_mem_octetsOf hhigh), cutAt, if_neg hnot,
        ih, Option.map_map, Option.map_map]
      rfl

end Okc.Lib
