import Mathlib

/-!
# Text and bytes

A file's content and a hash's input are `Bytes`. A `String` is UTF-8 text: `utf8` is its
encoding, and `len` (Rust's `str::len`) counts bytes.

* `utf8_injective`, `utf8_append`: concatenating text concatenates its bytes, and the bytes
  determine the text.
* `hex`: lowercase hexadecimal, injective (`hex_injective`) and twice as long as its input
  (`len_hex`).
* `splitSlash`, `joinSlash`: slash-separated paths and their components, inverse to each other on
  components without a slash.
* `isControl`, `isWhitespace`, `trimEnd`, `asciiLower`, `asciiUpper`: the `char` and `str` methods
  of Rust's standard library.
* `Occurs s t`: the text `s` stands somewhere in `t` (`occurs_concat`).
-/

namespace Okc.Lib

/-- A byte string. -/
abbrev Bytes := List UInt8

/-! ## UTF-8 -/

/-- `str::as_bytes`. -/
def utf8 (s : String) : Bytes := s.toByteArray.data.toList

/-- `str::len`: the length in bytes. -/
abbrev len (s : String) : Nat := s.utf8ByteSize

@[simp] theorem utf8_append (s t : String) : utf8 (s ++ t) = utf8 s ++ utf8 t := by
  simp [utf8, String.toByteArray_append]

theorem utf8_injective : Function.Injective utf8 := by
  intro s t h
  apply String.toByteArray_inj.mp
  exact ByteArray.ext (Array.toList_inj.mp h)

@[simp] theorem utf8_inj {s t : String} : utf8 s = utf8 t ↔ s = t := utf8_injective.eq_iff

@[simp] theorem length_utf8 (s : String) : (utf8 s).length = len s := by
  rw [utf8, Array.length_toList]
  rfl

theorem utf8_ofList (cs : List Char) :
    utf8 (String.ofList cs) = cs.flatMap String.utf8EncodeChar := by
  simp [utf8, String.ofList, List.utf8Encode]

/-- An ASCII byte is no byte of another character. -/
theorem ascii_mem_utf8EncodeChar {b : UInt8} (hb : b.toNat < 128) {c : Char}
    (h : b ∈ String.utf8EncodeChar c) : c.toNat = b.toNat := by
  have hhigh : ∀ n : Nat, 128 ≤ n → n < 256 → b ≠ UInt8.ofNat n := by
    intro n hlow hn he
    have hnat := congrArg UInt8.toNat he
    rw [UInt8.toNat_ofNat_of_lt' hn] at hnat
    omega
  unfold String.utf8EncodeChar at h
  dsimp only at h
  split_ifs at h with h₁
  · have hnat := congrArg UInt8.toNat (List.mem_singleton.mp h)
    rw [UInt8.toNat_ofNat_of_lt' (Nat.lt_of_le_of_lt h₁ (by decide))] at hnat
    exact hnat.symm
  -- Every byte of a longer encoding is above 127.
  all_goals simp (disch := omega) only [List.mem_cons, List.not_mem_nil, hhigh, or_false] at h

theorem len_append (s t : String) : len (s ++ t) = len s + len t := String.utf8ByteSize_append

theorem len_ofList_cons (c : Char) (cs : List Char) :
    len (String.ofList (c :: cs)) = c.utf8Size + len (String.ofList cs) := by
  have h : String.ofList (c :: cs) = String.singleton c ++ String.ofList cs := by
    apply String.toList_inj.mp
    simp
  rw [h, len, String.utf8ByteSize_append, String.utf8ByteSize_singleton]

/-- The byte length of a text is the sum of its characters' lengths. -/
theorem len_ofList (cs : List Char) :
    len (String.ofList cs) = (cs.map Char.utf8Size).sum := by
  induction cs with
  | nil => rfl
  | cons c cs ih => rw [len_ofList_cons, ih, List.map_cons, List.sum_cons]

/-- What a test over the characters of a text says of each. -/
theorem forall_of_all {p : Char → Prop} [DecidablePred p] {cs : List Char}
    (h : cs.all (fun c => p c) = true) : ∀ c ∈ cs, p c := by
  intro c hc
  simpa using List.all_eq_true.mp h c hc

/-! ## Hexadecimal -/

/-- The lowercase digit of a value below 16. -/
def hexDigit (n : Nat) : Char :=
  if n < 10 then Char.ofNat (48 + n) else Char.ofNat (87 + n)

/-- The two digits of each byte, high half first. -/
def hexChars : Bytes → List Char
  | [] => []
  | b :: bs => hexDigit (b.toNat / 16) :: hexDigit (b.toNat % 16) :: hexChars bs

/-- `hex::encode`. -/
def hex (bytes : Bytes) : String := String.ofList (hexChars bytes)

theorem hexDigit_inj_all : ∀ m < 16, ∀ n < 16, hexDigit m = hexDigit n → m = n := by
  decide

theorem utf8Size_hexDigit_all : ∀ n < 16, (hexDigit n).utf8Size = 1 := by
  decide

theorem byte_halves_lt (b : UInt8) : b.toNat / 16 < 16 ∧ b.toNat % 16 < 16 := by
  have := b.toNat_lt
  omega

theorem hexChars_injective : Function.Injective hexChars := by
  intro xs
  induction xs with
  | nil =>
    intro ys h
    cases ys with
    | nil => rfl
    | cons y ys => simp [hexChars] at h
  | cons x xs ih =>
    intro ys h
    cases ys with
    | nil => simp [hexChars] at h
    | cons y ys =>
      simp only [hexChars, List.cons.injEq] at h
      obtain ⟨hi, lo, rest⟩ := h
      obtain ⟨hx, lx⟩ := byte_halves_lt x
      obtain ⟨hy, ly⟩ := byte_halves_lt y
      have hi := hexDigit_inj_all _ hx _ hy hi
      have lo := hexDigit_inj_all _ lx _ ly lo
      have he : x = y := UInt8.toNat_inj.mp (by omega)
      rw [he, ih rest]

theorem hex_injective : Function.Injective hex := fun _ _ h =>
  hexChars_injective (String.ofList_injective h)

@[simp] theorem hex_inj {x y : Bytes} : hex x = hex y ↔ x = y := hex_injective.eq_iff

@[simp] theorem len_hex (bytes : Bytes) : len (hex bytes) = 2 * bytes.length := by
  unfold hex
  induction bytes with
  | nil => rfl
  | cons b bs ih =>
    obtain ⟨hb, lb⟩ := byte_halves_lt b
    rw [hexChars, len_ofList_cons, len_ofList_cons, ih, utf8Size_hexDigit_all _ hb,
      utf8Size_hexDigit_all _ lb, List.length_cons]
    omega

/-- A hexadecimal text is made of digits and the letters up to `f`. -/
theorem hexDigit_mem_all : ∀ n < 16, hexDigit n ∈ "0123456789abcdef".toList := by
  decide

theorem mem_hex {bytes : Bytes} {c : Char} (h : c ∈ (hex bytes).toList) :
    c ∈ "0123456789abcdef".toList := by
  rw [hex, String.toList_ofList] at h
  induction bytes with
  | nil => exact absurd h List.not_mem_nil
  | cons b bs ih =>
    obtain ⟨hhigh, hlow⟩ := byte_halves_lt b
    rcases List.mem_cons.mp h with rfl | h
    · exact hexDigit_mem_all _ hhigh
    · rcases List.mem_cons.mp h with rfl | h
      · exact hexDigit_mem_all _ hlow
      · exact ih h

theorem length_hex (bytes : Bytes) : (hex bytes).toList.length = 2 * bytes.length := by
  rw [hex, String.toList_ofList]
  induction bytes with
  | nil => rfl
  | cons b bs ih =>
    rw [hexChars, List.length_cons, List.length_cons, ih, List.length_cons]
    omega

/-! ## Slash-separated paths -/

/-- `path.split('/')`. -/
def splitSlash (path : String) : List String := (path.toList.splitOn '/').map String.ofList

/-- `components.join("/")`. -/
def joinSlash (components : List String) : String :=
  String.ofList (['/'].intercalate (components.map String.toList))

theorem joinSlash_splitSlash (path : String) : joinSlash (splitSlash path) = path := by
  have h : (path.toList.splitOn '/').map (String.toList ∘ String.ofList) =
      path.toList.splitOn '/' := by
    simp [Function.comp_def]
  rw [joinSlash, splitSlash, List.map_map, h, List.intercalate_splitOn, String.ofList_toList]

theorem splitSlash_joinSlash {components : List String} (hne : components ≠ [])
    (h : ∀ c ∈ components, '/' ∉ c.toList) : splitSlash (joinSlash components) = components := by
  have hsplit : (['/'].intercalate (components.map String.toList)).splitOn '/' =
      components.map String.toList :=
    List.splitOn_intercalate '/' (by simpa using h) (by simpa using hne)
  rw [splitSlash, joinSlash, String.toList_ofList, hsplit, List.map_map]
  simp [Function.comp_def]

/-- A character of a path is a slash or stands in a component. -/
theorem mem_splitSlash_of_mem {path : String} {c : Char} (h : c ∈ path.toList) (hc : c ≠ '/') :
    ∃ part ∈ splitSlash path, c ∈ part.toList := by
  rw [← joinSlash_splitSlash path, joinSlash, String.toList_ofList] at h
  generalize splitSlash path = parts at h
  induction parts with
  | nil => simp [List.intercalate] at h
  | cons p ps ih =>
    cases ps with
    | nil =>
      exact ⟨p, List.mem_cons_self, by simpa [List.intercalate] using h⟩
    | cons q qs =>
      rw [List.map_cons, List.map_cons, List.intercalate_cons_cons] at h
      simp only [List.mem_append, List.mem_singleton] at h
      rcases h with (hp | rfl) | hr
      · exact ⟨p, List.mem_cons_self, hp⟩
      · exact absurd rfl hc
      · obtain ⟨part, hm, hmem⟩ := ih hr
        exact ⟨part, List.mem_cons_of_mem _ hm, hmem⟩

theorem joinSlash_singleton (p : String) : joinSlash [p] = p := by
  simp [joinSlash, List.intercalate]

theorem joinSlash_cons_cons (p q : String) (qs : List String) :
    joinSlash (p :: q :: qs) = p ++ "/" ++ joinSlash (q :: qs) := by
  apply String.toList_inj.mp
  simp [joinSlash, List.intercalate_cons_cons]

theorem joinSlash_append {ps qs : List String} (hp : ps ≠ []) (hq : qs ≠ []) :
    joinSlash (ps ++ qs) = joinSlash ps ++ "/" ++ joinSlash qs := by
  induction ps with
  | nil => exact absurd rfl hp
  | cons p ps ih =>
    cases ps with
    | nil =>
      cases qs with
      | nil => exact absurd rfl hq
      | cons q qs => rw [List.singleton_append, joinSlash_cons_cons, joinSlash_singleton]
    | cons r rs =>
      rw [List.cons_append, List.cons_append, joinSlash_cons_cons, ← List.cons_append,
        ih (List.cons_ne_nil _ _), joinSlash_cons_cons]
      simp [String.append_assoc]

theorem joinSlash_append_singleton {ps : List String} (h : ps ≠ []) (q : String) :
    joinSlash (ps ++ [q]) = joinSlash ps ++ "/" ++ q := by
  rw [joinSlash_append h (List.cons_ne_nil q []), joinSlash_singleton]

theorem splitSlash_ne_nil (path : String) : splitSlash path ≠ [] := by
  simp [splitSlash, List.splitOn_ne_nil]

/-- A first component is split off. -/
theorem splitSlash_append {a : String} (h : '/' ∉ a.toList) (b : String) :
    splitSlash (a ++ "/" ++ b) = a :: splitSlash b := by
  have hlist : (a ++ "/" ++ b).toList = a.toList ++ '/' :: b.toList := by
    simp [String.toList_append]
  rw [splitSlash, hlist, List.splitOn_append_cons_self, List.splitOn_eq_singleton h,
    List.singleton_append, List.map_cons, String.ofList_toList, splitSlash]

/-- What lies under the components of a directory has them as its first components. -/
theorem splitSlash_joinSlash_append {q : List String} (hq : q ≠ [])
    (h : ∀ c ∈ q, '/' ∉ c.toList) (rest : String) :
    splitSlash (joinSlash q ++ "/" ++ rest) = q ++ splitSlash rest := by
  induction q with
  | nil => exact absurd rfl hq
  | cons c q ih =>
    have hc := h c List.mem_cons_self
    cases q with
    | nil => rw [joinSlash_singleton, splitSlash_append hc, List.singleton_append]
    | cons d q =>
      have hrest := ih (List.cons_ne_nil d q) fun e he => h e (List.mem_cons_of_mem _ he)
      have hassoc : joinSlash (c :: d :: q) ++ "/" ++ rest =
          c ++ "/" ++ (joinSlash (d :: q) ++ "/" ++ rest) := by
        simp [joinSlash_cons_cons, String.append_assoc]
      rw [hassoc, splitSlash_append hc, hrest]
      rfl

/-! ## Characters -/

/-- `char::is_control`: the Unicode category `Cc`. -/
def isControl (c : Char) : Bool :=
  c.toNat < 0x20 || (0x7f ≤ c.toNat && c.toNat < 0xa0)

/-- `char::is_whitespace`: the Unicode property `White_Space`. -/
def isWhitespace (c : Char) : Bool :=
  let n := c.toNat
  (9 ≤ n && n ≤ 13) || n == 0x20 || n == 0x85 || n == 0xa0 || n == 0x1680 ||
    (0x2000 ≤ n && n ≤ 0x200a) || n == 0x2028 || n == 0x2029 || n == 0x202f ||
    n == 0x205f || n == 0x3000

theorem isControl_hexDigit : ∀ n < 16, isControl (hexDigit n) = false := by
  decide

theorem isControl_hex (bytes : Bytes) : ∀ c ∈ (hex bytes).toList, isControl c = false := by
  rw [hex, String.toList_ofList]
  induction bytes with
  | nil => exact fun c hc => absurd hc List.not_mem_nil
  | cons b bs ih =>
    obtain ⟨hb, lb⟩ := byte_halves_lt b
    simp only [hexChars, List.mem_cons, forall_eq_or_imp]
    exact ⟨isControl_hexDigit _ hb, isControl_hexDigit _ lb, ih⟩

/-- `str::trim_end`. -/
def trimEnd (s : String) : String := String.ofList (s.toList.rdropWhile isWhitespace)

/-- `str::trim`. -/
def trim (s : String) : String :=
  String.ofList ((s.toList.rdropWhile isWhitespace).dropWhile isWhitespace)

/-- `str::to_ascii_lowercase`. -/
def asciiLower (s : String) : String := String.ofList (s.toList.map Char.toLower)

/-- `str::to_ascii_uppercase`. -/
def asciiUpper (s : String) : String := String.ofList (s.toList.map Char.toUpper)

/-! ## Prefixes in the lexicographic order -/

section Lex

variable {α : Type} [LinearOrder α]

theorem cons_le_cons_iff {x y : α} {p c : List α} : x :: p ≤ y :: c ↔ x < y ∨ x = y ∧ p ≤ c := by
  rw [← not_lt, List.cons_lt_cons_iff, ← not_lt]
  rcases lt_trichotomy x y with h | rfl | h
  · simp [h, h.ne', not_lt_of_gt h]
  · simp
  · simp [h, h.ne', not_lt_of_gt h]

theorem le_of_initial : ∀ {p s : List α}, p <+: s → p ≤ s
  | [], _, _ => not_lt.mp (List.not_lt_nil _)
  | _ :: _, [], h => absurd (List.prefix_nil.mp h) (List.cons_ne_nil _ _)
  | x :: p, z :: s, h => by
    obtain ⟨rfl, hps⟩ := List.cons_prefix_cons.mp h
    exact cons_le_cons_iff.mpr (Or.inr ⟨rfl, le_of_initial hps⟩)

/-- What lies between a prefix and its extension extends the prefix. -/
theorem initial_of_between : ∀ {p c s : List α}, p ≤ c → c ≤ s → p <+: s → p <+: c
  | [], _, _, _, _, _ => List.nil_prefix
  | x :: p, [], _, h, _, _ => absurd h (not_le.mpr (List.nil_lt_cons x p))
  | x :: p, y :: c, [], _, _, hp => absurd (List.prefix_nil.mp hp) (List.cons_ne_nil _ _)
  | x :: p, y :: c, z :: s, h, h', hp => by
    obtain ⟨rfl, hps⟩ := List.cons_prefix_cons.mp hp
    rw [cons_le_cons_iff] at h h'
    rcases h with hlt | ⟨rfl, hpc⟩
    · rcases h' with hgt | ⟨rfl, -⟩
      · exact absurd hgt (lt_asymm hlt)
      · exact absurd hlt (lt_irrefl _)
    · rw [List.cons_prefix_cons]
      exact ⟨rfl, initial_of_between hpc (h'.resolve_left (lt_irrefl _)).2 hps⟩

end Lex

/-! ## Occurrences -/

/-- `haystack.contains(needle)`, as a proposition. -/
def Occurs (needle haystack : String) : Prop := ∃ a b, haystack = a ++ needle ++ b

theorem occurs_refl (s : String) : Occurs s s := ⟨"", "", by simp⟩

theorem Occurs.append_right {s t : String} (h : Occurs s t) (u : String) : Occurs s (t ++ u) := by
  obtain ⟨a, b, rfl⟩ := h
  exact ⟨a, b ++ u, by simp [String.append_assoc]⟩

theorem Occurs.append_left {s t : String} (h : Occurs s t) (u : String) : Occurs s (u ++ t) := by
  obtain ⟨a, b, rfl⟩ := h
  exact ⟨u ++ a, b, by simp [String.append_assoc]⟩

/-- Pushing texts onto one buffer. -/
def concat : List String → String
  | [] => ""
  | s :: rest => s ++ concat rest

theorem len_concat (l : List String) : len (concat l) = (l.map len).sum := by
  induction l with
  | nil => rfl
  | cons s rest ih => rw [concat, len_append, ih, List.map_cons, List.sum_cons]

theorem occurs_concat {s : String} {l : List String} (h : s ∈ l) : Occurs s (concat l) := by
  induction l with
  | nil => exact absurd h List.not_mem_nil
  | cons t rest ih =>
    rw [concat]
    rcases List.mem_cons.mp h with rfl | hr
    · exact (occurs_refl s).append_right _
    · exact (ih hr).append_left _

/-! ## Line breaks -/

/-- The number of line breaks of a text, one for each line that another follows. -/
def breaks (s : String) : Nat := s.toList.count '\n'

@[simp] theorem breaks_append (s t : String) : breaks (s ++ t) = breaks s + breaks t := by
  simp [breaks, String.toList_append]

theorem breaks_concat (l : List String) : breaks (concat l) = (l.map breaks).sum := by
  induction l with
  | nil => rfl
  | cons s rest ih => rw [concat, breaks_append, ih, List.map_cons, List.sum_cons]

/-- A text without control characters is on one line. -/
theorem breaks_of_clear {s : String} (h : ∀ c ∈ s.toList, isControl c = false) : breaks s = 0 := by
  refine List.count_eq_zero.mpr fun hmem => ?_
  have hbreak : isControl '\n' = true := by decide
  rw [h _ hmem] at hbreak
  cases hbreak

theorem Occurs.trans {s t u : String} (h : Occurs s t) (h' : Occurs t u) : Occurs s u := by
  obtain ⟨a, b, rfl⟩ := h
  obtain ⟨c, d, rfl⟩ := h'
  exact ⟨c ++ a, b ++ d, by simp [String.append_assoc]⟩

/-! ## Lines of bytes -/

/-- The byte of the line break is no byte of another character. -/
theorem break_mem_utf8EncodeChar {c : Char} (h : (10 : UInt8) ∈ String.utf8EncodeChar c) :
    c = '\n' :=
  Char.toNat_inj.mp (ascii_mem_utf8EncodeChar (by decide) h)

theorem break_not_mem_utf8 {cs : List Char} (h : '\n' ∉ cs) :
    (10 : UInt8) ∉ utf8 (String.ofList cs) := by
  rw [utf8_ofList]
  intro hmem
  obtain ⟨c, hc, hb⟩ := List.mem_flatMap.mp hmem
  exact h (break_mem_utf8EncodeChar hb ▸ hc)

/-- `split(|byte| *byte == b'\n')`, without the empty parts. -/
def lines (bytes : Bytes) : List Bytes := (bytes.splitOn 10).filter fun line => decide (line ≠ [])

/-- Texts written one a line are read back. -/
theorem lines_flatMap {α : Type} {text : α → Bytes} {l : List α}
    (h : ∀ x ∈ l, (10 : UInt8) ∉ text x ∧ text x ≠ []) :
    lines (l.flatMap fun x => text x ++ utf8 "\n") = l.map text := by
  have hbreak : utf8 "\n" = [10] := by decide
  have hsplit : (l.flatMap fun x => text x ++ utf8 "\n").splitOn 10 = l.map text ++ [[]] := by
    induction l with
    | nil => rfl
    | cons x rest ih =>
      have hx := (h x List.mem_cons_self).1
      rw [List.flatMap_cons, hbreak, List.append_assoc, List.singleton_append,
        List.splitOn_append_cons_self_of_not_mem hx, ← hbreak,
        ih fun y hy => h y (List.mem_cons_of_mem _ hy), List.map_cons, List.cons_append]
  unfold lines
  rw [hsplit, List.filter_append, List.filter_eq_self.mpr]
  · simp
  · intro line hline
    obtain ⟨x, hx, rfl⟩ := List.mem_map.mp hline
    simpa using (h x hx).2

end Okc.Lib
