import Mathlib

/-!
# Numbers by their digits, highest first

Mathlib's `Nat.ofDigits` has the lowest digit first; an encoder writes the highest one first.

* `ofDigits_append`: the digits behind shift those before.
* `ofDigits_inj`: as many digits below the base are determined by their number.
-/

namespace Okc.Lib

/-- The number with these digits, highest first. -/
def ofDigits (base : Nat) (digits : List Nat) : Nat := Nat.ofDigits base digits.reverse

theorem ofDigits_append (base : Nat) (l m : List Nat) :
    ofDigits base (l ++ m) = ofDigits base l * base ^ m.length + ofDigits base m := by
  rw [ofDigits, List.reverse_append, Nat.ofDigits_append, List.length_reverse, Nat.mul_comm,
    Nat.add_comm]
  rfl

theorem ofDigits_cons (base d : Nat) (l : List Nat) :
    ofDigits base (d :: l) = d * base ^ l.length + ofDigits base l := by
  rw [← List.singleton_append, ofDigits_append]
  simp [ofDigits]

theorem ofDigits_inj {base : Nat} (hbase : 1 < base) {l m : List Nat}
    (hlength : l.length = m.length) (hl : ∀ d ∈ l, d < base) (hm : ∀ d ∈ m, d < base)
    (h : ofDigits base l = ofDigits base m) : l = m := by
  refine List.reverse_injective (Nat.ofDigits_inj_of_len_eq hbase (by simpa using hlength)
    (fun d hd => hl d (List.mem_reverse.mp hd)) (fun d hd => hm d (List.mem_reverse.mp hd)) h)

end Okc.Lib
