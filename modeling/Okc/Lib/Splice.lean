import Mathlib.Data.List.Basic

/-!
# Replacing spans of a sequence

An edit replaces the elements from `start` to `stop` by others. Edits that come one after the other
are applied in one pass: what lies between two spans is copied.

* `splice`: the pass, from a cursor on.
* `undo`: the edits that put the replaced elements back, where these have gone.
* **`splice_undo`**: they do.
-/

namespace Okc.Lib

variable {α : Type}

structure Edit (α : Type) where
  start : Nat
  stop : Nat
  text : List α
deriving DecidableEq

/-- The elements from `start` to `stop`. -/
def span (source : List α) (start stop : Nat) : List α := (source.take stop).drop start

/-- The edits come one after the other, from the cursor to the end. -/
def Fits (length : Nat) : Nat → List (Edit α) → Prop
  | cursor, [] => cursor ≤ length
  | cursor, e :: es => cursor ≤ e.start ∧ e.start ≤ e.stop ∧ e.stop ≤ length ∧ Fits length e.stop es

/-- What the edits make of the elements from the cursor on. -/
def splice (source : List α) : Nat → List (Edit α) → List α
  | cursor, [] => source.drop cursor
  | cursor, e :: es => span source cursor e.start ++ e.text ++ splice source e.stop es

/-- The edits that undo others: `place` is where the elements from the cursor on have gone. -/
def undo (source : List α) : Nat → Nat → List (Edit α) → List (Edit α)
  | _, _, [] => []
  | cursor, place, e :: es =>
    let start := place + (e.start - cursor)
    ⟨start, start + e.text.length, span source e.start e.stop⟩ ::
      undo source e.stop (start + e.text.length) es

/-! ## Spans -/

theorem length_span {source : List α} {start stop : Nat} (h : stop ≤ source.length) :
    (span source start stop).length = stop - start := by
  rw [span, List.length_drop, List.length_take, Nat.min_eq_left h]

theorem span_append_drop {source : List α} {start stop : Nat} (h : start ≤ stop) :
    span source start stop ++ source.drop stop = source.drop start := by
  have hsplit := List.take_append_drop (stop - start) (source.drop start)
  rwa [List.drop_drop, Nat.add_sub_cancel' h, ← List.drop_take] at hsplit

/-- A span of what stands behind other elements. -/
theorem span_append_right {pre source : List α} {start stop : Nat} :
    span (pre ++ source) (pre.length + start) (pre.length + stop) = span source start stop := by
  rw [span, span, List.take_length_add_append, List.drop_length_add_append]

theorem span_append_left {source post : List α} :
    span (source ++ post) 0 source.length = source := by
  rw [span, List.take_left, List.drop_zero]

theorem Fits.le {length cursor : Nat} : ∀ {es : List (Edit α)}, Fits length cursor es →
    cursor ≤ length
  | [], h => h
  | _ :: _, ⟨hstart, hstop, hlength, _⟩ =>
    Nat.le_trans hstart (Nat.le_trans hstop hlength)

/-! ## Undoing -/

/-- **Undoing, from a cursor on.** -/
theorem splice_undo_from {source : List α} (pre : List α) :
    ∀ {es : List (Edit α)} {cursor : Nat}, Fits source.length cursor es →
      splice (pre ++ splice source cursor es) pre.length (undo source cursor pre.length es) =
        source.drop cursor
  | [], cursor, _ => by
    rw [splice, undo, splice, List.drop_left]
  | e :: es, cursor, ⟨hstart, hstop, hlength, hfits⟩ => by
    have hgap : (span source cursor e.start).length = e.start - cursor :=
      length_span (Nat.le_trans hstop hlength)
    have hplace : pre.length + (e.start - cursor) + e.text.length =
        (pre ++ span source cursor e.start ++ e.text).length := by
      rw [List.length_append, List.length_append, hgap]
    have hout : pre ++ (span source cursor e.start ++ e.text ++ splice source e.stop es) =
        pre ++ span source cursor e.start ++ e.text ++ splice source e.stop es := by
      simp only [List.append_assoc]
    have hcopied : span (pre ++ (span source cursor e.start ++ e.text ++ splice source e.stop es))
        pre.length (pre.length + (e.start - cursor)) = span source cursor e.start := by
      have h := @span_append_right α pre
        (span source cursor e.start ++ (e.text ++ splice source e.stop es)) 0 (e.start - cursor)
      rw [Nat.add_zero, ← hgap, span_append_left, hgap] at h
      rwa [List.append_assoc (span source cursor e.start)]
    simp only [splice, undo]
    rw [hcopied, hplace, hout, splice_undo_from _ hfits, List.append_assoc,
      span_append_drop hstop, span_append_drop hstart]

/-- **The replaced elements can be put back.** -/
theorem splice_undo {source : List α} {es : List (Edit α)} (h : Fits source.length 0 es) :
    splice (splice source 0 es) 0 (undo source 0 0 es) = source := by
  have hundo := splice_undo_from [] h
  rwa [List.nil_append, List.length_nil, List.drop_zero] at hundo

end Okc.Lib
