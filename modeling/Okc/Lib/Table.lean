import Mathlib

/-!
# Append-only tables

A table is the list of its rows, the oldest first. A query that orders by sequence and takes one
row is `latest`; `newest` reads a sequence number from the rows; `lastRows` keeps the last row of
each key.

* `latest_of_new`: a query that nothing older matches sees only what was appended.
* `newest_append_next`: the row with the next number is the newest.
* `mem_lastRows`: the rows that nothing later replaces.
* `filter_key`: where the keys are distinct, a key has one row.
-/

namespace Okc.Lib

variable {α κ : Type}

/-! ## The latest row -/

/-- `ORDER BY sequence DESC LIMIT 1`. -/
def latest (p : α → Bool) (rows : List α) : Option α := rows.reverse.find? p

@[simp] theorem latest_nil (p : α → Bool) : latest p [] = none := rfl

theorem latest_append (p : α → Bool) (rows more : List α) :
    latest p (rows ++ more) = (latest p more).or (latest p rows) := by
  simp [latest, List.find?_append]

@[simp] theorem latest_concat (p : α → Bool) (rows : List α) (row : α) :
    latest p (rows ++ [row]) = if p row then some row else latest p rows := by
  rw [latest_append]
  by_cases h : p row <;> simp [latest, h]

theorem latest_eq_none {p : α → Bool} {rows : List α} :
    latest p rows = none ↔ ∀ row ∈ rows, p row = false := by
  simp [latest]

theorem mem_of_latest {p : α → Bool} {rows : List α} {row : α} (h : latest p rows = some row) :
    row ∈ rows :=
  List.mem_reverse.mp (List.mem_of_find?_eq_some h)

theorem prop_of_latest {p : α → Bool} {rows : List α} {row : α} (h : latest p rows = some row) :
    p row = true :=
  List.find?_some h

theorem latest_eq_getLast? (p : α → Bool) (rows : List α) :
    latest p rows = (rows.filter p).getLast? := by
  rw [latest, ← List.head?_filter, List.filter_reverse, List.head?_reverse]

/-- Where no older row matches, the answer is a row appended since. -/
theorem latest_of_new {p : α → Bool} {rows more : List α} {row : α}
    (hold : ∀ row ∈ rows, p row = false) (h : latest p (rows ++ more) = some row) :
    latest p more = some row := by
  rwa [latest_append, latest_eq_none.mpr hold, Option.or_none] at h

/-! ## Sequence numbers -/

/-- The row with the greatest number. -/
def newest (sequence : α → Nat) : List α → Option α
  | [] => none
  | row :: rows =>
    match newest sequence rows with
    | none => some row
    | some best => if sequence best < sequence row then some row else some best

/-- `SELECT COALESCE(MAX(sequence), 0) + 1`. -/
def nextSequence (sequence : α → Nat) (rows : List α) : Nat :=
  (rows.map sequence).foldr max 0 + 1

variable {sequence : α → Nat}

theorem mem_of_newest : ∀ {rows : List α} {row : α}, newest sequence rows = some row → row ∈ rows
  | [], _, h => nomatch h
  | r :: rows, row, h => by
    unfold newest at h
    cases hn : newest sequence rows with
    | none =>
      rw [hn] at h
      exact Option.some.inj h ▸ List.mem_cons_self
    | some best =>
      rw [hn] at h
      dsimp only at h
      by_cases hlt : sequence best < sequence r
      · rw [if_pos hlt] at h
        exact Option.some.inj h ▸ List.mem_cons_self
      · rw [if_neg hlt] at h
        exact Option.some.inj h ▸ List.mem_cons_of_mem r (mem_of_newest hn)

theorem newest_append_greater {row : α} : ∀ {rows : List α},
    (∀ r ∈ rows, sequence r < sequence row) → newest sequence (rows ++ [row]) = some row
  | [], _ => rfl
  | r :: rows, h => by
    have ih := newest_append_greater fun s hs => h s (List.mem_cons_of_mem r hs)
    have hr := h r List.mem_cons_self
    simp only [List.cons_append, newest, ih, if_neg hr.not_gt]

theorem sequence_lt_next {rows : List α} {r : α} (h : r ∈ rows) :
    sequence r < nextSequence sequence rows := by
  unfold nextSequence
  induction rows with
  | nil => cases h
  | cons s rows ih =>
    rw [List.map_cons, List.foldr_cons]
    rcases List.mem_cons.mp h with rfl | h
    · omega
    · have := ih h
      omega

/-- **The row that takes the next number is the newest.** -/
theorem newest_append_next {rows : List α} {row : α}
    (h : sequence row = nextSequence sequence rows) : newest sequence (rows ++ [row]) = some row :=
  newest_append_greater fun _ hr => h ▸ sequence_lt_next hr

/-! ## The last row of each key -/

variable [DecidableEq κ] (key : α → κ)

/-- The rows that no later row of the same key replaces. -/
def lastRows : List α → List α
  | [] => []
  | row :: rows =>
    if key row ∈ rows.map key then lastRows rows else row :: lastRows rows

variable {key}

theorem mem_lastRows {row : α} : ∀ {rows : List α},
    row ∈ lastRows key rows ↔ latest (fun r => key r = key row) rows = some row
  | [] => by simp [lastRows]
  | r :: rows => by
    have ih := @mem_lastRows row rows
    have hcons : latest (fun s => key s = key row) (r :: rows) =
        (latest (fun s => key s = key row) rows).or
          (if key r = key row then some r else none) := by
      rw [← List.singleton_append, latest_append]
      by_cases h : key r = key row <;> simp [latest, h]
    rw [hcons, lastRows]
    by_cases hin : key r ∈ rows.map key
    · rw [if_pos hin, ih]
      by_cases hk : key r = key row
      · cases hl : latest (fun s => key s = key row) rows with
        | some best => simp
        | none =>
          obtain ⟨s, hs, he⟩ := List.mem_map.mp hin
          have := latest_eq_none.mp hl s hs
          simp [he, hk] at this
      · simp [hk]
    · rw [if_neg hin, List.mem_cons, ih]
      by_cases hk : key r = key row
      · have hnone : latest (fun s => key s = key row) rows = none := by
          refine latest_eq_none.mpr fun s hs => ?_
          have : key s ≠ key row := fun he => hin (List.mem_map.mpr ⟨s, hs, he.trans hk.symm⟩)
          simpa using this
        rw [hnone, Option.none_or, if_pos hk]
        simp [eq_comm]
      · have hne : row ≠ r := fun h => hk (congrArg key h).symm
        simp [hk, hne]

theorem lastRows_sublist : ∀ rows : List α, (lastRows key rows).Sublist rows
  | [] => List.Sublist.slnil
  | r :: rows => by
    rw [lastRows]
    by_cases h : key r ∈ rows.map key
    · rw [if_pos h]
      exact (lastRows_sublist rows).cons r
    · rw [if_neg h]
      exact (lastRows_sublist rows).cons_cons r

/-! ## The rows of one key -/

/-- Where the keys are distinct, a row is the only one of its key. -/
theorem filter_key : ∀ {rows : List α}, (rows.map key).Nodup →
    ∀ {row}, row ∈ rows → rows.filter (fun r => key r = key row) = [row]
  | [], _, _, h => absurd h List.not_mem_nil
  | r :: rest, hn, row, h => by
    obtain ⟨hr, hrest⟩ := List.nodup_cons.mp (List.map_cons ▸ hn)
    rcases List.mem_cons.mp h with rfl | h
    · have hnone : rest.filter (fun r => decide (key r = key row)) = [] :=
        List.filter_eq_nil_iff.mpr fun s hs he =>
          hr (of_decide_eq_true he ▸ List.mem_map_of_mem hs)
      rw [List.filter_cons_of_pos (by simp), hnone]
    · have hne : ¬ key r = key row := fun he => hr (he ▸ List.mem_map_of_mem h)
      rw [List.filter_cons_of_neg (by simpa using hne), filter_key hrest h]

end Okc.Lib
