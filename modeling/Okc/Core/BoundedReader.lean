import Okc.Lib.Text

/-!
# The reader of an archive with its limit (`snapshot.rs:30-58`, `snapshot.rs:863-876`)

A compressed archive is read through a counter of the bytes it may still expand to. A call asks the
reader inside for one byte more than is left, so that a longer archive shows, and an archive of just
that length does not look like one.

* `read_cases`: what a call can do.
* `length_delivered`: what was delivered and what is left make the limit.
* `bounded_run`: at most the limit is delivered; while the reader inside stays within it, every call
  gives what that reader gave; the call in which it goes beyond gives an error, and sets the flag
  for good. A stream within the limit is delivered whole.
-/

namespace Okc.Core

open Okc.Lib

/-- `u64::MAX`. -/
def u64Max : Nat := 2 ^ 64 - 1

/-- `io::Error`, by its text. -/
structure IoError where
  text : String
deriving DecidableEq

/-- `io::Error::other(ARCHIVE_EXPANSION_LIMIT_ERROR)`. -/
def expansionLimitError : IoError := ⟨"okc archive expansion limit exceeded"⟩

/-- `io::Read`: what a call with a buffer of some length puts into it. -/
abbrev Reader (σ : Type) := σ → Nat → Except IoError Bytes × σ

/-- `ExpansionBoundedReader`. -/
structure ExpansionBoundedReader (σ : Type) where
  inner : σ
  remaining : Nat
  exceeded : Bool

/-- A call: the length of its buffer, what the reader inside gave if it was asked, and what the call
returned. -/
structure ReadCall where
  buffer : Nat
  inner : Option (Except IoError Bytes)
  result : Except IoError Bytes

/-- The bytes that came out of a reader. -/
def okBytes : Except IoError Bytes → Bytes
  | .ok bytes => bytes
  | .error _ => []

def ReadCall.yielded (call : ReadCall) : Bytes := (call.inner.map okBytes).getD []

def ReadCall.delivered (call : ReadCall) : Bytes := okBytes call.result

/-- What the reader inside gave in all. -/
def yielded (calls : List ReadCall) : Bytes := calls.flatMap ReadCall.yielded

/-- What the calls returned in all. -/
def delivered (calls : List ReadCall) : Bytes := calls.flatMap ReadCall.delivered

namespace ExpansionBoundedReader

variable {σ : Type} (reader : Reader σ)

/-- The bytes that the reader inside is asked for. -/
def allowance (r : ExpansionBoundedReader σ) (buffer : Nat) : Nat :=
  min (min (r.remaining + 1) u64Max) (min buffer u64Max)

/-- `ExpansionBoundedReader::read`. -/
def read (r : ExpansionBoundedReader σ) (buffer : Nat) :
    Except IoError Bytes × ExpansionBoundedReader σ :=
  if buffer = 0 then (.ok [], r)
  else
    match reader r.inner (r.allowance buffer) with
    | (.error e, inner) => (.error e, { r with inner := inner })
    | (.ok bytes, inner) =>
      if r.remaining < bytes.length then
        (.error expansionLimitError, { r with inner := inner, exceeded := true })
      else (.ok bytes, { r with inner := inner, remaining := r.remaining - bytes.length })

/-- The reader of `collect_tar_zst`. -/
def start (inner : σ) (compressedLen maxArchiveExpansionRatio : Nat) : ExpansionBoundedReader σ :=
  ⟨inner, min (max compressedLen 1 * maxArchiveExpansionRatio) u64Max, false⟩

/-- What is seen of a call. -/
def call (r : ExpansionBoundedReader σ) (buffer : Nat) : ReadCall where
  buffer := buffer
  inner := if buffer = 0 then none else some (reader r.inner (r.allowance buffer)).1
  result := (r.read reader buffer).1

/-- The calls with buffers of the given lengths. -/
def calls (r : ExpansionBoundedReader σ) : List Nat → List ReadCall
  | [] => []
  | buffer :: buffers => r.call reader buffer :: calls (r.read reader buffer).2 buffers

/-- The reader after them. -/
def after (r : ExpansionBoundedReader σ) : List Nat → ExpansionBoundedReader σ
  | [] => r
  | buffer :: buffers => after (r.read reader buffer).2 buffers

theorem allowance_pos {r : ExpansionBoundedReader σ} {buffer : Nat} (h : buffer ≠ 0) :
    0 < r.allowance buffer := by
  have hmax : 0 < u64Max := by decide
  unfold allowance
  omega

/-- **What a call does**: an empty buffer is not filled, an error of the reader inside is passed on,
bytes within the limit are delivered and counted, and bytes beyond it are an error. -/
inductive CallCases (r : ExpansionBoundedReader σ) :
    ReadCall → ExpansionBoundedReader σ → Prop
  | empty : CallCases r ⟨0, none, .ok []⟩ r
  | failed (buffer : Nat) (e : IoError) (inner : σ) :
      CallCases r ⟨buffer, some (.error e), .error e⟩ { r with inner := inner }
  | within (buffer : Nat) (bytes : Bytes) (inner : σ) (h : bytes.length ≤ r.remaining) :
      CallCases r ⟨buffer, some (.ok bytes), .ok bytes⟩
        { r with inner := inner, remaining := r.remaining - bytes.length }
  | beyond (buffer : Nat) (bytes : Bytes) (inner : σ) (h : r.remaining < bytes.length) :
      CallCases r ⟨buffer, some (.ok bytes), .error expansionLimitError⟩
        { r with inner := inner, exceeded := true }

theorem read_cases (r : ExpansionBoundedReader σ) (buffer : Nat) :
    CallCases r (r.call reader buffer) (r.read reader buffer).2 := by
  by_cases hbuffer : buffer = 0
  · subst hbuffer
    exact .empty
  · unfold call read
    rw [if_neg hbuffer, if_neg hbuffer]
    obtain ⟨answer, inner⟩ := reader r.inner (r.allowance buffer)
    cases answer with
    | error e => exact .failed buffer e inner
    | ok bytes =>
      by_cases hbytes : r.remaining < bytes.length
      · simp only [if_pos hbytes]
        exact .beyond buffer bytes inner hbytes
      · simp only [if_neg hbytes]
        exact .within buffer bytes inner (Nat.not_lt.mp hbytes)

theorem yielded_cons (call : ReadCall) (calls : List ReadCall) :
    yielded (call :: calls) = call.yielded ++ yielded calls := rfl

theorem delivered_cons (call : ReadCall) (calls : List ReadCall) :
    delivered (call :: calls) = call.delivered ++ delivered calls := rfl

/-! ## Runs -/

/-- **What was delivered and what is left make what was left before.** -/
theorem length_delivered (r : ExpansionBoundedReader σ) (buffers : List Nat) :
    (delivered (r.calls reader buffers)).length + (r.after reader buffers).remaining =
      r.remaining := by
  induction buffers generalizing r with
  | nil => exact Nat.zero_add _
  | cons buffer buffers ih =>
    have hcase := read_cases reader r buffer
    have hrest := ih (r.read reader buffer).2
    rw [calls, after, delivered_cons, List.length_append]
    generalize r.call reader buffer = call, (r.read reader buffer).2 = next at hcase hrest ⊢
    cases hcase with
    | empty => simpa [ReadCall.delivered, okBytes] using hrest
    | failed buffer e inner => simpa [ReadCall.delivered, okBytes] using hrest
    | within buffer bytes inner h =>
      simp only [ReadCall.delivered, okBytes] at hrest ⊢
      omega
    | beyond buffer bytes inner h => simpa [ReadCall.delivered, okBytes] using hrest

/-- **An archive expands to no more than its length allows.** -/
theorem length_delivered_start (inner : σ) (compressedLen ratio : Nat) (buffers : List Nat) :
    (delivered ((start inner compressedLen ratio).calls reader buffers)).length ≤
      max compressedLen 1 * ratio := by
  have h := length_delivered reader (start inner compressedLen ratio) buffers
  have hlimit : (start inner compressedLen ratio).remaining ≤ max compressedLen 1 * ratio :=
    Nat.min_le_left _ _
  omega

/-- The flag stays set. -/
theorem exceeded_after (r : ExpansionBoundedReader σ) (buffers : List Nat)
    (h : r.exceeded = true) : (r.after reader buffers).exceeded = true := by
  induction buffers generalizing r with
  | nil => exact h
  | cons buffer buffers ih =>
    have hcase := read_cases reader r buffer
    rw [after]
    refine ih _ ?_
    generalize r.call reader buffer = call, (r.read reader buffer).2 = next at hcase ⊢
    cases hcase with
    | beyond => rfl
    | _ => exact h

/-- What the call of a reader that is within its limit returns. -/
def ReadsThrough (call : ReadCall) : Prop := call.result = call.inner.getD (.ok [])

theorem ReadsThrough.delivered {call : ReadCall} (h : ReadsThrough call) :
    call.delivered = call.yielded := by
  unfold ReadCall.delivered ReadCall.yielded
  rw [h]
  cases call.inner <;> rfl

theorem delivered_eq_yielded {calls : List ReadCall} (h : ∀ call ∈ calls, ReadsThrough call) :
    delivered calls = yielded calls :=
  List.flatMap_congr fun call hmem => (h call hmem).delivered

/-- A buffer with room is given to the reader inside. -/
theorem inner_ne_none {r : ExpansionBoundedReader σ} {buffers : List Nat} {call : ReadCall}
    (h : call ∈ r.calls reader buffers) (hbuffer : call.buffer ≠ 0) : call.inner ≠ none := by
  induction buffers generalizing r with
  | nil => exact absurd h List.not_mem_nil
  | cons buffer buffers ih =>
    rcases List.mem_cons.mp h with rfl | hmem
    · unfold ExpansionBoundedReader.call at hbuffer ⊢
      rw [if_neg hbuffer]
      exact Option.some_ne_none _
    · exact ih hmem

/-- **While the reader inside stays within what is left, its answers are passed on.** -/
theorem calls_within (r : ExpansionBoundedReader σ) (buffers : List Nat)
    (h : (yielded (r.calls reader buffers)).length ≤ r.remaining) :
    (r.after reader buffers).exceeded = r.exceeded ∧
      ∀ call ∈ r.calls reader buffers, ReadsThrough call := by
  induction buffers generalizing r with
  | nil => exact ⟨rfl, fun _ hmem => absurd hmem List.not_mem_nil⟩
  | cons buffer buffers ih =>
    have hcase := read_cases reader r buffer
    have hrest := ih (r.read reader buffer).2
    rw [calls, yielded_cons, List.length_append] at h
    rw [calls, after, List.forall_mem_cons]
    generalize r.call reader buffer = call, (r.read reader buffer).2 = next at hcase hrest h ⊢
    cases hcase with
    | empty =>
      simp only [ReadCall.yielded, Option.map_none, Option.getD_none, List.length_nil] at h
      obtain ⟨hflag, hcalls⟩ := hrest (by omega)
      exact ⟨hflag, rfl, hcalls⟩
    | failed buffer e inner =>
      obtain ⟨hflag, hcalls⟩ := hrest (le_trans (Nat.le_add_left _ _) h)
      exact ⟨hflag, rfl, hcalls⟩
    | within buffer bytes inner hbytes =>
      simp only [ReadCall.yielded, okBytes, Option.map_some, Option.getD_some] at h
      obtain ⟨hflag, hcalls⟩ := hrest (by dsimp only; omega)
      exact ⟨hflag, rfl, hcalls⟩
    | beyond buffer bytes inner hbytes =>
      simp only [ReadCall.yielded, okBytes, Option.map_some, Option.getD_some] at h
      omega

/-- The call in which the bytes of the reader inside come to be more than `limit` is an error. -/
def FailsBeyond (limit : Nat) (calls : List ReadCall) : Prop :=
  ∃ before call rest, calls = before ++ call :: rest ∧ (yielded before).length ≤ limit ∧
    limit < (yielded (before ++ [call])).length ∧ call.result = .error expansionLimitError

theorem FailsBeyond.cons {limit left : Nat} {first : ReadCall} {calls : List ReadCall}
    (h : FailsBeyond left calls) (hfirst : first.yielded.length + left = limit) :
    FailsBeyond limit (first :: calls) := by
  obtain ⟨before, call, rest, rfl, hwithin, hbeyond, hresult⟩ := h
  refine ⟨first :: before, call, rest, rfl, ?_, ?_, hresult⟩
  · rw [yielded_cons, List.length_append]
    omega
  · rw [List.cons_append, yielded_cons, List.length_append]
    omega

/-- **A reader inside that goes beyond what is left is found out.** -/
theorem calls_beyond (r : ExpansionBoundedReader σ) (buffers : List Nat)
    (h : r.remaining < (yielded (r.calls reader buffers)).length) :
    (r.after reader buffers).exceeded = true ∧
      FailsBeyond r.remaining (r.calls reader buffers) := by
  induction buffers generalizing r with
  | nil => exact absurd h (Nat.not_lt_zero _)
  | cons buffer buffers ih =>
    have hcase := read_cases reader r buffer
    have hrest := ih (r.read reader buffer).2
    have hflag := exceeded_after reader (r.read reader buffer).2 buffers
    rw [calls, yielded_cons, List.length_append] at h
    rw [calls, after]
    generalize r.call reader buffer = call, (r.read reader buffer).2 = next at hcase hrest hflag h ⊢
    cases hcase with
    | empty =>
      simp only [ReadCall.yielded, Option.map_none, Option.getD_none, List.length_nil] at h
      obtain ⟨hset, hfails⟩ := hrest (by omega)
      exact ⟨hset, hfails.cons (Nat.zero_add _)⟩
    | failed buffer e inner =>
      simp only [ReadCall.yielded, okBytes, Option.map_some, Option.getD_some,
        List.length_nil] at h
      obtain ⟨hset, hfails⟩ := hrest (by dsimp only; omega)
      exact ⟨hset, hfails.cons (Nat.zero_add _)⟩
    | within buffer bytes inner hbytes =>
      simp only [ReadCall.yielded, okBytes, Option.map_some, Option.getD_some] at h
      obtain ⟨hset, hfails⟩ := hrest (by dsimp only; omega)
      exact ⟨hset, hfails.cons (Nat.add_sub_of_le hbytes)⟩
    | beyond buffer bytes inner hbytes =>
      refine ⟨hflag rfl, [], _, _, rfl, Nat.zero_le _, ?_, rfl⟩
      simpa [yielded, ReadCall.yielded, okBytes] using hbytes

/-! ## Streams -/

/-- The reader inside reads from a stream, of which `rest` is still to come: as few bytes of it at a
time as it likes, but none only at its end. -/
structure Streams (reader : Reader σ) (rest : σ → Bytes) : Prop where
  answer : ∀ s n, 0 < n → ∃ bytes t, reader s n = (.ok bytes, t) ∧ rest s = bytes ++ rest t ∧
    (bytes = [] → rest s = [])

variable {reader} {rest : σ → Bytes}

/-- What a call gets from a stream. -/
theorem Streams.call (h : Streams reader rest) (r : ExpansionBoundedReader σ) (buffer : Nat) :
    rest r.inner = (r.call reader buffer).yielded ++ rest (r.read reader buffer).2.inner ∧
      (∀ e, (r.call reader buffer).inner ≠ some (.error e)) ∧
      ((r.call reader buffer).inner = some (.ok []) → rest r.inner = []) := by
  unfold ExpansionBoundedReader.call ExpansionBoundedReader.read
  by_cases hbuffer : buffer = 0
  · simp [hbuffer, ReadCall.yielded]
  · obtain ⟨bytes, t, hread, hrest, hend⟩ := h.answer r.inner _ (allowance_pos hbuffer)
    rw [if_neg hbuffer, if_neg hbuffer, hread]
    refine ⟨?_, fun e => by simp, fun hnone => hend (by simpa using hnone)⟩
    simp only [ReadCall.yielded, okBytes, Option.map_some, Option.getD_some, hrest]
    split_ifs <;> rfl

theorem Streams.calls (h : Streams reader rest) (r : ExpansionBoundedReader σ)
    (buffers : List Nat) :
    rest r.inner = yielded (r.calls reader buffers) ++ rest (r.after reader buffers).inner := by
  induction buffers generalizing r with
  | nil => rfl
  | cons buffer buffers ih =>
    rw [ExpansionBoundedReader.calls, after, yielded_cons, List.append_assoc, ← ih]
    exact (h.call r buffer).1

/-- No call fails, and a call that gets nothing has come to the end. -/
theorem Streams.of_mem (h : Streams reader rest) (r : ExpansionBoundedReader σ)
    (buffers : List Nat) : ∀ call ∈ r.calls reader buffers,
      (∀ e, call.inner ≠ some (.error e)) ∧
      (call.inner = some (.ok []) → rest (r.after reader buffers).inner = []) := by
  induction buffers generalizing r with
  | nil => exact fun _ hmem => absurd hmem List.not_mem_nil
  | cons buffer buffers ih =>
    obtain ⟨hyield, hok, hend⟩ := h.call r buffer
    rw [ExpansionBoundedReader.calls, after, List.forall_mem_cons]
    refine ⟨⟨hok, fun hnone => ?_⟩, ih _⟩
    have hnext : rest (r.read reader buffer).2.inner = [] :=
      (List.append_eq_nil_iff.mp (hyield.symm.trans (hend hnone))).2
    rw [h.calls (r.read reader buffer).2 buffers] at hnext
    exact (List.append_eq_nil_iff.mp hnext).2

end ExpansionBoundedReader

/-- **The bounded reader over all runs**: never more than the limit is delivered; up to the limit
the calls return what the reader inside gave; beyond it a call fails and the flag is set. A stream
within the limit comes out unchanged, and a call that gets nothing has delivered all of it. -/
theorem bounded_run {σ : Type} (reader : Reader σ) (s : σ) (limit : Nat) (buffers : List Nat) :
    let r : ExpansionBoundedReader σ := ⟨s, limit, false⟩
    let calls := r.calls reader buffers
    let last := r.after reader buffers
    (delivered calls).length ≤ limit ∧
      ((yielded calls).length ≤ limit → last.exceeded = false ∧
        delivered calls = yielded calls ∧
        ∀ call ∈ calls, call.result = call.inner.getD (.ok [])) ∧
      (limit < (yielded calls).length → last.exceeded = true ∧
        ∃ before call rest, calls = before ++ call :: rest ∧
          (yielded before).length ≤ limit ∧ limit < (yielded (before ++ [call])).length ∧
          call.result = .error expansionLimitError) ∧
      ∀ rest : σ → Bytes, ExpansionBoundedReader.Streams reader rest → (rest s).length ≤ limit →
        last.exceeded = false ∧ rest s = delivered calls ++ rest last.inner ∧
        ∀ call ∈ calls, ∃ bytes, call.result = .ok bytes ∧
          (call.buffer ≠ 0 → bytes = [] → delivered calls = rest s) := by
  intro r calls last
  have hlength := ExpansionBoundedReader.length_delivered reader r buffers
  have hwithin := ExpansionBoundedReader.calls_within reader r buffers
  refine ⟨?_, fun h => ?_, ExpansionBoundedReader.calls_beyond reader r buffers,
    fun rest hstream hrest => ?_⟩
  · exact (Nat.le_add_right _ _).trans_eq hlength
  · obtain ⟨hflag, hcalls⟩ := hwithin h
    exact ⟨hflag, ExpansionBoundedReader.delivered_eq_yielded hcalls, hcalls⟩
  · have hyield : rest s = yielded calls ++ rest last.inner := hstream.calls r buffers
    have hfits : (yielded calls).length ≤ limit := by
      rw [hyield, List.length_append] at hrest
      omega
    obtain ⟨hflag, hcalls⟩ := hwithin hfits
    have hdelivered : delivered calls = yielded calls :=
      ExpansionBoundedReader.delivered_eq_yielded hcalls
    refine ⟨hflag, hdelivered ▸ hyield, fun call hmem => ?_⟩
    obtain ⟨hok, hend⟩ := hstream.of_mem r buffers call hmem
    have hresult : call.result = call.inner.getD (.ok []) := hcalls call hmem
    cases hinner : call.inner with
    | none =>
      refine ⟨[], by rw [hresult, hinner]; rfl, fun hbuffer => ?_⟩
      exact absurd hinner (ExpansionBoundedReader.inner_ne_none reader hmem hbuffer)
    | some answer =>
      cases answer with
      | error e => exact absurd hinner (hok e)
      | ok bytes =>
        refine ⟨bytes, by rw [hresult, hinner]; rfl, fun _ hnil => ?_⟩
        have hrest : rest last.inner = [] := hend (by rw [hinner, hnil])
        rw [hyield, hrest, List.append_nil, hdelivered]

end Okc.Core
