import Okc.Lib.Hoare
import Okc.Core.Policy

/-!
# The central directory of a ZIP archive (`snapshot.rs:576-854`)

`read_zip_central_directory` searches the end of the file for the record that says where the central
directory is, and `scan_zip_central_entries` reads as many headers from there as the record declares.
Every length is the archive's own word. A slice or an index outside a buffer and an unchecked
operation that leaves its type are here a `panic`; the buffer that is reserved for the entries is
not modelled.

* `eocd_spec`, `zip64_spec`: the records are read without a panic.
* `scanHeader_spec`: what one turn of the header loop reads, and where it leaves the file.
* `Tiles`: the headers of the entries lie one after the other between two offsets.
* `scanZip_spec`: every run ends without a panic and within the declared count, and what it returns
  tiles the declared range.
-/

namespace Okc.Core

open Okc.Lib

/-! ## The file -/

inductive IoFailure
  | unexpectedEof
  | invalidInput
deriving DecidableEq

/-- How reading an archive fails. -/
inductive ZipFault
  | io (path : String) (kind : IoFailure)
  | core (error : OkcError)
  | panic
deriving DecidableEq

/-- An open file: its bytes, the position, and the calls of `read_exact` so far. -/
structure ZipFile where
  content : Bytes
  position : Nat
  reads : Nat

abbrev ZipAct := Act ZipFile ZipFault

/-- `seek(SeekFrom::Start(offset))`: an offset is an `i64` to the system. -/
def seekStart (path : String) (offset : Nat) : ZipAct Unit := fun file =>
  if offset < 2 ^ 63 then (.ok (), { file with position := offset })
  else (.error (.io path .invalidInput), file)

/-- `seek(SeekFrom::Current(skip))`. -/
def seekCurrent (path : String) (skip : Nat) : ZipAct Unit := fun file =>
  seekStart path (file.position + skip) file

/-- `read_exact` into a buffer of the given length. -/
def readExact (path : String) (count : Nat) : ZipAct Bytes := fun file =>
  let bytes := (file.content.drop file.position).take count
  if bytes.length = count then
    (.ok bytes, { file with position := file.position + count, reads := file.reads + 1 })
  else (.error (.io path .unexpectedEof), { file with reads := file.reads + 1 })

/-! ## Numbers and buffers -/

/-- `a + b` of `u64` or `usize`. -/
def addWord (a b : Nat) : Except ZipFault Nat :=
  if a + b < 2 ^ 64 then .ok (a + b) else .error .panic

/-- `a - b`. -/
def subWord (a b : Nat) : Except ZipFault Nat := if b ≤ a then .ok (a - b) else .error .panic

/-- `u64::checked_add`. -/
def checkedAdd (a b : Nat) : Option Nat := if a + b < 2 ^ 64 then some (a + b) else none

/-- `&bytes[offset..]`. -/
def sliceFrom (bytes : Bytes) (offset : Nat) : Except ZipFault Bytes :=
  if offset ≤ bytes.length then .ok (bytes.drop offset) else .error .panic

/-- `bytes[index]`. -/
def byteAt (bytes : Bytes) (index : Nat) : Except ZipFault UInt8 :=
  match bytes[index]? with
  | some byte => .ok byte
  | none => .error .panic

/-- `from_le_bytes`. -/
def leValue : Bytes → Nat
  | [] => 0
  | b :: bs => b.toNat + 256 * leValue bs

/-- `read_u16_le`, `read_u32_le` and `read_u64_le`: a number of the given bytes, if it is there. -/
def readLe (width : Nat) (bytes : Bytes) (offset : Nat) : Except ZipFault (Option Nat) := do
  let stop ← addWord offset width
  .ok (if stop ≤ bytes.length then some (leValue ((bytes.drop offset).take width)) else none)

/-- `read_u16_le(..).unwrap_or(u16::MAX)`, at an offset from a record. -/
def fieldLe (width : Nat) (bytes : Bytes) (record offset : Nat) : Except ZipFault Nat := do
  let start ← addWord record offset
  let value ← readLe width bytes start
  .ok (value.getD (256 ^ width - 1))

def malformed (path reason : String) : ZipFault := .core (.malformedInput path reason)

/-- `ok_or_else(..)?`. -/
def orElseFail {α : Type} (e : ZipFault) : Option α → Except ZipFault α
  | some a => .ok a
  | none => .error e

/-! ## The end of the central directory -/

def eocdMinimum : Nat := 22

/-- `EOCD_MINIMUM as u64 + u16::MAX as u64`. -/
def eocdSearch : Nat := eocdMinimum + 65535

structure ZipCentralDirectory where
  entries : Nat
  offset : Nat
  size : Nat
deriving DecidableEq

/-- The condition of the search: a record whose comment ends with the file. -/
def isEocd (tail : Bytes) (offset : Nat) : Except ZipFault Bool := do
  let rest ← sliceFrom tail offset
  if ¬ [0x50, 0x4b, 5, 6] <+: rest then .ok false
  else do
    let start ← addWord offset 20
    let commentLength ← readLe 2 tail start
    match commentLength with
    | none => .ok false
    | some commentLength => do
      let stop ← addWord offset eocdMinimum
      let stop ← addWord stop commentLength
      .ok (stop == tail.length)

/-- `.rev().find(..)` over the offsets below the given one. -/
def findEocd (tail : Bytes) : Nat → Except ZipFault (Option Nat)
  | 0 => .ok none
  | offset + 1 => do
    let found ← isEocd tail offset
    if found then .ok (some offset) else findEocd tail offset

/-- The locator of a ZIP64 record before the end record: the offset of the record. -/
def zip64Offset (path : String) (length : Nat) (tail : Bytes) (eocd : Nat) :
    Except ZipFault Nat := do
  reject (eocd < 20) (malformed path "ZIP64 end-of-central-directory locator is missing")
  let locator ← subWord eocd 20
  let rest ← sliceFrom tail locator
  reject (¬ [0x50, 0x4b, 6, 7] <+: rest)
    (malformed path "ZIP64 end-of-central-directory locator is missing")
  let disk ← fieldLe 4 tail locator 4
  let start ← addWord locator 8
  let value ← readLe 8 tail start
  let offset ← orElseFail (malformed path "truncated ZIP64 locator") value
  let totalDisks ← fieldLe 4 tail locator 16
  reject (disk ≠ 0 ∨ totalDisks ≠ 1 ∨ length - 40 < offset)
    (malformed path "invalid or multi-disk ZIP64 locator")
  .ok offset

/-- The end record: the directory, or where the ZIP64 record is. -/
def parseEocd (path : String) (length : Nat) (tail : Bytes) :
    Except ZipFault (ZipCentralDirectory ⊕ Nat) := do
  let last ← subWord tail.length eocdMinimum
  let found ← findEocd tail (last + 1)
  let eocd ← orElseFail
    (malformed path "ZIP end-of-central-directory record is missing or has trailing data") found
  let disk ← fieldLe 2 tail eocd 4
  let directoryDisk ← fieldLe 2 tail eocd 6
  let entriesOnDisk ← fieldLe 2 tail eocd 8
  let totalEntries ← fieldLe 2 tail eocd 10
  reject (disk ≠ 0 ∨ directoryDisk ≠ 0 ∨ entriesOnDisk ≠ totalEntries)
    (malformed path "multi-disk ZIP archives are unsupported")
  let size ← fieldLe 4 tail eocd 12
  let offset ← fieldLe 4 tail eocd 16
  if totalEntries ≠ 2 ^ 16 - 1 ∧ size ≠ 2 ^ 32 - 1 ∧ offset ≠ 2 ^ 32 - 1 then
    .ok (.inl ⟨totalEntries, offset, size⟩)
  else do
    let zip64 ← zip64Offset path length tail eocd
    .ok (.inr zip64)

/-- The ZIP64 record. -/
def parseZip64 (path : String) (zip64 : Bytes) : Except ZipFault ZipCentralDirectory := do
  reject (¬ [0x50, 0x4b, 6, 6] <+: zip64)
    (malformed path "ZIP64 end-of-central-directory record is missing")
  let recordDisk ← fieldLe 4 zip64 0 16
  let directoryDisk ← fieldLe 4 zip64 0 20
  let entriesOnDisk ← fieldLe 8 zip64 0 24
  let totalEntries ← fieldLe 8 zip64 0 32
  reject (recordDisk ≠ 0 ∨ directoryDisk ≠ 0 ∨ entriesOnDisk ≠ totalEntries)
    (malformed path "multi-disk ZIP64 archives are unsupported")
  let size ← readLe 8 zip64 40
  let size ← orElseFail (malformed path "truncated ZIP64 central-directory size") size
  let offset ← readLe 8 zip64 48
  let offset ← orElseFail (malformed path "truncated ZIP64 central-directory offset") offset
  .ok ⟨totalEntries, offset, size⟩

def readZipCentralDirectory (length : Nat) (path : String) : ZipAct ZipCentralDirectory := do
  Act.lift (reject (length < eocdMinimum)
    (malformed path "ZIP is too short to contain an end-of-central-directory record"))
  let tailLength := min length eocdSearch
  let start ← Act.lift (subWord length tailLength)
  seekStart path start
  let tail ← readExact path tailLength
  let found ← Act.lift (parseEocd path length tail)
  match found with
  | .inl directory => pure directory
  | .inr offset => do
    seekStart path offset
    let zip64 ← readExact path 56
    Act.lift (parseZip64 path zip64)

/-! ## The headers -/

structure ZipCentralEntry where
  path : SourcePathPair
  isDirectory : Bool
  headerOffset : Nat

/-- The error of a core function. -/
def liftZip {α : Type} (x : Except OkcError α) : ZipAct α := Act.lift (x.mapError .core)

section

variable (X : Crates) (limits : PathLimits) (path : String)

/-- What a header says of its member: the lengths of its name, its extra field and its comment, and
its attributes where they are those of Unix. -/
structure ZipHeader where
  nameLength : Nat
  extraLength : Nat
  commentLength : Nat
  unixMode : Option Nat

/-- The external attributes, where they are those of Unix. -/
def unixAttributes (header : Bytes) (madeBy : UInt8) : Except ZipFault (Option Nat) :=
  if madeBy = 3 then readLe 4 header 38 else .ok none

def parseHeader (header : Bytes) : Except ZipFault ZipHeader := do
  reject (¬ [0x50, 0x4b, 1, 2] <+: header)
    (malformed path "invalid ZIP central-directory header signature")
  let nameLength ← readLe 2 header 28
  let extraLength ← readLe 2 header 30
  let commentLength ← readLe 2 header 32
  let madeBy ← byteAt header 5
  let attributes ← unixAttributes header madeBy
  .ok ⟨nameLength.getD 0, extraLength.getD 0, commentLength.getD 0,
    attributes.map fun attributes => attributes / 2 ^ 16⟩

/-- Where the next header begins, when it is not past the end. -/
def nextHeader (cursor stop : Nat) (header : ZipHeader) : Except ZipFault Nat := do
  let variableLength ← orElseFail
    (malformed path "ZIP central-directory field lengths overflow")
    ((checkedAdd header.nameLength header.extraLength).bind fun value =>
      checkedAdd value header.commentLength)
  orElseFail (malformed path "ZIP central-directory member exceeds declared range")
    (((checkedAdd cursor 46).bind fun value => checkedAdd value variableLength).filter
      fun next => next ≤ stop)

/-- The member that a header names. -/
def memberPath (rawName : Bytes) (unixMode : Option Nat) :
    Except OkcError (SourcePathPair × Bool) := do
  match String.fromUTF8? ⟨rawName.toArray⟩ with
  | none => .error (.malformedInput path
      ("ZIP central-directory filename is not UTF-8: " ++ X.utf8Error rawName))
  | some rawNameText =>
    let isDirectory := rawName.getLast? = some 0x2f ∨
      unixMode.any fun mode => mode &&& 0o170000 = 0o040000
    let pair ← decodeArchivePath X.toExternals limits rawNameText isDirectory
    .ok (pair, isDirectory)

/-- One turn of the header loop: the entry, and where the next header begins. -/
def scanHeader (stop : Nat) (seenPaths : List String) (cursor : Nat) :
    ZipAct (ZipCentralEntry × Nat) := do
  Act.lift (reject ((checkedAdd cursor 46).all fun next => stop < next)
    (malformed path "truncated ZIP central-directory header"))
  let bytes ← readExact path 46
  let header ← Act.lift (parseHeader path bytes)
  let next ← Act.lift (nextHeader path cursor stop header)
  let rawName ← readExact path header.nameLength
  let (pair, isDirectory) ← liftZip (memberPath X limits path rawName header.unixMode)
  liftZip (reject (pair.logicalPath ∈ seenPaths)
    (.unsafePath pair.logicalPath "duplicate source path after NFC normalization"))
  let skip := min (header.extraLength + header.commentLength) (2 ^ 64 - 1)
  liftZip (reject (2 ^ 63 ≤ skip)
    (.resourceLimit "ZIP metadata length does not fit this platform"))
  seekCurrent path skip
  pure (⟨pair, isDirectory, cursor⟩, next)

/-- The header loop, with the turns it has left: the entries, and where it ends. -/
def scanHeaders (stop : Nat) : Nat → List String → Nat → ZipAct (List ZipCentralEntry × Nat)
  | 0, _, cursor => pure ([], cursor)
  | turns + 1, seenPaths, cursor => do
    let (entry, next) ← scanHeader X limits path stop seenPaths cursor
    let (entries, last) ← scanHeaders stop turns (entry.path.logicalPath :: seenPaths) next
    pure (entry :: entries, last)

end

/-- What `scan_zip_central_entries` does with the directory that it has read. -/
def scanDirectory (X : Crates) (length : Nat) (path : String) (policy : CompilerPolicy)
    (directory : ZipCentralDirectory) : ZipAct (List ZipCentralEntry) := do
  liftZip (reject (policy.limits.maxFiles < directory.entries)
    (.resourceLimit ("ZIP declared member count " ++ Nat.repr directory.entries ++
      " exceeds configured maximum " ++ Nat.repr policy.limits.maxFiles)))
  let stop ← Act.lift (orElseFail
    (malformed path "ZIP central-directory range is outside the container")
    ((checkedAdd directory.offset directory.size).filter fun stop => stop ≤ length))
  seekStart path directory.offset
  let (entries, cursor) ← scanHeaders X policy.pathLimits path stop directory.entries []
    directory.offset
  Act.lift (reject (cursor ≠ stop)
    (malformed path "ZIP central-directory size does not match its member headers"))
  pure entries

def scanZipCentralEntries (X : Crates) (length : Nat) (path : String) (policy : CompilerPolicy) :
    ZipAct (List ZipCentralEntry) := do
  let directory ← readZipCentralDirectory length path
  scanDirectory X length path policy directory

/-! ## Nothing panics -/

/-- The computation does not panic, and a value comes with `Q`. -/
def Safe {α : Type} (Q : α → Prop) : Except ZipFault α → Prop
  | .ok a => Q a
  | .error e => e ≠ .panic

namespace Safe

variable {α β : Type} {Q : α → Prop} {R : β → Prop} {x : Except ZipFault α}

theorem bind {f : α → Except ZipFault β} (hx : Safe Q x) (hf : ∀ a, Q a → Safe R (f a)) :
    Safe R (x >>= f) := by
  cases x with
  | ok a => exact hf a hx
  | error e => exact hx

theorem ok {a : α} (h : Q a) : Safe Q (.ok a) := h

theorem mono {Q' : α → Prop} (h : Safe Q x) (hQ : ∀ a, Q a → Q' a) : Safe Q' x := by
  cases x with
  | ok a => exact hQ a h
  | error e => exact h

theorem core (y : Except OkcError α) : Safe (fun a => y = .ok a) (y.mapError ZipFault.core) := by
  cases y with
  | ok a => rfl
  | error e => simp [Safe, Except.mapError]

end Safe

theorem safe_reject {bad : Prop} [Decidable bad] {e : ZipFault} (he : e ≠ .panic) :
    Safe (fun _ => ¬ bad) (reject bad e) := by
  rw [reject]
  split_ifs with h
  · exact he
  · exact h

theorem malformed_ne_panic (path reason : String) : malformed path reason ≠ .panic := nofun

theorem safe_orElseFail {α : Type} {e : ZipFault} (he : e ≠ .panic) (x : Option α) :
    Safe (fun a => x = some a) (orElseFail e x) := by
  cases x with
  | some a => rfl
  | none => exact he

theorem safe_addWord {a b : Nat} (h : a + b < 2 ^ 64) : Safe (· = a + b) (addWord a b) := by
  rw [addWord, if_pos h]
  rfl

theorem safe_subWord {a b : Nat} (h : b ≤ a) : Safe (· = a - b) (subWord a b) := by
  rw [subWord, if_pos h]
  rfl

theorem safe_sliceFrom {bytes : Bytes} {offset : Nat} (h : offset ≤ bytes.length) :
    Safe (· = bytes.drop offset) (sliceFrom bytes offset) := by
  rw [sliceFrom, if_pos h]
  rfl

theorem safe_byteAt {bytes : Bytes} {index : Nat} (h : index < bytes.length) :
    Safe (fun _ => True) (byteAt bytes index) := by
  rw [byteAt, List.getElem?_eq_getElem h]
  trivial

theorem leValue_lt (bytes : Bytes) : leValue bytes < 256 ^ bytes.length := by
  induction bytes with
  | nil => exact Nat.one_pos
  | cons b bs ih =>
    have hb : b.toNat < 256 := b.toNat_lt
    rw [leValue, List.length_cons, Nat.pow_succ]
    omega

theorem safe_readLe {width offset : Nat} (bytes : Bytes) (h : offset + width < 2 ^ 64) :
    Safe (fun value => (∀ v, value = some v → v < 256 ^ width) ∧
      (offset + width ≤ bytes.length →
        value = some (leValue ((bytes.drop offset).take width)))) (readLe width bytes offset) := by
  refine (safe_addWord h).bind ?_
  rintro _ rfl
  refine Safe.ok ⟨fun v hv => ?_, fun hle => if_pos hle⟩
  split_ifs at hv
  obtain rfl := Option.some.inj hv
  refine (leValue_lt _).trans_le (Nat.pow_le_pow_right (by decide) ?_)
  exact List.length_take_le _ _

theorem safe_fieldLe {width record offset : Nat} (bytes : Bytes)
    (h : record + offset + width < 2 ^ 64) :
    Safe (fun _ => True) (fieldLe width bytes record offset) := by
  refine (safe_addWord (by omega)).bind ?_
  rintro _ rfl
  exact (safe_readLe bytes h).bind fun _ _ => Safe.ok trivial

/-! ## The end record -/

section

variable {tail : Bytes} (htail : tail.length < 2 ^ 32)

include htail

theorem safe_isEocd {offset : Nat} (h : offset ≤ tail.length) :
    Safe (fun _ => True) (isEocd tail offset) := by
  refine (safe_sliceFrom h).bind ?_
  rintro _ rfl
  split
  · exact Safe.ok trivial
  · refine (safe_addWord (by omega)).bind ?_
    rintro _ rfl
    refine (safe_readLe tail (by omega)).bind fun value hvalue => ?_
    cases value with
    | none => exact Safe.ok trivial
    | some commentLength =>
      have hcomment : commentLength < 256 ^ 2 := hvalue.1 _ rfl
      refine (safe_addWord (by rw [eocdMinimum]; omega)).bind ?_
      rintro _ rfl
      refine (safe_addWord (by rw [eocdMinimum]; omega)).bind ?_
      rintro _ rfl
      exact Safe.ok trivial

/-- What is found is below the offsets that are searched. -/
theorem safe_findEocd {n : Nat} (h : n ≤ tail.length + 1) :
    Safe (fun found => ∀ e, found = some e → e < n) (findEocd tail n) := by
  induction n with
  | zero => exact Safe.ok nofun
  | succ offset ih =>
    refine (safe_isEocd htail (by omega)).bind fun found _ => ?_
    split
    · exact Safe.ok fun e he => by
        rw [← Option.some.inj he]
        exact Nat.lt_succ_self _
    · exact (ih (by omega)).mono fun _ hall e he => (hall e he).trans (Nat.lt_succ_self _)

theorem safe_zip64Offset {path : String} {length eocd : Nat} (h : eocd ≤ tail.length) :
    Safe (fun _ => True) (zip64Offset path length tail eocd) := by
  refine (safe_reject (malformed_ne_panic _ _)).bind fun _ hlong => ?_
  refine (safe_subWord (by omega)).bind ?_
  rintro _ rfl
  refine (safe_sliceFrom (by omega)).bind fun rest _ => ?_
  refine (safe_reject (malformed_ne_panic _ _)).bind fun _ _ => ?_
  refine (safe_fieldLe tail (by omega)).bind fun disk _ => ?_
  refine (safe_addWord (by omega)).bind ?_
  rintro _ rfl
  refine (safe_readLe tail (by omega)).bind fun value _ => ?_
  refine (safe_orElseFail (malformed_ne_panic _ _) value).bind fun offset _ => ?_
  refine (safe_fieldLe tail (by omega)).bind fun totalDisks _ => ?_
  exact (safe_reject (malformed_ne_panic _ _)).bind fun _ _ => Safe.ok trivial

/-- **The end record is read without a panic.** -/
theorem eocd_spec {path : String} {length : Nat} (hlong : eocdMinimum ≤ tail.length) :
    Safe (fun _ => True) (parseEocd path length tail) := by
  refine (safe_subWord hlong).bind ?_
  rintro _ rfl
  refine (safe_findEocd htail (by rw [eocdMinimum]; omega)).bind fun found hfound => ?_
  refine (safe_orElseFail (malformed_ne_panic _ _) found).bind fun eocd heocd => ?_
  have hle : eocd ≤ tail.length := by
    have := hfound eocd heocd
    rw [eocdMinimum] at this hlong
    omega
  refine (safe_fieldLe tail (by omega)).bind fun disk _ => ?_
  refine (safe_fieldLe tail (by omega)).bind fun directoryDisk _ => ?_
  refine (safe_fieldLe tail (by omega)).bind fun entriesOnDisk _ => ?_
  refine (safe_fieldLe tail (by omega)).bind fun totalEntries _ => ?_
  refine (safe_reject (malformed_ne_panic _ _)).bind fun _ _ => ?_
  refine (safe_fieldLe tail (by omega)).bind fun size _ => ?_
  refine (safe_fieldLe tail (by omega)).bind fun offset _ => ?_
  split
  · exact Safe.ok trivial
  · exact (safe_zip64Offset htail hle).bind fun _ _ => Safe.ok trivial

end

/-- **The ZIP64 record is read without a panic.** -/
theorem zip64_spec (path : String) (zip64 : Bytes) :
    Safe (fun _ => True) (parseZip64 path zip64) := by
  refine (safe_reject (malformed_ne_panic _ _)).bind fun _ _ => ?_
  refine (safe_fieldLe zip64 (by decide)).bind fun recordDisk _ => ?_
  refine (safe_fieldLe zip64 (by decide)).bind fun directoryDisk _ => ?_
  refine (safe_fieldLe zip64 (by decide)).bind fun entriesOnDisk _ => ?_
  refine (safe_fieldLe zip64 (by decide)).bind fun totalEntries _ => ?_
  refine (safe_reject (malformed_ne_panic _ _)).bind fun _ _ => ?_
  refine (safe_readLe zip64 (by decide)).bind fun size _ => ?_
  refine (safe_orElseFail (malformed_ne_panic _ _) size).bind fun size _ => ?_
  refine (safe_readLe zip64 (by decide)).bind fun offset _ => ?_
  exact (safe_orElseFail (malformed_ne_panic _ _) offset).bind fun offset _ => Safe.ok trivial

/-! ## Headers -/

/-- The number of two bytes at an offset. -/
def wordAt (content : Bytes) (offset : Nat) : Nat := leValue ((content.drop offset).take 2)

/-- A header that begins there, with the lengths it has. -/
structure HeaderAt (content : Bytes) (offset : Nat) (header : ZipHeader) : Prop where
  signature : [0x50, 0x4b, 1, 2] <+: content.drop offset
  nameLength : header.nameLength = wordAt content (offset + 28)
  extraLength : header.extraLength = wordAt content (offset + 30)
  commentLength : header.commentLength = wordAt content (offset + 32)

theorem wordAt_take {content : Bytes} {offset delta : Nat} (h : delta + 2 ≤ 46) :
    leValue ((((content.drop offset).take 46).drop delta).take 2) =
      wordAt content (offset + delta) := by
  rw [wordAt, List.drop_take, List.take_take, List.drop_drop, Nat.min_eq_left (by omega)]

theorem leValue_take_lt (content : Bytes) (offset : Nat) : wordAt content offset < 2 ^ 16 :=
  (leValue_lt _).trans_le (Nat.pow_le_pow_right (by decide) (List.length_take_le _ _))

theorem header_spec (path : String) {content bytes : Bytes} {offset : Nat}
    (hbytes : bytes = (content.drop offset).take 46) (hlength : bytes.length = 46) :
    Safe (HeaderAt content offset) (parseHeader path bytes) := by
  refine (safe_reject (malformed_ne_panic _ _)).bind fun _ hsignature => ?_
  refine (safe_readLe bytes (by decide)).bind fun nameLength hname => ?_
  refine (safe_readLe bytes (by decide)).bind fun extraLength hextra => ?_
  refine (safe_readLe bytes (by decide)).bind fun commentLength hcomment => ?_
  refine (safe_byteAt (by omega)).bind fun madeBy _ => ?_
  have hattributes : Safe (fun _ => True) (unixAttributes bytes madeBy) := by
    unfold unixAttributes
    split
    · exact (safe_readLe bytes (by decide)).mono fun _ _ => trivial
    · exact Safe.ok trivial
  refine hattributes.bind fun attributes _ => Safe.ok ⟨?_, ?_, ?_, ?_⟩
  · rw [not_not] at hsignature
    rw [hbytes] at hsignature
    exact hsignature.trans (List.take_prefix _ _)
  · rw [hname.2 (by omega), hbytes]
    exact wordAt_take (by decide)
  · rw [hextra.2 (by omega), hbytes]
    exact wordAt_take (by decide)
  · rw [hcomment.2 (by omega), hbytes]
    exact wordAt_take (by decide)

theorem next_spec (path : String) (cursor stop : Nat) (header : ZipHeader) :
    Safe (fun next => next = cursor + 46 + (header.nameLength + header.extraLength +
      header.commentLength) ∧ next ≤ stop) (nextHeader path cursor stop header) := by
  refine (safe_orElseFail (malformed_ne_panic _ _) _).bind fun variableLength hvariable => ?_
  refine (safe_orElseFail (malformed_ne_panic _ _) _).mono fun next hnext => ?_
  obtain ⟨hadd, hle⟩ := Option.filter_eq_some_iff.mp hnext
  obtain ⟨base, hbase, hnext⟩ := Option.bind_eq_some_iff.mp hadd
  obtain ⟨sum, hsum, hvariable⟩ := Option.bind_eq_some_iff.mp hvariable
  simp only [checkedAdd, Option.ite_none_right_eq_some, Option.some.injEq] at *
  refine ⟨?_, of_decide_eq_true hle⟩
  omega

/-! ## One turn -/

/-- The file stands at a position, after so many reads. -/
def At (content : Bytes) (position reads : Nat) (file : ZipFile) : Prop :=
  file = ⟨content, position, reads⟩

/-- A failure that is no panic, after at most so many reads. -/
def Faults (bound : Nat) (e : ZipFault) (file : ZipFile) : Prop :=
  e ≠ .panic ∧ file.reads ≤ bound

section

variable {α β : Type} {content : Bytes} {p r bound : Nat} {R : β → ZipFile → Prop}

theorem lift_bind {Q : α → Prop} {x : Except ZipFault α} {f : α → ZipAct β} (hx : Safe Q x)
    (hr : r ≤ bound) (hf : ∀ a, Q a → Triple (At content p r) (f a) R (Faults bound)) :
    Triple (At content p r) (Act.lift x >>= f) R (Faults bound) := by
  have hlift : Triple (At content p r) (Act.lift x) (fun a s => Q a ∧ At content p r s)
      (Faults bound) := by
    refine Triple.lift ?_ ?_
    · rintro a s rfl hs
      exact ⟨hx, hs⟩
    · rintro e s rfl rfl
      exact ⟨hx, hr⟩
  exact hlift.bind fun a => Triple.assuming (hf a)

theorem seekStart_bind {path : String} {offset : Nat} {f : Unit → ZipAct β} (hr : r ≤ bound)
    (hf : Triple (At content offset r) (f ()) R (Faults bound)) :
    Triple (At content p r) (seekStart path offset >>= f) R (Faults bound) := by
  refine Triple.bind (Q := fun _ => At content offset r) ⟨?_⟩ fun _ => hf
  rintro s rfl
  unfold seekStart
  split_ifs
  · rfl
  · exact ⟨nofun, hr⟩

theorem seekCurrent_bind {path : String} {skip : Nat} {f : Unit → ZipAct β} (hr : r ≤ bound)
    (hf : Triple (At content (p + skip) r) (f ()) R (Faults bound)) :
    Triple (At content p r) (seekCurrent path skip >>= f) R (Faults bound) := by
  refine ⟨?_⟩
  rintro s rfl
  have hmove : Triple (At content p r) (seekStart path (p + skip) >>= f) R (Faults bound) :=
    seekStart_bind hr hf
  exact hmove.run _ rfl

theorem readExact_bind {path : String} {count : Nat} {f : Bytes → ZipAct β} (hr : r + 1 ≤ bound)
    (hf : ∀ bytes, bytes = (content.drop p).take count → bytes.length = count →
      Triple (At content (p + count) (r + 1)) (f bytes) R (Faults bound)) :
    Triple (At content p r) (readExact path count >>= f) R (Faults bound) := by
  refine Triple.bind (Q := fun bytes s => (bytes = (content.drop p).take count ∧
    bytes.length = count) ∧ At content (p + count) (r + 1) s) ⟨?_⟩
    fun bytes => Triple.assuming fun h => hf bytes h.1 h.2
  rintro s rfl
  unfold readExact
  dsimp only
  split_ifs with hlength
  · exact ⟨⟨rfl, hlength⟩, rfl⟩
  · exact ⟨nofun, hr⟩

end

/-- **A directory is read without a panic, by at most two reads.** -/
theorem directory_spec {content : Bytes} {p : Nat} (length : Nat) (path : String) :
    Triple (At content p 0) (readZipCentralDirectory length path)
      (fun _ s => ∃ p r, r ≤ 2 ∧ At content p r s) (Faults 2) := by
  refine lift_bind (safe_reject (malformed_ne_panic _ _)) (by decide) fun _ hlong => ?_
  refine lift_bind (safe_subWord (Nat.min_le_left _ _)) (by decide) ?_
  rintro _ rfl
  refine seekStart_bind (by omega) ?_
  refine readExact_bind (by omega) fun tail _ hlength => ?_
  have hsearch : eocdSearch < 2 ^ 32 := by decide
  have htail : tail.length < 2 ^ 32 :=
    hlength ▸ (Nat.min_le_right length eocdSearch).trans_lt hsearch
  have hmin : eocdMinimum ≤ tail.length :=
    hlength ▸ Nat.le_min.mpr ⟨Nat.le_of_not_lt hlong, Nat.le_add_right _ _⟩
  refine lift_bind (eocd_spec htail hmin) (by decide) fun found _ => ?_
  cases found with
  | inl directory => exact Triple.pure fun s hs => ⟨_, 1, by decide, hs⟩
  | inr offset =>
    refine seekStart_bind (by omega) ?_
    refine readExact_bind (by omega) fun zip64 _ _ => ?_
    refine Triple.lift (fun d s _ hs => ⟨_, 2, by decide, hs⟩) ?_
    rintro e s he rfl
    have hsafe := zip64_spec path zip64
    rw [he] at hsafe
    exact ⟨hsafe, le_refl 2⟩

/-- Where the header that begins there ends, with its name, its extra field and its comment. -/
def headerEnd (content : Bytes) (offset : Nat) : Nat :=
  offset + 46 + (wordAt content (offset + 28) + wordAt content (offset + 30) +
    wordAt content (offset + 32))

/-- The entry of the header that begins there. -/
structure EntryAt (content : Bytes) (offset : Nat) (entry : ZipCentralEntry) : Prop where
  headerOffset : entry.headerOffset = offset
  signature : [0x50, 0x4b, 1, 2] <+: content.drop offset

section

variable (X : Crates) (limits : PathLimits) (path : String) {content : Bytes}

/-- **One turn reads twice and leaves the file where the next header begins.** -/
theorem scanHeader_spec {cursor r stop : Nat} {seenPaths : List String} :
    Triple (At content cursor r) (scanHeader X limits path stop seenPaths cursor)
      (fun result s => (EntryAt content cursor result.1 ∧
        result.1.path.logicalPath ∉ seenPaths ∧ result.2 = headerEnd content cursor) ∧
        At content result.2 (r + 2) s) (Faults (r + 2)) := by
  refine lift_bind (safe_reject (malformed_ne_panic _ _)) (by omega) fun _ _ => ?_
  refine readExact_bind (by omega) fun bytes hbytes hlength => ?_
  refine lift_bind (header_spec path hbytes hlength) (by omega) fun header hheader => ?_
  refine lift_bind (next_spec path cursor stop header) (by omega) fun next hnext => ?_
  refine readExact_bind (by omega) fun rawName _ _ => ?_
  refine lift_bind (Safe.core _) (by omega) ?_
  rintro ⟨pair, isDirectory⟩ -
  refine lift_bind (Safe.core _) (by omega) fun _ hseen => ?_
  refine lift_bind (Safe.core _) (by omega) fun _ _ => ?_
  have hend : next = headerEnd content cursor := by
    rw [headerEnd, ← hheader.nameLength, ← hheader.extraLength, ← hheader.commentLength]
    exact hnext.1
  have hmoved : cursor + 46 + header.nameLength +
      min (header.extraLength + header.commentLength) (2 ^ 64 - 1) = next := by
    have hextra := hheader.extraLength ▸ leValue_take_lt content (cursor + 30)
    have hcomment := hheader.commentLength ▸ leValue_take_lt content (cursor + 32)
    omega
  refine seekCurrent_bind (by omega) (Triple.pure fun s hs => ⟨⟨⟨rfl, ?_⟩, ?_, hend⟩, ?_⟩)
  · exact hheader.signature
  · exact reject_eq_ok.mp hseen
  · rwa [hmoved] at hs

/-! ## The whole loop -/

/-- The headers of the entries lie one after the other from an offset to an end. -/
def Tiles (content : Bytes) (stop : Nat) : Nat → List ZipCentralEntry → Prop
  | offset, [] => offset = stop
  | offset, entry :: entries =>
    EntryAt content offset entry ∧ Tiles content stop (headerEnd content offset) entries

/-- **A loop reads twice a turn, and what it returns tiles what it has passed.** -/
theorem scanHeaders_spec {stop : Nat} (turns : Nat) {seenPaths : List String} {cursor r : Nat} :
    Triple (At content cursor r) (scanHeaders X limits path stop turns seenPaths cursor)
      (fun result s => (Tiles content result.2 cursor result.1 ∧ result.1.length = turns ∧
        (result.1.map fun entry => entry.path.logicalPath).Nodup ∧
        ∀ entry ∈ result.1, entry.path.logicalPath ∉ seenPaths) ∧
        At content result.2 (r + 2 * turns) s) (Faults (r + 2 * turns)) := by
  induction turns generalizing seenPaths cursor r with
  | zero => exact Triple.pure fun s hs => ⟨⟨rfl, rfl, List.nodup_nil, nofun⟩, hs⟩
  | succ turns ih =>
    have hone : Triple (At content cursor r) (scanHeader X limits path stop seenPaths cursor)
        (fun result s => (EntryAt content cursor result.1 ∧
          result.1.path.logicalPath ∉ seenPaths ∧ result.2 = headerEnd content cursor) ∧
          At content result.2 (r + 2) s) (Faults (r + 2 * (turns + 1))) :=
      (scanHeader_spec X limits path).mono (fun _ h => h) (fun _ _ h => h)
        fun e s h => ⟨h.1, h.2.trans (by omega)⟩
    refine hone.bind ?_
    rintro ⟨entry, next⟩
    refine Triple.assuming fun ⟨hentry, hnew, hnext⟩ => ?_
    have hcount : r + 2 + 2 * turns = r + 2 * (turns + 1) := by omega
    have hrest := hcount ▸ @ih (entry.path.logicalPath :: seenPaths) next (r + 2)
    refine hrest.bind ?_
    rintro ⟨entries, last⟩
    refine Triple.assuming fun ⟨htiles, hlength, hnodup, hfresh⟩ => Triple.pure fun s hs => ?_
    refine ⟨⟨⟨hentry, hnext ▸ htiles⟩, by rw [List.length_cons, hlength], ?_, ?_⟩, hs⟩
    · refine List.nodup_cons.mpr ⟨fun hmem => ?_, hnodup⟩
      obtain ⟨other, hother, heq⟩ := List.mem_map.mp hmem
      exact hfresh other hother (heq ▸ List.mem_cons_self)
    · intro other hother
      cases hother with
      | head => exact hnew
      | tail _ hother => exact fun hmem => hfresh other hother (List.mem_cons_of_mem _ hmem)

end

/-! ## The whole scan -/

/-- What a scan of a directory returns. -/
structure Scanned (content : Bytes) (length maxFiles : Nat) (directory : ZipCentralDirectory)
    (entries : List ZipCentralEntry) : Prop where
  count : entries.length = directory.entries
  limited : directory.entries ≤ maxFiles
  within : directory.offset + directory.size ≤ length
  tiles : Tiles content (directory.offset + directory.size) directory.offset entries
  distinct : (entries.map fun entry => entry.path.logicalPath).Nodup

theorem scanDirectory_spec (X : Crates) {content : Bytes} {p r : Nat} (length : Nat)
    (path : String) (policy : CompilerPolicy) (directory : ZipCentralDirectory) :
    Triple (At content p r) (scanDirectory X length path policy directory)
      (fun entries s => Scanned content length policy.limits.maxFiles directory entries ∧
        s.reads ≤ r + 2 * min directory.entries policy.limits.maxFiles)
      (Faults (r + 2 * min directory.entries policy.limits.maxFiles)) := by
  refine lift_bind (Safe.core _) (by omega) fun _ hlimited => ?_
  have hlimited := Nat.le_of_not_lt (reject_eq_ok.mp hlimited)
  rw [Nat.min_eq_left hlimited]
  refine lift_bind (safe_orElseFail (malformed_ne_panic _ _) _) (by omega) fun stop hstop => ?_
  obtain ⟨hadd, hwithin⟩ := Option.filter_eq_some_iff.mp hstop
  simp only [checkedAdd, Option.ite_none_right_eq_some, Option.some.injEq] at hadd
  obtain ⟨-, rfl⟩ := hadd
  refine seekStart_bind (by omega) ?_
  refine (scanHeaders_spec X policy.pathLimits path directory.entries).bind ?_
  rintro ⟨entries, cursor⟩
  refine Triple.assuming fun ⟨htiles, hcount, hnodup, _⟩ => ?_
  refine lift_bind (safe_reject (malformed_ne_panic _ _)) (le_refl _) fun _ hcursor => ?_
  obtain rfl := not_not.mp hcursor
  refine Triple.pure fun s hs => ⟨⟨hcount, hlimited, of_decide_eq_true hwithin, htiles, hnodup⟩, ?_⟩
  exact (congrArg ZipFile.reads hs).le

/-- **For every file, neither function panics, and neither reads more often than the declared and
limited count allows; the entries that come back tile the declared range, which is within the
file, under logical paths that are all distinct.** -/
theorem scanZip_spec (X : Crates) (content : Bytes) (position : Nat) (length : UInt64)
    (path : String) (policy : CompilerPolicy) :
    let file : ZipFile := ⟨content, position, 0⟩
    let read := readZipCentralDirectory length.toNat path file
    let scan := scanZipCentralEntries X length.toNat path policy file
    (read.1 ≠ .error .panic ∧ read.2.reads ≤ 2) ∧
    (scan.1 ≠ .error .panic ∧ scan.2.reads ≤ 2 + 2 * policy.limits.maxFiles) ∧
    (∀ directory, read.1 = .ok directory → scan.2.reads ≤ 2 + 2 * directory.entries) ∧
    ∀ entries, scan.1 = .ok entries → ∃ directory, read.1 = .ok directory ∧
      Scanned content length.toNat policy.limits.maxFiles directory entries := by
  intro file read scan
  have hread := (directory_spec length.toNat path).run file rfl
  cases hr : readZipCentralDirectory length.toNat path file with
  | mk result t =>
    rw [hr] at hread
    have hread' : read = (result, t) := hr
    rw [hread']
    cases result with
    | error e =>
      have hscan : scan = (.error e, t) := Act.bind_error hr
      have hpanic : (.error e : Except ZipFault (List ZipCentralEntry)) ≠ .error .panic :=
        fun h => hread.1 (Except.error.inj h)
      rw [hscan]
      refine ⟨⟨fun h => hread.1 (Except.error.inj h), hread.2⟩, ⟨hpanic, ?_⟩, nofun, nofun⟩
      exact hread.2.trans (Nat.le_add_right _ _)
    | ok directory =>
      have hscan : scan = scanDirectory X length.toNat path policy directory t := Act.bind_ok hr
      obtain ⟨p, r, hr2, hat⟩ := hread
      have hreads : t.reads ≤ 2 := (congrArg ZipFile.reads hat).le.trans hr2
      have hrun := (scanDirectory_spec X length.toNat path policy directory).run t hat
      have hdeclared := Nat.min_le_left directory.entries policy.limits.maxFiles
      have hlimited := Nat.min_le_right directory.entries policy.limits.maxFiles
      rw [hscan]
      cases hs : scanDirectory X length.toNat path policy directory t with
      | mk outcome u =>
        rw [hs] at hrun
        cases outcome with
        | error e =>
          obtain ⟨hpanic, hu⟩ := hrun
          have hdirectory : u.reads ≤ 2 + 2 * directory.entries := by omega
          have hmax : u.reads ≤ 2 + 2 * policy.limits.maxFiles := by omega
          refine ⟨⟨nofun, hreads⟩, ⟨fun h => hpanic (Except.error.inj h), hmax⟩, ?_, nofun⟩
          rintro _ ⟨rfl⟩
          exact hdirectory
        | ok entries =>
          obtain ⟨hscanned, hu⟩ := hrun
          have hdirectory : u.reads ≤ 2 + 2 * directory.entries := by omega
          have hmax : u.reads ≤ 2 + 2 * policy.limits.maxFiles := by omega
          refine ⟨⟨nofun, hreads⟩, ⟨nofun, hmax⟩, ?_, ?_⟩
          · rintro _ ⟨rfl⟩
            exact hdirectory
          · rintro _ ⟨rfl⟩
            exact ⟨directory, rfl, hscanned⟩

/-- A container with one empty header of a member `a` and its end record. -/
def oneHeader : Bytes :=
  [0x50, 0x4b, 1, 2] ++ List.replicate 24 0 ++ [1, 0] ++ List.replicate 16 0 ++ [0x61] ++
    [0x50, 0x4b, 5, 6, 0, 0, 0, 0, 1, 0, 1, 0, 47, 0, 0, 0, 0, 0, 0, 0, 0, 0]

example : (readZipCentralDirectory 69 "a.zip" ⟨oneHeader, 0, 0⟩).1 = .ok ⟨1, 0, 47⟩ := by decide

end Okc.Core
