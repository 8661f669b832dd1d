import CquptRaft.Node.RaftNode
import CquptRaft.Theory.Binary

/-!
# Segment files

A segment file is a sequence of records, each a header of 40 bytes and the command. The header is
written as it lies in memory, so the last four of its bytes are the padding behind the checksum;
their values are unspecified, and `padding` stands for them. A reader stops at the first record
that is not whole or does not carry its checksum.
-/

namespace CquptRaft

open Binary

def kSegmentMagic : Nat := 0x524C4F47

def kSegmentVersion : Nat := 1

def kEntryTypeNormal : Nat := 1

def kMaxEntriesPerSegment : Nat := 512

def kMaxCommandBytes : Nat := 64 * 1024 * 1024

/-! ## Checksums -/

def fnv1aAppend (hash : UInt32) (data : Bytes) : UInt32 :=
  data.foldl (fun hash byte => (hash ^^^ byte.toUInt32) * 16777619) hash

def computeEntryChecksum (index term type dataSize : Nat) (data : Bytes) : UInt32 :=
  let hash := fnv1aAppend 2166136261 (toBytes 8 index)
  let hash := fnv1aAppend hash (toBytes 8 term)
  let hash := fnv1aAppend hash (toBytes 4 type)
  let hash := fnv1aAppend hash (toBytes 4 dataSize)
  fnv1aAppend hash data

/-! ## Records -/

structure SegmentEntryHeader where
  magic : Nat
  version : Nat
  index : Nat
  term : Nat
  type : Nat
  dataSize : Nat
  checksum : Nat
  deriving DecidableEq, Repr

namespace SegmentEntryHeader

def write (header : SegmentEntryHeader) (padding : Nat) : Bytes :=
  toBytes 4 header.magic ++ (toBytes 4 header.version ++ (toBytes 8 header.index ++
    (toBytes 8 header.term ++ (toBytes 4 header.type ++ (toBytes 4 header.dataSize ++
      (toBytes 4 header.checksum ++ toBytes 4 padding))))))

/-- The header at the front of a file, and what follows it. -/
def read (bytes : Bytes) : Option (SegmentEntryHeader × Bytes) := do
  let (magic, bytes) ← readNat 4 bytes
  let (version, bytes) ← readNat 4 bytes
  let (index, bytes) ← readNat 8 bytes
  let (term, bytes) ← readNat 8 bytes
  let (type, bytes) ← readNat 4 bytes
  let (dataSize, bytes) ← readNat 4 bytes
  let (checksum, bytes) ← readNat 4 bytes
  let (_, bytes) ← readNat 4 bytes
  return (⟨magic, version, index, term, type, dataSize, checksum⟩, bytes)

/-- The header of a record. -/
def ofRecord (record : LogRecord) : SegmentEntryHeader where
  magic := kSegmentMagic
  version := kSegmentVersion
  index := record.index
  term := record.term
  type := kEntryTypeNormal
  dataSize := record.command.length
  checksum := (computeEntryChecksum record.index record.term kEntryTypeNormal
    record.command.length record.command).toNat

end SegmentEntryHeader

def encodeEntry (padding : LogRecord → Nat) (record : LogRecord) : Bytes :=
  (SegmentEntryHeader.ofRecord record).write (padding record) ++ record.command

/-- What `ReadSegmentFile` finds at its position. -/
inductive EntryRead where
  | endOfFile
  | badTail
  | entry (record : LogRecord) (rest : Bytes)
  deriving DecidableEq, Repr

def readEntry (bytes : Bytes) : EntryRead :=
  if bytes = [] then .endOfFile
  else
    match SegmentEntryHeader.read bytes with
    | none => .badTail
    | some (header, rest) =>
      if header.magic ≠ kSegmentMagic ∨ header.version ≠ kSegmentVersion ∨
          header.type ≠ kEntryTypeNormal ∨ kMaxCommandBytes < header.dataSize then .badTail
      else if rest.length < header.dataSize then .badTail
      else
        let data := rest.take header.dataSize
        if (computeEntryChecksum header.index header.term header.type header.dataSize
            data).toNat ≠ header.checksum then .badTail
        else .entry ⟨header.index, header.term, data⟩ (rest.drop header.dataSize)

/-! ## Files -/

/-- The records of a segment and, when its tail is bad, the offset to cut it at. -/
structure SegmentRead where
  records : List LogRecord
  cut : Option Nat
  deriving DecidableEq, Repr

/-- The loop of `ReadSegmentFile`. Every pass consumes a header, so the length of the file is
enough passes. -/
def readSegmentLoop (firstLogIndex lastLogIndex : Nat) :
    Nat → Bytes → Nat → List LogRecord → SegmentRead
  | 0, _, _, records => ⟨records, none⟩
  | passes + 1, bytes, lastGoodPos, records =>
    match readEntry bytes with
    | .endOfFile => ⟨records, none⟩
    | .badTail => ⟨records, some lastGoodPos⟩
    | .entry record rest =>
      readSegmentLoop firstLogIndex lastLogIndex passes rest
        (lastGoodPos + (bytes.length - rest.length))
        (if firstLogIndex ≤ record.index ∧ record.index ≤ lastLogIndex then records ++ [record]
          else records)

def readSegmentFile (content : Bytes) (firstLogIndex lastLogIndex : Nat)
    (records : List LogRecord) : SegmentRead :=
  readSegmentLoop firstLogIndex lastLogIndex (content.length + 1) content 0 records

def segmentFileName (firstIndex : Nat) : Bytes :=
  ascii "segment_" ++ paddedDecimal 20 firstIndex ++ ascii ".log"

/-- `stoull` refuses what does not fit into 64 bits. -/
def parseSegmentStartIndex (name : Bytes) : Option Nat :=
  let before := ascii "segment_"
  let after := ascii ".log"
  if name.length ≤ before.length + after.length ∨ name.take before.length ≠ before ∨
      name.drop (name.length - after.length) ≠ after then none
  else
    let digits := (name.drop before.length).take (name.length - before.length - after.length)
    if digits = [] ∨ !digits.all isDigit then none
    else if decimalValue digits < 2 ^ 64 then some (decimalValue digits)
    else none

example : parseSegmentStartIndex (segmentFileName 513) = some 513 := by decide +kernel

/-! ## Reading what was written -/

theorem SegmentEntryHeader.read_write (header : SegmentEntryHeader) (hmagic : header.magic < 2 ^ 32)
    (hversion : header.version < 2 ^ 32) (hindex : header.index < 2 ^ 64)
    (hterm : header.term < 2 ^ 64) (htype : header.type < 2 ^ 32)
    (hsize : header.dataSize < 2 ^ 32) (hchecksum : header.checksum < 2 ^ 32) (padding : Nat)
    (rest : Bytes) : read (header.write padding ++ rest) = some (header, rest) := by
  have hpadding : readNat 4 (toBytes 4 padding ++ rest) = some (padding % 256 ^ 4, rest) := by
    simp [readNat, List.take_left', List.drop_left', ofBytes_toBytes]
  simp only [write, read, List.append_assoc, readNat_toBytes (k := 4) hmagic,
    readNat_toBytes (k := 4) hversion, readNat_toBytes (k := 8) hindex,
    readNat_toBytes (k := 8) hterm, readNat_toBytes (k := 4) htype,
    readNat_toBytes (k := 4) hsize, readNat_toBytes (k := 4) hchecksum, hpadding,
    Option.bind_eq_bind, Option.bind_some, Option.pure_def]

/-- A record whose fields fit into the header. -/
structure LogRecord.Storable (record : LogRecord) : Prop where
  index : record.index < 2 ^ 64
  term : record.term < 2 ^ 64
  command : record.command.length ≤ kMaxCommandBytes

theorem length_encodeEntry (padding : LogRecord → Nat) (record : LogRecord) :
    (encodeEntry padding record).length = 40 + record.command.length := by
  simp only [encodeEntry, SegmentEntryHeader.write, List.length_append, length_toBytes]

theorem readEntry_encodeEntry {record : LogRecord} (h : record.Storable)
    (padding : LogRecord → Nat) (rest : Bytes) :
    readEntry (encodeEntry padding record ++ rest) = .entry record rest := by
  have hne : encodeEntry padding record ++ rest ≠ [] := by
    intro hnil
    have hlen := congrArg List.length hnil
    rw [List.length_append, length_encodeEntry, List.length_nil] at hlen
    omega
  have hcommand := h.command
  have hread := SegmentEntryHeader.read_write (.ofRecord record)
    (show kSegmentMagic < 2 ^ 32 by decide) (show kSegmentVersion < 2 ^ 32 by decide) h.index h.term
    (show kEntryTypeNormal < 2 ^ 32 by decide)
    (by show record.command.length < 2 ^ 32; unfold kMaxCommandBytes at hcommand; omega)
    (UInt32.toNat_lt _) (padding record) (record.command ++ rest)
  rw [readEntry, if_neg hne, encodeEntry, List.append_assoc, hread]
  simp [SegmentEntryHeader.ofRecord, hcommand]

theorem length_le_flatMap_encodeEntry (padding : LogRecord → Nat) (chunk : List LogRecord) :
    chunk.length ≤ (chunk.flatMap (encodeEntry padding)).length := by
  induction chunk with
  | nil => exact Nat.zero_le _
  | cons record chunk ih =>
    rw [List.flatMap_cons, List.length_append, length_encodeEntry, List.length_cons]
    omega

/-- A file of whole records gives back those inside the range. -/
theorem readSegmentLoop_encode {padding : LogRecord → Nat} {firstLogIndex lastLogIndex : Nat}
    {chunk : List LogRecord} (h : ∀ record ∈ chunk, record.Storable) {passes : Nat}
    (hpasses : chunk.length < passes) (lastGoodPos : Nat) (records : List LogRecord) :
    readSegmentLoop firstLogIndex lastLogIndex passes (chunk.flatMap (encodeEntry padding))
        lastGoodPos records =
      ⟨records ++ chunk.filter fun record =>
        firstLogIndex ≤ record.index ∧ record.index ≤ lastLogIndex, none⟩ := by
  induction chunk generalizing passes lastGoodPos records with
  | nil =>
    cases passes with
    | zero => simp at hpasses
    | succ passes => simp [readSegmentLoop, readEntry]
  | cons record chunk ih =>
    cases passes with
    | zero => simp at hpasses
    | succ passes =>
      rw [List.flatMap_cons, readSegmentLoop,
        readEntry_encodeEntry (h record List.mem_cons_self) padding]
      simp only
      rw [ih (fun r hr => h r (List.mem_cons_of_mem _ hr)) (by simpa using hpasses)]
      by_cases hin : firstLogIndex ≤ record.index ∧ record.index ≤ lastLogIndex <;> simp [hin]

theorem readSegmentFile_encode {padding : LogRecord → Nat} {firstLogIndex lastLogIndex : Nat}
    {chunk : List LogRecord} (h : ∀ record ∈ chunk, record.Storable) (records : List LogRecord) :
    readSegmentFile (chunk.flatMap (encodeEntry padding)) firstLogIndex lastLogIndex records =
      ⟨records ++ chunk.filter fun record =>
        firstLogIndex ≤ record.index ∧ record.index ≤ lastLogIndex, none⟩ := by
  refine readSegmentLoop_encode h ?_ 0 records
  have hlen := length_le_flatMap_encodeEntry padding chunk
  omega

theorem parseSegmentStartIndex_segmentFileName {index : Nat} (h : index < 2 ^ 64) :
    parseSegmentStartIndex (segmentFileName index) = some index := by
  have hbefore : (ascii "segment_").length = 8 := by decide
  have hafter : (ascii ".log").length = 4 := by decide
  have hwidth := length_paddedDecimal 20 index
  have hlen : (segmentFileName index).length = 8 + (paddedDecimal 20 index).length + 4 := by
    simp only [segmentFileName, List.length_append, hbefore, hafter]
  have htake : (segmentFileName index).take 8 = ascii "segment_" := by
    rw [segmentFileName, List.append_assoc, List.take_left' hbefore]
  have hdrop : (segmentFileName index).drop ((segmentFileName index).length - 4) =
      ascii ".log" := by
    rw [hlen, Nat.add_sub_cancel, segmentFileName, List.drop_left']
    rw [List.length_append, hbefore]
  have hdigits : ((segmentFileName index).drop 8).take ((segmentFileName index).length - 8 - 4) =
      paddedDecimal 20 index := by
    rw [hlen, segmentFileName, List.append_assoc, List.drop_left' hbefore, List.take_left']
    omega
  have hne : paddedDecimal 20 index ≠ [] := by
    intro hnil
    rw [hnil, List.length_nil] at hwidth
    omega
  simp only [parseSegmentStartIndex, hbefore, hafter]
  rw [if_neg (by simp [htake, hdrop]; omega), hdigits,
    if_neg (by simp [hne, paddedDecimal_isDigit]), decimalValue_paddedDecimal, if_pos h]

end CquptRaft
