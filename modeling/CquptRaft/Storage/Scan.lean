import CquptRaft.Storage.Loading

/-!
# Reading segments with arbitrary bytes

Whatever a segment file holds, it is a row of whole records and a tail. The reader takes the
records and cuts the file in front of the tail, when there is one. What it makes of a record does
not depend on what follows it. `LoadSegments` reads the files in the order of their start indexes
up to the first one with a tail, and removes those behind it.
-/

namespace CquptRaft

open Binary Files

/-! ## One record -/

/-- The fields are in the ranges of the header. -/
structure SegmentEntryHeader.InRange (header : SegmentEntryHeader) : Prop where
  magic : header.magic < 2 ^ 32
  version : header.version < 2 ^ 32
  index : header.index < 2 ^ 64
  term : header.term < 2 ^ 64
  type : header.type < 2 ^ 32
  dataSize : header.dataSize < 2 ^ 32
  checksum : header.checksum < 2 ^ 32

theorem SegmentEntryHeader.read_eq_some {bytes rest : Bytes} {header : SegmentEntryHeader}
    (h : read bytes = some (header, rest)) :
    header.InRange ∧ ∃ padding, bytes = header.write padding ++ rest := by
  obtain ⟨⟨magic, _⟩, hmagic, h⟩ := Option.bind_eq_some_iff.mp h
  obtain ⟨⟨version, _⟩, hversion, h⟩ := Option.bind_eq_some_iff.mp h
  obtain ⟨⟨index, _⟩, hindex, h⟩ := Option.bind_eq_some_iff.mp h
  obtain ⟨⟨term, _⟩, hterm, h⟩ := Option.bind_eq_some_iff.mp h
  obtain ⟨⟨type, _⟩, htype, h⟩ := Option.bind_eq_some_iff.mp h
  obtain ⟨⟨dataSize, _⟩, hsize, h⟩ := Option.bind_eq_some_iff.mp h
  obtain ⟨⟨checksum, _⟩, hchecksum, h⟩ := Option.bind_eq_some_iff.mp h
  obtain ⟨⟨padding, _⟩, hpadding, h⟩ := Option.bind_eq_some_iff.mp h
  cases h
  obtain ⟨rfl, hmagicLt⟩ := readNat_eq_some_iff.mp hmagic
  obtain ⟨rfl, hversionLt⟩ := readNat_eq_some_iff.mp hversion
  obtain ⟨rfl, hindexLt⟩ := readNat_eq_some_iff.mp hindex
  obtain ⟨rfl, htermLt⟩ := readNat_eq_some_iff.mp hterm
  obtain ⟨rfl, htypeLt⟩ := readNat_eq_some_iff.mp htype
  obtain ⟨rfl, hsizeLt⟩ := readNat_eq_some_iff.mp hsize
  obtain ⟨rfl, hchecksumLt⟩ := readNat_eq_some_iff.mp hchecksum
  obtain ⟨rfl, -⟩ := readNat_eq_some_iff.mp hpadding
  exact ⟨⟨hmagicLt, hversionLt, hindexLt, htermLt, htypeLt, hsizeLt, hchecksumLt⟩, padding,
    by simp [write]⟩

theorem SegmentEntryHeader.length_write (header : SegmentEntryHeader) (padding : Nat) :
    (header.write padding).length = 40 := by
  simp only [write, List.length_append, length_toBytes]

/-- A record is read from its own bytes, whatever follows them. -/
theorem readEntry_eq_entry {bytes rest : Bytes} {record : LogRecord}
    (h : readEntry bytes = .entry record rest) :
    record.Storable ∧ ∃ piece, bytes = piece ++ rest ∧
      piece.length = 40 + record.command.length ∧
      ∀ rest', readEntry (piece ++ rest') = .entry record rest' := by
  unfold readEntry at h
  split at h
  · cases h
  · split at h
    · cases h
    · rename_i header left hread
      obtain ⟨hrange, padding, rfl⟩ := SegmentEntryHeader.read_eq_some hread
      split at h
      · cases h
      · rename_i hvalid
        split at h
        · cases h
        · rename_i hleft
          simp only at h
          split at h
          · cases h
          · rename_i hchecksum
            have hlen : (left.take header.dataSize).length = header.dataSize :=
              List.length_take_of_le (not_lt.mp hleft)
            cases h
            refine ⟨⟨hrange.index, hrange.term, by rw [hlen]; omega⟩,
              header.write padding ++ left.take header.dataSize, by simp, ?_, fun rest' => ?_⟩
            · rw [List.length_append, SegmentEntryHeader.length_write]
            · have hne : header.write padding ++ left.take header.dataSize ++ rest' ≠ [] := by
                intro hnil
                have := congrArg List.length hnil
                simp [SegmentEntryHeader.length_write] at this
              have hread' := SegmentEntryHeader.read_write header hrange.magic hrange.version
                hrange.index hrange.term hrange.type hrange.dataSize hrange.checksum padding
                (left.take header.dataSize ++ rest')
              rw [readEntry, if_neg hne, List.append_assoc, hread']
              simp only
              rw [if_neg hvalid, if_neg (by simp [hlen]), List.take_left' hlen,
                List.drop_left' hlen, if_neg hchecksum]

theorem readEntry_eq_endOfFile {bytes : Bytes} : readEntry bytes = .endOfFile ↔ bytes = [] := by
  unfold readEntry
  grind

/-! ## One file -/

/-- The bytes are these whole records and a tail at which no record can be read. -/
inductive Decoded : Bytes → List LogRecord → Bytes → Prop
  | stop {tail : Bytes} (h : ∀ record rest, readEntry tail ≠ .entry record rest) :
    Decoded tail [] tail
  | next {bytes rest tail : Bytes} {record : LogRecord} {records : List LogRecord}
    (h : readEntry bytes = .entry record rest) (hrest : Decoded rest records tail) :
    Decoded bytes (record :: records) tail

namespace Decoded

variable {bytes tail tail' : Bytes} {records records' : List LogRecord}

theorem total (bytes : Bytes) : ∃ records tail, Decoded bytes records tail := by
  induction hlen : bytes.length using Nat.strong_induction_on generalizing bytes with
  | h n ih =>
    by_cases hentry : ∃ record rest, readEntry bytes = .entry record rest
    · obtain ⟨record, rest, hentry⟩ := hentry
      obtain ⟨-, piece, rfl, hpiece, -⟩ := readEntry_eq_entry hentry
      obtain ⟨records, tail, hrest⟩ := ih rest.length (by simp at hlen; omega) rest rfl
      exact ⟨record :: records, tail, .next hentry hrest⟩
    · push Not at hentry
      exact ⟨[], bytes, .stop hentry⟩

theorem unique (h : Decoded bytes records tail) (h' : Decoded bytes records' tail') :
    records = records' ∧ tail = tail' := by
  induction h generalizing records' with
  | stop hstop =>
    cases h' with
    | stop => exact ⟨rfl, rfl⟩
    | next hentry => exact absurd hentry (hstop _ _)
  | next hentry _ ih =>
    cases h' with
    | stop hstop => exact absurd hentry (hstop _ _)
    | next hentry' hrest' =>
      obtain ⟨rfl, rfl⟩ : _ ∧ _ := by simpa using hentry.symm.trans hentry'
      obtain ⟨rfl, rfl⟩ := ih hrest'
      exact ⟨rfl, rfl⟩

/-- The bytes of the records come first, and they are read as these records with any tail that
holds none. -/
theorem split (h : Decoded bytes records tail) :
    ∃ whole, bytes = whole ++ tail ∧ ∀ tail', Decoded tail' [] tail' →
      Decoded (whole ++ tail') records tail' := by
  induction h with
  | stop hstop => exact ⟨[], rfl, fun _ h => h⟩
  | next hentry _ ih =>
    obtain ⟨-, piece, rfl, -, hlocal⟩ := readEntry_eq_entry hentry
    obtain ⟨whole, rfl, hwhole⟩ := ih
    refine ⟨piece ++ whole, by simp, fun tail' htail' => ?_⟩
    rw [List.append_assoc]
    exact .next (hlocal _) (hwhole tail' htail')

theorem storable (h : Decoded bytes records tail) : ∀ record ∈ records, record.Storable := by
  induction h with
  | stop _ => simp
  | next hentry _ ih =>
    intro record hrecord
    rcases List.mem_cons.mp hrecord with rfl | hrecord
    · exact (readEntry_eq_entry hentry).1
    · exact ih record hrecord

/-- Every record stands whole at some place of the file. -/
theorem present (h : Decoded bytes records tail) :
    ∀ record ∈ records, ∃ position rest, readEntry (bytes.drop position) = .entry record rest := by
  induction h with
  | stop _ => simp
  | next hentry _ ih =>
    intro record hrecord
    rcases List.mem_cons.mp hrecord with rfl | hrecord
    · exact ⟨0, _, hentry⟩
    · obtain ⟨position, rest, hread⟩ := ih record hrecord
      obtain ⟨-, piece, rfl, -, -⟩ := readEntry_eq_entry hentry
      refine ⟨piece.length + position, rest, ?_⟩
      rwa [← List.drop_drop, List.drop_left' rfl]

theorem nil : Decoded [] [] [] := .stop (by simp [readEntry])

end Decoded

/-- What the reader makes of a file. -/
theorem readSegmentLoop_decoded (firstLogIndex lastLogIndex : Nat) {bytes tail : Bytes}
    {found : List LogRecord} (h : Decoded bytes found tail) {passes : Nat}
    (hpasses : bytes.length < passes) (position : Nat) (records : List LogRecord) :
    readSegmentLoop firstLogIndex lastLogIndex passes bytes position records =
      ⟨records ++ found.filter fun record =>
        firstLogIndex ≤ record.index ∧ record.index ≤ lastLogIndex,
        if tail = [] then none else some (position + (bytes.length - tail.length))⟩ := by
  induction h generalizing passes position records with
  | stop hstop =>
    rename_i tail
    cases passes with
    | zero => simp at hpasses
    | succ passes =>
      rw [readSegmentLoop]
      cases hread : readEntry tail with
      | endOfFile => simp [readEntry_eq_endOfFile.mp hread]
      | badTail =>
        have hne : tail ≠ [] := fun hnil => by simp [hnil, readEntry] at hread
        simp [hne]
      | entry record rest => exact absurd hread (hstop record rest)
  | next hentry hrest ih =>
    rename_i bytes rest tail record found
    cases passes with
    | zero => simp at hpasses
    | succ passes =>
      obtain ⟨-, piece, rfl, hpiece, -⟩ := readEntry_eq_entry hentry
      have hlen : rest.length < passes := by
        simp at hpasses
        omega
      obtain ⟨whole, rfl, -⟩ := hrest.split
      rw [readSegmentLoop, hentry]
      simp only
      rw [ih hlen]
      congr 1
      · by_cases hin : firstLogIndex ≤ record.index ∧ record.index ≤ lastLogIndex <;> simp [hin]
      · split
        · rfl
        · simp
          omega

namespace FileRaftStorage

/-- The whole records of a file, whatever their index. -/
def segmentRecords (content : Bytes) : List LogRecord :=
  (readSegmentFile content 0 (2 ^ 64 - 1) []).records

/-- The file ends in bytes that are no record. -/
def hasTail (content : Bytes) : Bool := (readSegmentFile content 0 (2 ^ 64 - 1) []).cut.isSome

theorem readSegmentFile_decoded (firstLogIndex lastLogIndex : Nat) {content tail : Bytes}
    {found : List LogRecord} (h : Decoded content found tail) (records : List LogRecord) :
    readSegmentFile content firstLogIndex lastLogIndex records =
      ⟨records ++ found.filter fun record =>
        firstLogIndex ≤ record.index ∧ record.index ≤ lastLogIndex,
        if tail = [] then none else some (content.length - tail.length)⟩ := by
  have hloop := readSegmentLoop_decoded firstLogIndex lastLogIndex h (Nat.lt_succ_self _) 0 records
  rwa [Nat.zero_add] at hloop

theorem segmentRecords_eq {content tail : Bytes} {found : List LogRecord}
    (h : Decoded content found tail) : segmentRecords content = found := by
  rw [segmentRecords, readSegmentFile_decoded 0 (2 ^ 64 - 1) h, List.nil_append,
    List.filter_eq_self]
  intro record hrecord
  have := (h.storable record hrecord).index
  simp
  omega

theorem hasTail_eq {content tail : Bytes} {found : List LogRecord}
    (h : Decoded content found tail) : hasTail content = decide (tail ≠ []) := by
  rw [hasTail, readSegmentFile_decoded 0 (2 ^ 64 - 1) h]
  split <;> simp_all

/-! ## All files -/

def segmentContent (dir : DataDir) (name : Bytes) : Bytes :=
  (dir.readFile ⟨some kLogDirName, name⟩).getD []

/-- The records inside the range, up to the first file with a tail. -/
def trusted (firstLogIndex lastLogIndex : Nat) : List Bytes → List LogRecord
  | [] => []
  | content :: rest =>
    ((segmentRecords content).filter fun record =>
      firstLogIndex ≤ record.index ∧ record.index ≤ lastLogIndex) ++
      if hasTail content then [] else trusted firstLogIndex lastLogIndex rest

theorem mem_trusted {firstLogIndex lastLogIndex : Nat} {contents : List Bytes} {record : LogRecord}
    (h : record ∈ trusted firstLogIndex lastLogIndex contents) :
    (∃ content ∈ contents, record ∈ segmentRecords content) ∧
      firstLogIndex ≤ record.index ∧ record.index ≤ lastLogIndex := by
  induction contents with
  | nil => cases h
  | cons content contents ih =>
    rcases List.mem_append.mp h with h | h
    · obtain ⟨hmem, hin⟩ := List.mem_filter.mp h
      exact ⟨⟨content, List.mem_cons_self, hmem⟩, by simpa using hin⟩
    · split at h
      · cases h
      · obtain ⟨⟨content', hcontent', hmem⟩, hin⟩ := ih h
        exact ⟨⟨content', List.mem_cons_of_mem _ hcontent', hmem⟩, hin⟩

section

variable (firstLogIndex lastLogIndex : Nat)

/-- Behind a file with a tail the records stay as they are. -/
theorem foldl_scanSegment_truncated (names : List Bytes) {scan : SegmentScan}
    (h : scan.tailTruncated = true) :
    (names.foldl (scanSegment firstLogIndex lastLogIndex) scan).records = scan.records ∧
      (names.foldl (scanSegment firstLogIndex lastLogIndex) scan).tailTruncated = true := by
  induction names generalizing scan with
  | nil => exact ⟨rfl, h⟩
  | cons name names ih =>
    have hstep : (scanSegment firstLogIndex lastLogIndex scan name).records = scan.records ∧
        (scanSegment firstLogIndex lastLogIndex scan name).tailTruncated = true := by
      simp [scanSegment, h]
    obtain ⟨hrecords, htruncated⟩ := ih hstep.2
    exact ⟨hrecords.trans hstep.1, htruncated⟩

/-- A file without a tail only adds its records. -/
theorem scanSegment_whole {dir : DataDir} {records : List LogRecord} {name : Bytes}
    (h : hasTail (segmentContent dir name) = false) :
    scanSegment firstLogIndex lastLogIndex ⟨dir, records, false, false⟩ name =
      ⟨dir, records ++ (segmentRecords (segmentContent dir name)).filter fun record =>
        firstLogIndex ≤ record.index ∧ record.index ≤ lastLogIndex, false, false⟩ := by
  obtain ⟨found, tail, hdecoded⟩ := Decoded.total (segmentContent dir name)
  rw [hasTail_eq hdecoded, decide_eq_false_iff_not, not_not] at h
  have hread := readSegmentFile_decoded firstLogIndex lastLogIndex hdecoded records
  unfold segmentContent at hread
  simp [scanSegment, hread, h, segmentRecords_eq hdecoded]

/-- A file with a tail is cut in front of it. -/
theorem scanSegment_tail {dir : DataDir} {records found : List LogRecord} {name tail : Bytes}
    (h : Decoded (segmentContent dir name) found tail) (htail : tail ≠ []) :
    scanSegment firstLogIndex lastLogIndex ⟨dir, records, false, false⟩ name =
      ⟨(dir.apply (.resize ⟨some kLogDirName, name⟩
          ((segmentContent dir name).length - tail.length))).getD dir,
        records ++ found.filter fun record =>
          firstLogIndex ≤ record.index ∧ record.index ≤ lastLogIndex, true, false⟩ := by
  have hread := readSegmentFile_decoded firstLogIndex lastLogIndex h records
  unfold segmentContent at hread ⊢
  simp [scanSegment, hread, htail]

/-- What the loop of `LoadSegments` collects, and whether it has cut a file. -/
theorem foldl_scanSegment_spec (dir : DataDir) (names : List Bytes) (records : List LogRecord) :
    (names.foldl (scanSegment firstLogIndex lastLogIndex) ⟨dir, records, false, false⟩).records =
        records ++ trusted firstLogIndex lastLogIndex (names.map (segmentContent dir)) ∧
      (names.foldl (scanSegment firstLogIndex lastLogIndex)
        ⟨dir, records, false, false⟩).tailTruncated =
        names.any fun name => hasTail (segmentContent dir name) := by
  induction names generalizing records with
  | nil => simp [trusted]
  | cons name names ih =>
    cases htail : hasTail (segmentContent dir name) with
    | false =>
      rw [List.foldl_cons, scanSegment_whole _ _ htail]
      obtain ⟨hrecords, htruncated⟩ := ih (records ++ (segmentRecords
        (segmentContent dir name)).filter fun record =>
          firstLogIndex ≤ record.index ∧ record.index ≤ lastLogIndex)
      rw [hrecords, htruncated]
      simp [trusted, htail]
    | true =>
      obtain ⟨found, tail, hdecoded⟩ := Decoded.total (segmentContent dir name)
      have hne : tail ≠ [] := by simpa [hasTail_eq hdecoded] using htail
      rw [List.foldl_cons, scanSegment_tail _ _ hdecoded hne]
      generalize (dir.apply (.resize ⟨some kLogDirName, name⟩
        ((segmentContent dir name).length - tail.length))).getD dir = cut
      generalize hread : (⟨cut, records ++ found.filter fun record =>
        firstLogIndex ≤ record.index ∧ record.index ≤ lastLogIndex, true, false⟩ : SegmentScan) =
          scan
      obtain ⟨hrecords, htruncated⟩ := foldl_scanSegment_truncated firstLogIndex lastLogIndex names
        (show scan.tailTruncated = true by rw [← hread])
      rw [hrecords, htruncated, ← hread]
      simp [trusted, htail, segmentRecords_eq hdecoded]

end

end FileRaftStorage

end CquptRaft
