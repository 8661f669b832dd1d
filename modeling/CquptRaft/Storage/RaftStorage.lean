import CquptRaft.Storage.Segment
import CquptRaft.Theory.Files
import CquptRaft.Theory.Sorting

/-!
# The files of the raft state

`FileRaftStorage` keeps the state in `meta.bin` and in the segment files of `log/`. `Save` writes
both under temporary names and then moves them into place, first the log and then the meta file.
`Load` reads the meta file, takes from the segments the records inside its range and repairs a
torn tail. Every create, write, remove, rename and sync of `Save` is one step. The operations of
`Load` do not fail here, but for the memory that it asks for: it reserves room for as many records
as the file says there are before it has read one of them.
-/

namespace CquptRaft

open Binary Files Sorting

abbrev DataDir := Disk Bytes UInt8

abbrev SaveProg (α : Type) := Prog Bytes UInt8 α

def kMetaMagic : Nat := 0x524D5441

def kMetaVersion : Nat := 1

def kLegacyFileMagic : Nat := 0x52465431

def kLegacyFileVersion : Nat := 2

def kMetaFileName : Bytes := ascii "meta.bin"

def kMetaTempFileName : Bytes := ascii "meta.bin.tmp"

def kLogDirName : Bytes := ascii "log"

def kLogTempDirName : Bytes := ascii "log.tmp"

def kLogBackupDirName : Bytes := ascii "log.bak"

def kLegacyStateFileName : Bytes := ascii "raft_state.bin"

def kLegacyTempFileName : Bytes := ascii "raft_state.bin.tmp"

/-- A name directly in the data directory. -/
def topLevel (name : Bytes) : Path Bytes := ⟨none, name⟩

def pathExists (dir : DataDir) (name : Bytes) : Bool := (dir.lookup name).isSome

namespace FileRaftStorage

/-! ## The meta file -/

/-- `-1` and the other negative ids are stored in two's complement. -/
def voteBytes (votedFor : NodeId) : Bytes := toBytes 8 (votedFor % 2 ^ 64).toNat

/-- `static_cast<int>` keeps the low 32 bits. -/
def voteOf (stored : Nat) : NodeId := Int.bmod stored (2 ^ 32)

def firstIndex (log : List LogRecord) : Nat := (log.head?.map LogRecord.index).getD 0

def lastIndex (log : List LogRecord) : Nat := (log.getLast?.map LogRecord.index).getD 0

/-- The fields of `meta.bin`, in their order. -/
def metaFields (state : PersistentRaftState) : List Bytes :=
  [toBytes 4 kMetaMagic, toBytes 4 kMetaVersion, toBytes 8 state.currentTerm,
    voteBytes state.votedFor, toBytes 8 state.commitIndex, toBytes 8 state.lastApplied,
    toBytes 8 (firstIndex state.log), toBytes 8 (lastIndex state.log),
    toBytes 8 state.log.length]

/-- What the meta file says: the hard state, with an empty log, and the range of the log. -/
structure Meta where
  state : PersistentRaftState
  firstLogIndex : Nat
  lastLogIndex : Nat
  logCount : Nat
  deriving DecidableEq, Repr

/-- Why `Load` gives up. With `noRoom` it does not return: the exception of `reserve` leaves it. -/
inductive LoadError where
  | unexpectedEof (field : String)
  | metaMagic (magic : Nat)
  | metaVersion (version : Nat)
  | metaBoundary (firstLogIndex lastLogIndex logCount : Nat)
  | logDirMissing
  | logCountMismatch (expected actual : Nat)
  | logBoundaryMismatch
  | nonContiguous (previous actual : Nat)
  | legacyMagic
  | legacyVersion
  | stringTooLarge
  | noRoom (logCount : Nat)
  deriving DecidableEq, Repr

def readField (k : Nat) (field : String) (bytes : Bytes) : Except LoadError (Nat × Bytes) :=
  match readNat k bytes with
  | some result => .ok result
  | none => .error (.unexpectedEof field)

def readMeta (content : Bytes) : Except LoadError Meta := do
  let (magic, bytes) ← readField 4 "magic" content
  let (version, bytes) ← readField 4 "version" bytes
  let (currentTerm, bytes) ← readField 8 "current_term" bytes
  let (votedFor, bytes) ← readField 8 "voted_for" bytes
  let (commitIndex, bytes) ← readField 8 "commit_index" bytes
  let (lastApplied, bytes) ← readField 8 "last_applied" bytes
  let (firstLogIndex, bytes) ← readField 8 "first_log_index" bytes
  let (lastLogIndex, bytes) ← readField 8 "last_log_index" bytes
  let (logCount, _) ← readField 8 "log_count" bytes
  let result : Meta := ⟨⟨currentTerm, voteOf votedFor, commitIndex, lastApplied, []⟩, firstLogIndex,
    lastLogIndex, logCount⟩
  if magic ≠ kMetaMagic then .error (.metaMagic magic)
  else if version ≠ kMetaVersion then .error (.metaVersion version)
  else if logCount = 0 then
    if firstLogIndex ≠ 0 ∨ lastLogIndex ≠ 0 then
      .error (.metaBoundary firstLogIndex lastLogIndex logCount)
    else .ok result
  else if lastLogIndex < firstLogIndex ∨
      (lastLogIndex - firstLogIndex + 1) % 2 ^ 64 ≠ logCount then
    .error (.metaBoundary firstLogIndex lastLogIndex logCount)
  else .ok result

/-! ## `Load` -/

/-- The segment files of `log/` with their start index, as the directory lists them. -/
def listedSegments (dir : DataDir) : List (Nat × Bytes) :=
  match dir.lookup kLogDirName with
  | some (.dir files) =>
    files.keys.filterMap fun name => (parseSegmentStartIndex name).map fun start => (start, name)
  | _ => []

/-- The comparison of `std::sort`, which leaves two files of one start index in any order. -/
def byStartIndex (a b : Nat × Bytes) : Bool := decide (a.1 ≤ b.1)

theorem byStartIndex_trans (a b c : Nat × Bytes) (hab : byStartIndex a b = true)
    (hbc : byStartIndex b c = true) : byStartIndex a c = true := by
  simp only [byStartIndex, decide_eq_true_eq] at hab hbc ⊢
  exact Nat.le_trans hab hbc

theorem byStartIndex_total (a b : Nat × Bytes) :
    (byStartIndex a b || byStartIndex b a) = true := by
  simpa [byStartIndex] using Nat.le_total a.1 b.1

/-- With this order the listing of the directory decides between equal start indexes. -/
def stableOrder : Sorter byStartIndex := .stable byStartIndex_trans byStartIndex_total

def segmentFiles (dir : DataDir) : List (Nat × Bytes) := stableOrder.sort (listedSegments dir)

/-- The state of the loop of `LoadSegments`. -/
structure SegmentScan where
  dir : DataDir
  records : List LogRecord
  tailTruncated : Bool
  removedLater : Bool

/-- Behind a bad tail nothing is trusted, and later segments are removed. -/
def scanSegment (firstLogIndex lastLogIndex : Nat) (scan : SegmentScan) (name : Bytes) :
    SegmentScan :=
  let path : Path Bytes := ⟨some kLogDirName, name⟩
  if scan.tailTruncated then
    { scan with dir := (scan.dir.apply (.remove path)).getD scan.dir, removedLater := true }
  else
    let read := readSegmentFile ((scan.dir.readFile path).getD []) firstLogIndex lastLogIndex
      scan.records
    match read.cut with
    | none => { scan with records := read.records }
    | some offset =>
      { scan with
        dir := (scan.dir.apply (.resize path offset)).getD scan.dir
        records := read.records
        tailTruncated := true }

/-- The first record that does not follow its predecessor. -/
def firstGap : List LogRecord → Option (Nat × Nat)
  | a :: b :: rest =>
    if b.index ≠ (a.index + 1) % 2 ^ 64 then some (a.index, b.index) else firstGap (b :: rest)
  | _ => none

/-- A shorter log is accepted when its tail was cut in the last segment. -/
def acceptedTruncatedPrefix (m : Meta) (scan : SegmentScan) : Bool :=
  scan.tailTruncated && !scan.removedLater &&
    match scan.records.head? with
    | none => m.firstLogIndex == 0
    | some front => front.index == m.firstLogIndex

/-- The checks of `LoadSegments` on what the loop has collected. -/
def checkRecords (m : Meta) (scan : SegmentScan) : Except LoadError (List LogRecord) :=
  if scan.records.length ≠ m.logCount ∧ !acceptedTruncatedPrefix m scan then
    .error (.logCountMismatch m.logCount scan.records.length)
  else
    match scan.records.head?, scan.records.getLast? with
    | some front, some back =>
      if front.index ≠ m.firstLogIndex ∨ (!scan.tailTruncated ∧ back.index ≠ m.lastLogIndex) then
        .error .logBoundaryMismatch
      else
        match firstGap scan.records with
        | some (previous, actual) => .error (.nonContiguous previous actual)
        | none => .ok scan.records
    | _, _ => .ok scan.records

section Load

variable (order : Sorter byStartIndex) (room : Nat → Bool)

/-- `order` is what `std::sort` does, and `room` says for how many records there is memory. -/
def loadSegmentsWith (dir : DataDir) (m : Meta) : Except LoadError (List LogRecord) × DataDir :=
  if m.logCount = 0 then (.ok [], dir)
  else if !pathExists dir kLogDirName then (.error .logDirMissing, dir)
  else
    let files := order.sort (listedSegments dir)
    if !room m.logCount then (.error (.noRoom m.logCount), dir)
    else
      let scan := (files.map Prod.snd).foldl
        (scanSegment m.firstLogIndex m.lastLogIndex) ⟨dir, [], false, false⟩
      (checkRecords m scan, scan.dir)

def loadSegmentedWith (dir : DataDir) (content : Bytes) :
    Except LoadError PersistentRaftState × DataDir :=
  match readMeta content with
  | .error e => (.error e, dir)
  | .ok m =>
    match loadSegmentsWith order room dir m with
    | (.error e, dir) => (.error e, dir)
    | (.ok log, dir) => (.ok (clampRecoveredHardState { m.state with log }), dir)

/-- The records of the legacy file, from where `bytes` begins. -/
def readLegacyRecords : Nat → Bytes → Except LoadError (List LogRecord)
  | 0, _ => return []
  | count + 1, bytes => do
    let (index, bytes) ← readField 8 "index" bytes
    let (term, bytes) ← readField 8 "term" bytes
    let (size, bytes) ← readField 8 "size" bytes
    if kMaxCommandBytes < size then .error .stringTooLarge
    else if bytes.length < size then .error (.unexpectedEof "command")
    else
      let rest ← readLegacyRecords count (bytes.drop size)
      return ⟨index, term, bytes.take size⟩ :: rest

/-- Version 1 has no commit and apply index. -/
def loadLegacyWith (content : Bytes) : Except LoadError PersistentRaftState := do
  let (magic, bytes) ← readField 4 "magic" content
  let (version, bytes) ← readField 4 "version" bytes
  let (currentTerm, bytes) ← readField 8 "current_term" bytes
  let (votedFor, bytes) ← readField 8 "voted_for" bytes
  if magic ≠ kLegacyFileMagic then .error .legacyMagic
  else if version ≠ 1 ∧ version ≠ kLegacyFileVersion then .error .legacyVersion
  else
    let hardState := if version = 1 then .ok ((0, 0), bytes) else do
      let (commitIndex, bytes) ← readField 8 "commit_index" bytes
      let (lastApplied, bytes) ← readField 8 "last_applied" bytes
      return ((commitIndex, lastApplied), bytes)
    let ((commitIndex, lastApplied), bytes) ← hardState
    let (logCount, bytes) ← readField 8 "log_count" bytes
    if !room logCount then .error (.noRoom logCount)
    else
      let log ← readLegacyRecords logCount bytes
      return clampRecoveredHardState ⟨currentTerm, voteOf votedFor, commitIndex, lastApplied, log⟩

/-- The content of a path that exists: what is no file reads as an empty one. -/
def fileContent (dir : DataDir) (name : Bytes) : Bytes :=
  (dir.readFile (topLevel name)).getD []

/-- `ok none` stands for a `Load` that succeeds with `has_state` false. -/
def loadWith (dir : DataDir) : Except LoadError (Option PersistentRaftState) × DataDir :=
  if pathExists dir kMetaFileName then
    match loadSegmentedWith order room dir (fileContent dir kMetaFileName) with
    | (result, dir) => (result.map some, dir)
  else if pathExists dir kLegacyStateFileName then
    ((loadLegacyWith room (fileContent dir kLegacyStateFileName)).map some, dir)
  else (.ok none, dir)

end Load

section

variable {order : Sorter byStartIndex} {room : Nat → Bool} {dir : DataDir} {m : Meta}

theorem loadSegmentsWith_empty (h : m.logCount = 0) :
    loadSegmentsWith order room dir m = (.ok [], dir) := if_pos h

theorem loadSegmentsWith_missing (h : m.logCount ≠ 0)
    (hlog : pathExists dir kLogDirName = false) :
    loadSegmentsWith order room dir m = (.error .logDirMissing, dir) := by
  simp [loadSegmentsWith, h, hlog]

/-- The loop over the segments of a directory. -/
theorem loadSegmentsWith_scan (h : m.logCount ≠ 0) (hlog : pathExists dir kLogDirName = true)
    (hroom : room m.logCount = true) :
    loadSegmentsWith order room dir m =
      (checkRecords m (((order.sort (listedSegments dir)).map Prod.snd).foldl
        (scanSegment m.firstLogIndex m.lastLogIndex) ⟨dir, [], false, false⟩),
      (((order.sort (listedSegments dir)).map Prod.snd).foldl
        (scanSegment m.firstLogIndex m.lastLogIndex) ⟨dir, [], false, false⟩).dir) := by
  simp [loadSegmentsWith, h, hlog, hroom]

/-- With a meta file `Load` reads the segments. -/
theorem loadWith_of_meta (hmeta : pathExists dir kMetaFileName = true)
    (hm : readMeta (fileContent dir kMetaFileName) = .ok m) :
    loadWith order room dir = ((loadSegmentsWith order room dir m).1.map fun log =>
      some (clampRecoveredHardState { m.state with log }),
        (loadSegmentsWith order room dir m).2) := by
  rw [loadWith, if_pos hmeta, loadSegmentedWith, hm]
  simp only
  rcases loadSegmentsWith order room dir m with ⟨result, left⟩
  cases result <;> rfl

/-- Without one it changes nothing, and the order of the segments does not matter. -/
theorem loadWith_of_no_meta (hmeta : ¬ pathExists dir kMetaFileName = true)
    (order' : Sorter byStartIndex) :
    (loadWith order room dir).2 = dir ∧ loadWith order' room dir = loadWith order room dir := by
  rw [loadWith, loadWith, if_neg hmeta, if_neg hmeta]
  split <;> exact ⟨rfl, rfl⟩

end

/-! ### `Load` with memory for every log -/

/-- There is memory for any number of records. -/
def ample (_ : Nat) : Bool := true

def loadSegments (dir : DataDir) (m : Meta) : Except LoadError (List LogRecord) × DataDir :=
  loadSegmentsWith stableOrder ample dir m

def loadSegmented (dir : DataDir) (content : Bytes) :
    Except LoadError PersistentRaftState × DataDir :=
      loadSegmentedWith stableOrder ample dir content

def loadLegacy (content : Bytes) : Except LoadError PersistentRaftState :=
  loadLegacyWith ample content

def load (dir : DataDir) : Except LoadError (Option PersistentRaftState) × DataDir :=
  loadWith stableOrder ample dir

/-! ## `Save` -/

section Save

variable (padding : LogRecord → Nat)

def inTempDir (name : Bytes) : Path Bytes := ⟨some kLogTempDirName, name⟩

/-- `FlushAndSyncSegmentFile`, for the file that is open. -/
def flushSegment : Option Bytes → SaveProg Bool
  | none => return true
  | some name => perform (.sync (inTempDir name))

/-- The next segment file, which starts with this index. -/
def openSegment (current : Option Bytes) (index : Nat) : SaveProg (Option Bytes) := do
  if !(← flushSegment current) then return none
  let name := segmentFileName index
  if ← perform (.create (inTempDir name)) then return some name else return none

/-- One record, into the file that is open. -/
def writeRecord (name : Bytes) (record : LogRecord) : SaveProg Bool := do
  if 2 ^ 32 ≤ record.command.length then return false
  if !(← perform (.append (inTempDir name)
      ((SegmentEntryHeader.ofRecord record).write (padding record)))) then return false
  if record.command = [] then return true
  perform (.append (inTempDir name) record.command)

/-- The loop of `WriteSegments`: `current` is the file that is open and `count` the records it
has. -/
def writeSegmentsLoop : List LogRecord → Option Bytes → Nat → SaveProg Bool
  | [], current, _ => do
    if !(← flushSegment current) then return false
    perform (.sync (topLevel kLogTempDirName))
  | record :: rest, current, count => do
    if current = none ∨ kMaxEntriesPerSegment ≤ count then
      match ← openSegment current record.index with
      | none => return false
      | some name =>
        if !(← writeRecord padding name record) then return false
        writeSegmentsLoop rest (some name) 1
    else
      match current with
      | none => return false
      | some name =>
        if !(← writeRecord padding name record) then return false
        writeSegmentsLoop rest (some name) (count + 1)

def writeSegments (log : List LogRecord) : SaveProg Bool := writeSegmentsLoop padding log none 0

def appendFields (path : Path Bytes) : List Bytes → SaveProg Bool
  | [] => return true
  | field :: fields => do
    if !(← perform (.append path field)) then return false
    appendFields path fields

def writeMeta (state : PersistentRaftState) : SaveProg Bool := do
  let path := topLevel kMetaTempFileName
  if !(← perform (.create path)) then return false
  if !(← appendFields path (metaFields state)) then return false
  perform (.sync path)

/-- When the new directory cannot be moved into place, the old one is moved back. -/
def replaceDirectory (src dst backup : Bytes) : SaveProg Bool := do
  if !(← perform (.removeAll backup)) then return false
  if ← look (pathExists · dst) then
    if !(← perform (.rename dst backup)) then return false
  if !(← perform (.rename src dst)) then
    if (← look (pathExists · backup)) && !(← look (pathExists · dst)) then
      let _ ← perform (.rename backup dst)
    return false
  if !(← perform .syncRoot) then return false
  if ← perform (.removeAll backup) then
    let _ ← perform .syncRoot
  return true

def replaceFile (src dst : Bytes) : SaveProg Bool := do
  if ← look (pathExists · dst) then
    if !(← perform (.remove (topLevel dst))) then return false
  if !(← perform (.rename src dst)) then return false
  perform .syncRoot

/-- `Save` up to where it begins to replace what was saved before. -/
def prepare (state : PersistentRaftState) : SaveProg Bool := do
  if !(← perform .makeRoot) then return false
  if !(← perform (.removeAll kLogTempDirName)) then return false
  if !(← perform (.makeDir kLogTempDirName)) then return false
  if !(← writeSegments padding state.log) then return false
  writeMeta state

def save (state : PersistentRaftState) : SaveProg Bool := do
  if !(← prepare padding state) then return false
  if !(← replaceDirectory kLogTempDirName kLogDirName kLogBackupDirName) then return false
  if !(← replaceFile kMetaTempFileName kMetaFileName) then return false
  let _ ← perform (.remove (topLevel kLegacyStateFileName))
  let _ ← perform (.remove (topLevel kLegacyTempFileName))
  return true

end Save

end FileRaftStorage

end CquptRaft
