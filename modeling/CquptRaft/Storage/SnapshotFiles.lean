import CquptRaft.Storage.Segment
import CquptRaft.Theory.Files
import CquptRaft.Theory.Checksum

/-!
# Snapshot directories

A snapshot is a directory `snapshot_<index>` with the data file and a meta file that names it and
carries its checksum. `SaveSnapshotFile` puts it together under a staging name that holds the index
and the time.
-/

namespace CquptRaft

namespace FileSnapshotStorage

open Binary Files

def kMetaMagic : Nat := 0x53504D32

def kMetaVersion : Nat := 2

def kSnapshotDataFileName : Bytes := ascii "data.bin"

def kSnapshotMetaFileName : Bytes := ascii "__raft_snapshot_meta"

def kSnapshotPrefix : Bytes := ascii "snapshot_"

def kSnapshotStagingPrefix : Bytes := ascii ".snapshot_staging_"

/-! ## Names -/

def formatIndex (index : Nat) : Bytes := paddedDecimal 20 index

def startsWith (value start : Bytes) : Bool := value.take start.length = start

/-- `std::to_string`. -/
def decimal (n : Nat) : Bytes := paddedDecimal 1 n

def finalDir (index : Nat) : Bytes := kSnapshotPrefix ++ formatIndex index

def stagingDir (index nowMs : Nat) : Bytes :=
  kSnapshotStagingPrefix ++ (formatIndex index ++ (ascii "_" ++ decimal nowMs))

def isSpace (c : UInt8) : Bool := c = 32 ∨ 9 ≤ c ∧ c ≤ 13

/-- `std::stoull`: blanks and a sign may stand in front, and what follows the digits does not
matter. `none` are its exceptions. -/
def stoull (text : Bytes) : Option Nat :=
  let text := text.dropWhile isSpace
  let signed := text.head? = some 43 ∨ text.head? = some 45
  let digits := (if signed then text.drop 1 else text).takeWhile isDigit
  if digits = [] ∨ 2 ^ 64 ≤ decimalValue digits then none
  else if text.head? = some 45 then some ((2 ^ 64 - decimalValue digits) % 2 ^ 64)
  else some (decimalValue digits)

example : stoull (ascii " +0042x") = some 42 := by decide +kernel

/-! ## Checksums -/

def updateChecksum (checksum : UInt32) (data : Bytes) : UInt32 := fnv1aAppend checksum data

def kChecksumBufferSize : Nat := 64 * 1024

/-- The file is read block by block. -/
def computeFileChecksum (content : Bytes) : UInt32 :=
  Checksum.foldBlocks updateChecksum kChecksumBufferSize (content.length + 1) 2166136261 content

theorem computeFileChecksum_eq (content : Bytes) :
    computeFileChecksum content = updateChecksum 2166136261 content :=
  Checksum.foldBlocks_eq (fun _ _ _ => List.foldl_append.symm) (by decide) (Nat.lt_succ_self _) _

/-! ## The meta file -/

/-- The fields behind magic and version. -/
structure MetaFields where
  createdUnixMs : Nat
  lastIncludedIndex : Nat
  lastIncludedTerm : Nat
  checksum : Nat
  dataFileName : Bytes
  deriving DecidableEq, Repr

def writeString (value : Bytes) : Bytes := toBytes 8 value.length ++ value

/-- `WriteMeta`. -/
def metaBytes (fields : MetaFields) : Bytes :=
  toBytes 4 kMetaMagic ++ (toBytes 4 kMetaVersion ++ (toBytes 8 fields.createdUnixMs ++
    (toBytes 8 fields.lastIncludedIndex ++ (toBytes 8 fields.lastIncludedTerm ++
      (toBytes 4 fields.checksum ++ writeString fields.dataFileName)))))

/-- A string field of more than 1 MiB is refused. -/
def readString (bytes : Bytes) : Option (Bytes × Bytes) := do
  let (size, bytes) ← readNat 8 bytes
  if size > 1024 * 1024 ∨ bytes.length < size then none
  else some (bytes.take size, bytes.drop size)

def readMetaFields (content : Bytes) : Option MetaFields := do
  let (magic, bytes) ← readNat 4 content
  let (version, bytes) ← readNat 4 bytes
  let (createdUnixMs, bytes) ← readNat 8 bytes
  let (lastIncludedIndex, bytes) ← readNat 8 bytes
  let (lastIncludedTerm, bytes) ← readNat 8 bytes
  let (checksum, bytes) ← readNat 4 bytes
  let (dataFileName, _) ← readString bytes
  if magic ≠ kMetaMagic ∨ version ≠ kMetaVersion ∨ dataFileName = [] then none
  else some ⟨createdUnixMs, lastIncludedIndex, lastIncludedTerm, checksum, dataFileName⟩

/-! ## `ReadDirectorySnapshot` -/

structure SnapshotMeta where
  snapshotDir : Bytes
  snapshotPath : Path Bytes
  metaPath : Path Bytes
  lastIncludedIndex : Nat
  lastIncludedTerm : Nat
  createdUnixMs : Nat
  dataChecksum : Nat
  deriving DecidableEq

/-- The first half: the meta file of a directory and whether it fits to the directory's name. -/
def readDirectoryMeta (dir content : Bytes) : Option MetaFields := do
  let fields ← readMetaFields content
  if startsWith dir kSnapshotPrefix then
    if stoull (dir.drop kSnapshotPrefix.length) = some fields.lastIncludedIndex then some fields
    else none
  else some fields

/-- The second half: the data file against the checksum. -/
def acceptSnapshotData (dir : Bytes) (fields : MetaFields) (data : Bytes) : Option SnapshotMeta :=
  if (computeFileChecksum data).toNat = fields.checksum then
    some ⟨dir, ⟨some dir, fields.dataFileName⟩, ⟨some dir, kSnapshotMetaFileName⟩,
      fields.lastIncludedIndex, fields.lastIncludedTerm, fields.createdUnixMs, fields.checksum⟩
  else none

/-- `ReadDirectorySnapshot` on files that do not change; `read` gives their contents. -/
def readDirectorySnapshot (read : Path Bytes → Option Bytes) (dir : Bytes) :
    Option SnapshotMeta := do
  let content ← read ⟨some dir, kSnapshotMetaFileName⟩
  let fields ← readDirectoryMeta dir content
  let data ← read ⟨some dir, fields.dataFileName⟩
  acceptSnapshotData dir fields data

/-! ## Names that differ -/

theorem takeWhile_isDigit_formatIndex (index : Nat) (rest : Bytes) :
    (formatIndex index ++ (ascii "_" ++ rest)).takeWhile isDigit = formatIndex index := by
  have hdigits : ∀ c ∈ formatIndex index, isDigit c = true := by
    have hall := paddedDecimal_isDigit 20 index
    rwa [List.all_eq_true] at hall
  have hstop : (ascii "_" ++ rest).takeWhile isDigit = [] := by
    rw [show ascii "_" = [95] by decide, List.singleton_append, List.takeWhile_cons]
    rfl
  rw [List.takeWhile_append_of_pos hdigits, hstop, List.append_nil]

/-- Another index or another time is another staging directory. -/
theorem stagingDir_inj {index index' nowMs nowMs' : Nat}
    (h : stagingDir index nowMs = stagingDir index' nowMs') : index = index' ∧ nowMs = nowMs' := by
  have hrest := List.append_cancel_left h
  have hindex : formatIndex index = formatIndex index' := by
    have htake := congrArg (List.takeWhile isDigit) hrest
    rwa [takeWhile_isDigit_formatIndex, takeWhile_isDigit_formatIndex] at htake
  rw [hindex] at hrest
  have htime := List.append_cancel_left (List.append_cancel_left hrest)
  refine ⟨?_, ?_⟩
  · have hvalue := congrArg decimalValue hindex
    rwa [formatIndex, formatIndex, decimalValue_paddedDecimal, decimalValue_paddedDecimal] at hvalue
  · have hvalue := congrArg decimalValue htime
    rwa [decimal, decimal, decimalValue_paddedDecimal, decimalValue_paddedDecimal] at hvalue

theorem finalDir_inj {index index' : Nat} (h : finalDir index = finalDir index') :
    index = index' := by
  have hvalue := congrArg decimalValue (List.append_cancel_left h)
  rwa [formatIndex, formatIndex, decimalValue_paddedDecimal, decimalValue_paddedDecimal] at hvalue

theorem stagingDir_ne_finalDir (index nowMs index' : Nat) :
    stagingDir index nowMs ≠ finalDir index' := by
  intro h
  have hhead := congrArg List.head? h
  simp [stagingDir, finalDir, kSnapshotStagingPrefix, kSnapshotPrefix, ascii] at hhead

/-! ## Reading what was written -/

/-- Whatever the numbers are, the meta file names its data file. -/
theorem readMetaFields_metaBytes {fields fields' : MetaFields}
    (hsize : fields.dataFileName.length ≤ 1024 * 1024)
    (h : readMetaFields (metaBytes fields) = some fields') :
    fields'.dataFileName = fields.dataFileName := by
  have hread : ∀ k n (rest : Bytes), readNat k (toBytes k n ++ rest) =
      some (n % 256 ^ k, rest) := by
    intro k n rest
    simp [readNat, List.take_left', List.drop_left', ofBytes_toBytes]
  have hmod : fields.dataFileName.length % 256 ^ 8 = fields.dataFileName.length :=
    Nat.mod_eq_of_lt (by omega)
  simp only [readMetaFields, metaBytes, writeString, readString, hread, hmod,
    Option.bind_eq_bind, Option.bind_some] at h
  rw [if_neg (by omega)] at h
  simp only [List.take_length, Option.bind_some] at h
  split at h
  · cases h
  · cases h
    rfl

end FileSnapshotStorage

end CquptRaft
