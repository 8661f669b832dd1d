import CquptRaft.Node.Snapshot
import CquptRaft.Storage.SnapshotFiles
import CquptRaft.Theory.Volumes

/-!
# `OnInstallSnapshot` handlers on one node

Any number of handlers run side by side. A handler takes `mu_` for its admission check and again
when the snapshot is in place; in between it works on the files of the snapshot directory, one
operation at a time, and another handler may come in behind each of them. The data of the request
goes through a temporary file to `SaveSnapshotFile`, which copies it into a staging directory and
renames that to `snapshot_<index>`.

A sync does nothing that another thread can see, so its failure counts as a failure of the
operation behind it. Which snapshots `PruneSnapshots` removes is left open.
-/

namespace CquptRaft

open Files (Path)
open Volumes FileSnapshotStorage

abbrev SnapshotVolume := Volume Bytes UInt8

/-- All handlers of a node write the same file. -/
def installTempPath (nodeId : NodeId) : Path Bytes :=
  ⟨none, ascii "install_snapshot_node_" ++ ((if nodeId < 0 then ascii "-" else []) ++
    (decimal nodeId.natAbs ++ ascii ".bin.tmp"))⟩

/-- What a handler does next. Files are open by their numbers; `written` counts the bytes that
have reached the file, `seen` and `buffer` are the bytes that have been read. -/
inductive InstallPoint where
  | received
  | creatingDirectory
  | openingTemp
  | writingTemp (file written : Nat)
  | saving
  | lookingForExisting (nowMs : Nat)
  | readingExistingMeta (nowMs : Nat)
  | openingExistingData (nowMs : Nat) (fields : MetaFields)
  | readingExistingData (nowMs : Nat) (fields : MetaFields) (file : Nat) (seen : Bytes)
  | clearingStaging (nowMs : Nat)
  | makingStaging (nowMs : Nat)
  | openingInput (nowMs : Nat)
  | openingOutput (nowMs input : Nat)
  | copying (nowMs input output : Nat) (buffer : Bytes) (written : Nat)
  | flushing (nowMs output : Nat) (buffer : Bytes) (written : Nat)
  | openingChecksum (nowMs : Nat)
  | computingChecksum (nowMs file : Nat) (seen : Bytes)
  | openingMeta (nowMs : Nat) (checksum : UInt32)
  | writingMeta (nowMs : Nat) (checksum : UInt32) (file written : Nat)
  | clearingFinal (nowMs : Nat)
  | publishing (nowMs : Nat)
  | syncingRoot
  | removingInput
  | removingStaging (nowMs : Nat)
  | removingTemp
  | loading
  | finishing
  | pruning
  | failed (message : String)
  | returned
  deriving DecidableEq

/-- How an operation goes: whether it succeeds, how many bytes it moves, the time, whether a copy
reads or writes next, which directory and which file a removal takes, and how `Save` ends. -/
structure InstallOutcome where
  ok : Bool := true
  count : Nat := 0
  nowMs : Nat := 0
  reads : Bool := true
  dir : Bytes := []
  file : Bytes := []
  saved : Bool := true

/-- At least one byte, where there is one. -/
def chunkAt (bytes : Bytes) (pos count : Nat) : Bytes := (bytes.drop pos).take (count + 1)

/-- The fields that `SaveSnapshotFile` puts into the meta file. -/
def stagedFields (request : InstallSnapshotRequest Bytes) (nowMs : Nat) (checksum : UInt32) :
    MetaFields :=
  ⟨nowMs, request.lastIncludedIndex, request.lastIncludedTerm, checksum.toNat,
    kSnapshotDataFileName⟩

namespace InstallPoint

/-- The steps in front of `SaveSnapshotFile`. A handler that cannot write the file leaves it
behind. -/
def writeTempStep (temp : Path Bytes) (data : Bytes) (out : InstallOutcome) (v : SnapshotVolume) :
    InstallPoint → SnapshotVolume × InstallPoint
  | creatingDirectory =>
    (v, if out.ok then openingTemp else failed "create snapshot directory failed")
  | openingTemp =>
    match out.ok, v.openTrunc temp with
    | true, some (v, file) => (v, writingTemp file 0)
    | _, _ => (v, failed "open install snapshot temp file failed")
  | writingTemp file written =>
    if !out.ok then (v, failed "write install snapshot temp file failed")
    else if data.length ≤ written then (v, saving)
    else
      let chunk := chunkAt data written out.count
      (v.write file written chunk, writingTemp file (written + chunk.length))
  | point => (v, point)

/-- `SaveSnapshotFile` up to its decision about an existing directory. A valid one of the same
term is taken as it is, and one of another term is refused. -/
def checkExistingStep (request : InstallSnapshotRequest Bytes) (out : InstallOutcome)
    (v : SnapshotVolume) : InstallPoint → InstallPoint
  | saving => if out.ok then lookingForExisting out.nowMs else removingTemp
  | lookingForExisting nowMs =>
    if !out.ok then removingTemp
    else if v.pathExists (finalDir request.lastIncludedIndex) then readingExistingMeta nowMs
    else clearingStaging nowMs
  | readingExistingMeta nowMs =>
    let dir := finalDir request.lastIncludedIndex
    match out.ok, (v.read ⟨some dir, kSnapshotMetaFileName⟩).bind (readDirectoryMeta dir) with
    | true, some fields => openingExistingData nowMs fields
    | _, _ => clearingStaging nowMs
  | openingExistingData nowMs fields =>
    match out.ok, v.find ⟨some (finalDir request.lastIncludedIndex), fields.dataFileName⟩ with
    | true, some file => readingExistingData nowMs fields file []
    | _, _ => clearingStaging nowMs
  | readingExistingData nowMs fields file seen =>
    if !out.ok then clearingStaging nowMs
    else
      let chunk := chunkAt (v.content file) seen.length out.count
      if chunk ≠ [] then readingExistingData nowMs fields file (seen ++ chunk)
      else
        match acceptSnapshotData (finalDir request.lastIncludedIndex) fields seen with
        | none => clearingStaging nowMs
        | some existing =>
          if existing.lastIncludedTerm = request.lastIncludedTerm then removingInput
          else removingTemp
  | point => point

/-- `CopyFilePortable` into a fresh staging directory. An insertion that moves no byte at all
fails the output stream. -/
def copyStep (temp : Path Bytes) (request : InstallSnapshotRequest Bytes) (out : InstallOutcome)
    (v : SnapshotVolume) : InstallPoint → SnapshotVolume × InstallPoint
  | clearingStaging nowMs =>
    if !out.ok then (v, removingTemp)
    else
      match v.removeNext (stagingDir request.lastIncludedIndex nowMs) out.file with
      | (v, true) => (v, makingStaging nowMs)
      | (v, false) => (v, clearingStaging nowMs)
  | makingStaging nowMs =>
    match out.ok, v.makeDir (stagingDir request.lastIncludedIndex nowMs) with
    | true, some v => (v, openingInput nowMs)
    | _, _ => (v, removingTemp)
  | openingInput nowMs =>
    match out.ok, v.find temp with
    | true, some input => (v, openingOutput nowMs input)
    | _, _ => (v, removingStaging nowMs)
  | openingOutput nowMs input =>
    match out.ok, v.openTrunc
        ⟨some (stagingDir request.lastIncludedIndex nowMs), kSnapshotDataFileName⟩ with
    | true, some (v, output) => (v, copying nowMs input output [] 0)
    | _, _ => (v, removingStaging nowMs)
  | copying nowMs input output buffer written =>
    if !out.ok then (v, removingStaging nowMs)
    else if out.reads then
      let chunk := chunkAt (v.content input) buffer.length out.count
      if chunk ≠ [] then (v, copying nowMs input output (buffer ++ chunk) written)
      else if buffer = [] then (v, removingStaging nowMs)
      else (v, flushing nowMs output buffer written)
    else
      let chunk := chunkAt buffer written out.count
      (v.write output written chunk,
        copying nowMs input output buffer (written + chunk.length))
  | flushing nowMs output buffer written =>
    if !out.ok then (v, removingStaging nowMs)
    else if buffer.length ≤ written then (v, openingChecksum nowMs)
    else
      let chunk := chunkAt buffer written out.count
      (v.write output written chunk, flushing nowMs output buffer (written + chunk.length))
  | point => (v, point)

/-- Checksum, meta file and the move into place. -/
def publishStep (request : InstallSnapshotRequest Bytes) (out : InstallOutcome)
    (v : SnapshotVolume) : InstallPoint → SnapshotVolume × InstallPoint
  | openingChecksum nowMs =>
    match out.ok, v.find
        ⟨some (stagingDir request.lastIncludedIndex nowMs), kSnapshotDataFileName⟩ with
    | true, some file => (v, computingChecksum nowMs file [])
    | _, _ => (v, removingStaging nowMs)
  | computingChecksum nowMs file seen =>
    if !out.ok then (v, removingStaging nowMs)
    else
      let chunk := chunkAt (v.content file) seen.length out.count
      if chunk ≠ [] then (v, computingChecksum nowMs file (seen ++ chunk))
      else (v, openingMeta nowMs (computeFileChecksum seen))
  | openingMeta nowMs checksum =>
    match out.ok, v.openTrunc
        ⟨some (stagingDir request.lastIncludedIndex nowMs), kSnapshotMetaFileName⟩ with
    | true, some (v, file) => (v, writingMeta nowMs checksum file 0)
    | _, _ => (v, removingStaging nowMs)
  | writingMeta nowMs checksum file written =>
    let bytes := metaBytes (stagedFields request nowMs checksum)
    if !out.ok then (v, removingStaging nowMs)
    else if bytes.length ≤ written then (v, clearingFinal nowMs)
    else
      let chunk := chunkAt bytes written out.count
      (v.write file written chunk, writingMeta nowMs checksum file (written + chunk.length))
  | clearingFinal nowMs =>
    if !out.ok then (v, removingStaging nowMs)
    else
      match v.removeNext (finalDir request.lastIncludedIndex) out.file with
      | (v, true) => (v, publishing nowMs)
      | (v, false) => (v, clearingFinal nowMs)
  | publishing nowMs =>
    match out.ok, v.rename (stagingDir request.lastIncludedIndex nowMs)
        (finalDir request.lastIncludedIndex) with
    | true, some v => (v, syncingRoot)
    | _, _ => (v, removingStaging nowMs)
  | point => (v, point)

/-- What `PruneSnapshots` may take away: a file of a snapshot directory, the empty directory, or
a file of the old flat layout. -/
def pruneStep (out : InstallOutcome) (v : SnapshotVolume) : SnapshotVolume :=
  if startsWith out.dir kSnapshotPrefix then (v.removeNext out.dir out.file).1
  else if startsWith out.file.reverse (ascii ".bin").reverse ∨
      startsWith out.file.reverse (ascii ".meta").reverse then v.unlink ⟨none, out.file⟩
  else v

/-- Errors of the two removals of the temporary file are ignored, and so are those of the removal
of the staging directory. -/
def cleanUpStep (temp : Path Bytes) (request : InstallSnapshotRequest Bytes)
    (out : InstallOutcome) (v : SnapshotVolume) : InstallPoint → SnapshotVolume × InstallPoint
  | syncingRoot => (v, if out.ok then removingInput else removingTemp)
  | removingInput => (if out.ok then v.unlink temp else v, loading)
  | removingStaging nowMs =>
    if !out.ok then (v, removingTemp)
    else
      match v.removeNext (stagingDir request.lastIncludedIndex nowMs) out.file with
      | (v, true) => (v, removingTemp)
      | (v, false) => (v, removingStaging nowMs)
  | removingTemp =>
    (if out.ok then v.unlink temp else v, failed "persist installed snapshot failed")
  | loading => (v, if out.ok then finishing else failed "load installed snapshot failed")
  | pruning => if out.ok then (pruneStep out v, pruning) else (v, returned)
  | point => (v, point)

/-- One file operation. -/
def fileStep (temp : Path Bytes) (request : InstallSnapshotRequest Bytes) (out : InstallOutcome)
    (v : SnapshotVolume) (point : InstallPoint) : SnapshotVolume × InstallPoint :=
  match point with
  | creatingDirectory | openingTemp | writingTemp .. =>
    writeTempStep temp request.snapshotData out v point
  | saving | lookingForExisting _ | readingExistingMeta _ | openingExistingData ..
  | readingExistingData .. => (v, checkExistingStep request out v point)
  | clearingStaging _ | makingStaging _ | openingInput _ | openingOutput .. | copying ..
  | flushing .. => copyStep temp request out v point
  | openingChecksum _ | computingChecksum .. | openingMeta .. | writingMeta .. | clearingFinal _
  | publishing _ => publishStep request out v point
  | point => cleanUpStep temp request out v point

end InstallPoint

structure InstallCall where
  request : InstallSnapshotRequest Bytes
  response : InstallSnapshotResponse
  point : InstallPoint

/-- The snapshot directory, the node and the handlers, those that have returned included. -/
structure InstallState where
  volume : SnapshotVolume
  node : RaftNode
  calls : List InstallCall

/-- `other` is whatever the other threads of the node do under `mu_`. -/
inductive InstallAction where
  | receive (request : InstallSnapshotRequest Bytes)
  | run (call : Nat) (out : InstallOutcome)
  | other (node : RaftNode)

namespace InstallState

/-- A step of the handler `call`: one of its two critical sections, or a file operation. -/
def runCall (nodeId : NodeId) (enabled : Bool) (s : InstallState) (i : Nat) (call : InstallCall)
    (out : InstallOutcome) : InstallState :=
  match call.point with
  | .received =>
    match s.node.installCheck enabled call.request out.saved with
    | (node, some response) =>
      { s with node, calls := s.calls.set i { call with response, point := .returned } }
    | (node, none) =>
      { s with
        node
        calls := s.calls.set i
          { call with response := s.node.installResponse, point := .creatingDirectory } }
  | .finishing =>
    match s.node.installFinish call.request call.response out.saved with
    | (node, response) =>
      { s with
        node
        calls := s.calls.set i
          { call with response, point := if response.success then .pruning else .returned } }
  | point =>
    match point.fileStep (installTempPath nodeId) call.request out s.volume with
    | (volume, point) => { s with volume, calls := s.calls.set i { call with point } }

/-- `LoadSnapshot` and the critical section behind it are under `apply_mu_`. -/
def step (nodeId : NodeId) (enabled : Bool) (s : InstallState) : InstallAction → Option InstallState
  | .receive request =>
    some { s with calls := s.calls ++ [⟨request, s.node.installResponse, .received⟩] }
  | .run i out =>
    match s.calls[i]? with
    | none => none
    | some call =>
      if call.point = .loading ∧ ∃ other ∈ s.calls, other.point = .finishing then none
      else some (s.runCall nodeId enabled i call out)
  | .other node => some { s with node }

/-- The requests the node has received. -/
def received (s : InstallState) : List (InstallSnapshotRequest Bytes) :=
  s.calls.map InstallCall.request

/-- `ReadDirectorySnapshot` of `snapshot_<index>` as the files are now. -/
def readSnapshot (s : InstallState) (index : Nat) : Option SnapshotMeta :=
  readDirectorySnapshot s.volume.read (finalDir index)

end InstallState

end CquptRaft
