import Mathlib.Data.List.TakeWhile
import CquptRaft.Storage.RaftStorage
import CquptRaft.Storage.SnapshotListing

/-!
# Publishing a snapshot

`SaveSnapshotFile` puts a snapshot together in a staging directory, which no listing shows, and
renames that to `snapshot_<index>`. Every create, write, remove, rename and sync is one step. A
directory that is in the way is not a snapshot and is removed file by file in front of the rename.
Before the rename the list of the snapshots is what it was, behind it the list has one more.
Looking at the disk and reading a file do not fail here.
-/

namespace CquptRaft

open Binary Files

namespace FileSnapshotStorage

/-! ## `SaveSnapshotFile` -/

abbrev SnapshotProg (α : Type) := Prog Bytes UInt8 α

section Save

variable (blocks : Bytes → List Bytes)

/-- The stream writes the content in blocks. An empty input sets its `failbit`. -/
def copyFilePortable (src dst : Path Bytes) : SnapshotProg Bool := do
  match ← look (·.readFile src) with
  | none => return false
  | some content =>
    if !(← perform (.create dst)) then return false
    if !(← FileRaftStorage.appendFields dst (blocks content)) then return false
    if content = [] then return false
    perform (.sync dst)

/-- The fields of the meta file, in their order. -/
def metaFieldBytes (fields : MetaFields) : List Bytes :=
  [toBytes 4 kMetaMagic, toBytes 4 kMetaVersion, toBytes 8 fields.createdUnixMs,
    toBytes 8 fields.lastIncludedIndex, toBytes 8 fields.lastIncludedTerm,
    toBytes 4 fields.checksum, toBytes 8 fields.dataFileName.length, fields.dataFileName]

def writeMeta (path : Path Bytes) (fields : MetaFields) : SnapshotProg Bool := do
  if !(← perform (.create path)) then return false
  if !(← FileRaftStorage.appendFields path (metaFieldBytes fields)) then return false
  perform (.sync path)

/-- What happens between the creation of the staging directory and the rename. -/
def stage (input : Path Bytes) (index term nowMs : Nat) : SnapshotProg Bool := do
  let staging := stagingDir index nowMs
  let final := finalDir index
  if !(← perform .syncRoot) then return false
  if !(← copyFilePortable blocks input ⟨some staging, kSnapshotDataFileName⟩) then return false
  match ← look (·.readFile ⟨some staging, kSnapshotDataFileName⟩) with
  | none => return false
  | some data =>
    let checksum := (computeFileChecksum data).toNat
    if !(← writeMeta ⟨some staging, kSnapshotMetaFileName⟩
        ⟨nowMs, index, term, checksum, kSnapshotDataFileName⟩) then return false
    if !(← perform (.sync ⟨none, staging⟩)) then return false
    if ← look (fun d => (d.lookup final).isSome) then
      if !(← removeTree final) then return false
      perform .syncRoot
    else return true

/-- The end of `SaveSnapshotFile`, behind the decision that there is nothing to be found under the
final name. -/
def publish (input : Path Bytes) (index term nowMs : Nat) : SnapshotProg Bool := do
  let staging := stagingDir index nowMs
  if !(← removeTree staging) then return false
  if !(← perform (.makeDir staging)) then return false
  if !(← stage blocks input index term nowMs) then
    let _ ← removeTree staging
    return false
  if !(← perform (.rename staging (finalDir index))) then
    let _ ← removeTree staging
    return false
  if !(← perform .syncRoot) then return false
  let _ ← perform (.remove input)
  return true

/-- `hasParent` tells whether the snapshot directory is given with a parent directory, which is
synced then. An input of `none` is an empty path. -/
def saveSnapshotFile (hasParent : Bool) (input : Option (Path Bytes)) (index term nowMs : Nat) :
    SnapshotProg Bool := do
  match input with
  | none => return false
  | some input =>
    if !(← perform .makeRoot) then return false
    if hasParent then
      if !(← perform .syncRoot) then return false
    if !(← perform .syncRoot) then return false
    match ← look (fun d => readDirectorySnapshot d.readFile (finalDir index)) with
    | some existing =>
      if existing.lastIncludedTerm ≠ term then return false
      let _ ← perform (.remove input)
      return true
    | none => publish blocks input index term nowMs

end Save

/-! ## Lists with the data -/

/-- The snapshots of the list with the contents of their data files. -/
def published (d : SnapshotDisk) : List (SnapshotMeta × Option Bytes) :=
  (listSnapshots d).map fun m => (m, d.readFile m.snapshotPath)

variable {d disk disk' : SnapshotDisk} {index term nowMs : Nat}

/-- Every name stands for the same snapshot with the same data. -/
structure SameSnapshots (d disk : SnapshotDisk) : Prop where
  snapshot : ∀ name, snapshotAt disk name = snapshotAt d name
  data : ∀ name m, snapshotAt d name = some m →
    disk.readFile m.snapshotPath = d.readFile m.snapshotPath

/-- One name stands for a snapshot and did not before. The others are as they were. -/
structure Adds (d : SnapshotDisk) (name : Bytes) (m : SnapshotMeta) (content : Bytes)
    (disk : SnapshotDisk) : Prop where
  before : snapshotAt d name = none
  added : snapshotAt disk name = some m
  content : disk.readFile m.snapshotPath = some content
  snapshot : ∀ n, n ≠ name → snapshotAt disk n = snapshotAt d n
  data : ∀ n m', snapshotAt d n = some m' →
    disk.readFile m'.snapshotPath = d.readFile m'.snapshotPath

theorem SameSnapshots.perm (h : SameSnapshots d disk) : (published disk).Perm (published d) := by
  have hlist : (listSnapshots disk).Perm (listSnapshots d) := by
    refine (List.perm_ext_iff_of_nodup (listSnapshots_nodup _) (listSnapshots_nodup _)).mpr
      fun m => ?_
    simp only [mem_snapshots_iff, h.snapshot]
  have hdata : published disk = (listSnapshots disk).map fun m =>
      (m, d.readFile m.snapshotPath) := by
    refine List.map_congr_left fun m hm => ?_
    obtain ⟨name, hname⟩ := mem_snapshots_iff.mp hm
    rw [h.data name m ((h.snapshot name).symm.trans hname)]
  rw [hdata]
  exact hlist.map _

theorem Adds.perm {name content : Bytes} {m : SnapshotMeta} (h : Adds d name m content disk) :
    (published disk).Perm ((m, some content) :: published d) := by
  have hnew : m ∉ listSnapshots d := by
    intro hm
    obtain ⟨n, hn⟩ := mem_snapshots_iff.mp hm
    have hsame : n = name := by rw [← snapshotAt_top hn, ← snapshotAt_top h.added]
    rw [hsame, h.before] at hn
    cases hn
  have hlist : (listSnapshots disk).Perm (m :: listSnapshots d) := by
    refine (List.perm_ext_iff_of_nodup (listSnapshots_nodup _)
      (List.nodup_cons.mpr ⟨hnew, listSnapshots_nodup _⟩)).mpr fun m' => ?_
    rw [List.mem_cons, mem_snapshots_iff, mem_snapshots_iff]
    constructor
    · rintro ⟨n, hn⟩
      by_cases hname : n = name
      · rw [hname, h.added] at hn
        exact .inl (Option.some.inj hn).symm
      · exact .inr ⟨n, (h.snapshot n hname).symm.trans hn⟩
    · rintro (rfl | ⟨n, hn⟩)
      · exact ⟨name, h.added⟩
      · refine ⟨n, (h.snapshot n ?_).trans hn⟩
        rintro rfl
        rw [h.before] at hn
        cases hn
  have hdata : published disk = (listSnapshots disk).map fun m' =>
      (m', if m' = m then some content else d.readFile m'.snapshotPath) := by
    refine List.map_congr_left fun m' hm' => ?_
    by_cases heq : m' = m
    · rw [if_pos heq, heq, h.content]
    · rw [if_neg heq]
      rcases List.mem_cons.mp (hlist.subset hm') with rfl | hold
      · exact absurd rfl heq
      · obtain ⟨n, hn⟩ := mem_snapshots_iff.mp hold
        rw [h.data n m' hn]
  rw [hdata]
  refine (hlist.map _).trans ?_
  rw [List.map_cons, if_pos rfl]
  refine List.Perm.cons _ (List.Perm.of_eq (List.map_congr_left fun m' hm' => ?_))
  have hne : m' ≠ m := fun heq => hnew (heq ▸ hm')
  rw [if_neg hne]

/-- The file is no file of a snapshot. -/
def ApartFrom (d : SnapshotDisk) (path : Path Bytes) : Prop :=
  ∀ m ∈ listSnapshots d, path ≠ m.metaPath ∧ path ≠ m.snapshotPath

theorem SameSnapshots.remove {path : Path Bytes} (h : SameSnapshots d disk)
    (hpath : ApartFrom d path) (hop : disk.remove path = some disk') : SameSnapshots d disk' := by
  have hapart : ∀ name m, snapshotAt d name = some m → path ≠ m.metaPath ∧ path ≠ m.snapshotPath :=
    fun name m hm => hpath m (mem_snapshots_iff.mpr ⟨name, hm⟩)
  refine ⟨fun name => ?_, fun name m hm => ?_⟩
  · rw [snapshotAt_remove_eq hop fun m hm => hapart name m ((h.snapshot name).symm.trans hm),
      h.snapshot]
  · rw [Disk.readFile_remove hop, if_neg (hapart name m hm).2.symm, h.data name m hm]

theorem Adds.remove {name content : Bytes} {m : SnapshotMeta} {path : Path Bytes}
    (h : Adds d name m content disk) (hpath : ApartFrom d path)
    (hnew : path ≠ m.metaPath ∧ path ≠ m.snapshotPath) (hop : disk.remove path = some disk') :
    Adds d name m content disk' := by
  have hapart : ∀ n m', snapshotAt d n = some m' → path ≠ m'.metaPath ∧ path ≠ m'.snapshotPath :=
    fun n m' hm' => hpath m' (mem_snapshots_iff.mpr ⟨n, hm'⟩)
  refine ⟨h.before, ?_, ?_, fun n hn => ?_, fun n m' hm' => ?_⟩
  · exact snapshotAt_remove hop h.added hnew.1 hnew.2
  · rw [Disk.readFile_remove hop, if_neg hnew.2.symm, h.content]
  · rw [snapshotAt_remove_eq hop fun m' hm' => hapart n m' ((h.snapshot n hn).symm.trans hm'),
      h.snapshot n hn]
  · rw [Disk.readFile_remove hop, if_neg (hapart n m' hm').2.symm, h.data n m' hm']

/-! ## The names of the two directories -/

/-- The names that `SaveSnapshotFile` writes to end in a digit, unlike those of the flat layout. -/
def EndsInDigit (name : Bytes) : Prop := ∃ c, name.getLast? = some c ∧ isDigit c = true

theorem endsInDigit_paddedDecimal (front : Bytes) {width : Nat} (hwidth : 0 < width) (n : Nat) :
    EndsInDigit (front ++ paddedDecimal width n) := by
  have hlength := length_paddedDecimal width n
  have hne : paddedDecimal width n ≠ [] := by
    intro hnil
    rw [hnil, List.length_nil] at hlength
    omega
  have hdigits := paddedDecimal_isDigit width n
  rw [List.all_eq_true] at hdigits
  refine ⟨(paddedDecimal width n).getLast hne, ?_, hdigits _ (List.getLast_mem hne)⟩
  rw [List.getLast?_append_of_ne_nil _ hne, List.getLast?_eq_some_getLast hne]

theorem endsInDigit_finalDir (index : Nat) : EndsInDigit (finalDir index) :=
  endsInDigit_paddedDecimal _ (by norm_num) index

theorem endsInDigit_stagingDir (index nowMs : Nat) : EndsInDigit (stagingDir index nowMs) := by
  unfold stagingDir decimal
  rw [← List.append_assoc, ← List.append_assoc]
  exact endsInDigit_paddedDecimal _ (by norm_num) nowMs

theorem EndsInDigit.legacyStem {name : Bytes} (h : EndsInDigit name) : legacyStem name = none := by
  obtain ⟨c, hlast, hdigit⟩ := h
  unfold FileSnapshotStorage.legacyStem
  split
  · rename_i hmeta
    have hsplit := List.take_append_drop (name.length - 5) name
    rw [hmeta.2] at hsplit
    rw [← hsplit, List.getLast?_append_of_ne_nil _ (by decide)] at hlast
    obtain rfl : c = 97 := by
      simpa [ascii] using hlast.symm
    cases hdigit
  · rfl

theorem EndsInDigit.ne_bin {name : Bytes} (h : EndsInDigit name) (stem : Bytes) :
    stem ++ ascii ".bin" ≠ name := by
  rintro rfl
  obtain ⟨c, hlast, hdigit⟩ := h
  rw [List.getLast?_append_of_ne_nil _ (by decide)] at hlast
  obtain rfl : c = 110 := by
    simpa [ascii] using hlast.symm
  cases hdigit

theorem snapshotAt_stagingDir (d : SnapshotDisk) (index nowMs : Nat) :
    snapshotAt d (stagingDir index nowMs) = none := by
  have hstart : startsWith (stagingDir index nowMs) kSnapshotStagingPrefix = true := by
    simp [startsWith, stagingDir]
  unfold snapshotAt
  rw [(endsInDigit_stagingDir index nowMs).legacyStem, if_pos hstart]
  split <;> rfl

theorem startsWith_finalDir (index : Nat) : startsWith (finalDir index) kSnapshotPrefix = true := by
  simp [startsWith, finalDir]

theorem drop_finalDir (index : Nat) :
    (finalDir index).drop kSnapshotPrefix.length = formatIndex index := by
  simp [finalDir]

/-- Under the final name there is a snapshot when `ReadDirectorySnapshot` says so. -/
theorem snapshotAt_finalDir (d : SnapshotDisk) (index : Nat) :
    snapshotAt d (finalDir index) = readDirectorySnapshot d.readFile (finalDir index) := by
  have hstaging : startsWith (finalDir index) kSnapshotStagingPrefix = false := by
    have hhead : (finalDir index).take 1 ≠ kSnapshotStagingPrefix.take 1 := by
      rw [finalDir, List.take_append_of_le_length (by decide)]
      decide
    simp only [startsWith, decide_eq_false_iff_not]
    intro heq
    have htake := congrArg (List.take 1) heq
    rw [List.take_take] at htake
    exact hhead htake
  have hread : ∀ entry, d.lookup (finalDir index) = entry → (∀ files, entry ≠ some (.dir files)) →
      readDirectorySnapshot d.readFile (finalDir index) = none := by
    intro entry hlookup hno
    have hmeta : d.readFile ⟨some (finalDir index), kSnapshotMetaFileName⟩ = none := by
      simp only [Disk.readFile, hlookup]
    simp only [readDirectorySnapshot, hmeta, Option.bind_eq_bind, Option.bind_none]
  unfold snapshotAt
  rw [(endsInDigit_finalDir index).legacyStem, startsWith_finalDir, hstaging]
  cases hlookup : d.lookup (finalDir index) with
  | none => exact (hread _ hlookup (by simp)).symm
  | some entry =>
    cases entry with
    | file content => exact (hread _ hlookup (by simp)).symm
    | dir files => rfl

/-! ## In front of the rename -/

/-- Only the staging directory and the final one have been touched, and the final one has no file
that it did not have. -/
structure Hidden (d : SnapshotDisk) (index nowMs : Nat) (disk : SnapshotDisk) : Prop where
  frame : ∀ name, name ≠ stagingDir index nowMs → name ≠ finalDir index →
    disk.lookup name = d.lookup name
  fewer : ∀ file content, disk.readFile ⟨some (finalDir index), file⟩ = some content →
    d.readFile ⟨some (finalDir index), file⟩ = some content

theorem Hidden.refl (d : SnapshotDisk) (index nowMs : Nat) : Hidden d index nowMs d :=
  ⟨fun _ _ _ => rfl, fun _ _ => id⟩

/-- Names other than the two stand for the same snapshots with the same data. -/
theorem snapshotAt_frame (hframe : ∀ name, name ≠ stagingDir index nowMs → name ≠ finalDir index →
    disk.lookup name = d.lookup name) {name : Bytes} (hstaging : name ≠ stagingDir index nowMs)
    (hfinal : name ≠ finalDir index) :
    snapshotAt disk name = snapshotAt d name ∧ ∀ m, snapshotAt d name = some m →
      disk.readFile m.snapshotPath = d.readFile m.snapshotPath := by
  have hbin : ∀ stem : Bytes,
      disk.lookup (stem ++ ascii ".bin") = d.lookup (stem ++ ascii ".bin") :=
    fun stem => hframe _ ((endsInDigit_stagingDir index nowMs).ne_bin stem)
      ((endsInDigit_finalDir index).ne_bin stem)
  have hname := hframe name hstaging hfinal
  refine ⟨snapshotAt_congr hname fun stem _ => by rw [hbin stem], fun m hm => ?_⟩
  obtain ⟨files, -, -, hread⟩ | ⟨content, stem, -, -, hread⟩ := snapshotAt_cases hm
  · have hpath : m.snapshotPath = ⟨some name, m.snapshotPath.name⟩ := by
      rw [← (readDirectorySnapshot_paths hread).2.2]
    rw [hpath]
    exact readFile_eq_of_lookup hname _
  · rw [(readLegacyFlatSnapshot_paths hread).2.2]
    simp only [Disk.readFile, hbin stem]

theorem Hidden.same (h : Hidden d index nowMs disk)
    (hnone : readDirectorySnapshot d.readFile (finalDir index) = none) : SameSnapshots d disk := by
  have hfinal : snapshotAt d (finalDir index) = none := (snapshotAt_finalDir d index).trans hnone
  have hfinal' : snapshotAt disk (finalDir index) = none := by
    rw [snapshotAt_finalDir, Option.eq_none_iff_forall_not_mem]
    intro m hm
    rw [readDirectorySnapshot_mono h.fewer hm] at hnone
    cases hnone
  refine ⟨fun name => ?_, fun name m hm => ?_⟩
  · by_cases hs : name = stagingDir index nowMs
    · rw [hs, snapshotAt_stagingDir, snapshotAt_stagingDir]
    · by_cases hf : name = finalDir index
      · rw [hf, hfinal, hfinal']
      · exact (snapshotAt_frame h.frame hs hf).1
  · refine (snapshotAt_frame h.frame ?_ ?_).2 m hm
    · rintro rfl
      rw [snapshotAt_stagingDir] at hm
      cases hm
    · rintro rfl
      rw [hfinal] at hm
      cases hm

/-- A step inside the staging directory. -/
theorem Hidden.step (h : Hidden d index nowMs disk)
    (hstep : ∀ name, name ≠ stagingDir index nowMs → disk'.lookup name = disk.lookup name) :
    Hidden d index nowMs disk' where
  frame name hs hf := (hstep name hs).trans (h.frame name hs hf)
  fewer file content hread := by
    rw [readFile_eq_of_lookup (hstep _ (stagingDir_ne_finalDir index nowMs index).symm)] at hread
    exact h.fewer file content hread

theorem Hidden.removeStaging (h : Hidden d index nowMs disk) {path : Path Bytes}
    (hpath : path.top = stagingDir index nowMs) (hop : disk.remove path = some disk') :
    Hidden d index nowMs disk' :=
  h.step fun _ hname => Disk.lookup_remove_ne hop (by rwa [hpath])

theorem Hidden.write (h : Hidden d index nowMs disk) {path : Path Bytes} {content : Bytes}
    (hpath : path.top = stagingDir index nowMs) (hop : disk.writeFile path content = some disk') :
    Hidden d index nowMs disk' :=
  h.step fun _ hname => Disk.lookup_writeFile hop (by rwa [hpath])

/-- A file of the directory that is in the way goes. -/
theorem Hidden.removeFinal (h : Hidden d index nowMs disk) {path : Path Bytes}
    (hpath : path.top = finalDir index) (hop : disk.remove path = some disk') :
    Hidden d index nowMs disk' where
  frame name hs hf := (Disk.lookup_remove_ne hop (by rwa [hpath])).trans (h.frame name hs hf)
  fewer file content hread := by
    rw [Disk.readFile_remove hop] at hread
    split at hread
    · cases hread
    · exact h.fewer file content hread

/-! ## The steps -/

open Prog

variable {w : World Bytes UInt8}

/-- A file grows by what is appended to it. -/
theorem wp_appendBlocks {path : Path Bytes} {I : SnapshotDisk → Prop}
    (hwrite : ∀ {disk disk' : SnapshotDisk} {content : Bytes}, I disk →
      disk.writeFile path content = some disk' → I disk')
    {fields : List Bytes} {content : Bytes} (h : I w.disk)
    (hcontent : w.disk.readFile path = some content) :
    (FileRaftStorage.appendFields path fields).Wp
      (fun ok w' => I w'.disk ∧ (ok = true →
        w'.disk.readFile path = some (content ++ fields.flatten)))
      (fun w' => I w'.disk) w := by
  induction fields generalizing content w with
  | nil => exact wp_pure ⟨h, fun _ => by simpa using hcontent⟩
  | cons field fields ih =>
    refine wp_stepOrFail h (fun _ => ⟨h, by simp⟩) fun disk script hdisk => ?_
    obtain ⟨content', hread, hwritten⟩ := Option.bind_eq_some_iff.mp hdisk
    obtain rfl : content = content' := Option.some.inj (hcontent.symm.trans hread)
    have hnext : disk.readFile path = some (content ++ field) := by
      rw [Disk.readFile_writeFile hwritten, if_pos rfl]
    refine (ih (hwrite h hwritten) hnext).imp (fun ok w' hok => ?_) fun _ => id
    simpa [List.append_assoc] using hok

/-- A file that is written from the beginning, in pieces, and then synced. -/
theorem wp_writeNew {path : Path Bytes} {I : SnapshotDisk → Prop}
    (hwrite : ∀ {disk disk' : SnapshotDisk} {content : Bytes}, I disk →
      disk.writeFile path content = some disk' → I disk')
    {fields : List Bytes} {q : SnapshotProg Bool} {P : Bool → World Bytes UInt8 → Prop}
    (h : I w.disk) (hfalse : ∀ w' : World Bytes UInt8, I w'.disk → P false w')
    (htrue : ∀ w' : World Bytes UInt8, I w'.disk → w'.disk.readFile path = some fields.flatten →
      q.Wp P (fun w' => I w'.disk) w') :
    (do
      if !(← perform (.create path)) then return false
      if !(← FileRaftStorage.appendFields path fields) then return false
      q : SnapshotProg Bool).Wp P (fun w' => I w'.disk) w := by
  refine wp_stepOrFail h (fun _ => hfalse _ h) fun disk script hdisk => ?_
  have hcreated : disk.readFile path = some [] := by
    rw [Disk.readFile_writeFile hdisk, if_pos rfl]
  exact wp_orFail (wp_appendBlocks hwrite (w := ⟨disk, _, script⟩) (hwrite h hdisk) hcreated)
    (fun w' h' => hfalse w' h'.1) fun w' h' => htrue w' h'.1 (by simpa using h'.2 rfl)

theorem flatten_metaFieldBytes (fields : MetaFields) :
    (metaFieldBytes fields).flatten = metaBytes fields := by
  simp [metaFieldBytes, metaBytes, writeString]

/-- The fields that `SaveSnapshotFile` writes for this content. -/
def fieldsOf (index term nowMs : Nat) (data : Bytes) : MetaFields :=
  ⟨nowMs, index, term, (computeFileChecksum data).toNat, kSnapshotDataFileName⟩

/-- The staging directory holds the data. -/
structure HoldsData (d : SnapshotDisk) (index nowMs : Nat) (data : Bytes) (disk : SnapshotDisk) :
    Prop
    extends Hidden d index nowMs disk where
  dataFile : disk.readFile ⟨some (stagingDir index nowMs), kSnapshotDataFileName⟩ = some data

/-- The staging directory holds the data and the meta file. -/
structure HoldsSnapshot (d : SnapshotDisk) (index term nowMs : Nat) (data : Bytes)
    (disk : SnapshotDisk) : Prop extends HoldsData d index nowMs data disk where
  metaFile : disk.readFile ⟨some (stagingDir index nowMs), kSnapshotMetaFileName⟩ =
    some (metaBytes (fieldsOf index term nowMs data))

theorem HoldsData.writeMeta {data content : Bytes} (h : HoldsData d index nowMs data disk)
    (hop : disk.writeFile ⟨some (stagingDir index nowMs), kSnapshotMetaFileName⟩ content =
      some disk') : HoldsData d index nowMs data disk' where
  toHidden := h.toHidden.write rfl hop
  dataFile := by
    rw [Disk.readFile_writeFile hop, if_neg (by simp +decide), h.dataFile]

theorem HoldsSnapshot.removeFinal {data : Bytes} (h : HoldsSnapshot d index term nowMs data disk)
    {path : Path Bytes} (hpath : path.top = finalDir index) (hop : disk.remove path = some disk') :
    HoldsSnapshot d index term nowMs data disk' := by
  have hne : ∀ file, (⟨some (stagingDir index nowMs), file⟩ : Path Bytes) ≠ path := by
    rintro file rfl
    exact stagingDir_ne_finalDir index nowMs index hpath
  exact ⟨⟨h.toHidden.removeFinal hpath hop,
    by rw [Disk.readFile_remove hop, if_neg (hne _), h.dataFile]⟩,
    by rw [Disk.readFile_remove hop, if_neg (hne _), h.metaFile]⟩

theorem wp_writeMeta {data : Bytes} (h : HoldsData d index nowMs data w.disk) :
    (writeMeta ⟨some (stagingDir index nowMs), kSnapshotMetaFileName⟩
      (fieldsOf index term nowMs data)).Wp
      (fun ok w' => Hidden d index nowMs w'.disk ∧
        (ok = true → HoldsSnapshot d index term nowMs data w'.disk))
      (fun w' => Hidden d index nowMs w'.disk) w := by
  refine Wp.imp (wp_writeNew (I := HoldsData d index nowMs data)
    (P := fun ok w' => Hidden d index nowMs w'.disk ∧
      (ok = true → HoldsSnapshot d index term nowMs data w'.disk))
    (fun hI hop => hI.writeMeta hop) h (fun w' h' => ⟨h'.toHidden, by simp⟩) fun w' h' hmeta => ?_)
    (fun _ _ => id) fun w' h' => h'.toHidden
  rw [flatten_metaFieldBytes] at hmeta
  refine wp_perform h' (fun _ => ⟨h'.toHidden, by simp⟩) fun disk script hdisk => ?_
  obtain rfl := Option.some.inj hdisk
  exact ⟨h'.toHidden, fun _ => ⟨h', hmeta⟩⟩

theorem wp_removeFinal {data : Bytes} (h : HoldsSnapshot d index term nowMs data w.disk) :
    (removeTree (finalDir index)).Wp
      (fun ok w' => HoldsSnapshot d index term nowMs data w'.disk ∧
        (ok = true → w'.disk.lookup (finalDir index) = none))
      (fun w' => HoldsSnapshot d index term nowMs data w'.disk) w :=
  wp_removeTree (fun hI hop => hI.removeFinal rfl hop) (fun hI hop => hI.removeFinal rfl hop) h

theorem wp_removeStaging (h : Hidden d index nowMs w.disk) :
    (removeTree (stagingDir index nowMs)).Wp
      (fun ok w' => Hidden d index nowMs w'.disk ∧
        (ok = true → w'.disk.lookup (stagingDir index nowMs) = none))
      (fun w' => Hidden d index nowMs w'.disk) w :=
  wp_removeTree (fun hI hop => hI.removeStaging rfl hop) (fun hI hop => hI.removeStaging rfl hop) h

section Steps

variable {blocks : Bytes → List Bytes} (hblocks : ∀ content, (blocks content).flatten = content)
  {input : Path Bytes}

include hblocks

theorem wp_copyFilePortable (hinput : input.top ≠ finalDir index) (h : Hidden d index nowMs w.disk)
    (hempty : w.disk.lookup (stagingDir index nowMs) = some (.dir ∅)) :
    (copyFilePortable blocks input ⟨some (stagingDir index nowMs), kSnapshotDataFileName⟩).Wp
      (fun ok w' => Hidden d index nowMs w'.disk ∧ (ok = true → ∃ data,
        d.readFile input = some data ∧ HoldsData d index nowMs data w'.disk))
      (fun w' => Hidden d index nowMs w'.disk) w := by
  refine wp_bind (wp_look ?_)
  cases hread : w.disk.readFile input with
  | none => exact wp_pure ⟨h, by simp⟩
  | some content =>
    have hcontent : d.readFile input = some content := by
      have hstaging : input.top ≠ stagingDir index nowMs := by
        intro htop
        obtain ⟨dir, name⟩ := input
        cases dir with
        | none =>
          obtain rfl : name = stagingDir index nowMs := htop
          simp [Disk.readFile, hempty] at hread
        | some dir =>
          obtain rfl : dir = stagingDir index nowMs := htop
          simp [Disk.readFile, hempty] at hread
      have hsame := h.frame input.top hstaging hinput
      rw [← hread]
      obtain ⟨dir, name⟩ := input
      cases dir with
      | none =>
        have hsame' : w.disk.lookup name = d.lookup name := hsame
        simp only [Disk.readFile, hsame']
      | some dir => exact (readFile_eq_of_lookup hsame name).symm
    refine wp_writeNew (fun hI hop => hI.write rfl hop) h (fun w' h' => ⟨h', by simp⟩)
      fun w' h' hdata => ?_
    rw [hblocks] at hdata
    split
    · exact wp_pure ⟨h', by simp⟩
    · refine wp_perform h' (fun _ => ⟨h', by simp⟩) fun disk script hdisk => ?_
      obtain rfl := Option.some.inj hdisk
      exact ⟨h', fun _ => ⟨content, hcontent, h', hdata⟩⟩

theorem wp_stage (hinput : input.top ≠ finalDir index) (h : Hidden d index nowMs w.disk)
    (hempty : w.disk.lookup (stagingDir index nowMs) = some (.dir ∅)) :
    (stage blocks input index term nowMs).Wp
      (fun ok w' => Hidden d index nowMs w'.disk ∧ (ok = true → ∃ data,
        d.readFile input = some data ∧ HoldsSnapshot d index term nowMs data w'.disk ∧
          w'.disk.lookup (finalDir index) = none))
      (fun w' => Hidden d index nowMs w'.disk) w := by
  refine wp_stepOrFail h (fun _ => ⟨h, by simp⟩) fun disk script hdisk => ?_
  obtain rfl := Option.some.inj hdisk
  refine wp_orFail (wp_copyFilePortable hblocks hinput (w := ⟨w.disk, _, script⟩) h hempty)
    (fun w' h' => ⟨h'.1, by simp⟩) fun w₁ h₁ => ?_
  obtain ⟨data, hcontent, hdata⟩ := h₁.2 rfl
  refine wp_bind (wp_look ?_)
  rw [hdata.dataFile]
  refine wp_orFail (wp_writeMeta hdata) (fun w' h' => ⟨h'.1, by simp⟩) fun w₂ h₂ => ?_
  have hsnapshot := h₂.2 rfl
  refine wp_stepOrFail h₂.1 (fun _ => ⟨h₂.1, by simp⟩) fun disk script hdisk => ?_
  obtain rfl := Option.some.inj hdisk
  refine wp_bind (wp_look ?_)
  split
  · -- what is in the way goes
    refine wp_orFail ((wp_removeFinal (w := ⟨w₂.disk, _, script⟩) hsnapshot).imp (fun _ _ => id)
      fun w' h' => h'.toHidden)
      (fun w' h' => ⟨h'.1.toHidden, by simp⟩) fun w₃ h₃ => ?_
    refine wp_perform h₃.1.toHidden (fun _ => ⟨h₃.1.toHidden, by simp⟩) fun disk script hdisk => ?_
    obtain rfl := Option.some.inj hdisk
    exact ⟨h₃.1.toHidden, fun _ => ⟨data, hcontent, h₃.1, h₃.2 rfl⟩⟩
  · rename_i hno
    refine wp_pure ⟨h₂.1, fun _ => ⟨data, hcontent, hsnapshot, ?_⟩⟩
    simpa using hno

end Steps

/-! ## The rename -/

/-- The snapshot that `SaveSnapshotFile` publishes. -/
def newSnapshot (index term nowMs : Nat) (data : Bytes) : SnapshotMeta :=
  ⟨finalDir index, ⟨some (finalDir index), kSnapshotDataFileName⟩,
    ⟨some (finalDir index), kSnapshotMetaFileName⟩, index, term, nowMs,
    (computeFileChecksum data).toNat⟩

theorem stoull_formatIndex (hindex : index < 2 ^ 64) : stoull (formatIndex index) = some index := by
  have hdigits := paddedDecimal_isDigit 20 index
  rw [List.all_eq_true] at hdigits
  have hlength := length_paddedDecimal 20 index
  cases htext : formatIndex index with
  | nil =>
    rw [formatIndex] at htext
    rw [htext, List.length_nil] at hlength
    omega
  | cons c rest =>
    have hall : ∀ b ∈ c :: rest, isDigit b = true := fun b hb => hdigits b (by rwa [← htext] at hb)
    have hc := hall c List.mem_cons_self
    have hvalue : decimalValue (c :: rest) = index := by
      rw [← htext]
      exact decimalValue_paddedDecimal 20 index
    have hrange : 48 ≤ c ∧ c ≤ 57 := by simpa [isDigit] using hc
    have hspace : isSpace c = false := by
      simp only [isSpace, decide_eq_false_iff_not, UInt8.le_iff_toNat_le, ← UInt8.toNat_inj]
        at hrange ⊢
      simp at hrange ⊢
      omega
    have hsign : ¬ (c = 43 ∨ c = 45) := by
      simp only [UInt8.le_iff_toNat_le, ← UInt8.toNat_inj] at hrange ⊢
      simp at hrange ⊢
      omega
    rw [not_or] at hsign
    simp only [stoull, List.dropWhile_cons, hspace, Bool.false_eq_true, if_false, List.head?_cons,
      Option.some.injEq, hsign.1, hsign.2, or_self]
    rw [List.takeWhile_eq_self_iff.mpr hall, hvalue, if_neg (by simp; omega)]

theorem readMetaFields_fieldsOf (hindex : index < 2 ^ 64) (hterm : term < 2 ^ 64)
    (hnow : nowMs < 2 ^ 64) (data : Bytes) :
    readMetaFields (metaBytes (fieldsOf index term nowMs data)) =
      some (fieldsOf index term nowMs data) := by
  have hchecksum : (computeFileChecksum data).toNat < 2 ^ 32 := UInt32.toNat_lt _
  have hread : ∀ k n (rest : Bytes), n < 256 ^ k →
      readNat k (toBytes k n ++ rest) = some (n, rest) :=
    fun k n rest h => readNat_toBytes h rest
  simp only [readMetaFields, metaBytes, writeString, fieldsOf, readString, Option.bind_eq_bind,
    hread 4 kMetaMagic _ (by decide), hread 4 kMetaVersion _ (by decide), hread 8 nowMs _ hnow,
    hread 8 index _ hindex, hread 8 term _ hterm, hread 4 _ _ hchecksum, Option.bind_some]
  have hname : readNat 8 (toBytes 8 kSnapshotDataFileName.length ++ kSnapshotDataFileName) =
      some (kSnapshotDataFileName.length, kSnapshotDataFileName) := hread 8 _ _ (by decide)
  rw [hname, Option.bind_some, if_neg (by decide), List.take_length, Option.bind_some,
    if_neg (by decide)]

/-- Behind the rename the snapshot is in the list. -/
theorem HoldsSnapshot.adds {data : Bytes} (h : HoldsSnapshot d index term nowMs data disk)
    (hnone : readDirectorySnapshot d.readFile (finalDir index) = none) (hindex : index < 2 ^ 64)
    (hterm : term < 2 ^ 64) (hnow : nowMs < 2 ^ 64)
    (hop : disk.rename (stagingDir index nowMs) (finalDir index) = some disk') :
    Adds d (finalDir index) (newSnapshot index term nowMs data) data disk' := by
  have hlookup := Disk.lookup_rename hop
  have hmoved : ∀ file, disk'.readFile ⟨some (finalDir index), file⟩ =
      disk.readFile ⟨some (stagingDir index nowMs), file⟩ := by
    intro file
    simp only [Disk.readFile, hlookup, if_true]
  have hframe : ∀ name, name ≠ stagingDir index nowMs → name ≠ finalDir index →
      disk'.lookup name = d.lookup name := by
    intro name hs hf
    rw [hlookup, if_neg hf, if_neg hs, h.frame name hs hf]
  have hbefore : snapshotAt d (finalDir index) = none := (snapshotAt_finalDir d index).trans hnone
  refine ⟨hbefore, ?_, ?_, fun n hn => ?_, fun n m hm => ?_⟩
  · have hmeta : readDirectoryMeta (finalDir index) (metaBytes (fieldsOf index term nowMs data)) =
        some (fieldsOf index term nowMs data) := by
      rw [readDirectoryMeta, readMetaFields_fieldsOf hindex hterm hnow, Option.bind_eq_bind,
        Option.bind_some, if_pos (startsWith_finalDir index), drop_finalDir,
        stoull_formatIndex hindex]
      exact if_pos rfl
    rw [snapshotAt_finalDir, readDirectorySnapshot, hmoved, h.metaFile, Option.bind_eq_bind,
      Option.bind_some, hmeta, Option.bind_eq_bind, Option.bind_some, hmoved]
    have hdata : disk.readFile ⟨some (stagingDir index nowMs),
        (fieldsOf index term nowMs data).dataFileName⟩ = some data := h.dataFile
    rw [hdata, Option.bind_some, acceptSnapshotData]
    exact if_pos rfl
  · exact (hmoved _).trans h.dataFile
  · by_cases hs : n = stagingDir index nowMs
    · rw [hs, snapshotAt_stagingDir, snapshotAt_stagingDir]
    · exact (snapshotAt_frame hframe hs hn).1
  · refine (snapshotAt_frame hframe ?_ ?_).2 m hm
    · rintro rfl
      rw [snapshotAt_stagingDir] at hm
      cases hm
    · rintro rfl
      rw [hbefore] at hm
      cases hm

/-! ## Every run -/

/-- What a run may leave: the snapshots that were there, or these and one with the content of the
input. -/
def Leaves (d : SnapshotDisk) (input : Path Bytes) (index term : Nat) (disk : SnapshotDisk) :
    Prop :=
  SameSnapshots d disk ∨ ∃ data nowMs, d.readFile input = some data ∧
    Adds d (finalDir index) (newSnapshot index term nowMs data) data disk

/-- A snapshot with this index and term is in the list. -/
def Lists (index term : Nat) (disk : SnapshotDisk) : Prop :=
  ∃ m ∈ listSnapshots disk, m.lastIncludedIndex = index ∧ m.lastIncludedTerm = term

theorem lastIncludedIndex_finalDir (hindex : index < 2 ^ 64) {m : SnapshotMeta}
    (h : readDirectorySnapshot d.readFile (finalDir index) = some m) :
    m.lastIncludedIndex = index := by
  obtain ⟨content, -, h⟩ := Option.bind_eq_some_iff.mp h
  obtain ⟨fields, hfields, h⟩ := Option.bind_eq_some_iff.mp h
  obtain ⟨data, -, h⟩ := Option.bind_eq_some_iff.mp h
  obtain ⟨fields', -, hmeta⟩ := Option.bind_eq_some_iff.mp hfields
  rw [if_pos (startsWith_finalDir index), drop_finalDir, stoull_formatIndex hindex] at hmeta
  unfold acceptSnapshotData at h
  split at h
  · cases h
    split at hmeta
    · rename_i heq
      cases hmeta
      exact (Option.some.inj heq).symm
    · cases hmeta
  · cases h

section Runs

variable {blocks : Bytes → List Bytes} (hblocks : ∀ content, (blocks content).flatten = content)
  {input : Path Bytes} (hinput : ApartFrom d input) (hfinal : input.top ≠ finalDir index)
  (hindex : index < 2 ^ 64) (hterm : term < 2 ^ 64)

include hblocks hinput hfinal hindex hterm

theorem wp_publish (hnow : nowMs < 2 ^ 64)
    (hnone : readDirectorySnapshot d.readFile (finalDir index) = none) (hd : w.disk = d) :
    (publish blocks input index term nowMs).Wp
      (fun ok w' => Leaves d input index term w'.disk ∧ (ok = true → Lists index term w'.disk))
      (fun w' => Leaves d input index term w'.disk) w := by
  have hleaves : ∀ {disk : SnapshotDisk}, Hidden d index nowMs disk →
      Leaves d input index term disk := fun h => .inl (h.same hnone)
  have hclean : ∀ {w : World Bytes UInt8}, Hidden d index nowMs w.disk →
      (do
        let _ ← removeTree (stagingDir index nowMs)
        return false : SnapshotProg Bool).Wp
        (fun ok w' => Leaves d input index term w'.disk ∧ (ok = true → Lists index term w'.disk))
        (fun w' => Leaves d input index term w'.disk) w := by
    intro w h
    refine wp_bind ((wp_removeStaging h).imp (fun ok w' h' => ?_) fun w' h' => hleaves h')
    exact wp_pure ⟨hleaves h'.1, by simp⟩
  have h : Hidden d index nowMs w.disk := hd ▸ Hidden.refl d index nowMs
  refine wp_orFail ((wp_removeStaging h).imp (fun _ _ => id) fun w' h' => hleaves h')
    (fun w₁ h₁ => ⟨hleaves h₁.1, by simp⟩) fun w₁ h₁ => ?_
  refine wp_stepOrFail (hleaves h₁.1) (fun _ => ⟨hleaves h₁.1, by simp⟩) fun disk₂ script₂ hdisk₂ =>
    ?_
  obtain rfl : w₁.disk.insert (stagingDir index nowMs) (.dir ∅) = disk₂ := by
    simpa [Disk.apply, Disk.makeDir, h₁.2 rfl] using hdisk₂
  have h₂ : Hidden d index nowMs (w₁.disk.insert (stagingDir index nowMs) (.dir ∅)) :=
    h₁.1.step fun name hname => AList.lookup_insert_ne hname
  have hstage : (stage blocks input index term nowMs).Wp _ _
      ⟨w₁.disk.insert (stagingDir index nowMs) (.dir ∅),
        w₁.trace ++ [.makeDir (stagingDir index nowMs)], script₂⟩ :=
    wp_stage hblocks hfinal h₂ (AList.lookup_insert _)
  refine wp_bind (hstage.imp (fun ok w₃ h₃ => ?_) fun w' h' => hleaves h')
  cases ok with
  | false => exact hclean h₃.1
  | true =>
    obtain ⟨data, hcontent, hsnapshot, -⟩ := h₃.2 rfl
    refine wp_bind (wp_perform (hleaves h₃.1) (fun script => ?_) fun disk₄ script₄ hdisk₄ => ?_)
    · exact hclean (w := ⟨w₃.disk, w₃.trace, script⟩) h₃.1
    · have hadds := hsnapshot.adds hnone hindex hterm hnow hdisk₄
      have hnew : input ≠ (newSnapshot index term nowMs data).metaPath ∧
          input ≠ (newSnapshot index term nowMs data).snapshotPath := by
        constructor <;> rintro rfl <;> exact hfinal rfl
      have hlists : ∀ {disk : SnapshotDisk},
          Adds d (finalDir index) (newSnapshot index term nowMs data) data disk →
          Lists index term disk := fun hadds =>
        ⟨_, mem_snapshots_iff.mpr ⟨_, hadds.added⟩, rfl, rfl⟩
      have hleft : ∀ {disk : SnapshotDisk},
          Adds d (finalDir index) (newSnapshot index term nowMs data) data disk →
          Leaves d input index term disk := fun hadds => .inr ⟨data, nowMs, hcontent, hadds⟩
      refine wp_stepOrFail (hleft hadds) (fun _ => ⟨hleft hadds, by simp⟩)
        fun disk₅ script₅ hdisk₅ => ?_
      obtain rfl := Option.some.inj hdisk₅
      refine wp_bind (wp_perform (hleft hadds) (fun _ => ?_) fun disk₆ script₆ hdisk₆ => ?_)
      · exact wp_pure ⟨hleft hadds, fun _ => hlists hadds⟩
      · have hadds' := hadds.remove hinput hnew hdisk₆
        exact wp_pure ⟨hleft hadds', fun _ => hlists hadds'⟩

theorem wp_saveSnapshotFile (hasParent : Bool) (hnow : nowMs < 2 ^ 64) (hd : w.disk = d) :
    (saveSnapshotFile blocks hasParent (some input) index term nowMs).Wp
      (fun ok w' => Leaves d input index term w'.disk ∧ (ok = true → Lists index term w'.disk))
      (fun w' => Leaves d input index term w'.disk) w := by
  have hleaves : ∀ {w : World Bytes UInt8}, w.disk = d → Leaves d input index term w.disk := by
    intro w hd
    exact .inl ⟨fun _ => by rw [hd], fun _ _ _ => by rw [hd]⟩
  -- what follows the sync of the parent directory
  have hrest : ∀ {w : World Bytes UInt8}, w.disk = d → (do
      if !(← perform .syncRoot) then return false
      match ← look (fun d => readDirectorySnapshot d.readFile (finalDir index)) with
      | some existing =>
        if existing.lastIncludedTerm ≠ term then return false
        let _ ← perform (.remove input)
        return true
      | none => publish blocks input index term nowMs : SnapshotProg Bool).Wp
      (fun ok w' => Leaves d input index term w'.disk ∧ (ok = true → Lists index term w'.disk))
      (fun w' => Leaves d input index term w'.disk) w := by
    intro w hd
    refine wp_stepOrFail (hleaves hd) (fun _ => ⟨hleaves hd, by simp⟩) fun disk script hdisk => ?_
    obtain rfl := Option.some.inj hdisk
    refine wp_bind (wp_look ?_)
    cases hread : readDirectorySnapshot w.disk.readFile (finalDir index) with
    | none =>
      exact wp_publish hblocks hinput hfinal hindex hterm hnow (hd ▸ hread) hd
    | some existing =>
      simp only
      split
      · exact wp_pure ⟨hleaves hd, by simp⟩
      · rename_i hsame
        have hlists : ∀ {disk : SnapshotDisk}, SameSnapshots d disk → Lists index term disk := by
          intro disk h
          refine ⟨existing, mem_snapshots_iff.mpr ⟨finalDir index, ?_⟩,
            lastIncludedIndex_finalDir hindex hread, not_not.mp hsame⟩
          rw [h.snapshot, snapshotAt_finalDir, ← hd, hread]
        have hself : SameSnapshots d w.disk := ⟨fun _ => by rw [hd], fun _ _ _ => by rw [hd]⟩
        refine wp_bind (wp_perform (hleaves hd) (fun _ => ?_) fun disk script hdisk => ?_)
        · exact wp_pure ⟨hleaves hd, fun _ => hlists hself⟩
        · have hremoved := hself.remove hinput hdisk
          exact wp_pure ⟨.inl hremoved, fun _ => hlists hremoved⟩
  refine wp_stepOrFail (hleaves hd) (fun _ => ⟨hleaves hd, by simp⟩) fun disk script hdisk => ?_
  obtain rfl := Option.some.inj hdisk
  cases hasParent with
  | false => exact hrest hd
  | true =>
    refine wp_stepOrFail (hleaves hd) (fun _ => ⟨hleaves hd, by simp⟩) fun disk script hdisk => ?_
    obtain rfl := Option.some.inj hdisk
    exact hrest hd

end Runs

/-- Publishing is atomic, for an input that is no file of a listed snapshot and does not lie where
the new one is to be: however a run of `SaveSnapshotFile` goes, and wherever the process stops, the
list has the snapshots it had, or these and one more, with the data of the input. No snapshot is
lost or altered, and a reported success means that the snapshot is in the list. -/
theorem saveSnapshotFile_atomic {blocks : Bytes → List Bytes}
    (hblocks : ∀ content, (blocks content).flatten = content) (hasParent : Bool)
    {input : Option (Path Bytes)}
    (hinput : ∀ path, input = some path → ApartFrom d path ∧ path.top ≠ finalDir index)
    (hindex : index < 2 ^ 64) (hterm : term < 2 ^ 64) (hnow : nowMs < 2 ^ 64)
    {script : List Outcome} {result : Option Bool}
    (hrun : saveSnapshotFile blocks hasParent input index term nowMs ⟨d, [], script⟩ =
      (result, w)) :
    ((published w.disk).Perm (published d) ∨
      ∃ m data, m.lastIncludedIndex = index ∧ m.lastIncludedTerm = term ∧
        input.bind d.readFile = some data ∧
        (published w.disk).Perm ((m, some data) :: published d)) ∧
    (result = some true → Lists index term w.disk) := by
  cases input with
  | none =>
    cases hrun
    exact ⟨.inl (List.Perm.refl _), by simp⟩
  | some path =>
    obtain ⟨hapart, hfinal⟩ := hinput path rfl
    have hspec : (saveSnapshotFile blocks hasParent (some path) index term nowMs).Wp _ _
        ⟨d, [], script⟩ :=
      wp_saveSnapshotFile hblocks hapart hfinal hindex hterm hasParent hnow rfl
    rw [Wp, hrun] at hspec
    have hperm : Leaves d path index term w.disk →
        (published w.disk).Perm (published d) ∨
          ∃ m data, m.lastIncludedIndex = index ∧ m.lastIncludedTerm = term ∧
            d.readFile path = some data ∧
            (published w.disk).Perm ((m, some data) :: published d) := by
      rintro (hsame | ⟨data, created, hcontent, hadds⟩)
      · exact .inl hsame.perm
      · exact .inr ⟨_, data, rfl, rfl, hcontent, hadds.perm⟩
    cases result with
    | none => exact ⟨hperm hspec, by simp⟩
    | some ok => exact ⟨hperm hspec.1, fun hok => hspec.2 (Option.some.inj hok)⟩

/-- A snapshot in the flat layout, an empty directory under the name of snapshot 7, what is left of
an older attempt, and a work file. -/
def sampleDisk : SnapshotDisk :=
  (((((∅ : SnapshotDisk).insert (ascii "old.meta") (.file (toBytes 4 kLegacyMetaMagic ++
    toBytes 4 kLegacyMetaVersion ++ toBytes 8 100 ++ toBytes 8 3 ++ toBytes 8 1))).insert
    (ascii "old.bin") (.file (ascii "three"))).insert (finalDir 7) (.dir ∅)).insert
    (stagingDir 7 1000) (.dir ((∅ : AList fun _ => Bytes).insert kSnapshotDataFileName
      (ascii "sev")))).insert (ascii "work.tmp") (.file (ascii "seven"))

def sampleSave (script : List Outcome) : Option Bool × World Bytes UInt8 :=
  saveSnapshotFile (fun content => [content]) true (some ⟨none, ascii "work.tmp"⟩) 7 2 1000
    ⟨sampleDisk, [], script⟩

theorem sampleSave_eq {script : List Outcome} {result : Option Bool}
    (h : (sampleSave script).1 = result) :
    saveSnapshotFile (fun content => [content]) true (some ⟨none, ascii "work.tmp"⟩) 7 2 1000
      ⟨sampleDisk, [], script⟩ = (result, (sampleSave script).2) := Prod.ext h rfl

/-- Snapshot 7 of term 2 is published beside the flat one. -/
theorem saveSnapshotFile_sample :
    (sampleSave (List.replicate 60 .ok)).1 = some true ∧
      Lists 7 2 (sampleSave (List.replicate 60 .ok)).2.disk := by
  have hok : (sampleSave (List.replicate 60 .ok)).1 = some true := by decide +kernel
  have hapart : ApartFrom sampleDisk ⟨none, ascii "work.tmp"⟩ := by
    show ∀ m ∈ listSnapshots sampleDisk, _
    decide +kernel
  have hinput : ∀ path, some (⟨none, ascii "work.tmp"⟩ : Path Bytes) = some path →
      ApartFrom sampleDisk path ∧ path.top ≠ finalDir 7 := by
    rintro path heq
    obtain rfl := Option.some.inj heq
    exact ⟨hapart, by decide +kernel⟩
  exact ⟨hok, (saveSnapshotFile_atomic (fun content => by simp) true hinput (by norm_num)
    (by norm_num) (by norm_num) (sampleSave_eq hok)).2 rfl⟩

theorem lists_iff : Lists index term disk ↔ ∃ m ∈ disk.keys.filterMap (snapshotAt disk),
    m.lastIncludedIndex = index ∧ m.lastIncludedTerm = term := by
  unfold Lists
  simp only [listSnapshots, listSnapshotsWith, Sorting.Sorter.mem_sort]

/-- A directory as `SaveSnapshotFile` leaves it. -/
def sampleDirectory (index term : Nat) (data : Bytes) : Entry Bytes UInt8 :=
  .dir (((∅ : AList fun _ => Bytes).insert kSnapshotMetaFileName (metaFieldBytes
    ⟨100, index, term, (computeFileChecksum data).toNat, kSnapshotDataFileName⟩).flatten).insert
      kSnapshotDataFileName data)

/-- Snapshot 3, and a data file without a meta file under the name of snapshot 7. -/
def inputDisk : SnapshotDisk :=
  ((∅ : SnapshotDisk).insert (finalDir 3) (sampleDirectory 3 1 (ascii "three"))).insert (finalDir 7)
    (.dir ((∅ : AList fun _ => Bytes).insert kSnapshotDataFileName (ascii "seven")))

/-- The data file of `snapshot_<source>` is saved as a snapshot of term 2. -/
def inputSave (source index : Nat) : Option Bool × World Bytes UInt8 :=
  saveSnapshotFile (fun content => [content]) true
    (some ⟨some (finalDir source), kSnapshotDataFileName⟩) index 2 1000
    ⟨inputDisk, [], List.replicate 60 .ok⟩

/-- The input is removed in the end, be it the data of another snapshot or of the new one. -/
theorem saveSnapshotFile_removes_input :
    Lists 3 1 inputDisk ∧
      ((inputSave 3 8).1 = some true ∧ ¬ Lists 3 1 (inputSave 3 8).2.disk) ∧
      ((inputSave 7 7).1 = some true ∧ ¬ Lists 7 2 (inputSave 7 7).2.disk) := by
  simp only [lists_iff]
  decide +kernel

end FileSnapshotStorage

end CquptRaft
