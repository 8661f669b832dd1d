import CquptRaft.Storage.SnapshotFiles
import CquptRaft.Theory.Sorting

/-!
# Listing the snapshots

`ListSnapshots` looks at every name of the snapshot directory. A directory `snapshot_<index>` is a
snapshot when its meta file and its data file fit together, and a pair of files `<name>.meta` and
`<name>.bin` in the older flat layout is one when the meta file has the right header. Staging
directories are passed over. The list is sorted by index and then by time, the newest first. Which
of two snapshots that agree in both comes first is left to the sorting routine. Two pairs of files
can agree, two directories that `SaveSnapshotFile` has published cannot.
-/

namespace CquptRaft

open Binary Files Sorting

abbrev SnapshotDisk := Disk Bytes UInt8

namespace FileSnapshotStorage

def kLegacyMetaMagic : Nat := 0x53504D31

def kLegacyMetaVersion : Nat := 1

/-! ## The flat layout -/

/-- The stem of a name with the extension `.meta`. A name that is nothing else has no extension. -/
def legacyStem (name : Bytes) : Option Bytes :=
  if 5 < name.length ∧ name.drop (name.length - 5) = ascii ".meta" then
    some (name.take (name.length - 5))
  else none

/-- Created, index and term. -/
def readLegacyFields (content : Bytes) : Option (Nat × Nat × Nat) := do
  let (magic, bytes) ← readNat 4 content
  let (version, bytes) ← readNat 4 bytes
  let (createdUnixMs, bytes) ← readNat 8 bytes
  let (lastIncludedIndex, bytes) ← readNat 8 bytes
  let (lastIncludedTerm, _) ← readNat 8 bytes
  if magic ≠ kLegacyMetaMagic ∨ version ≠ kLegacyMetaVersion then none
  else some (createdUnixMs, lastIncludedIndex, lastIncludedTerm)

/-- These snapshots have no checksum. -/
def readLegacyFlatSnapshot (d : SnapshotDisk) (name stem content : Bytes) :
    Option SnapshotMeta := do
  let (createdUnixMs, lastIncludedIndex, lastIncludedTerm) ← readLegacyFields content
  if (d.lookup (stem ++ ascii ".bin")).isSome then
    some ⟨[], ⟨none, stem ++ ascii ".bin"⟩, ⟨none, name⟩, lastIncludedIndex, lastIncludedTerm,
      createdUnixMs, 0⟩
  else none

/-! ## The list -/

/-- What a name of the snapshot directory stands for. -/
def snapshotAt (d : SnapshotDisk) (name : Bytes) : Option SnapshotMeta :=
  match d.lookup name with
  | some (.dir _) =>
    if startsWith name kSnapshotStagingPrefix then none
    else if !startsWith name kSnapshotPrefix then none
    else readDirectorySnapshot d.readFile name
  | some (.file content) =>
    match legacyStem name with
    | some stem => readLegacyFlatSnapshot d name stem content
    | none => none
  | none => none

/-- The order of the list. -/
def newerFirst (a b : SnapshotMeta) : Bool :=
  b.lastIncludedIndex < a.lastIncludedIndex ∨
    b.lastIncludedIndex = a.lastIncludedIndex ∧ b.createdUnixMs ≤ a.createdUnixMs

theorem newerFirst_trans (a b c : SnapshotMeta) (hab : newerFirst a b = true)
    (hbc : newerFirst b c = true) : newerFirst a c = true := by
  simp only [newerFirst, decide_eq_true_eq] at hab hbc ⊢
  omega

theorem newerFirst_total (a b : SnapshotMeta) : (newerFirst a b || newerFirst b a) = true := by
  simp only [newerFirst, Bool.or_eq_true, decide_eq_true_eq]
  omega

section Order

variable (order : Sorter newerFirst)

/-- `order` is what `std::sort` does. -/
def listSnapshotsWith (d : SnapshotDisk) : List SnapshotMeta :=
  order.sort (d.keys.filterMap (snapshotAt d))

def loadLatestValidSnapshotWith (d : SnapshotDisk) : Option SnapshotMeta :=
  (listSnapshotsWith order d).head?

end Order

/-- With this order the listing of the directory decides between snapshots that agree. -/
def stableOrder : Sorter newerFirst := .stable newerFirst_trans newerFirst_total

def listSnapshots (d : SnapshotDisk) : List SnapshotMeta := listSnapshotsWith stableOrder d

def loadLatestValidSnapshot (d : SnapshotDisk) : Option SnapshotMeta := (listSnapshots d).head?

theorem listSnapshots_sorted (d : SnapshotDisk) :
    (listSnapshots d).Pairwise fun a b => newerFirst a b = true := stableOrder.sorted _

variable {d d' : SnapshotDisk} {name : Bytes} {m : SnapshotMeta}

theorem mem_keys_of_snapshotAt (h : snapshotAt d name = some m) : name ∈ d.keys := by
  rw [← AList.mem_keys, ← AList.lookup_isSome]
  unfold snapshotAt at h
  cases hlookup : d.lookup name with
  | none => simp [hlookup] at h
  | some entry => rfl

/-- The list has what the names stand for. -/
theorem mem_snapshots_iff : m ∈ listSnapshots d ↔ ∃ name, snapshotAt d name = some m := by
  rw [listSnapshots, listSnapshotsWith, Sorter.mem_sort, List.mem_filterMap]
  constructor
  · rintro ⟨name, -, h⟩
    exact ⟨name, h⟩
  · rintro ⟨name, h⟩
    exact ⟨name, mem_keys_of_snapshotAt h, h⟩

theorem listSnapshotsWith_perm (order : Sorter newerFirst) (d : SnapshotDisk) :
    (listSnapshotsWith order d).Perm (listSnapshots d) :=
  (order.perm _).trans (stableOrder.perm _).symm

/-! ## What a snapshot depends on -/

/-- Where the files of a snapshot are. -/
theorem readDirectorySnapshot_paths {read : Path Bytes → Option Bytes}
    (h : readDirectorySnapshot read name = some m) :
    m.snapshotDir = name ∧ m.metaPath = ⟨some name, kSnapshotMetaFileName⟩ ∧
      m.snapshotPath.dir = some name := by
  obtain ⟨content, -, h⟩ := Option.bind_eq_some_iff.mp h
  obtain ⟨fields, -, h⟩ := Option.bind_eq_some_iff.mp h
  obtain ⟨data, -, h⟩ := Option.bind_eq_some_iff.mp h
  unfold acceptSnapshotData at h
  split at h
  · cases h
    exact ⟨rfl, rfl, rfl⟩
  · cases h

theorem readLegacyFlatSnapshot_paths {stem content : Bytes}
    (h : readLegacyFlatSnapshot d name stem content = some m) :
    m.snapshotDir = [] ∧ m.metaPath = ⟨none, name⟩ ∧
      m.snapshotPath = ⟨none, stem ++ ascii ".bin"⟩ := by
  obtain ⟨⟨createdUnixMs, lastIncludedIndex, lastIncludedTerm⟩, -, h⟩ :=
    Option.bind_eq_some_iff.mp h
  simp only at h
  split at h
  · cases h
    exact ⟨rfl, rfl, rfl⟩
  · cases h

/-- A snapshot is a directory, or a pair of files. -/
theorem snapshotAt_cases (h : snapshotAt d name = some m) :
    (∃ files, d.lookup name = some (.dir files) ∧ startsWith name kSnapshotPrefix = true ∧
        readDirectorySnapshot d.readFile name = some m) ∨
      ∃ content stem, d.lookup name = some (.file content) ∧ legacyStem name = some stem ∧
        readLegacyFlatSnapshot d name stem content = some m := by
  unfold snapshotAt at h
  split at h
  · rename_i files hfiles
    split at h
    · cases h
    · split at h
      · cases h
      · rename_i hstart
        exact .inl ⟨files, hfiles, by simpa using hstart, h⟩
  · rename_i content hcontent
    split at h
    · rename_i stem hstem
      exact .inr ⟨content, stem, hcontent, hstem, h⟩
    · cases h
  · cases h

/-- A snapshot belongs to one name. -/
theorem snapshotAt_top (h : snapshotAt d name = some m) : m.metaPath.top = name := by
  obtain ⟨files, -, -, hread⟩ | ⟨content, stem, -, -, hread⟩ := snapshotAt_cases h
  · rw [(readDirectorySnapshot_paths hread).2.1]
    rfl
  · rw [(readLegacyFlatSnapshot_paths hread).2.1]
    rfl

theorem filterMap_snapshotAt_nodup (d : SnapshotDisk) :
    (d.keys.filterMap (snapshotAt d)).Nodup := by
  refine List.Nodup.filterMap (fun a b m ha hb => ?_) d.keys_nodup
  rw [← snapshotAt_top ha, ← snapshotAt_top hb]

theorem listSnapshots_nodup (d : SnapshotDisk) : (listSnapshots d).Nodup :=
  (stableOrder.perm _).nodup_iff.mpr (filterMap_snapshotAt_nodup d)

/-- A directory is read by its own files. -/
theorem readFile_eq_of_lookup {dir : Bytes} (h : d'.lookup dir = d.lookup dir) (file : Bytes) :
    d'.readFile ⟨some dir, file⟩ = d.readFile ⟨some dir, file⟩ := by
  simp only [Disk.readFile, h]

theorem readDirectorySnapshot_congr {read read' : Path Bytes → Option Bytes}
    (h : ∀ file, read' ⟨some name, file⟩ = read ⟨some name, file⟩) :
    readDirectorySnapshot read' name = readDirectorySnapshot read name := by
  simp only [readDirectorySnapshot, h]

/-- A directory with fewer files is a snapshot only when it was one before. -/
theorem readDirectorySnapshot_mono {read read' : Path Bytes → Option Bytes}
    (hfewer : ∀ file content, read' ⟨some name, file⟩ = some content →
      read ⟨some name, file⟩ = some content)
    (h : readDirectorySnapshot read' name = some m) : readDirectorySnapshot read name = some m := by
  obtain ⟨content, hcontent, h⟩ := Option.bind_eq_some_iff.mp h
  obtain ⟨fields, hfields, h⟩ := Option.bind_eq_some_iff.mp h
  obtain ⟨data, hdata, h⟩ := Option.bind_eq_some_iff.mp h
  refine Option.bind_eq_some_iff.mpr ⟨content, hfewer _ _ hcontent, ?_⟩
  refine Option.bind_eq_some_iff.mpr ⟨fields, hfields, ?_⟩
  exact Option.bind_eq_some_iff.mpr ⟨data, hfewer _ _ hdata, h⟩

theorem snapshotAt_congr (hlookup : d'.lookup name = d.lookup name)
    (hdata : ∀ stem, legacyStem name = some stem →
      (d'.lookup (stem ++ ascii ".bin")).isSome = (d.lookup (stem ++ ascii ".bin")).isSome) :
    snapshotAt d' name = snapshotAt d name := by
  unfold snapshotAt
  rw [hlookup, readDirectorySnapshot_congr (readFile_eq_of_lookup hlookup)]
  cases d.lookup name with
  | none => rfl
  | some entry =>
    cases entry with
    | dir files => rfl
    | file content =>
      cases hstem : legacyStem name with
      | none => rfl
      | some stem => simp only [readLegacyFlatSnapshot, hdata stem hstem]

/-! ## Removing files -/

section Remove

variable {path : Path Bytes}

theorem isSome_of_remove (h : d.remove path = some d') (hsome : (d'.lookup name).isSome = true) :
    (d.lookup name).isSome = true := by
  obtain ⟨hfile, hdir⟩ := Disk.lookup_of_remove h (n := name)
  cases hlookup : d'.lookup name with
  | none => simp [hlookup] at hsome
  | some entry =>
    cases entry with
    | file content => rw [hfile content hlookup]; rfl
    | dir files =>
      obtain ⟨files', hfiles'⟩ := hdir files hlookup
      rw [hfiles']
      rfl

/-- A removal makes no snapshot. -/
theorem snapshotAt_of_remove (h : d.remove path = some d') (hm : snapshotAt d' name = some m) :
    snapshotAt d name = some m := by
  have hfewer : ∀ p content, d'.readFile p = some content → d.readFile p = some content := by
    intro p content hread
    rw [Disk.readFile_remove h] at hread
    split at hread
    · cases hread
    · exact hread
  obtain ⟨hfile, hdir⟩ := Disk.lookup_of_remove h (n := name)
  unfold snapshotAt at hm ⊢
  cases hlookup : d'.lookup name with
  | none => simp [hlookup] at hm
  | some entry =>
    cases entry with
    | dir files' =>
      obtain ⟨files, hfiles⟩ := hdir files' hlookup
      simp only [hlookup] at hm
      simp only [hfiles]
      split at hm
      · cases hm
      · rename_i hstaging
        split at hm
        · cases hm
        · rename_i hstart
          rw [if_neg hstaging, if_neg hstart]
          exact readDirectorySnapshot_mono (fun file content => hfewer _ content) hm
    | file content =>
      simp only [hlookup] at hm
      simp only [hfile content hlookup]
      cases hstem : legacyStem name with
      | none => simp [hstem] at hm
      | some stem =>
        simp only [hstem] at hm ⊢
        obtain ⟨⟨createdUnixMs, lastIncludedIndex, lastIncludedTerm⟩, hfields, hm⟩ :=
          Option.bind_eq_some_iff.mp hm
        simp only at hm
        split at hm
        · rename_i hdata
          refine Option.bind_eq_some_iff.mpr ⟨_, hfields, ?_⟩
          simp only
          rw [if_pos (isSome_of_remove h hdata), hm]
        · cases hm

/-- The files that `ReadDirectorySnapshot` looks at. -/
theorem readDirectorySnapshot_of_reads {read read' : Path Bytes → Option Bytes}
    (h : readDirectorySnapshot read name = some m) (hmeta : read' m.metaPath = read m.metaPath)
    (hdata : read' m.snapshotPath = read m.snapshotPath) :
    readDirectorySnapshot read' name = some m := by
  obtain ⟨content, hcontent, h⟩ := Option.bind_eq_some_iff.mp h
  obtain ⟨fields, hfields, h⟩ := Option.bind_eq_some_iff.mp h
  obtain ⟨data, hread, h⟩ := Option.bind_eq_some_iff.mp h
  have haccepted := h
  unfold acceptSnapshotData at haccepted
  split at haccepted
  · cases haccepted
    refine Option.bind_eq_some_iff.mpr ⟨content, hmeta.trans hcontent, ?_⟩
    refine Option.bind_eq_some_iff.mpr ⟨fields, hfields, ?_⟩
    exact Option.bind_eq_some_iff.mpr ⟨data, hdata.trans hread, h⟩
  · cases haccepted

theorem readFile_metaPath {read : Path Bytes → Option Bytes}
    (h : readDirectorySnapshot read name = some m) : (read m.metaPath).isSome = true := by
  rw [(readDirectorySnapshot_paths h).2.1]
  obtain ⟨content, hcontent, -⟩ := Option.bind_eq_some_iff.mp h
  rw [hcontent]
  rfl

/-- The directory of a snapshot is not empty, so it is not removed in one step. -/
theorem remove_ne_name (h : d.remove path = some d') (hm : snapshotAt d name = some m)
    (hmeta : path ≠ m.metaPath) : path ≠ ⟨none, name⟩ := by
  rintro rfl
  obtain ⟨files, hfiles, -, hread⟩ | ⟨content, stem, -, -, hread⟩ := snapshotAt_cases hm
  · have hsome := readFile_metaPath hread
    rw [(readDirectorySnapshot_paths hread).2.1] at hsome
    simp only [Disk.readFile, hfiles] at hsome
    rcases Disk.remove_cases h with ⟨-, -, hnone⟩ | ⟨-, -, hempty⟩ | ⟨dir, -, hdir, -⟩
    · simp [hnone rfl] at hfiles
    · simp [hempty files hfiles] at hsome
    · cases hdir
  · exact hmeta (readLegacyFlatSnapshot_paths hread).2.1.symm

/-- A snapshot is there as long as its files are. -/
theorem snapshotAt_remove (h : d.remove path = some d') (hm : snapshotAt d name = some m)
    (hmeta : path ≠ m.metaPath) (hdata : path ≠ m.snapshotPath) :
    snapshotAt d' name = some m := by
  have hname := remove_ne_name h hm hmeta
  have hread : ∀ p, path ≠ p → d'.readFile p = d.readFile p := fun p hp => by
    rw [Disk.readFile_remove h, if_neg hp.symm]
  obtain ⟨hfile, hdir⟩ := Disk.lookup_remove_kind h hname
  unfold snapshotAt at hm ⊢
  cases hlookup : d.lookup name with
  | none => simp [hlookup] at hm
  | some entry =>
    cases entry with
    | dir files =>
      obtain ⟨files', hfiles'⟩ := hdir files hlookup
      simp only [hlookup] at hm
      simp only [hfiles']
      split at hm
      · cases hm
      · rename_i hstaging
        split at hm
        · cases hm
        · rename_i hstart
          rw [if_neg hstaging, if_neg hstart]
          exact readDirectorySnapshot_of_reads hm (hread _ hmeta) (hread _ hdata)
    | file content =>
      simp only [hlookup] at hm
      simp only [hfile content hlookup]
      cases hstem : legacyStem name with
      | none => simp [hstem] at hm
      | some stem =>
        simp only [hstem] at hm ⊢
        have hpath := (readLegacyFlatSnapshot_paths hm).2.2
        obtain ⟨fields, hfields, hm⟩ := Option.bind_eq_some_iff.mp hm
        obtain ⟨createdUnixMs, lastIncludedIndex, lastIncludedTerm⟩ := fields
        simp only at hm
        split at hm
        · rename_i hsome
          have hkind := Disk.lookup_remove_kind h (hpath ▸ hdata)
          have hsome' : (d'.lookup (stem ++ ascii ".bin")).isSome = true := by
            cases hbin : d.lookup (stem ++ ascii ".bin") with
            | none => simp [hbin] at hsome
            | some entry =>
              cases entry with
              | file content => rw [hkind.1 content hbin]; rfl
              | dir files =>
                obtain ⟨files', hfiles'⟩ := hkind.2 files hbin
                rw [hfiles']
                rfl
          refine Option.bind_eq_some_iff.mpr ⟨_, hfields, ?_⟩
          simp only
          rw [if_pos hsome', hm]
        · cases hm

theorem snapshotAt_remove_eq (h : d.remove path = some d')
    (hapart : ∀ m, snapshotAt d name = some m → path ≠ m.metaPath ∧ path ≠ m.snapshotPath) :
    snapshotAt d' name = snapshotAt d name := by
  cases hm : snapshotAt d name with
  | some m => exact snapshotAt_remove h hm (hapart m hm).1 (hapart m hm).2
  | none =>
    rw [Option.eq_none_iff_forall_not_mem]
    intro m hm'
    rw [snapshotAt_of_remove h hm'] at hm
    cases hm

end Remove

end FileSnapshotStorage

end CquptRaft
