import CquptRaft.Storage.Publishing

/-!
# What `Load` finds

The meta file that `Save` writes is read back field by field. A log directory with the segments
of a log gives back the records inside the range of the meta file, whatever the order in which it
is listed.
-/

namespace CquptRaft

open Binary Files

/-! ## States that can be stored -/

/-- The indexes of a log follow one another, from any first index on. -/
def Consecutive (log : List LogRecord) : Prop :=
  log.map LogRecord.index = List.range' (FileRaftStorage.firstIndex log) log.length

instance (log : List LogRecord) : Decidable (Consecutive log) :=
  inferInstanceAs (Decidable (_ = _))

/-- The fields are in the ranges of their types: `uint64_t`, `int` and `size_t`. -/
structure PersistentRaftState.InRange (state : PersistentRaftState) : Prop where
  currentTerm : state.currentTerm < 2 ^ 64
  votedFor : -2 ^ 31 ≤ state.votedFor ∧ state.votedFor < 2 ^ 31
  records : ∀ record ∈ state.log, record.index < 2 ^ 64 ∧ record.term < 2 ^ 64
  size : state.log.length < 2 ^ 64

/-- The log is consecutive, and the hard state stays inside it. -/
structure PersistentRaftState.WellFormed (state : PersistentRaftState) : Prop where
  consecutive : Consecutive state.log
  applied : state.lastApplied ≤ state.commitIndex
  commit : state.commitIndex ≤ FileRaftStorage.lastIndex state.log

/-- No command is larger than what `Load` accepts. -/
def PersistentRaftState.Fits (state : PersistentRaftState) : Prop :=
  ∀ record ∈ state.log, record.command.length ≤ kMaxCommandBytes

theorem PersistentRaftState.InRange.storable {state : PersistentRaftState} (h : state.InRange)
    (hfits : state.Fits) : ∀ record ∈ state.log, record.Storable := fun record hrecord =>
  ⟨(h.records record hrecord).1, (h.records record hrecord).2, hfits record hrecord⟩

namespace FileRaftStorage

variable {padding : LogRecord → Nat} {log : List LogRecord} {state : PersistentRaftState}

section

variable (h : Consecutive log)
include h

theorem index_nodup : (log.map LogRecord.index).Nodup := by
  rw [h]
  exact List.nodup_range'

theorem index_getElem {k : Nat} (hk : k < log.length) :
    (log[k]).index = firstIndex log + k := by
  have hget := congrArg (fun l => l[k]?) h
  simpa [hk] using hget

theorem lastIndex_eq (hne : log ≠ []) : lastIndex log + 1 = firstIndex log + log.length := by
  have hlen := List.length_pos_iff.mpr hne
  have hlast := index_getElem h (k := log.length - 1) (by omega)
  rw [lastIndex, List.getLast?_eq_getElem?, List.getElem?_eq_getElem (by omega), Option.map_some,
    Option.getD_some, hlast]
  omega

theorem mem_range {record : LogRecord} (hmem : record ∈ log) :
    firstIndex log ≤ record.index ∧ record.index ≤ lastIndex log := by
  obtain ⟨k, hk, rfl⟩ := List.getElem_of_mem hmem
  have hlast := lastIndex_eq h (List.ne_nil_of_mem hmem)
  rw [index_getElem h hk]
  omega

end

/-! ## The meta file -/

/-- Two's complement in 64 bits, cut to 32 bits, is exact for an `int`. -/
theorem bmod_stored {v : Int} (hlow : -2 ^ 31 ≤ v) (hhigh : v < 2 ^ 31) :
    Int.bmod (v % 2 ^ 64).toNat (2 ^ 32) = v := by
  have hnonneg : 0 ≤ v % 2 ^ 64 := Int.emod_nonneg _ (by norm_num)
  have hmod : v % 2 ^ 64 % 2 ^ 32 = v % 2 ^ 32 := Int.emod_emod_of_dvd _ ⟨2 ^ 32, by norm_num⟩
  rw [Int.toNat_of_nonneg hnonneg, Int.bmod_def]
  norm_num at *
  split <;> omega

theorem voteOf_stored {votedFor : NodeId} (hlow : -2 ^ 31 ≤ votedFor) (hhigh : votedFor < 2 ^ 31) :
    voteOf (votedFor % 2 ^ 64).toNat = votedFor := bmod_stored hlow hhigh

/-- What `WriteMeta` says about a state. -/
def metaOf (state : PersistentRaftState) : Meta :=
  ⟨{ state with log := [] }, firstIndex state.log, lastIndex state.log, state.log.length⟩

theorem readField_toBytes {k n : Nat} (h : n < 256 ^ k) (field : String) (rest : Bytes) :
    readField k field (toBytes k n ++ rest) = .ok (n, rest) := by
  rw [readField, readNat_toBytes h]

theorem readMeta_metaFields (h : state.InRange) (hform : state.WellFormed) :
    readMeta (metaFields state).flatten = .ok (metaOf state) := by
  have hlast : lastIndex state.log < 2 ^ 64 := by
    by_cases hne : state.log = []
    · simp [lastIndex, hne]
    · obtain ⟨record, hrecord, heq⟩ : ∃ record ∈ state.log, lastIndex state.log = record.index :=
        ⟨state.log.getLast hne, List.getLast_mem hne,
          by simp [lastIndex, List.getLast?_eq_some_getLast hne]⟩
      rw [heq]
      exact (h.records record hrecord).1
  have hcommit : state.commitIndex < 2 ^ 64 := hform.commit.trans_lt hlast
  have happlied : state.lastApplied < 2 ^ 64 := hform.applied.trans_lt hcommit
  have hfirst : firstIndex state.log < 2 ^ 64 := by
    by_cases hne : state.log = []
    · simp [firstIndex, hne]
    · have hle := lastIndex_eq hform.consecutive hne
      have hpos := List.length_pos_iff.mpr hne
      omega
  have hvote : (state.votedFor % 2 ^ 64).toNat < 256 ^ 8 := by
    have hlt := Int.emod_lt_of_pos state.votedFor (show (0 : Int) < 2 ^ 64 by decide)
    omega
  have hvoted := voteOf_stored h.votedFor.1 h.votedFor.2
  have hcount : state.log = [] ∨ ¬ (lastIndex state.log < firstIndex state.log ∨
      (lastIndex state.log - firstIndex state.log + 1) % 2 ^ 64 ≠ state.log.length) := by
    by_cases hne : state.log = []
    · exact .inl hne
    · have hle := lastIndex_eq hform.consecutive hne
      have hpos := List.length_pos_iff.mpr hne
      have hsize := h.size
      exact .inr (by omega)
  simp only [metaFields, List.flatten_cons, List.flatten_nil, readMeta, voteBytes,
    readField_toBytes (k := 4) (n := kMetaMagic) (by decide),
    readField_toBytes (k := 4) (n := kMetaVersion) (by decide),
    readField_toBytes (k := 8) h.currentTerm, readField_toBytes (k := 8) hvote,
    readField_toBytes (k := 8) hcommit, readField_toBytes (k := 8) happlied,
    readField_toBytes (k := 8) hfirst, readField_toBytes (k := 8) hlast,
    readField_toBytes (k := 8) h.size, Except.bind, bind]
  rw [if_neg (not_not.mpr rfl), if_neg (not_not.mpr rfl), hvoted]
  rcases hcount with hnil | hrange
  · simp [hnil, firstIndex, lastIndex, metaOf]
  · rw [if_neg hrange]
    split
    · rename_i hzero
      rw [if_neg (by simp [List.length_eq_zero_iff.mp hzero, firstIndex, lastIndex])]
      rfl
    · rfl

/-! ## The segments -/

theorem index_pairwise (h : Consecutive log) :
    log.Pairwise fun a b => a.index < b.index := by
  rw [← List.pairwise_map (f := LogRecord.index), h]
  exact List.pairwise_lt_range'

theorem firstIndex_mem {chunk : List LogRecord} (h : chunk ≠ []) :
    ∃ record ∈ chunk, firstIndex chunk = record.index := by
  cases chunk with
  | nil => exact absurd rfl h
  | cons record rest => exact ⟨record, List.mem_cons_self, rfl⟩

/-- Segments start in the order of their records. -/
theorem segments_pairwise (h : Consecutive log) :
    (segments log).Pairwise fun a b => firstIndex a < firstIndex b := by
  have hpairwise := index_pairwise h
  rw [← flatten_segments log, List.pairwise_flatten] at hpairwise
  refine hpairwise.2.imp_of_mem fun {a b} ha hb hlt => ?_
  obtain ⟨x, hx, hfirst⟩ := firstIndex_mem (segments_ne_nil log a ha)
  obtain ⟨y, hy, hfirst'⟩ := firstIndex_mem (segments_ne_nil log b hb)
  rw [hfirst, hfirst']
  exact hlt x hx y hy

theorem mem_of_mem_segments {chunk : List LogRecord} (hchunk : chunk ∈ segments log)
    {record : LogRecord} (hrecord : record ∈ chunk) : record ∈ log := by
  rw [← flatten_segments log]
  exact List.mem_flatten_of_mem hchunk hrecord

variable {dir : DataDir}

/-- The listing of the directory, sorted, is the order of the segments. -/
theorem segmentFiles_eq (hlog : HoldsSegments padding log (dir.lookup kLogDirName))
    (h : Consecutive log) (hlt : ∀ record ∈ log, record.index < 2 ^ 64) :
    segmentFiles dir = (segments log).map fun chunk =>
      (firstIndex chunk, segmentFileName (firstIndex chunk)) := by
  obtain ⟨c, hlookup, hentries⟩ := hlog
  have hkeys : c.keys = ((segments log).map fun chunk =>
      segmentFileName (firstIndex chunk)).reverse := by
    rw [AList.keys, hentries]
    simp [List.keys, segmentFile, Function.comp_def]
  have hparse : (c.keys.filterMap fun name =>
      (parseSegmentStartIndex name).map fun start => (start, name)) =
      ((segments log).map fun chunk =>
        (firstIndex chunk, segmentFileName (firstIndex chunk))).reverse := by
    rw [hkeys, List.filterMap_reverse, List.filterMap_map]
    congr 1
    rw [← List.filterMap_eq_map]
    refine List.filterMap_congr fun chunk hchunk => ?_
    obtain ⟨record, hrecord, hfirst⟩ := firstIndex_mem (segments_ne_nil log chunk hchunk)
    have hindex := hlt record (mem_of_mem_segments hchunk hrecord)
    simp [Function.comp_apply, hfirst, parseSegmentStartIndex_segmentFileName hindex]
  have hlisted : listedSegments dir = ((segments log).map fun chunk =>
      (firstIndex chunk, segmentFileName (firstIndex chunk))).reverse := by
    rw [listedSegments, hlookup]
    exact hparse
  generalize hfiles : ((segments log).map fun chunk =>
    (firstIndex chunk, segmentFileName (firstIndex chunk))) = files at hlisted
  have hsorted : files.Pairwise fun a b => byStartIndex a b = true := by
    rw [← hfiles, List.pairwise_map]
    exact (segments_pairwise h).imp fun hlt => decide_eq_true (Nat.le_of_lt hlt)
  have hperm : (segmentFiles dir).Perm files := by
    refine (stableOrder.perm _).trans ?_
    rw [hlisted]
    exact List.reverse_perm files
  refine List.Perm.eq_of_pairwise (fun a b ha hb hab hba => ?_) (stableOrder.sorted _) hsorted hperm
  -- the start index decides the name
  rw [hperm.mem_iff, ← hfiles] at ha
  rw [← hfiles] at hb
  obtain ⟨x, -, rfl⟩ := List.mem_map.mp ha
  obtain ⟨y, -, rfl⟩ := List.mem_map.mp hb
  have hsame : firstIndex x = firstIndex y :=
    Nat.le_antisymm (of_decide_eq_true hab) (of_decide_eq_true hba)
  rw [hsame]

/-- Reading the segments one after the other. -/
theorem foldl_scanSegment (firstLogIndex lastLogIndex : Nat) {chunks : List (List LogRecord)}
    (hread : ∀ chunk ∈ chunks, dir.readFile ⟨some kLogDirName, segmentFileName (firstIndex chunk)⟩ =
      some (chunk.flatMap (encodeEntry padding)))
    (hstorable : ∀ chunk ∈ chunks, ∀ record ∈ chunk, record.Storable) (records : List LogRecord) :
    (chunks.map fun chunk => segmentFileName (firstIndex chunk)).foldl
        (scanSegment firstLogIndex lastLogIndex) ⟨dir, records, false, false⟩ =
      ⟨dir, records ++ chunks.flatten.filter fun record =>
        firstLogIndex ≤ record.index ∧ record.index ≤ lastLogIndex, false, false⟩ := by
  induction chunks generalizing records with
  | nil => simp
  | cons chunk chunks ih =>
    have hfile := hread chunk List.mem_cons_self
    have hscan : scanSegment firstLogIndex lastLogIndex ⟨dir, records, false, false⟩
        (segmentFileName (firstIndex chunk)) = ⟨dir, records ++ chunk.filter fun record =>
          firstLogIndex ≤ record.index ∧ record.index ≤ lastLogIndex, false, false⟩ := by
      simp [scanSegment, hfile, readSegmentFile_encode (hstorable chunk List.mem_cons_self)]
    rw [List.map_cons, List.foldl_cons, hscan,
      ih (fun c hc => hread c (List.mem_cons_of_mem _ hc))
        (fun c hc => hstorable c (List.mem_cons_of_mem _ hc)), List.append_assoc,
      List.flatten_cons, List.filter_append]

theorem readFile_segment (hlog : HoldsSegments padding log (dir.lookup kLogDirName))
    {chunk : List LogRecord} (hchunk : chunk ∈ segments log) :
    dir.readFile ⟨some kLogDirName, segmentFileName (firstIndex chunk)⟩ =
      some (chunk.flatMap (encodeEntry padding)) := by
  obtain ⟨c, hlookup, hentries⟩ := hlog
  simp only [Disk.readFile, hlookup]
  rw [← Option.mem_def, AList.mem_lookup_iff, hentries, List.map_reverse, List.mem_reverse,
    List.map_map]
  exact List.mem_map_of_mem hchunk

/-- `LoadSegments` collects the records inside the range of the meta file. -/
theorem loadSegments_segments (hlog : HoldsSegments padding log (dir.lookup kLogDirName))
    (h : Consecutive log) (hstorable : ∀ record ∈ log, record.Storable) {m : Meta}
    (hcount : m.logCount ≠ 0) :
    loadSegments dir m = (checkRecords m ⟨dir, log.filter fun record =>
      m.firstLogIndex ≤ record.index ∧ record.index ≤ m.lastLogIndex, false, false⟩, dir) := by
  have hfiles := segmentFiles_eq hlog h fun record hrecord => (hstorable record hrecord).index
  have hscan := foldl_scanSegment m.firstLogIndex m.lastLogIndex
    (fun chunk hchunk => readFile_segment hlog hchunk)
    (fun chunk hchunk record hrecord => hstorable record (mem_of_mem_segments hchunk hrecord)) []
  have hexists : pathExists dir kLogDirName = true := by
    obtain ⟨c, hlookup, -⟩ := hlog
    simp [pathExists, hlookup]
  have hnames : (segmentFiles dir).map Prod.snd =
      (segments log).map fun chunk => segmentFileName (firstIndex chunk) := by
    rw [hfiles, List.map_map]
    rfl
  rw [segmentFiles] at hnames
  rw [loadSegments, loadSegmentsWith_scan hcount hexists rfl, hnames, hscan, List.nil_append,
    flatten_segments]

/-! ## `Load` behind a published log -/

theorem firstGap_eq_none {records : List LogRecord}
    (h : records.IsChain fun a b => b.index = (a.index + 1) % 2 ^ 64) :
    firstGap records = none := by
  induction records with
  | nil => rfl
  | cons a rest ih =>
    cases rest with
    | nil => rfl
    | cons b rest =>
      rw [List.isChain_cons_cons] at h
      rw [firstGap, if_neg (not_not.mpr h.1), ih h.2]

theorem firstGap_of_consecutive (h : Consecutive log)
    (hlt : ∀ record ∈ log, record.index < 2 ^ 64) : firstGap log = none := by
  refine firstGap_eq_none (List.isChain_iff_getElem.mpr fun k hk => ?_)
  have hnext := index_getElem h hk
  have hbound := hlt _ (List.getElem_mem hk)
  rw [hnext] at hbound ⊢
  rw [index_getElem h (by omega), Nat.mod_eq_of_lt (by omega)]
  omega

/-- Records that are the whole range of the meta file pass the checks. -/
theorem checkRecords_ok (h : Consecutive log) (hlt : ∀ record ∈ log, record.index < 2 ^ 64)
    {m : Meta} (hcount : log.length = m.logCount) (hfirst : firstIndex log = m.firstLogIndex)
    (hlast : lastIndex log = m.lastLogIndex) (dir : DataDir) :
    checkRecords m ⟨dir, log, false, false⟩ = .ok log := by
  rw [checkRecords, if_neg (by simp [hcount])]
  cases log with
  | nil => rfl
  | cons record rest =>
    have hfront : record.index = m.firstLogIndex := hfirst
    have hgap := firstGap_of_consecutive h hlt
    simp only [lastIndex, List.getLast?_cons, Option.map_some, Option.getD_some] at hlast
    simp [List.getLast?_cons, hfront, hlast, hgap]

/-- Records that pass the checks have the count and the first index of the meta file. -/
theorem checkRecords_inv {m : Meta} {records log : List LogRecord} (hcount : m.logCount ≠ 0)
    (h : checkRecords m ⟨dir, records, false, false⟩ = .ok log) :
    log = records ∧ records.length = m.logCount ∧ firstIndex records = m.firstLogIndex := by
  unfold checkRecords at h
  split at h
  · cases h
  · rename_i hlen
    have hlen' : records.length = m.logCount := by
      by_contra hne
      exact hlen ⟨hne, by simp [acceptedTruncatedPrefix]⟩
    cases records with
    | nil => exact absurd hlen'.symm hcount
    | cons front rest =>
      simp only [List.head?_cons, List.getLast?_cons] at h
      split at h
      · cases h
      · rename_i hbounds
        split at h
        · cases h
        · cases h
          refine ⟨rfl, hlen', ?_⟩
          by_contra hfirst
          exact hbounds (.inl hfirst)

theorem clampRecoveredHardState_eq (h : state.WellFormed) :
    clampRecoveredHardState state = state := by
  have hcommit := h.commit
  have happlied := h.applied
  unfold lastIndex at hcommit
  unfold clampRecoveredHardState
  cases hlast : state.log.getLast? with
  | none =>
    simp only [hlast, Option.map_none, Option.getD_none] at hcommit
    simp only [min_eq_left hcommit, min_eq_left (happlied.trans hcommit), min_eq_left happlied]
  | some back =>
    simp only [hlast, Option.map_some, Option.getD_some] at hcommit
    simp only [min_eq_left hcommit, min_eq_left (happlied.trans hcommit), min_eq_left happlied]

/-- A published state is loaded as it was saved. -/
theorem load_published (hrange : state.InRange) (hform : state.WellFormed) (hfits : state.Fits)
    (hlog : HoldsSegments padding state.log (dir.lookup kLogDirName))
    (hmeta : dir.lookup kMetaFileName = some (.file (metaFields state).flatten)) :
    load dir = (.ok (some state), dir) := by
  have hexists : pathExists dir kMetaFileName = true := by
    simp [pathExists, hmeta]
  have hcontent : fileContent dir kMetaFileName = (metaFields state).flatten := by
    simp [fileContent, Disk.readFile, topLevel, hmeta]
  have hloaded : loadSegments dir (metaOf state) = (.ok state.log, dir) := by
    by_cases hne : state.log = []
    · rw [hne]
      exact loadSegmentsWith_empty (by simp [metaOf, hne])
    · have hcount : (metaOf state).logCount ≠ 0 := by simpa [metaOf] using hne
      have hall : (state.log.filter fun record => (metaOf state).firstLogIndex ≤ record.index ∧
          record.index ≤ (metaOf state).lastLogIndex) = state.log :=
        List.filter_eq_self.mpr fun record hrecord =>
          decide_eq_true (mem_range hform.consecutive hrecord)
      rw [loadSegments_segments hlog hform.consecutive (hrange.storable hfits) hcount, hall,
        checkRecords_ok hform.consecutive (fun r hr => (hrange.records r hr).1) rfl rfl rfl]
  have hstate : clampRecoveredHardState { (metaOf state).state with log := state.log } = state :=
    clampRecoveredHardState_eq hform
  have hread : readMeta (fileContent dir kMetaFileName) = .ok (metaOf state) := by
    rw [hcontent]
    exact readMeta_metaFields hrange hform
  rw [loadSegments] at hloaded
  rw [load, loadWith_of_meta hexists hread, hloaded, Except.map, hstate]

end FileRaftStorage

end CquptRaft
