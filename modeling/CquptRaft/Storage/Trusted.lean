import CquptRaft.Storage.Scan
import CquptRaft.Storage.RoundTrip

/-!
# What `Load` trusts

The bytes of the data directory are arbitrary. A meta file is accepted only when its range has as
many indexes as it counts, and the records inside the range are accepted only when they follow one
another from the first index on. The indexes are 64 bits wide, but inside the range of an accepted
meta file they do not wrap around.
-/

namespace CquptRaft

open Binary Files

theorem bind_eq_ok {ε α β : Type} {x : Except ε α} {f : α → Except ε β} {b : β} :
    (x >>= f) = .ok b ↔ ∃ a, x = .ok a ∧ f a = .ok b := by
  cases x <;> simp [bind, Except.bind]

namespace FileRaftStorage

/-! ## The meta file -/

theorem readField_eq_ok {k n : Nat} {field : String} {bytes rest : Bytes} :
    readField k field bytes = .ok (n, rest) ↔ bytes = toBytes k n ++ rest ∧ n < 256 ^ k := by
  rw [← readNat_eq_some_iff, readField]
  split <;> simp_all

/-- An accepted meta file: the range has as many indexes as the file counts, and all of them fit
into 64 bits. -/
structure Meta.Valid (m : Meta) : Prop where
  lastLogIndex : m.lastLogIndex < 2 ^ 64
  logCount : m.logCount < 2 ^ 64
  range : m.logCount ≠ 0 → m.firstLogIndex + m.logCount = m.lastLogIndex + 1
  log : m.state.log = []

theorem readMeta_eq_ok {content : Bytes} {m : Meta} (h : readMeta content = .ok m) : m.Valid := by
  obtain ⟨⟨magic, _⟩, -, h⟩ := bind_eq_ok.mp h
  obtain ⟨⟨version, _⟩, -, h⟩ := bind_eq_ok.mp h
  obtain ⟨⟨currentTerm, _⟩, -, h⟩ := bind_eq_ok.mp h
  obtain ⟨⟨votedFor, _⟩, -, h⟩ := bind_eq_ok.mp h
  obtain ⟨⟨commitIndex, _⟩, -, h⟩ := bind_eq_ok.mp h
  obtain ⟨⟨lastApplied, _⟩, -, h⟩ := bind_eq_ok.mp h
  obtain ⟨⟨firstLogIndex, _⟩, -, h⟩ := bind_eq_ok.mp h
  obtain ⟨⟨lastLogIndex, _⟩, hlast, h⟩ := bind_eq_ok.mp h
  obtain ⟨⟨logCount, _⟩, hcount, h⟩ := bind_eq_ok.mp h
  obtain ⟨-, hlast⟩ := readField_eq_ok.mp hlast
  obtain ⟨-, hcount⟩ := readField_eq_ok.mp hcount
  simp only at h
  split at h
  · cases h
  split at h
  · cases h
  split at h
  · rename_i hzero
    split at h
    · cases h
    · cases h
      exact ⟨hlast, hcount, fun hne => absurd hzero hne, rfl⟩
  · rename_i hne
    split at h
    · cases h
    · rename_i hrange
      cases h
      -- the count is not zero, so the size of the range is not `2 ^ 64`
      refine ⟨hlast, hcount, fun _ => ?_, rfl⟩
      simp only
      omega

/-! ## The records -/

theorem isChain_of_firstGap {records : List LogRecord} (h : firstGap records = none) :
    records.IsChain fun a b => b.index = (a.index + 1) % 2 ^ 64 := by
  induction records with
  | nil => exact .nil
  | cons a rest ih =>
    cases rest with
    | nil => exact .singleton a
    | cons b rest =>
      rw [firstGap] at h
      split at h
      · cases h
      · rename_i hnext
        exact .cons_cons (not_not.mp hnext) (ih h)

/-- Indexes that follow one another inside the range do not wrap around. -/
theorem index_eq_range' {records : List LogRecord} {first last : Nat}
    (hchain : records.IsChain fun a b => b.index = (a.index + 1) % 2 ^ 64)
    (hin : ∀ record ∈ records, first ≤ record.index ∧ record.index ≤ last)
    (hbounds : last < 2 ^ 64 ∧ ¬ (first = 0 ∧ last + 1 = 2 ^ 64)) {start : Nat}
    (hstart : ∀ front ∈ records.head?, front.index = start) :
    records.map LogRecord.index = List.range' start records.length := by
  induction records generalizing start with
  | nil => rfl
  | cons a rest ih =>
    have ha := hstart a rfl
    have hnext : ∀ b ∈ rest.head?, b.index = start + 1 := by
      intro b hb
      cases rest with
      | nil => cases hb
      | cons c rest =>
        cases hb
        have hstep := (List.isChain_cons_cons.mp hchain).1
        have hlow := hin a List.mem_cons_self
        have hhigh := hin b (List.mem_cons_of_mem _ List.mem_cons_self)
        omega
    have hrest := ih hchain.tail (fun r hr => hin r (List.mem_cons_of_mem _ hr)) hnext
    rw [List.map_cons, List.length_cons, List.range'_succ, hrest, ha]

/-- What the checks let through. -/
theorem checkRecords_eq_ok {m : Meta} (hm : m.Valid) (hcount : m.logCount ≠ 0) {scan : SegmentScan}
    {log : List LogRecord}
    (hin : ∀ record ∈ scan.records,
      m.firstLogIndex ≤ record.index ∧ record.index ≤ m.lastLogIndex)
    (h : checkRecords m scan = .ok log) :
    log = scan.records ∧ log.map LogRecord.index = List.range' m.firstLogIndex log.length ∧
      (log.length = m.logCount ∨ acceptedTruncatedPrefix m scan = true) := by
  have hrange := hm.range hcount
  have hlast := hm.lastLogIndex
  have hcount' := hm.logCount
  unfold checkRecords at h
  split at h
  · cases h
  rename_i haccepted
  have hlength : scan.records.length = m.logCount ∨ acceptedTruncatedPrefix m scan = true := by
    by_cases hlen : scan.records.length = m.logCount
    · exact .inl hlen
    · exact .inr (by simpa [hlen] using haccepted)
  split at h
  · rename_i front back hfront hback
    split at h
    · cases h
    rename_i hboundary
    split at h
    · cases h
    rename_i hgap
    cases h
    have hstart : ∀ record ∈ scan.records.head?, record.index = m.firstLogIndex := by
      intro record hrecord
      rw [hfront, Option.mem_some_iff] at hrecord
      cases hrecord
      by_contra hne
      exact hboundary (.inl hne)
    exact ⟨rfl, index_eq_range' (isChain_of_firstGap hgap) hin ⟨hlast, by omega⟩ hstart, hlength⟩
  · rename_i hnone
    cases h
    cases hrecords : scan.records with
    | nil => exact ⟨rfl, rfl, by rwa [hrecords] at hlength⟩
    | cons front rest =>
      exact absurd (List.getLast?_eq_some_getLast (List.cons_ne_nil front rest))
        (by simpa [hrecords] using hnone front _ (by simp [hrecords]))

/-! ## `Load` -/

/-- The bytes of these segment files. -/
def segmentContents (dir : DataDir) (files : List (Nat × Bytes)) : List Bytes :=
  files.map fun file => segmentContent dir file.2

section Order

variable {order : Sorting.Sorter byStartIndex} {room : Nat → Bool} {dir dir' : DataDir} {m : Meta}

theorem mem_segmentContents {files : List (Nat × Bytes)} {content : Bytes}
    (h : content ∈ segmentContents dir files) :
    ∃ name ∈ files.map Prod.snd, content = segmentContent dir name := by
  obtain ⟨file, hfile, rfl⟩ := List.mem_map.mp h
  exact ⟨file.2, List.mem_map_of_mem hfile, rfl⟩

theorem loadSegmentsWith_eq_ok (hm : m.Valid) (hcount : m.logCount ≠ 0) {log : List LogRecord}
    (h : loadSegmentsWith order room dir m = (.ok log, dir')) :
    pathExists dir kLogDirName = true ∧ room m.logCount = true ∧
      log = trusted m.firstLogIndex m.lastLogIndex
        (segmentContents dir (order.sort (listedSegments dir))) ∧
      log.map LogRecord.index = List.range' m.firstLogIndex log.length ∧
      (log.length = m.logCount ∨
        ∃ content ∈ segmentContents dir (order.sort (listedSegments dir)),
          hasTail content = true) := by
  have hexists : pathExists dir kLogDirName = true := by
    by_contra hnone
    rw [loadSegmentsWith_missing hcount (by simpa using hnone)] at h
    cases h
  have hroom : room m.logCount = true := by
    by_contra hnone
    rw [Bool.not_eq_true] at hnone
    simp [loadSegmentsWith, hcount, hexists, hnone] at h
  refine ⟨hexists, hroom, ?_⟩
  rw [loadSegmentsWith_scan hcount hexists hroom] at h
  obtain ⟨hcheck, -⟩ := Prod.ext_iff.mp h
  obtain ⟨hrecords, htruncated⟩ := foldl_scanSegment_spec m.firstLogIndex m.lastLogIndex
    dir ((order.sort (listedSegments dir)).map Prod.snd) []
  rw [List.nil_append, List.map_map] at hrecords
  have hin : ∀ record ∈ trusted m.firstLogIndex m.lastLogIndex
      (segmentContents dir (order.sort (listedSegments dir))),
      m.firstLogIndex ≤ record.index ∧ record.index ≤ m.lastLogIndex :=
    fun record hrecord => (mem_trusted hrecord).2
  obtain ⟨hlog, hindex, hlength⟩ :=
    checkRecords_eq_ok hm hcount (by rw [hrecords]; exact hin) hcheck
  refine ⟨hlog.trans hrecords, hindex, hlength.imp_right fun haccepted => ?_⟩
  simp only [acceptedTruncatedPrefix, htruncated, Bool.and_eq_true, List.any_eq_true] at haccepted
  obtain ⟨name, hname, htail⟩ := haccepted.1.1
  obtain ⟨file, hfile, rfl⟩ := List.mem_map.mp hname
  exact ⟨_, List.mem_map_of_mem hfile, htail⟩

/-- With a meta file `Load` returns what it finds in the segments. -/
theorem loadSegmentsWith_of_load {loaded : Option PersistentRaftState}
    (hmeta : pathExists dir kMetaFileName = true)
    (h : loadWith order room dir = (.ok loaded, dir')) :
    ∃ m log, readMeta (fileContent dir kMetaFileName) = .ok m ∧
      loadSegmentsWith order room dir m = (.ok log, dir') ∧
      loaded = some (clampRecoveredHardState { m.state with log }) := by
  cases hread : readMeta (fileContent dir kMetaFileName) with
  | error e =>
    rw [loadWith, if_pos hmeta, loadSegmentedWith, hread] at h
    cases h
  | ok m =>
    rw [loadWith_of_meta hmeta hread] at h
    obtain ⟨hlog, hleft⟩ := Prod.ext_iff.mp h
    cases hresult : (loadSegmentsWith order room dir m).1 with
    | error e =>
      rw [hresult] at hlog
      cases hlog
    | ok log =>
      rw [hresult] at hlog
      cases hlog
      exact ⟨m, log, rfl, Prod.ext hresult hleft, rfl⟩

end Order

/-- The loaded hard state stays inside the loaded log. -/
theorem clampRecoveredHardState_bounds (state : PersistentRaftState) :
    (clampRecoveredHardState state).log = state.log ∧
      (clampRecoveredHardState state).lastApplied ≤ (clampRecoveredHardState state).commitIndex ∧
      (clampRecoveredHardState state).commitIndex ≤ lastIndex state.log := by
  unfold clampRecoveredHardState lastIndex
  cases state.log.getLast? <;> simp

theorem range'_isPrefix {start k n : Nat} (h : k ≤ n) :
    List.range' start k <+: List.range' start n := by
  refine ⟨List.range' (start + k) (n - k), ?_⟩
  rw [List.range'_append_1, Nat.add_sub_cancel' h]

theorem length_le_of_index {log : List LogRecord} {first last : Nat}
    (hindex : log.map LogRecord.index = List.range' first log.length)
    (hin : ∀ record ∈ log, record.index ≤ last) : first + log.length ≤ last + 1 ∨ log = [] := by
  by_cases hne : log = []
  · exact .inr hne
  · have hpos := List.length_pos_iff.mpr hne
    have hmem : first + (log.length - 1) ∈ log.map LogRecord.index := by
      rw [hindex, List.mem_range'_1]
      omega
    obtain ⟨record, hrecord, heq⟩ := List.mem_map.mp hmem
    have hle := hin record hrecord
    exact .inl (by omega)

/-- What `Load` returns of a directory with this meta file. -/
structure LoadsFrom (dir : DataDir) (m : Meta) (state : PersistentRaftState) : Prop where
  empty : m.logCount = 0 → state.log = []
  run : m.logCount ≠ 0 → m.firstLogIndex + m.logCount = m.lastLogIndex + 1 ∧
    state.log.map LogRecord.index <+: List.range' m.firstLogIndex m.logCount
  /-- The run is cut short only when a segment ends in bytes that are no record. -/
  whole : m.logCount ≠ 0 →
    state.log.map LogRecord.index = List.range' m.firstLogIndex m.logCount ∨
      ∃ name ∈ (segmentFiles dir).map Prod.snd, hasTail (segmentContent dir name) = true
  present : ∀ record ∈ state.log, ∃ name ∈ (segmentFiles dir).map Prod.snd, ∃ position rest,
    readEntry ((segmentContent dir name).drop position) = .entry record rest
  applied : state.lastApplied ≤ state.commitIndex
  commit : state.commitIndex ≤ lastIndex state.log

theorem consecutive_of_index {log : List LogRecord} {first : Nat}
    (h : log.map LogRecord.index = List.range' first log.length) :
    Consecutive log ∧ (log ≠ [] → firstIndex log = first) := by
  cases log with
  | nil => exact ⟨rfl, fun hne => absurd rfl hne⟩
  | cons front rest =>
    have hfront : front.index = first := by simpa [List.range'_succ] using congrArg List.head? h
    exact ⟨by rw [Consecutive, firstIndex]; simpa [hfront] using h, fun _ => hfront⟩

theorem LoadsFrom.consecutive {dir : DataDir} {m : Meta} {state : PersistentRaftState}
    (h : LoadsFrom dir m state) : Consecutive state.log := by
  by_cases hcount : m.logCount = 0
  · rw [h.empty hcount]
    rfl
  · have hpre := (h.run hcount).2
    have hlength := hpre.length_le
    rw [List.length_map, List.length_range'] at hlength
    rw [List.prefix_iff_eq_take, List.length_map, List.take_range'_of_length_ge hlength] at hpre
    exact (consecutive_of_index hpre).1

theorem loadsFrom_of_loadSegments {dir dir' : DataDir} {m : Meta} (hm : m.Valid)
    {log : List LogRecord} (h : loadSegments dir m = (.ok log, dir')) :
    LoadsFrom dir m (clampRecoveredHardState { m.state with log }) := by
  obtain ⟨hlog, happlied, hcommit⟩ := clampRecoveredHardState_bounds { m.state with log }
  have hsame : (clampRecoveredHardState { m.state with log }).log = log := hlog
  by_cases hcount : m.logCount = 0
  · have hnil : log = [] := by
      rw [loadSegments, loadSegmentsWith_empty hcount] at h
      cases h
      rfl
    subst hnil
    exact ⟨fun _ => hsame, fun hne => absurd hcount hne, fun hne => absurd hcount hne,
      by simp [hsame], happlied, by rwa [hsame]⟩
  · obtain ⟨-, -, htrusted, hindex, hlength⟩ := loadSegmentsWith_eq_ok hm hcount h
    have hrange := hm.range hcount
    have hin : ∀ record ∈ log, record.index ≤ m.lastLogIndex := fun record hrecord =>
      (mem_trusted (htrusted ▸ hrecord)).2.2
    have hle := length_le_of_index hindex hin
    refine ⟨fun hzero => absurd hzero hcount, fun _ => ⟨hrange, ?_⟩, fun _ => ?_, ?_, happlied,
      by rwa [hsame]⟩
    · rw [hsame, hindex]
      rcases hle with hle | rfl
      · exact range'_isPrefix (by omega)
      · exact List.nil_prefix
    · rw [hsame]
      rcases hlength with hlength | ⟨content, hcontent, htail⟩
      · exact .inl (by rw [hindex, hlength])
      · obtain ⟨name, hname, rfl⟩ := mem_segmentContents hcontent
        exact .inr ⟨name, hname, htail⟩
    · intro record hrecord
      rw [hsame, htrusted] at hrecord
      obtain ⟨⟨content, hcontent, hmem⟩, -⟩ := mem_trusted hrecord
      obtain ⟨name, hname, rfl⟩ := mem_segmentContents hcontent
      obtain ⟨found, tail, hdecoded⟩ := Decoded.total (segmentContent dir name)
      rw [segmentRecords_eq hdecoded] at hmem
      obtain ⟨position, rest, hread⟩ := hdecoded.present record hmem
      exact ⟨name, hname, position, rest, hread⟩

/-- `Load` trusts only a consistent segmented state, whatever the files hold. -/
theorem load_trusts {dir dir' : DataDir} {loaded : Option PersistentRaftState}
    (hmeta : pathExists dir kMetaFileName = true) (h : load dir = (.ok loaded, dir')) :
    ∃ m state, readMeta (fileContent dir kMetaFileName) = .ok m ∧ loaded = some state ∧
      LoadsFrom dir m state := by
  obtain ⟨m, log, hm, hlog, rfl⟩ := loadSegmentsWith_of_load hmeta h
  exact ⟨m, _, hm, rfl, loadsFrom_of_loadSegments (readMeta_eq_ok hm) hlog⟩

/-- The small state on disk, with the last byte of its segment missing. -/
def tornDir : DataDir :=
  ((∅ : DataDir).insert kMetaFileName (.file (metaFields smallState).flatten)).insert kLogDirName
    (.dir ((∅ : AList fun _ => Bytes).insert (segmentFileName 7)
      (smallState.log.flatMap (encodeEntry fun _ => 0)).dropLast))

/-- Of the torn directory only the first record is trusted. -/
theorem load_trusts_torn :
    ∃ m state, readMeta (fileContent tornDir kMetaFileName) = .ok m ∧
      (load tornDir).1 = .ok (some state) ∧ LoadsFrom tornDir m state := by
  have hload : (load tornDir).1 = .ok (some { smallState with log := smallState.log.take 1 }) := by
    decide +kernel
  obtain ⟨m, state, hm, hstate, hfrom⟩ :=
    load_trusts (show pathExists tornDir kMetaFileName = true by
    decide +kernel) (Prod.ext hload rfl)
  exact ⟨m, state, hm, hload.trans (congrArg Except.ok hstate), hfrom⟩

end FileRaftStorage

end CquptRaft
