import CquptRaft.Storage.Trusted

/-!
# From the legacy file to segments

`LoadLegacy` takes the records of `raft_state.bin` as they are. The first `Save` behind it writes
them into segments and removes the file, and the next `Load` reads the segments. That one asks for
consecutive indexes, which `LoadLegacy` does not.
-/

namespace CquptRaft

open Binary Files

namespace FileRaftStorage

/-! ## What `LoadLegacy` accepts -/

theorem readLegacyRecords_eq_ok {count : Nat} {bytes : Bytes} {log : List LogRecord}
    (h : readLegacyRecords count bytes = .ok log) :
    log.length = count ∧ ∀ record ∈ log, record.Storable := by
  induction count generalizing bytes log with
  | zero =>
    cases h
    simp
  | succ count ih =>
    obtain ⟨⟨index, _⟩, hindex, h⟩ := bind_eq_ok.mp h
    obtain ⟨⟨term, _⟩, hterm, h⟩ := bind_eq_ok.mp h
    obtain ⟨⟨size, left⟩, -, h⟩ := bind_eq_ok.mp h
    simp only at h
    split at h
    · cases h
    rename_i hsize
    split at h
    · cases h
    obtain ⟨rest, hrest, h⟩ := bind_eq_ok.mp h
    cases h
    obtain ⟨hlength, hstorable⟩ := ih hrest
    obtain ⟨-, hindex⟩ := readField_eq_ok.mp hindex
    obtain ⟨-, hterm⟩ := readField_eq_ok.mp hterm
    refine ⟨by rw [List.length_cons, hlength], fun record hrecord => ?_⟩
    rcases List.mem_cons.mp hrecord with rfl | hrecord
    · refine ⟨hindex, hterm, ?_⟩
      rw [List.length_take]
      omega
    · exact hstorable record hrecord

/-- The records that stand in the file, behind the header of its version. -/
def legacyRecords (content : Bytes) : List LogRecord :=
  let header := if ofBytes ((content.drop 4).take 4) = 1 then 24 else 40
  let count := ofBytes ((content.drop header).take 8)
  (readLegacyRecords count (content.drop (header + 8))).toOption.getD []

theorem legacyRecords_eq {magic version currentTerm votedFor count : Nat} {hardState left : Bytes}
    {log : List LogRecord} (hversion : version < 256 ^ 4)
    (hhard : hardState.length = if version = 1 then 0 else 16) (hcount : count < 256 ^ 8)
    (hlog : readLegacyRecords count left = .ok log) :
    legacyRecords (toBytes 4 magic ++ (toBytes 4 version ++ (toBytes 8 currentTerm ++
      (toBytes 8 votedFor ++ (hardState ++ (toBytes 8 count ++ left)))))) = log := by
  generalize hcontent : toBytes 4 magic ++ (toBytes 4 version ++ (toBytes 8 currentTerm ++
    (toBytes 8 votedFor ++ (hardState ++ (toBytes 8 count ++ left))))) = content
  have hread : ofBytes ((content.drop 4).take 4) = version := by
    rw [← hcontent, List.drop_left' (length_toBytes 4 magic),
      List.take_left' (length_toBytes 4 version), ofBytes_toBytes, Nat.mod_eq_of_lt hversion]
  generalize hfront : toBytes 4 magic ++ (toBytes 4 version ++ (toBytes 8 currentTerm ++
    (toBytes 8 votedFor ++ hardState))) = front
  have hsplit : content = front ++ (toBytes 8 count ++ left) := by
    rw [← hcontent, ← hfront]
    simp only [List.append_assoc]
  have hlength : front.length = if version = 1 then 24 else 40 := by
    rw [← hfront]
    simp only [List.length_append, length_toBytes, hhard]
    split <;> rfl
  have hdrop : content.drop (if version = 1 then 24 else 40) = toBytes 8 count ++ left := by
    rw [hsplit, List.drop_left' hlength]
  simp only [legacyRecords, hread]
  rw [← List.drop_drop, hdrop, List.drop_left' (length_toBytes 8 count),
    List.take_left' (length_toBytes 8 count), ofBytes_toBytes, Nat.mod_eq_of_lt hcount, hlog]
  rfl

/-- Version 2 has two fields more than version 1. -/
theorem length_hardState {version commitIndex lastApplied : Nat} {bytes left : Bytes}
    (h : (if version = 1 then Except.ok ((0, 0), bytes) else do
      let (commitIndex, bytes) ← readField 8 "commit_index" bytes
      let (lastApplied, bytes) ← readField 8 "last_applied" bytes
      return ((commitIndex, lastApplied), bytes)) = .ok ((commitIndex, lastApplied), left)) :
    ∃ hardState, bytes = hardState ++ left ∧
      hardState.length = if version = 1 then 0 else 16 := by
  split at h
  · rename_i hversion
    cases h
    exact ⟨[], rfl, by rw [if_pos hversion]; rfl⟩
  · rename_i hversion
    obtain ⟨⟨commitIndex, _⟩, hcommit, h⟩ := bind_eq_ok.mp h
    obtain ⟨⟨lastApplied, _⟩, happlied, h⟩ := bind_eq_ok.mp h
    cases h
    obtain ⟨rfl, -⟩ := readField_eq_ok.mp hcommit
    obtain ⟨rfl, -⟩ := readField_eq_ok.mp happlied
    refine ⟨toBytes 8 commitIndex ++ toBytes 8 lastApplied, by simp, ?_⟩
    rw [if_neg hversion, List.length_append, length_toBytes, length_toBytes]

theorem voteOf_range (stored : Nat) : -2 ^ 31 ≤ voteOf stored ∧ voteOf stored < 2 ^ 31 := by
  have hlow := Int.le_bmod (x := stored) (m := 2 ^ 32) (by norm_num)
  have hhigh := Int.bmod_lt (x := stored) (m := 2 ^ 32) (by norm_num)
  unfold voteOf
  norm_num at hlow hhigh ⊢
  exact ⟨hlow, hhigh⟩

/-- What an accepted file says. -/
theorem loadLegacy_eq_ok {content : Bytes} {state : PersistentRaftState}
    (h : loadLegacy content = .ok state) :
    ∃ currentTerm votedFor commitIndex lastApplied,
      state = clampRecoveredHardState
        ⟨currentTerm, voteOf votedFor, commitIndex, lastApplied, legacyRecords content⟩ ∧
      currentTerm < 2 ^ 64 ∧ (legacyRecords content).length < 2 ^ 64 ∧
      ∀ record ∈ legacyRecords content, record.Storable := by
  obtain ⟨⟨magic, _⟩, hmagic, h⟩ := bind_eq_ok.mp h
  obtain ⟨⟨version, _⟩, hversion, h⟩ := bind_eq_ok.mp h
  obtain ⟨⟨currentTerm, _⟩, hterm, h⟩ := bind_eq_ok.mp h
  obtain ⟨⟨votedFor, _⟩, hvote, h⟩ := bind_eq_ok.mp h
  simp only at h
  split at h
  · cases h
  split at h
  · cases h
  obtain ⟨⟨⟨commitIndex, lastApplied⟩, _⟩, hhard, h⟩ := bind_eq_ok.mp h
  obtain ⟨⟨logCount, left⟩, hcount, h⟩ := bind_eq_ok.mp h
  rw [if_neg (by simp [ample])] at h
  obtain ⟨log, hlog, h⟩ := bind_eq_ok.mp h
  cases h
  obtain ⟨rfl, -⟩ := readField_eq_ok.mp hmagic
  obtain ⟨rfl, hversionLt⟩ := readField_eq_ok.mp hversion
  obtain ⟨rfl, htermLt⟩ := readField_eq_ok.mp hterm
  obtain ⟨rfl, -⟩ := readField_eq_ok.mp hvote
  obtain ⟨rfl, hcountLt⟩ := readField_eq_ok.mp hcount
  obtain ⟨hlength, hstorable⟩ := readLegacyRecords_eq_ok hlog
  obtain ⟨hardState, rfl, hsize⟩ := length_hardState hhard
  rw [legacyRecords_eq hversionLt hsize hcountLt hlog]
  exact ⟨currentTerm, votedFor, commitIndex, lastApplied, rfl, htermLt, by omega, hstorable⟩

theorem inRange_of_loadLegacy {content : Bytes} {state : PersistentRaftState}
    (h : loadLegacy content = .ok state) :
    state.log = legacyRecords content ∧ state.InRange ∧ state.Fits ∧
      state.lastApplied ≤ state.commitIndex ∧ state.commitIndex ≤ lastIndex state.log := by
  obtain ⟨currentTerm, votedFor, commitIndex, lastApplied, rfl, hterm, hcount, hstorable⟩ :=
    loadLegacy_eq_ok h
  generalize hraw : (⟨currentTerm, voteOf votedFor, commitIndex, lastApplied,
    legacyRecords content⟩ : PersistentRaftState) = raw
  obtain ⟨hlog, happlied, hcommit⟩ := clampRecoveredHardState_bounds raw
  have hrecords : (clampRecoveredHardState raw).log = legacyRecords content := by
    rw [hlog, ← hraw]
  have hterm' : (clampRecoveredHardState raw).currentTerm < 2 ^ 64 := by
    show raw.currentTerm < 2 ^ 64
    rwa [← hraw]
  have hvote : (clampRecoveredHardState raw).votedFor = voteOf votedFor := by
    show raw.votedFor = voteOf votedFor
    rw [← hraw]
  refine ⟨hrecords, ⟨hterm', hvote ▸ voteOf_range votedFor, ?_, by rwa [hrecords]⟩, ?_, happlied,
    by rwa [hlog]⟩
  · intro record hrecord
    rw [hrecords] at hrecord
    exact ⟨(hstorable record hrecord).index, (hstorable record hrecord).term⟩
  · intro record hrecord
    rw [hrecords] at hrecord
    exact (hstorable record hrecord).command

/-! ## A `Save` and the next `Load` -/

open Prog

/-- Whatever the log is, a `Save` that reports success leaves a meta file. -/
theorem wp_save_metaFile (padding : LogRecord → Nat) (state : PersistentRaftState)
    (w : World Bytes UInt8) :
    (save padding state).Wp (fun ok w' => ok = true → pathExists w'.disk kMetaFileName = true)
      (fun _ => True) w := by
  have hkeep : ∀ {w : World Bytes UInt8} {disk : DataDir} {name : Bytes}, name ≠ kMetaFileName →
      pathExists w.disk kMetaFileName = true → w.disk.apply (.remove (topLevel name)) = some disk →
      pathExists disk kMetaFileName = true := by
    intro w disk name hname hexists hdisk
    rwa [pathExists, Disk.lookup_remove hdisk, if_neg hname.symm]
  have hrename : ∀ w : World Bytes UInt8, (do
      if !(← perform (.rename kMetaTempFileName kMetaFileName)) then return false
      perform .syncRoot : SaveProg Bool).Wp
        (fun ok w' => ok = true → pathExists w'.disk kMetaFileName = true) (fun _ => True) w := by
    intro w
    refine wp_stepOrFail trivial (by simp) fun disk script hdisk => ?_
    refine wp_perform trivial (by simp) fun disk' script' hdisk' _ => ?_
    obtain rfl := Option.some.inj hdisk'
    rw [pathExists, Disk.lookup_rename hdisk, if_pos rfl]
    exact Disk.isSome_of_rename hdisk
  refine wp_orFail wp_any (by simp) fun w₁ _ => ?_
  refine wp_orFail wp_any (by simp) fun w₂ _ => ?_
  refine wp_orFail (P := fun ok w' => ok = true → pathExists w'.disk kMetaFileName = true) ?_
    (by simp) fun w₃ h₃ => ?_
  · refine wp_bind (wp_look ?_)
    split
    · exact wp_stepOrFail trivial (by simp) fun _ _ _ => hrename _
    · exact hrename _
  · have hexists := h₃ rfl
    refine wp_bind (wp_perform trivial (fun script => ?_) fun disk script hdisk => ?_)
    · refine wp_bind (wp_perform trivial (fun script => ?_) fun disk script hdisk => ?_)
      · exact wp_pure fun _ => hexists
      · exact wp_pure fun _ => hkeep (by decide) hexists hdisk
    · have hexists' := hkeep (by decide) hexists hdisk
      refine wp_bind (wp_perform trivial (fun script => ?_) fun disk' script hdisk' => ?_)
      · exact wp_pure fun _ => hexists'
      · exact wp_pure fun _ => hkeep (w := ⟨disk, _, _⟩) (by decide) hexists' hdisk'

/-- The state of a legacy file survives the move to segments when its indexes follow one another,
and only then. -/
theorem load_save_legacy_iff (padding : LogRecord → Nat) {content : Bytes}
    {state : PersistentRaftState} (hlegacy : loadLegacy content = .ok state) {dir : DataDir}
    {script : List Outcome} {w : World Bytes UInt8}
    (hsave : save padding state ⟨dir, [], script⟩ = (some true, w)) :
    (load w.disk).1 = .ok (some state) ↔ Consecutive (legacyRecords content) := by
  obtain ⟨hrecords, hrange, hfits, happlied, hcommit⟩ := inRange_of_loadLegacy hlegacy
  rw [← hrecords]
  constructor
  · intro hload
    have hmeta := wp_save_metaFile padding state ⟨dir, [], script⟩
    rw [Wp, hsave] at hmeta
    obtain ⟨m, log, hm, hlog, hloaded⟩ := loadSegmentsWith_of_load (hmeta rfl) (Prod.ext hload rfl)
    rw [Option.some.inj hloaded]
    exact (loadsFrom_of_loadSegments (readMeta_eq_ok hm) hlog).consecutive
  · intro hconsecutive
    have hspec := wp_save padding (index_nodup hconsecutive)
      (fun record hrecord => (hrange.records record hrecord).1) dir script
    rw [Wp, hsave] at hspec
    have hpublished := hspec.2 rfl
    have hloaded := load_published hrange ⟨hconsecutive, happlied, hcommit⟩ hfits hpublished.log
      hpublished.metaFile
    rw [hloaded]

/-- A file of version 2, of term 3, with records of these indexes. -/
def legacyFile (indexes : List Nat) : Bytes :=
  toBytes 4 kLegacyFileMagic ++ toBytes 4 kLegacyFileVersion ++ toBytes 8 3 ++ toBytes 8 2 ++
    toBytes 8 1 ++ toBytes 8 1 ++ toBytes 8 indexes.length ++
    indexes.flatMap fun index => toBytes 8 index ++ toBytes 8 1 ++ toBytes 8 1 ++ ascii "x"

def legacyDir (indexes : List Nat) : DataDir :=
  (∅ : DataDir).insert kLegacyStateFileName (.file (legacyFile indexes))

/-- The state of `legacyFile`. -/
def legacyState (indexes : List Nat) : PersistentRaftState :=
  ⟨3, 2, 1, 1, indexes.map fun index => ⟨index, 1, ascii "x"⟩⟩

/-- `Save` of that state, in a run without faults. -/
def migrated (indexes : List Nat) : Option Bool × World Bytes UInt8 :=
  save (fun _ => 0) (legacyState indexes) ⟨legacyDir indexes, [], List.replicate 40 .ok⟩

theorem save_eq_migrated {indexes : List Nat} (h : (migrated indexes).1 = some true) :
    save (fun _ => 0) (legacyState indexes) ⟨legacyDir indexes, [], List.replicate 40 .ok⟩ =
      (some true, (migrated indexes).2) := Prod.ext h rfl

/-- Records 1 and 2 are found again. -/
theorem load_save_legacy_consecutive :
    (migrated [1, 2]).1 = some true ∧
      (load (migrated [1, 2]).2.disk).1 = .ok (some (legacyState [1, 2])) := by
  have hok : (migrated [1, 2]).1 = some true := by decide +kernel
  have hlegacy : loadLegacy (legacyFile [1, 2]) = .ok (legacyState [1, 2]) := by decide +kernel
  have hconsecutive : Consecutive (legacyRecords (legacyFile [1, 2])) := by decide +kernel
  exact ⟨hok, (load_save_legacy_iff _ hlegacy (save_eq_migrated hok)).mpr hconsecutive⟩

/-- `Load` accepts a legacy file with the records 1 and 3. Behind the `Save` that removes the file
it refuses the segments. -/
theorem legacy_gap_is_lost :
    (load (legacyDir [1, 3])).1 = .ok (some (legacyState [1, 3])) ∧
      (migrated [1, 3]).1 = some true ∧
      pathExists (migrated [1, 3]).2.disk kLegacyStateFileName = false ∧
      (load (migrated [1, 3]).2.disk).1 = .error (.metaBoundary 1 3 2) := by
  refine ⟨?_, ?_, ?_, ?_⟩
  all_goals decide +kernel

end FileRaftStorage

end CquptRaft
