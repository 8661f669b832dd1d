import CquptRaft.Storage.RoundTrip

/-!
# Stopping inside `Save`

`Save` replaces the log and the meta file by several renames and removes. What `Load` returns
after a `Save` that has stopped on the way depends on how far it has come, on the two states and
on a legacy file that is still there.
-/

namespace CquptRaft

open Files

namespace FileRaftStorage

variable {padding : LogRecord → Nat} {O N : PersistentRaftState} {dir : DataDir}

/-! ## Slices of a log -/

/-- What is from an index on is a suffix. -/
theorem filter_from_suffix {log : List LogRecord} (h : log.Pairwise fun a b => a.index < b.index)
    (first : Nat) : (log.filter fun record => first ≤ record.index) <:+ log := by
  induction log with
  | nil => exact List.suffix_refl _
  | cons record rest ih =>
    rw [List.pairwise_cons] at h
    by_cases hin : first ≤ record.index
    · have hall : (rest.filter fun r => first ≤ r.index) = rest :=
        List.filter_eq_self.mpr fun r hr => decide_eq_true (hin.trans (h.1 r hr).le)
      rw [List.filter_cons_of_pos (by simpa using hin), hall]
    · rw [List.filter_cons_of_neg (by simpa using hin)]
      exact (ih h.2).trans (List.suffix_cons record rest)

/-- What is up to an index is a beginning. -/
theorem filter_upTo_beginning {log : List LogRecord}
    (h : log.Pairwise fun a b => a.index < b.index) (last : Nat) :
    (log.filter fun record => record.index ≤ last) <+: log := by
  induction log with
  | nil => exact List.nil_prefix
  | cons record rest ih =>
    rw [List.pairwise_cons] at h
    by_cases hin : record.index ≤ last
    · rw [List.filter_cons_of_pos (by simpa using hin)]
      exact (List.prefix_cons_inj record).mpr (ih h.2)
    · have hnone : (rest.filter fun r => r.index ≤ last) = [] :=
        List.filter_eq_nil_iff.mpr fun r hr => by
          have hlt := h.1 r hr
          simp only [decide_eq_true_eq, not_le]
          omega
      rw [List.filter_cons_of_neg (by simpa using hin), hnone]
      exact List.nil_prefix

/-- The records of a range are a slice of the log. -/
theorem filter_range_slice {log : List LogRecord} (h : Consecutive log) (first last : Nat) :
    (log.filter fun record => first ≤ record.index ∧ record.index ≤ last) <:+: log := by
  have hsplit : (log.filter fun record => first ≤ record.index ∧ record.index ≤ last) =
      (log.filter fun record => record.index ≤ last).filter fun record => first ≤ record.index := by
    rw [List.filter_filter]
    simp only [Bool.decide_and]
  rw [hsplit]
  have hpairwise := (index_pairwise h).filter fun record => decide (record.index ≤ last)
  exact (filter_from_suffix hpairwise first).isInfix.trans
    (filter_upTo_beginning (index_pairwise h) last).isInfix

/-- A slice of a log is what the log has in the range of the slice. -/
theorem filter_range_of_slice {log slice : List LogRecord} (h : Consecutive log)
    (hslice : Consecutive slice) (hne : slice ≠ []) (hpart : slice <:+: log) :
    (log.filter fun record =>
      firstIndex slice ≤ record.index ∧ record.index ≤ lastIndex slice) = slice := by
  obtain ⟨before, after, rfl⟩ := hpart
  have hpairwise := index_pairwise h
  simp only [List.pairwise_append, List.mem_append] at hpairwise
  obtain ⟨first, hfirst, hfirstIndex⟩ := firstIndex_mem hne
  have hlast : ∃ record ∈ slice, lastIndex slice = record.index :=
    ⟨slice.getLast hne, List.getLast_mem hne, by
      simp [lastIndex, List.getLast?_eq_some_getLast hne]⟩
  obtain ⟨last, hlast, hlastIndex⟩ := hlast
  have hbefore : (before.filter fun record =>
      firstIndex slice ≤ record.index ∧ record.index ≤ lastIndex slice) = [] := by
    refine List.filter_eq_nil_iff.mpr fun record hrecord => ?_
    have hlt := hpairwise.1.2.2 record hrecord first hfirst
    simp only [decide_eq_true_eq]
    omega
  have hafter : (after.filter fun record =>
      firstIndex slice ≤ record.index ∧ record.index ≤ lastIndex slice) = [] := by
    refine List.filter_eq_nil_iff.mpr fun record hrecord => ?_
    have hlt := hpairwise.2.2 last (.inr hlast) record hrecord
    simp only [decide_eq_true_eq]
    omega
  have hall : (slice.filter fun record =>
      firstIndex slice ≤ record.index ∧ record.index ≤ lastIndex slice) = slice :=
    List.filter_eq_self.mpr fun record hrecord => decide_eq_true (mem_range hslice hrecord)
  rw [List.filter_append, List.filter_append, hbefore, hafter, hall, List.nil_append,
    List.append_nil]

/-! ## Loading with the old meta file -/

/-- What `Load` makes of the meta file of `O` and some log directory. -/
theorem load_with_meta (hrange : O.InRange) (hform : O.WellFormed)
    (hmeta : dir.lookup kMetaFileName = some (.file (metaFields O).flatten)) :
    (load dir).1 = (loadSegments dir (metaOf O)).1.map fun log =>
      some (clampRecoveredHardState { O with log }) := by
  have hexists : pathExists dir kMetaFileName = true := by
    simp [pathExists, hmeta]
  have hcontent : fileContent dir kMetaFileName = (metaFields O).flatten := by
    simp [fileContent, Disk.readFile, topLevel, hmeta]
  have hread : readMeta (fileContent dir kMetaFileName) = .ok (metaOf O) := by
    rw [hcontent]
    exact readMeta_metaFields hrange hform
  rw [load, loadWith_of_meta hexists hread]
  rfl

/-- Without a log directory only an empty log is loaded. -/
theorem load_logAway (hrange : O.InRange) (hform : O.WellFormed)
    (hmeta : dir.lookup kMetaFileName = some (.file (metaFields O).flatten))
    (hlog : dir.lookup kLogDirName = none) :
    (load dir).1 = .ok (some O) ∨ (load dir).1 = .ok (some N) ↔ O.log = [] := by
  rw [load_with_meta hrange hform hmeta]
  by_cases hne : O.log = []
  · have hstate : { O with log := [] } = O := by rw [← hne]
    have hloaded : (loadSegments dir (metaOf O)).1 = .ok [] := by
      rw [loadSegments, loadSegmentsWith_empty (by simp [metaOf, hne])]
    rw [hloaded, Except.map, hstate, clampRecoveredHardState_eq hform]
    exact ⟨fun _ => hne, fun _ => .inl rfl⟩
  · have hloaded : (loadSegments dir (metaOf O)).1 = .error .logDirMissing := by
      rw [loadSegments,
        loadSegmentsWith_missing (by simp [metaOf, hne]) (by simp [pathExists, hlog])]
    rw [hloaded]
    simp [Except.map, hne]

/-- The indexes of a log are decided by the first one and the length. -/
theorem index_eq_of_consecutive {a b : List LogRecord} (ha : Consecutive a) (hb : Consecutive b)
    (hlen : a.length = b.length) (hfirst : firstIndex a = firstIndex b) :
    a.map LogRecord.index = b.map LogRecord.index := by
  rw [ha, hb, hlen, hfirst]

theorem firstIndex_congr {a b : List LogRecord}
    (h : a.map LogRecord.index = b.map LogRecord.index) : firstIndex a = firstIndex b := by
  rw [firstIndex, firstIndex, ← List.head?_map, ← List.head?_map, h]

theorem lastIndex_congr {a b : List LogRecord}
    (h : a.map LogRecord.index = b.map LogRecord.index) : lastIndex a = lastIndex b := by
  rw [lastIndex, lastIndex, ← List.getLast?_map, ← List.getLast?_map, h]

/-- Loading the new log with the old meta file gives one of the two states exactly when the old
log is a slice of the new one, or the states differ in their records only. -/
theorem load_logPublished (hrangeO : O.InRange) (hformO : O.WellFormed) (hrangeN : N.InRange)
    (hformN : N.WellFormed) (hfitsN : N.Fits)
    (hmeta : dir.lookup kMetaFileName = some (.file (metaFields O).flatten))
    (hlog : HoldsSegments padding N.log (dir.lookup kLogDirName)) :
    (load dir).1 = .ok (some O) ∨ (load dir).1 = .ok (some N) ↔
      O.log <:+: N.log ∨
        N = { O with log := N.log } ∧ N.log.map LogRecord.index = O.log.map LogRecord.index := by
  rw [load_with_meta hrangeO hformO hmeta]
  by_cases hne : O.log = []
  · have hstate : { O with log := [] } = O := by rw [← hne]
    have hloaded : (loadSegments dir (metaOf O)).1 = .ok [] := by
      rw [loadSegments, loadSegmentsWith_empty (by simp [metaOf, hne])]
    rw [hloaded, Except.map, hstate, clampRecoveredHardState_eq hformO]
    exact ⟨fun _ => .inl (by rw [hne]; exact List.nil_infix), fun _ => .inl rfl⟩
  · have hcount : (metaOf O).logCount ≠ 0 := by simpa [metaOf] using hne
    rw [loadSegments_segments hlog hformN.consecutive (hrangeN.storable hfitsN) hcount]
    have hltN : ∀ record ∈ N.log, record.index < 2 ^ 64 := fun r hr => (hrangeN.records r hr).1
    constructor
    · -- a log that is loaded is the slice of the new log in the old range
      intro hloaded
      cases hcheck : checkRecords (metaOf O) ⟨dir, N.log.filter fun record =>
          (metaOf O).firstLogIndex ≤ record.index ∧ record.index ≤ (metaOf O).lastLogIndex, false,
          false⟩ with
      | error e =>
        rw [hcheck] at hloaded
        simp [Except.map] at hloaded
      | ok log =>
        rw [hcheck] at hloaded
        obtain ⟨hslice, hlen, hfirst⟩ := checkRecords_inv hcount hcheck
        rw [← hslice] at hlen hfirst
        have hpart : log <:+: N.log := by
          rw [hslice]
          exact filter_range_slice hformN.consecutive _ _
        simp only [Except.map, Except.ok.injEq, Option.some.injEq] at hloaded
        rcases hloaded with hO | hN
        · left
          have hlogO := congrArg PersistentRaftState.log hO
          exact hlogO ▸ hpart
        · right
          have hlogN : log = N.log := congrArg PersistentRaftState.log hN
          subst hlogN
          have hindexes := index_eq_of_consecutive hformN.consecutive hformO.consecutive hlen hfirst
          refine ⟨?_, hindexes⟩
          have hlast : lastIndex N.log = lastIndex O.log := lastIndex_congr hindexes
          have hform : PersistentRaftState.WellFormed { O with log := N.log } :=
            ⟨hformN.consecutive, hformO.applied, hlast ▸ hformO.commit⟩
          rw [clampRecoveredHardState_eq hform] at hN
          exact hN.symm
    · rintro (hpart | ⟨hN, hindexes⟩)
      · left
        have hslice : (N.log.filter fun record => (metaOf O).firstLogIndex ≤ record.index ∧
            record.index ≤ (metaOf O).lastLogIndex) = O.log :=
          filter_range_of_slice hformN.consecutive hformO.consecutive hne hpart
        have hltO : ∀ record ∈ O.log, record.index < 2 ^ 64 := fun r hr => (hrangeO.records r hr).1
        have hcheck := checkRecords_ok hformO.consecutive hltO (m := metaOf O) rfl rfl rfl dir
        rw [hslice, hcheck, Except.map, clampRecoveredHardState_eq hformO]
      · right
        have hfirst := firstIndex_congr hindexes
        have hlast := lastIndex_congr hindexes
        have hlen : N.log.length = O.log.length := by
          simpa using congrArg List.length hindexes
        have hall : (N.log.filter fun record => (metaOf O).firstLogIndex ≤ record.index ∧
            record.index ≤ (metaOf O).lastLogIndex) = N.log := by
          refine List.filter_eq_self.mpr fun record hrecord => decide_eq_true ?_
          simp only [metaOf, ← hfirst, ← hlast]
          exact mem_range hformN.consecutive hrecord
        have hcheck := checkRecords_ok hformN.consecutive hltN (m := metaOf O) hlen hfirst hlast dir
        rw [hall, hcheck, Except.map, ← hN, clampRecoveredHardState_eq hformN]

/-! ## Loading without a meta file -/

/-- The legacy file is there and holds this state. -/
def LegacyHolds (dir : DataDir) (state : PersistentRaftState) : Prop :=
  pathExists dir kLegacyStateFileName = true ∧
    loadLegacy (fileContent dir kLegacyStateFileName) = .ok state

theorem load_metaRemoved {state : PersistentRaftState} (hmeta : dir.lookup kMetaFileName = none) :
    (load dir).1 = .ok (some state) ↔ LegacyHolds dir state := by
  have hexists : pathExists dir kMetaFileName = false := by
    simp [pathExists, hmeta]
  unfold load loadWith LegacyHolds loadLegacy
  rw [hexists]
  cases pathExists dir kLegacyStateFileName with
  | false => simp
  | true =>
    simp only [Bool.false_eq_true, if_false, if_true, true_and]
    cases loadLegacyWith ample (fileContent dir kLegacyStateFileName) <;> simp [Except.map]

/-! ## Every stop -/

/-- The condition under which a `Save` of `N` that has performed these operations, in a directory
where `O` was saved, leaves one of the two states. -/
def SurvivesStop (O N : PersistentRaftState) (dir : DataDir) (trace : List (Op Bytes UInt8)) :
    Prop :=
  match savePhase trace with
  | .untouched | .published => True
  | .logAway => O.log = []
  | .logPublished => O.log <:+: N.log ∨
    N = { O with log := N.log } ∧ N.log.map LogRecord.index = O.log.map LogRecord.index
  | .metaRemoved => LegacyHolds dir O ∨ LegacyHolds dir N

/-- Wherever a `Save` of `N` stops, with whatever failures on its way, `Load` returns `O` or `N`
exactly under the condition of its phase. -/
theorem load_after_stop_iff (padding padding' : LogRecord → Nat) (hrangeO : O.InRange)
    (hformO : O.WellFormed) (hfitsO : O.Fits) (hrangeN : N.InRange) (hformN : N.WellFormed)
    (hfitsN : N.Fits) {dir : DataDir} {script₀ : List Outcome} {w₀ w : World Bytes UInt8}
    (hsaved : save padding O ⟨dir, [], script₀⟩ = (some true, w₀)) {script : List Outcome}
    {result : Option Bool} (hrun : save padding' N ⟨w₀.disk, [], script⟩ = (result, w)) :
    (load w.disk).1 = .ok (some O) ∨ (load w.disk).1 = .ok (some N) ↔
      SurvivesStop O N w₀.disk w.trace := by
  have hspecO := wp_save padding (index_nodup hformO.consecutive)
    (fun record hrecord => (hrangeO.records record hrecord).1) dir script₀
  rw [Prog.Wp, hsaved] at hspecO
  have hold := hspecO.2 rfl
  have hspec := wp_save padding' (index_nodup hformN.consecutive)
    (fun record hrecord => (hrangeN.records record hrecord).1) w₀.disk script
  have hreached : Shows padding' w₀.disk N (savePhase w.trace) w.disk := by
    rw [Prog.Wp, hrun] at hspec
    cases result with
    | none => exact hspec
    | some ok => exact hspec.1
  unfold SurvivesStop
  generalize savePhase w.trace = phase at hreached ⊢
  obtain ⟨hlog, hmeta, hlegacy⟩ := hreached
  cases phase with
  | untouched =>
    simp only at hlog hmeta
    have hload := load_published hrangeO hformO hfitsO (hlog.symm ▸ hold.log)
      (hmeta.trans hold.metaFile)
    exact iff_of_true (.inl (by rw [hload])) trivial
  | logAway => exact load_logAway hrangeO hformO (hmeta.trans hold.metaFile) hlog
  | logPublished =>
    exact load_logPublished hrangeO hformO hrangeN hformN hfitsN (hmeta.trans hold.metaFile) hlog
  | metaRemoved =>
    have hholds : ∀ state, LegacyHolds w.disk state ↔ LegacyHolds w₀.disk state := by
      intro state
      simp only [LegacyHolds, pathExists, fileContent, Disk.readFile, topLevel,
        hlegacy (by decide)]
    rw [load_metaRemoved hmeta, load_metaRemoved hmeta, hholds, hholds]
  | published =>
    have hload := load_published hrangeN hformN hfitsN hlog hmeta
    exact iff_of_true (.inr (by rw [hload])) trivial

/-- The small state with another record. -/
def grownState : PersistentRaftState :=
  ⟨3, 2, 8, 7, smallState.log ++ [⟨9, 3, ascii "DEL|k|"⟩]⟩

theorem grownState_inRange : grownState.InRange where
  currentTerm := by norm_num [grownState]
  votedFor := by norm_num [grownState]
  records := by norm_num [grownState, smallState]
  size := by norm_num [grownState, smallState]

theorem grownState_wellFormed : grownState.WellFormed where
  consecutive := by decide
  applied := by decide
  commit := by decide

theorem grownState_fits : grownState.Fits := by
  show ∀ record ∈ grownState.log, record.command.length ≤ kMaxCommandBytes
  decide +kernel

/-- The small state is saved, and then the grown state up to its `k`-th step. -/
def growUpTo (k : Nat) : Option Bool × World Bytes UInt8 :=
  save (fun _ => 0) grownState
    ⟨(save (fun _ => 0) smallState ⟨∅, [], List.replicate 40 .ok⟩).2.disk, [],
      List.replicate k .ok⟩

/-- The small state is saved first. -/
theorem growUpTo_saved :
    ∃ w₀, save (fun _ => 0) smallState ⟨∅, [], List.replicate 40 .ok⟩ = (some true, w₀) ∧
      ∀ k, growUpTo k = save (fun _ => 0) grownState ⟨w₀.disk, [], List.replicate k .ok⟩ := by
  have hok : (save (fun _ => 0) smallState ⟨∅, [], List.replicate 40 .ok⟩).1 = some true := by
    decide +kernel
  unfold growUpTo
  generalize save (fun _ => 0) smallState ⟨∅, [], List.replicate 40 .ok⟩ = saved at *
  obtain ⟨ok, w₀⟩ := saved
  obtain rfl : ok = some true := hok
  exact ⟨w₀, rfl, fun _ => rfl⟩

/-- With the new log in place and the old meta file the small state is still loaded. -/
theorem load_after_stop_grown :
    (growUpTo 26).1 = none ∧ ((load (growUpTo 26).2.disk).1 = .ok (some smallState) ∨
      (load (growUpTo 26).2.disk).1 = .ok (some grownState)) := by
  have hstopped : (growUpTo 26).1 = none := by decide +kernel
  have hphase : savePhase (growUpTo 26).2.trace = .logPublished := by decide +kernel
  obtain ⟨w₀, hsaved, hgrow⟩ := growUpTo_saved
  generalize hrun : growUpTo 26 = run at hstopped hphase ⊢
  obtain ⟨result, w⟩ := run
  refine ⟨hstopped, ?_⟩
  refine (load_after_stop_iff _ _ smallState_inRange smallState_wellFormed smallState_fits
    grownState_inRange grownState_wellFormed grownState_fits hsaved
      ((hgrow 26).symm.trans hrun)).mpr ?_
  unfold SurvivesStop
  rw [hphase]
  exact .inl ⟨[], [⟨9, 3, ascii "DEL|k|"⟩], rfl⟩

/-- Right after the removal of `meta.bin` nothing is loaded. -/
theorem save_not_atomic :
    ¬ ∀ (padding padding' : LogRecord → Nat) (O N : PersistentRaftState),
      O.InRange → O.WellFormed → N.InRange → N.WellFormed →
      ∀ dir script₀ w₀, save padding O ⟨dir, [], script₀⟩ = (some true, w₀) →
      ∀ script result w, save padding' N ⟨w₀.disk, [], script⟩ = (result, w) →
        result ≠ some true →
        (load w.disk).1 = .ok (some O) ∨ (load w.disk).1 = .ok (some N) := by
  intro hatomic
  have hstopped : (growUpTo 30).1 = none := by decide +kernel
  have hloaded : (match (load (growUpTo 30).2.disk).1 with
      | .ok none => true
      | _ => false) = true := by decide +kernel
  obtain ⟨w₀, hsaved, hgrow⟩ := growUpTo_saved
  generalize hrun : growUpTo 30 = run at hstopped hloaded
  obtain ⟨result, w⟩ := run
  obtain rfl : result = none := hstopped
  rcases hatomic _ _ smallState grownState smallState_inRange smallState_wellFormed
    grownState_inRange grownState_wellFormed ∅ _ w₀ hsaved _ none w ((hgrow 30).symm.trans hrun)
    (by simp) with hone | hone
  all_goals
    simp only [hone] at hloaded
    cases hloaded

end FileRaftStorage

end CquptRaft
