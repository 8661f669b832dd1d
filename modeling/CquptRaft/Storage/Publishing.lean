import CquptRaft.Storage.Staging

/-!
# What `Save` publishes

Behind `prepare`, `Save` moves the old log aside, moves the new one into place, removes the meta
file and moves the new one into place. The operations that a run of it has performed say which of
these are done, and with that what the names that `Load` looks at stand for.
-/

namespace CquptRaft

open Binary Files

namespace FileRaftStorage

variable {padding : LogRecord → Nat} {d : DataDir} {w : World Bytes UInt8}
  {state : PersistentRaftState}

/-! ## Phases -/

/-- How far a `Save` has replaced what was saved before. -/
inductive SavePhase where
  | untouched | logAway | logPublished | metaRemoved | published
  deriving DecidableEq, Repr

/-- The phase after the operations of a run. -/
def savePhase (trace : List (Op Bytes UInt8)) : SavePhase :=
  if .rename kMetaTempFileName kMetaFileName ∈ trace then .published
  else if .remove (topLevel kMetaFileName) ∈ trace then .metaRemoved
  else if .rename kLogTempDirName kLogDirName ∈ trace then .logPublished
  else if .rename kLogDirName kLogBackupDirName ∈ trace ∧
      .rename kLogBackupDirName kLogDirName ∉ trace then .logAway
  else .untouched

/-- A directory with the segments of this log. -/
def HoldsSegments (padding : LogRecord → Nat) (log : List LogRecord)
    (entry : Option (Entry Bytes UInt8)) : Prop :=
  ∃ c : Dir Bytes UInt8, entry = some (.dir c) ∧
    c.entries = ((segments log).map (segmentFile padding)).reverse.map fun f => ⟨f.1, f.2⟩

/-- What the names that `Load` looks at stand for in a phase. -/
structure Shows (padding : LogRecord → Nat) (d : DataDir) (state : PersistentRaftState)
    (phase : SavePhase) (d' : DataDir) : Prop where
  log : match phase with
    | .untouched => d'.lookup kLogDirName = d.lookup kLogDirName
    | .logAway => d'.lookup kLogDirName = none
    | _ => HoldsSegments padding state.log (d'.lookup kLogDirName)
  metaFile : match phase with
    | .published => d'.lookup kMetaFileName = some (.file (metaFields state).flatten)
    | .metaRemoved => d'.lookup kMetaFileName = none
    | _ => d'.lookup kMetaFileName = d.lookup kMetaFileName
  legacy : phase ≠ .published →
    d'.lookup kLegacyStateFileName = d.lookup kLegacyStateFileName

/-- Every state of a run shows what its operations say. -/
def Reached (padding : LogRecord → Nat) (d : DataDir) (state : PersistentRaftState)
    (w : World Bytes UInt8) : Prop := Shows padding d state (savePhase w.trace) w.disk

theorem Reached.script (h : Reached padding d state w) (script : List Outcome) :
    Reached padding d state { w with script } := h

/-- The operations that prepare do not count. -/
theorem savePhase_append {t ops : List (Op Bytes UInt8)} (h : ∀ op ∈ t, isStaging op = true) :
    savePhase (t ++ ops) = savePhase ops := by
  have hrename : ∀ src dst, Op.rename src dst ∉ t := fun src dst hmem => by
    cases h _ hmem
  have hremove : ∀ path, Op.remove path ∉ t := fun path hmem => by
    cases h _ hmem
  simp [savePhase, hrename, hremove]

theorem Staged.reached (h : Staged d w) : Reached padding d state w := by
  have hphase : savePhase w.trace = .untouched := by
    have happend : savePhase (w.trace ++ []) = savePhase [] := savePhase_append h.trace
    rwa [List.append_nil] at happend
  rw [Reached, hphase]
  exact ⟨h.frame _ (by decide) (by decide), h.frame _ (by decide) (by decide),
    fun _ => h.frame _ (by decide) (by decide)⟩

/-! ## The six names -/

/-- What the names that `Save` moves stand for. -/
structure View (d : DataDir)
    (log backup temp metaFile metaTemp legacy : Option (Entry Bytes UInt8)) :
    Prop where
  log : d.lookup kLogDirName = log
  backup : d.lookup kLogBackupDirName = backup
  temp : d.lookup kLogTempDirName = temp
  metaFile : d.lookup kMetaFileName = metaFile
  metaTemp : d.lookup kMetaTempFileName = metaTemp
  legacy : d.lookup kLegacyStateFileName = legacy

namespace View

variable {d' : DataDir} {log backup temp metaFile metaTemp legacy : Option (Entry Bytes UInt8)}

theorem removeBackup (h : View d log backup temp metaFile metaTemp legacy)
    (hop : d.apply (.removeAll kLogBackupDirName) = some d') :
    View d' log none temp metaFile metaTemp legacy := by
  obtain rfl := Option.some.inj hop
  constructor <;> simp +decide [h.log, h.temp, h.metaFile, h.metaTemp, h.legacy]

theorem logAway (h : View d log backup temp metaFile metaTemp legacy)
    (hop : d.apply (.rename kLogDirName kLogBackupDirName) = some d') :
    View d' none log temp metaFile metaTemp legacy := by
  have hlookup := Disk.lookup_rename hop
  constructor <;> simp +decide [hlookup, h.log, h.temp, h.metaFile, h.metaTemp, h.legacy]

theorem logBack (h : View d log backup temp metaFile metaTemp legacy)
    (hop : d.apply (.rename kLogBackupDirName kLogDirName) = some d') :
    View d' backup none temp metaFile metaTemp legacy := by
  have hlookup := Disk.lookup_rename hop
  constructor <;> simp +decide [hlookup, h.backup, h.temp, h.metaFile, h.metaTemp, h.legacy]

theorem publishLog (h : View d log backup temp metaFile metaTemp legacy)
    (hop : d.apply (.rename kLogTempDirName kLogDirName) = some d') :
    View d' temp backup none metaFile metaTemp legacy := by
  have hlookup := Disk.lookup_rename hop
  constructor <;> simp +decide [hlookup, h.backup, h.temp, h.metaFile, h.metaTemp, h.legacy]

theorem removeMeta (h : View d log backup temp metaFile metaTemp legacy)
    (hop : d.apply (.remove (topLevel kMetaFileName)) = some d') :
    View d' log backup temp none metaTemp legacy := by
  have hlookup := Disk.lookup_remove hop
  constructor <;> simp +decide [hlookup, h.log, h.backup, h.temp, h.metaTemp, h.legacy]

theorem publishMeta (h : View d log backup temp metaFile metaTemp legacy)
    (hop : d.apply (.rename kMetaTempFileName kMetaFileName) = some d') :
    View d' log backup temp metaTemp none legacy := by
  have hlookup := Disk.lookup_rename hop
  constructor <;> simp +decide [hlookup, h.log, h.backup, h.temp, h.metaTemp, h.legacy]

end View

/-! ## Phase by phase -/

theorem savePhase_staging {trace : List (Op Bytes UInt8)} {op : Op Bytes UInt8}
    (hop : isStaging op = true) : savePhase (trace ++ [op]) = savePhase trace := by
  cases op with
  | rename _ _ | remove _ => cases hop
  | _ => simp [savePhase]

theorem savePhase_removeMeta {trace : List (Op Bytes UInt8)}
    (h : savePhase trace = .logPublished) :
    savePhase (trace ++ [.remove (topLevel kMetaFileName)]) = .metaRemoved := by
  simp only [savePhase, List.mem_append, List.mem_singleton] at h ⊢
  grind

theorem savePhase_publishMeta (trace : List (Op Bytes UInt8)) :
    savePhase (trace ++ [.rename kMetaTempFileName kMetaFileName]) = .published := by
  simp [savePhase]

theorem savePhase_published {trace : List (Op Bytes UInt8)} (h : savePhase trace = .published)
    (op : Op Bytes UInt8) : savePhase (trace ++ [op]) = .published := by
  simp only [savePhase, List.mem_append] at h ⊢
  grind

open Prog

/-- The new log is in place, and the new meta file is ready. -/
structure LogPublished (padding : LogRecord → Nat) (d : DataDir) (state : PersistentRaftState)
    (w : World Bytes UInt8) : Prop where
  phase : savePhase w.trace = .logPublished
  log : HoldsSegments padding state.log (w.disk.lookup kLogDirName)
  view : ∃ log backup temp, View w.disk log backup temp (d.lookup kMetaFileName)
    (some (.file (metaFields state).flatten)) (d.lookup kLegacyStateFileName)

theorem LogPublished.reached (h : LogPublished padding d state w) : Reached padding d state w := by
  obtain ⟨log, backup, temp, hview⟩ := h.view
  rw [Reached, h.phase]
  exact ⟨h.log, hview.metaFile, fun _ => hview.legacy⟩

theorem LogPublished.script (h : LogPublished padding d state w) (script : List Outcome) :
    LogPublished padding d state { w with script } := ⟨h.phase, h.log, h.view⟩

theorem LogPublished.syncRoot (h : LogPublished padding d state w) (script : List Outcome) :
    LogPublished padding d state ⟨w.disk, w.trace ++ [.syncRoot], script⟩ :=
  ⟨(savePhase_staging rfl).trans h.phase, h.log, h.view⟩

theorem LogPublished.removeBackup (h : LogPublished padding d state w) {disk : DataDir}
    (hop : w.disk.apply (.removeAll kLogBackupDirName) = some disk) (script : List Outcome) :
    LogPublished padding d state ⟨disk, w.trace ++ [.removeAll kLogBackupDirName], script⟩ := by
  obtain ⟨log, backup, temp, hview⟩ := h.view
  have hview' := hview.removeBackup hop
  refine ⟨(savePhase_staging rfl).trans h.phase, ?_, log, none, temp, hview'⟩
  have hlog := h.log
  rwa [hview.log, ← hview'.log] at hlog

/-- The end of `ReplaceDirectory`, behind the rename that publishes the log. -/
theorem wp_finishDirectory (h : LogPublished padding d state w) :
    (do
      if !(← perform .syncRoot) then return false
      if ← perform (.removeAll kLogBackupDirName) then
        let _ ← perform .syncRoot
      return true : SaveProg Bool).Wp (fun _ w' => LogPublished padding d state w')
      (Reached padding d state) w := by
  refine wp_stepOrFail h.reached (fun script => h.script script) fun disk script hdisk => ?_
  obtain rfl := Option.some.inj hdisk
  have h₁ := h.syncRoot script
  refine wp_bind (wp_perform h₁.reached (fun script => ?_) fun disk script hdisk => ?_)
  · exact wp_pure (h₁.script script)
  · have h₂ := h₁.removeBackup hdisk script
    refine wp_bind (wp_perform h₂.reached (fun script => ?_) fun disk script hdisk => ?_)
    · exact wp_pure (h₂.script script)
    · obtain rfl := Option.some.inj hdisk
      exact wp_pure (h₂.syncRoot script)

/-- The rename that publishes the log, from a directory without a log. -/
theorem wp_publishLog {t : List (Op Bytes UInt8)} (ht : ∀ op ∈ t, isStaging op = true)
    {moved : List (Op Bytes UInt8)} {backup : Option (Entry Bytes UInt8)}
    (htrace : w.trace = t ++ moved)
    (hmoved : moved = [] ∧ d.lookup kLogDirName = none ∧ backup = none ∨
      moved = [.rename kLogDirName kLogBackupDirName] ∧ backup = d.lookup kLogDirName)
    {temp : Option (Entry Bytes UInt8)} (htemp : HoldsSegments padding state.log temp)
    (hview : View w.disk none backup temp (d.lookup kMetaFileName)
      (some (.file (metaFields state).flatten)) (d.lookup kLegacyStateFileName)) :
    (do
      if !(← perform (.rename kLogTempDirName kLogDirName)) then
        if (← look (pathExists · kLogBackupDirName)) && !(← look (pathExists · kLogDirName)) then
          let _ ← perform (.rename kLogBackupDirName kLogDirName)
        return false
      if !(← perform .syncRoot) then return false
      if ← perform (.removeAll kLogBackupDirName) then
        let _ ← perform .syncRoot
      return true : SaveProg Bool).Wp
      (fun ok w' => Reached padding d state w' ∧ (ok = true → LogPublished padding d state w'))
      (Reached padding d state) w := by
  have hphase : savePhase w.trace = savePhase moved := by rw [htrace, savePhase_append ht]
  -- nothing has been published yet
  have hreached : Reached padding d state w := by
    rw [Reached, hphase]
    rcases hmoved with ⟨rfl, hnone, rfl⟩ | ⟨rfl, rfl⟩
    · exact ⟨hview.log.trans hnone.symm, hview.metaFile, fun _ => hview.legacy⟩
    · exact ⟨hview.log, hview.metaFile, fun _ => hview.legacy⟩
  refine wp_bind (wp_perform hreached (fun script => ?_) fun disk script hdisk => ?_)
  · -- the old log goes back to its place
    refine wp_bind (wp_look ?_)
    refine wp_bind (wp_look ?_)
    split
    · rename_i hback
      refine wp_bind (wp_perform hreached (fun script => ?_) fun disk script hdisk => ?_)
      · exact wp_pure ⟨hreached, by simp⟩
      · refine wp_pure ⟨?_, by simp⟩
        rcases hmoved with ⟨-, -, rfl⟩ | ⟨rfl, rfl⟩
        · simp [pathExists, hview.backup] at hback
        · have hview' := hview.logBack hdisk
          have hphase' : savePhase (w.trace ++ [.rename kLogBackupDirName kLogDirName]) =
              .untouched := by
            rw [htrace, List.append_assoc, savePhase_append ht]
            decide
          rw [Reached, hphase']
          exact ⟨hview'.log, hview'.metaFile, fun _ => hview'.legacy⟩
    · exact wp_pure ⟨hreached, by simp⟩
  · have hview' := hview.publishLog hdisk
    have hpublished : LogPublished padding d state
        ⟨disk, w.trace ++ [.rename kLogTempDirName kLogDirName], script⟩ := by
      refine ⟨?_, ?_, temp, backup, none, hview'⟩
      · rw [htrace, List.append_assoc, savePhase_append ht]
        rcases hmoved with ⟨rfl, -⟩ | ⟨rfl, -⟩ <;> decide
      · rw [hview'.log]
        exact htemp
    exact (wp_finishDirectory hpublished).imp (fun _ _ h => ⟨h.reached, fun _ => h⟩) fun _ => id

theorem wp_replaceDirectory (h : Prepared padding d state w) :
    (replaceDirectory kLogTempDirName kLogDirName kLogBackupDirName).Wp
      (fun ok w' => Reached padding d state w' ∧ (ok = true → LogPublished padding d state w'))
      (Reached padding d state) w := by
  have hstaged := h.staged
  obtain ⟨c, htemp, hentries⟩ := h.dir
  refine wp_stepOrFail hstaged.reached
    (fun script => ⟨(hstaged.script script).reached, by simp⟩) fun disk script hdisk => ?_
  have hview : View w.disk (d.lookup kLogDirName) (d.lookup kLogBackupDirName) (some (.dir c))
      (d.lookup kMetaFileName) (some (.file (metaFields state).flatten))
      (d.lookup kLegacyStateFileName) :=
    ⟨hstaged.frame _ (by decide) (by decide), hstaged.frame _ (by decide) (by decide), htemp,
      hstaged.frame _ (by decide) (by decide), h.metaTemp,
      hstaged.frame _ (by decide) (by decide)⟩
  have hview₁ := hview.removeBackup hdisk
  have ht : ∀ op ∈ w.trace ++ [.removeAll kLogBackupDirName], isStaging op = true := by
    intro op hop
    rcases List.mem_append.mp hop with hold | hnew
    · exact hstaged.trace op hold
    · rw [List.mem_singleton.mp hnew]
      rfl
  have hsegments : HoldsSegments padding state.log (some (.dir c)) := ⟨c, rfl, hentries⟩
  have hreached : Reached padding d state
      ⟨disk, w.trace ++ [.removeAll kLogBackupDirName], script⟩ := by
    rw [Reached, ← List.append_nil (w.trace ++ _), savePhase_append ht]
    exact ⟨hview₁.log, hview₁.metaFile, fun _ => hview₁.legacy⟩
  refine wp_bind (wp_look ?_)
  split
  · refine wp_stepOrFail hreached (fun script => ⟨hreached, by simp⟩) fun disk₂ script₂ hdisk₂ => ?_
    exact wp_publishLog ht rfl (.inr ⟨rfl, rfl⟩) hsegments (hview₁.logAway hdisk₂)
  · rename_i hno
    have hnone : d.lookup kLogDirName = none := by
      simpa [pathExists, hview₁.log] using hno
    exact wp_publishLog ht (List.append_nil _).symm (.inl ⟨rfl, hnone, rfl⟩) hsegments
      (hnone ▸ hview₁)

/-- Log and meta file are in place. -/
structure Published (padding : LogRecord → Nat) (state : PersistentRaftState)
    (w : World Bytes UInt8) : Prop where
  phase : savePhase w.trace = .published
  log : HoldsSegments padding state.log (w.disk.lookup kLogDirName)
  metaFile : w.disk.lookup kMetaFileName = some (.file (metaFields state).flatten)

theorem Published.reached (h : Published padding state w) : Reached padding d state w := by
  rw [Reached, h.phase]
  exact ⟨h.log, h.metaFile, fun hne => absurd rfl hne⟩

theorem Published.script (h : Published padding state w) (script : List Outcome) :
    Published padding state { w with script } := ⟨h.phase, h.log, h.metaFile⟩

/-- Other names may be touched afterwards. -/
theorem Published.step (h : Published padding state w) {disk : DataDir} (op : Op Bytes UInt8)
    (script : List Outcome) (hlog : disk.lookup kLogDirName = w.disk.lookup kLogDirName)
    (hmeta : disk.lookup kMetaFileName = w.disk.lookup kMetaFileName) :
    Published padding state ⟨disk, w.trace ++ [op], script⟩ :=
  ⟨savePhase_published h.phase op, hlog ▸ h.log, hmeta.trans h.metaFile⟩

/-- The rename that publishes the meta file, where no meta file is. -/
theorem wp_publishMeta (hreached : Reached padding d state w)
    (hlog : HoldsSegments padding state.log (w.disk.lookup kLogDirName))
    {log backup temp metaFile legacy : Option (Entry Bytes UInt8)}
    (hview : View w.disk log backup temp metaFile (some (.file (metaFields state).flatten))
      legacy) :
    (do
      if !(← perform (.rename kMetaTempFileName kMetaFileName)) then return false
      perform .syncRoot : SaveProg Bool).Wp
      (fun ok w' => Reached padding d state w' ∧ (ok = true → Published padding state w'))
      (Reached padding d state) w := by
  refine wp_stepOrFail hreached (fun script => ⟨hreached, by simp⟩) fun disk script hdisk => ?_
  have hview' := hview.publishMeta hdisk
  have hpublished : Published padding state
      ⟨disk, w.trace ++ [.rename kMetaTempFileName kMetaFileName], script⟩ := by
    refine ⟨savePhase_publishMeta w.trace, ?_, hview'.metaFile⟩
    rwa [hview'.log, ← hview.log]
  refine wp_perform hpublished.reached (fun script => ⟨hpublished.reached, by simp⟩)
    fun disk₂ script₂ hdisk₂ => ?_
  obtain rfl := Option.some.inj hdisk₂
  have hsynced := hpublished.step .syncRoot script₂ rfl rfl
  exact ⟨hsynced.reached, fun _ => hsynced⟩

theorem wp_replaceFile (h : LogPublished padding d state w) :
    (replaceFile kMetaTempFileName kMetaFileName).Wp
      (fun ok w' => Reached padding d state w' ∧ (ok = true → Published padding state w'))
      (Reached padding d state) w := by
  obtain ⟨log, backup, temp, hview⟩ := h.view
  refine wp_bind (wp_look ?_)
  split
  · refine wp_stepOrFail h.reached (fun script => ⟨h.reached, by simp⟩)
      fun disk script hdisk => ?_
    have hview' := hview.removeMeta hdisk
    have hlog : HoldsSegments padding state.log (disk.lookup kLogDirName) := by
      rw [hview'.log, ← hview.log]
      exact h.log
    refine wp_publishMeta ?_ hlog hview'
    rw [Reached, savePhase_removeMeta h.phase]
    exact ⟨hlog, hview'.metaFile, fun _ => hview'.legacy⟩
  · exact wp_publishMeta h.reached h.log hview

/-- Every run of `Save` shows what its operations say, and one that reports success has
published. -/
theorem wp_save (padding : LogRecord → Nat) (hnodup : (state.log.map LogRecord.index).Nodup)
    (hlt : ∀ record ∈ state.log, record.index < 2 ^ 64) (d : DataDir) (script : List Outcome) :
    (save padding state).Wp
      (fun ok w' => Reached padding d state w' ∧ (ok = true → Published padding state w'))
      (Reached padding d state) ⟨d, [], script⟩ := by
  have hprepare : (prepare padding state).Wp
      (fun ok w' => Staged d w' ∧ (ok = true → Prepared padding d state w'))
      (Reached padding d state) ⟨d, [], script⟩ :=
    (wp_prepare hnodup hlt (.refl d script)).imp (fun _ _ => id) fun _ hw => hw.reached
  refine wp_orFail hprepare (fun w₁ h₁ => ⟨h₁.1.reached, by simp⟩) fun w₁ h₁ => ?_
  refine wp_orFail (wp_replaceDirectory (h₁.2 rfl)) (fun w₂ h₂ => ⟨h₂.1, by simp⟩) fun w₂ h₂ => ?_
  refine wp_orFail (wp_replaceFile (h₂.2 rfl)) (fun w₃ h₃ => ⟨h₃.1, by simp⟩) fun w₃ h₃ => ?_
  -- what is left only removes the legacy files
  have hremove : ∀ {w : World Bytes UInt8} {disk : DataDir} {name : Bytes} (script : List Outcome),
      Published padding state w → name ≠ kLogDirName → name ≠ kMetaFileName →
      w.disk.apply (.remove (topLevel name)) = some disk →
      Published padding state ⟨disk, w.trace ++ [.remove (topLevel name)], script⟩ := by
    intro w disk name script hw hlog hmeta hdisk
    refine hw.step _ script ?_ ?_
    · rw [Disk.lookup_remove hdisk, if_neg hlog.symm]
    · rw [Disk.lookup_remove hdisk, if_neg hmeta.symm]
  have hlast : ∀ {w : World Bytes UInt8}, Published padding state w →
      (do
        let _ ← perform (.remove (topLevel kLegacyTempFileName))
        return true : SaveProg Bool).Wp
        (fun ok w' => Reached padding d state w' ∧ (ok = true → Published padding state w'))
        (Reached padding d state) w := by
    intro w hw
    refine wp_bind (wp_perform hw.reached (fun script => ?_) fun disk script hdisk => ?_)
    · exact wp_pure ⟨hw.reached, fun _ => hw.script script⟩
    · have hnext := hremove script hw (by decide) (by decide) hdisk
      exact wp_pure ⟨hnext.reached, fun _ => hnext⟩
  have hpublished := h₃.2 rfl
  refine wp_bind (wp_perform hpublished.reached (fun script => ?_) fun disk script hdisk => ?_)
  · exact hlast (hpublished.script script)
  · exact hlast (hremove script hpublished (by decide) (by decide) hdisk)

end FileRaftStorage

end CquptRaft
