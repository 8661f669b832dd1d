import CquptRaft.Storage.RoundTrip
import CquptRaft.Theory.Traces

/-!
# The data directory over many calls

A node saves its whole state again and again, and loads it when it is constructed. To the node the
data directory is one cell. A `Save` that has not begun to replace the old files leaves the cell as
it is, one that has published the meta file has written it, and one that was cut in between leaves
nothing to rely on, until a later `Save` gets through.

Every sequence of calls on the files, whatever fails in them and wherever the process stops, goes
the way of the cell.
-/

namespace CquptRaft

open Binary Files Traces

namespace FileRaftStorage

/-! ## The cell -/

/-- What a node may rely on. -/
inductive Cell where
  | holds (state : Option PersistentRaftState)
  /-- Some `Save` was cut while it replaced the files. -/
  | torn

/-- The calls, with what they return and how far a `Save` has got. There is no result when the
process stops before the call is through. -/
inductive StorageCall where
  | save (state : PersistentRaftState) (phase : SavePhase) (result : Option Bool)
  | load (result : Except LoadError (Option PersistentRaftState))

/-- The cell behind a `Save`. -/
def Cell.save (cell : Cell) (state : PersistentRaftState) : SavePhase → Cell
  | .untouched => cell
  | .published => .holds (some state)
  | .logAway | .logPublished | .metaRemoved => .torn

inductive CellStep : Cell → StorageCall → Cell → Prop
  | save {cell : Cell} {state : PersistentRaftState} {phase : SavePhase} {result : Option Bool}
    (hresult : result = some true → phase = .published) :
    CellStep cell (.save state phase result) (cell.save state phase)
  | load {state : Option PersistentRaftState} :
    CellStep (.holds state) (.load (.ok state)) (.holds state)
  | loadTorn {result : Except LoadError (Option PersistentRaftState)} :
    CellStep .torn (.load result) .torn

def cellSystem : System Cell StorageCall where
  step := CellStep
  silent _ _ := False

/-! ## The files -/

/-- A state that can be saved. The bounds are those of the fields in the files. -/
structure Savable (state : PersistentRaftState) : Prop where
  range : state.InRange
  form : state.WellFormed
  fits : state.Fits

/-- The calls on the files. `padding` is what a header happens to hold between its fields. -/
inductive FileStep : DataDir → StorageCall → DataDir → Prop
  | save {d : DataDir} {state : PersistentRaftState} {padding : LogRecord → Nat}
    {script : List Outcome} {result : Option Bool} {w : World Bytes UInt8} (hstate : Savable state)
    (hrun : FileRaftStorage.save padding state ⟨d, [], script⟩ = (result, w)) :
    FileStep d (.save state (savePhase w.trace) result) w.disk
  | load {d : DataDir} : FileStep d (.load (FileRaftStorage.load d).1) (FileRaftStorage.load d).2

/-- Other files of the directory may come and go. -/
def fileSystem : System DataDir StorageCall where
  step := FileStep
  silent d d' := ∀ name ∈ [kLogDirName, kMetaFileName, kLegacyStateFileName],
    d'.lookup name = d.lookup name

/-- What the files stand for: nothing, a state of the old format, or one that was saved. -/
inductive Holds (d : DataDir) : Option PersistentRaftState → Prop
  | nothing (hmeta : d.lookup kMetaFileName = none)
    (hlegacy : d.lookup kLegacyStateFileName = none) : Holds d none
  | legacy {content : Bytes} {state : PersistentRaftState} (hmeta : d.lookup kMetaFileName = none)
    (hlegacy : d.lookup kLegacyStateFileName = some (.file content))
    (hload : loadLegacy content = .ok state) : Holds d (some state)
  | saved {state : PersistentRaftState} {padding : LogRecord → Nat} (hstate : Savable state)
    (hlog : HoldsSegments padding state.log (d.lookup kLogDirName))
    (hmeta : d.lookup kMetaFileName = some (.file (metaFields state).flatten)) :
    Holds d (some state)

variable {d d' : DataDir} {state : Option PersistentRaftState}

theorem Holds.load (h : Holds d state) : FileRaftStorage.load d = (.ok state, d) := by
  cases h with
  | nothing hmeta hlegacy =>
    simp [FileRaftStorage.load, FileRaftStorage.loadWith, pathExists, hmeta, hlegacy]
  | legacy hmeta hlegacy hload =>
    rw [loadLegacy] at hload
    simp [FileRaftStorage.load, FileRaftStorage.loadWith, pathExists, fileContent, Disk.readFile,
      topLevel, hmeta, hlegacy, hload, Except.map]
  | saved hstate hlog hmeta =>
    exact load_published hstate.range hstate.form hstate.fits hlog hmeta

/-- Three names count. -/
theorem Holds.congr (h : Holds d state) (hlog : d'.lookup kLogDirName = d.lookup kLogDirName)
    (hmeta : d'.lookup kMetaFileName = d.lookup kMetaFileName)
    (hlegacy : d'.lookup kLegacyStateFileName = d.lookup kLegacyStateFileName) :
    Holds d' state := by
  cases h with
  | nothing hmeta' hlegacy' => exact .nothing (hmeta.trans hmeta') (hlegacy.trans hlegacy')
  | legacy hmeta' hlegacy' hload =>
    exact .legacy (hmeta.trans hmeta') (hlegacy.trans hlegacy') hload
  | saved hstate hlog' hmeta' => exact .saved hstate (hlog ▸ hlog') (hmeta.trans hmeta')

/-- The directory is as the cell says. -/
def Matches (d : DataDir) (cell : Cell) : Prop := ∀ state, cell = .holds state → Holds d state

theorem Matches.save {cell : Cell} (h : Matches d cell) {new : PersistentRaftState}
    {padding : LogRecord → Nat} {script : List Outcome} {result : Option Bool}
    {w : World Bytes UInt8} (hnew : Savable new)
    (hrun : FileRaftStorage.save padding new ⟨d, [], script⟩ = (result, w)) :
    (result = some true → savePhase w.trace = .published) ∧
      Matches w.disk (cell.save new (savePhase w.trace)) := by
  have hspec := wp_save padding (index_nodup hnew.form.consecutive)
    (fun record hrecord => (hnew.range.records record hrecord).1) d script
  rw [Prog.Wp, hrun] at hspec
  obtain ⟨hshows, hok⟩ : Shows padding d new (savePhase w.trace) w.disk ∧
      (result = some true → savePhase w.trace = .published) := by
    cases result with
    | none => exact ⟨hspec, by simp⟩
    | some ok => exact ⟨hspec.1, fun hok => (hspec.2 (Option.some.inj hok)).phase⟩
  refine ⟨hok, ?_⟩
  generalize savePhase w.trace = phase at hshows
  obtain ⟨hlog, hmeta, hlegacy⟩ := hshows
  intro state hcell
  cases phase with
  | untouched => exact (h state hcell).congr hlog hmeta (hlegacy (by decide))
  | logAway | logPublished | metaRemoved => cases hcell
  | published =>
    cases hcell
    exact .saved hnew hlog hmeta

theorem matches_simulation : Simulation fileSystem cellSystem Matches where
  step {d d' cell call} h hstep := by
    cases hstep with
    | save hnew hrun =>
      obtain ⟨hresult, hmatches⟩ := h.save hnew hrun
      exact ⟨_, .save hresult, hmatches⟩
    | load =>
      cases cell with
      | holds state =>
        have hload := (h state rfl).load
        rw [hload]
        exact ⟨.holds state, .load, h⟩
      | torn => exact ⟨.torn, .loadTorn, fun _ hcell => by cases hcell⟩
  silent {d d' cell} h hsame := by
    intro state hcell
    exact (h state hcell).congr (hsame _ (by simp)) (hsame _ (by simp)) (hsame _ (by simp))

/-- The data directory is a cell: along every sequence of `Save` and `Load` there is a cell with the
same calls and results. As long as it holds a state, `Load` returns this state and leaves the files
as they are. -/
theorem data_directory_refines {calls : List StorageCall} (hstart : Holds d state)
    (hrun : fileSystem.Run d calls d') :
    ∃ cell, cellSystem.Run (.holds state) calls cell ∧
      ∀ state', cell = .holds state' → FileRaftStorage.load d' = (.ok state', d') := by
  have hmatches : Matches d (.holds state) := fun _ hcell => (Cell.holds.inj hcell) ▸ hstart
  obtain ⟨cell, hcell, hmatches'⟩ := matches_simulation.run hmatches hrun
  exact ⟨cell, hcell, fun state' heq => (hmatches' state' heq).load⟩

theorem smallState_savable : Savable smallState :=
  ⟨smallState_inRange, smallState_wellFormed, smallState_fits⟩

/-- The small state is saved in an empty directory and loaded again. -/
theorem data_directory_refines_small :
    ∃ (d : DataDir) (phase : SavePhase) (result : Except LoadError (Option PersistentRaftState))
      (cell : Cell),
      fileSystem.Run ∅ [.save smallState phase (some true), .load result] d ∧
        cellSystem.Run (.holds none) [.save smallState phase (some true), .load result] cell ∧
        ∀ state', cell = .holds state' → FileRaftStorage.load d = (.ok state', d) := by
  have hok : (save (fun _ => 0) smallState ⟨∅, [], List.replicate 40 .ok⟩).1 = some true := by
    decide +kernel
  generalize hrun : save (fun _ => 0) smallState ⟨∅, [], List.replicate 40 .ok⟩ = result at hok
  obtain ⟨ok, w⟩ := result
  obtain rfl : ok = some true := hok
  have hcalls : fileSystem.Run ∅
      [.save smallState (savePhase w.trace) (some true), .load (FileRaftStorage.load w.disk).1]
      (FileRaftStorage.load w.disk).2 :=
    .step (.step .refl (FileStep.save smallState_savable hrun)) FileStep.load
  obtain ⟨cell, hcell, hload⟩ := data_directory_refines (.nothing rfl rfl) hcalls
  exact ⟨_, _, _, cell, hcalls, hcell, hload⟩

end FileRaftStorage

end CquptRaft
