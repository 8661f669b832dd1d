import CquptRaft.Storage.Loading

/-!
# Saving and loading

A state that `Save` has reported as saved is what `Load` returns, whatever the data directory held
before and however many segments the log takes.
-/

namespace CquptRaft

open Files

namespace FileRaftStorage

/-- What was saved is loaded, with every field and record as it was. -/
theorem load_of_save (padding : LogRecord → Nat) {state : PersistentRaftState}
    (hrange : state.InRange) (hform : state.WellFormed) (hfits : state.Fits) {dir : DataDir}
    {script : List Outcome} {w : World Bytes UInt8}
    (hsave : save padding state ⟨dir, [], script⟩ = (some true, w)) :
    load w.disk = (.ok (some state), w.disk) := by
  have hspec := wp_save padding (index_nodup hform.consecutive)
    (fun record hrecord => (hrange.records record hrecord).1) dir script
  rw [Prog.Wp, hsave] at hspec
  have hpublished := hspec.2 rfl
  exact load_published hrange hform hfits hpublished.log hpublished.metaFile

/-- A state of term 3 with the records 7 and 8, of which the first is committed. -/
def smallState : PersistentRaftState :=
  ⟨3, 2, 7, 7, [⟨7, 1, ascii "snapshot"⟩, ⟨8, 3, ascii "SET|k|v"⟩]⟩

theorem smallState_inRange : smallState.InRange where
  currentTerm := by norm_num [smallState]
  votedFor := by norm_num [smallState]
  records := by norm_num [smallState]
  size := by norm_num [smallState]

theorem smallState_wellFormed : smallState.WellFormed where
  consecutive := by decide
  applied := by decide
  commit := by decide

theorem smallState_fits : smallState.Fits := by
  show ∀ record ∈ smallState.log, record.command.length ≤ kMaxCommandBytes
  decide +kernel

/-- An empty data directory gives the small state back. -/
theorem load_of_save_small :
    ∃ w, save (fun _ => 0) smallState ⟨∅, [], List.replicate 40 .ok⟩ = (some true, w) ∧
      load w.disk = (.ok (some smallState), w.disk) := by
  have hok : (save (fun _ => 0) smallState ⟨∅, [], List.replicate 40 .ok⟩).1 = some true := by
    decide +kernel
  generalize hrun : save (fun _ => 0) smallState ⟨∅, [], List.replicate 40 .ok⟩ = result at hok
  obtain ⟨ok, w⟩ := result
  obtain rfl : ok = some true := hok
  exact ⟨w, rfl, load_of_save _ smallState_inRange smallState_wellFormed smallState_fits hrun⟩

end FileRaftStorage

end CquptRaft
