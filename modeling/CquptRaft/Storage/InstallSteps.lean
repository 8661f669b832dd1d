import CquptRaft.Storage.SnapshotInstall

/-!
# A handler on its own names

At every point an `OnInstallSnapshot` handler has names of its own (`Owns`): the temporary file from
its opening to the end of the copy, and the staging directory from the moment the time is taken to
the rename. As long as no other handler touches them, `Facts` says what lies there. A file operation
keeps the facts of its handler, and `Effect` says which names it touches.
-/

namespace CquptRaft

open Files (Path)
open Volumes FileSnapshotStorage

namespace InstallPoint

/-- From the opening of the temporary file to the end of the copy. -/
def usesTemp : InstallPoint → Bool
  | writingTemp .. | saving | lookingForExisting _ | readingExistingMeta _
  | openingExistingData .. | readingExistingData .. | clearingStaging _ | makingStaging _
  | openingInput _ | openingOutput .. | copying .. => true
  | _ => false

/-- The time in the name of the staging directory, up to the rename. -/
def time? : InstallPoint → Option Nat
  | lookingForExisting nowMs | readingExistingMeta nowMs | openingExistingData nowMs _
  | readingExistingData nowMs _ _ _ | clearingStaging nowMs | makingStaging nowMs
  | openingInput nowMs | openingOutput nowMs _ | copying nowMs _ _ _ _ | flushing nowMs _ _ _
  | openingChecksum nowMs | computingChecksum nowMs _ _ | openingMeta nowMs _
  | writingMeta nowMs _ _ _ | clearingFinal nowMs | publishing nowMs => some nowMs
  | _ => none

/-- The files that are written, and the one that is copied. -/
def openFiles : InstallPoint → List Nat
  | writingTemp file _ => [file]
  | openingOutput _ input => [input]
  | copying _ input output _ _ => [input, output]
  | flushing _ output _ _ => [output]
  | writingMeta _ _ file _ => [file]
  | _ => []

end InstallPoint

def stagedData (request : InstallSnapshotRequest Bytes) (nowMs : Nat) : Path Bytes :=
  ⟨some (stagingDir request.lastIncludedIndex nowMs), kSnapshotDataFileName⟩

def stagedMeta (request : InstallSnapshotRequest Bytes) (nowMs : Nat) : Path Bytes :=
  ⟨some (stagingDir request.lastIncludedIndex nowMs), kSnapshotMetaFileName⟩

namespace InstallPoint

variable {temp : Path Bytes} {request : InstallSnapshotRequest Bytes} {v v' : SnapshotVolume}
  {point point' : InstallPoint} {out : InstallOutcome} {clock : Nat}

/-- The names that no other handler opens, writes or moves meanwhile. -/
def Owns (temp : Path Bytes) (request : InstallSnapshotRequest Bytes) (point : InstallPoint)
    (q : Path Bytes) : Prop :=
  point.usesTemp = true ∧ q = temp ∨
    ∃ nowMs, point.time? = some nowMs ∧ q.dir = some (stagingDir request.lastIncludedIndex nowMs)

/-- What the files of a handler hold. -/
def Facts (temp : Path Bytes) (request : InstallSnapshotRequest Bytes) (v : SnapshotVolume) :
    InstallPoint → Prop
  | writingTemp file written =>
    v.Held temp file (request.snapshotData.take written) ∧ written ≤ request.snapshotData.length
  | saving | lookingForExisting _ | readingExistingMeta _ | openingExistingData ..
  | readingExistingData .. | clearingStaging _ | makingStaging _ | openingInput _ =>
    v.Holds temp request.snapshotData
  | openingOutput _ input => v.Held temp input request.snapshotData
  | copying nowMs input output buffer written =>
    v.Held temp input request.snapshotData ∧
      v.Held (stagedData request nowMs) output (buffer.take written) ∧ input ≠ output ∧
      buffer <+: request.snapshotData ∧ written ≤ buffer.length
  | flushing nowMs output buffer written =>
    v.Held (stagedData request nowMs) output (buffer.take written) ∧
      buffer = request.snapshotData ∧ written ≤ buffer.length
  | openingChecksum nowMs | computingChecksum nowMs _ _ | openingMeta nowMs _ =>
    v.Holds (stagedData request nowMs) request.snapshotData
  | writingMeta nowMs checksum file written =>
    v.Holds (stagedData request nowMs) request.snapshotData ∧
      v.Held (stagedMeta request nowMs) file
        ((metaBytes (stagedFields request nowMs checksum)).take written) ∧
      written ≤ (metaBytes (stagedFields request nowMs checksum)).length
  | clearingFinal nowMs | publishing nowMs =>
    v.Holds (stagedData request nowMs) request.snapshotData ∧
      ∃ checksum, v.Holds (stagedMeta request nowMs)
        (metaBytes (stagedFields request nowMs checksum))
  | _ => True

/-- The facts of a handler survive what does not touch its names and its files. -/
theorem Facts.frame {names : Path Bytes → Prop} {numbers : Nat → Prop} (hwf : v.Wf)
    (h : point.Facts temp request v) (hframe : Volume.Frame v v' names numbers)
    (hnames : ∀ q, point.Owns temp request q → ¬ names q)
    (hnumbers : ∀ n ∈ point.openFiles, ¬ numbers n) : point.Facts temp request v' := by
  have htemp : point.usesTemp = true → ¬ names temp := fun huse => hnames temp (.inl ⟨huse, rfl⟩)
  have hdata : ∀ nowMs, point.time? = some nowMs → ¬ names (stagedData request nowMs) :=
    fun nowMs ht => hnames _ (.inr ⟨nowMs, ht, rfl⟩)
  have hmeta : ∀ nowMs, point.time? = some nowMs → ¬ names (stagedMeta request nowMs) :=
    fun nowMs ht => hnames _ (.inr ⟨nowMs, ht, rfl⟩)
  cases point with
  | writingTemp file written =>
    exact ⟨h.1.frame hframe (htemp rfl) (hnumbers file (by simp [openFiles])), h.2⟩
  | openingOutput nowMs input =>
    exact Volume.Held.frame h hframe (htemp rfl) (hnumbers input (by simp [openFiles]))
  | copying nowMs input output buffer written =>
    exact ⟨h.1.frame hframe (htemp rfl) (hnumbers input (by simp [openFiles])),
      h.2.1.frame hframe (hdata nowMs rfl) (hnumbers output (by simp [openFiles])), h.2.2⟩
  | flushing nowMs output buffer written =>
    exact ⟨h.1.frame hframe (hdata nowMs rfl) (hnumbers output (by simp [openFiles])), h.2⟩
  | writingMeta nowMs checksum file written =>
    exact ⟨h.1.frame hwf hframe (hdata nowMs rfl),
      h.2.1.frame hframe (hmeta nowMs rfl) (hnumbers file (by simp [openFiles])), h.2.2⟩
  | clearingFinal nowMs | publishing nowMs =>
    obtain ⟨hholds, checksum, hbytes⟩ := h
    exact ⟨hholds.frame hwf hframe (hdata nowMs rfl), checksum,
      hbytes.frame hwf hframe (hmeta nowMs rfl)⟩
  | openingChecksum nowMs | computingChecksum nowMs _ _ | openingMeta nowMs _ =>
    exact Volume.Holds.frame hwf h hframe (hdata nowMs rfl)
  | saving | lookingForExisting _ | readingExistingMeta _ | openingExistingData _ _
  | readingExistingData _ _ _ _ | clearingStaging _ | makingStaging _ | openingInput _ =>
    exact Volume.Holds.frame hwf h hframe (htemp rfl)
  | received | creatingDirectory | openingTemp | syncingRoot | removingInput | removingStaging _
  | removingTemp | loading | finishing | pruning | failed _ | returned => trivial

/-! ## What a step touches -/

/-- A step to `point'` that keeps to the names and files of `point`. -/
structure Keeps (temp : Path Bytes) (request : InstallSnapshotRequest Bytes) (v : SnapshotVolume)
    (point point' : InstallPoint) : Prop where
  files : ∀ n ∈ point'.openFiles, n ∈ point.openFiles ∨
    ∃ q, point.Owns temp request q ∧ v.find q = some n
  uses : point'.usesTemp = true → point.usesTemp = true
  time : ∀ nowMs, point'.time? = some nowMs → point.time? = some nowMs

/-- What a step may do when the clock shows `clock`. -/
inductive Effect (temp : Path Bytes) (request : InstallSnapshotRequest Bytes) (clock : Nat)
    (v : SnapshotVolume) : InstallPoint → SnapshotVolume → InstallPoint → Prop
  /-- Files are read, or names go away. -/
  | quiet {v' : SnapshotVolume} {point point' : InstallPoint}
      (find : ∀ q, v'.find q = none ∨ v'.find q = v.find q) (content : v'.content = v.content)
      (next : v'.next = v.next) (keeps : point.Keeps temp request v point') :
      Effect temp request clock v point v' point'
  | takesTime : Effect temp request clock v .saving v (.lookingForExisting clock)
  | opensTemp {v' : SnapshotVolume} {n : Nat} (opened : v.openTrunc temp = some (v', n)) :
      Effect temp request clock v .openingTemp v' (.writingTemp n 0)
  /-- A file of the staging directory is opened. -/
  | opens {v' : SnapshotVolume} {point point' : InstallPoint} {nowMs n : Nat} {name : Bytes}
      (opened : v.openTrunc ⟨some (stagingDir request.lastIncludedIndex nowMs), name⟩ =
        some (v', n))
      (time : point.time? = some nowMs) (time' : point'.time? = some nowMs)
      (files : ∀ m ∈ point'.openFiles, m = n ∨ m ∈ point.openFiles)
      (uses : point'.usesTemp = true → point.usesTemp = true) :
      Effect temp request clock v point v' point'
  | writes {point point' : InstallPoint} {q : Path Bytes} {n : Nat} {bytes : Bytes} (new : Bytes)
      (held : v.Held q n bytes) (owns : point.Owns temp request q) (file : n ∈ point.openFiles)
      (keeps : point.Keeps temp request v point') :
      Effect temp request clock v point (v.setContent n new) point'
  | renames {v' : SnapshotVolume} {nowMs : Nat}
      (renamed : v.rename (stagingDir request.lastIncludedIndex nowMs)
        (finalDir request.lastIncludedIndex) = some v') :
      Effect temp request clock v (.publishing nowMs) v' .syncingRoot

theorem Effect.same (keeps : point.Keeps temp request v point') :
    Effect temp request clock v point v point' :=
  .quiet (fun _ => .inr rfl) rfl rfl keeps

/-- A step from `point` has the effect of one of the kinds and leaves the facts of the point it
reaches. -/
def Advances (temp : Path Bytes) (request : InstallSnapshotRequest Bytes) (clock : Nat)
    (v : SnapshotVolume) (point : InstallPoint) (result : SnapshotVolume × InstallPoint) : Prop :=
  Effect temp request clock v point result.1 result.2 ∧ result.2.Facts temp request result.1

theorem advances_same (keeps : point.Keeps temp request v point')
    (hfacts : point'.Facts temp request v) : point.Advances temp request clock v (v, point') :=
  ⟨.same keeps, hfacts⟩

theorem advances_quiet (hwf : v.Wf) (find : ∀ q, v'.find q = none ∨ v'.find q = v.find q)
    (content : v'.content = v.content) (next : v'.next = v.next)
    (keeps : point.Keeps temp request v point') (hfacts : point'.Facts temp request v) :
    point.Advances temp request clock v (v', point') :=
  ⟨.quiet find content next keeps,
    hfacts.frame hwf (.of_shrinks find content next) (fun _ _ h => h) fun _ _ h => h⟩

/-- A point that has no name and no file of its own. -/
theorem keeps_of_free (hfiles : point'.openFiles = []) (huses : point'.usesTemp = false)
    (htime : point'.time? = none) : point.Keeps temp request v point' := by
  constructor <;> simp [hfiles, huses, htime]

theorem advances_removeNext {next : InstallPoint} (hwf : v.Wf) (name file : Bytes)
    (hself : point.Facts temp request v) (hnext : point.Keeps temp request v next)
    (hnextFacts : next.Facts temp request v) :
    point.Advances temp request clock v
      (match v.removeNext name file with
      | (v, true) => (v, next)
      | (v, false) => (v, point)) := by
  have hfind := Volume.find_removeNext (v := v) name file
  obtain ⟨hcontent, hcount⟩ := v.removeNext_content name file
  have hstay : point.Keeps temp request v point := ⟨fun _ h => .inl h, id, fun _ => id⟩
  generalize v.removeNext name file = result at hfind hcontent hcount
  obtain ⟨w, through⟩ := result
  cases through with
  | true => exact advances_quiet hwf hfind hcontent hcount hnext hnextFacts
  | false => exact advances_quiet hwf hfind hcontent hcount hstay hself

/-! ### Chunks -/

theorem length_chunkAt_le {bytes : Bytes} {pos : Nat} (hpos : pos ≤ bytes.length) (count : Nat) :
    pos + (chunkAt bytes pos count).length ≤ bytes.length := by
  simp only [chunkAt, List.length_take, List.length_drop]
  omega

/-- The next chunk of what has to be written lands behind what has been written. -/
theorem overwrite_chunkAt {bytes : Bytes} {pos : Nat} (hpos : pos ≤ bytes.length) (count : Nat) :
    overwrite (bytes.take pos) pos (chunkAt bytes pos count) =
      bytes.take (pos + (chunkAt bytes pos count).length) := by
  have hlen : (bytes.take pos).length = pos := List.length_take_of_le hpos
  have hchunk :
      (bytes.drop pos).take (chunkAt bytes pos count).length = chunkAt bytes pos count := by
    rw [chunkAt, List.length_take]
    exact List.take_eq_take_iff.mpr (by omega)
  calc overwrite (bytes.take pos) pos (chunkAt bytes pos count)
      = overwrite (bytes.take pos) (bytes.take pos).length (chunkAt bytes pos count) := by rw [hlen]
    _ = bytes.take pos ++ chunkAt bytes pos count := Volume.overwrite_length _ _
    _ = bytes.take (pos + (chunkAt bytes pos count).length) := by
      rw [List.take_add, hchunk]

theorem held_write {q : Path Bytes} {n pos : Nat} {bytes : Bytes}
    (h : v.Held q n (bytes.take pos)) (hpos : pos ≤ bytes.length) (count : Nat) :
    (v.write n pos (chunkAt bytes pos count)).Held q n
      (bytes.take (pos + (chunkAt bytes pos count).length)) := by
  have hnew := h.setContent (overwrite (bytes.take pos) pos (chunkAt bytes pos count))
  rw [Volume.write, h.content]
  rwa [overwrite_chunkAt hpos] at hnew ⊢

/-- A reader that has seen a beginning of the file sees a longer one. -/
theorem append_chunkAt_prefix {bytes seen : Bytes} (h : seen <+: bytes) (count : Nat) :
    seen ++ chunkAt bytes seen.length count <+: bytes := by
  obtain ⟨rest, rfl⟩ := h
  rw [chunkAt, List.drop_left]
  exact List.prefix_append_right_inj seen |>.mpr (List.take_prefix _ rest)

theorem eq_of_chunkAt_nil {bytes seen : Bytes} {count : Nat} (h : seen <+: bytes)
    (hend : chunkAt bytes seen.length count = []) : seen = bytes := by
  obtain ⟨rest, rfl⟩ := h
  rw [chunkAt, List.drop_left] at hend
  cases rest with
  | nil => exact (List.append_nil seen).symm
  | cons b rest => simp at hend

/-! ### The stages -/

theorem writeTempStep_advances (hwf : v.Wf) (h : point.Facts temp request v) :
    point.Advances temp request out.nowMs v
      (writeTempStep temp request.snapshotData out v point) := by
  cases point with
  | creatingDirectory =>
    simp only [writeTempStep]
    split <;> exact advances_same (keeps_of_free rfl rfl rfl) trivial
  | openingTemp =>
    simp only [writeTempStep]
    split
    · rename_i w file hok hopen
      have hheld := Volume.held_openTrunc hwf hopen
      exact ⟨.opensTemp hopen, hheld, Nat.zero_le _⟩
    · exact advances_same (keeps_of_free rfl rfl rfl) trivial
  | writingTemp file written =>
    simp only [writeTempStep]
    split
    · exact advances_same (keeps_of_free rfl rfl rfl) trivial
    · split
      · rename_i hend
        refine advances_same ⟨by simp [openFiles], fun _ => rfl, by simp [time?]⟩ ?_
        have hholds := h.1.holds
        rwa [List.take_of_length_le hend] at hholds
      · obtain ⟨hheld, hle⟩ := h
        have hkeeps : (writingTemp file written).Keeps temp request v
            (writingTemp file
              (written + (chunkAt request.snapshotData written out.count).length)) :=
          ⟨fun _ hn => .inl hn, id, fun _ => id⟩
        refine ⟨.writes _ hheld (.inl ⟨rfl, rfl⟩) (by simp [openFiles]) hkeeps, ?_,
          length_chunkAt_le hle out.count⟩
        exact held_write hheld hle out.count
  | _ => exact advances_same ⟨fun _ hn => .inl hn, id, fun _ => id⟩ h

theorem checkExistingStep_advances (h : point.Facts temp request v) :
    point.Advances temp request out.nowMs v (v, checkExistingStep request out v point) := by
  cases point with
  | saving =>
    simp only [checkExistingStep]
    split
    · exact ⟨.takesTime, h⟩
    · exact advances_same (keeps_of_free rfl rfl rfl) trivial
  | lookingForExisting nowMs =>
    simp only [checkExistingStep]
    split
    · exact advances_same (keeps_of_free rfl rfl rfl) trivial
    · split <;> exact advances_same ⟨by simp [openFiles], fun _ => rfl, fun _ => id⟩ h
  | readingExistingMeta nowMs | openingExistingData nowMs fields =>
    simp only [checkExistingStep]
    split <;> exact advances_same ⟨by simp [openFiles], fun _ => rfl, fun _ => id⟩ h
  | readingExistingData nowMs fields file seen =>
    simp only [checkExistingStep]
    split
    · exact advances_same ⟨by simp [openFiles], fun _ => rfl, fun _ => id⟩ h
    · split
      · exact advances_same ⟨by simp [openFiles], fun _ => rfl, fun _ => id⟩ h
      · split
        · exact advances_same ⟨by simp [openFiles], fun _ => rfl, fun _ => id⟩ h
        · split <;> exact advances_same (keeps_of_free rfl rfl rfl) trivial
  | _ => exact advances_same ⟨fun _ hn => .inl hn, id, fun _ => id⟩ h

theorem copyStep_advances (htemp : temp.dir = none) (hwf : v.Wf)
    (h : point.Facts temp request v) :
    point.Advances temp request out.nowMs v (copyStep temp request out v point) := by
  cases point with
  | clearingStaging nowMs =>
    simp only [copyStep]
    split
    · exact advances_same (keeps_of_free rfl rfl rfl) trivial
    · exact advances_removeNext hwf _ _ h ⟨by simp [openFiles], fun _ => rfl, fun _ => id⟩ h
  | makingStaging nowMs =>
    simp only [copyStep]
    split
    · rename_i w hok hmade
      obtain ⟨hcontent, hnext⟩ := Volume.makeDir_content hmade
      exact advances_quiet hwf (fun q => .inr (Volume.find_makeDir hmade q)) hcontent hnext
        ⟨by simp [openFiles], fun _ => rfl, fun _ => id⟩ h
    · exact advances_same (keeps_of_free rfl rfl rfl) trivial
  | openingInput nowMs =>
    simp only [copyStep]
    split
    · rename_i input hok hinput
      refine advances_same
        ⟨fun n hn => .inr ⟨temp, .inl ⟨rfl, rfl⟩, ?_⟩, fun _ => rfl, fun _ => id⟩ ?_
      · rwa [List.mem_singleton.mp hn]
      · exact ⟨hwf.lt_next _ _ hinput, h input hinput,
          fun q hq => hwf.single q temp input hq hinput,
          fun n hn => Option.some.inj (hn.symm.trans hinput)⟩
    · exact advances_same (keeps_of_free rfl rfl rfl) trivial
  | openingOutput nowMs input =>
    simp only [copyStep]
    split
    · rename_i w output hok hopen
      have hne : temp ≠ stagedData request nowMs := by
        intro heq
        rw [heq] at htemp
        cases htemp
      have hother : input ≠ output := Volume.Held.ne_openTrunc h hopen hne
      refine ⟨.opens hopen rfl rfl (by simp [openFiles]) fun _ => rfl, ?_⟩
      exact ⟨Volume.Held.frame h (Volume.frame_openTrunc hwf hopen) hne hother,
        Volume.held_openTrunc hwf hopen, hother, List.nil_prefix, Nat.le_refl _⟩
    · exact advances_same (keeps_of_free rfl rfl rfl) trivial
  | copying nowMs input output buffer written =>
    obtain ⟨hinput, houtput, hother, hprefix, hle⟩ := h
    simp only [copyStep]
    split
    · exact advances_same (keeps_of_free rfl rfl rfl) trivial
    · split
      · rw [hinput.content]
        split
        · have hlonger := append_chunkAt_prefix hprefix out.count
          refine advances_same ⟨fun _ hn => .inl hn, id, fun _ => id⟩
            ⟨hinput, ?_, hother, hlonger, ?_⟩
          · rwa [List.take_append_of_le_length hle]
          · rw [List.length_append]
            omega
        · rename_i hend
          split
          · exact advances_same (keeps_of_free rfl rfl rfl) trivial
          · exact advances_same ⟨by simp [openFiles], by simp [usesTemp], fun _ => id⟩
              ⟨houtput, eq_of_chunkAt_nil hprefix (by simpa using hend), hle⟩
      · have hnames : ¬ temp = stagedData request nowMs := by
          intro heq
          rw [heq] at htemp
          cases htemp
        refine ⟨.writes _ houtput (.inr ⟨nowMs, rfl, rfl⟩) (by simp [openFiles])
          ⟨fun _ hn => .inl hn, id, fun _ => id⟩, ?_⟩
        exact ⟨hinput.frame (houtput.frame_setContent _) hnames hother,
          held_write houtput hle out.count, hother, hprefix, length_chunkAt_le hle out.count⟩
  | flushing nowMs output buffer written =>
    obtain ⟨houtput, hbuffer, hle⟩ := h
    simp only [copyStep]
    split
    · exact advances_same (keeps_of_free rfl rfl rfl) trivial
    · split
      · rename_i hend
        refine advances_same ⟨by simp [openFiles], by simp [usesTemp], fun _ => id⟩ ?_
        have hholds := houtput.holds
        rwa [List.take_of_length_le hend, hbuffer] at hholds
      · refine ⟨.writes _ houtput (.inr ⟨nowMs, rfl, rfl⟩) (by simp [openFiles])
          ⟨fun _ hn => .inl hn, id, fun _ => id⟩, ?_⟩
        exact ⟨held_write houtput hle out.count, hbuffer, length_chunkAt_le hle out.count⟩
  | _ => exact advances_same ⟨fun _ hn => .inl hn, id, fun _ => id⟩ h

theorem stagedData_ne_stagedMeta (request : InstallSnapshotRequest Bytes) (nowMs : Nat) :
    stagedData request nowMs ≠ stagedMeta request nowMs := by
  simp [stagedData, stagedMeta, kSnapshotDataFileName, kSnapshotMetaFileName, ascii]

theorem publishStep_advances (hwf : v.Wf) (h : point.Facts temp request v) :
    point.Advances temp request out.nowMs v (publishStep request out v point) := by
  cases point with
  | openingChecksum nowMs =>
    simp only [publishStep]
    split
    · exact advances_same ⟨by simp [openFiles], by simp [usesTemp], fun _ => id⟩ h
    · exact advances_same (keeps_of_free rfl rfl rfl) trivial
  | computingChecksum nowMs file seen =>
    simp only [publishStep]
    split
    · exact advances_same (keeps_of_free rfl rfl rfl) trivial
    · split <;> exact advances_same ⟨by simp [openFiles], by simp [usesTemp], fun _ => id⟩ h
  | openingMeta nowMs checksum =>
    simp only [publishStep]
    split
    · rename_i w file hok hopen
      refine ⟨.opens hopen rfl rfl (by simp [openFiles]) (by simp [usesTemp]), ?_⟩
      exact ⟨Volume.Holds.frame hwf h (Volume.frame_openTrunc hwf hopen)
        (stagedData_ne_stagedMeta request nowMs), Volume.held_openTrunc hwf hopen, Nat.zero_le _⟩
    · exact advances_same (keeps_of_free rfl rfl rfl) trivial
  | writingMeta nowMs checksum file written =>
    obtain ⟨hdata, hmeta, hle⟩ := h
    simp only [publishStep]
    split
    · exact advances_same (keeps_of_free rfl rfl rfl) trivial
    · split
      · rename_i hend
        refine advances_same ⟨by simp [openFiles], by simp [usesTemp], fun _ => id⟩
          ⟨hdata, checksum, ?_⟩
        have hholds := hmeta.holds
        rwa [List.take_of_length_le hend] at hholds
      · refine ⟨.writes _ hmeta (.inr ⟨nowMs, rfl, rfl⟩) (by simp [openFiles])
          ⟨fun _ hn => .inl hn, id, fun _ => id⟩, ?_⟩
        exact ⟨hdata.frame hwf (hmeta.frame_setContent _) (stagedData_ne_stagedMeta request nowMs),
          held_write hmeta hle out.count, length_chunkAt_le hle out.count⟩
  | clearingFinal nowMs =>
    simp only [publishStep]
    split
    · exact advances_same (keeps_of_free rfl rfl rfl) trivial
    · exact advances_removeNext hwf _ _ h ⟨by simp [openFiles], by simp [usesTemp], fun _ => id⟩ h
  | publishing nowMs =>
    simp only [publishStep]
    split
    · rename_i w hok hrenamed
      exact ⟨.renames hrenamed, trivial⟩
    · exact advances_same (keeps_of_free rfl rfl rfl) trivial
  | _ => exact advances_same ⟨fun _ hn => .inl hn, id, fun _ => id⟩ h

theorem advances_unlink (hwf : v.Wf) (q : Path Bytes) (keeps : point.Keeps temp request v point')
    (hfacts : point'.Facts temp request v) :
    point.Advances temp request out.nowMs v (if out.ok then v.unlink q else v, point') := by
  split
  · obtain ⟨hcontent, hnext⟩ := v.unlink_content q
    exact advances_quiet hwf (v.unlink_shrinks q) hcontent hnext keeps hfacts
  · exact advances_same keeps hfacts

theorem pruneStep_advances (hwf : v.Wf) (keeps : point.Keeps temp request v point')
    (hfacts : point'.Facts temp request v) :
    point.Advances temp request out.nowMs v (pruneStep out v, point') := by
  unfold pruneStep
  split
  · obtain ⟨hcontent, hnext⟩ := v.removeNext_content out.dir out.file
    exact advances_quiet hwf (Volume.find_removeNext out.dir out.file) hcontent hnext keeps hfacts
  · split
    · obtain ⟨hcontent, hnext⟩ := v.unlink_content ⟨none, out.file⟩
      exact advances_quiet hwf (v.unlink_shrinks _) hcontent hnext keeps hfacts
    · exact advances_same keeps hfacts

theorem cleanUpStep_advances (hwf : v.Wf) (h : point.Facts temp request v) :
    point.Advances temp request out.nowMs v (cleanUpStep temp request out v point) := by
  cases point with
  | syncingRoot | loading =>
    simp only [cleanUpStep]
    split <;> exact advances_same (keeps_of_free rfl rfl rfl) trivial
  | removingInput | removingTemp =>
    exact advances_unlink hwf _ (keeps_of_free rfl rfl rfl) trivial
  | removingStaging nowMs =>
    simp only [cleanUpStep]
    split
    · exact advances_same (keeps_of_free rfl rfl rfl) trivial
    · exact advances_removeNext hwf _ _ h (keeps_of_free rfl rfl rfl) trivial
  | pruning =>
    simp only [cleanUpStep]
    split
    · exact pruneStep_advances hwf (keeps_of_free rfl rfl rfl) trivial
    · exact advances_same (keeps_of_free rfl rfl rfl) trivial
  | _ => exact advances_same ⟨fun _ hn => .inl hn, id, fun _ => id⟩ h

/-- What a file operation does, for every point of a handler. -/
theorem fileStep_advances (htemp : temp.dir = none) (hwf : v.Wf)
    (h : point.Facts temp request v) :
    point.Advances temp request out.nowMs v (fileStep temp request out v point) := by
  unfold fileStep
  split <;> first
    | exact writeTempStep_advances hwf h
    | exact checkExistingStep_advances h
    | exact copyStep_advances htemp hwf h
    | exact publishStep_advances hwf h
    | exact cleanUpStep_advances hwf h

end InstallPoint

end CquptRaft
