import CquptRaft.Storage.RaftStorage

/-!
# What `Save` prepares

Up to its first rename `Save` touches the temporary names only. When it gets there, `log.tmp`
holds the segments of the new log, each under the name of its first index, and `meta.bin.tmp` the
fields of the new meta file.
-/

namespace CquptRaft

open Binary Files

namespace FileRaftStorage

variable {padding : LogRecord → Nat} {d : DataDir} {w : World Bytes UInt8}

/-! ## Segments -/

/-- The segments that the loop of `WriteSegments` makes of the records in the open file and of
those to come. -/
def splitSegments (current : List LogRecord) : List LogRecord → List (List LogRecord)
  | [] => [current]
  | record :: rest =>
    if kMaxEntriesPerSegment ≤ current.length then current :: splitSegments [record] rest
    else splitSegments (current ++ [record]) rest

def segments : List LogRecord → List (List LogRecord)
  | [] => []
  | record :: rest => splitSegments [record] rest

theorem flatten_splitSegments (current rest : List LogRecord) :
    (splitSegments current rest).flatten = current ++ rest := by
  induction rest generalizing current with
  | nil => simp [splitSegments]
  | cons record rest ih =>
    rw [splitSegments]
    split
    · rw [List.flatten_cons, ih, List.singleton_append]
    · rw [ih, List.append_assoc, List.singleton_append]

theorem flatten_segments (log : List LogRecord) : (segments log).flatten = log := by
  cases log with
  | nil => rfl
  | cons record rest => exact flatten_splitSegments [record] rest

theorem splitSegments_ne_nil {current : List LogRecord} (h : current ≠ []) (rest : List LogRecord) :
    ∀ chunk ∈ splitSegments current rest, chunk ≠ [] := by
  induction rest generalizing current with
  | nil => simpa [splitSegments] using h
  | cons record rest ih =>
    rw [splitSegments]
    split
    · intro chunk hchunk
      rcases List.mem_cons.mp hchunk with rfl | hchunk
      · exact h
      · exact ih (by simp) chunk hchunk
    · exact ih (by simp)

theorem segments_ne_nil (log : List LogRecord) : ∀ chunk ∈ segments log, chunk ≠ [] := by
  cases log with
  | nil => simp [segments]
  | cons record rest => exact splitSegments_ne_nil (by simp) rest

/-- The name and the content of a segment. -/
def segmentFile (padding : LogRecord → Nat) (chunk : List LogRecord) : Bytes × Bytes :=
  (segmentFileName (firstIndex chunk), chunk.flatMap (encodeEntry padding))

/-! ## The temporary names -/

/-- An operation that replaces nothing that was saved before. -/
def isStaging : Op Bytes UInt8 → Bool
  | .rename _ _ | .remove _ => false
  | _ => true

/-- Only the temporary names have been touched. -/
structure Staged (d : DataDir) (w : World Bytes UInt8) : Prop where
  frame : ∀ name, name ≠ kLogTempDirName → name ≠ kMetaTempFileName →
    w.disk.lookup name = d.lookup name
  trace : ∀ op ∈ w.trace, isStaging op = true

theorem Staged.refl (d : DataDir) (script : List Outcome) : Staged d ⟨d, [], script⟩ :=
  ⟨fun _ _ _ => rfl, by simp⟩

theorem Staged.script (h : Staged d w) (script : List Outcome) : Staged d { w with script } :=
  ⟨h.frame, h.trace⟩

theorem Staged.step (h : Staged d w) {op : Op Bytes UInt8} {disk : DataDir}
    {script : List Outcome} (hop : isStaging op = true)
    (hframe : ∀ name, name ≠ kLogTempDirName → name ≠ kMetaTempFileName →
      disk.lookup name = w.disk.lookup name) : Staged d ⟨disk, w.trace ++ [op], script⟩ where
  frame name hlog hmeta := (hframe name hlog hmeta).trans (h.frame name hlog hmeta)
  trace op' hop' := by
    rcases List.mem_append.mp hop' with hold | hnew
    · exact h.trace op' hold
    · rwa [List.mem_singleton.mp hnew]

/-- `log.tmp` holds these files, the newest first. -/
structure Staging (d : DataDir) (files : List (Bytes × Bytes)) (w : World Bytes UInt8) : Prop where
  staged : Staged d w
  dir : ∃ c : Dir Bytes UInt8, w.disk.lookup kLogTempDirName = some (.dir c) ∧
    c.entries = files.map fun f => ⟨f.1, f.2⟩

variable {files : List (Bytes × Bytes)} {name content : Bytes}

theorem Staging.script (h : Staging d files w) (script : List Outcome) :
    Staging d files { w with script } := ⟨h.staged.script script, h.dir⟩

theorem Staging.sync (h : Staging d files w) (path : Path Bytes) (script : List Outcome) :
    Staging d files ⟨w.disk, w.trace ++ [.sync path], script⟩ :=
  ⟨h.staged.step rfl fun _ _ _ => rfl, h.dir⟩

/-- A write to `log.tmp` that puts a file in front. -/
theorem Staging.insert (h : Staging d files w) {op : Op Bytes UInt8} {script : List Outcome}
    (hop : isStaging op = true) {c : Dir Bytes UInt8} {files' : List (Bytes × Bytes)}
    (hentries : c.entries = files'.map fun f => ⟨f.1, f.2⟩) :
    Staging d files' ⟨w.disk.insert kLogTempDirName (.dir c), w.trace ++ [op], script⟩ where
  staged := h.staged.step hop fun _ hlog _ => AList.lookup_insert_ne hlog
  dir := ⟨c, AList.lookup_insert _, hentries⟩

theorem Staging.create (h : Staging d files w) (hfresh : ∀ f ∈ files, f.1 ≠ name)
    {disk : DataDir} (hdisk : w.disk.apply (.create (inTempDir name)) = some disk)
    (script : List Outcome) :
    Staging d ((name, []) :: files) ⟨disk, w.trace ++ [.create (inTempDir name)], script⟩ := by
  obtain ⟨c, hlookup, hentries⟩ := h.dir
  simp only [Disk.apply, Disk.writeFile, inTempDir, hlookup, Option.some.injEq] at hdisk
  subst hdisk
  have hnew : name ∉ c := by
    intro hmem
    obtain ⟨b, hb⟩ := List.exists_of_mem_keys hmem
    rw [hentries] at hb
    obtain ⟨f, hf, heq⟩ := List.mem_map.mp hb
    exact hfresh f hf (congrArg Sigma.fst heq)
  refine h.insert rfl ?_
  rw [AList.entries_insert_of_notMem hnew, hentries, List.map_cons]

theorem Staging.append (h : Staging d ((name, content) :: files) w) {bytes : Bytes}
    {disk : DataDir} (hdisk : w.disk.apply (.append (inTempDir name) bytes) = some disk)
    (script : List Outcome) :
    Staging d ((name, content ++ bytes) :: files)
      ⟨disk, w.trace ++ [.append (inTempDir name) bytes], script⟩ := by
  obtain ⟨c, hlookup, hentries⟩ := h.dir
  have hcontent : c.lookup name = some content := by
    rw [AList.lookup, hentries, List.map_cons]
    exact List.dlookup_cons_eq _ _ _
  simp only [Disk.apply, Disk.readFile, Disk.writeFile, inTempDir, hlookup, hcontent,
    Option.bind_some, Option.some.injEq] at hdisk
  subst hdisk
  refine h.insert rfl ?_
  have hkerase : List.kerase name (files.map (fun f => (⟨f.1, f.2⟩ : Sigma fun _ => Bytes)) |>.cons
      ⟨name, content⟩) = files.map fun f => ⟨f.1, f.2⟩ := List.kerase_cons_eq rfl
  rw [AList.entries_insert, hentries, List.map_cons, hkerase, List.map_cons]

/-! ## Writing -/

open Prog

theorem wp_flushSegment (h : Staging d files w) (current : Option Bytes) :
    (flushSegment current).Wp (fun _ w' => Staging d files w') (Staged d) w := by
  cases current with
  | none => exact wp_pure h
  | some name =>
    show (perform (.sync (inTempDir name))).Wp _ _ _
    refine wp_perform h.staged (fun script => h.script script) fun disk script hdisk => ?_
    obtain rfl := Option.some.inj hdisk
    exact h.sync _ script

theorem wp_openSegment (h : Staging d files w) (current : Option Bytes) (index : Nat)
    (hfresh : ∀ f ∈ files, f.1 ≠ segmentFileName index) :
    (openSegment current index).Wp (fun result w' => Staged d w' ∧ ∀ name, result = some name →
      name = segmentFileName index ∧ Staging d ((name, []) :: files) w') (Staged d) w := by
  refine wp_bind ((wp_flushSegment h current).imp (fun ok w₁ h₁ => ?_) fun _ => id)
  cases ok with
  | false => exact wp_pure ⟨h₁.staged, by simp⟩
  | true =>
    refine wp_bind (wp_perform h₁.staged (fun script => ?_) fun disk script hdisk => ?_)
    · exact wp_pure ⟨h₁.staged.script script, by simp⟩
    · have hcreated := h₁.create hfresh hdisk script
      refine wp_pure ⟨hcreated.staged, fun name hname => ?_⟩
      cases hname
      exact ⟨rfl, hcreated⟩

theorem wp_writeRecord (h : Staging d ((name, content) :: files) w) (record : LogRecord) :
    (writeRecord padding name record).Wp (fun ok w' => Staged d w' ∧ (ok = true →
      Staging d ((name, content ++ encodeEntry padding record) :: files) w')) (Staged d) w := by
  unfold writeRecord
  split
  · exact wp_pure ⟨h.staged, by simp⟩
  · refine wp_stepOrFail h.staged (fun script => ⟨h.staged.script script, by simp⟩)
      fun disk script hdisk => ?_
    have hheader := h.append hdisk script
    split
    · rename_i hempty
      refine wp_pure ⟨hheader.staged, fun _ => ?_⟩
      rwa [encodeEntry, hempty, List.append_nil]
    · refine wp_perform hheader.staged (fun script => ⟨hheader.staged.script script, by simp⟩)
        fun disk script hdisk => ?_
      have hcommand := hheader.append hdisk script
      rw [List.append_assoc] at hcommand
      exact ⟨hcommand.staged, fun _ => hcommand⟩

theorem segmentFileName_injective {i j : Nat} (hi : i < 2 ^ 64) (hj : j < 2 ^ 64)
    (h : segmentFileName i = segmentFileName j) : i = j := by
  have hparsed := parseSegmentStartIndex_segmentFileName hi
  rw [h, parseSegmentStartIndex_segmentFileName hj] at hparsed
  exact (Option.some.inj hparsed).symm

theorem segmentFile_append {chunk : List LogRecord} (hchunk : chunk ≠ []) (record : LogRecord) :
    segmentFile padding (chunk ++ [record]) =
      ((segmentFile padding chunk).1, (segmentFile padding chunk).2 ++ encodeEntry padding record)
        := by
  have hfirst : firstIndex (chunk ++ [record]) = firstIndex chunk := by
    rw [firstIndex, firstIndex, List.head?_append_of_ne_nil _ hchunk]
  simp [segmentFile, hfirst]

/-- The loop leaves the segments in `log.tmp`, behind those of the files that are complete. -/
theorem wp_writeSegmentsLoop {rest : List LogRecord} (hnodup : (rest.map LogRecord.index).Nodup)
    (hlt : ∀ record ∈ rest, record.index < 2 ^ 64) {chunk : List LogRecord} (hchunk : chunk ≠ [])
    (hfresh : ∀ record ∈ rest, ∀ f ∈ segmentFile padding chunk :: files,
      f.1 ≠ segmentFileName record.index)
    (h : Staging d (segmentFile padding chunk :: files) w) :
    (writeSegmentsLoop padding rest (some (segmentFile padding chunk).1) chunk.length).Wp
      (fun ok w' => Staged d w' ∧ (ok = true → Staging d
        (((splitSegments chunk rest).map (segmentFile padding)).reverse ++ files) w'))
      (Staged d) w := by
  induction rest generalizing chunk files w with
  | nil =>
    refine wp_orFail (wp_flushSegment h _) (fun w₁ h₁ => ⟨h₁.staged, by simp⟩) fun w₁ h₁ => ?_
    refine wp_perform h₁.staged (fun script => ⟨h₁.staged.script script, by simp⟩)
      fun disk script hdisk => ?_
    obtain rfl := Option.some.inj hdisk
    have hsynced := h₁.sync (topLevel kLogTempDirName) script
    exact ⟨hsynced.staged, fun _ => hsynced⟩
  | cons record rest ih =>
    rw [List.map_cons, List.nodup_cons] at hnodup
    have hfresh' := fun r hr => hfresh r (List.mem_cons_of_mem record hr)
    have hlt' := fun r hr => hlt r (List.mem_cons_of_mem record hr)
    by_cases hfull : kMaxEntriesPerSegment ≤ chunk.length
    · -- the open file is full
      rw [writeSegmentsLoop, if_pos (.inr hfull), splitSegments, if_pos hfull]
      refine wp_bind ((wp_openSegment h _ _ (hfresh record List.mem_cons_self)).imp
        (fun result w₁ h₁ => ?_) fun _ => id)
      cases result with
      | none => exact wp_pure ⟨h₁.1, by simp⟩
      | some name =>
        obtain ⟨rfl, hopened⟩ := h₁.2 name rfl
        refine wp_orFail (wp_writeRecord hopened record) (fun w₂ h₂ => ⟨h₂.1, by simp⟩)
          fun w₂ h₂ => ?_
        have hwritten := h₂.2 rfl
        have hsingle : segmentFile padding [record] =
            (segmentFileName record.index, [] ++ encodeEntry padding record) := by
          simp [segmentFile, firstIndex]
        rw [← hsingle] at hwritten
        refine (ih hnodup.2 hlt' (List.cons_ne_nil record []) (fun r hr f hf => ?_)
          hwritten).imp (fun ok w₃ h₃ => ?_) fun _ => id
        · rcases List.mem_cons.mp hf with rfl | hf
          · intro hname
            rw [hsingle] at hname
            have hindex := segmentFileName_injective (hlt record List.mem_cons_self)
              (hlt' r hr) hname
            exact hnodup.1 (hindex ▸ List.mem_map_of_mem hr)
          · exact hfresh' r hr f hf
        · simpa [List.append_assoc] using h₃
    · rw [writeSegmentsLoop, if_neg (by simp [hfull]), splitSegments, if_neg hfull]
      refine wp_orFail (wp_writeRecord h record) (fun w₁ h₁ => ⟨h₁.1, by simp⟩) fun w₁ h₁ => ?_
      have hwritten : Staging d (segmentFile padding (chunk ++ [record]) :: files) w₁ := by
        rw [segmentFile_append hchunk record]
        exact h₁.2 rfl
      have hname : (segmentFile padding (chunk ++ [record])).1 = (segmentFile padding chunk).1 := by
        rw [segmentFile_append hchunk record]
      have hnext := ih hnodup.2 hlt' (by simp) (fun r hr f hf => ?_) hwritten
      · rwa [hname, List.length_append, List.length_singleton] at hnext
      · rcases List.mem_cons.mp hf with rfl | hf
        · rw [hname]
          exact hfresh' r hr _ List.mem_cons_self
        · exact hfresh' r hr f (List.mem_cons_of_mem _ hf)

theorem wp_writeSegments {log : List LogRecord} (hnodup : (log.map LogRecord.index).Nodup)
    (hlt : ∀ record ∈ log, record.index < 2 ^ 64) (h : Staging d [] w) :
    (writeSegments padding log).Wp (fun ok w' => Staged d w' ∧ (ok = true →
      Staging d ((segments log).map (segmentFile padding)).reverse w')) (Staged d) w := by
  cases log with
  | nil =>
    refine wp_orFail (wp_flushSegment h none) (fun w₁ h₁ => ⟨h₁.staged, by simp⟩) fun w₁ h₁ => ?_
    refine wp_perform h₁.staged (fun script => ⟨h₁.staged.script script, by simp⟩)
      fun disk script hdisk => ?_
    obtain rfl := Option.some.inj hdisk
    have hsynced := h₁.sync (topLevel kLogTempDirName) script
    exact ⟨hsynced.staged, fun _ => hsynced⟩
  | cons record rest =>
    rw [List.map_cons, List.nodup_cons] at hnodup
    rw [writeSegments, writeSegmentsLoop, if_pos (.inl rfl)]
    refine wp_bind ((wp_openSegment h none record.index (by simp)).imp
      (fun result w₁ h₁ => ?_) fun _ => id)
    cases result with
    | none => exact wp_pure ⟨h₁.1, by simp⟩
    | some name =>
      obtain ⟨rfl, hopened⟩ := h₁.2 name rfl
      refine wp_orFail (wp_writeRecord hopened record) (fun w₂ h₂ => ⟨h₂.1, by simp⟩)
        fun w₂ h₂ => ?_
      have hwritten : Staging d [segmentFile padding [record]] w₂ := by
        simpa [segmentFile, firstIndex] using h₂.2 rfl
      have hnext := wp_writeSegmentsLoop hnodup.2
        (fun r hr => hlt r (List.mem_cons_of_mem _ hr)) (List.cons_ne_nil record [])
        (fun r hr f hf hname => ?_) hwritten
      · simpa [segmentFile, firstIndex, segments] using hnext
      · rw [List.mem_singleton.mp hf] at hname
        have hindex := segmentFileName_injective (hlt record List.mem_cons_self)
          (hlt r (List.mem_cons_of_mem _ hr)) hname
        exact hnodup.1 (hindex ▸ List.mem_map_of_mem hr)

/-! ## Preparing -/

/-- Everything is ready to be moved into place. -/
structure Prepared (padding : LogRecord → Nat) (d : DataDir) (state : PersistentRaftState)
    (w : World Bytes UInt8) : Prop
    extends Staging d ((segments state.log).map (segmentFile padding)).reverse w where
  metaTemp : w.disk.lookup kMetaTempFileName = some (.file (metaFields state).flatten)

/-- A file of the data directory grows by what is appended to it. -/
theorem wp_appendFields {fields : List Bytes} {content : Bytes} (h : Staging d files w)
    (hcontent : w.disk.lookup kMetaTempFileName = some (.file content)) :
    (appendFields (topLevel kMetaTempFileName) fields).Wp (fun ok w' => Staged d w' ∧
      (ok = true → Staging d files w' ∧
        w'.disk.lookup kMetaTempFileName = some (.file (content ++ fields.flatten))))
          (Staged d) w := by
  induction fields generalizing content w with
  | nil => exact wp_pure ⟨h.staged, fun _ => ⟨h, by simpa using hcontent⟩⟩
  | cons field fields ih =>
    refine wp_stepOrFail h.staged (fun script => ⟨h.staged.script script, by simp⟩)
      fun disk script hdisk => ?_
    simp only [Disk.apply, Disk.readFile, Disk.writeFile, topLevel, hcontent, Option.bind_some,
      Option.some.injEq] at hdisk
    subst hdisk
    obtain ⟨c, hdir, hentries⟩ := h.dir
    have hstaging : Staging d files ⟨w.disk.insert kMetaTempFileName (.file (content ++ field)),
        w.trace ++ [.append (topLevel kMetaTempFileName) field], script⟩ := by
      refine ⟨h.staged.step rfl fun _ _ hmeta => AList.lookup_insert_ne hmeta, c, ?_, hentries⟩
      rw [AList.lookup_insert_ne (by decide), hdir]
    refine (ih hstaging (AList.lookup_insert _)).imp (fun ok w' hok => ?_) fun _ => id
    simpa [List.append_assoc] using hok

theorem wp_writeMeta (state : PersistentRaftState) (h : Staging d files w) :
    (writeMeta state).Wp (fun ok w' => Staged d w' ∧ (ok = true → Staging d files w' ∧
      w'.disk.lookup kMetaTempFileName = some (.file (metaFields state).flatten)))
        (Staged d) w := by
  refine wp_stepOrFail h.staged (fun script => ⟨h.staged.script script, by simp⟩)
    fun disk script hdisk => ?_
  have hcreated : disk = w.disk.insert kMetaTempFileName (.file []) := by
    simp only [Disk.apply, Disk.writeFile, topLevel] at hdisk
    split at hdisk
    · cases hdisk
    · exact (Option.some.inj hdisk).symm
  subst hcreated
  obtain ⟨c, hdir, hentries⟩ := h.dir
  have hstaging : Staging d files ⟨w.disk.insert kMetaTempFileName (.file []),
      w.trace ++ [.create (topLevel kMetaTempFileName)], script⟩ := by
    refine ⟨h.staged.step rfl fun _ _ hmeta => AList.lookup_insert_ne hmeta, c, ?_, hentries⟩
    rw [AList.lookup_insert_ne (by decide), hdir]
  refine wp_orFail (wp_appendFields hstaging (AList.lookup_insert _))
    (fun w₁ h₁ => ⟨h₁.1, by simp⟩) fun w₁ h₁ => ?_
  obtain ⟨hstaged, hwritten⟩ := h₁
  obtain ⟨hstaging₁, hmeta⟩ := hwritten rfl
  refine wp_perform hstaged (fun script => ⟨hstaged.script script, by simp⟩)
    fun disk script hdisk => ?_
  obtain rfl := Option.some.inj hdisk
  have hsynced := hstaging₁.sync (topLevel kMetaTempFileName) script
  exact ⟨hsynced.staged, fun _ => ⟨hsynced, hmeta⟩⟩

/-- `Save` touches nothing but the temporary names until everything is ready. -/
theorem wp_prepare {state : PersistentRaftState} (hnodup : (state.log.map LogRecord.index).Nodup)
    (hlt : ∀ record ∈ state.log, record.index < 2 ^ 64) (h : Staged d w) :
    (prepare padding state).Wp (fun ok w' => Staged d w' ∧
      (ok = true → Prepared padding d state w')) (Staged d) w := by
  refine wp_stepOrFail h (fun script => ⟨h.script script, by simp⟩) fun disk script hdisk => ?_
  obtain rfl := Option.some.inj hdisk
  have h₁ : Staged d ⟨w.disk, w.trace ++ [.makeRoot], script⟩ := h.step rfl fun _ _ _ => rfl
  refine wp_stepOrFail h₁ (fun script => ⟨h₁.script script, by simp⟩) fun disk script hdisk => ?_
  obtain rfl := Option.some.inj hdisk
  have h₂ : Staged d ⟨w.disk.erase kLogTempDirName,
      w.trace ++ [.makeRoot] ++ [.removeAll kLogTempDirName], script⟩ :=
    h₁.step rfl fun _ hlog _ => AList.lookup_erase_ne hlog
  refine wp_stepOrFail h₂ (fun script => ⟨h₂.script script, by simp⟩) fun disk script hdisk => ?_
  simp only [Disk.apply, Disk.makeDir, AList.lookup_erase, Option.some.injEq] at hdisk
  subst hdisk
  have h₃ : Staged d ⟨(w.disk.erase kLogTempDirName).insert kLogTempDirName (.dir ∅),
      w.trace ++ [.makeRoot] ++ [.removeAll kLogTempDirName] ++ [.makeDir kLogTempDirName],
      script⟩ := h₂.step rfl fun _ hlog _ => AList.lookup_insert_ne hlog
  refine wp_orFail (wp_writeSegments hnodup hlt ⟨h₃, ∅, AList.lookup_insert _, rfl⟩)
    (fun w' h' => ⟨h'.1, by simp⟩) fun w' h' => ?_
  refine (wp_writeMeta state (h'.2 rfl)).imp (fun ok w'' h'' => ⟨h''.1, fun hok => ?_⟩) fun _ => id
  obtain ⟨hstaging, hmeta⟩ := h''.2 hok
  exact ⟨hstaging, hmeta⟩

end FileRaftStorage

end CquptRaft
