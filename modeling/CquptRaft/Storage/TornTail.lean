import CquptRaft.Storage.Trusted

/-!
# Torn tails

`Load` cuts the first segment that ends in bytes that are no record, and removes the segments
behind it. A log that this has made shorter than the meta file says is accepted by the `Load` that
has made the cut. The meta file stays as it is, so another `Load` finds whole segments with too few
records. The same holds for a segment that a crash has cut between two records.

What is left of two segments with one start index may come in the other order the next time.
-/

namespace CquptRaft

open Binary Files Sorting

namespace FileRaftStorage

/-! ## The listing of the segments -/

theorem map_snd_filterMap_parse (names : List Bytes) :
    (names.filterMap fun name => (parseSegmentStartIndex name).map fun start => (start, name)).map
      Prod.snd = names.filter fun name => (parseSegmentStartIndex name).isSome := by
  induction names with
  | nil => rfl
  | cons name names ih =>
    cases hparse : parseSegmentStartIndex name <;> simp [hparse, ih]

theorem listedSegments_nodup (dir : DataDir) : ((listedSegments dir).map Prod.snd).Nodup := by
  unfold listedSegments
  split
  · rename_i files _
    rw [map_snd_filterMap_parse]
    exact files.keys_nodup.filter _
  · exact List.nodup_nil

theorem sort_nodup (order : Sorter byStartIndex) (dir : DataDir) :
    ((order.sort (listedSegments dir)).map Prod.snd).Nodup :=
  ((order.perm _).map Prod.snd).nodup_iff.mpr (listedSegments_nodup dir)

/-- Files that are gone leave the others in the listing. -/
theorem listedSegments_filter {dir dir' : DataDir} {files files' : Dir Bytes UInt8}
    {p : Bytes → Bool} (h : dir.lookup kLogDirName = some (.dir files))
    (h' : dir'.lookup kLogDirName = some (.dir files'))
    (hkeys : files'.keys = files.keys.filter p) :
    listedSegments dir' = (listedSegments dir).filter fun file => p file.2 := by
  simp only [listedSegments, h, h']
  rw [hkeys, List.filterMap_filter, List.filter_filterMap]
  congr 1
  funext name
  cases hparse : parseSegmentStartIndex name <;> cases hp : p name <;> simp [hp, Option.filter]

/-! ## What the repair leaves -/

/-- These segments are gone, and nothing else has changed. -/
structure Removed (dir : DataDir) (names : List Bytes) (dir' : DataDir) : Prop where
  other : ∀ name, name ≠ kLogDirName → dir'.lookup name = dir.lookup name
  files : ∀ files, dir.lookup kLogDirName = some (.dir files) → ∃ files' : Dir Bytes UInt8,
    dir'.lookup kLogDirName = some (.dir files') ∧
      files'.keys = files.keys.filter (fun name => name ∉ names) ∧
      ∀ name, name ∉ names → files'.lookup name = files.lookup name

theorem Removed.refl (dir : DataDir) : Removed dir [] dir :=
  ⟨fun _ _ => rfl, fun files h => ⟨files, h, by simp, fun _ _ => rfl⟩⟩

theorem Removed.cons {dir dir₁ dir₂ : DataDir} {name : Bytes} {names : List Bytes}
    (h : Removed dir [name] dir₁) (h' : Removed dir₁ names dir₂) :
    Removed dir (name :: names) dir₂ where
  other n hn := (h'.other n hn).trans (h.other n hn)
  files files hfiles := by
    obtain ⟨files₁, hfiles₁, hkeys₁, hlookup₁⟩ := h.files files hfiles
    obtain ⟨files₂, hfiles₂, hkeys₂, hlookup₂⟩ := h'.files files₁ hfiles₁
    refine ⟨files₂, hfiles₂, ?_, fun n hn => ?_⟩
    · rw [hkeys₂, hkeys₁, List.filter_filter]
      refine List.filter_congr fun n _ => ?_
      by_cases hn : n = name <;> simp [hn]
    · rw [List.mem_cons, not_or] at hn
      rw [hlookup₂ n hn.2, hlookup₁ n (by simpa using hn.1)]

theorem removed_remove (dir : DataDir) (name : Bytes) :
    Removed dir [name] ((dir.apply (.remove ⟨some kLogDirName, name⟩)).getD dir) := by
  simp only [Disk.apply, Disk.remove]
  cases hlog : dir.lookup kLogDirName with
  | none => exact ⟨fun _ _ => rfl, fun files h => by simp [hlog] at h⟩
  | some entry =>
    cases entry with
    | file content => exact ⟨fun _ _ => rfl, fun files h => by simp [hlog] at h⟩
    | dir files =>
      refine ⟨fun n hn => (Disk.lookup_replace_eq n).trans (if_neg hn), fun files' h => ?_⟩
      obtain rfl : files = files' := by simpa [hlog] using h
      refine ⟨files.erase name, by simp [Disk.lookup_replace_eq, hlog], ?_, fun n hn => ?_⟩
      · rw [AList.keys_erase]
        refine (@List.Nodup.erase_eq_filter _ instBEqOfDecidableEq _ _ files.keys_nodup name).trans
          (List.filter_congr fun n _ => ?_)
        by_cases hn : n = name <;> simp [hn]
      · exact AList.lookup_erase_ne (by simpa using hn)

theorem foldl_scanSegment_removed (first last : Nat) (names : List Bytes) {scan : SegmentScan}
    (h : scan.tailTruncated = true) :
    Removed scan.dir names (names.foldl (scanSegment first last) scan).dir := by
  induction names generalizing scan with
  | nil => exact .refl _
  | cons name names ih =>
    have hstep : (scanSegment first last scan name).tailTruncated = true ∧
        Removed scan.dir [name] (scanSegment first last scan name).dir := by
      simp only [scanSegment, h, if_true]
      exact ⟨trivial, removed_remove scan.dir name⟩
    exact hstep.2.cons (ih hstep.1)

/-- Segments without a tail are only read. -/
theorem foldl_scanSegment_whole (first last : Nat) {dir : DataDir} {names : List Bytes}
    (h : ∀ name ∈ names, hasTail (segmentContent dir name) = false) (records : List LogRecord) :
    names.foldl (scanSegment first last) ⟨dir, records, false, false⟩ =
      ⟨dir, records ++ trusted first last (names.map (segmentContent dir)), false, false⟩ := by
  induction names generalizing records with
  | nil => simp [trusted]
  | cons name names ih =>
    have hname := h name List.mem_cons_self
    rw [List.foldl_cons, scanSegment_whole _ _ hname,
      ih fun n hn => h n (List.mem_cons_of_mem _ hn), List.append_assoc, List.map_cons, trusted,
      hname]
    rfl

/-- Where the first segment with a tail is. -/
theorem exists_first_tail {dir : DataDir} {files : List (Nat × Bytes)}
    (h : ∃ file ∈ files, hasTail (segmentContent dir file.2) = true) :
    ∃ before file after, files = before ++ file :: after ∧
      (∀ f ∈ before, hasTail (segmentContent dir f.2) = false) ∧
      hasTail (segmentContent dir file.2) = true := by
  induction files with
  | nil => simp at h
  | cons first files ih =>
    cases hfirst : hasTail (segmentContent dir first.2) with
    | true => exact ⟨[], first, files, rfl, by simp, hfirst⟩
    | false =>
      obtain ⟨file, hfile, htail⟩ := h
      rcases List.mem_cons.mp hfile with rfl | hfile
      · rw [hfirst] at htail
        cases htail
      · obtain ⟨before, file, after, rfl, hbefore, htail⟩ := ih ⟨file, hfile, htail⟩
        refine ⟨first :: before, file, after, rfl, fun f hf => ?_, htail⟩
        rcases List.mem_cons.mp hf with rfl | hf
        · exact hfirst
        · exact hbefore f hf

/-- The segment without its tail. -/
theorem exists_cut {content : Bytes} (h : hasTail content = true) :
    ∃ found tail size, Decoded content found tail ∧ tail ≠ [] ∧
      size = content.length - tail.length ∧ Decoded (content.take size) found [] := by
  obtain ⟨found, tail, hdecoded⟩ := Decoded.total content
  have hne : tail ≠ [] := by simpa [hasTail_eq hdecoded] using h
  obtain ⟨whole, rfl, hwhole⟩ := hdecoded.split
  refine ⟨found, tail, _, hdecoded, hne, rfl, ?_⟩
  have hcut := hwhole [] .nil
  rw [List.append_nil] at hcut
  rwa [List.length_append, Nat.add_sub_cancel, List.take_left' rfl]

theorem segmentContent_eq {dir : DataDir} {files : Dir Bytes UInt8}
    (h : dir.lookup kLogDirName = some (.dir files)) (name : Bytes) :
    segmentContent dir name = (files.lookup name).getD [] := by
  simp [segmentContent, Disk.readFile, h]

/-- A segment that is not empty is a file of the log directory. -/
theorem exists_segment {dir : DataDir} {name : Bytes} (h : segmentContent dir name ≠ []) :
    ∃ files, dir.lookup kLogDirName = some (.dir files) ∧
      files.lookup name = some (segmentContent dir name) := by
  cases hlog : dir.lookup kLogDirName with
  | none => simp [segmentContent, Disk.readFile, hlog] at h
  | some entry =>
    cases entry with
    | file content => simp [segmentContent, Disk.readFile, hlog] at h
    | dir files =>
      refine ⟨files, rfl, ?_⟩
      rw [segmentContent_eq hlog] at h ⊢
      cases hname : files.lookup name with
      | none => simp [hname] at h
      | some content => rfl

/-- Cutting a segment keeps the listing. -/
theorem apply_resize {dir : DataDir} {files : Dir Bytes UInt8} {name content : Bytes}
    (h : dir.lookup kLogDirName = some (.dir files)) (hname : files.lookup name = some content)
    (size : Nat) :
    ∃ files' : Dir Bytes UInt8, dir.apply (.resize ⟨some kLogDirName, name⟩ size) =
        some (dir.replace kLogDirName (.dir files')) ∧
      files'.keys = files.keys ∧ files'.lookup name = some (content.take size) ∧
      ∀ n, n ≠ name → files'.lookup n = files.lookup n := by
  refine ⟨files.replace name (content.take size), ?_, AList.keys_replace _ _ _, ?_, fun n hn => ?_⟩
  · simp [Disk.apply, Disk.resizeFile, h, hname]
  · rw [Disk.lookup_replace_eq, if_pos rfl, hname]
    rfl
  · rw [Disk.lookup_replace_eq, if_neg hn]

/-- What is left of a directory when the segment `name` is cut and those of `gone` are removed. -/
structure Repaired (dir : DataDir) (gone : List Bytes) (name cut : Bytes) (dir' : DataDir) :
    Prop where
  other : ∀ n, n ≠ kLogDirName → dir'.lookup n = dir.lookup n
  log : pathExists dir' kLogDirName = true
  listed : listedSegments dir' = (listedSegments dir).filter fun file => file.2 ∉ gone
  kept : ∀ n, n ≠ name → n ∉ gone → segmentContent dir' n = segmentContent dir n
  cut : segmentContent dir' name = cut

theorem foldl_scanSegment_repaired (first last : Nat) {dir : DataDir} {before after : List Bytes}
    {name : Bytes} (hafter : name ∉ after)
    (hbefore : ∀ n ∈ before, hasTail (segmentContent dir n) = false) {found : List LogRecord}
    {tail : Bytes} (hdecoded : Decoded (segmentContent dir name) found tail) (htail : tail ≠ []) :
    Repaired dir after name
      ((segmentContent dir name).take ((segmentContent dir name).length - tail.length))
      ((before ++ name :: after).foldl (scanSegment first last) ⟨dir, [], false, false⟩).dir := by
  generalize hsize : (segmentContent dir name).length - tail.length = size
  have hne : segmentContent dir name ≠ [] := by
    intro hnil
    rw [hnil] at hdecoded
    exact htail (hdecoded.unique .nil).2
  obtain ⟨files, hfiles, hname⟩ := exists_segment hne
  obtain ⟨files₁, hresize, hkeys₁, hcut₁, hlookup₁⟩ := apply_resize hfiles hname size
  have hlog₁ : (dir.replace kLogDirName (.dir files₁)).lookup kLogDirName = some (.dir files₁) := by
    rw [Disk.lookup_replace_eq, if_pos rfl, hfiles]
    rfl
  rw [List.foldl_append, foldl_scanSegment_whole first last hbefore, List.foldl_cons,
    scanSegment_tail _ _ hdecoded htail, hsize, hresize, Option.getD_some]
  generalize hscan : (⟨dir.replace kLogDirName (.dir files₁), _, true, false⟩ : SegmentScan) = scan
  have hremoved := foldl_scanSegment_removed first last after
    (show scan.tailTruncated = true by rw [← hscan])
  obtain ⟨files₂, hfiles₂, hkeys₂, hlookup₂⟩ := hremoved.files files₁ (by rw [← hscan]; exact hlog₁)
  refine ⟨fun n hn => ?_, by simp [pathExists, hfiles₂],
    listedSegments_filter hfiles hfiles₂ (hkeys₂.trans (by rw [hkeys₁])), fun n hn hgone => ?_, ?_⟩
  · rw [hremoved.other n hn, ← hscan, Disk.lookup_replace_eq, if_neg hn]
  · rw [segmentContent_eq hfiles₂, hlookup₂ n hgone, hlookup₁ n hn, segmentContent_eq hfiles]
  · rw [segmentContent_eq hfiles₂, hlookup₂ name hafter, hcut₁]
    rfl

/-! ## The segments that count -/

/-- The files up to the first one with a tail. -/
def trustedFiles (dir : DataDir) : List (Nat × Bytes) → List (Nat × Bytes)
  | [] => []
  | file :: rest =>
    file :: if hasTail (segmentContent dir file.2) then [] else trustedFiles dir rest

def recordsInRange (m : Meta) (content : Bytes) : List LogRecord :=
  (segmentRecords content).filter fun record =>
    m.firstLogIndex ≤ record.index ∧ record.index ≤ m.lastLogIndex

theorem trusted_eq_flatMap (dir : DataDir) (m : Meta) (files : List (Nat × Bytes)) :
    trusted m.firstLogIndex m.lastLogIndex (segmentContents dir files) =
      (trustedFiles dir files).flatMap fun file =>
        recordsInRange m (segmentContent dir file.2) := by
  induction files with
  | nil => rfl
  | cons file files ih =>
    rw [segmentContents, List.map_cons, trusted, trustedFiles, List.flatMap_cons]
    congr 1
    split
    · rfl
    · exact ih

theorem trustedFiles_whole {dir : DataDir} {files : List (Nat × Bytes)}
    (h : ∀ file ∈ files, hasTail (segmentContent dir file.2) = false) :
    trustedFiles dir files = files := by
  induction files with
  | nil => rfl
  | cons file files ih =>
    rw [trustedFiles, h file List.mem_cons_self, ih fun f hf => h f (List.mem_cons_of_mem _ hf)]
    rfl

theorem trustedFiles_append {dir : DataDir} {before after : List (Nat × Bytes)} {file : Nat × Bytes}
    (hbefore : ∀ f ∈ before, hasTail (segmentContent dir f.2) = false)
    (hfile : hasTail (segmentContent dir file.2) = true) :
    trustedFiles dir (before ++ file :: after) = before ++ [file] := by
  induction before with
  | nil => simp [trustedFiles, hfile]
  | cons first before ih =>
    rw [List.cons_append, trustedFiles, hbefore first List.mem_cons_self,
      ih fun f hf => hbefore f (List.mem_cons_of_mem _ hf)]
    rfl

theorem trustedFiles_sublist (dir : DataDir) (files : List (Nat × Bytes)) :
    (trustedFiles dir files).Sublist files := by
  induction files with
  | nil => exact List.Sublist.refl _
  | cons file files ih =>
    rw [trustedFiles]
    split
    · exact (List.nil_sublist _).cons_cons file
    · exact ih.cons_cons file

/-- What `Load` leaves of the segments: these files, without a tail and with the records it has
taken from them. -/
structure Leaves (dir : DataDir) (files : List (Nat × Bytes)) (dir' : DataDir) : Prop where
  other : ∀ n, n ≠ kLogDirName → dir'.lookup n = dir.lookup n
  log : pathExists dir' kLogDirName = true
  listed : (listedSegments dir').Perm files
  whole : ∀ file ∈ files, hasTail (segmentContent dir' file.2) = false
  records : ∀ file ∈ files,
    segmentRecords (segmentContent dir' file.2) = segmentRecords (segmentContent dir file.2)

section Again

variable {order : Sorter byStartIndex} {room : Nat → Bool} {dir dir' : DataDir} {m : Meta}

theorem loadSegmentsWith_leaves (hcount : m.logCount ≠ 0)
    (hexists : pathExists dir kLogDirName = true) (hroom : room m.logCount = true) :
    Leaves dir (trustedFiles dir (order.sort (listedSegments dir)))
      (loadSegmentsWith order room dir m).2 := by
  have hperm := order.perm (listedSegments dir)
  have hnodup := sort_nodup order dir
  rw [loadSegmentsWith_scan hcount hexists hroom]
  generalize order.sort (listedSegments dir) = files at hperm hnodup
  by_cases htail : ∃ file ∈ files, hasTail (segmentContent dir file.2) = true
  · obtain ⟨before, file, after, rfl, hbefore, hfile⟩ := exists_first_tail htail
    obtain ⟨found, tail, size, hdecoded, hne, rfl, hcut⟩ := exists_cut hfile
    rw [List.map_append, List.map_cons, List.nodup_append, List.nodup_cons] at hnodup
    obtain ⟨-, ⟨hafter, -⟩, hapart⟩ := hnodup
    have hwhole : ∀ n ∈ before.map Prod.snd, hasTail (segmentContent dir n) = false := by
      intro n hn
      obtain ⟨f, hf, rfl⟩ := List.mem_map.mp hn
      exact hbefore f hf
    have hrepaired := foldl_scanSegment_repaired m.firstLogIndex m.lastLogIndex hafter hwhole
      hdecoded hne
    have hkept : ∀ f ∈ before, f.2 ≠ file.2 ∧ f.2 ∉ after.map Prod.snd := by
      intro f hf
      have hmem := hapart f.2 (List.mem_map_of_mem hf)
      exact ⟨hmem _ List.mem_cons_self, fun hin => hmem _ (List.mem_cons_of_mem _ hin) rfl⟩
    rw [List.map_append, List.map_cons, trustedFiles_append hbefore hfile]
    refine ⟨hrepaired.other, hrepaired.log, ?_, fun f hf => ?_, fun f hf => ?_⟩
    · -- the files behind the cut one are gone
      have hfront : (before ++ [file]).filter (fun f => f.2 ∉ after.map Prod.snd) =
          before ++ [file] := by
        refine List.filter_eq_self.mpr fun f hf => decide_eq_true ?_
        rcases List.mem_append.mp hf with hf | hf
        · exact (hkept f hf).2
        · rw [List.mem_singleton.mp hf]
          exact hafter
      have hback : after.filter (fun f => f.2 ∉ after.map Prod.snd) = [] :=
        List.filter_eq_nil_iff.mpr fun f hf => by simpa using ⟨f.1, hf⟩
      have hleft : (before ++ file :: after).filter (fun f => f.2 ∉ after.map Prod.snd) =
          before ++ [file] := by
        rw [List.append_cons, List.filter_append, hfront, hback, List.append_nil]
      rw [hrepaired.listed, ← hleft]
      exact hperm.symm.filter _
    · rcases List.mem_append.mp hf with hf | hf
      · rw [hrepaired.kept f.2 (hkept f hf).1 (hkept f hf).2]
        exact hbefore f hf
      · rw [List.mem_singleton.mp hf, hrepaired.cut]
        simp [hasTail_eq hcut]
    · rcases List.mem_append.mp hf with hf | hf
      · rw [hrepaired.kept f.2 (hkept f hf).1 (hkept f hf).2]
      · rw [List.mem_singleton.mp hf, hrepaired.cut, segmentRecords_eq hcut,
          segmentRecords_eq hdecoded]
  · -- nothing has been cut
    have hwhole : ∀ file ∈ files, hasTail (segmentContent dir file.2) = false := by
      intro file hfile
      by_contra hne
      exact htail ⟨file, hfile, by simpa using hne⟩
    rw [trustedFiles_whole hwhole, foldl_scanSegment_whole _ _ fun n hn => by
      obtain ⟨f, hf, rfl⟩ := List.mem_map.mp hn
      exact hwhole f hf]
    exact ⟨fun _ _ => rfl, hexists, hperm.symm, hwhole, fun _ _ => rfl⟩

/-! ## A second `Load` -/

/-- Whole segments with the records of the meta file are accepted, and with others they are not. -/
theorem checkRecords_whole (hm : m.Valid) (hcount : m.logCount ≠ 0)
    {log : List LogRecord}
    (hindex : log.map LogRecord.index = List.range' m.firstLogIndex log.length)
    (hin : ∀ record ∈ log, record.index ≤ m.lastLogIndex) (dir : DataDir) :
    checkRecords m ⟨dir, log, false, false⟩ =
      if log.length = m.logCount then .ok log
      else .error (.logCountMismatch m.logCount log.length) := by
  by_cases hlength : log.length = m.logCount
  · obtain ⟨hconsecutive, hfirst⟩ := consecutive_of_index hindex
    have hne : log ≠ [] := fun hnil => hcount (by rw [← hlength, hnil]; rfl)
    have hlast := lastIndex_eq hconsecutive hne
    have hrange := hm.range hcount
    have hbound := hm.lastLogIndex
    rw [if_pos hlength]
    refine checkRecords_ok hconsecutive (fun record hrecord => ?_) hlength (hfirst hne) ?_ dir
    · exact (hin record hrecord).trans_lt hbound
    · rw [hfirst hne] at hlast
      omega
  · rw [if_neg hlength, checkRecords, if_pos ⟨hlength, by simp [acceptedTruncatedPrefix]⟩]

/-- The next `Load` reads all that is left, in an order of its own. -/
theorem Leaves.loadSegmentsWith_eq {files : List (Nat × Bytes)} (h : Leaves dir files dir')
    (hcount : m.logCount ≠ 0) (hroom : room m.logCount = true) (order' : Sorter byStartIndex) :
    loadSegmentsWith order' room dir' m =
      (checkRecords m ⟨dir', (order'.sort (listedSegments dir')).flatMap fun file =>
        recordsInRange m (segmentContent dir file.2), false, false⟩, dir') := by
  have hmem : ∀ file ∈ order'.sort (listedSegments dir'), file ∈ files := by
    intro file hfile
    exact h.listed.mem_iff.mp (order'.mem_sort.mp hfile)
  have hwhole : ∀ file ∈ order'.sort (listedSegments dir'),
      hasTail (segmentContent dir' file.2) = false := fun file hfile =>
        h.whole file (hmem file hfile)
  have hrecords : trusted m.firstLogIndex m.lastLogIndex
      (((order'.sort (listedSegments dir')).map Prod.snd).map (segmentContent dir')) =
        (order'.sort (listedSegments dir')).flatMap fun file =>
          recordsInRange m (segmentContent dir file.2) := by
    rw [List.map_map]
    refine (trusted_eq_flatMap dir' m _).trans ?_
    rw [trustedFiles_whole hwhole]
    refine List.flatMap_congr fun file hfile => ?_
    rw [recordsInRange, h.records file (hmem file hfile)]
    rfl
  rw [loadSegmentsWith_scan hcount h.log hroom, foldl_scanSegment_whole _ _ fun n hn => by
    obtain ⟨f, hf, rfl⟩ := List.mem_map.mp hn
    exact hwhole f hf, List.nil_append, hrecords]

/-- Two of the files have one start index, and both have records inside the range. -/
def Tied (dir : DataDir) (m : Meta) (files : List (Nat × Bytes)) : Prop :=
  ∃ a ∈ files, ∃ b ∈ files, a ≠ b ∧ a.1 = b.1 ∧
    recordsInRange m (segmentContent dir a.2) ≠ [] ∧ recordsInRange m (segmentContent dir b.2) ≠ []

/-- In the other order the files of a tie have other records. -/
theorem exists_order_ne {files left : List (Nat × Bytes)} (hperm : left.Perm files)
    (hindex : (files.flatMap fun file => recordsInRange m (segmentContent dir file.2)).Pairwise
      fun a b => a.index < b.index) (h : Tied dir m files) :
    ∃ order' : Sorter byStartIndex,
      ((order'.sort left).flatMap fun file => recordsInRange m (segmentContent dir file.2)) ≠
        files.flatMap fun file => recordsInRange m (segmentContent dir file.2) := by
  have hswap : ∀ a b : Nat × Bytes, a ≠ b → a.1 = b.1 → [a, b].Sublist files →
      recordsInRange m (segmentContent dir a.2) ≠ [] →
      recordsInRange m (segmentContent dir b.2) ≠ [] → ∃ order' : Sorter byStartIndex,
        ((order'.sort left).flatMap fun file => recordsInRange m (segmentContent dir file.2)) ≠
          files.flatMap fun file => recordsInRange m (segmentContent dir file.2) := by
    intro a b hne hstart hsub ha hb
    have hmem : ∀ file ∈ [a, b], file ∈ left := fun file hfile =>
      hperm.mem_iff.mpr (hsub.subset hfile)
    obtain ⟨order', hpair⟩ := Sorter.exists_sublist byStartIndex_trans byStartIndex_total
      (hmem b (by simp)) (hmem a (by simp)) hne (decide_eq_true hstart.ge)
    exact ⟨order', flatMap_ne_of_swap (fun _ _ => Nat.lt_asymm) hsub hpair ha hb hindex⟩
  obtain ⟨a, ha, b, hb, hne, hstart, harecords, hbrecords⟩ := h
  rcases pair_sublist_or ha hb hne with hsub | hsub
  · exact hswap a b hne hstart hsub harecords hbrecords
  · exact hswap b a hne.symm hstart.symm hsub hbrecords harecords

/-- What the next `Load` makes of the segments. -/
theorem loadSegmentsWith_again (hm : m.Valid) (hcount : m.logCount ≠ 0) {log : List LogRecord}
    (h : loadSegmentsWith order room dir m = (.ok log, dir')) :
    (∀ order' : Sorter byStartIndex, (loadSegmentsWith order' room dir' m).1 = .ok log) ↔
      log.length = m.logCount ∧
        ¬ Tied dir m (trustedFiles dir (order.sort (listedSegments dir))) := by
  obtain ⟨hexists, hroom, hlog, hindex, -⟩ := loadSegmentsWith_eq_ok hm hcount h
  have hleaves : Leaves dir (trustedFiles dir (order.sort (listedSegments dir)))
      (loadSegmentsWith order room dir m).2 := loadSegmentsWith_leaves hcount hexists hroom
  rw [h] at hleaves
  have hin : ∀ record ∈ log, record.index ≤ m.lastLogIndex := fun record hrecord =>
    (mem_trusted (hlog ▸ hrecord)).2.2
  rw [trusted_eq_flatMap] at hlog
  have hsorted := (order.sorted (listedSegments dir)).sublist (trustedFiles_sublist dir _)
  generalize trustedFiles dir (order.sort (listedSegments dir)) = files at hleaves hlog hsorted
  have hagain : ∀ order' : Sorter byStartIndex, loadSegmentsWith order' room dir' m = _ :=
    hleaves.loadSegmentsWith_eq hcount hroom
  have hperm : ∀ order' : Sorter byStartIndex, (order'.sort (listedSegments dir')).Perm files :=
    fun order' => (order'.perm _).trans hleaves.listed
  constructor
  · intro hsame
    refine ⟨?_, fun htied => ?_⟩
    · -- as many records as the meta file says
      have hfirst := hsame stableOrder
      obtain ⟨-, hlength, -⟩ := checkRecords_inv hcount (by rw [← hfirst, hagain])
      have heq := (checkRecords_inv hcount (by rw [← hfirst, hagain])).1
      rwa [← heq] at hlength
    · have hpairwise : log.Pairwise fun a b => a.index < b.index := by
        rw [← List.pairwise_map (R := (· < ·)), hindex]
        exact List.pairwise_lt_range'
      obtain ⟨order', hne⟩ := exists_order_ne hleaves.listed (hlog ▸ hpairwise) htied
      have hother := hsame order'
      have heq := (checkRecords_inv hcount (by rw [← hother, hagain])).1
      exact hne (heq.symm.trans hlog)
  · rintro ⟨hlength, htied⟩ order'
    have heq : ((order'.sort (listedSegments dir')).flatMap fun file =>
        recordsInRange m (segmentContent dir file.2)) = log := by
      rw [hlog]
      refine flatMap_eq_of_perm (hperm order') (order'.sorted _) hsorted
        fun a ha b hb hab hba harecords hbrecords => ?_
      by_contra hne
      exact htied ⟨a, (hperm order').mem_iff.mp ha, b, (hperm order').mem_iff.mp hb, hne,
        Nat.le_antisymm (of_decide_eq_true hab) (of_decide_eq_true hba), harecords, hbrecords⟩
    rw [hagain, heq, checkRecords_whole hm hcount hindex hin, if_pos hlength]

end Again

/-- A segment ends in bytes that are no record, and in front of them the segments have fewer
records than the meta file says. -/
def CutShort (order : Sorter byStartIndex) (dir : DataDir) : Prop :=
  pathExists dir kMetaFileName = true ∧ ∃ m, readMeta (fileContent dir kMetaFileName) = .ok m ∧
    m.logCount ≠ 0 ∧ (∃ name ∈ (listedSegments dir).map Prod.snd,
      hasTail (segmentContent dir name) = true) ∧
    (trusted m.firstLogIndex m.lastLogIndex
      (segmentContents dir (order.sort (listedSegments dir)))).length ≠ m.logCount

/-- Of the segments that are read two have one start index and records of the log. -/
def Ambiguous (order : Sorter byStartIndex) (dir : DataDir) : Prop :=
  pathExists dir kMetaFileName = true ∧ ∃ m, readMeta (fileContent dir kMetaFileName) = .ok m ∧
    m.logCount ≠ 0 ∧ Tied dir m (trustedFiles dir (order.sort (listedSegments dir)))

/-- `Load` adds to the log what it has read from the meta file. -/
theorem loadWith_eq_ok_iff {order : Sorter byStartIndex} {room : Nat → Bool} {dir : DataDir}
    {m : Meta} (hmeta : pathExists dir kMetaFileName = true)
    (hm : readMeta (fileContent dir kMetaFileName) = .ok m) {log : List LogRecord} :
    (loadWith order room dir).1 = .ok (some (clampRecoveredHardState { m.state with log })) ↔
      (loadSegmentsWith order room dir m).1 = .ok log := by
  rw [loadWith_of_meta hmeta hm]
  cases (loadSegmentsWith order room dir m).1 with
  | error e => simp [Except.map]
  | ok log' =>
    constructor
    · intro hsame
      have hstate := Option.some.inj (Except.ok.inj hsame)
      exact congrArg Except.ok (congrArg PersistentRaftState.log hstate)
    · rintro ⟨⟩
      rfl

section Loaded

variable {order : Sorter byStartIndex} {room : Nat → Bool} {dir dir' : DataDir} {m : Meta}
  {log : List LogRecord} (hmeta : pathExists dir kMetaFileName = true)
  (hm : readMeta (fileContent dir kMetaFileName) = .ok m) (hcount : m.logCount ≠ 0)

include hmeta hm hcount

/-- A `Load` that succeeds has cut the log short when it is not as long as the meta file says. -/
theorem cutShort_iff (hlog : loadSegmentsWith order room dir m = (.ok log, dir')) :
    CutShort order dir ↔ log.length ≠ m.logCount := by
  obtain ⟨-, -, htrusted, -, hwhole⟩ := loadSegmentsWith_eq_ok (readMeta_eq_ok hm) hcount hlog
  constructor
  · rintro ⟨-, m', hm', -, -, hlength⟩
    obtain rfl := Except.ok.inj (hm'.symm.trans hm)
    exact htrusted ▸ hlength
  · intro hlength
    refine ⟨hmeta, m, hm, hcount, ?_, htrusted ▸ hlength⟩
    obtain ⟨content, hcontent, htail⟩ := hwhole.resolve_left hlength
    obtain ⟨name, hname, rfl⟩ := mem_segmentContents hcontent
    exact ⟨name, ((order.perm _).map Prod.snd).mem_iff.mp hname, htail⟩

theorem ambiguous_iff :
    Ambiguous order dir ↔ Tied dir m (trustedFiles dir (order.sort (listedSegments dir))) := by
  constructor
  · rintro ⟨-, m', hm', -, htied⟩
    obtain rfl := Except.ok.inj (hm'.symm.trans hm)
    exact htied
  · intro htied
    exact ⟨hmeta, m, hm, hcount, htied⟩

end Loaded

/-- Every further `Load` returns what the first one has returned, unless that one has cut the log
short or has read two segments whose order is open. -/
theorem load_again_iff {order : Sorter byStartIndex} {room : Nat → Bool} {dir dir' : DataDir}
    {loaded : Option PersistentRaftState} (h : loadWith order room dir = (.ok loaded, dir')) :
    (∀ order' : Sorter byStartIndex, (loadWith order' room dir').1 = .ok loaded) ↔
      ¬ CutShort order dir ∧ ¬ Ambiguous order dir := by
  by_cases hmeta : pathExists dir kMetaFileName = true
  · obtain ⟨m, log, hm, hlog, rfl⟩ := loadSegmentsWith_of_load hmeta h
    by_cases hcount : m.logCount = 0
    · -- `log/` is not looked at
      have hsame : dir' = dir := by
        rw [loadSegmentsWith_empty hcount] at hlog
        exact (congrArg Prod.snd hlog).symm
      subst hsame
      refine iff_of_true (fun order' => ?_) ⟨?_, ?_⟩
      · rw [loadWith_of_meta hmeta hm, loadSegmentsWith_empty hcount] at h ⊢
        exact congrArg Prod.fst h
      · rintro ⟨-, m', hm', hcount', -⟩
        obtain rfl := Except.ok.inj (hm'.symm.trans hm)
        exact hcount' hcount
      · rintro ⟨-, m', hm', hcount', -⟩
        obtain rfl := Except.ok.inj (hm'.symm.trans hm)
        exact hcount' hcount
    · have hvalid := readMeta_eq_ok hm
      obtain ⟨hexists, hroom, -⟩ := loadSegmentsWith_eq_ok hvalid hcount hlog
      have hleaves : Leaves dir (trustedFiles dir (order.sort (listedSegments dir)))
          (loadSegmentsWith order room dir m).2 := loadSegmentsWith_leaves hcount hexists hroom
      rw [hlog] at hleaves
      -- the meta file is the same
      have hlookup := hleaves.other kMetaFileName (by decide)
      have hmeta' : pathExists dir' kMetaFileName = true := by rwa [pathExists, hlookup]
      have hm' : readMeta (fileContent dir' kMetaFileName) = .ok m := by
        rwa [fileContent, Disk.readFile, topLevel, hlookup]
      rw [forall_congr' fun _ => loadWith_eq_ok_iff hmeta' hm',
        loadSegmentsWith_again hvalid hcount hlog, cutShort_iff hmeta hm hcount hlog,
        ambiguous_iff hmeta hm hcount, not_not]
  · have hsame : (loadWith order room dir).2 = dir := (loadWith_of_no_meta hmeta order).1
    rw [h] at hsame
    obtain rfl : dir' = dir := hsame
    refine iff_of_true (fun order' => ?_) ⟨fun hcut => hmeta hcut.1, fun htied => hmeta htied.1⟩
    rw [(loadWith_of_no_meta hmeta order').2, h]

/-- A directory that is as it was saved. -/
def wholeDir : DataDir :=
  ((∅ : DataDir).insert kMetaFileName (.file (metaFields smallState).flatten)).insert kLogDirName
    (.dir ((∅ : AList fun _ => Bytes).insert (segmentFileName 7)
      (smallState.log.flatMap (encodeEntry fun _ => 0))))

theorem load_again_whole :
    (load wholeDir).1 = .ok (some smallState) ∧ ∀ order' : Sorter byStartIndex,
      (loadWith order' ample (load wholeDir).2).1 = .ok (some smallState) := by
  have hload : (load wholeDir).1 = .ok (some smallState) := by decide +kernel
  have hlisted : listedSegments wholeDir = [(7, segmentFileName 7)] := by decide +kernel
  have htail : ∀ name ∈ (listedSegments wholeDir).map Prod.snd,
      hasTail (segmentContent wholeDir name) = false := by decide +kernel
  refine ⟨hload, (load_again_iff (Prod.ext hload rfl)).mpr ⟨?_, ?_⟩⟩
  · rintro ⟨-, m, -, -, ⟨name, hname, hcut⟩, -⟩
    rw [htail name hname] at hcut
    cases hcut
  · rintro ⟨-, m, -, -, a, ha, b, hb, hne, -⟩
    have hall : ∀ file ∈ trustedFiles wholeDir (stableOrder.sort (listedSegments wholeDir)),
        file = (7, segmentFileName 7) := by
      intro file hfile
      have hmem := stableOrder.mem_sort.mp ((trustedFiles_sublist _ _).subset hfile)
      rwa [hlisted, List.mem_singleton] at hmem
    exact hne ((hall a ha).trans (hall b hb).symm)

/-- The torn directory is loaded once, and not a second time. -/
theorem load_again_torn :
    (load tornDir).1 = .ok (some { smallState with log := smallState.log.take 1 }) ∧
      (load (load tornDir).2).1 = .error (.logCountMismatch 2 1) := by
  refine ⟨?_, ?_⟩ <;> decide +kernel

/-! ## A segment that a crash has cut -/

/-- The records of a segment that are whole in its first `k` bytes. -/
def wholeRecords : Nat → List LogRecord → List LogRecord
  | _, [] => []
  | k, record :: rest =>
    if 40 + record.command.length ≤ k then
      record :: wholeRecords (k - (40 + record.command.length)) rest
    else []

/-- The first `k` bytes of a segment are some of its records, without a byte of the next one. -/
def AtRecordEnd (k : Nat) (chunk : List LogRecord) : Prop :=
  ∃ j, k = ((chunk.take j).map fun record => 40 + record.command.length).sum

theorem wholeRecords_prefix (k : Nat) (chunk : List LogRecord) :
    wholeRecords k chunk <+: chunk := by
  induction chunk generalizing k with
  | nil => exact List.prefix_rfl
  | cons record chunk ih =>
    rw [wholeRecords]
    split
    · exact (List.prefix_cons_inj record).mpr (ih _)
    · exact List.nil_prefix

theorem atRecordEnd_cons {k : Nat} {record : LogRecord} {chunk : List LogRecord}
    (h : 40 + record.command.length ≤ k) :
    AtRecordEnd k (record :: chunk) ↔ AtRecordEnd (k - (40 + record.command.length)) chunk := by
  constructor
  · rintro ⟨j, hj⟩
    cases j with
    | zero =>
      simp at hj
      omega
    | succ j =>
      rw [List.take_succ_cons, List.map_cons, List.sum_cons] at hj
      exact ⟨j, by omega⟩
  · rintro ⟨j, hj⟩
    refine ⟨j + 1, ?_⟩
    rw [List.take_succ_cons, List.map_cons, List.sum_cons]
    omega

/-- A part of a record is not read as a record. -/
theorem readEntry_take_ne {padding : LogRecord → Nat} {record : LogRecord} (h : record.Storable)
    {k : Nat} (hk : k < 40 + record.command.length) (found : LogRecord) (rest : Bytes) :
    readEntry ((encodeEntry padding record).take k) ≠ .entry found rest := by
  intro hread
  obtain ⟨-, piece, hpiece, -, hlocal⟩ := readEntry_eq_entry hread
  have hwhole := readEntry_encodeEntry h padding []
  rw [List.append_nil, ← List.take_append_drop k (encodeEntry padding record), hpiece,
    List.append_assoc, hlocal] at hwhole
  obtain ⟨-, hnil⟩ := EntryRead.entry.inj hwhole
  have hdrop := congrArg List.length (List.append_eq_nil_iff.mp hnil).2
  rw [List.length_drop, length_encodeEntry, List.length_nil] at hdrop
  omega

/-- What is read of the first bytes of a segment. -/
theorem decoded_take (padding : LogRecord → Nat) {chunk : List LogRecord}
    (h : ∀ record ∈ chunk, record.Storable) (k : Nat) :
    ∃ tail, Decoded ((chunk.flatMap (encodeEntry padding)).take k) (wholeRecords k chunk) tail ∧
      (k ≤ (chunk.flatMap (encodeEntry padding)).length → (tail = [] ↔ AtRecordEnd k chunk)) := by
  induction chunk generalizing k with
  | nil =>
    refine ⟨[], by simpa [wholeRecords] using Decoded.nil, fun hk => iff_of_true rfl ⟨0, ?_⟩⟩
    simpa using hk
  | cons record chunk ih =>
    have hrecord := h record List.mem_cons_self
    have hlength := length_encodeEntry padding record
    rw [List.flatMap_cons, wholeRecords]
    split
    · rename_i hwhole
      obtain ⟨tail, hdecoded, htail⟩ := ih (fun r hr => h r (List.mem_cons_of_mem _ hr))
        (k - (40 + record.command.length))
      refine ⟨tail, ?_, fun hk => ?_⟩
      · rw [List.take_append, hlength, List.take_of_length_le (by omega)]
        exact .next (readEntry_encodeEntry hrecord padding _) hdecoded
      · rw [atRecordEnd_cons hwhole]
        refine htail ?_
        rw [List.length_append, hlength] at hk
        omega
    · rename_i hpart
      refine ⟨(encodeEntry padding record).take k, ?_, fun _ => ?_⟩
      · rw [List.take_append_of_le_length (by omega)]
        exact .stop (readEntry_take_ne hrecord (by omega))
      · have hnil : (encodeEntry padding record).take k = [] ↔ k = 0 := by
          rw [← List.length_eq_zero_iff, List.length_take, hlength]
          omega
        rw [hnil]
        constructor
        · rintro rfl
          exact ⟨0, rfl⟩
        · rintro ⟨j, hj⟩
          cases j with
          | zero => simpa using hj
          | succ j =>
            rw [List.take_succ_cons, List.map_cons, List.sum_cons] at hj
            omega

theorem decoded_encode {padding : LogRecord → Nat} {chunk : List LogRecord}
    (h : ∀ record ∈ chunk, record.Storable) :
    Decoded (chunk.flatMap (encodeEntry padding)) chunk [] := by
  induction chunk with
  | nil => exact .nil
  | cons record chunk ih =>
    exact .next (readEntry_encodeEntry (h record List.mem_cons_self) padding _)
      (ih fun r hr => h r (List.mem_cons_of_mem _ hr))

/-- The segment that `Save` writes last. -/
def finalSegment (log : List LogRecord) : List LogRecord := (segments log).getLast?.getD []

/-- The records of a log that are whole when the file of its final segment has `k` bytes. -/
def keptRecords (k : Nat) (log : List LogRecord) : List LogRecord :=
  (segments log).dropLast.flatten ++ wholeRecords k (finalSegment log)

section Cut

variable {padding : LogRecord → Nat} {log : List LogRecord} {k : Nat}

theorem segments_eq_append (h : finalSegment log ≠ []) :
    segments log = (segments log).dropLast ++ [finalSegment log] := by
  unfold finalSegment at h ⊢
  cases hlast : (segments log).getLast? with
  | none => simp [hlast] at h
  | some chunk =>
    obtain ⟨init, hinit⟩ := List.getLast?_eq_some_iff.mp hlast
    simp [hinit]

theorem finalSegment_mem (h : finalSegment log ≠ []) : finalSegment log ∈ segments log := by
  rw [segments_eq_append h]
  simp

theorem finalSegment_ne_nil
    (hk : k < ((finalSegment log).flatMap (encodeEntry padding)).length) :
    finalSegment log ≠ [] := by
  intro hnil
  simp [hnil] at hk

theorem keptRecords_prefix (h : finalSegment log ≠ []) : keptRecords k log <+: log := by
  obtain ⟨rest, hrest⟩ := wholeRecords_prefix k (finalSegment log)
  refine ⟨rest, ?_⟩
  rw [keptRecords, List.append_assoc, hrest]
  conv_rhs => rw [← flatten_segments log, segments_eq_append h]
  simp

theorem wholeRecords_length_lt {chunk : List LogRecord}
    (hk : k < (chunk.flatMap (encodeEntry padding)).length) :
    (wholeRecords k chunk).length < chunk.length := by
  induction chunk generalizing k with
  | nil => simp at hk
  | cons record chunk ih =>
    rw [List.flatMap_cons, List.length_append, length_encodeEntry] at hk
    rw [wholeRecords]
    split
    · rw [List.length_cons, List.length_cons]
      exact Nat.succ_lt_succ (ih (by omega))
    · simp

theorem keptRecords_length_lt (hk : k < ((finalSegment log).flatMap (encodeEntry padding)).length) :
    (keptRecords k log).length < log.length := by
  have hlt := wholeRecords_length_lt hk
  have hlength := congrArg List.length (flatten_segments log)
  rw [segments_eq_append (finalSegment_ne_nil hk), List.flatten_append, List.length_append,
    List.flatten_singleton] at hlength
  rw [keptRecords, List.length_append]
  omega

theorem consecutive_of_prefix {kept : List LogRecord} (h : Consecutive log) (hpre : kept <+: log) :
    kept.map LogRecord.index = List.range' (firstIndex log) kept.length := by
  have hmap := hpre.map LogRecord.index
  rw [h, List.prefix_iff_eq_take, List.length_map,
    List.take_range'_of_length_ge hpre.length_le] at hmap
  exact hmap

variable {dir cut : DataDir}

theorem segmentContent_segment (hlog : HoldsSegments padding log (dir.lookup kLogDirName))
    {chunk : List LogRecord} (hchunk : chunk ∈ segments log) :
    segmentContent dir (segmentFileName (firstIndex chunk)) =
      chunk.flatMap (encodeEntry padding) := by
  rw [segmentContent, readFile_segment hlog hchunk, Option.getD_some]

/-- The names of the segments, the final one behind the others. -/
theorem segmentFiles_names (hlog : HoldsSegments padding log (dir.lookup kLogDirName))
    (h : Consecutive log) (hlt : ∀ record ∈ log, record.index < 2 ^ 64)
    (hfinal : finalSegment log ≠ []) :
    (segmentFiles dir).map Prod.snd =
      ((segments log).dropLast.map fun chunk => segmentFileName (firstIndex chunk)) ++
        [segmentFileName (firstIndex (finalSegment log))] := by
  rw [segmentFiles_eq hlog h hlt, List.map_map]
  conv_lhs => rw [segments_eq_append hfinal, List.map_append]
  rfl

/-- A saved log with its final segment cut to `k` bytes. -/
theorem repaired_resize (hlog : HoldsSegments padding log (dir.lookup kLogDirName))
    (hfinal : finalSegment log ≠ [])
    (hcut : dir.apply (.resize ⟨some kLogDirName,
      segmentFileName (firstIndex (finalSegment log))⟩ k) = some cut) :
    Repaired dir [] (segmentFileName (firstIndex (finalSegment log)))
      (((finalSegment log).flatMap (encodeEntry padding)).take k) cut := by
  have hread := readFile_segment hlog (finalSegment_mem hfinal)
  obtain ⟨files, hfiles, -⟩ := hlog
  simp only [Disk.readFile, hfiles] at hread
  obtain ⟨files', hresize, hkeys, hname, hother⟩ := apply_resize hfiles hread k
  obtain rfl := Option.some.inj (hresize.symm.trans hcut)
  have hfiles' : (dir.replace kLogDirName (.dir files')).lookup kLogDirName =
      some (.dir files') := by
    rw [Disk.lookup_replace_eq, if_pos rfl, hfiles]
    rfl
  refine ⟨fun n hn => ?_, by simp [pathExists, hfiles'], ?_, fun n hn _ => ?_, ?_⟩
  · rw [Disk.lookup_replace_eq, if_neg hn]
  · simp [listedSegments, hfiles', hfiles, hkeys]
  · rw [segmentContent_eq hfiles', segmentContent_eq hfiles, hother n hn]
  · rw [segmentContent_eq hfiles', hname]
    rfl

theorem trusted_encode {chunks : List (List LogRecord)}
    (hstorable : ∀ record ∈ chunks.flatten, record.Storable)
    (hin : ∀ record ∈ chunks.flatten,
      firstIndex log ≤ record.index ∧ record.index ≤ lastIndex log) :
    trusted (firstIndex log) (lastIndex log)
      (chunks.map fun chunk => chunk.flatMap (encodeEntry padding)) = chunks.flatten := by
  induction chunks with
  | nil => rfl
  | cons chunk chunks ih =>
    rw [List.flatten_cons] at hstorable hin
    have hdecoded : Decoded (chunk.flatMap (encodeEntry padding)) chunk [] :=
      decoded_encode fun record hrecord => hstorable record (List.mem_append_left _ hrecord)
    rw [List.map_cons, trusted, segmentRecords_eq hdecoded, hasTail_eq hdecoded,
      ih (fun record hrecord => hstorable record (List.mem_append_right _ hrecord))
        (fun record hrecord => hin record (List.mem_append_right _ hrecord)),
      List.filter_eq_self.mpr fun record hrecord => by
        simpa using hin record (List.mem_append_left _ hrecord)]
    simp

/-- Reading the segments in front of the final one, and then what is left of that. -/
theorem foldl_scanSegment_cut (hlog : HoldsSegments padding log (dir.lookup kLogDirName))
    (h : Consecutive log) (hstorable : ∀ record ∈ log, record.Storable)
    (hpre : keptRecords k log <+: log) (hfinal : finalSegment log ≠ [])
    (hcut : Repaired dir [] (segmentFileName (firstIndex (finalSegment log)))
      (((finalSegment log).flatMap (encodeEntry padding)).take k) cut) {tail : Bytes}
    (hdecoded : Decoded (((finalSegment log).flatMap (encodeEntry padding)).take k)
      (wholeRecords k (finalSegment log)) tail) :
    ∃ disk, ((segmentFiles cut).map Prod.snd).foldl
        (scanSegment (firstIndex log) (lastIndex log)) ⟨cut, [], false, false⟩ =
      ⟨disk, keptRecords k log, decide (tail ≠ []), false⟩ := by
  have hkept : ∀ record ∈ keptRecords k log, record ∈ log := fun record hrecord =>
    hpre.subset hrecord
  have hlt : ∀ record ∈ log, record.index < 2 ^ 64 := fun record hrecord =>
    (hstorable record hrecord).index
  have hnames := segmentFiles_names hlog h hlt hfinal
  have hnodup := sort_nodup stableOrder dir
  rw [← segmentFiles, hnames, List.nodup_append] at hnodup
  have hsame : segmentFiles cut = segmentFiles dir := by
    rw [segmentFiles, hcut.listed, List.filter_eq_self.mpr fun _ _ => by simp, segmentFiles]
  have hcontent : ∀ chunk ∈ (segments log).dropLast,
      segmentContent cut (segmentFileName (firstIndex chunk)) =
        chunk.flatMap (encodeEntry padding) := by
    intro chunk hchunk
    have hne := hnodup.2.2 _ (List.mem_map_of_mem hchunk) _ (List.mem_singleton_self _)
    rw [hcut.kept _ hne List.not_mem_nil,
      segmentContent_segment hlog (List.mem_of_mem_dropLast hchunk)]
  have hmem : ∀ chunk ∈ (segments log).dropLast, ∀ record ∈ chunk, record ∈ log :=
    fun chunk hchunk record hrecord =>
      mem_of_mem_segments (List.mem_of_mem_dropLast hchunk) hrecord
  have hwhole : ∀ n ∈ (segments log).dropLast.map fun chunk => segmentFileName (firstIndex chunk),
      hasTail (segmentContent cut n) = false := by
    intro n hn
    obtain ⟨chunk, hchunk, rfl⟩ := List.mem_map.mp hn
    rw [hcontent chunk hchunk, hasTail_eq (decoded_encode fun record hrecord =>
      hstorable record (hmem chunk hchunk record hrecord))]
    simp
  have hfront : trusted (firstIndex log) (lastIndex log)
      (((segments log).dropLast.map fun chunk => segmentFileName (firstIndex chunk)).map
        (segmentContent cut)) = (segments log).dropLast.flatten := by
    rw [List.map_map, List.map_congr_left (g := fun chunk => chunk.flatMap (encodeEntry padding))
      hcontent]
    refine trusted_encode (fun record hrecord => ?_) fun record hrecord => ?_
    all_goals
      have hrecord' := hkept record (List.mem_append_left _ hrecord)
    · exact hstorable record hrecord'
    · exact mem_range h hrecord'
  have hback : ((wholeRecords k (finalSegment log)).filter fun record =>
      firstIndex log ≤ record.index ∧ record.index ≤ lastIndex log) =
        wholeRecords k (finalSegment log) :=
    List.filter_eq_self.mpr fun record hrecord => by
      simpa using mem_range h (hkept record (List.mem_append_right _ hrecord))
  rw [← hcut.cut] at hdecoded
  rw [hsame, hnames, List.foldl_append, foldl_scanSegment_whole _ _ hwhole, hfront,
    List.nil_append, List.foldl_cons, List.foldl_nil]
  by_cases htail : tail = []
  · have hnone : hasTail (segmentContent cut
        (segmentFileName (firstIndex (finalSegment log)))) = false := by
      simp [hasTail_eq hdecoded, htail]
    rw [scanSegment_whole _ _ hnone, segmentRecords_eq hdecoded, hback]
    exact ⟨cut, by simp [htail, keptRecords]⟩
  · rw [scanSegment_tail _ _ hdecoded htail, hback]
    exact ⟨_, by simp [htail, keptRecords]; rfl⟩

/-- Behind a cut, what is left of the log is accepted. -/
theorem checkRecords_cut {m : Meta} {kept : List LogRecord} (hne : kept ≠ [])
    (hindex : kept.map LogRecord.index = List.range' m.firstLogIndex kept.length)
    (hlt : ∀ record ∈ kept, record.index < 2 ^ 64) (disk : DataDir) :
    checkRecords m ⟨disk, kept, true, false⟩ = .ok kept := by
  obtain ⟨hconsecutive, hfirst⟩ := consecutive_of_index hindex
  have hgap := firstGap_of_consecutive hconsecutive hlt
  have hfront := hfirst hne
  cases kept with
  | nil => exact absurd rfl hne
  | cons front rest =>
    have hfront' : front.index = m.firstLogIndex := hfront
    rw [checkRecords, if_neg (by simp [acceptedTruncatedPrefix, hfront'])]
    simp [List.getLast?_cons, hfront', hgap]

theorem clampRecoveredHardState_cut {state : PersistentRaftState} (h : state.WellFormed)
    (kept : List LogRecord) :
    clampRecoveredHardState { state with log := kept } =
      { state with
        commitIndex := min state.commitIndex (lastIndex kept)
        lastApplied := min state.lastApplied (lastIndex kept)
        log := kept } := by
  have happlied := h.applied
  unfold clampRecoveredHardState lastIndex
  cases kept.getLast? <;> simp
  omega

/-- A final segment that is cut to `k` bytes is repaired when the cut falls into a record. When it
falls between two records, or leaves nothing of the segment, `Load` fails. -/
theorem load_cut_iff (padding : LogRecord → Nat) {state : PersistentRaftState}
    (hrange : state.InRange) (hform : state.WellFormed) (hfits : state.Fits)
    {script : List Outcome} {w : World Bytes UInt8}
    (hsave : save padding state ⟨dir, [], script⟩ = (some true, w))
    (hk : k < ((finalSegment state.log).flatMap (encodeEntry padding)).length)
    (hkept : keptRecords k state.log ≠ [])
    (hcut : w.disk.apply (.resize ⟨some kLogDirName,
      segmentFileName (firstIndex (finalSegment state.log))⟩ k) = some cut) :
    (load cut).1 = .ok (some { state with
        commitIndex := min state.commitIndex (lastIndex (keptRecords k state.log))
        lastApplied := min state.lastApplied (lastIndex (keptRecords k state.log))
        log := keptRecords k state.log }) ↔
      ¬ AtRecordEnd k (finalSegment state.log) := by
  have hspec := wp_save padding (index_nodup hform.consecutive)
    (fun record hrecord => (hrange.records record hrecord).1) dir script
  rw [Prog.Wp, hsave] at hspec
  have hpublished := hspec.2 rfl
  have hfinal := finalSegment_ne_nil hk
  have hpre : keptRecords k state.log <+: state.log := keptRecords_prefix hfinal
  have hstorable := hrange.storable hfits
  have hrepaired := repaired_resize hpublished.log hfinal hcut
  have hsegment : ∀ record ∈ finalSegment state.log, record.Storable := fun record hrecord =>
    hstorable record (mem_of_mem_segments (finalSegment_mem hfinal) hrecord)
  obtain ⟨tail, hdecoded, htail⟩ := decoded_take padding hsegment k
  obtain ⟨disk, hscan⟩ := foldl_scanSegment_cut hpublished.log hform.consecutive hstorable hpre
    hfinal hrepaired hdecoded
  have hindex := consecutive_of_prefix hform.consecutive hpre
  have hlength := keptRecords_length_lt hk
  have hmeta : cut.lookup kMetaFileName = some (.file (metaFields state).flatten) :=
    (hrepaired.other kMetaFileName (by decide)).trans hpublished.metaFile
  have hread : readMeta (fileContent cut kMetaFileName) = .ok (metaOf state) := by
    rw [fileContent, Disk.readFile, topLevel, hmeta]
    exact readMeta_metaFields hrange hform
  have hcount : (metaOf state).logCount ≠ 0 := by
    show state.log.length ≠ 0
    omega
  rw [load, loadWith_of_meta (by simp [pathExists, hmeta]) hread,
    loadSegmentsWith_scan hcount hrepaired.log rfl, ← htail hk.le]
  have hscan' : ((stableOrder.sort (listedSegments cut)).map Prod.snd).foldl
      (scanSegment (metaOf state).firstLogIndex (metaOf state).lastLogIndex)
      ⟨cut, [], false, false⟩ = ⟨disk, keptRecords k state.log, decide (tail ≠ []), false⟩ := hscan
  rw [hscan']
  by_cases hnil : tail = []
  · have hin : ∀ record ∈ keptRecords k state.log, record.index ≤ (metaOf state).lastLogIndex :=
      fun record hrecord => (mem_range hform.consecutive (hpre.subset hrecord)).2
    have hcheck := checkRecords_whole (readMeta_eq_ok hread) hcount hindex hin disk
    rw [if_neg (show (keptRecords k state.log).length ≠ (metaOf state).logCount from hlength.ne)]
      at hcheck
    simp only [hnil, ne_eq, not_true_eq_false, decide_false, hcheck]
    exact iff_of_false (fun heq => by cases heq) (by simp)
  · have hlt : ∀ record ∈ keptRecords k state.log, record.index < 2 ^ 64 :=
      fun record hrecord => (hrange.records record (hpre.subset hrecord)).1
    have hcheck := checkRecords_cut (m := metaOf state) hkept hindex hlt disk
    have hclamp := clampRecoveredHardState_cut hform (keptRecords k state.log)
    simp only [hnil, ne_eq, not_false_eq_true, decide_true, hcheck, Except.map, iff_true]
    rw [← hclamp]
    rfl

end Cut

/-- A state, saved in an empty directory. -/
def saved (state : PersistentRaftState) : Option Bool × World Bytes UInt8 :=
  save (fun _ => 0) state ⟨∅, [], List.replicate 40 .ok⟩

/-- Its final segment, cut to `k` bytes. -/
def savedCut (state : PersistentRaftState) (k : Nat) : Option DataDir :=
  (saved state).2.disk.apply (.resize ⟨some kLogDirName,
    segmentFileName (firstIndex (finalSegment state.log))⟩ k)

theorem save_eq_saved {state : PersistentRaftState} (h : (saved state).1 = some true) :
    save (fun _ => 0) state ⟨∅, [], List.replicate 40 .ok⟩ = (some true, (saved state).2) :=
  Prod.ext h rfl

/-- Of the 95 bytes of the segment the last one is missing. -/
theorem load_cut_inside :
    ∃ cut, savedCut smallState 94 = some cut ∧
      (load cut).1 = .ok (some { smallState with log := smallState.log.take 1 }) := by
  have hok : (saved smallState).1 = some true := by decide +kernel
  have hcut : (savedCut smallState 94).isSome = true := by decide +kernel
  obtain ⟨cut, hcut⟩ := Option.isSome_iff_exists.mp hcut
  have hk : 94 < ((finalSegment smallState.log).flatMap (encodeEntry fun _ => 0)).length := by
    decide +kernel
  have hkept : keptRecords 94 smallState.log ≠ [] := by decide +kernel
  have hend : ¬ AtRecordEnd 94 (finalSegment smallState.log) := by
    rintro ⟨j, hj⟩
    have hsegment : finalSegment smallState.log =
        [⟨7, 1, ascii "snapshot"⟩, ⟨8, 3, ascii "SET|k|v"⟩] := by decide +kernel
    rw [hsegment] at hj
    match j, hj with
    | 0, hj => simp at hj
    | 1, hj => simp [ascii] at hj
    | j + 2, hj => simp [ascii] at hj
  have hload := (load_cut_iff (fun _ => 0) smallState_inRange smallState_wellFormed smallState_fits
    (save_eq_saved hok) hk hkept hcut).mpr hend
  refine ⟨cut, hcut, hload.trans ?_⟩
  decide +kernel

/-- Cut to the 48 bytes of its first record, the segment is refused. -/
theorem load_cut_between :
    (saved smallState).1 = some true ∧ keptRecords 48 smallState.log = smallState.log.take 1 ∧
      ((savedCut smallState 48).map fun cut => (load cut).1) =
        some (.error (.logCountMismatch 2 1)) := by
  refine ⟨?_, ?_, ?_⟩ <;> decide +kernel

end FileRaftStorage

end CquptRaft
