import CquptRaft.Storage.SnapshotPublish

/-!
# Pruning

`PruneSnapshots` lists the snapshots and removes those behind the first `max_keep`, the newest of
them first and each one file by file. It touches no file of the others, so however far it gets, the
first ones stay in the list and nothing newer comes in front of them. A removal that fails ends it,
when there is a string for the error.
-/

namespace CquptRaft

open Binary Files Sorting

namespace FileSnapshotStorage

/-! ## `PruneSnapshots` -/

/-- The loop over the snapshots that are to go. `hasError` tells whether the caller wants the error:
without it a failed removal is passed over. -/
def pruneLoop (hasError : Bool) : List SnapshotMeta → SnapshotProg Bool
  | [] => return true
  | snapshot :: rest => do
    if snapshot.snapshotDir ≠ [] then
      if !(← removeTree snapshot.snapshotDir) && hasError then return false
      pruneLoop hasError rest
    else
      if !(← perform (.remove snapshot.snapshotPath)) && hasError then return false
      if !(← perform (.remove snapshot.metaPath)) && hasError then return false
      pruneLoop hasError rest

/-- How many snapshots are kept at least. -/
def keepCount (maxKeep : Nat) : Nat := if maxKeep = 0 then 1 else maxKeep

def pruneSnapshotsWith (order : Sorter newerFirst) (hasError : Bool) (maxKeep : Nat) :
    SnapshotProg Bool := do
  let snapshots ← look (listSnapshotsWith order)
  if snapshots.length ≤ keepCount maxKeep then return true
  if !(← pruneLoop hasError (snapshots.drop (keepCount maxKeep))) then return false
  perform .syncRoot

def pruneSnapshots (hasError : Bool) (maxKeep : Nat) : SnapshotProg Bool :=
  pruneSnapshotsWith stableOrder hasError maxKeep

/-! ## The files of a snapshot -/

variable {d disk disk' : SnapshotDisk} {name name' : Bytes} {m snapshot : SnapshotMeta}
  {path : Path Bytes}

/-- The snapshot directories have the names that `SaveSnapshotFile` gives them. -/
def Layout (d : SnapshotDisk) : Prop :=
  ∀ m ∈ listSnapshots d, m.snapshotDir ≠ [] → m.snapshotDir = finalDir m.lastIncludedIndex

/-- The files that go with a snapshot. -/
def Belongs (snapshot : SnapshotMeta) (path : Path Bytes) : Prop :=
  if snapshot.snapshotDir ≠ [] then path.top = snapshot.snapshotDir
  else path = snapshot.snapshotPath ∨ path = snapshot.metaPath

theorem legacyStem_eq {stem : Bytes} (h : legacyStem name = some stem) :
    name = stem ++ ascii ".meta" := by
  unfold legacyStem at h
  split at h
  · rename_i hmeta
    cases h
    rw [← hmeta.2, List.take_append_drop]
  · cases h

theorem meta_ne_bin (stem stem' : Bytes) : stem ++ ascii ".meta" ≠ stem' ++ ascii ".bin" := by
  intro h
  have hlast := congrArg List.getLast? h
  rw [List.getLast?_append_of_ne_nil _ (by decide), List.getLast?_append_of_ne_nil _ (by decide)]
    at hlast
  revert hlast
  decide

/-- The files of one snapshot are no files of another. -/
theorem belongs_apart (hlayout : Layout d) (hs : snapshotAt d name = some snapshot)
    (hm : snapshotAt d name' = some m) (hne : name ≠ name') (hpath : Belongs snapshot path) :
    path ≠ m.metaPath ∧ path ≠ m.snapshotPath := by
  unfold Belongs at hpath
  obtain ⟨files, -, hstart, hread⟩ | ⟨content, stem, -, hstem, hread⟩ := snapshotAt_cases hs
  · -- a directory
    obtain ⟨hdir, -, -⟩ := readDirectorySnapshot_paths hread
    have hname : snapshot.snapshotDir ≠ [] := by
      rw [hdir]
      rintro rfl
      cases hstart
    rw [if_pos hname, hdir] at hpath
    have hends : EndsInDigit name := by
      rw [← hdir, hlayout snapshot (mem_snapshots_iff.mpr ⟨name, hs⟩) hname]
      exact endsInDigit_finalDir _
    obtain ⟨files', -, -, hread'⟩ | ⟨content', stem', -, hstem', hread'⟩ := snapshotAt_cases hm
    · obtain ⟨-, hmeta', hdata'⟩ := readDirectorySnapshot_paths hread'
      refine ⟨?_, ?_⟩ <;> rintro rfl
      · rw [hmeta'] at hpath
        exact hne hpath.symm
      · rw [Path.top, hdata'] at hpath
        exact hne hpath.symm
    · obtain ⟨-, hmeta', hdata'⟩ := readLegacyFlatSnapshot_paths hread'
      refine ⟨?_, ?_⟩ <;> rintro rfl
      · rw [hmeta'] at hpath
        exact hne hpath.symm
      · rw [hdata'] at hpath
        exact hends.ne_bin stem' hpath
  · -- two files
    obtain ⟨hdir, hmeta, hdata⟩ := readLegacyFlatSnapshot_paths hread
    rw [if_neg (not_not.mpr hdir), hdata, hmeta] at hpath
    obtain ⟨files', -, -, hread'⟩ | ⟨content', stem', -, hstem', hread'⟩ := snapshotAt_cases hm
    · obtain ⟨-, hmeta', hdata'⟩ := readDirectorySnapshot_paths hread'
      have hnone : path.dir = none := by rcases hpath with rfl | rfl <;> rfl
      refine ⟨?_, ?_⟩ <;> rintro rfl
      · rw [hmeta'] at hnone
        cases hnone
      · rw [hdata'] at hnone
        cases hnone
    · obtain ⟨-, hmeta', hdata'⟩ := readLegacyFlatSnapshot_paths hread'
      rw [hmeta', hdata']
      have hname := legacyStem_eq hstem
      have hname' := legacyStem_eq hstem'
      subst hname hname'
      rcases hpath with rfl | rfl
      · refine ⟨fun heq => ?_, fun heq => ?_⟩
        · exact meta_ne_bin stem' stem (Files.Path.mk.inj heq).2.symm
        · have hsame := List.append_cancel_right (Files.Path.mk.inj heq).2
          exact hne (by rw [hsame])
      · refine ⟨fun heq => ?_, fun heq => ?_⟩
        · exact hne (Files.Path.mk.inj heq).2
        · exact meta_ne_bin stem stem' (Files.Path.mk.inj heq).2

/-! ## What is left -/

/-- Nothing but the snapshots of `going` has been touched, and those of `gone` are no longer in the
list. -/
structure Pruned (d : SnapshotDisk) (going gone : List SnapshotMeta) (disk : SnapshotDisk) :
    Prop where
  fewer : ∀ name m, snapshotAt disk name = some m → snapshotAt d name = some m
  kept : ∀ name m, snapshotAt d name = some m → m ∉ going →
    snapshotAt disk name = some m ∧ disk.readFile m.snapshotPath = d.readFile m.snapshotPath
  gone : ∀ m ∈ gone, snapshotAt disk m.metaPath.top = none

variable {going gone : List SnapshotMeta}

theorem Pruned.refl (d : SnapshotDisk) (going : List SnapshotMeta) : Pruned d going [] d :=
  ⟨fun _ _ => id, fun _ _ hm _ => ⟨hm, rfl⟩, by simp⟩

theorem Pruned.remove (h : Pruned d going gone disk) (hlayout : Layout d)
    (hs : snapshotAt d name = some snapshot) (hgoing : snapshot ∈ going)
    (hpath : Belongs snapshot path) (hop : disk.remove path = some disk') :
    Pruned d going gone disk' where
  fewer n m hm := h.fewer n m (snapshotAt_of_remove hop hm)
  kept n m hm hstays := by
    obtain ⟨hthere, hdata⟩ := h.kept n m hm hstays
    have hne : name ≠ n := by
      rintro rfl
      rw [hs] at hm
      exact hstays (Option.some.inj hm ▸ hgoing)
    have hapart := belongs_apart hlayout hs hm hne hpath
    refine ⟨snapshotAt_remove hop hthere hapart.1 hapart.2, ?_⟩
    rw [Disk.readFile_remove hop, if_neg hapart.2.symm, hdata]
  gone m hm := by
    rw [Option.eq_none_iff_forall_not_mem]
    intro m' hm'
    have hbefore := snapshotAt_of_remove hop hm'
    rw [h.gone m hm] at hbefore
    cases hbefore

theorem snapshotAt_of_lookup (h : d.lookup name = none) : snapshotAt d name = none := by
  simp [snapshotAt, h]

theorem Pruned.done (h : Pruned d going gone disk) (hs : snapshotAt d name = some snapshot)
    (hnone : disk.lookup name = none) : Pruned d going (snapshot :: gone) disk where
  fewer := h.fewer
  kept := h.kept
  gone m hm := by
    rcases List.mem_cons.mp hm with rfl | hm
    · rw [snapshotAt_top hs]
      exact snapshotAt_of_lookup hnone
    · exact h.gone m hm

theorem Pruned.weaken {gone' : List SnapshotMeta} (h : Pruned d going gone disk)
    (hsub : gone' ⊆ gone) : Pruned d going gone' disk :=
  ⟨h.fewer, h.kept, fun m hm => h.gone m (hsub hm)⟩

open Prog

variable {w : World Bytes UInt8}

/-- A directory goes, or a part of it. -/
theorem wp_pruneDir (hlayout : Layout d) (h : Pruned d going gone w.disk)
    (hs : snapshotAt d name = some snapshot) (hgoing : snapshot ∈ going)
    (hdir : snapshot.snapshotDir ≠ []) :
    (removeTree snapshot.snapshotDir).Wp
      (fun ok w' => Pruned d going gone w'.disk ∧
        (ok = true → Pruned d going (snapshot :: gone) w'.disk))
      (fun w' => Pruned d going gone w'.disk) w := by
  have hremove : ∀ {disk disk' : SnapshotDisk} {path : Path Bytes},
      path.top = snapshot.snapshotDir → Pruned d going gone disk → disk.remove path = some disk' →
        Pruned d going gone disk' := by
    intro disk disk' path htop h hop
    refine h.remove hlayout hs hgoing ?_ hop
    rwa [Belongs, if_pos hdir]
  refine (wp_removeTree (hremove rfl) (hremove rfl) h).imp (fun ok w' hok => ?_) fun _ => id
  refine ⟨hok.1, fun htrue => hok.1.done hs ?_⟩
  have hname : snapshot.snapshotDir = name := by
    obtain ⟨files, -, -, hread⟩ | ⟨content, stem, -, -, hread⟩ := snapshotAt_cases hs
    · exact (readDirectorySnapshot_paths hread).1
    · exact absurd (readLegacyFlatSnapshot_paths hread).1 hdir
  rw [← hname]
  exact hok.2 htrue

theorem flat_metaPath (hs : snapshotAt d name = some snapshot)
    (hflat : ¬ snapshot.snapshotDir ≠ []) :
    snapshot.metaPath = ⟨none, name⟩ := by
  obtain ⟨files, -, hstart, hread⟩ | ⟨content, stem, -, -, hread⟩ := snapshotAt_cases hs
  · refine absurd ?_ hflat
    rw [(readDirectorySnapshot_paths hread).1]
    rintro rfl
    cases hstart
  · exact (readLegacyFlatSnapshot_paths hread).2.1

/-- The files of a pair go, or one of them. -/
theorem wp_pruneFile (hlayout : Layout d) (h : Pruned d going gone w.disk)
    (hs : snapshotAt d name = some snapshot) (hgoing : snapshot ∈ going)
    (hpath : Belongs snapshot path) :
    (perform (.remove path)).Wp
      (fun ok w' => Pruned d going gone w'.disk ∧
        (ok = true → path = ⟨none, name⟩ → Pruned d going (snapshot :: gone) w'.disk))
      (fun w' => Pruned d going gone w'.disk) w := by
  refine wp_perform h (fun _ => ⟨h, by simp⟩) fun disk script hdisk => ?_
  have hpruned := h.remove hlayout hs hgoing hpath hdisk
  refine ⟨hpruned, fun _ hname => hpruned.done hs ?_⟩
  subst hname
  rw [Disk.lookup_remove hdisk, if_pos rfl]

/-- The loop touches only what is to go. When it gets through and a failure would have stopped it,
all of that is gone. -/
theorem wp_pruneLoop (hlayout : Layout d) (hasError : Bool) {snapshots : List SnapshotMeta}
    (hmem : ∀ snapshot ∈ snapshots, snapshot ∈ going ∧ ∃ name, snapshotAt d name = some snapshot)
    (h : Pruned d going gone w.disk) :
    (pruneLoop hasError snapshots).Wp
      (fun ok w' => Pruned d going gone w'.disk ∧ (ok = true → hasError = true →
        Pruned d going (snapshots.reverse ++ gone) w'.disk))
      (fun w' => Pruned d going gone w'.disk) w := by
  induction snapshots generalizing gone w with
  | nil => exact wp_pure ⟨h, fun _ _ => h⟩
  | cons snapshot rest ih =>
    obtain ⟨⟨hgoing, name, hs⟩, hrest⟩ := List.forall_mem_cons.mp hmem
    -- what follows when the snapshot is gone, and when it is not but that is passed over
    have hnext : ∀ {w' : World Bytes UInt8} {ok : Bool}, Pruned d going gone w'.disk →
        (ok = true → Pruned d going (snapshot :: gone) w'.disk) → (!ok && hasError) = false →
        (pruneLoop hasError rest).Wp
          (fun ok w' => Pruned d going gone w'.disk ∧ (ok = true → hasError = true →
            Pruned d going ((snapshot :: rest).reverse ++ gone) w'.disk))
          (fun w' => Pruned d going gone w'.disk) w' := by
      intro w' ok hpruned hok hgoes
      cases ok with
      | true =>
        refine (ih hrest (hok rfl)).imp (fun ok w' hw' => ⟨hw'.1.weaken (by simp), ?_⟩)
          fun w' hw' => hw'.weaken (by simp)
        rw [List.reverse_cons, List.append_assoc]
        exact hw'.2
      | false =>
        have hno : hasError = false := by simpa using hgoes
        exact (ih hrest hpruned).imp (fun ok w' hw' => ⟨hw'.1, by simp [hno]⟩) fun w' => id
    rw [pruneLoop]
    split
    · rename_i hdir
      refine wp_bind ((wp_pruneDir hlayout h hs hgoing hdir).imp (fun ok w' hok => ?_) fun _ => id)
      cases hgoes : !ok && hasError with
      | true => exact wp_pure ⟨hok.1, by simp⟩
      | false => exact hnext hok.1 hok.2 hgoes
    · rename_i hflat
      have hdata : Belongs snapshot snapshot.snapshotPath := by
        rw [Belongs, if_neg hflat]
        exact .inl rfl
      have hmeta : Belongs snapshot snapshot.metaPath := by
        rw [Belongs, if_neg hflat]
        exact .inr rfl
      refine wp_bind
        ((wp_pruneFile hlayout h hs hgoing hdata).imp (fun ok w' hok => ?_) fun _ => id)
      cases hgoes : !ok && hasError with
      | true => exact wp_pure ⟨hok.1, by simp⟩
      | false =>
        refine wp_bind ((wp_pruneFile hlayout hok.1 hs hgoing hmeta).imp (fun ok' w' hok' => ?_)
          fun _ => id)
        cases hgoes' : !ok' && hasError with
        | true => exact wp_pure ⟨hok'.1, by simp⟩
        | false =>
          exact hnext hok'.1 (fun htrue => hok'.2 htrue (flat_metaPath hs hflat)) hgoes'

/-! ## What the list becomes -/

theorem keepCount_eq (maxKeep : Nat) : keepCount maxKeep = max 1 maxKeep := by
  unfold keepCount
  split <;> omega

section Order

variable {order : Sorter newerFirst}

theorem mem_snapshotsWith_iff :
    m ∈ listSnapshotsWith order d ↔ ∃ name, snapshotAt d name = some m :=
  (listSnapshotsWith_perm order d).mem_iff.trans mem_snapshots_iff

theorem listSnapshotsWith_nodup (order : Sorter newerFirst) (d : SnapshotDisk) :
    (listSnapshotsWith order d).Nodup :=
  (listSnapshotsWith_perm order d).nodup_iff.mpr (listSnapshots_nodup d)

theorem wp_pruneSnapshots (hlayout : Layout d) (hasError : Bool) (maxKeep : Nat)
    (hdisk : w.disk = d) :
    (pruneSnapshotsWith order hasError maxKeep).Wp
      (fun ok w' => Pruned d ((listSnapshotsWith order d).drop (keepCount maxKeep)) [] w'.disk ∧
        (ok = true → hasError = true →
          Pruned d ((listSnapshotsWith order d).drop (keepCount maxKeep))
            ((listSnapshotsWith order d).drop (keepCount maxKeep)) w'.disk))
      (fun w' => Pruned d ((listSnapshotsWith order d).drop (keepCount maxKeep)) [] w'.disk) w := by
  subst hdisk
  refine wp_bind (wp_look ?_)
  split
  · rename_i hfew
    rw [List.drop_eq_nil_of_le hfew]
    exact wp_pure ⟨Pruned.refl _ _, fun _ _ => Pruned.refl _ _⟩
  · refine wp_orFail (wp_pruneLoop hlayout hasError (fun m hm => ⟨hm, ?_⟩) (Pruned.refl _ _))
      (fun _ h => ⟨h.1, by simp⟩) fun w' h => ?_
    · exact mem_snapshotsWith_iff.mp (List.mem_of_mem_drop hm)
    · refine wp_perform h.1 (fun _ => ⟨h.1, by simp⟩) fun disk script hsync => ?_
      cases hsync
      exact ⟨h.1, fun htrue herror => (h.2 rfl herror).weaken (by simp)⟩

theorem Pruned.mem (h : Pruned d going gone disk) (hm : m ∈ listSnapshotsWith order d)
    (hstays : m ∉ going) :
    m ∈ listSnapshots disk ∧ disk.readFile m.snapshotPath = d.readFile m.snapshotPath := by
  obtain ⟨name, hname⟩ := mem_snapshotsWith_iff.mp hm
  obtain ⟨hthere, hdata⟩ := h.kept name m hname hstays
  exact ⟨mem_snapshots_iff.mpr ⟨name, hthere⟩, hdata⟩

/-- The front of the list and what is left of the rest, in the old order. -/
def remaining (before : List SnapshotMeta) (count : Nat) (disk : SnapshotDisk) :
    List SnapshotMeta :=
  before.take count ++ (before.drop count).filter (· ∈ listSnapshots disk)

theorem remaining_sublist (before : List SnapshotMeta) (count : Nat) (disk : SnapshotDisk) :
    (remaining before count disk).Sublist before := by
  conv_rhs => rw [← List.take_append_drop count before]
  exact (List.Sublist.refl _).append List.filter_sublist

/-- The front of the list stays in the list. -/
theorem Pruned.perm {count : Nat}
    (h : Pruned d ((listSnapshotsWith order d).drop count) gone disk) :
    (listSnapshots disk).Perm (remaining (listSnapshotsWith order d) count disk) := by
  have hnodup := listSnapshotsWith_nodup order d
  refine (List.perm_ext_iff_of_nodup (listSnapshots_nodup disk)
    ((remaining_sublist _ count disk).nodup hnodup)).mpr fun m => ?_
  constructor
  · intro hm
    obtain ⟨name, hname⟩ := mem_snapshots_iff.mp hm
    have hbefore : m ∈ listSnapshotsWith order d :=
      mem_snapshotsWith_iff.mpr ⟨name, h.fewer name m hname⟩
    rw [← List.take_append_drop count (listSnapshotsWith order d)] at hbefore
    rcases List.mem_append.mp hbefore with hfront | hbehind
    · exact List.mem_append_left _ hfront
    · exact List.mem_append_right _ (List.mem_filter.mpr ⟨hbehind, decide_eq_true hm⟩)
  · intro hm
    rcases List.mem_append.mp hm with hfront | hbehind
    · have hapart := List.disjoint_take_drop hnodup (Nat.le_refl count)
      exact (h.mem (List.mem_of_mem_take hfront) (hapart hfront)).1
    · exact of_decide_eq_true (List.mem_filter.mp hbehind).2

theorem Pruned.remaining_gone {count : Nat}
    (h : Pruned d ((listSnapshotsWith order d).drop count) ((listSnapshotsWith order d).drop count)
      disk) :
    remaining (listSnapshotsWith order d) count disk = (listSnapshotsWith order d).take count := by
  have hnil : ((listSnapshotsWith order d).drop count).filter (· ∈ listSnapshots disk) = [] := by
    rw [List.filter_eq_nil_iff]
    intro m hm hthere
    obtain ⟨name, hname⟩ := mem_snapshots_iff.mp (of_decide_eq_true hthere)
    have hnone := h.gone m hm
    rw [snapshotAt_top hname, hname] at hnone
    cases hnone
  rw [remaining, hnil, List.append_nil]

end Order

/-- What the list is sorted by. -/
def snapshotKey (m : SnapshotMeta) : Nat × Nat := (m.lastIncludedIndex, m.createdUnixMs)

/-- Two sorted lists of the same snapshots have the same keys. -/
theorem map_snapshotKey {l l' : List SnapshotMeta} (hperm : l.Perm l')
    (hl : l.Pairwise fun a b => newerFirst a b = true)
    (hl' : l'.Pairwise fun a b => newerFirst a b = true) :
    l.map snapshotKey = l'.map snapshotKey := by
  have hkey : ∀ {a b : SnapshotMeta}, newerFirst a b = true →
      (snapshotKey b).1 < (snapshotKey a).1 ∨
        (snapshotKey b).1 = (snapshotKey a).1 ∧ (snapshotKey b).2 ≤ (snapshotKey a).2 :=
    fun h => of_decide_eq_true h
  refine map_eq_of_perm (r := fun x y => y.1 < x.1 ∨ y.1 = x.1 ∧ y.2 ≤ x.2)
    (fun x y hxy hyx => ?_) hperm (hl.imp hkey) (hl'.imp hkey)
  exact Prod.ext (by omega) (by omega)

theorem newerFirst_of_key {a a' b : SnapshotMeta} (hkey : snapshotKey a = snapshotKey a')
    (h : newerFirst a' b = true) : newerFirst a b = true := by
  obtain ⟨hindex, htime⟩ := Prod.mk.inj hkey
  simp only [newerFirst, decide_eq_true_eq] at h ⊢
  rwa [hindex, htime]

/-- However far `PruneSnapshots` gets, the newest snapshots stay in the list with their data, what
stands in front of it afterwards has the same keys, and nothing that is gone is newer. When it gets
through with a string for the error, no others are left. -/
theorem pruneSnapshots_keeps (hlayout : Layout d) (order order' : Sorter newerFirst)
    (hasError : Bool) (maxKeep : Nat) {script : List Outcome} {result : Option Bool}
    {w : World Bytes UInt8}
    (hrun : pruneSnapshotsWith order hasError maxKeep ⟨d, [], script⟩ = (result, w)) :
    let before := listSnapshotsWith order d
    let after := listSnapshotsWith order' w.disk
    let count := min (max 1 maxKeep) before.length
    count ≤ after.length ∧
      (∀ m ∈ before.take count,
        m ∈ after ∧ w.disk.readFile m.snapshotPath = d.readFile m.snapshotPath) ∧
      (after.take count).map snapshotKey = (before.take count).map snapshotKey ∧
      (∀ m ∈ after.take count, ∀ removed ∈ before, removed ∉ after → newerFirst m removed = true) ∧
      after ⊆ before ∧
      (loadLatestValidSnapshotWith order' w.disk).map snapshotKey =
        (loadLatestValidSnapshotWith order d).map snapshotKey ∧
      (∀ newest ∈ loadLatestValidSnapshotWith order d,
        (∀ m ∈ before, snapshotKey m = snapshotKey newest → m = newest) →
          loadLatestValidSnapshotWith order' w.disk = some newest) ∧
      (result = some true → hasError = true → after.length = count) := by
  intro before after count
  have hspec : (pruneSnapshotsWith order hasError maxKeep).Wp _ _ ⟨d, [], script⟩ :=
    wp_pruneSnapshots hlayout hasError maxKeep rfl
  rw [Wp, hrun, keepCount_eq] at hspec
  obtain ⟨h, hdone⟩ : Pruned d (before.drop (max 1 maxKeep)) [] w.disk ∧
      (result = some true → hasError = true →
        remaining before (max 1 maxKeep) w.disk = before.take (max 1 maxKeep)) := by
    cases result with
    | none => exact ⟨hspec, by simp⟩
    | some ok =>
      exact ⟨hspec.1, fun hok herror => (hspec.2 (Option.some.inj hok) herror).remaining_gone⟩
  have hperm : after.Perm (remaining before (max 1 maxKeep) w.disk) :=
    (listSnapshotsWith_perm order' w.disk).trans h.perm
  have hsub := remaining_sublist before (max 1 maxKeep) w.disk
  have hsorted : before.Pairwise fun a b => newerFirst a b = true := order.sorted _
  have hcount : (before.take (max 1 maxKeep)).length = count := List.length_take
  have hfront : before.take count = before.take (max 1 maxKeep) := by
    rw [← List.take_eq_take_min]
  -- in the old order the list would go on as before
  have hkeys : after.map snapshotKey = (remaining before (max 1 maxKeep) w.disk).map snapshotKey :=
    map_snapshotKey hperm (order'.sorted _) (hsorted.sublist hsub)
  have htake : (after.take count).map snapshotKey = (before.take count).map snapshotKey := by
    rw [List.map_take, hkeys, ← List.map_take, remaining, List.take_left' hcount, hfront]
  have hmem : ∀ m ∈ before.take count, m ∈ after := by
    intro m hm
    rw [hfront] at hm
    exact hperm.mem_iff.mpr (List.mem_append_left _ hm)
  have hhead : (loadLatestValidSnapshotWith order' w.disk).map snapshotKey =
      (loadLatestValidSnapshotWith order d).map snapshotKey := by
    have hpos : max 1 maxKeep ≠ 0 := by omega
    show after.head?.map snapshotKey = before.head?.map snapshotKey
    rw [← List.head?_map, hkeys, List.head?_map, remaining, List.head?_append, List.head?_take,
      if_neg hpos]
    cases before with
    | nil => rw [List.drop_nil]; rfl
    | cons m rest => rfl
  refine ⟨?_, fun m hm => ⟨hmem m hm, ?_⟩, htake,
    fun m hm removed hthere hgone => ?_, ?_, hhead, ?_,
    fun hok herror => ?_⟩
  · rw [hperm.length_eq, remaining, List.length_append, hcount]
    omega
  · rw [hfront] at hm
    have hapart := List.disjoint_take_drop (listSnapshotsWith_nodup order d)
      (Nat.le_refl (max 1 maxKeep))
    exact (h.mem (List.mem_of_mem_take hm) (hapart hm)).2
  · -- what is gone was behind the front of the list
    have hkey := List.mem_map_of_mem (f := snapshotKey) hm
    rw [htake] at hkey
    obtain ⟨m', hm', heq⟩ := List.mem_map.mp hkey
    refine newerFirst_of_key heq.symm ?_
    rw [← List.take_append_drop count before] at hsorted hthere
    refine (List.pairwise_append.mp hsorted).2.2 m' hm' removed ?_
    exact (List.mem_append.mp hthere).resolve_left fun hin => hgone (hmem removed hin)
  · exact fun m hm => hsub.subset (hperm.mem_iff.mp hm)
  · intro newest hnewest hunique
    rw [Option.mem_def.mp hnewest, Option.map_some] at hhead
    obtain ⟨m, hm, hkey⟩ := Option.map_eq_some_iff.mp hhead
    have hafter : m ∈ after := List.mem_of_mem_head? hm
    rw [hm, hunique m (hsub.subset (hperm.mem_iff.mp hafter)) hkey]
  · rw [hperm.length_eq, hdone hok herror, hcount]

/-- Snapshots 3 and 2 as directories, snapshot 1 in the flat layout, an empty directory and what is
left of an attempt to save snapshot 4. -/
def pruneDisk : SnapshotDisk :=
  ((((((∅ : SnapshotDisk).insert (ascii "old.meta") (.file (toBytes 4 kLegacyMetaMagic ++
    toBytes 4 kLegacyMetaVersion ++ toBytes 8 100 ++ toBytes 8 1 ++ toBytes 8 1))).insert
    (ascii "old.bin") (.file (ascii "one"))).insert (finalDir 2)
      (sampleDirectory 2 1 (ascii "two"))).insert (finalDir 3)
      (sampleDirectory 3 2 (ascii "three"))).insert (finalDir 4) (.dir ∅)).insert
    (stagingDir 4 1000) (.dir ∅)

/-- What `PruneSnapshots` does there, with the list as the names are in. -/
def samplePrune (hasError : Bool) : SnapshotProg Bool := do
  if !(← pruneLoop hasError ((pruneDisk.keys.filterMap (snapshotAt pruneDisk)).drop 1)) then
    return false
  perform .syncRoot

theorem listSnapshots_of_sorted (h : (d.keys.filterMap (snapshotAt d)).Pairwise
    fun a b => newerFirst a b = true) : listSnapshots d = d.keys.filterMap (snapshotAt d) :=
  List.mergeSort_of_pairwise h

theorem listSnapshots_pruneDisk :
    listSnapshots pruneDisk = pruneDisk.keys.filterMap (snapshotAt pruneDisk) :=
  listSnapshots_of_sorted (by decide +kernel)

theorem pruneSnapshots_pruneDisk (hasError : Bool) (script : List Outcome) :
    pruneSnapshots hasError 1 ⟨pruneDisk, [], script⟩ =
      samplePrune hasError ⟨pruneDisk, [], script⟩ := by
  have hlength : ¬ (listSnapshots pruneDisk).length ≤ keepCount 1 := by
    rw [listSnapshots_pruneDisk]
    decide +kernel
  have hrun : pruneSnapshots hasError 1 ⟨pruneDisk, [], script⟩ =
      (if (listSnapshots pruneDisk).length ≤ keepCount 1 then pure true
      else do
        if !(← pruneLoop hasError ((listSnapshots pruneDisk).drop (keepCount 1))) then return false
        perform .syncRoot : SnapshotProg Bool) ⟨pruneDisk, [], script⟩ := rfl
  rw [hrun, if_neg hlength, listSnapshots_pruneDisk]
  rfl

theorem layout_pruneDisk : Layout pruneDisk := by
  unfold Layout
  rw [listSnapshots_pruneDisk]
  decide +kernel

/-- Of the three snapshots one is left. -/
theorem pruneSnapshots_sample : ∃ w, pruneSnapshots true 1 ⟨pruneDisk, [], List.replicate 6 .ok⟩ =
    (some true, w) ∧
    (listSnapshots w.disk).length = min (max 1 1) (listSnapshots pruneDisk).length := by
  have hok : (samplePrune true ⟨pruneDisk, [], List.replicate 6 .ok⟩).1 = some true := by
    decide +kernel
  have hrun : pruneSnapshots true 1 ⟨pruneDisk, [], List.replicate 6 .ok⟩ =
      (some true, (samplePrune true ⟨pruneDisk, [], List.replicate 6 .ok⟩).2) := by
    rw [pruneSnapshots_pruneDisk, ← hok]
  have hkeeps := pruneSnapshots_keeps layout_pruneDisk stableOrder stableOrder true 1 hrun
  exact ⟨_, hrun, hkeeps.2.2.2.2.2.2.2 rfl rfl⟩

/-- The indices of the list. -/
def indices (d : SnapshotDisk) : List Nat := (listSnapshots d).map (·.lastIncludedIndex)

theorem indices_of_sorted (h : (d.keys.filterMap (snapshotAt d)).Pairwise
    fun a b => newerFirst a b = true) :
    indices d = (d.keys.filterMap (snapshotAt d)).map (·.lastIncludedIndex) := by
  rw [indices, listSnapshots_of_sorted h]

/-! ### Snapshots that agree -/

/-- A meta file in the flat layout, with the creation time 100. -/
def flatMeta (index term : Nat) : Bytes :=
  toBytes 4 kLegacyMetaMagic ++ toBytes 4 kLegacyMetaVersion ++ toBytes 8 100 ++ toBytes 8 index ++
    toBytes 8 term

def flatSnapshot (stem : String) (index term : Nat) : SnapshotMeta :=
  ⟨[], ⟨none, ascii (stem ++ ".bin")⟩, ⟨none, ascii (stem ++ ".meta")⟩, index, term, 100, 0⟩

/-- Three pairs of files: two for index 5 in different terms, and an older one. -/
def tiedDisk : SnapshotDisk :=
  ((((((∅ : SnapshotDisk).insert (ascii "a.meta") (.file (flatMeta 5 1))).insert
    (ascii "a.bin") (.file (ascii "one"))).insert (ascii "b.meta") (.file (flatMeta 5 2))).insert
    (ascii "b.bin") (.file (ascii "two"))).insert (ascii "c.meta") (.file (flatMeta 4 1))).insert
    (ascii "c.bin") (.file (ascii "old"))

theorem filterMap_tiedDisk : tiedDisk.keys.filterMap (snapshotAt tiedDisk) =
    [flatSnapshot "c" 4 1, flatSnapshot "b" 5 2, flatSnapshot "a" 5 1] := by decide +kernel

/-- A routine that turns the two around when there are three elements. -/
def tiedOrder : Sorter newerFirst :=
  stableOrder.update (o := [flatSnapshot "a" 5 1, flatSnapshot "b" 5 2, flatSnapshot "c" 4 1])
    (l := [flatSnapshot "c" 4 1, flatSnapshot "b" 5 2, flatSnapshot "a" 5 1])
    (by decide +kernel) (by decide +kernel)

theorem listSnapshots_tiedDisk : listSnapshotsWith tiedOrder tiedDisk =
    [flatSnapshot "a" 5 1, flatSnapshot "b" 5 2, flatSnapshot "c" 4 1] := by
  rw [listSnapshotsWith, filterMap_tiedDisk]
  exact Sorter.update_sort _ _ _

theorem layout_tiedDisk : Layout tiedDisk := by
  intro m hm
  rw [← (listSnapshotsWith_perm tiedOrder tiedDisk).mem_iff, listSnapshots_tiedDisk] at hm
  revert m
  decide +kernel

/-- What `PruneSnapshots` does there with the oldest one. -/
def tiedPrune : SnapshotProg Bool := do
  if !(← pruneLoop true [flatSnapshot "c" 4 1]) then return false
  perform .syncRoot

/-- Two of three snapshots are kept, and the first of them is another one afterwards. -/
theorem pruneSnapshots_tied : ∃ w,
    pruneSnapshotsWith tiedOrder true 2 ⟨tiedDisk, [], List.replicate 3 .ok⟩ = (some true, w) ∧
      loadLatestValidSnapshotWith tiedOrder tiedDisk = some (flatSnapshot "a" 5 1) ∧
      loadLatestValidSnapshotWith tiedOrder w.disk = some (flatSnapshot "b" 5 2) := by
  have hrun : pruneSnapshotsWith tiedOrder true 2 ⟨tiedDisk, [], List.replicate 3 .ok⟩ =
      (if (listSnapshotsWith tiedOrder tiedDisk).length ≤ keepCount 2 then pure true
      else do
        if !(← pruneLoop true ((listSnapshotsWith tiedOrder tiedDisk).drop (keepCount 2))) then
          return false
        perform .syncRoot : SnapshotProg Bool) ⟨tiedDisk, [], List.replicate 3 .ok⟩ := rfl
  rw [listSnapshots_tiedDisk, if_neg (by decide)] at hrun
  have hok : (tiedPrune ⟨tiedDisk, [], List.replicate 3 .ok⟩).1 = some true := by decide +kernel
  have hleft : (tiedPrune ⟨tiedDisk, [], List.replicate 3 .ok⟩).2.disk.keys.filterMap
      (snapshotAt (tiedPrune ⟨tiedDisk, [], List.replicate 3 .ok⟩).2.disk) =
        [flatSnapshot "b" 5 2, flatSnapshot "a" 5 1] := by decide +kernel
  refine ⟨(tiedPrune ⟨tiedDisk, [], List.replicate 3 .ok⟩).2, hrun.trans (Prod.ext hok rfl), ?_, ?_⟩
  · rw [loadLatestValidSnapshotWith, listSnapshots_tiedDisk]
    rfl
  · rw [loadLatestValidSnapshotWith, listSnapshotsWith, hleft, tiedOrder,
      Sorter.update_sort_ne _ _ _ (by decide +kernel)]
    exact congrArg List.head? (List.mergeSort_of_pairwise (by decide +kernel))

/-- The newer of the two snapshots behind the first goes first. When the removal of the other one
fails, it stays although it is older. Without a string for the error a failed removal does not end
the call, which succeeds with more than one snapshot left. When two snapshots agree in index and
time, the latest one can be of another term afterwards. -/
theorem pruneSnapshots_stops :
    (Layout pruneDisk ∧ indices pruneDisk = [3, 2, 1] ∧
      (∃ w, pruneSnapshots true 1 ⟨pruneDisk, [], [.ok, .ok, .ok, .error]⟩ = (some false, w) ∧
        indices w.disk = [3, 1]) ∧
      ∃ w, pruneSnapshots false 1 ⟨pruneDisk, [], [.error, .ok, .ok, .ok]⟩ = (some true, w) ∧
        indices w.disk = [3, 2]) ∧
      Layout tiedDisk ∧ ∃ w,
        pruneSnapshotsWith tiedOrder true 2 ⟨tiedDisk, [], List.replicate 3 .ok⟩ = (some true, w) ∧
          (loadLatestValidSnapshotWith tiedOrder tiedDisk).map (·.lastIncludedTerm) = some 1 ∧
          (loadLatestValidSnapshotWith tiedOrder w.disk).map (·.lastIncludedTerm) = some 2 := by
  have hstopped : (samplePrune true ⟨pruneDisk, [], [.ok, .ok, .ok, .error]⟩).1 = some false := by
    decide +kernel
  have hpassed : (samplePrune false ⟨pruneDisk, [], [.error, .ok, .ok, .ok]⟩).1 = some true := by
    decide +kernel
  refine ⟨⟨layout_pruneDisk, ?_,
    ⟨(samplePrune true ⟨pruneDisk, [], [.ok, .ok, .ok, .error]⟩).2, ?_, ?_⟩,
    (samplePrune false ⟨pruneDisk, [], [.error, .ok, .ok, .ok]⟩).2, ?_, ?_⟩, layout_tiedDisk, ?_⟩
  · rw [indices_of_sorted (by decide +kernel)]
    decide +kernel
  · rw [pruneSnapshots_pruneDisk, ← hstopped]
  · rw [indices_of_sorted (by decide +kernel)]
    decide +kernel
  · rw [pruneSnapshots_pruneDisk, ← hpassed]
  · rw [indices_of_sorted (by decide +kernel)]
    decide +kernel
  · obtain ⟨w, hrun, hfirst, hthen⟩ := pruneSnapshots_tied
    exact ⟨w, hrun, by rw [hfirst]; rfl, by rw [hthen]; rfl⟩

end FileSnapshotStorage

end CquptRaft
