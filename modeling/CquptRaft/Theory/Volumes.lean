import CquptRaft.Theory.Files

/-!
# Files that several threads have open

A volume is a directory whose names stand for files and for directories of files, as in
`Theory.Files`, but a name leads to a file by the file's number. A thread that has opened a file
goes on with it by its number, whatever happens to the name: the file may be unlinked, or a
rename may move the directory it lies in. Numbers are not used twice.

`Holds` and `Held` say what lies under a name and behind an open file. A step of another thread
keeps them when it stays away from the name: `Frame` says which names and numbers a step touches.
-/

namespace Volumes

open Files (Path)
open Files.Disk (lookup_insert_eq lookup_erase_eq)

variable {N β : Type}

inductive Entry (N : Type) where
  | file (number : Nat)
  | dir (files : AList fun _ : N => Nat)

structure Volume (N β : Type) where
  root : AList fun _ : N => Entry N
  content : Nat → List β
  next : Nat

/-- What lies at `pos` and behind gives way to `bytes`; a gap in front of them is filled up. -/
def overwrite [Inhabited β] (content : List β) (pos : Nat) (bytes : List β) : List β :=
  (content ++ List.replicate (pos - content.length) default).take pos ++ bytes ++
    content.drop (pos + bytes.length)

namespace Volume

variable [DecidableEq N]

def empty : Volume N β := ⟨∅, fun _ => [], 0⟩

def find (v : Volume N β) (path : Path N) : Option Nat :=
  match path.dir with
  | none =>
    match v.root.lookup path.name with
    | some (.file number) => some number
    | _ => none
  | some dir =>
    match v.root.lookup dir with
    | some (.dir files) => files.lookup path.name
    | _ => none

def read (v : Volume N β) (path : Path N) : Option (List β) := (v.find path).map v.content

def pathExists (v : Volume N β) (name : N) : Bool := (v.root.lookup name).isSome

omit [DecidableEq N] in
def setContent (v : Volume N β) (number : Nat) (bytes : List β) : Volume N β :=
  { v with content := Function.update v.content number bytes }

/-- A new, empty file under a name that is free. -/
def create (v : Volume N β) (path : Path N) : Option (Volume N β) :=
  let fresh : AList (fun _ : N => Entry N) → Volume N β := fun root =>
    ⟨root, Function.update v.content v.next [], v.next + 1⟩
  match path.dir with
  | none =>
    match v.root.lookup path.name with
    | none => some (fresh (v.root.insert path.name (.file v.next)))
    | some _ => none
  | some dir =>
    match v.root.lookup dir with
    | some (.dir files) => some (fresh (v.root.insert dir (.dir (files.insert path.name v.next))))
    | _ => none

/-- Opens a file for writing: what it held is gone. -/
def openTrunc (v : Volume N β) (path : Path N) : Option (Volume N β × Nat) :=
  match v.find path with
  | some number => some (v.setContent number [], number)
  | none => (v.create path).map fun v' => (v', v.next)

omit [DecidableEq N] in
def write [Inhabited β] (v : Volume N β) (number pos : Nat) (bytes : List β) : Volume N β :=
  v.setContent number (overwrite (v.content number) pos bytes)

def unlink (v : Volume N β) (path : Path N) : Volume N β :=
  match path.dir with
  | none =>
    match v.root.lookup path.name with
    | some (.file _) => { v with root := v.root.erase path.name }
    | _ => v
  | some dir =>
    match v.root.lookup dir with
    | some (.dir files) => { v with root := v.root.insert dir (.dir (files.erase path.name)) }
    | _ => v

def makeDir (v : Volume N β) (name : N) : Option (Volume N β) :=
  match v.root.lookup name with
  | none => some { v with root := v.root.insert name (.dir ∅) }
  | some (.dir _) => some v
  | some (.file _) => none

/-- One step of the removal of everything under `name`. In a directory `file` is the next to go;
the flag tells whether the removal is through. -/
def removeNext (v : Volume N β) (name file : N) : Volume N β × Bool :=
  match v.root.lookup name with
  | none => (v, true)
  | some (.file _) => (v.unlink ⟨none, name⟩, true)
  | some (.dir files) =>
    if files.entries.isEmpty then ({ v with root := v.root.erase name }, true)
    else (v.unlink ⟨some name, file⟩, false)

/-- A file may replace a file, and a directory an empty directory. -/
def rename (v : Volume N β) (src dst : N) : Option (Volume N β) :=
  let moved : Entry N → Volume N β := fun entry =>
    { v with root := (v.root.erase src).insert dst entry }
  match v.root.lookup src, v.root.lookup dst with
  | none, _ => none
  | some (.file _), some (.dir _) => none
  | some (.dir _), some (.file _) => none
  | some (.dir files), some (.dir old) =>
    if old.entries.isEmpty then some (moved (.dir files)) else none
  | some entry, _ => some (moved entry)

/-! ## What the operations do to the names -/

variable {v v' : Volume N β} {path : Path N} {number : Nat}

omit [DecidableEq N] in
/-- Every name leads to a file of its own. -/
structure Wf [DecidableEq N] (v : Volume N β) : Prop where
  lt_next : ∀ path number, v.find path = some number → number < v.next
  single : ∀ path path' number, v.find path = some number → v.find path' = some number →
    path = path'

theorem wf_empty : Wf (empty : Volume N β) := by
  constructor
  · rintro ⟨dir, name⟩ number h
    cases dir <;> simp [find, empty] at h
  · rintro ⟨dir, name⟩ path' number h
    cases dir <;> simp [find, empty] at h

theorem find_create (h : v.create path = some v') (q : Path N) :
    v'.find q = if q = path then some v.next else v.find q := by
  obtain ⟨dir, name⟩ := path
  obtain ⟨qdir, qname⟩ := q
  cases dir <;> cases qdir <;> simp only [create, find] at h ⊢ <;>
    grind [lookup_insert_eq]

theorem find_unlink (q : Path N) :
    (v.unlink path).find q = if q = path then none else v.find q := by
  obtain ⟨dir, name⟩ := path
  obtain ⟨qdir, qname⟩ := q
  cases dir <;> cases qdir <;> simp only [unlink, find] <;>
    grind [lookup_insert_eq, lookup_erase_eq]

theorem find_makeDir {name : N} (h : v.makeDir name = some v') (q : Path N) :
    v'.find q = v.find q := by
  obtain ⟨qdir, qname⟩ := q
  cases qdir <;> simp only [makeDir, find] at h ⊢ <;>
    grind [lookup_insert_eq, AList.lookup_empty]

theorem find_removeNext (name file : N) (q : Path N) :
    (v.removeNext name file).1.find q = none ∨ (v.removeNext name file).1.find q = v.find q := by
  have hempty : ∀ (files : AList fun _ : N => Nat) (n : N), files.entries.isEmpty = true →
      files.lookup n = none := by
    intro files n h
    rw [AList.lookup_eq_none, AList.mem_keys, AList.keys, List.isEmpty_iff.mp h]
    exact List.not_mem_nil
  unfold removeNext
  split
  · exact .inr rfl
  · rw [find_unlink]
    grind
  · split
    · obtain ⟨qdir, qname⟩ := q
      cases qdir <;> simp only [find] <;> grind [lookup_erase_eq]
    · rw [find_unlink]
      grind

theorem find_rename {src dst : N} (h : v.rename src dst = some v') (q : Path N) :
    v'.find q =
      if q.dir = some dst then v.find ⟨some src, q.name⟩
      else if q = ⟨none, dst⟩ then v.find ⟨none, src⟩
      else if q.dir = some src ∨ q = ⟨none, src⟩ then none else v.find q := by
  have hmoved : ∃ entry, v.root.lookup src = some entry ∧
      v' = { v with root := (v.root.erase src).insert dst entry } := by
    unfold rename at h
    grind
  obtain ⟨entry, hsrc, rfl⟩ := hmoved
  obtain ⟨qdir, qname⟩ := q
  cases qdir <;> simp only [find] <;> grind [lookup_insert_eq, lookup_erase_eq]

/-- Opening a file for writing takes the file under the name, or makes a new one. -/
theorem openTrunc_cases (h : v.openTrunc path = some (v', number)) :
    (v.find path = some number ∧ v' = v.setContent number []) ∨
      (v.find path = none ∧ number = v.next ∧ v'.next = v.next + 1 ∧
        v'.content = Function.update v.content number [] ∧
        ∀ q, v'.find q = if q = path then some number else v.find q) := by
  unfold openTrunc at h
  split at h
  · cases h
    exact .inl ⟨‹_›, rfl⟩
  · obtain ⟨w, hw, hpair⟩ := Option.map_eq_some_iff.mp h
    cases hpair
    refine .inr ⟨‹_›, rfl, ?_, ?_, find_create hw⟩ <;> unfold create at hw <;> grind

/-! ## Frames -/

omit [DecidableEq N] in
/-- Names outside `names` lead to the file they led to, or nowhere; names inside lead to files
of such names, to files among `numbers` or to new ones. Only the content of the files `numbers`
changes, and they have no name outside `names`. -/
structure Frame [DecidableEq N] (v v' : Volume N β) (names : Path N → Prop)
    (numbers : Nat → Prop) : Prop where
  same : ∀ q, ¬ names q → v'.find q = none ∨ v'.find q = v.find q
  inside : ∀ q number, names q → v'.find q = some number →
    (∃ p, names p ∧ v.find p = some number) ∨ numbers number ∨ v.next ≤ number
  content : ∀ number, number < v.next → ¬ numbers number → v'.content number = v.content number
  next : v.next ≤ v'.next
  named : ∀ q number, numbers number → v.find q = some number → names q

/-- Every file under the name holds `bytes`. -/
def Holds (v : Volume N β) (path : Path N) (bytes : List β) : Prop :=
  ∀ number, v.find path = some number → v.content number = bytes

omit [DecidableEq N] in
/-- The file `number` has been opened under the name and holds `bytes`; it still lies there, or
has no name any more. -/
structure Held [DecidableEq N] (v : Volume N β) (path : Path N) (number : Nat)
    (bytes : List β) : Prop where
  lt_next : number < v.next
  content : v.content number = bytes
  name : ∀ q, v.find q = some number → q = path
  found : ∀ number', v.find path = some number' → number' = number

theorem Held.holds {bytes : List β} (h : v.Held path number bytes) : v.Holds path bytes := by
  intro number' hfound
  rw [h.found number' hfound, h.content]

variable {names : Path N → Prop} {numbers : Nat → Prop} {bytes : List β}

theorem Frame.refl (v : Volume N β) : Frame v v (fun _ => False) fun _ => False :=
  ⟨fun _ _ => .inr rfl, fun _ _ hq => hq.elim, fun _ _ _ => rfl, Nat.le_refl _,
    fun _ _ hn => hn.elim⟩

theorem Holds.frame (hwf : v.Wf) (h : v.Holds path bytes) (hframe : Frame v v' names numbers)
    (hout : ¬ names path) : v'.Holds path bytes := by
  intro number hfound
  have hbefore : v.find path = some number := by
    rcases hframe.same path hout with hnone | hsame
    · rw [hnone] at hfound
      cases hfound
    · rw [← hsame, hfound]
  rw [hframe.content number (hwf.lt_next _ _ hbefore)
    fun hn => hout (hframe.named path number hn hbefore)]
  exact h number hbefore

theorem Held.frame (h : v.Held path number bytes) (hframe : Frame v v' names numbers)
    (hout : ¬ names path) (hother : ¬ numbers number) : v'.Held path number bytes := by
  have hbefore : ∀ q number', ¬ names q → v'.find q = some number' →
      v.find q = some number' := by
    intro q number' hq hfound
    rcases hframe.same q hq with hnone | hsame
    · rw [hnone] at hfound
      cases hfound
    · rw [← hsame, hfound]
  refine ⟨Nat.lt_of_lt_of_le h.lt_next hframe.next, ?_, fun q hfound => ?_, fun n hfound => ?_⟩
  · rw [hframe.content number h.lt_next hother, h.content]
  · by_cases hq : names q
    · exfalso
      rcases hframe.inside q number hq hfound with ⟨p, hp, hpfound⟩ | hn | hnew
      · rw [h.name p hpfound] at hp
        exact hout hp
      · exact hother hn
      · exact absurd h.lt_next (by omega)
    · exact h.name q (hbefore q number hq hfound)
  · exact h.found n (hbefore path n hout hfound)

/-- Where every name leads to the file it led to or nowhere, and no content changes. -/
theorem Frame.of_shrinks (hfind : ∀ q, v'.find q = none ∨ v'.find q = v.find q)
    (hcontent : v'.content = v.content) (hnext : v'.next = v.next) :
    Frame v v' (fun _ => False) fun _ => False :=
  ⟨fun q _ => hfind q, fun _ _ hq => hq.elim, fun _ _ _ => by rw [hcontent], by rw [hnext],
    fun _ _ hn => hn.elim⟩

theorem Wf.of_shrinks (h : v.Wf) (hfind : ∀ q, v'.find q = none ∨ v'.find q = v.find q)
    (hnext : v'.next = v.next) : v'.Wf := by
  have hbefore : ∀ q number, v'.find q = some number → v.find q = some number := by
    intro q number hfound
    rcases hfind q with hnone | hsame
    · rw [hnone] at hfound
      cases hfound
    · rw [← hsame, hfound]
  constructor
  · intro q number hq
    rw [hnext]
    exact h.lt_next q number (hbefore q number hq)
  · intro q q' number hq hq'
    exact h.single q q' number (hbefore q number hq) (hbefore q' number hq')

theorem unlink_shrinks (v : Volume N β) (path q : Path N) :
    (v.unlink path).find q = none ∨ (v.unlink path).find q = v.find q := by
  rw [find_unlink]
  grind

theorem unlink_content (v : Volume N β) (path : Path N) :
    (v.unlink path).content = v.content ∧ (v.unlink path).next = v.next := by
  unfold unlink
  grind

theorem removeNext_content (v : Volume N β) (name file : N) :
    (v.removeNext name file).1.content = v.content ∧
      (v.removeNext name file).1.next = v.next := by
  unfold removeNext
  grind [unlink_content]

theorem makeDir_content {name : N} (h : v.makeDir name = some v') :
    v'.content = v.content ∧ v'.next = v.next := by
  unfold makeDir at h
  grind

theorem rename_content {src dst : N} (h : v.rename src dst = some v') :
    v'.content = v.content ∧ v'.next = v.next := by
  unfold rename at h
  grind

/-! ### Files open for writing -/

theorem frame_openTrunc (hwf : v.Wf) (h : v.openTrunc path = some (v', number)) :
    Frame v v' (fun q => q = path) fun n => n = number := by
  rcases openTrunc_cases h with ⟨hfound, rfl⟩ | ⟨hnone, rfl, hnext, hcontent, hfind⟩
  · refine ⟨fun _ _ => .inr rfl, fun q n _ hq => .inl ⟨path, rfl, ?_⟩, fun n _ hn => ?_,
      Nat.le_refl _, fun q n hn hq => ?_⟩
    · subst q
      exact hq
    · exact Function.update_of_ne hn _ _
    · subst n
      exact hwf.single q path number hq hfound
  · refine ⟨fun q hq => .inr ?_, fun q n hq hfound => .inr (.inl ?_), fun n _ hn => ?_, ?_,
      fun q n hn hq => ?_⟩
    · rw [hfind, if_neg hq]
    · rw [hfind, if_pos hq] at hfound
      exact (Option.some.inj hfound).symm
    · rw [hcontent]
      exact Function.update_of_ne hn _ _
    · rw [hnext]
      exact Nat.le_succ _
    · subst n
      exact absurd (hwf.lt_next q _ hq) (Nat.lt_irrefl _)

theorem Wf.openTrunc (hwf : v.Wf) (h : v.openTrunc path = some (v', number)) : v'.Wf := by
  rcases openTrunc_cases h with ⟨_, rfl⟩ | ⟨_, rfl, hnext, _, hfind⟩
  · exact ⟨hwf.lt_next, hwf.single⟩
  · have hold : ∀ q, v.find q ≠ some v.next := fun q hq =>
      absurd (hwf.lt_next q _ hq) (Nat.lt_irrefl _)
    constructor
    · intro q n hq
      have := hwf.lt_next q n
      grind
    · intro q q' n hq hq'
      have := hwf.single q q' n
      grind

theorem held_openTrunc (hwf : v.Wf) (h : v.openTrunc path = some (v', number)) :
    v'.Held path number [] := by
  rcases openTrunc_cases h with ⟨hfound, rfl⟩ | ⟨_, rfl, hnext, hcontent, hfind⟩
  · exact ⟨hwf.lt_next _ _ hfound, Function.update_self .., fun q hq =>
    hwf.single q path _ hq hfound,
      fun n hn => Option.some.inj (hn.symm.trans hfound)⟩
  · refine ⟨?_, ?_, fun q hq => ?_, fun n hn => ?_⟩
    · rw [hnext]
      exact Nat.lt_succ_self _
    · rw [hcontent, Function.update_self]
    · by_contra hne
      rw [hfind, if_neg hne] at hq
      exact absurd (hwf.lt_next q _ hq) (Nat.lt_irrefl _)
    · rw [hfind, if_pos rfl] at hn
      exact (Option.some.inj hn).symm

/-- A file that is open under another name is not the one that is opened. -/
theorem Held.ne_openTrunc {q : Path N} {opened : Nat} (h : v.Held path number bytes)
    (hopen : v.openTrunc q = some (v', opened)) (hne : path ≠ q) : number ≠ opened := by
  rintro rfl
  rcases openTrunc_cases hopen with ⟨hfound, _⟩ | ⟨_, hnew, _⟩
  · exact hne (h.name q hfound).symm
  · exact absurd h.lt_next (by omega)

theorem Wf.setContent (hwf : v.Wf) (number : Nat) (bytes : List β) :
    (v.setContent number bytes).Wf :=
  ⟨hwf.lt_next, hwf.single⟩

theorem Held.frame_setContent (h : v.Held path number bytes) (new : List β) :
    Frame v (v.setContent number new) (fun q => q = path) fun n => n = number :=
  ⟨fun _ _ => .inr rfl, fun q _ hq hfound => .inl ⟨q, hq, hfound⟩,
    fun _ _ hn => Function.update_of_ne hn _ _, Nat.le_refl _, fun q _ hn hq => h.name q (hn ▸ hq)⟩

theorem Held.setContent (h : v.Held path number bytes) (new : List β) :
    (v.setContent number new).Held path number new :=
  ⟨h.lt_next, Function.update_self .., h.name, h.found⟩

omit [DecidableEq N] in
theorem overwrite_length [Inhabited β] (content bytes : List β) :
    overwrite content content.length bytes = content ++ bytes := by
  simp [overwrite]

/-! ### Renames -/

omit [DecidableEq N] in
/-- The names that a rename of `src` to `dst` touches. -/
def Moved (src dst : N) (q : Path N) : Prop :=
  q.dir = some src ∨ q.dir = some dst ∨ q = ⟨none, src⟩ ∨ q = ⟨none, dst⟩

variable {src dst : N}

theorem frame_rename (h : v.rename src dst = some v') :
    Frame v v' (Moved src dst) fun _ => False := by
  obtain ⟨hcontent, hnext⟩ := rename_content h
  refine ⟨fun q hq => .inr ?_, fun q n hq hfound => .inl ?_, fun _ _ _ => by rw [hcontent],
    by rw [hnext], fun _ _ hn => hn.elim⟩
  · rw [find_rename h]
    unfold Moved at hq
    grind
  · rw [find_rename h] at hfound
    split at hfound
    · exact ⟨_, .inl rfl, hfound⟩
    · split at hfound
      · exact ⟨_, .inr (.inr (.inl rfl)), hfound⟩
      · unfold Moved at hq
        grind

theorem Wf.rename (hwf : v.Wf) (h : v.rename src dst = some v') : v'.Wf := by
  have hbefore : ∀ q n, v'.find q = some n → ∃ p, v.find p = some n ∧
      (q.dir = some dst ∧ p = ⟨some src, q.name⟩ ∨ q = ⟨none, dst⟩ ∧ p = ⟨none, src⟩ ∨
        p = q ∧ ¬ Moved src dst q) := by
    intro q n hq
    rw [find_rename h] at hq
    unfold Moved
    grind
  constructor
  · intro q n hq
    obtain ⟨p, hp, _⟩ := hbefore q n hq
    rw [(rename_content h).2]
    exact hwf.lt_next p n hp
  · intro q q' n hq hq'
    obtain ⟨p, hp, hcase⟩ := hbefore q n hq
    obtain ⟨p', hp', hcase'⟩ := hbefore q' n hq'
    have heq := hwf.single p p' n hp hp'
    obtain ⟨qdir, qname⟩ := q
    obtain ⟨qdir', qname'⟩ := q'
    unfold Moved at hcase hcase'
    grind

theorem Holds.rename {name : N} (hholds : v.Holds ⟨some src, name⟩ bytes)
    (h : v.rename src dst = some v') : v'.Holds ⟨some dst, name⟩ bytes := by
  intro n hn
  rw [find_rename h, if_pos rfl] at hn
  rw [(rename_content h).1]
  exact hholds n hn

end Volume

end Volumes
