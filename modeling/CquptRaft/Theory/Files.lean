import Mathlib.Data.List.AList

/-!
# Files, faults and crashes

A disk is a directory: its names stand for files and for directories of files. An operation on
it is one step. A `Prog` performs operations one after the other, and a script says how each of
them goes: it takes effect, or it fails and leaves the disk alone. Where the script ends the
process stops. The trace of a run is the list of the operations that have taken effect.

`Prog.Wp` is the weakest precondition of a program with two postconditions, one for a program
that returns and one for a process that stops.
-/

namespace Files

variable {N β : Type}

/-! ## Disks -/

/-- The files of a directory. -/
abbrev Dir (N β : Type) := AList fun _ : N => List β

inductive Entry (N β : Type) where
  | file (content : List β)
  | dir (files : Dir N β)

abbrev Disk (N β : Type) := AList fun _ : N => Entry N β

/-- A name on the disk, or in one of its directories. -/
structure Path (N : Type) where
  dir : Option N
  name : N
  deriving DecidableEq

/-- The name on the disk. -/
def Path.top (path : Path N) : N := path.dir.getD path.name

inductive Op (N β : Type) where
  | makeRoot
  | makeDir (name : N)
  | create (path : Path N)
  | append (path : Path N) (bytes : List β)
  | resize (path : Path N) (size : Nat)
  | remove (path : Path N)
  | removeAll (name : N)
  | rename (src dst : N)
  | sync (path : Path N)
  | syncRoot
  deriving DecidableEq

variable [DecidableEq N]

namespace Disk

def readFile (d : Disk N β) (path : Path N) : Option (List β) :=
  match path.dir with
  | none =>
    match d.lookup path.name with
    | some (.file content) => some content
    | _ => none
  | some dir =>
    match d.lookup dir with
    | some (.dir files) => files.lookup path.name
    | _ => none

/-- A file takes the place of another file only. -/
def writeFile (d : Disk N β) (path : Path N) (content : List β) : Option (Disk N β) :=
  match path.dir with
  | none =>
    match d.lookup path.name with
    | some (.dir _) => none
    | _ => some (d.insert path.name (.file content))
  | some dir =>
    match d.lookup dir with
    | some (.dir files) => some (d.insert dir (.dir (files.insert path.name content)))
    | _ => none

def makeDir (d : Disk N β) (name : N) : Option (Disk N β) :=
  match d.lookup name with
  | none => some (d.insert name (.dir ∅))
  | some (.dir _) => some d
  | some (.file _) => none

/-- What is not there is removed already; a directory has to be empty. The directory of a file stays
where it is in the listing. -/
def remove (d : Disk N β) (path : Path N) : Option (Disk N β) :=
  match path.dir with
  | none =>
    match d.lookup path.name with
    | none => some d
    | some (.file _) => some (d.erase path.name)
    | some (.dir files) => if files.entries.isEmpty then some (d.erase path.name) else none
  | some dir =>
    match d.lookup dir with
    | some (.dir files) => some (d.replace dir (.dir (files.erase path.name)))
    | _ => some d

/-- A file may replace a file, and a directory an empty directory. -/
def rename (d : Disk N β) (src dst : N) : Option (Disk N β) :=
  match d.lookup src, d.lookup dst with
  | none, _ => none
  | some (.file _), some (.dir _) => none
  | some (.dir _), some (.file _) => none
  | some (.dir files), some (.dir old) =>
    if old.entries.isEmpty then some ((d.erase src).insert dst (.dir files)) else none
  | some entry, _ => some ((d.erase src).insert dst entry)

/-- The file stays where it is in the listing of its directory. -/
def resizeFile (d : Disk N β) (path : Path N) (size : Nat) : Option (Disk N β) :=
  match path.dir with
  | none =>
    match d.lookup path.name with
    | some (.file content) => some (d.replace path.name (.file (content.take size)))
    | _ => none
  | some dir =>
    match d.lookup dir with
    | some (.dir files) => (files.lookup path.name).map fun content =>
      d.replace dir (.dir (files.replace path.name (content.take size)))
    | _ => none

def apply (d : Disk N β) : Op N β → Option (Disk N β)
  | .makeRoot | .sync _ | .syncRoot => some d
  | .makeDir name => d.makeDir name
  | .create path => d.writeFile path []
  | .append path bytes => (d.readFile path).bind fun content => d.writeFile path (content ++ bytes)
  | .resize path size => d.resizeFile path size
  | .remove path => d.remove path
  | .removeAll name => some (d.erase name)
  | .rename src dst => d.rename src dst

section Lookup

variable {γ : Type} {s : AList fun _ : N => γ} {name : N}

theorem lookup_erase_eq (n : N) :
    (s.erase name).lookup n = if n = name then none else s.lookup n := by
  split
  · rename_i h
    rw [h, AList.lookup_erase]
  · rename_i h
    exact AList.lookup_erase_ne h

theorem lookup_insert_eq {entry : γ} (n : N) :
    (s.insert name entry).lookup n = if n = name then some entry else s.lookup n := by
  split
  · rename_i h
    rw [h, AList.lookup_insert]
  · rename_i h
    exact AList.lookup_insert_ne h

theorem lookup_replace_eq {entry : γ} (n : N) :
    (s.replace name entry).lookup n =
      if n = name then (s.lookup n).map fun _ => entry else s.lookup n := by
  obtain ⟨entries, hnodup⟩ := s
  show List.dlookup n (List.kreplace name entry entries) =
    if n = name then (List.dlookup n entries).map fun _ => entry else List.dlookup n entries
  clear hnodup
  induction entries with
  | nil => simp [List.kreplace]
  | cons first entries ih =>
    obtain ⟨key, value⟩ := first
    by_cases hkey : name = key
    · subst hkey
      rw [List.kreplace, List.lookmap_cons_some (b := ⟨name, entry⟩) _ _ (by simp)]
      by_cases hn : n = name
      · subst hn
        simp
      · simp [hn, List.dlookup_cons_ne]
    · have hrest := ih
      rw [List.kreplace] at hrest ⊢
      rw [List.lookmap_cons_none _ _ (by simp [hkey])]
      by_cases hn : n = key
      · subst hn
        rw [if_neg (Ne.symm hkey)]
        simp
      · rw [List.dlookup_cons_ne _ _ hn, List.dlookup_cons_ne _ _ hn, hrest]

end Lookup

variable {d d' : Disk N β} {src dst name : N}

/-- A rename moves an entry. -/
theorem lookup_rename (h : d.rename src dst = some d') (n : N) :
    d'.lookup n = if n = dst then d.lookup src else if n = src then none else d.lookup n := by
  have hmoved : ∃ entry, d.lookup src = some entry ∧ d' = (d.erase src).insert dst entry := by
    unfold rename at h
    grind
  obtain ⟨entry, hsrc, rfl⟩ := hmoved
  rw [lookup_insert_eq, lookup_erase_eq, hsrc]

theorem isSome_of_rename (h : d.rename src dst = some d') : (d.lookup src).isSome := by
  unfold rename at h
  grind

theorem lookup_remove (h : d.remove ⟨none, name⟩ = some d') (n : N) :
    d'.lookup n = if n = name then none else d.lookup n := by
  have hremoved : d' = d ∧ d.lookup name = none ∨ d' = d.erase name := by
    simp only [remove] at h
    grind
  obtain ⟨rfl, hnone⟩ | rfl := hremoved
  · grind
  · exact lookup_erase_eq n

variable {path : Path N} {content : List β}

theorem readFile_writeFile (h : d.writeFile path content = some d') (p : Path N) :
    d'.readFile p = if p = path then some content else d.readFile p := by
  obtain ⟨dir, name⟩ := path
  obtain ⟨dir', name'⟩ := p
  cases dir with
  | none =>
    have hwritten :
        d' = d.insert name (.file content) ∧ ∀ files, d.lookup name ≠ some (.dir files) := by
      simp only [writeFile] at h
      split at h
      · cases h
      · rename_i hno
        exact ⟨(Option.some.inj h).symm, hno⟩
    obtain ⟨rfl, hno⟩ := hwritten
    cases dir' <;> simp only [readFile, lookup_insert_eq] <;> grind
  | some dir =>
    obtain ⟨files, hfiles, rfl⟩ : ∃ files, d.lookup dir = some (.dir files) ∧
        d' = d.insert dir (.dir (files.insert name content)) := by
      simp only [writeFile] at h
      split at h
      · rename_i files hfiles
        exact ⟨files, hfiles, (Option.some.inj h).symm⟩
      · cases h
    cases dir' <;> simp only [readFile, lookup_insert_eq] <;> grind [lookup_insert_eq]

/-- Bytes are appended to a file that is there. -/
theorem readFile_append {bytes : List β} (h : d.apply (.append path bytes) = some d') :
    ∃ content, d.readFile path = some content ∧
      ∀ p, d'.readFile p = if p = path then some (content ++ bytes) else d.readFile p := by
  obtain ⟨content, hread, hwrite⟩ := Option.bind_eq_some_iff.mp h
  exact ⟨content, hread, readFile_writeFile hwrite⟩

theorem lookup_writeFile (h : d.writeFile path content = some d') {n : N} (hn : n ≠ path.top) :
    d'.lookup n = d.lookup n := by
  obtain ⟨dir, name⟩ := path
  cases dir <;> simp only [writeFile] at h <;> split at h <;> cases h <;>
    exact AList.lookup_insert_ne hn

/-- What a removal can do. -/
theorem remove_cases (h : d.remove path = some d') :
    d' = d ∧ d.readFile path = none ∧ (path.dir = none → d.lookup path.name = none) ∨
      path.dir = none ∧ d' = d.erase path.name ∧
        (∀ files, d.lookup path.name = some (.dir files) → ∀ name, files.lookup name = none) ∨
      ∃ dir files, path.dir = some dir ∧ d.lookup dir = some (.dir files) ∧
        d' = d.replace dir (.dir (files.erase path.name)) := by
  obtain ⟨dir, name⟩ := path
  cases dir with
  | none =>
    cases hlookup : d.lookup name with
    | none =>
      simp only [remove, hlookup, Option.some.injEq] at h
      exact .inl ⟨h.symm, by simp [readFile, hlookup], fun _ => rfl⟩
    | some entry =>
      cases entry with
      | file content =>
        simp only [remove, hlookup, Option.some.injEq] at h
        exact .inr (.inl ⟨rfl, h.symm, by simp⟩)
      | dir files =>
        simp only [remove, hlookup] at h
        split at h
        · rename_i hempty
          refine .inr (.inl ⟨rfl, (Option.some.inj h).symm, fun files' hfiles n => ?_⟩)
          obtain rfl : files = files' := by simpa [hlookup] using hfiles
          rw [AList.lookup, List.isEmpty_iff.mp hempty]
          rfl
        · cases h
  | some dir =>
    simp only [remove] at h
    split at h
    · rename_i files hfiles
      exact .inr (.inr ⟨dir, files, rfl, hfiles, (Option.some.inj h).symm⟩)
    · rename_i hno
      refine .inl ⟨(Option.some.inj h).symm, ?_, by simp⟩
      simp only [readFile]

theorem readFile_remove (h : d.remove path = some d') (p : Path N) :
    d'.readFile p = if p = path then none else d.readFile p := by
  obtain ⟨dir, name⟩ := path
  obtain ⟨dir', name'⟩ := p
  rcases remove_cases h with ⟨rfl, hnone, -⟩ | ⟨hdir, rfl, hempty⟩ | ⟨top, files, hdir, hfiles, rfl⟩
  · grind
  · obtain rfl : dir = none := hdir
    cases dir' <;> simp only [readFile, lookup_erase_eq] <;> grind
  · obtain rfl : dir = some top := hdir
    cases dir' <;> simp only [readFile, lookup_replace_eq] <;> grind [lookup_erase_eq]

theorem lookup_remove_ne (h : d.remove path = some d') {n : N} (hn : n ≠ path.top) :
    d'.lookup n = d.lookup n := by
  obtain ⟨dir, name⟩ := path
  rcases remove_cases h with ⟨rfl, -⟩ | ⟨hdir, rfl, -⟩ | ⟨top, files, hdir, -, rfl⟩
  · rfl
  · obtain rfl : dir = none := hdir
    exact AList.lookup_erase_ne hn
  · obtain rfl : dir = some top := hdir
    exact (lookup_replace_eq n).trans (if_neg hn)

/-- A name that is not itself removed stays a file, or a directory. -/
theorem lookup_remove_kind (h : d.remove path = some d') {n : N} (hn : path ≠ ⟨none, n⟩) :
    (∀ content, d.lookup n = some (.file content) → d'.lookup n = some (.file content)) ∧
      ∀ files, d.lookup n = some (.dir files) → ∃ files', d'.lookup n = some (.dir files') := by
  obtain ⟨dir, name⟩ := path
  rcases remove_cases h with ⟨rfl, -⟩ | ⟨hdir, rfl, -⟩ | ⟨top, files, hdir, hfiles, rfl⟩
  · exact ⟨fun _ => id, fun files hfiles => ⟨files, hfiles⟩⟩
  · obtain rfl : dir = none := hdir
    have hne : n ≠ name := fun heq => hn (by rw [heq])
    simp only [lookup_erase_eq, if_neg hne]
    exact ⟨fun _ => id, fun files hfiles => ⟨files, hfiles⟩⟩
  · by_cases hne : n = top
    · subst hne
      simp [lookup_replace_eq, hfiles]
    · simp only [lookup_replace_eq, if_neg hne]
      exact ⟨fun _ => id, fun files hfiles => ⟨files, hfiles⟩⟩

/-- A removal makes nothing new. -/
theorem lookup_of_remove (h : d.remove path = some d') {n : N} :
    (∀ content, d'.lookup n = some (.file content) → d.lookup n = some (.file content)) ∧
      ∀ files', d'.lookup n = some (.dir files') → ∃ files, d.lookup n = some (.dir files) := by
  rcases remove_cases h with ⟨rfl, -⟩ | ⟨-, rfl, -⟩ | ⟨top, files, -, hfiles, rfl⟩
  · exact ⟨fun _ => id, fun files hfiles => ⟨files, hfiles⟩⟩
  · simp only [lookup_erase_eq]
    grind
  · simp only [lookup_replace_eq]
    grind

end Disk

/-! ## Programs -/

inductive Outcome where
  | ok | error
  deriving DecidableEq

/-- The disk, what has been done to it, and how the operations to come go. -/
structure World (N β : Type) where
  disk : Disk N β
  trace : List (Op N β)
  script : List Outcome

/-- No result stands for a process that has stopped. -/
def Prog (N β α : Type) := World N β → Option α × World N β

instance : Monad (Prog N β) where
  pure a := fun w => (some a, w)
  bind p f := fun w =>
    match p w with
    | (some a, w') => f a w'
    | (none, w') => (none, w')

/-- One operation. The result tells whether it has taken effect. -/
def perform (op : Op N β) : Prog N β Bool := fun w =>
  match w.script with
  | [] => (none, w)
  | .error :: script => (some false, { w with script })
  | .ok :: script =>
    match w.disk.apply op with
    | none => (some false, { w with script })
    | some disk => (some true, ⟨disk, w.trace ++ [op], script⟩)

omit [DecidableEq N] in
/-- Looking at the disk is no step. -/
def look {α : Type} (f : Disk N β → α) : Prog N β α := fun w => (some (f w.disk), w)

/-- The files of a directory, one after the other. -/
def removeFiles (dir : N) : List N → Prog N β Bool
  | [] => pure true
  | name :: names => do
    if !(← perform (.remove ⟨some dir, name⟩)) then return false
    removeFiles dir names

/-- A name with all that is under it. A failure leaves the rest where it is. -/
def removeTree (name : N) : Prog N β Bool := do
  match ← look (·.lookup name) with
  | some (.dir files) =>
    if !(← removeFiles name files.keys) then return false
    perform (.remove ⟨none, name⟩)
  | some (.file _) => perform (.remove ⟨none, name⟩)
  | none => return true

namespace Prog

variable {α γ : Type} {w : World N β} {Q Q' : α → World N β → Prop} {R R' : World N β → Prop}

omit [DecidableEq N]

/-- From `w` the program returns with `Q`, or stops with `R`. -/
def Wp (p : Prog N β α) (Q : α → World N β → Prop) (R : World N β → Prop) (w : World N β) : Prop :=
  match p w with
  | (some a, w') => Q a w'
  | (none, w') => R w'

theorem Wp.imp {p : Prog N β α} (h : p.Wp Q R w) (hQ : ∀ a w', Q a w' → Q' a w')
    (hR : ∀ w', R w' → R' w') : p.Wp Q' R' w := by
  revert h
  unfold Wp
  split
  · exact hQ _ _
  · exact hR _

theorem Wp.and {p : Prog N β α} (h : p.Wp Q R w) (h' : p.Wp Q' R' w) :
    p.Wp (fun a w' => Q a w' ∧ Q' a w') (fun w' => R w' ∧ R' w') w := by
  revert h h'
  unfold Wp
  split
  · exact And.intro
  · exact And.intro

theorem wp_any {p : Prog N β α} : p.Wp (fun _ _ => True) (fun _ => True) w := by
  unfold Wp
  split <;> trivial

theorem wp_pure {a : α} (h : Q a w) : (pure a : Prog N β α).Wp Q R w := h

theorem wp_bind {p : Prog N β γ} {f : γ → Prog N β α}
    (h : p.Wp (fun b w' => (f b).Wp Q R w') R w) : (p >>= f).Wp Q R w := by
  have hrun : (p >>= f) w = match p w with
      | (some b, w') => f b w'
      | (none, w') => (none, w') := rfl
  revert h
  unfold Wp
  rw [hrun]
  cases p w with
  | mk result w' => cases result <;> exact id

theorem wp_look {f : Disk N β → α} (h : Q (f w.disk) w) : (look f).Wp Q R w := h

/-- A call that the caller gives up on when it fails. -/
theorem wp_orFail {p q : Prog N β Bool} {Q P : Bool → World N β → Prop} (h : p.Wp P R w)
    (hfalse : ∀ w', P false w' → Q false w') (htrue : ∀ w', P true w' → q.Wp Q R w') :
    (do
      if !(← p) then return false
      q : Prog N β Bool).Wp Q R w := by
  refine wp_bind (h.imp (fun ok w' hok => ?_) fun _ => id)
  cases ok with
  | false => exact hfalse w' hok
  | true => exact htrue w' hok

variable [DecidableEq N]

/-- A step takes effect, or leaves the disk as it is, or is not taken any more. -/
theorem wp_perform {op : Op N β} {Q : Bool → World N β → Prop} (hstop : R w)
    (hfalse : ∀ script, Q false { w with script })
    (htrue : ∀ disk script, w.disk.apply op = some disk → Q true ⟨disk, w.trace ++ [op], script⟩) :
    (perform op).Wp Q R w := by
  unfold Wp perform
  cases hscript : w.script with
  | nil => exact hstop
  | cons outcome script =>
    cases outcome with
    | error => exact hfalse script
    | ok =>
      simp only
      cases happly : w.disk.apply op with
      | none => exact hfalse script
      | some disk => exact htrue disk script happly

/-- A step that the program gives up on when it fails. -/
theorem wp_stepOrFail {op : Op N β} {q : Prog N β Bool} {Q : Bool → World N β → Prop}
    (hstop : R w) (hfalse : ∀ script, Q false { w with script })
    (htrue : ∀ disk script, w.disk.apply op = some disk →
      q.Wp Q R ⟨disk, w.trace ++ [op], script⟩) :
    (do
      if !(← perform op) then return false
      q : Prog N β Bool).Wp Q R w :=
  wp_bind (wp_perform hstop hfalse htrue)

section RemoveTree

variable {name : N} {I : Disk N β → Prop}
  (hfile : ∀ {d d' : Disk N β} {file : N}, I d → d.remove ⟨some name, file⟩ = some d' → I d')
  (hself : ∀ {d d' : Disk N β}, I d → d.remove ⟨none, name⟩ = some d' → I d')

include hfile in
theorem wp_removeFiles (names : List N) (h : I w.disk) :
    (removeFiles name names).Wp (fun _ w' => I w'.disk) (fun w' => I w'.disk) w := by
  induction names generalizing w with
  | nil => exact wp_pure h
  | cons file names ih =>
    exact wp_stepOrFail h (fun _ => h) fun disk script hdisk => ih (hfile h hdisk)

include hfile hself in
/-- What every removal under a name keeps, the removal of all of it keeps, also when it stops
halfway. -/
theorem wp_removeTree (h : I w.disk) :
    (removeTree name).Wp (fun ok w' => I w'.disk ∧ (ok = true → w'.disk.lookup name = none))
      (fun w' => I w'.disk) w := by
  have hlast : ∀ {w : World N β}, I w.disk → (perform (.remove ⟨none, name⟩)).Wp
      (fun ok w' => I w'.disk ∧ (ok = true → w'.disk.lookup name = none))
      (fun w' => I w'.disk) w := by
    intro w h
    refine wp_perform h (fun _ => ⟨h, by simp⟩) fun disk script hdisk =>
      ⟨hself h hdisk, fun _ => ?_⟩
    rw [Disk.lookup_remove hdisk, if_pos rfl]
  refine wp_bind (wp_look ?_)
  split
  · exact wp_orFail (wp_removeFiles hfile _ h) (fun _ h => ⟨h, by simp⟩) fun _ h => hlast h
  · exact hlast h
  · rename_i hnone
    exact wp_pure ⟨h, fun _ => hnone⟩

end RemoveTree

end Prog

end Files
