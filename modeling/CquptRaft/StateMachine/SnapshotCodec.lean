import CquptRaft.StateMachine.KvStateMachine
import CquptRaft.Theory.Binary
import Mathlib.Data.List.Sort

/-!
# The snapshot file of the key-value state machine

A snapshot file is a header with the number of entries, and the entries in the order of their
keys, each string with its length in front. `SaveSnapshot` writes it and `LoadSnapshot` reads it
back. The reader takes a length from the file and makes room for the string before it looks at
what is left of the file: `std::string::resize` throws when the length is larger than `max_size()`,
or when there is no memory for it.
-/

namespace CquptRaft

open Binary

inductive SnapshotStatus where
  | ok | invalidArgument | ioError | corruptedData | notFound | versionMismatch | internalError
  deriving DecidableEq, Repr

structure SnapshotResult where
  status : SnapshotStatus
  message : String
  deriving DecidableEq, Repr

/-- What leaves a function that does not return. -/
inductive StdException where
  | lengthError
  | badAlloc
  deriving DecidableEq, Repr

/-- What `std::string::resize` can do. -/
structure StringMemory where
  /-- What `max_size()` yields. -/
  maxSize : Nat
  /-- Whether there is memory for the string that a call reads behind `k` others. -/
  room : Nat → Nat → Bool

/-- `resize` of an empty string; `none` when it returns. -/
def StringMemory.resize (memory : StringMemory) (k size : Nat) : Option StdException :=
  if memory.maxSize < size then some .lengthError
  else if memory.room k size then none
  else some .badAlloc

/-- A string of this length can be read, if the file has it. -/
def StringMemory.Fits (memory : StringMemory) (k size : Nat) : Prop :=
  size = 0 ∨ memory.resize k size = none

namespace KvStateMachine

def kSnapshotMagic : Nat := 0x4B565331

def kSnapshotVersion : Nat := 1

/-! ## Writing -/

def writeString (value : Bytes) : Bytes := toBytes 8 value.length ++ value

def writeEntry (entry : Bytes × Bytes) : Bytes := writeString entry.1 ++ writeString entry.2

def writeHeader (kvCount : Nat) : Bytes :=
  toBytes 4 kSnapshotMagic ++ (toBytes 4 kSnapshotVersion ++ toBytes 8 kvCount)

/-- The steps of `SaveSnapshot` that can fail, some with the text of an error code. -/
inductive SaveFault where
  | createDirectories (ec : String)
  | openTemp
  | header
  | entry
  | flush
  | remove (ec : String)
  | rename (ec : String)
  deriving DecidableEq, Repr

def SaveFault.message (tempPath : String) : SaveFault → String
  | .createDirectories ec => "create snapshot directory failed: " ++ ec
  | .openTemp => "open temp snapshot file failed: " ++ tempPath
  | .header => "write snapshot header failed"
  | .entry => "write snapshot kv entry failed"
  | .flush => "flush snapshot file failed"
  | .remove ec => "remove old snapshot file failed: " ++ ec
  | .rename ec => "rename snapshot file failed: " ++ ec

/-- The items of `kv_` in the order of their keys. -/
def snapshotBytes (items : List (Bytes × Bytes)) : Bytes :=
  let items := items.mergeSort fun a b => (compare a.1 b.1).isLE
  writeHeader items.length ++ items.flatMap writeEntry

/-- `items` are the items of `kv_` in the order in which the hash map yields them. The bytes are
the new content of the file, when the call succeeds. -/
def saveSnapshot (filePath : String) (items : List (Bytes × Bytes)) (fault : Option SaveFault) :
    SnapshotResult × Option Bytes :=
  if filePath = "" then (⟨.invalidArgument, "snapshot file path is empty"⟩, none)
  else
    match fault with
    | some fault => (⟨.ioError, fault.message (filePath ++ ".tmp")⟩, none)
    | none => (⟨.ok, "ok"⟩, some (snapshotBytes items))

/-! ## Reading -/

inductive StringRead where
  | thrown (exception : StdException)
  | failed
  | read (value rest : Bytes)
  deriving DecidableEq, Repr

section

variable (memory : StringMemory)

/-- The string behind `k` others. -/
def readString (k : Nat) (bytes : Bytes) : StringRead :=
  match readNat 8 bytes with
  | none => .failed
  | some (size, rest) =>
    if size = 0 then .read [] rest
    else
      match memory.resize k size with
      | some exception => .thrown exception
      | none => if rest.length < size then .failed else .read (rest.take size) (rest.drop size)

inductive EntriesRead where
  | thrown (exception : StdException)
  | failed
  | read (kv : KvMap)

/-- The loop over the entries, behind `k` strings. -/
def readEntries : Nat → Nat → Bytes → KvMap → EntriesRead
  | 0, _, _, kv => .read kv
  | count + 1, k, bytes, kv =>
    match readString memory k bytes with
    | .thrown exception => .thrown exception
    | .failed => .failed
    | .read key rest =>
      match readString memory (k + 1) rest with
      | .thrown exception => .thrown exception
      | .failed => .failed
      | .read value rest => readEntries count (k + 2) rest (kv.insert key value)

/-- What stands at the path that `LoadSnapshot` is given. -/
inductive SnapshotFile where
  | missing
  | locked
  | content (bytes : Bytes)
  deriving DecidableEq, Repr

/-- The status and the map afterwards. -/
def loadSnapshot (filePath : String) (file : SnapshotFile) (kv : KvMap) :
    Except StdException (SnapshotResult × KvMap) :=
  if filePath = "" then .ok (⟨.invalidArgument, "snapshot file path is empty"⟩, kv)
  else
    match file with
    | .missing => .ok (⟨.notFound, "snapshot file not found: " ++ filePath⟩, kv)
    | .locked => .ok (⟨.ioError, "failed to open snapshot file: " ++ filePath⟩, kv)
    | .content bytes =>
      let header := do
        let (magic, bytes) ← readNat 4 bytes
        let (version, bytes) ← readNat 4 bytes
        let (kvCount, bytes) ← readNat 8 bytes
        return (magic, version, kvCount, bytes)
      match header with
      | none => .ok (⟨.corruptedData, "failed to read snapshot header"⟩, kv)
      | some (magic, version, kvCount, bytes) =>
        if magic ≠ kSnapshotMagic then .ok (⟨.corruptedData, "invalid snapshot magic"⟩, kv)
        else if version ≠ kSnapshotVersion then
          .ok (⟨.versionMismatch, "unsupported snapshot version"⟩, kv)
        else
          match readEntries memory kvCount 0 bytes ∅ with
          | .thrown exception => .error exception
          | .failed => .ok (⟨.corruptedData, "failed to read snapshot kv entry"⟩, kv)
          | .read newKv => .ok (⟨.ok, "ok"⟩, newKv)

/-! ## One string -/

variable {memory : StringMemory} {k : Nat}

theorem readString_eq_read {bytes value rest : Bytes} :
    readString memory k bytes = .read value rest ↔
      bytes = writeString value ++ rest ∧ value.length < 2 ^ 64 ∧ memory.Fits k value.length := by
  constructor
  · intro h
    unfold readString at h
    split at h
    · cases h
    · rename_i size left hread
      obtain ⟨rfl, hlt⟩ := readNat_eq_some_iff.mp hread
      split at h
      · rename_i hzero
        cases h
        exact ⟨by simp [writeString, hzero], by simp, .inl rfl⟩
      · split at h
        · cases h
        · rename_i hresize
          split at h
          · cases h
          · rename_i hleft
            have hlen : (left.take size).length = size := List.length_take_of_le (by omega)
            cases h
            rw [writeString, hlen, List.append_assoc, List.take_append_drop]
            exact ⟨rfl, hlt, .inr hresize⟩
  · rintro ⟨rfl, hlt, hfits⟩
    unfold readString
    rw [writeString, List.append_assoc, readNat_toBytes (by exact hlt)]
    simp only
    split
    · rename_i hzero
      simp [List.length_eq_zero_iff.mp hzero]
    · rename_i hpos
      rw [hfits.resolve_left hpos]
      simp

theorem readString_eq_thrown {bytes : Bytes} :
    (∃ exception, readString memory k bytes = .thrown exception) ↔
      ∃ size rest, bytes = toBytes 8 size ++ rest ∧ size < 2 ^ 64 ∧ ¬ memory.Fits k size := by
  constructor
  · rintro ⟨exception, h⟩
    unfold readString at h
    split at h
    · cases h
    · rename_i size left hread
      obtain ⟨rfl, hlt⟩ := readNat_eq_some_iff.mp hread
      refine ⟨size, left, rfl, hlt, ?_⟩
      split at h
      · cases h
      · rename_i hpos
        split at h
        · rename_i hresize
          rintro (hzero | hfits)
          · exact hpos hzero
          · rw [hfits] at hresize
            cases hresize
        · split at h <;> cases h
  · rintro ⟨size, rest, rfl, hlt, hno⟩
    obtain ⟨hpos, hresize⟩ := not_or.mp hno
    obtain ⟨exception, hexception⟩ := Option.ne_none_iff_exists'.mp hresize
    refine ⟨exception, ?_⟩
    unfold readString
    rw [readNat_toBytes (by exact hlt)]
    simp only
    rw [if_neg hpos, hexception]

theorem readString_of_not_fits {value : Bytes} (rest : Bytes) (hlt : value.length < 2 ^ 64)
    (hno : ¬ memory.Fits k value.length) :
    ∃ exception, readString memory k (writeString value ++ rest) = .thrown exception :=
  readString_eq_thrown.mpr ⟨value.length, value ++ rest, by simp [writeString], hlt, hno⟩

/-- A length that is larger than what is left of the file. -/
theorem readString_of_short {size : Nat} {rest : Bytes} (hlt : size < 2 ^ 64)
    (hfits : memory.Fits k size) (hshort : rest.length < size) :
    readString memory k (toBytes 8 size ++ rest) = .failed := by
  have hpos : size ≠ 0 := by omega
  unfold readString
  rw [readNat_toBytes (by exact hlt)]
  simp only
  rw [if_neg hpos, hfits.resolve_left hpos]
  simp [hshort]

/-! ## The entries -/

/-- The strings of the entries, in the order of the file. -/
def entryStrings (entries : List (Bytes × Bytes)) : List Bytes :=
  entries.flatMap fun entry => [entry.1, entry.2]

theorem entryStrings_cons (entry : Bytes × Bytes) (entries : List (Bytes × Bytes)) :
    entryStrings (entry :: entries) = entry.1 :: entry.2 :: entryStrings entries := rfl

theorem flatMap_writeEntry (entries : List (Bytes × Bytes)) :
    entries.flatMap writeEntry = (entryStrings entries).flatMap writeString := by
  simp only [entryStrings, List.flatMap_assoc, List.flatMap_cons, List.flatMap_nil, List.append_nil]
  rfl

/-- The strings fit, one behind the other. -/
def FitsAll (memory : StringMemory) (k : Nat) (strings : List Bytes) : Prop :=
  ∀ j (h : j < strings.length), (strings[j]).length < 2 ^ 64 ∧
    memory.Fits (k + j) (strings[j]).length

theorem fitsAll_cons {value : Bytes} {strings : List Bytes} :
    FitsAll memory k (value :: strings) ↔
      (value.length < 2 ^ 64 ∧ memory.Fits k value.length) ∧ FitsAll memory (k + 1) strings := by
  constructor
  · intro h
    refine ⟨h 0 (by simp), fun j hj => ?_⟩
    have hnext := h (j + 1) (by simpa using hj)
    rwa [List.getElem_cons_succ, show k + (j + 1) = k + 1 + j by omega] at hnext
  · rintro ⟨hvalue, hrest⟩ j hj
    cases j with
    | zero => exact hvalue
    | succ j =>
      have hnext := hrest j (by simpa using hj)
      rwa [show k + 1 + j = k + (j + 1) by omega] at hnext

theorem readEntries_eq_read {count : Nat} {bytes : Bytes} {kv kv' : KvMap} :
    readEntries memory count k bytes kv = .read kv' ↔ ∃ entries rest,
      bytes = entries.flatMap writeEntry ++ rest ∧ entries.length = count ∧
      FitsAll memory k (entryStrings entries) ∧
      kv' = entries.foldl (fun kv entry => kv.insert entry.1 entry.2) kv := by
  induction count generalizing bytes kv k with
  | zero =>
    constructor
    · intro h
      cases h
      exact ⟨[], bytes, rfl, rfl, by simp [FitsAll, entryStrings], rfl⟩
    · rintro ⟨entries, rest, -, hlen, -, rfl⟩
      rw [List.length_eq_zero_iff.mp hlen]
      rfl
  | succ count ih =>
    constructor
    · intro h
      unfold readEntries at h
      split at h
      · cases h
      · cases h
      · rename_i key left hkey
        obtain ⟨rfl, hkeyFits⟩ := readString_eq_read.mp hkey
        split at h
        · cases h
        · cases h
        · rename_i value left hvalue
          obtain ⟨rfl, hvalueFits⟩ := readString_eq_read.mp hvalue
          obtain ⟨entries, rest, rfl, hlen, hfits, rfl⟩ := ih.mp h
          refine ⟨(key, value) :: entries, rest, by simp [writeEntry], by simp [hlen], ?_, rfl⟩
          rw [entryStrings_cons]
          exact fitsAll_cons.mpr ⟨hkeyFits, fitsAll_cons.mpr ⟨hvalueFits, hfits⟩⟩
    · rintro ⟨entries, rest, rfl, hlen, hfits, rfl⟩
      obtain ⟨⟨key, value⟩, entries, rfl⟩ := List.exists_cons_of_length_eq_add_one hlen
      rw [entryStrings_cons] at hfits
      obtain ⟨hkey, hfits⟩ := fitsAll_cons.mp hfits
      obtain ⟨hvalue, hfits⟩ := fitsAll_cons.mp hfits
      rw [readEntries, List.flatMap_cons, writeEntry, List.append_assoc, List.append_assoc,
        readString_eq_read.mpr ⟨rfl, hkey⟩]
      simp only
      rw [readString_eq_read.mpr ⟨rfl, hvalue⟩]
      simp only [List.foldl_cons]
      exact ih.mpr ⟨entries, rest, rfl, by simpa using hlen, hfits, rfl⟩

/-- The entries, read from `bytes`, meet a length field behind `k` whole strings. -/
def FieldAt (count : Nat) (bytes : Bytes) (k size : Nat) (rest : Bytes) : Prop :=
  ∃ strings : List Bytes, bytes = strings.flatMap writeString ++ (toBytes 8 size ++ rest) ∧
    strings.length = k ∧ k < 2 * count ∧ (∀ value ∈ strings, value.length < 2 ^ 64) ∧
    size < 2 ^ 64

theorem FieldAt.cons {count size : Nat} {bytes rest key value : Bytes}
    (h : FieldAt count bytes k size rest) (hkey : key.length < 2 ^ 64)
    (hvalue : value.length < 2 ^ 64) :
    FieldAt (count + 1) (writeString key ++ (writeString value ++ bytes)) (k + 2) size rest := by
  obtain ⟨strings, rfl, rfl, hlen, hstrings, hsize⟩ := h
  refine ⟨key :: value :: strings, by simp, by simp, by omega, ?_, hsize⟩
  intro x hx
  rcases List.mem_cons.mp hx with rfl | hx
  · exact hkey
  · rcases List.mem_cons.mp hx with rfl | hx
    · exact hvalue
    · exact hstrings x hx

/-- A field that the loop meets is the first one, the second one or one of the entries behind. -/
theorem fieldAt_succ {count size : Nat} {bytes rest : Bytes}
    (h : FieldAt (count + 1) bytes k size rest) :
    (k = 0 ∧ bytes = toBytes 8 size ++ rest ∧ size < 2 ^ 64) ∨
    ∃ key left, bytes = writeString key ++ left ∧ key.length < 2 ^ 64 ∧
      ((k = 1 ∧ left = toBytes 8 size ++ rest ∧ size < 2 ^ 64) ∨
      ∃ value left' j, left = writeString value ++ left' ∧ value.length < 2 ^ 64 ∧ k = j + 2 ∧
        FieldAt count left' j size rest) := by
  obtain ⟨strings, rfl, rfl, hlen, hstrings, hsize⟩ := h
  rcases strings with _ | ⟨key, _ | ⟨value, strings⟩⟩
  · exact .inl ⟨rfl, rfl, hsize⟩
  · exact .inr ⟨key, _, by simp, hstrings key (by simp), .inl ⟨rfl, rfl, hsize⟩⟩
  · refine .inr ⟨key, _, by simp, hstrings key (by simp), .inr ⟨value, _, strings.length, rfl,
      hstrings value (by simp), rfl, strings, rfl, rfl, ?_,
      fun x hx => hstrings x (by simp [hx]), hsize⟩⟩
    simp at hlen
    omega

/-- The loop throws at the first length that there is no room for. -/
theorem readEntries_eq_thrown {count : Nat} {bytes : Bytes} {kv : KvMap} :
    (∃ exception, readEntries memory count k bytes kv = .thrown exception) ↔
      ∃ j size rest, FieldAt count bytes j size rest ∧ ¬ memory.Fits (k + j) size := by
  induction count generalizing bytes kv k with
  | zero =>
    constructor
    · rintro ⟨exception, h⟩
      cases h
    · rintro ⟨j, size, rest, ⟨strings, -, -, hlen, -⟩, -⟩
      omega
  | succ count ih =>
    constructor
    · rintro ⟨exception, h⟩
      unfold readEntries at h
      split at h
      · rename_i hkey
        obtain ⟨size, rest, rfl, hlt, hno⟩ := readString_eq_thrown.mp ⟨_, hkey⟩
        exact ⟨0, size, rest, ⟨[], rfl, rfl, by omega, by simp, hlt⟩, hno⟩
      · cases h
      · rename_i key left hkey
        obtain ⟨rfl, hkeyLen, -⟩ := readString_eq_read.mp hkey
        split at h
        · rename_i hvalue
          obtain ⟨size, rest, rfl, hlt, hno⟩ := readString_eq_thrown.mp ⟨_, hvalue⟩
          exact ⟨1, size, rest, ⟨[key], by simp, rfl, by omega, by simpa using hkeyLen, hlt⟩, hno⟩
        · cases h
        · rename_i value left hvalue
          obtain ⟨rfl, hvalueLen, -⟩ := readString_eq_read.mp hvalue
          obtain ⟨j, size, rest, hfield, hno⟩ := ih.mp ⟨_, h⟩
          refine ⟨j + 2, size, rest, hfield.cons hkeyLen hvalueLen, ?_⟩
          rwa [show k + (j + 2) = k + 2 + j by omega]
    · rintro ⟨j, size, rest, hfield, hno⟩
      unfold readEntries
      rcases fieldAt_succ hfield with ⟨rfl, rfl, hlt⟩ | ⟨key, left, rfl, hkeyLen, hcase⟩
      · obtain ⟨exception, hthrown⟩ := readString_eq_thrown.mpr ⟨size, rest, rfl, hlt, hno⟩
        exact ⟨exception, by rw [show readString memory k _ = _ from hthrown]⟩
      · by_cases hkeyFits : memory.Fits k key.length
        · rw [readString_eq_read.mpr ⟨rfl, hkeyLen, hkeyFits⟩]
          simp only
          rcases hcase with ⟨rfl, rfl, hlt⟩ | ⟨value, left', i, rfl, hvalueLen, rfl, hfield'⟩
          · obtain ⟨exception, hthrown⟩ := readString_eq_thrown.mpr ⟨size, rest, rfl, hlt, hno⟩
            exact ⟨exception, by rw [hthrown]⟩
          · by_cases hvalueFits : memory.Fits (k + 1) value.length
            · rw [readString_eq_read.mpr ⟨rfl, hvalueLen, hvalueFits⟩]
              refine ih.mpr ⟨i, size, rest, hfield', ?_⟩
              rwa [show k + 2 + i = k + (i + 2) by omega]
            · obtain ⟨exception, hthrown⟩ := readString_of_not_fits left' hvalueLen hvalueFits
              exact ⟨exception, by rw [hthrown]⟩
        · obtain ⟨exception, hthrown⟩ := readString_of_not_fits left hkeyLen hkeyFits
          exact ⟨exception, by rw [hthrown]⟩

/-- A length beyond the end of the file is reported, unless there was no room for a length
before. -/
theorem readEntries_of_short {count j size : Nat} {bytes rest : Bytes} {kv : KvMap}
    (hfield : FieldAt count bytes j size rest) (hshort : rest.length < size)
    (hfits : ∀ j size rest, FieldAt count bytes j size rest → memory.Fits (k + j) size) :
    readEntries memory count k bytes kv = .failed := by
  induction count generalizing bytes kv k j with
  | zero =>
    obtain ⟨strings, -, -, hlen, -⟩ := hfield
    omega
  | succ count ih =>
    unfold readEntries
    rcases fieldAt_succ hfield with ⟨rfl, rfl, hlt⟩ | ⟨key, left, rfl, hkeyLen, hcase⟩
    · have hfirst : memory.Fits k size := hfits 0 _ _ hfield
      rw [readString_of_short hlt hfirst hshort]
    · have hkeyFits : memory.Fits k key.length := hfits 0 key.length (key ++ left)
        ⟨[], by simp [writeString], rfl, by omega, by simp, hkeyLen⟩
      rw [readString_eq_read.mpr ⟨rfl, hkeyLen, hkeyFits⟩]
      simp only
      rcases hcase with ⟨rfl, rfl, hlt⟩ | ⟨value, left', i, rfl, hvalueLen, rfl, hfield'⟩
      · rw [readString_of_short hlt (hfits _ _ _ hfield) hshort]
      · have hvalueFits := hfits 1 value.length (value ++ left')
          ⟨[key], by simp [writeString], rfl, by omega, by simpa using hkeyLen, hvalueLen⟩
        rw [readString_eq_read.mpr ⟨rfl, hvalueLen, hvalueFits⟩]
        refine ih hfield' fun j size rest h => ?_
        have hfar := hfits _ _ _ (h.cons hkeyLen hvalueLen)
        rwa [show k + (j + 2) = k + 2 + j by omega] at hfar

/-! ## The whole file -/

/-- The file starts with a header for `count` entries, which `body` follows. -/
def HasHeader (bytes : Bytes) (count : Nat) (body : Bytes) : Prop :=
  bytes = writeHeader count ++ body ∧ count < 2 ^ 64

theorem HasHeader.unique {bytes body body' : Bytes} {count count' : Nat}
    (h : HasHeader bytes count body) (h' : HasHeader bytes count' body') :
    count = count' ∧ body = body' := by
  obtain ⟨rfl, hlt⟩ := h
  obtain ⟨heq, hlt'⟩ := h'
  simp only [writeHeader, List.append_assoc] at heq
  have hrest := List.append_cancel_left (List.append_cancel_left heq)
  have hread := readNat_toBytes (k := 8) hlt body
  rw [hrest, readNat_toBytes (k := 8) hlt'] at hread
  simpa [eq_comm] using hread

theorem loadSnapshot_of_header {filePath : String} (hpath : filePath ≠ "") {bytes body : Bytes}
    {count : Nat} (h : HasHeader bytes count body) (kv : KvMap) :
    loadSnapshot memory filePath (.content bytes) kv =
      match readEntries memory count 0 body ∅ with
      | .thrown exception => .error exception
      | .failed => .ok (⟨.corruptedData, "failed to read snapshot kv entry"⟩, kv)
      | .read newKv => .ok (⟨.ok, "ok"⟩, newKv) := by
  obtain ⟨rfl, hlt⟩ := h
  have hmagic : kSnapshotMagic < 256 ^ 4 := by decide
  have hversion : kSnapshotVersion < 256 ^ 4 := by decide
  have hcount : count < 256 ^ 8 := hlt
  simp only [loadSnapshot, if_neg hpath, writeHeader, List.append_assoc,
    readNat_toBytes hmagic, readNat_toBytes hversion, readNat_toBytes hcount, Option.pure_def,
    Option.bind_eq_bind, Option.bind_some, ne_eq, not_true_eq_false, if_false]

/-- Without a header nothing is loaded. -/
theorem loadSnapshot_of_no_header {filePath : String} (hpath : filePath ≠ "") {bytes : Bytes}
    (h : ∀ count body, ¬ HasHeader bytes count body) (kv : KvMap) :
    ∃ result, loadSnapshot memory filePath (.content bytes) kv = .ok (result, kv) ∧
      result.status ≠ .ok := by
  unfold loadSnapshot
  rw [if_neg hpath]
  simp only
  split
  · exact ⟨_, rfl, by simp⟩
  · rename_i hheader
    obtain ⟨⟨magic, bytes₁⟩, hreadMagic, hheader⟩ := Option.bind_eq_some_iff.mp hheader
    obtain ⟨⟨version, bytes₂⟩, hreadVersion, hheader⟩ := Option.bind_eq_some_iff.mp hheader
    obtain ⟨⟨count, body⟩, hreadCount, hheader⟩ := Option.bind_eq_some_iff.mp hheader
    cases hheader
    obtain ⟨rfl, -⟩ := readNat_eq_some_iff.mp hreadMagic
    obtain ⟨rfl, -⟩ := readNat_eq_some_iff.mp hreadVersion
    obtain ⟨rfl, hlt⟩ := readNat_eq_some_iff.mp hreadCount
    simp only
    split
    · exact ⟨_, rfl, by simp⟩
    · rename_i hmagic
      split
      · exact ⟨_, rfl, by simp⟩
      · rename_i hversion
        obtain rfl := not_not.mp hmagic
        obtain rfl := not_not.mp hversion
        exact absurd ⟨by simp [writeHeader], hlt⟩ (h count body)

/-- The entries that stand in the file, whatever follows them. -/
def Decodes (bytes : Bytes) (entries : List (Bytes × Bytes)) : Prop :=
  (∀ value ∈ entryStrings entries, value.length < 2 ^ 64) ∧
    ∃ rest, HasHeader bytes entries.length (entries.flatMap writeEntry ++ rest)

/-- A length field of the file that a reader of its entries meets behind `k` strings, and the number
of bytes behind it. -/
def LengthField (bytes : Bytes) (k size left : Nat) : Prop :=
  ∃ count body rest, HasHeader bytes count body ∧ FieldAt count body k size rest ∧
    rest.length = left

/-- The loaded map has the entries of the file, or the file has none and nothing is touched; a
length beyond the end of the file is named as the corruption it is. -/
structure Reports (bytes : Bytes) (kv : KvMap) (result : SnapshotResult) (kv' : KvMap) : Prop where
  cases : (result.status = .ok ∧ ∃ entries, Decodes bytes entries ∧
      kv' = Std.ExtTreeMap.ofList entries) ∨
    (result.status ≠ .ok ∧ kv' = kv ∧ ∀ entries, ¬ Decodes bytes entries)
  overlong : ∀ k size left, LengthField bytes k size left → left < size →
    result.status = .corruptedData

theorem entry_length_field {entries : List (Bytes × Bytes)} {rest : Bytes}
    (hlen : ∀ value ∈ entryStrings entries, value.length < 2 ^ 64) {j : Nat}
    (hj : j < (entryStrings entries).length) :
    ∃ rest', FieldAt entries.length (entries.flatMap writeEntry ++ rest) j
      ((entryStrings entries)[j]).length rest' := by
  have hsplit : entryStrings entries = (entryStrings entries).take j ++
      ((entryStrings entries)[j] :: (entryStrings entries).drop (j + 1)) := by
    rw [List.getElem_cons_drop, List.take_append_drop]
  have htwo : (entryStrings entries).length = 2 * entries.length := by
    simp [entryStrings, List.length_flatMap, mul_comm]
  refine ⟨(entryStrings entries)[j] ++ (((entryStrings entries).drop (j + 1)).flatMap writeString ++
    rest), (entryStrings entries).take j, ?_, ?_, by omega, fun x hx => ?_,
    hlen _ (List.getElem_mem hj)⟩
  · have hwrite := congrArg (List.flatMap writeString) hsplit
    rw [List.flatMap_append, List.flatMap_cons] at hwrite
    rw [flatMap_writeEntry, hwrite, writeString]
    simp only [List.append_assoc]
  · exact List.length_take_of_le (Nat.le_of_lt hj)
  · exact hlen x (List.mem_of_mem_take hx)

/-- With room for all of them the entries of a file are read. -/
theorem Decodes.readEntries_eq {bytes body : Bytes} {entries : List (Bytes × Bytes)} {count : Nat}
    (h : Decodes bytes entries) (hheader : HasHeader bytes count body)
    (hfits : ∀ k size rest, FieldAt count body k size rest → memory.Fits k size) :
    readEntries memory count 0 body ∅ = .read (Std.ExtTreeMap.ofList entries) := by
  obtain ⟨hlen, rest, hheader'⟩ := h
  obtain ⟨rfl, rfl⟩ := hheader.unique hheader'
  refine readEntries_eq_read.mpr ⟨entries, rest, rfl, rfl, fun j hj => ?_,
    Std.ExtTreeMap.ofList_eq_foldl⟩
  obtain ⟨rest', hfield⟩ := entry_length_field hlen hj
  rw [Nat.zero_add]
  exact ⟨hlen _ (List.getElem_mem hj), hfits _ _ _ hfield⟩

theorem decodes_of_readEntries {bytes body : Bytes} {count : Nat} {kv : KvMap}
    (hheader : HasHeader bytes count body)
    (h : readEntries memory count 0 body ∅ = .read kv) :
    ∃ entries, Decodes bytes entries ∧ kv = Std.ExtTreeMap.ofList entries := by
  obtain ⟨entries, rest, rfl, rfl, hfits, rfl⟩ := readEntries_eq_read.mp h
  refine ⟨entries, ⟨fun value hvalue => ?_, rest, hheader⟩, Std.ExtTreeMap.ofList_eq_foldl.symm⟩
  obtain ⟨j, hj, rfl⟩ := List.getElem_of_mem hvalue
  exact (hfits j hj).1

/-- `LoadSnapshot` reports by status exactly when there is room for every length it meets, however
much memory there is. -/
theorem loadSnapshot_reports_iff (memory : StringMemory) {filePath : String}
    (hpath : filePath ≠ "") (bytes : Bytes) (kv : KvMap) :
    (∃ result kv', loadSnapshot memory filePath (.content bytes) kv = .ok (result, kv') ∧
      Reports bytes kv result kv') ↔
      ∀ k size left, LengthField bytes k size left → memory.Fits k size := by
  by_cases hheader : ∃ count body, HasHeader bytes count body
  · obtain ⟨count, body, hheader⟩ := hheader
    have hfields : (∀ k size left, LengthField bytes k size left → memory.Fits k size) ↔
        ∀ k size rest, FieldAt count body k size rest → memory.Fits (0 + k) size := by
      constructor
      · intro h k size rest hfield
        rw [Nat.zero_add]
        exact h k size rest.length ⟨count, body, rest, hheader, hfield, rfl⟩
      · rintro h k size left ⟨count', body', rest, hheader', hfield, rfl⟩
        obtain ⟨rfl, rfl⟩ := hheader.unique hheader'
        have hfits := h k size rest hfield
        rwa [Nat.zero_add] at hfits
    rw [loadSnapshot_of_header hpath hheader, hfields]
    constructor
    · rintro ⟨result, kv', hload, -⟩ k size rest hfield
      by_contra hno
      obtain ⟨exception, hthrown⟩ := readEntries_eq_thrown.mpr ⟨k, size, rest, hfield, hno⟩
      rw [hthrown] at hload
      cases hload
    · intro hfits
      have hshort : ∀ k size left, LengthField bytes k size left → left < size →
          readEntries memory count 0 body ∅ = .failed := by
        rintro k size left ⟨count', body', rest, hheader', hfield, rfl⟩ hlt
        obtain ⟨rfl, rfl⟩ := hheader.unique hheader'
        exact readEntries_of_short hfield hlt hfits
      have hroom : ∀ k size rest, FieldAt count body k size rest → memory.Fits k size := by
        intro k size rest hfield
        have hat := hfits k size rest hfield
        rwa [Nat.zero_add] at hat
      cases hread : readEntries memory count 0 body ∅ with
      | thrown exception =>
        obtain ⟨k, size, rest, hfield, hno⟩ := readEntries_eq_thrown.mp ⟨_, hread⟩
        exact absurd (hfits k size rest hfield) hno
      | failed =>
        refine ⟨_, _, rfl, .inr ⟨by simp, rfl, fun entries hdecodes => ?_⟩,
          fun _ _ _ _ _ => rfl⟩
        rw [hdecodes.readEntries_eq hheader hroom] at hread
        cases hread
      | read newKv =>
        refine ⟨_, _, rfl, .inl ⟨rfl, decodes_of_readEntries hheader hread⟩,
          fun k size left hfield hlt => ?_⟩
        rw [hshort k size left hfield hlt] at hread
        cases hread
  · push Not at hheader
    obtain ⟨result, hload, hstatus⟩ := @loadSnapshot_of_no_header memory _ hpath _ hheader kv
    refine ⟨fun _ k size left hfield => ?_, fun _ =>
      ⟨result, kv, hload, .inr ⟨hstatus, rfl, ?_⟩, ?_⟩⟩
    · obtain ⟨count, body, -, h, -⟩ := hfield
      exact absurd h (hheader count body)
    · rintro entries ⟨-, rest, h⟩
      exact hheader _ _ h
    · rintro k size left ⟨count, body, -, h, -⟩
      exact absurd h (hheader count body)

/-- As much memory as can be addressed. -/
def wholeMemory : StringMemory := ⟨2 ^ 63 - 1, fun _ _ => true⟩

/-- A file whose only entry has a key of five bytes, of which two are there. -/
def tornFile : Bytes := writeHeader 1 ++ (toBytes 8 5 ++ [1, 2])

theorem loadSnapshot_reports_torn :
    ∃ result kv', loadSnapshot wholeMemory "snapshot.bin" (.content tornFile) ∅ =
      .ok (result, kv') ∧ Reports tornFile ∅ result kv' := by
  refine (loadSnapshot_reports_iff wholeMemory (by decide) tornFile ∅).mpr ?_
  rintro k size left ⟨count, body, rest, hheader, ⟨strings, hbody, rfl, hcount, -, hsize⟩, -⟩
  obtain ⟨rfl, rfl⟩ := hheader.unique ⟨rfl, by decide⟩
  refine .inr ?_
  match strings, hcount with
  | [], _ =>
    have hread := readNat_toBytes (k := 8) (n := 5) (by decide) [1, 2]
    rw [hbody] at hread
    have hfield := (readNat_toBytes (k := 8) hsize rest).symm.trans hread
    simp only [Option.some.injEq, Prod.mk.injEq] at hfield
    obtain rfl := hfield.1
    rfl
  | [value], _ =>
    have := congrArg List.length hbody
    simp [writeString] at this
    omega

/-- A file whose only entry has a key of the largest length that the field can hold. -/
def hugeLengthFile : Bytes := writeHeader 1 ++ toBytes 8 (2 ^ 64 - 1)

theorem loadSnapshot_throws :
    ¬ ∃ result kv', loadSnapshot wholeMemory "snapshot.bin" (.content hugeLengthFile) ∅ =
      .ok (result, kv') ∧ Reports hugeLengthFile ∅ result kv' := by
  rintro ⟨result, kv', hload, -⟩
  have hthrown : loadSnapshot wholeMemory "snapshot.bin" (.content hugeLengthFile) ∅ =
      .error .lengthError := rfl
  rw [hthrown] at hload
  cases hload

/-! ## Round trip -/

/-- The strings of the map are strings of the program, which has room for them a second time, and
their number is one of the program. -/
structure Representable (memory : StringMemory) (m : KvMap) : Prop where
  maxSize_lt : memory.maxSize < 2 ^ 64
  size_lt : m.size < 2 ^ 64
  length_le : ∀ key value : Bytes, m[key]? = some value →
    key.length ≤ memory.maxSize ∧ value.length ≤ memory.maxSize
  room : ∀ key value : Bytes, m[key]? = some value → ∀ k,
    memory.room k key.length = true ∧ memory.room k value.length = true

/-- In whatever order the hash map yields its items, sorting makes them the same list. -/
theorem mergeSort_items {m : KvMap} {items : List (Bytes × Bytes)} (h : items.Perm m.toList) :
    (items.mergeSort fun a b => (compare a.1 b.1).isLE) = m.toList := by
  have hordered := m.ordered_keys_toList
  refine @List.Perm.eq_of_pairwise _ (fun a b => (compare a.1 b.1).isLE = true) _ _ ?_ ?_ ?_
    ((List.mergeSort_perm _ _).trans h)
  · rintro ⟨key, value⟩ ⟨key', value'⟩ ha hb hle hge
    obtain rfl : key = key' :=
      Std.LawfulEqCmp.eq_of_compare (Std.OrientedCmp.isLE_antisymm hle hge)
    have ha' := (List.mergeSort_perm _ _).trans h |>.mem_iff.mp ha
    rw [Std.ExtTreeMap.mem_toList_iff_getElem?_eq_some] at ha' hb
    rw [Option.some.inj (ha'.symm.trans hb)]
  · refine List.pairwise_mergeSort (fun a b c => ?_) (fun a b => ?_) items
    · exact Std.TransCmp.isLE_trans
    · rw [Bool.or_eq_true]
      by_contra hno
      rw [not_or] at hno
      exact hno.2 (by simp [Std.OrientedCmp.lt_of_not_isLE hno.1])
  · refine hordered.imp fun hlt => ?_
    simp [hlt]

theorem ofList_toList (m : KvMap) : Std.ExtTreeMap.ofList m.toList = m := by
  refine Std.ExtTreeMap.ext_getElem? fun {key} => ?_
  cases hkey : m[key]? with
  | none =>
    refine Std.ExtTreeMap.getElem?_ofList_of_contains_eq_false ?_
    rw [Std.ExtTreeMap.map_fst_toList_eq_keys]
    simpa using hkey
  | some value =>
    exact Std.ExtTreeMap.getElem?_ofList_of_mem Std.ReflCmp.compare_self m.distinct_keys_toList
      (Std.ExtTreeMap.mem_toList_iff_getElem?_eq_some.mpr hkey)

/-- The file of a map. -/
def mapBytes (m : KvMap) : Bytes := writeHeader m.toList.length ++ m.toList.flatMap writeEntry

theorem snapshotBytes_eq {m : KvMap} {items : List (Bytes × Bytes)} (h : items.Perm m.toList) :
    snapshotBytes items = mapBytes m := by
  simp only [snapshotBytes, mergeSort_items h, mapBytes]

theorem Representable.hasHeader {m : KvMap} (h : Representable memory m) :
    HasHeader (mapBytes m) m.toList.length (m.toList.flatMap writeEntry) := by
  refine ⟨rfl, ?_⟩
  rw [Std.ExtTreeMap.length_toList]
  exact h.size_lt

theorem Representable.string_length {m : KvMap} (h : Representable memory m) :
    ∀ value ∈ entryStrings m.toList, value.length < 2 ^ 64 ∧ ∀ k, memory.Fits k value.length := by
  intro value hvalue
  obtain ⟨⟨key, value'⟩, hmem, hvalue⟩ := List.mem_flatMap.mp hvalue
  have hentry := Std.ExtTreeMap.mem_toList_iff_getElem?_eq_some.mp hmem
  obtain ⟨hkeyLen, hvalueLen⟩ := h.length_le key value' hentry
  have hmax := h.maxSize_lt
  have hfits : ∀ {size k}, size ≤ memory.maxSize → memory.room k size = true →
      memory.Fits k size := by
    intro size k hle hroom
    right
    rw [StringMemory.resize, if_neg (by omega), if_pos hroom]
  simp only [List.mem_cons, List.not_mem_nil, or_false] at hvalue
  rcases hvalue with rfl | rfl
  · exact ⟨by omega, fun k => hfits hkeyLen (h.room _ _ hentry k).1⟩
  · exact ⟨by omega, fun k => hfits hvalueLen (h.room _ _ hentry k).2⟩

theorem Representable.readEntries_eq {m : KvMap} (h : Representable memory m) :
    readEntries memory m.toList.length 0 (m.toList.flatMap writeEntry) ∅ = .read m := by
  refine readEntries_eq_read.mpr ⟨m.toList, [], by simp, rfl, fun j hj => ?_, ?_⟩
  · obtain ⟨hlt, hfits⟩ := h.string_length _ (List.getElem_mem hj)
    exact ⟨hlt, hfits _⟩
  · rw [← Std.ExtTreeMap.ofList_eq_foldl, ofList_toList]

theorem readEntries_append_thrown {count : Nat} {bytes : Bytes} {kv : KvMap}
    {exception : StdException} (h : readEntries memory count k bytes kv = .thrown exception)
    (tail : Bytes) : ∃ exception', readEntries memory count k (bytes ++ tail) kv =
      .thrown exception' := by
  obtain ⟨j, size, rest, ⟨strings, rfl, hfield⟩, hno⟩ := readEntries_eq_thrown.mp ⟨_, h⟩
  exact readEntries_eq_thrown.mpr ⟨j, size, rest ++ tail, ⟨strings, by simp, hfield⟩, hno⟩

/-- A string that fits is told apart from what follows it. -/
theorem writeString_append_inj {value value' rest rest' : Bytes} (hlt : value.length < 2 ^ 64)
    (hlt' : value'.length < 2 ^ 64) (h : writeString value ++ rest = writeString value' ++ rest') :
    rest = rest' := by
  have hfits : ∀ size < 2 ^ 64, StringMemory.Fits ⟨2 ^ 64, fun _ _ => true⟩ 0 size := by
    intro size hsize
    right
    rw [StringMemory.resize, if_neg (by simp only; omega), if_pos rfl]
  have hread := readString_eq_read.mpr ⟨h, hlt', hfits _ hlt'⟩
  rw [readString_eq_read.mpr ⟨rfl, hlt, hfits _ hlt⟩] at hread
  exact (StringRead.read.inj hread).2

theorem flatMap_writeEntry_append_inj {entries entries' : List (Bytes × Bytes)}
    {rest rest' : Bytes} (hlen : entries.length = entries'.length)
    (hbound : ∀ value ∈ entryStrings entries, value.length < 2 ^ 64)
    (hbound' : ∀ value ∈ entryStrings entries', value.length < 2 ^ 64)
    (h : entries.flatMap writeEntry ++ rest = entries'.flatMap writeEntry ++ rest') :
    rest = rest' := by
  induction entries generalizing entries' with
  | nil =>
    rw [List.length_nil, eq_comm, List.length_eq_zero_iff] at hlen
    simpa [hlen] using h
  | cons entry entries ih =>
    obtain ⟨entry', entries', rfl⟩ := List.exists_cons_of_length_eq_add_one hlen.symm
    simp only [entryStrings, List.flatMap_cons, List.cons_append, List.nil_append,
      List.forall_mem_cons] at hbound hbound'
    simp only [List.flatMap_cons, writeEntry, List.append_assoc] at h
    have hvalue := writeString_append_inj hbound.1 hbound'.1 h
    have hrest := writeString_append_inj hbound.2.1 hbound'.2.1 hvalue
    exact ih (by simpa using hlen) hbound.2.2 hbound'.2.2 hrest

/-- A file that was cut anywhere is refused. -/
theorem Representable.loadSnapshot_cut {m : KvMap} (h : Representable memory m)
    {filePath : String} (hpath : filePath ≠ "") {bytes : Bytes} (hcut : bytes <+: mapBytes m)
    (hne : bytes ≠ mapBytes m) (kv : KvMap) :
    ∃ result, loadSnapshot memory filePath (.content bytes) kv = .ok (result, kv) ∧
      result.status ≠ .ok := by
  by_cases hheader : ∃ count body, HasHeader bytes count body
  · obtain ⟨count, body, hheader⟩ := hheader
    obtain ⟨tail, htail⟩ := hcut
    -- the header is the one of the whole file, and the body is cut
    have hwhole : HasHeader (mapBytes m) count (body ++ tail) := by
      refine ⟨?_, hheader.2⟩
      rw [← htail, hheader.1, List.append_assoc]
    obtain ⟨rfl, hbody⟩ := h.hasHeader.unique hwhole
    rw [loadSnapshot_of_header hpath hheader]
    cases hpart : readEntries memory m.toList.length 0 body ∅ with
    | thrown exception =>
      have hread := h.readEntries_eq
      obtain ⟨exception', hthrown⟩ := readEntries_append_thrown hpart tail
      rw [hbody, hthrown] at hread
      cases hread
    | failed => exact ⟨_, rfl, by simp⟩
    | read kv' =>
      obtain ⟨entries, rest, rfl, hlen, hfits, -⟩ := readEntries_eq_read.mp hpart
      have hbound : ∀ value ∈ entryStrings entries, value.length < 2 ^ 64 := by
        intro value hvalue
        obtain ⟨j, hj, rfl⟩ := List.getElem_of_mem hvalue
        exact (hfits j hj).1
      have hnil : [] = rest ++ tail :=
        flatMap_writeEntry_append_inj hlen.symm
          (fun value hvalue => (h.string_length value hvalue).1)
          hbound (by rw [List.append_nil, hbody]; simp)
      obtain ⟨-, rfl⟩ := List.append_eq_nil_iff.mp hnil.symm
      exact absurd (by simpa using htail) hne
  · push Not at hheader
    exact loadSnapshot_of_no_header hpath hheader kv

/-- The bytes of a snapshot file are those of the map, in whatever order the hash map yields its
items. Loading them gives the map back, and loading any proper beginning of them changes nothing. -/
theorem snapshot_file_codec {memory : StringMemory} {m : KvMap} (h : Representable memory m)
    {filePath : String} (hpath : filePath ≠ "") :
    ∃ bytes, (∀ items, items.Perm m.toList →
        saveSnapshot filePath items none = (⟨.ok, "ok"⟩, some bytes)) ∧
      (∀ kv, loadSnapshot memory filePath (.content bytes) kv = .ok (⟨.ok, "ok"⟩, m)) ∧
      ∀ cut, cut <+: bytes → cut ≠ bytes → ∀ kv, ∃ result,
        loadSnapshot memory filePath (.content cut) kv = .ok (result, kv) ∧
          result.status ≠ .ok := by
  refine ⟨mapBytes m, fun items hitems => ?_, fun kv => ?_, fun cut hcut hne kv => ?_⟩
  · simp only [saveSnapshot, if_neg hpath, snapshotBytes_eq hitems]
  · rw [loadSnapshot_of_header hpath h.hasHeader, h.readEntries_eq]
  · exact h.loadSnapshot_cut hpath hcut hne kv

/-- The map with the entries `k ↦ v` and `a ↦ |`. -/
def twoEntries : KvMap :=
  ((∅ : KvMap).insert (ascii "k") (ascii "v")).insert (ascii "a") (ascii "|")

theorem snapshot_file_codec_twoEntries :
    Representable wholeMemory twoEntries ∧ ∃ bytes, (∀ items, items.Perm twoEntries.toList →
        saveSnapshot "snapshot.bin" items none = (⟨.ok, "ok"⟩, some bytes)) ∧
      (∀ kv, loadSnapshot wholeMemory "snapshot.bin" (.content bytes) kv =
        .ok (⟨.ok, "ok"⟩, twoEntries)) ∧
      ∀ cut, cut <+: bytes → cut ≠ bytes → ∀ kv, ∃ result,
        loadSnapshot wholeMemory "snapshot.bin" (.content cut) kv = .ok (result, kv) ∧
          result.status ≠ .ok := by
  have hentries : ∀ key value : Bytes, twoEntries[key]? = some value →
      key.length = 1 ∧ value.length = 1 := by
    intro key value hkey
    simp only [twoEntries, Std.ExtTreeMap.getElem?_insert] at hkey
    split at hkey
    · rename_i heq
      obtain rfl := Std.LawfulEqCmp.eq_of_compare heq
      cases hkey
      exact ⟨rfl, rfl⟩
    · split at hkey
      · rename_i heq
        obtain rfl := Std.LawfulEqCmp.eq_of_compare heq
        cases hkey
        exact ⟨rfl, rfl⟩
      · simp at hkey
  have hsize : twoEntries.size ≤ 2 := by
    have hone : ((∅ : KvMap).insert (ascii "k") (ascii "v")).size ≤ 1 :=
      Std.ExtTreeMap.size_insert_le
    exact Std.ExtTreeMap.size_insert_le.trans (by omega)
  have hrep : Representable wholeMemory twoEntries := by
    refine ⟨by decide, by omega, fun key value hkey => ?_, fun _ _ _ _ => ⟨rfl, rfl⟩⟩
    obtain ⟨hkeyLen, hvalueLen⟩ := hentries key value hkey
    rw [hkeyLen, hvalueLen]
    exact ⟨by decide, by decide⟩
  exact ⟨hrep, snapshot_file_codec hrep (by decide)⟩

end

end KvStateMachine

end CquptRaft
