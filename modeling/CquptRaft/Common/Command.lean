import CquptRaft.Common.Bytes

/-!
# Client commands and their text codec

`Command.serialize` joins the fields of a command with `'|'`, and `Command.deserialize`
splits the text again with the loop `while (std::getline(ss, item, delim))`. The loop does
not produce a field for the empty text behind a trailing delimiter, so `split` is not an
inverse of joining: `"SET|k|"` has two fields, not three.
-/

namespace CquptRaft

inductive CommandType where
  | unknown | set | delete
  deriving DecidableEq, Repr

structure Command where
  type : CommandType
  key : Bytes
  value : Bytes
  deriving DecidableEq, Repr

/-- The byte `'|'`. -/
def delimiter : UInt8 := 0x7c

/-- One run of the `std::getline` loop: `item` is the field read so far and `got` tells
whether the current call has extracted a byte. A call that extracts nothing before the end
of the stream fails, which ends the loop without a field. -/
def splitLoop (delim : UInt8) (item : Bytes) (got : Bool) : Bytes → List Bytes
  | [] => if got then [item] else []
  | c :: cs =>
    if c = delim then item :: splitLoop delim [] false cs
    else splitLoop delim (item ++ [c]) true cs

def split (str : Bytes) (delim : UInt8) : List Bytes := splitLoop delim [] false str

@[simp] theorem split_nil (delim : UInt8) : split [] delim = [] := rfl

theorem splitLoop_cons_delim {delim : UInt8} (s rest : Bytes) (item : Bytes) (got : Bool)
    (h : delim ∉ s) :
    splitLoop delim item got (s ++ delim :: rest) = (item ++ s) :: split rest delim := by
  induction s generalizing item got with
  | nil => simp [splitLoop, split]
  | cons c cs ih =>
    have hc : c ≠ delim := fun e => h (by simp [e])
    have hcs : delim ∉ cs := fun e => h (List.mem_cons_of_mem _ e)
    simp [splitLoop, hc, ih _ _ hcs]

/-- A field without the delimiter is read off up to the delimiter that closes it. -/
theorem split_cons {delim : UInt8} (s rest : Bytes) (h : delim ∉ s) :
    split (s ++ delim :: rest) delim = s :: split rest delim := by
  simpa [split] using splitLoop_cons_delim s rest [] false h

theorem splitLoop_last {delim : UInt8} (s item : Bytes) (got : Bool) (h : delim ∉ s) :
    splitLoop delim item got s = if got || !s.isEmpty then [item ++ s] else [] := by
  induction s generalizing item got with
  | nil => simp [splitLoop]
  | cons c cs ih =>
    have hc : c ≠ delim := fun e => h (by simp [e])
    have hcs : delim ∉ cs := fun e => h (List.mem_cons_of_mem _ e)
    simp [splitLoop, hc, ih _ _ hcs]

/-- The text after the last delimiter is a field only when it is not empty. -/
theorem split_last {delim : UInt8} (s : Bytes) (h : delim ∉ s) :
    split s delim = if s = [] then [] else [s] := by
  rw [split, splitLoop_last s [] false h]
  cases s <;> simp

namespace Command

def isValid (c : Command) : Bool :=
  match c.type with
  | .set => !c.key.isEmpty
  | .delete => !c.key.isEmpty
  | .unknown => false

def serialize (c : Command) : Bytes :=
  match c.type with
  | .set => ascii "SET|" ++ c.key ++ ascii "|" ++ c.value
  | .delete => ascii "DEL|" ++ c.key ++ ascii "|"
  | .unknown => []

/-- `none` stands for a `false` result. -/
def deserialize (data : Bytes) : Option Command :=
  let parts := split data delimiter
  if parts = [] then none
  else if parts[0]! = ascii "SET" then
    if parts.length < 3 then none
    else
      let out : Command := ⟨.set, parts[1]!, parts[2]!⟩
      if out.isValid then some out else none
  else if parts[0]! = ascii "DEL" then
    if parts.length < 2 then none
    else
      let out : Command := ⟨.delete, parts[1]!, []⟩
      if out.isValid then some out else none
  else none

theorem split_serialize_set {key value : Bytes} (hk : delimiter ∉ key) (hv : delimiter ∉ value) :
    split (serialize ⟨.set, key, value⟩) delimiter =
      ascii "SET" :: key :: if value = [] then [] else [value] := by
  have hs : serialize ⟨.set, key, value⟩ =
      ascii "SET" ++ delimiter :: (key ++ delimiter :: value) := by
    simp [serialize, show ascii "SET|" = ascii "SET" ++ [delimiter] by decide,
      show ascii "|" = [delimiter] by decide]
  rw [hs, split_cons _ _ (by decide), split_cons _ _ hk, split_last _ hv]

theorem split_serialize_delete {key value : Bytes} (hk : delimiter ∉ key) :
    split (serialize ⟨.delete, key, value⟩) delimiter = [ascii "DEL", key] := by
  have hs : serialize ⟨.delete, key, value⟩ =
      ascii "DEL" ++ delimiter :: (key ++ delimiter :: []) := by
    simp [serialize, show ascii "DEL|" = ascii "DEL" ++ [delimiter] by decide,
      show ascii "|" = [delimiter] by decide]
  rw [hs, split_cons _ _ (by decide), split_cons _ _ hk, split_nil]

/-- A `SET` command decodes exactly when its value is not empty. -/
theorem deserialize_serialize_set {key value : Bytes} (hne : key ≠ [])
    (hk : delimiter ∉ key) (hv : delimiter ∉ value) :
    deserialize (serialize ⟨.set, key, value⟩) =
      if value = [] then none else some ⟨.set, key, value⟩ := by
  rw [deserialize, split_serialize_set hk hv]
  split_ifs <;> simp_all [isValid]

theorem deserialize_serialize_delete {key value : Bytes} (hne : key ≠ [])
    (hk : delimiter ∉ key) :
    deserialize (serialize ⟨.delete, key, value⟩) = some ⟨.delete, key, []⟩ := by
  rw [deserialize, split_serialize_delete hk]
  simp [isValid, hne, show ascii "DEL" ≠ ascii "SET" by decide]

end Command

end CquptRaft
