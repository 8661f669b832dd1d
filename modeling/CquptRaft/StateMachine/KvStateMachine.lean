import Std.Data.ExtTreeMap
import CquptRaft.Common.Command

/-!
# The key-value state machine

`IStateMachine` is the interface the node programs against. `KvStateMachine` implements it
over a finite map. The hash map of the source is a finite map here: nothing in the program
depends on its iteration order, since `SaveSnapshot` sorts the items first.
-/

namespace CquptRaft

/-- The internal command a new leader appends. -/
def kInternalNoOpCommand : Bytes := ascii "__raft_internal_noop__"

/-- What a node needs of its state machine. `Image` is the content of a snapshot file, and
loading what was saved gives the saved state back. -/
structure IStateMachine (σ : Type) where
  Image : Type
  initial : σ
  apply : σ → Bytes → Except String σ
  saveSnapshot : σ → Image
  loadSnapshot : Image → Option σ
  load_save : ∀ s, loadSnapshot (saveSnapshot s) = some s

namespace IStateMachine

variable {σ : Type} (sm : IStateMachine σ)

/-- The commands, applied in order; `none` when one of them fails. -/
def applyAll (s : σ) (commands : List Bytes) : Option σ :=
  commands.foldlM (fun s command => (sm.apply s command).toOption) s

@[simp] theorem applyAll_nil (s : σ) : sm.applyAll s [] = some s := rfl

theorem applyAll_cons (s : σ) (command : Bytes) (rest : List Bytes) :
    sm.applyAll s (command :: rest) =
      (sm.apply s command).toOption.bind fun s' => sm.applyAll s' rest := by
  simp [applyAll, List.foldlM_cons]

theorem applyAll_append (s : σ) (commands rest : List Bytes) :
    sm.applyAll s (commands ++ rest) =
      (sm.applyAll s commands).bind fun s' => sm.applyAll s' rest := by
  simp [applyAll, List.foldlM_append]

end IStateMachine

/-- The map `kv_`. -/
abbrev KvMap := Std.ExtTreeMap Bytes Bytes

namespace KvStateMachine

def apply (kv : KvMap) (commandData : Bytes) : Except String KvMap :=
  if commandData = kInternalNoOpCommand then .ok kv
  else
    match Command.deserialize commandData with
    | none => .error "failed to deserialize command"
    | some cmd =>
      if !cmd.isValid then .error "invalid command"
      else
        match cmd.type with
        | .set => .ok (kv.insert cmd.key cmd.value)
        | .delete => .ok (kv.erase cmd.key)
        | .unknown => .error "unknown command type"

theorem apply_set {kv : KvMap} {key value : Bytes} (hne : key ≠ [])
    (hk : delimiter ∉ key) (hv : delimiter ∉ value) :
    apply kv (Command.serialize ⟨.set, key, value⟩) =
      if value = [] then .error "failed to deserialize command"
      else .ok (kv.insert key value) := by
  have hno : Command.serialize ⟨.set, key, value⟩ ≠ kInternalNoOpCommand := fun e => by
    simpa [Command.serialize, kInternalNoOpCommand, ascii] using congrArg List.head? e
  rw [apply, if_neg hno, Command.deserialize_serialize_set hne hk hv]
  split_ifs with h <;> simp [Command.isValid, hne]

theorem apply_delete {kv : KvMap} {key value : Bytes} (hne : key ≠ [])
    (hk : delimiter ∉ key) :
    apply kv (Command.serialize ⟨.delete, key, value⟩) = .ok (kv.erase key) := by
  have hno : Command.serialize ⟨.delete, key, value⟩ ≠ kInternalNoOpCommand := fun e => by
    simpa [Command.serialize, kInternalNoOpCommand, ascii] using congrArg List.head? e
  rw [apply, if_neg hno, Command.deserialize_serialize_delete hne hk]
  simp [Command.isValid, hne]

end KvStateMachine

/-- `KvStateMachine` as the node sees it. A snapshot file is identified with the map it
encodes. -/
def kvStateMachine : IStateMachine KvMap where
  Image := KvMap
  initial := ∅
  apply := KvStateMachine.apply
  saveSnapshot := id
  loadSnapshot := some
  load_save _ := rfl

end CquptRaft
