import CquptRaft.StateMachine.KvStateMachine

/-!
# Admission of client commands

`RaftNode::ValidateCommandUnlocked` decides which commands `Propose` may put into the log.
An accepted command is applied by every replica from its serialized form, so it must decode
again. It does, except for a `SET` with an empty value: the value check lets it pass, and
the text `"SET|key|"` has no third field.
-/

namespace CquptRaft

structure KvRequestLimits where
  maxKeyBytes : Nat := 256
  maxValueBytes : Nat := 64 * 1024
  maxCommandBytes : Nat := 1024 * 1024
  deriving DecidableEq, Repr

/-- An error carries the text written to `*reason`. -/
def validateKeyUnlocked (limits : KvRequestLimits) (key : Bytes) : Except String Unit :=
  if key.isEmpty then .error "key must not be empty"
  else if key.contains delimiter then .error "key must not contain '|'"
  else if key.length > limits.maxKeyBytes then .error "key size exceeds limit"
  else .ok ()

def validateValueUnlocked (limits : KvRequestLimits) (value : Bytes) : Except String Unit :=
  if value.contains delimiter then .error "value must not contain '|'"
  else if value.length > limits.maxValueBytes then .error "value size exceeds limit"
  else .ok ()

def validateCommandUnlocked (limits : KvRequestLimits) (command : Command) :
    Except String Unit :=
  if !command.isValid then .error "invalid command"
  else
    match validateKeyUnlocked limits command.key,
        if command.type = .set then validateValueUnlocked limits command.value else .ok () with
    | .error reason, _ => .error reason
    | .ok _, .error reason => .error reason
    | .ok _, .ok _ =>
      let serialized := command.serialize
      if serialized.isEmpty then .error "command serialization result is empty"
      else if serialized.length > limits.maxCommandBytes then
        .error "command size exceeds limit"
      else .ok ()

theorem validateKeyUnlocked_ok {limits : KvRequestLimits} {key : Bytes}
    (h : validateKeyUnlocked limits key = .ok ()) : key ≠ [] ∧ delimiter ∉ key := by
  unfold validateKeyUnlocked at h
  split_ifs at h with he hd hs
  exact ⟨by simpa using he, by simpa using hd⟩

theorem validateValueUnlocked_ok {limits : KvRequestLimits} {value : Bytes}
    (h : validateValueUnlocked limits value = .ok ()) : delimiter ∉ value := by
  unfold validateValueUnlocked at h
  split_ifs at h with hd hs
  simpa using hd

/-- What acceptance says about the fields of a command. -/
theorem validateCommandUnlocked_ok {limits : KvRequestLimits} {c : Command}
    (h : validateCommandUnlocked limits c = .ok ()) :
    c.type ≠ .unknown ∧ c.key ≠ [] ∧ delimiter ∉ c.key ∧
      (c.type = .set → delimiter ∉ c.value) := by
  unfold validateCommandUnlocked at h
  split at h
  case isTrue => exact absurd h (by simp)
  rename_i hvalid
  split at h
  case h_1 => exact absurd h (by simp)
  case h_2 => exact absurd h (by simp)
  case h_3 hkey hvalue =>
    obtain ⟨hne, hd⟩ := validateKeyUnlocked_ok hkey
    refine ⟨fun e => hvalid (by simp [Command.isValid, e]), hne, hd, fun hset => ?_⟩
    rw [if_pos hset] at hvalue
    exact validateValueUnlocked_ok hvalue

/-- The command decodes to itself from its log record, and applying the record succeeds on
every state. -/
def Command.SurvivesLog (c : Command) : Prop :=
  (∃ d, Command.deserialize c.serialize = some d ∧ d.type = c.type ∧ d.key = c.key ∧
    (c.type = .set → d.value = c.value)) ∧
  ∀ kv, ∃ kv', KvStateMachine.apply kv c.serialize = .ok kv'

/-- An accepted command survives the log exactly when it is not a `SET` of the empty
value. -/
theorem accepted_survivesLog_iff (limits : KvRequestLimits) (c : Command)
    (h : validateCommandUnlocked limits c = .ok ()) :
    c.SurvivesLog ↔ (c.type = .set → c.value ≠ []) := by
  obtain ⟨hty, hne, hk, hv⟩ := validateCommandUnlocked_ok h
  obtain ⟨ty, key, value⟩ := c
  cases ty with
  | unknown => exact absurd rfl hty
  | delete =>
    have hde : Command.deserialize (Command.serialize ⟨.delete, key, value⟩) = _ :=
      Command.deserialize_serialize_delete hne hk
    exact ⟨by simp, fun _ => ⟨⟨_, hde, rfl, rfl, by simp⟩,
      fun kv => ⟨_, KvStateMachine.apply_delete hne hk⟩⟩⟩
  | set =>
    have hde := Command.deserialize_serialize_set hne hk (hv rfl)
    constructor
    · rintro ⟨⟨d, hd, -⟩, -⟩ - hempty
      rw [hde, if_pos hempty] at hd
      exact absurd hd (by simp)
    · intro hvalue
      rw [if_neg (hvalue rfl)] at hde
      refine ⟨⟨_, hde, rfl, rfl, fun _ => rfl⟩, fun kv => ⟨kv.insert key value, ?_⟩⟩
      rw [KvStateMachine.apply_set hne hk (hv rfl), if_neg (hvalue rfl)]

theorem accepted_survivesLog_iff_default :
    (Command.mk .set (ascii "x") (ascii "100")).SurvivesLog ↔
      (CommandType.set = .set → ascii "100" ≠ []) :=
  accepted_survivesLog_iff {} ⟨.set, ascii "x", ascii "100"⟩ (by decide)

/-- Under the default limits `SET k ""` is accepted, and no replica can apply it. -/
theorem accepted_empty_value_not_survivesLog :
    validateCommandUnlocked {} ⟨.set, ascii "k", []⟩ = .ok () ∧
      ¬ (Command.mk .set (ascii "k") []).SurvivesLog := by
  refine ⟨by decide, ?_⟩
  rintro ⟨⟨d, hd, -⟩, -⟩
  have hnone : Command.deserialize (Command.serialize ⟨.set, ascii "k", []⟩) = none := by decide
  simp [hnone] at hd

end CquptRaft
