import Mathlib.Data.List.Basic
import Mathlib.Logic.Function.Basic

/-!
# Running checksums

A checksum is the fold of a step over the bytes. When the step loses neither the state nor the
byte, two inputs that differ in one place have different checksums, because what comes behind that
place keeps the states apart.

An input may be read in blocks, each as long as the buffer but the last: the checksum is that of the
whole.
-/

namespace Checksum

variable {S B : Type*} {step : S → B → S}

/-- Different states stay different over the same bytes. -/
theorem foldl_injective (hstate : ∀ b, Function.Injective (step · b)) (bytes : List B) :
    Function.Injective fun s => bytes.foldl step s := by
  induction bytes with
  | nil => exact fun _ _ h => h
  | cons b bytes ih => exact fun s s' h => hstate b (ih h)

/-- Another byte in one place is another checksum. -/
theorem foldl_set_ne (hstate : ∀ b, Function.Injective (step · b))
    (hbyte : ∀ s, Function.Injective (step s)) {bytes : List B} {i : Nat} {b : B}
    (hi : i < bytes.length) (hb : bytes[i]? ≠ some b) (s : S) :
    (bytes.set i b).foldl step s ≠ bytes.foldl step s := by
  induction bytes generalizing i s with
  | nil => exact absurd hi (Nat.not_lt_zero i)
  | cons c bytes ih =>
    cases i with
    | zero =>
      intro heq
      have hstep : step s b = step s c := foldl_injective hstate bytes heq
      exact hb (congrArg some (hbyte s hstep).symm)
    | succ i => exact ih (Nat.lt_of_succ_lt_succ hi) hb (step s c)

/-- The state after the bytes are read into a buffer of this size, pass by pass. A read that does
not fill the buffer has met the end. -/
def foldBlocks (update : S → List B → S) (size : Nat) : Nat → S → List B → S
  | 0, s, _ => s
  | passes + 1, s, bytes =>
    let block := bytes.take size
    if block.length < size then update s block
    else foldBlocks update size passes (update s block) (bytes.drop size)

/-- With a pass for every byte and one more the end is met. -/
theorem foldBlocks_eq {update : S → List B → S}
    (happend : ∀ s bytes rest, update (update s bytes) rest = update s (bytes ++ rest)) {size : Nat}
    (hsize : 0 < size) {passes : Nat} {bytes : List B} (hpasses : bytes.length < passes) (s : S) :
    foldBlocks update size passes s bytes = update s bytes := by
  induction passes generalizing s bytes with
  | zero => exact absurd hpasses (Nat.not_lt_zero _)
  | succ passes ih =>
    rw [foldBlocks]
    split
    · rename_i hshort
      rw [List.length_take] at hshort
      rw [List.take_of_length_le (by omega)]
    · rename_i hfull
      rw [List.length_take] at hfull
      rw [ih (by rw [List.length_drop]; omega), happend, List.take_append_drop]

end Checksum
