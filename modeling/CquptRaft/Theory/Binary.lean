import Mathlib.Data.Nat.Digits.Lemmas
import Mathlib.Data.UInt

/-!
# Fixed-width numbers and decimal texts

A number is stored as a fixed count of bytes, the least significant first, and read back from
the front of a byte string. In a file name it is a decimal text with leading zeros.
-/

namespace Binary

/-! ## Fixed width -/

/-- The low `k` bytes of `n`. -/
def toBytes : Nat → Nat → List UInt8
  | 0, _ => []
  | k + 1, n => UInt8.ofNat n :: toBytes k (n / 256)

def ofBytes : List UInt8 → Nat
  | [] => 0
  | b :: bytes => b.toNat + 256 * ofBytes bytes

/-- The first `k` bytes, as a number, and the bytes behind them. -/
def readNat (k : Nat) (bytes : List UInt8) : Option (Nat × List UInt8) :=
  if k ≤ bytes.length then some (ofBytes (bytes.take k), bytes.drop k) else none

@[simp] theorem length_toBytes (k n : Nat) : (toBytes k n).length = k := by
  induction k generalizing n with
  | zero => rfl
  | succ k ih => rw [toBytes, List.length_cons, ih]

theorem ofBytes_toBytes (k n : Nat) : ofBytes (toBytes k n) = n % 256 ^ k := by
  induction k generalizing n with
  | zero => simp [toBytes, ofBytes, Nat.mod_one]
  | succ k ih =>
    have hpow : 256 ^ (k + 1) = 256 * 256 ^ k := Nat.pow_succ'
    rw [toBytes, ofBytes, ih, UInt8.toNat_ofNat', hpow, Nat.mod_mul (a := 256)]

/-- A number that fits is read back from where it was written. -/
theorem readNat_toBytes {k n : Nat} (h : n < 256 ^ k) (rest : List UInt8) :
    readNat k (toBytes k n ++ rest) = some (n, rest) := by
  have hlen : k ≤ (toBytes k n ++ rest).length := by simp
  rw [readNat, if_pos hlen, List.take_left' (length_toBytes k n),
    List.drop_left' (length_toBytes k n), ofBytes_toBytes, Nat.mod_eq_of_lt h]

theorem toBytes_ofBytes (bytes : List UInt8) : toBytes bytes.length (ofBytes bytes) = bytes := by
  induction bytes with
  | nil => rfl
  | cons b bytes ih =>
    have hlt := b.toNat_lt
    have hdiv : (b.toNat + 256 * ofBytes bytes) / 256 = ofBytes bytes := by omega
    have hbyte : UInt8.ofNat (b.toNat + 256 * ofBytes bytes) = b := by
      refine UInt8.toNat_inj.mp ?_
      rw [UInt8.toNat_ofNat']
      omega
    rw [List.length_cons, toBytes, ofBytes, hdiv, ih, hbyte]

theorem ofBytes_lt (bytes : List UInt8) : ofBytes bytes < 256 ^ bytes.length := by
  rw [← toBytes_ofBytes bytes, ofBytes_toBytes, length_toBytes]
  exact Nat.mod_lt _ (Nat.pow_pos (by omega))

/-- What is read at the front of a byte string is what was written there. -/
theorem readNat_eq_some_iff {k n : Nat} {bytes rest : List UInt8} :
    readNat k bytes = some (n, rest) ↔ bytes = toBytes k n ++ rest ∧ n < 256 ^ k := by
  constructor
  · intro h
    unfold readNat at h
    split at h
    · rename_i hle
      cases h
      have hlen : (bytes.take k).length = k := List.length_take_of_le hle
      have hback := toBytes_ofBytes (bytes.take k)
      have hlt := ofBytes_lt (bytes.take k)
      rw [hlen] at hback hlt
      exact ⟨by rw [hback, List.take_append_drop], hlt⟩
    · cases h
  · rintro ⟨rfl, hlt⟩
    exact readNat_toBytes hlt rest

/-! ## Decimal texts -/

/-- The character of a decimal digit. -/
def digitChar (d : Nat) : UInt8 := UInt8.ofNat (48 + d)

def isDigit (c : UInt8) : Bool := 48 ≤ c && c ≤ 57

/-- `n` in decimal, with zeros in front up to `width` characters. -/
def paddedDecimal (width n : Nat) : List UInt8 :=
  let digits := (Nat.digits 10 n).reverse.map digitChar
  List.replicate (width - digits.length) 48 ++ digits

/-- The number that a text of decimal digits stands for. -/
def decimalValue (text : List UInt8) : Nat :=
  Nat.ofDigits 10 (text.reverse.map fun c => c.toNat - 48)

theorem toNat_digitChar {d : Nat} (h : d < 10) : (digitChar d).toNat = 48 + d := by
  rw [digitChar, UInt8.toNat_ofNat', Nat.mod_eq_of_lt (by omega)]

theorem isDigit_digitChar {d : Nat} (h : d < 10) : isDigit (digitChar d) = true := by
  have hval := toNat_digitChar h
  simp only [isDigit, Bool.and_eq_true, decide_eq_true_eq, UInt8.le_iff_toNat_le, hval]
  exact ⟨Nat.le_add_right _ _, by show 48 + d ≤ 57; omega⟩

theorem paddedDecimal_isDigit (width n : Nat) :
    (paddedDecimal width n).all isDigit = true := by
  rw [List.all_eq_true]
  intro c hc
  rcases List.mem_append.mp hc with hzero | hdigit
  · rw [List.eq_of_mem_replicate hzero]
    decide
  · obtain ⟨d, hd, rfl⟩ := List.mem_map.mp hdigit
    exact isDigit_digitChar (Nat.digits_lt_base (by omega) (List.mem_reverse.mp hd))

theorem length_paddedDecimal (width n : Nat) : width ≤ (paddedDecimal width n).length := by
  simp only [paddedDecimal, List.length_append, List.length_replicate]
  omega

/-- Leading zeros do not count. -/
theorem decimalValue_paddedDecimal (width n : Nat) :
    decimalValue (paddedDecimal width n) = n := by
  have hdigits : ((Nat.digits 10 n).map digitChar).map (fun c => c.toNat - 48) =
      Nat.digits 10 n := by
    rw [List.map_map]
    refine (List.map_congr_left fun d hd => ?_).trans (List.map_id _)
    simp [toNat_digitChar (Nat.digits_lt_base (by omega) hd)]
  simp only [decimalValue, paddedDecimal, List.reverse_append, List.reverse_replicate,
    List.map_append, List.map_reverse, List.reverse_reverse, List.map_replicate, hdigits]
  rw [show (48 : UInt8).toNat - 48 = 0 from rfl, Nat.ofDigits_append, Nat.ofDigits_replicate_zero,
    Nat.mul_zero, Nat.add_zero, Nat.ofDigits_digits]

end Binary
