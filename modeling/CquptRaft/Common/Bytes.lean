import Mathlib.Data.List.Basic
import Mathlib.Data.UInt

/-!
# Byte strings

`std::string` is a sequence of bytes. Every text the program stores, sends or compares
is a `Bytes`; the literals of the source are written with `ascii`.
-/

namespace CquptRaft

/-- The contents of a `std::string`. -/
abbrev Bytes := List UInt8

/-- The bytes of an ASCII literal of the source. -/
def ascii (s : String) : Bytes := s.toList.map fun c => UInt8.ofNat c.toNat

example : ascii "SET" = [0x53, 0x45, 0x54] := by decide

end CquptRaft
