/-!
Hexadecimal text, in lower case: numbers with a marker and a least number of digits, and bytes as
two digits each.
-/

namespace TrapHooks.Hex

/-- The digits of a number, most significant first and none superfluous. -/
def digits (n : Nat) : List Char :=
  Nat.toDigits 16 n

/-- The digits of a number, filled with zeros on the left up to a width. -/
def padded (width n : Nat) : List Char :=
  (digits n).leftpad width '0'

/-- A number behind its marker, as `0x1f`. -/
def number (n : Nat) : String :=
  "0x" ++ String.ofList (digits n)

/-- A sixteen-bit word with all its digits, as `0x001f`. -/
def word (w : UInt16) : String :=
  "0x" ++ String.ofList (padded 4 w.toNat)

/-- A thirty-two-bit value with all its digits, as `0x0000001f`. -/
def long (v : UInt32) : String :=
  "0x" ++ String.ofList (padded 8 v.toNat)

/-- The two digits of a byte, high half first. -/
def byte (b : UInt8) : List Char :=
  [Nat.digitChar (b.toNat / 16), Nat.digitChar (b.toNat % 16)]

def ofBytes (bytes : List UInt8) : String :=
  String.ofList (bytes.flatMap byte)

end TrapHooks.Hex
