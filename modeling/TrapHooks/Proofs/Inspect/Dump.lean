import Mathlib.Algebra.Order.Floor.Div
import TrapHooks.Inspect.Report

/-! Bytes in rows of hexadecimal digits, and how they are read again. A row tells where it starts and has its digits
    behind that; the digits of all rows together are those of the bytes, and from them the bytes come back. -/

namespace TrapHooks

namespace Hex

/-! ### Digits -/

/-- What a digit stands for. -/
def digitOf (c : Char) : Nat :=
  if c.isDigit then c.toNat - '0'.toNat else c.toNat - 'a'.toNat + 10

/-- The number that some digits stand for, most significant first. -/
def value (digits : List Char) : Nat :=
  digits.foldl (fun n c => 16 * n + digitOf c) 0

/-- The bytes that pairs of digits stand for. -/
def toBytes : List Char → List UInt8
  | high :: low :: rest => UInt8.ofNat (16 * digitOf high + digitOf low) :: toBytes rest
  | _ => []

theorem digitOf_digitChar {n : Nat} (digit : n < 16) : digitOf n.digitChar = n :=
  (by decide : ∀ n < 16, digitOf (Nat.digitChar n) = n) n digit

theorem digits_of_ge {n : Nat} (more : 16 ≤ n) : digits n = digits (n / 16) ++ [(n % 16).digitChar] :=
  Nat.toDigits_of_base_le (by decide) more

theorem digits_of_lt {n : Nat} (one : n < 16) : digits n = [n.digitChar] :=
  Nat.toDigits_of_lt_base one

/-- A character that no digit is. -/
def IsApart (c : Char) : Prop :=
  ∀ n, Nat.digitChar n ≠ c

theorem isApart_lineEnd : IsApart '\n' := fun _ => Nat.digitChar_ne '\n' rfl

theorem not_mem_digits {c : Char} (apart : IsApart c) (n : Nat) : c ∉ digits n := by
  induction n using Nat.strongRecOn with
  | ind n ih =>
    by_cases one : n < 16
    · rw [digits_of_lt one, List.mem_singleton]
      exact (apart n).symm
    · rw [digits_of_ge (Nat.le_of_not_lt one), List.mem_append, List.mem_singleton, not_or]
      exact ⟨ih (n / 16) (by omega), (apart _).symm⟩

theorem not_mem_padded {c : Char} (apart : IsApart c) (width n : Nat) : c ∉ padded width n := by
  rw [padded, List.leftpad, List.mem_append, not_or]
  exact ⟨fun zero => apart 0 (List.eq_of_mem_replicate zero).symm, not_mem_digits apart n⟩

theorem not_mem_flatMap_byte {c : Char} (apart : IsApart c) (bytes : List UInt8) : c ∉ bytes.flatMap byte := by
  simp only [List.mem_flatMap, byte, List.mem_cons, List.not_mem_nil, or_false, not_exists, not_and, not_or]
  exact fun b _ => ⟨(apart _).symm, (apart _).symm⟩

theorem toBytes_flatMap_byte (bytes : List UInt8) : toBytes (bytes.flatMap byte) = bytes := by
  induction bytes with
  | nil => rfl
  | cons b rest ih =>
    have small := b.toNat_lt
    have halves : 16 * (b.toNat / 16) + b.toNat % 16 = b.toNat := Nat.div_add_mod b.toNat 16
    rw [List.flatMap_cons, byte, List.cons_append, List.cons_append, List.nil_append, toBytes, ih,
      digitOf_digitChar (by omega), digitOf_digitChar (Nat.mod_lt _ (by decide)), halves, UInt8.ofNat_toNat]

end Hex

namespace Report

/-! ### Rows -/

/-- What a row holds behind its margin of two blanks. -/
def columns (row : String) : List Char :=
  row.toList.drop 2

/-- Where a row says that it starts. -/
def rowStart (row : String) : Nat :=
  Hex.value ((columns row).takeWhile (· ≠ ' '))

/-- The digits of a row's bytes, two blanks behind its start. -/
def rowDigits (row : String) : List Char :=
  ((columns row).dropWhile (· ≠ ' ')).drop 2

/-- The rows show some bytes: there are as many rows as it takes with sixteen bytes each, and all but the last are full;
    the rows start at every sixteenth place, in order; and their digits together are those of the bytes. -/
structure Shows (bytes : List UInt8) (rows : List String) : Prop where
  count : rows.length = bytes.length ⌈/⌉ 16
  full : ∀ k row, rows[k]? = some row → k + 1 < rows.length → (rowDigits row).length = 2 * 16
  starts : rows.map rowStart = (List.range rows.length).map (16 * ·)
  digits : rows.flatMap rowDigits = bytes.flatMap Hex.byte

theorem Shows.toBytes {bytes : List UInt8} {rows : List String} (shows : Shows bytes rows) :
    Hex.toBytes (rows.flatMap rowDigits) = bytes := by
  rw [shows.digits, Hex.toBytes_flatMap_byte]

section
variable (place : Nat) (bytes : List UInt8)

end

end Report

end TrapHooks
