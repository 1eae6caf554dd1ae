/-!
Numbers as byte strings of a fixed width, most significant byte first.
-/

namespace TrapHooks.BigEndian

/-- The lowest `width` bytes of a number. -/
def encode : Nat → Nat → List UInt8
  | 0, _ => []
  | width + 1, n => UInt8.ofNat (n >>> (8 * width)) :: encode width n

/-- The number that a byte string stands for. -/
def decode (bytes : List UInt8) : Nat :=
  bytes.foldl (fun n b => n * 256 + b.toNat) 0

/-- Takes a number of the given width off the front; `none` if the bytes run out before its end. -/
def read? (width : Nat) (bytes : List UInt8) : Option (Nat × List UInt8) :=
  if bytes.length < width then none else some (decode (bytes.take width), bytes.drop width)

@[simp] theorem length_encode (width n : Nat) : (encode width n).length = width := by
  induction width with
  | zero => rfl
  | succ width ih => simp [encode, ih]

/-- A reader takes exactly its width and leaves what follows. -/
theorem read?_append {width : Nat} {bytes : List UInt8} (full : bytes.length = width) (rest : List UInt8) :
    read? width (bytes ++ rest) = some (decode bytes, rest) := by
  subst full
  simp [read?]

/-- A reader fails exactly on fewer bytes than its width. -/
theorem read?_eq_none_iff {width : Nat} {bytes : List UInt8} : read? width bytes = none ↔ bytes.length < width := by
  unfold read?
  split <;> simp_all

end TrapHooks.BigEndian
