import TrapHooks.Proofs.Device.Memory

/-! How far the test of a device's range can be trusted. The end of the device is told exactly, also where it lies
    beyond the addresses of thirty-two bits. The end of an access is a sum of sixty-four bits, which an access of nearly
    2^64 bytes does not fit; the test then gives no answer, unless the access starts before the device. -/

namespace TrapHooks.Region

variable (r : Region) (address : UInt32) (size : UInt64)

/-- The test says yes exactly to the accesses that lie within the device, and no to the others, but for those that
    start at the device or behind it and do not end within sixty-four bits, to which it says nothing. -/
theorem contains_exact_iff :
    (r.start.toUInt64 + r.size.toUInt64).toNat = r.start.toNat + r.size.toNat ∧
    (r.contains address size = some true ↔ FrameBuffer.Within r.start r.size address size.toNat) ∧
    (r.contains address size = none ↔ r.start ≤ address ∧ 2 ^ 64 ≤ address.toNat + size.toNat) ∧
    (r.contains address size = some false ↔ ¬FrameBuffer.Within r.start r.size address size.toNat ∧
      ¬(r.start ≤ address ∧ 2 ^ 64 ≤ address.toNat + size.toNat)) := by
  have start := r.start.toNat_lt
  have length := r.size.toNat_lt
  refine ⟨toNat_end r, ?_⟩
  rw [contains_eq, FrameBuffer.Within, UInt32.le_iff_toNat_le]
  by_cases behind : r.start.toNat ≤ address.toNat
  · rw [if_pos behind]
    by_cases short : address.toNat + size.toNat < 2 ^ 64
    · rw [if_pos short]
      simp only [behind, Nat.not_le_of_lt short]
      simp
    · rw [if_neg short]
      have beyond : ¬address.toNat + size.toNat ≤ r.start.toNat + r.size.toNat := by omega
      simp only [behind, beyond, Nat.le_of_not_lt short]
      simp
  · rw [if_neg behind]
    simp [behind]

/-- An access of 2^64 - 8 bytes at the middle of a device of sixteen bytes. -/
theorem contains_overrun :
    let r : Region := { start := 0x1000, size := 0x10 }
    let size : UInt64 := 0xFFFFFFFFFFFFFFF8
    r.contains 0x1008 size = none ∧ ¬FrameBuffer.Within r.start r.size 0x1008 size.toNat ∧
      (0x1008 : UInt32).toNat + size.toNat = 2 ^ 64 + 0x1000 := by
  decide

end TrapHooks.Region
