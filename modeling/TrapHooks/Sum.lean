/-!
Sums of thirty-two bits that tell when they do not fit.
-/

namespace TrapHooks

/-- The sum of two numbers of thirty-two bits, if it is one. -/
def sum? (a b : UInt32) : Option UInt32 :=
  if a.toNat + b.toNat < UInt32.size then some (a + b) else none

section
variable {a b c : UInt32}

theorem sum?_of_lt (fits : a.toNat + b.toNat < UInt32.size) : sum? a b = some (a + b) := if_pos fits

theorem eq_add_of_sum? (fits : sum? a b = some c) : c = a + b := by
  simp only [sum?, Option.ite_none_right_eq_some, Option.some.injEq] at fits
  exact fits.2.symm

theorem sum?_eq_some_iff : sum? a b = some c ↔ c.toNat = a.toNat + b.toNat := by
  have : c.toNat < UInt32.size := c.toNat_lt
  unfold sum?
  split
  · rename_i fits
    rw [Option.some.injEq, ← UInt32.toNat_inj, UInt32.toNat_add, Nat.mod_eq_of_lt fits]
    exact eq_comm
  · simp only [reduceCtorEq, false_iff]
    omega

theorem sum?_eq_none_iff : sum? a b = none ↔ UInt32.size ≤ a.toNat + b.toNat := by
  unfold sum?
  split
  · simp only [reduceCtorEq, false_iff]
    omega
  · simp only [true_iff]
    omega

end

end TrapHooks
