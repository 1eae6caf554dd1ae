import TrapHooks.Hook.Table

/-!
What the engine remembers of shared libraries. A library's handle is used again for another library
once the first is unloaded, which the engine cannot see; so what it knows of a handle can be marked
stale, and is then asked for again at the handle's next use.
-/

namespace TrapHooks

/-- What is remembered under one handle. A stale slot still holds its old table, which nobody is given. -/
structure LibrarySlot (ρ : Type) where
  table : Option (HookTable ρ) := none
  stale : Bool := true

namespace LibrarySlot

variable {ρ : Type}

/-- What is known of the handle: its table, or that it has none; nothing if it is stale. -/
def known? (s : LibrarySlot ρ) : Option (Option (HookTable ρ)) :=
  if s.stale then none else some s.table

def age (s : LibrarySlot ρ) : LibrarySlot ρ :=
  { s with stale := true }

@[simp] theorem known?_new : ({} : LibrarySlot ρ).known? = none := rfl

@[simp] theorem known?_age (s : LibrarySlot ρ) : s.age.known? = none := rfl

end LibrarySlot

structure LibraryCache (ρ : Type) where
  /-- A slot for each handle up to the largest one that was ever in use. -/
  slots : Array (LibrarySlot ρ) := #[]

namespace LibraryCache

variable {ρ : Type}

def size (c : LibraryCache ρ) : Nat :=
  c.slots.size

def isEmpty (c : LibraryCache ρ) : Bool :=
  c.slots.isEmpty

/-- Grows so far that the handle has a slot; the new slots are stale. -/
def reach (refnum : UInt16) (c : LibraryCache ρ) : LibraryCache ρ :=
  { slots := c.slots ++ Array.replicate (refnum.toNat + 1 - c.slots.size) {} }

/-- What is known of a handle, or `none` if it is stale. -/
def find? (refnum : UInt16) (c : LibraryCache ρ) : Option (Option (HookTable ρ)) :=
  c.slots[refnum.toNat]?.bind (·.known?)

/-- What is known of a handle, or `none` if it is stale. The handle has a slot from then on. -/
def visit (refnum : UInt16) (c : LibraryCache ρ) : Option (Option (HookTable ρ)) × LibraryCache ρ :=
  (c.find? refnum, c.reach refnum)

/-- Keeps what was found out about a handle, which thereby is no longer stale. -/
def refresh (refnum : UInt16) (table : Option (HookTable ρ)) (c : LibraryCache ρ) : LibraryCache ρ :=
  { slots := (c.reach refnum).slots.setIfInBounds refnum.toNat { table := table, stale := false } }

/-- A handle without a slot is left without one: it is stale as it is. -/
def markDirty (refnum : UInt16) (c : LibraryCache ρ) : LibraryCache ρ :=
  { slots := c.slots.modify refnum.toNat (·.age) }

def markAllDirty (c : LibraryCache ρ) : LibraryCache ρ :=
  { slots := c.slots.map (·.age) }

@[simp] theorem size_empty : ({} : LibraryCache ρ).size = 0 := rfl

@[simp] theorem size_reach (r : UInt16) (c : LibraryCache ρ) : (c.reach r).size = max c.size (r.toNat + 1) := by
  simp only [size, reach, Array.size_append, Array.size_replicate]
  omega

@[simp] theorem size_refresh (r : UInt16) (table : Option (HookTable ρ)) (c : LibraryCache ρ) :
    (c.refresh r table).size = max c.size (r.toNat + 1) := by
  rw [← size_reach]
  exact Array.size_setIfInBounds

@[simp] theorem size_markDirty (r : UInt16) (c : LibraryCache ρ) : (c.markDirty r).size = c.size :=
  Array.size_modify

@[simp] theorem size_markAllDirty (c : LibraryCache ρ) : c.markAllDirty.size = c.size :=
  Array.size_map

@[simp] theorem find?_empty (r : UInt16) : ({} : LibraryCache ρ).find? r = none := by
  simp [find?]

@[simp] theorem find?_reach (r s : UInt16) (c : LibraryCache ρ) : (c.reach s).find? r = c.find? r := by
  unfold find? reach
  rw [Array.getElem?_append]
  split
  · rfl
  · rename_i beyond
    rw [Array.getElem?_eq_none (Nat.le_of_not_lt beyond), Array.getElem?_replicate]
    split
    · exact LibrarySlot.known?_new
    · rfl

theorem find?_refresh (r s : UInt16) (table : Option (HookTable ρ)) (c : LibraryCache ρ) :
    (c.refresh s table).find? r = if s = r then some table else c.find? r := by
  rw [← find?_reach r s c]
  unfold find? refresh
  rw [Array.getElem?_setIfInBounds]
  by_cases here : s = r
  · subst here
    have inside : s.toNat < (c.reach s).size := by
      rw [size_reach]
      omega
    simp [show s.toNat < (c.reach s).slots.size from inside, LibrarySlot.known?]
  · simp [here, UInt16.toNat_inj]

theorem find?_markDirty (r s : UInt16) (c : LibraryCache ρ) :
    (c.markDirty s).find? r = if s = r then none else c.find? r := by
  unfold find? markDirty
  rw [Array.getElem?_modify]
  by_cases here : s = r
  · subst here
    cases c.slots[s.toNat]? <;> simp
  · simp [here, UInt16.toNat_inj]

@[simp] theorem find?_markAllDirty (r : UInt16) (c : LibraryCache ρ) : c.markAllDirty.find? r = none := by
  unfold find? markAllDirty
  rw [Array.getElem?_map]
  cases c.slots[r.toNat]? <;> simp

end LibraryCache

end TrapHooks
