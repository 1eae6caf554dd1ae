import Std.Data.ExtTreeMap
import TrapHooks.Config
import TrapHooks.Hook

/-!
Hook tables: the head and the tail routines of one module, each by call number.
-/

namespace TrapHooks

structure HookTable (ρ : Type) where
  name : String
  heads : Std.ExtTreeMap UInt16 (HeadRoutine ρ) := ∅
  tails : Std.ExtTreeMap UInt16 ρ := ∅

namespace HookTable

variable {ρ : Type}

/-- Adds a head routine, in the place of one with the same number. -/
def withHead (index : UInt16) (r : HeadRoutine ρ) (t : HookTable ρ) : HookTable ρ :=
  { t with heads := t.heads.insert index r }

/-- Adds a tail routine, in the place of one with the same number. -/
def withTail (index : UInt16) (r : ρ) (t : HookTable ρ) : HookTable ρ :=
  { t with tails := t.tails.insert index r }

/-- Adds all routines of a second table; where both have one, the second's stays. -/
def merge (t other : HookTable ρ) : HookTable ρ :=
  { t with heads := t.heads ∪ other.heads, tails := t.tails ∪ other.tails }

@[simp] theorem name_merge (t other : HookTable ρ) : (t.merge other).name = t.name := rfl

theorem heads_merge (t other : HookTable ρ) (index : UInt16) :
    (t.merge other).heads[index]? = other.heads[index]?.or t.heads[index]? := by
  simp [merge, Std.ExtTreeMap.getElem?_union]

theorem tails_merge (t other : HookTable ρ) (index : UInt16) :
    (t.merge other).tails[index]? = other.tails[index]?.or t.tails[index]? := by
  simp [merge, Std.ExtTreeMap.getElem?_union]

/-- How many routines there are, heads and tails together. -/
def size (t : HookTable ρ) : Nat :=
  t.heads.size + t.tails.size

def isEmpty (t : HookTable ρ) : Bool :=
  t.heads.isEmpty && t.tails.isEmpty

def head? (t : HookTable ρ) (index : UInt16) : Option (HeadHook ρ) :=
  t.heads[index]?.map fun r => { table := t.name, index := index, routine := r }

def tail? (t : HookTable ρ) (index : UInt16) : Option (TailHook ρ) :=
  t.tails[index]?.map fun r => { table := t.name, index := index, routine := r }

theorem head?_eq_some_iff {t : HookTable ρ} {index : UInt16} {hook : HeadHook ρ} :
    t.head? index = some hook ↔ ∃ routine, t.heads[index]? = some routine ∧ hook = ⟨t.name, index, routine⟩ := by
  rw [head?, Option.map_eq_some_iff]
  exact exists_congr fun _ => and_congr_right fun _ => eq_comm

theorem tail?_eq_some_iff {t : HookTable ρ} {index : UInt16} {hook : TailHook ρ} :
    t.tail? index = some hook ↔ ∃ routine, t.tails[index]? = some routine ∧ hook = ⟨t.name, index, routine⟩ := by
  rw [tail?, Option.map_eq_some_iff]
  exact exists_congr fun _ => and_congr_right fun _ => eq_comm

def hooks (t : HookTable ρ) (index : UInt16) : Hooks ρ :=
  { head := t.head? index, tail := t.tail? index }

/-- A table of one tail routine has that hook and no other. -/
theorem hooks_withTail (name : String) (index : UInt16) (r : ρ) :
    (({ name := name } : HookTable ρ).withTail index r).hooks index =
      { tail := some { table := name, index := index, routine := r } } := by
  simp [hooks, head?, tail?, withTail]

/-- The table of the hooks that the engine brings itself: it notes in which event trap the guest is,
    and posts events in the two traps by which the guest waits. -/
def builtin (config : Config) : HookTable ρ :=
  { name := config.systemTable : HookTable ρ }
    |>.withHead (Trap.systemIndex Trap.getEvent) .noteEventTrap
    |>.withHead (Trap.systemIndex Trap.getPen) .noteEventTrap
    |>.withHead (Trap.systemIndex Trap.groupWait) .idleWait
    |>.withHead (Trap.systemIndex Trap.semaphoreWait) .idleWait

end HookTable

end TrapHooks
