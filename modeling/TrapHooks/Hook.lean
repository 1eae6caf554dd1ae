import TrapHooks.Call
import TrapHooks.Text.Quoted

/-!
Hooks: host routines that run before or after a routine of the guest. A hook is known by the table
it came from and its number there. The engine brings some head routines of its own; the others, and
all tail routines, are foreign to it, and `ρ` is the type of what it is given to call them by.
-/

namespace TrapHooks

/-- A routine with the place at which it was found. -/
structure Hook (R : Type) where
  table : String
  index : UInt16
  routine : R
deriving DecidableEq, Repr

/-- The place of a hook, which is all that is ever reported of it. -/
def Hook.place {R : Type} (h : Hook R) : String × UInt16 :=
  (h.table, h.index)

/-- A hook's place as a record with quoted fields. -/
def Hook.describe {R : Type} (h : Hook R) : String :=
  "HookRef \x7b module: " ++ Quoted.text h.table ++ ", index: " ++ toString h.index.toNat ++ " \x7d"

/-- What runs before a routine of the guest. -/
inductive HeadRoutine (ρ : Type)
  /-- Notes in which of the two event traps the guest is. -/
  | noteEventTrap
  /-- Posts an event to a guest that is about to wait. -/
  | idleWait
  | foreign (r : ρ)
deriving DecidableEq, Repr

/-- A hook that runs before the guest's routine and decides whether that still runs. -/
abbrev HeadHook (ρ : Type) := Hook (HeadRoutine ρ)

abbrev TailHook (ρ : Type) := Hook ρ

structure Hooks (ρ : Type) where
  head : Option (HeadHook ρ) := none
  tail : Option (TailHook ρ) := none
deriving DecidableEq, Repr

end TrapHooks
