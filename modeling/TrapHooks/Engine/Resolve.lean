import TrapHooks.Engine.Program

/-!
Finding the hooks of a call, through what the engine remembers of tables and libraries.
-/

namespace TrapHooks.Engine

open Program

variable {ρ : Type}

/-- The table of a library: what is remembered of its handle, or else what its name leads to, for
    which the host is asked. -/
def libraryTable (refnum : UInt16) : Program ρ (Option (HookTable ρ)) := do
  match ← modifyGet (recallLibrary refnum) with
  | some table => return table
  | none =>
    let name ← request (.libraryName refnum)
    let table ← modifyGet (learnLibrary refnum name)
    notice (.libraryRefreshed refnum name table.isSome)
    return table

def findTable (call : Call) : Program ρ (Option (HookTable ρ)) := do
  let e ← get
  match call.home e.config.protocolMark with
  | .system => modifyGet findSystem
  | .protocol => modifyGet findProtocol
  | .library refnum => libraryTable refnum
  | .nowhere => return none

/-- The hooks of a call. That there are none is no error: the guest's routine then runs alone. -/
def resolve (call : Call) : Program ρ (Hooks ρ) := do
  let table ← findTable call
  return (table.map (·.hooks call.index)).getD {}

/-- Has a library's hooks looked up anew at its next call. -/
def markLibrary (refnum : UInt16) : Program ρ Unit :=
  modify fun e => { e with libraries := e.libraries.markDirty refnum }

def markLibraries : Program ρ Unit :=
  modify fun e => { e with libraries := e.libraries.markAllDirty }

end TrapHooks.Engine
