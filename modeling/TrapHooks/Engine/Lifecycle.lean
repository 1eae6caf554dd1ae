import TrapHooks.Engine.Program

/-!
The beginning and the end of a session.
-/

namespace TrapHooks.Engine

open Program

variable {ρ : Type}

/-- Starts a session: all tables are made anew, and nothing is known of the guest. -/
def start : Program ρ Unit := do
  modify reload
  (← get).registry.tables.toList.forM fun (name, table) => notice (.tableLoaded name table.size)
  modify fun e => e.forgetTables.resetState
  notice .initialized

/-- Drops all that belongs to the session; the tables stay. -/
def reset : Program ρ Unit := do
  modify fun e => { e.forgetTables.resetState with returns := e.returns.clear, libraries := {} }
  notice .reset

/-- Ends the session; the tables are dropped as well. -/
def dispose : Program ρ Unit := do
  reset
  modify fun e => { e with registry := e.registry.clear }

def installMarks : Program ρ Unit :=
  modify fun e => { e with returns := e.returns.install }

def uninstallMarks : Program ρ Unit :=
  modify fun e => { e with returns := e.returns.uninstall }

end TrapHooks.Engine
