import TrapHooks.Chunk
import TrapHooks.Hook.LibraryCache
import TrapHooks.Hook.Registry
import TrapHooks.Returns

/-!
The state of the engine. It belongs to one session of the guest; the marks among its returns are the
interpreter's, and the only part that others may change as well.
-/

namespace TrapHooks

structure Engine (ρ : Type) where
  config : Config := {}
  registry : Registry ρ := {}
  libraries : LibraryCache ρ := {}
  returns : Returns ρ := {}
  state : GuestState := {}
  /-- The system's table, once it was needed and found. -/
  systemTable : Option (HookTable ρ) := none
  /-- The protocol's table, once it was needed and found. -/
  protocolTable : Option (HookTable ρ) := none

namespace Engine

variable {ρ : Type}

def forgetTables (e : Engine ρ) : Engine ρ :=
  { e with systemTable := none, protocolTable := none }

def resetState (e : Engine ρ) : Engine ρ :=
  { e with state := {} }

def reload (e : Engine ρ) : Engine ρ :=
  { e with registry := e.registry.clear.load e.config }

/-- The table of the system's hooks, and the engine that remembers it. -/
def findSystem (e : Engine ρ) : Option (HookTable ρ) × Engine ρ :=
  let table := e.systemTable.or (e.registry.table? e.config.systemTable)
  (table, { e with systemTable := table })

/-- The table of the protocol's hooks, and the engine that remembers it. -/
def findProtocol (e : Engine ρ) : Option (HookTable ρ) × Engine ρ :=
  let table := e.protocolTable.or (e.registry.table? e.config.protocolTable)
  (table, { e with protocolTable := table })

/-- What is remembered of a library, which has a slot from then on. -/
def recallLibrary (refnum : UInt16) (e : Engine ρ) : Option (Option (HookTable ρ)) × Engine ρ :=
  let (known, libraries) := e.libraries.visit refnum
  (known, { e with libraries := libraries })

/-- Remembers a library's table under the library's name. -/
def learnLibrary (refnum : UInt16) (name : Option String) (e : Engine ρ) : Option (HookTable ρ) × Engine ρ :=
  let table := name.bind e.registry.table?
  (table, { e with libraries := e.libraries.refresh refnum table })

def onReturns {α : Type} (f : Returns ρ → α × Returns ρ) (e : Engine ρ) : α × Engine ρ :=
  let result := f e.returns
  (result.1, { e with returns := result.2 })

/-- What a session keeps of the engine. -/
def chunk (e : Engine ρ) : Chunk where
  version := e.config.saveVersion
  state := e.state
  tails := e.returns.toList.map fun record => { call := record.call, count := record.count }

/-- Where a call's hooks are looked up, without any memory: the registry is asked by the name that
    the call's home has now, `names` being the libraries' names. -/
def tableOf (names : UInt16 → Option String) (call : Call) (e : Engine ρ) : Option (HookTable ρ) :=
  match call.home e.config.protocolMark with
  | .system => e.registry.table? e.config.systemTable
  | .protocol => e.registry.table? e.config.protocolTable
  | .library refnum => (names refnum).bind e.registry.table?
  | .nowhere => none

/-- The hooks of a call, looked up without any memory. -/
def hooksOf (names : UInt16 → Option String) (call : Call) (e : Engine ρ) : Hooks ρ :=
  ((e.tableOf names call).map (·.hooks call.index)).getD {}

end Engine

end TrapHooks
