import TrapHooks.Hook.Table

/-!
The registry: a list of loaders, each of which makes a table from the settings, and the tables that
the last loading gave, by name.
-/

namespace TrapHooks

structure Registry (ρ : Type) where
  loaders : List (Config → HookTable ρ) := []
  tables : Std.ExtTreeMap String (HookTable ρ) := ∅

namespace Registry

variable {ρ : Type}

/-- A registry whose first loader gives the engine's own table; nothing is loaded yet. -/
def withBuiltin : Registry ρ :=
  { loaders := [HookTable.builtin] }

def addLoader (loader : Config → HookTable ρ) (r : Registry ρ) : Registry ρ :=
  { r with loaders := r.loaders ++ [loader] }

/-- Adds a table to those collected before it; tables of one name become one. -/
def collect (tables : Std.ExtTreeMap String (HookTable ρ)) (t : HookTable ρ) :
    Std.ExtTreeMap String (HookTable ρ) :=
  tables.insert t.name ((tables[t.name]?.map (·.merge t)).getD t)

/-- Makes the tables of all loaders anew, in the loaders' order; nothing loaded before remains. -/
def load (config : Config) (r : Registry ρ) : Registry ρ :=
  { r with tables := (r.loaders.map fun loader => loader config).foldl collect ∅ }

def clear (r : Registry ρ) : Registry ρ :=
  { r with tables := ∅ }

def table? (r : Registry ρ) (name : String) : Option (HookTable ρ) :=
  r.tables[name]?

/-- Of one loader there is one table, under its own name. -/
theorem table?_load_single {r : Registry ρ} {loader : Config → HookTable ρ} (only : r.loaders = [loader])
    (config : Config) (name : String) :
    (r.load config).table? name = if (loader config).name = name then some (loader config) else none := by
  simp [load, table?, collect, only, Std.ExtTreeMap.getElem?_insert]

def size (r : Registry ρ) : Nat :=
  r.tables.size

def isEmpty (r : Registry ρ) : Bool :=
  r.tables.isEmpty

end Registry

end TrapHooks
