import TrapHooks.Toml

/-!
Growing a document's tables. A table is made once: a header may complete a table that other headers
only implied, keys with dots may go on with a table that such keys made, and nothing else may add to
a table from outside.
-/

namespace TrapHooks.Toml

def find? (entries : Entries) (key : String) : Option Item :=
  entries.lookup key

def replace (key : String) (item : Item) (entries : Entries) : Entries :=
  entries.map fun entry => if entry.1 = key then (key, item) else entry

def onLast (f : Entries → Except Fault Entries) : List Entries → Except Fault (List Entries)
  | [] => .ok []
  | [last] => do return [← f last]
  | first :: rest => do return first :: (← onLast f rest)

/-- Changes the table at the end of a path, making the tables on the way that are not there. Where an
    array of tables is on the way, its last table is meant. Keys with dots, which make tables of the
    origin `dotted`, cannot pass through a table that has a header. -/
def descend (making : Origin) (f : Origin → Entries → Except Fault Entries) :
    List String → Origin → Entries → Except Fault Entries
  | [], origin, entries => f origin entries
  | key :: path, _, entries =>
    match find? entries key with
    | none => do return entries ++ [(key, .table making (← descend making f path making []))]
    | some (.table origin inner) =>
      if origin = .inline ∨ (making = .dotted ∧ origin = .header) then .error (.duplicateKey key)
      else do return replace key (.table origin (← descend making f path origin inner)) entries
    | some (.tables items) => do
      return replace key (.tables (← onLast (descend making f path .header) items)) entries
    | some _ => .error (.notATable key)

/-- Adds an item under a new key. The path of a key with dots must lead to a table that such a path
    made, and a key without must not stand in one. -/
def insertHere (key : String) (item : Item) (direct : Bool) (origin : Origin) (entries : Entries) :
    Except Fault Entries :=
  if (find? entries key).isSome then .error (.duplicateKey key)
  else if decide (origin = .dotted) = direct then .error (.duplicateKey key)
  else .ok (entries ++ [(key, item)])

/-- Adds an item under a key with dots to a table of the given origin. -/
def insert (path : List String) (key : String) (item : Item) (origin : Origin) (entries : Entries) :
    Except Fault Entries :=
  descend .dotted (insertHere key item path.isEmpty) path origin entries

/-- Opens the table of a header: a new one, or one that was only implied. -/
def openTable (key : String) (_ : Origin) (entries : Entries) : Except Fault Entries :=
  match find? entries key with
  | none => .ok (entries ++ [(key, .table .header [])])
  | some (.table .implied inner) => .ok (replace key (.table .header inner) entries)
  | some _ => .error (.duplicateKey key)

def openElement (key : String) (_ : Origin) (entries : Entries) : Except Fault Entries :=
  match find? entries key with
  | none => .ok (entries ++ [(key, .tables [[]])])
  | some (.tables items) => .ok (replace key (.tables (items ++ [[]])) entries)
  | some _ => .error (.duplicateKey key)

end TrapHooks.Toml
