import TrapHooks.Config
import TrapHooks.Toml

/-!
Settings as a TOML document has them: three tables, of which each may also be written as an array of
its values in order. Keys that no setting has are passed over once their values were looked at, and
values behind the last of an array are not even looked at.
-/

namespace TrapHooks.Config

inductive Mismatch
  | missing (key : String)
  | wrongType (key : String)
  | outOfRange (key : String)
  | unreadable (key : String)
deriving DecidableEq, Repr

def Mismatch.message : Mismatch → String
  | missing key => "missing field " ++ key
  | wrongType key => "invalid type for " ++ key
  | outOfRange key => "out of range: " ++ key
  | unreadable key => "not a number: " ++ key

/-- Where a group of settings is found: by key in a table, or by place in an array. -/
inductive Group
  | keyed (entries : Toml.Entries)
  | listed (items : List Toml.Item)

def Group.find? (key : String) (place : Nat) : Group → Option Toml.Item
  | keyed entries => entries.lookup key
  | listed items => items[place]?

/-- A value of a group that must be there. -/
def Group.get (key : String) (place : Nat) (g : Group) : Except Mismatch Toml.Item :=
  match g.find? key place with
  | some item => .ok item
  | none => .error (.missing key)

def group (key : String) (document : Toml.Entries) : Except Mismatch Group :=
  match document.lookup key with
  | none => .error (.missing key)
  | some (.table _ entries) => .ok (.keyed entries)
  | some (.array items) => .ok (.listed items)
  | some (.tables items) => .ok (.listed (items.map (.table .header)))
  | some _ => .error (.wrongType key)

/-- Looks at the values of a table under all other keys than the given ones. -/
def passOver (keys : List String) (entries : Toml.Entries) : Except Mismatch Unit :=
  match entries.find? fun (key, item) => !keys.contains key && !item.isReadable with
  | some (key, _) => .error (.unreadable key)
  | none => .ok ()

/-- Looks at the values of a group that no setting is read from; in an array there are none to look
    at. -/
def Group.passOver (keys : List String) : Group → Except Mismatch Unit
  | keyed entries => Config.passOver keys entries
  | listed _ => .ok ()

def text (key : String) : Toml.Item → Except Mismatch String
  | .string s => .ok s
  | _ => .error (.wrongType key)

def flag (key : String) : Toml.Item → Except Mismatch Bool
  | .boolean b => .ok b
  | _ => .error (.wrongType key)

def integer (key : String) (least most : Int) : Toml.Item → Except Mismatch Int
  | .integer n => if least ≤ n ∧ n ≤ most then .ok n else .error (.outOfRange key)
  | _ => .error (.wrongType key)

def unsigned (key : String) (item : Toml.Item) : Except Mismatch UInt32 := do
  return UInt32.ofNat (← integer key 0 0xFFFFFFFF item).toNat

def signed (key : String) (item : Toml.Item) : Except Mismatch Int32 := do
  return Int32.ofInt (← integer key (-0x80000000) 0x7FFFFFFF item)

/-- The settings of a document. Only whether the injector reports need not be said. -/
def decode (document : Toml.Entries) : Except Mismatch Config := do
  let tables ← group "patch" document
  let systemTable ← text "system_module" (← tables.get "system_module" 0)
  let protocolTable ← text "htal_module" (← tables.get "htal_module" 1)
  let protocolMark ← unsigned "htal_magic_refnum" (← tables.get "htal_magic_refnum" 2)
  tables.passOver ["system_module", "htal_module", "htal_magic_refnum"]
  let saving ← group "persist" document
  let saveVersion ← signed "save_version" (← saving.get "save_version" 0)
  saving.passOver ["save_version"]
  let injecting ← group "puppet" document
  let logInjection ←
    match injecting.find? "log_enqueued_events" 0 with
    | some item => flag "log_enqueued_events" item
    | none => pure false
  let forcedWait ← signed "forced_wait_ticks" (← injecting.get "forced_wait_ticks" 1)
  injecting.passOver ["log_enqueued_events", "forced_wait_ticks"]
  passOver ["patch", "persist", "puppet"] document
  return { systemTable, protocolTable, protocolMark, saveVersion, logInjection, forcedWait }

end TrapHooks.Config
