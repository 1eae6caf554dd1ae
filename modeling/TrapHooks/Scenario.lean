import TrapHooks.Engine.Dispatch
import TrapHooks.Engine.Lifecycle
import TrapHooks.Engine.Session

/-!
Scenarios: runs of the engine in a made-up surrounding. The host is a set of plain values; hooks, and
reactions to what the engine asks, are lists of steps that may enter the engine again.
-/

namespace TrapHooks.Scenario

/-- A made-up hook, `σ` being the type of its steps. -/
structure Routine (σ : Type) where
  id : String
  skip : Bool := false
  steps : List σ := []

/-- The name of a made-up table, which may be that of the system's or the protocol's by the settings. -/
inductive TableName
  | system
  | protocol
  | named (name : String)
deriving DecidableEq, Repr

def TableName.resolve (config : Config) : TableName → String
  | system => config.systemTable
  | protocol => config.protocolTable
  | named name => name

structure Table (σ : Type) where
  name : TableName
  heads : List (UInt16 × Routine σ) := []
  tails : List (UInt16 × Routine σ) := []

/-- The hook table that a made-up table stands for; of two hooks at one place the later stays. -/
def Table.load {σ : Type} (t : Table σ) (config : Config) : HookTable (Routine σ) :=
  let empty : HookTable (Routine σ) := { name := t.name.resolve config }
  let withHeads := t.heads.foldl (fun table (index, r) => table.withHead index (.foreign r)) empty
  t.tails.foldl (fun table (index, r) => table.withTail index r) withHeads

/-- What the host does before it replies to the first request of a kind. -/
structure Reaction (σ : Type) where
  matching : Request → Bool
  /-- Whether the host counts as nested meanwhile. -/
  nested : Bool := false
  steps : List σ := []

structure Feature where
  creator : UInt32
  number : UInt16
  value : UInt32
deriving DecidableEq, Repr

structure Database where
  place : DatabaseRef
  info : DatabaseInfo
deriving DecidableEq, Repr

/-- A database that a search by type and creator finds. -/
structure Listing where
  type : UInt32
  creator : UInt32
  place : DatabaseRef
deriving DecidableEq, Repr

structure Host (σ : Type) where
  pc : UInt32 := 0
  result : UInt32 := 0
  timeout : Int32 := -1
  bootstrapDue : Bool := false
  nested : Bool := false
  idle : Bool := true
  keys : List KeyEvent := []
  pens : List PenEvent := []
  debugger : Bool := false
  strict : Bool := false
  overlay : Bool := false
  lines : List Line := []
  profiling : Bool := false
  traps : List UInt16 := []
  user : Option String := none
  features : List Feature := []
  libraries : List (UInt16 × String) := []
  databases : List Database := []
  programs : List Listing := []
  heap : UInt32 := 0x10000
  /-- The code with which a request fails, if it does. -/
  failure : Request → Option UInt16 := fun _ => none
  replaying : Bool := false
  replayEvent : Bool := true
  replayPen : Bool := true
  stressing : Bool := false
  stressEvent : Bool := true
  stressPen : Bool := true
  reactions : List (Reaction σ) := []

inductive Change (σ : Type)
  | pc (v : UInt32)
  | result (v : UInt32)
  | timeout (v : Int32)
  | bootstrapDue (v : Bool)
  | nested (v : Bool)
  | idle (v : Bool)
  | keys (v : List KeyEvent)
  | pens (v : List PenEvent)
  | debugger (v : Bool)
  | strict (v : Bool)
  | overlay (v : Bool)
  | lines (v : List Line)
  | profiling (v : Bool)
  | traps (v : List UInt16)
  | user (v : Option String)
  | features (v : List Feature)
  | libraries (v : List (UInt16 × String))
  | databases (v : List Database)
  | programs (v : List Listing)
  | heap (v : UInt32)
  | failure (v : Request → Option UInt16)
  | replaying (v : Bool)
  | replayEvent (v : Bool)
  | replayPen (v : Bool)
  | stressing (v : Bool)
  | stressEvent (v : Bool)
  | stressPen (v : Bool)
  | reactions (v : List (Reaction σ))

def Change.apply {σ : Type} (h : Host σ) : Change σ → Host σ
  | pc v => { h with pc := v }
  | result v => { h with result := v }
  | timeout v => { h with timeout := v }
  | bootstrapDue v => { h with bootstrapDue := v }
  | nested v => { h with nested := v }
  | idle v => { h with idle := v }
  | keys v => { h with keys := v }
  | pens v => { h with pens := v }
  | debugger v => { h with debugger := v }
  | strict v => { h with strict := v }
  | overlay v => { h with overlay := v }
  | lines v => { h with lines := v }
  | profiling v => { h with profiling := v }
  | traps v => { h with traps := v }
  | user v => { h with user := v }
  | features v => { h with features := v }
  | libraries v => { h with libraries := v }
  | databases v => { h with databases := v }
  | programs v => { h with programs := v }
  | heap v => { h with heap := v }
  | failure v => { h with failure := v }
  | replaying v => { h with replaying := v }
  | replayEvent v => { h with replayEvent := v }
  | replayPen v => { h with replayPen := v }
  | stressing v => { h with stressing := v }
  | stressEvent v => { h with stressEvent := v }
  | stressPen v => { h with stressPen := v }
  | reactions v => { h with reactions := v }

/-- What a step does, `σ` being the type of the steps that may stand within it. -/
inductive Action (σ : Type)
  | dispatch (call : Call)
  /-- The processor reaches a marked address, possibly another than before. -/
  | arrive (pc : Option UInt32)
  | resolve (call : Call)
  /-- Runs the hooks of one call on another, both or only one of them. -/
  | runHooks (call source : Call) (head tail : Bool)
  | start
  | reset
  | dispose
  | bootstrap
  | installMarks
  | uninstallMarks
  | markLibrary (refnum : UInt16)
  | markLibraries
  | editState (f : GuestState → GuestState)
  | readState
  | readRecord (address : UInt32)
  | readChunk
  | readConfig
  | save
  | load
  /-- Takes a new file, and writes a chunk into it. -/
  | prepareFile (fresh : Bool) (chunk : Option (List UInt8))
  /-- Puts a new engine in the place of the old. -/
  | newEngine (start : Bool) (config : Option Config)
  /-- Replaces one of the made-up tables, for the next start. -/
  | setTable (place : Nat) (table : Table σ)
  | changeHost (changes : List (Change σ))
  | mark (address : UInt32)
  | unmark (address : UInt32)
  | isMarked (address : UInt32)
  | inject
  | ruleNames
  | ruleConditions
  | actRule (name : String)
  | switchTo (app : DatabaseRef)
  | hasIntl

/-- A step, under the label by which the log has it. -/
inductive Step
  | mk (label : String) (action : Action Step)

def Step.label : Step → String
  | mk label _ => label

def Step.action : Step → Action Step
  | mk _ action => action

inductive Answer
  | nothing
  | decision (d : Decision)
  | flag (b : Bool)
  | hooks (head tail : Option (String × UInt16))
  | state (s : GuestState)
  | record (r : Option (PendingTail (Routine Step)))
  | chunk (c : Chunk)
  | settings (c : Config)
  | file (f : SessionFile) (failure : Option String)
  | injection (i : Injection)
  | rules (names : List String)
  | conditions (rules : List (String × Bool))
  | switched (outcome : Except ErrorCode Unit)

/-- A line of the log of what happened. -/
inductive Entry
  | asked (request : Request)
  | head (id : String) (call : Call)
  | tail (id : String) (call : Call)
  | did (label : String) (answer : Answer)
  | tooDeep

end TrapHooks.Scenario
