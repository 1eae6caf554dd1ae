import TrapHooks.Scenario.Host

/-!
The world of a scenario: the engines that were made so far, of which the last is the current one, with
everything around them. The marks and the made-up tables are the host's, and all engines share them.
Where a program of an engine breaks off, there is no world any more.
-/

namespace TrapHooks.Scenario

/-- A hook of a scenario, as the engine is given it. -/
abbrev Script := Routine Step

structure World where
  engines : Array (Engine Script) := #[]
  marks : Marks := ∅
  host : Host Step := {}
  file : SessionFile := {}
  /-- Whether the engine's own hooks are among the tables. -/
  builtin : Bool := true
  config : Config := {}
  tables : List (Table Step) := []
  log : Array Entry := #[]
  notices : Array Notice := #[]

namespace World

/-- The loaders of every engine's registry: that of the engine's own table first. -/
def loaders (w : World) : List (Config → HookTable Script) :=
  (if w.builtin then [HookTable.builtin] else []) ++ w.tables.map Table.load

def engine (id : Nat) (w : World) : Engine Script :=
  let e : Engine Script := w.engines[id]?.getD {}
  { e with
    registry := { e.registry with loaders := w.loaders }
    returns := { e.returns with marks := w.marks } }

/-- Puts an engine back, and takes the marks from it. -/
def setEngine (id : Nat) (e : Engine Script) (w : World) : World :=
  { w with engines := w.engines.setIfInBounds id e, marks := e.returns.marks }

def current (w : World) : Nat :=
  w.engines.size - 1

def currentEngine (w : World) : Engine Script :=
  w.engine w.current

/-- Makes a new engine, which is the current one from then on. -/
def addEngine (w : World) : World :=
  { w with engines := w.engines.push { config := w.config } }

def write (entry : Entry) (w : World) : World :=
  { w with log := w.log.push entry }

def hear (n : Notice) (w : World) : World :=
  { w with notices := w.notices.push n }

/-- Runs the reaction to a request, if there is one; `nested` runs its steps. -/
def react (nested : List Step → World → Option World) (r : Request) (w : World) : Option World :=
  match Host.takeReaction r w.host.reactions with
  | none => w
  | some (reaction, others) => do
    let w := { w with host := { w.host with reactions := others } }
    if reaction.nested then
      let was := w.host.nested
      let w ← nested reaction.steps { w with host := { w.host with nested := true } }
      return { w with host := { w.host with nested := was } }
    else nested reaction.steps w

/-- Replies to a request. All but the queries are logged, and may be reacted to before the reply. -/
def serve (nested : List Step → World → Option World) (r : Request) (w : World) : Option (r.Reply × World) := do
  let measured := w.host.profiling
  let w ←
    if r.isQuery then pure w
    else (write (.asked r) { w with host := w.host.store r }).react nested r
  let (answer, host) := Host.reply measured r w.host
  return (answer, { w with host := host })

def run {α : Type} (nested : List Step → World → Option World) (id : Nat) :
    Program Script α → World → Option (α × World)
  | .done a, w => return (a, w)
  | .overflow, _ => none
  | .step next rest, w =>
    let e := w.engine id
    run nested id (rest e) (w.setEngine id (next e))
  | .ask r rest, w => do
    let (answer, w) ← w.serve nested r
    run nested id (rest answer) w
  | .runHead routine call rest, w => do
    let w ← nested routine.steps (w.write (.head routine.id call))
    run nested id (rest (if routine.skip then .skip else .execute)) w
  | .runTail routine call rest, w => do
    let w ← nested routine.steps (w.write (.tail routine.id call))
    run nested id rest w
  | .tell n rest, w => run nested id rest (w.hear n)

end World

end TrapHooks.Scenario
