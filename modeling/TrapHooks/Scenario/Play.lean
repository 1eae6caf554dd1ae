import TrapHooks.Scenario.World

/-!
Playing a scenario: what each step does, how steps run within others, and the list of steps at the
top. A scenario in which a program breaks off gives no answers.
-/

namespace TrapHooks.Scenario

namespace World

def exec {α : Type} (nested : List Step → World → Option World) (p : Program Script α) (w : World) :
    Option (α × World) :=
  w.run nested w.current p

/-- Runs a program of the current engine for what it does. -/
def perform (nested : List Step → World → Option World) (p : Program Script Unit) (w : World) :
    Option (Answer × World) := do
  let (_, w) ← w.exec nested p
  return (.nothing, w)

/-- Runs a program of the current engine, and answers with what it gives. -/
def answer {α : Type} (nested : List Step → World → Option World) (p : Program Script α) (f : α → Answer) (w : World) :
    Option (Answer × World) := do
  let (a, w) ← w.exec nested p
  return (f a, w)

/-- The conditions of all rules, one after the other. -/
def conditions : List (Engine.Rule Script) → Program Script (List (String × Bool))
  | [] => return []
  | rule :: rest => do
    let holds ← rule.applies
    return (rule.name, holds) :: (← conditions rest)

def mixedHooks (call source : Call) (head tail : Bool) : Program Script Decision := do
  let hooks ← Engine.resolve source
  Engine.runHooks call
    { head := if head then hooks.head else none, tail := if tail then hooks.tail else none }

/-- Loads the current engine. While it does, steps see another file, which is dropped afterwards. -/
def loadFile (nested : List Step → World → Option World) (w : World) : Option (Answer × World) := do
  let ((file, outcome), w) ← exec nested (Engine.load w.file) { w with file := {} }
  let failure :=
    match outcome with
    | .ok _ => none
    | .error e => some (Engine.loadFailure e)
  return (.file file failure, { w with file := file })

def saveFile (nested : List Step → World → Option World) (w : World) : Option (Answer × World) := do
  let (file, w) ← exec nested (Engine.save w.file) { w with file := {} }
  return (.file file none, { w with file := file })

/-- Does one step; `nested` runs the steps within it. -/
def act (nested : List Step → World → Option World) (w : World) : Action Step → Option (Answer × World)
  | .dispatch call => w.answer nested (Engine.dispatch call) .decision
  | .arrive pc =>
    let w := { w with host := { w.host with pc := pc.getD w.host.pc } }
    w.perform nested Engine.returned
  | .resolve call =>
    w.answer nested (Engine.resolve call) fun hooks =>
      .hooks (hooks.head.map Hook.place) (hooks.tail.map Hook.place)
  | .runHooks call source head tail => w.answer nested (mixedHooks call source head tail) .decision
  | .start => w.perform nested Engine.start
  | .reset => w.perform nested Engine.reset
  | .dispose => w.perform nested Engine.dispose
  | .bootstrap => w.perform nested Engine.bootstrap
  | .installMarks => w.perform nested Engine.installMarks
  | .uninstallMarks => w.perform nested Engine.uninstallMarks
  | .markLibrary refnum => w.perform nested (Engine.markLibrary refnum)
  | .markLibraries => w.perform nested Engine.markLibraries
  | .editState f => w.perform nested (modify fun e => { e with state := f e.state })
  | .readState => some (.state w.currentEngine.state, w)
  | .readRecord address => some (.record (w.currentEngine.returns.get? address), w)
  | .readChunk => some (.chunk w.currentEngine.chunk, w)
  | .readConfig => some (.settings w.currentEngine.config, w)
  | .save => w.saveFile nested
  | .load => w.loadFile nested
  | .prepareFile fresh chunk =>
    let file : SessionFile := if fresh then {} else w.file
    let file :=
      match chunk with
      | some bytes => file.write bytes
      | none => file
    some (.flag file.canReload, { w with file := file })
  | .newEngine start config =>
    let w := { w with config := config.getD w.config }.addEngine
    if start then w.perform nested Engine.start else some (.nothing, w)
  | .setTable place table => some (.nothing, { w with tables := w.tables.set place table })
  | .changeHost changes => some (.nothing, { w with host := changes.foldl Change.apply w.host })
  | .mark address => some (.nothing, { w with marks := w.marks.insert address })
  | .unmark address => some (.nothing, { w with marks := w.marks.erase address })
  | .isMarked address => some (.flag (w.marks.contains address), w)
  | .inject => w.answer nested Engine.inject .injection
  | .ruleNames => some (.rules ((Engine.rules (ρ := Script)).map (·.name)), w)
  | .ruleConditions => w.answer nested (conditions Engine.rules) .conditions
  | .actRule name =>
    match Engine.rules.find? fun rule => rule.name = name with
    | some rule => w.answer nested rule.act .injection
    | none => some (.nothing, w)
  | .switchTo app => w.answer nested (Engine.switchTo app) .switched
  | .hasIntl => w.answer nested Engine.hasIntl .flag

/-- How many lists of steps may run within each other. -/
def deepest : Nat := 6

/-- Runs a list of steps within another step, with so many levels left; below the last, only the
    empty list runs. -/
def within : Nat → List Step → World → Option World
  | 0 => fun steps w => if steps.isEmpty then w else w.write .tooDeep
  | levels + 1 => fun steps w =>
    steps.foldlM
      (fun w step => do
        let (answer, w) ← w.act (within levels) step.action
        return w.write (.did step.label answer))
      w

/-- Does one step at the top, with nothing in the logs but what comes of it. -/
def doStep (step : Step) (w : World) : Option (Answer × World) :=
  act (within deepest) { w with log := #[], notices := #[] } step.action

/-- The world in which a scenario begins. -/
def begin (builtin : Bool) (config : Config) (tables : List (Table Step)) (changes : List (Change Step))
    (start : Bool) : Option World := do
  let w : World := { builtin := builtin, config := config, tables := tables, host := changes.foldl Change.apply {} }
  let (_, w) ← w.act (within deepest) (.newEngine start none)
  return w

/-- Plays steps one after the other: what each gave, and the world after it. -/
def play (w : World) : List Step → Option (List (Answer × World))
  | [] => some []
  | step :: rest => do
    let (answer, next) ← w.doStep step
    return (answer, next) :: (← next.play rest)

end World

end TrapHooks.Scenario
