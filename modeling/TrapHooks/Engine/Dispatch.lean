import TrapHooks.Engine.Bootstrap
import TrapHooks.Engine.Injector
import TrapHooks.Engine.Resolve

/-!
The interpreter's two ways into the engine: at a trap, and at a marked address.
-/

namespace TrapHooks.Engine

open Program

variable {ρ : Type}

/-- Runs something with the measuring of time switched off meanwhile. -/
def unmeasured {α : Type} (p : Program ρ α) : Program ρ α := do
  let measuring ← request (.setProfiling false)
  let a ← p
  let _ ← request (.setProfiling measuring)
  return a

def headProgram (call : Call) : HeadRoutine ρ → Program ρ Decision
  | .noteEventTrap => noteEventTrap call
  | .idleWait => idleWait
  | .foreign r => foreignHead r call

def callHead (hook : HeadHook ρ) (call : Call) : Program ρ Decision :=
  unmeasured (headProgram call hook.routine)

def callTail (hook : TailHook ρ) (call : Call) : Program ρ Unit := do
  notice (.tailCalled hook.table hook.index)
  unmeasured (foreignTail hook.routine call)

/-- Lets a tail hook wait for the return of its call. -/
def armTail (hook : TailHook ρ) (call : Call) : Program ρ Unit := do
  match ← modifyGet (onReturns (Returns.arm hook call)) with
  | .first => notice (.armed call.returnPc)
  | .again count => notice (.armedAgain call.returnPc count)
  | .overflow => overflow

/-- What a call's head hook decides; without one the guest's routine runs. -/
def headDecision (call : Call) (hooks : Hooks ρ) : Program ρ Decision :=
  match hooks.head with
  | some head => callHead head call
  | none => return .execute

/-- What follows the decision: if the guest's routine runs, the tail hook waits for its return, and if
    not, the tail hook runs at once. -/
def conclude (call : Call) (hooks : Hooks ρ) (decision : Decision) : Program ρ Decision := do
  match hooks.tail, decision with
  | some tail, .execute => armTail tail call
  | some tail, .skip => callTail tail call
  | none, _ => pure ()
  notice (.handled call decision)
  return decision

/-- Runs the hooks of a call: the head hook first, which decides whether the guest's routine runs. -/
def runHooks (call : Call) (hooks : Hooks ρ) : Program ρ Decision := do
  let decision ← headDecision call hooks
  conclude call hooks decision

/-- Mends the guest if that is due. The due is taken back first, so that a trap of the mending itself
    does not start it again. -/
def bootstrapIfDue : Program ρ Unit := do
  if ← request .bootstrapDue then
    request (.setBootstrapDue false)
    bootstrap

/-- What comes before the hooks of a call: they are looked up in a guest that was mended. -/
def prepare (call : Call) : Program ρ (Hooks ρ) := do
  bootstrapIfDue
  resolve call

def dispatch (call : Call) : Program ρ Decision := do
  let hooks ← prepare call
  runHooks call hooks

def callDue : Option (TailHook ρ × Call) → Program ρ Unit
  | some (hook, call) => callTail hook call
  | none => return

/-- Takes one return at an address, and runs the tail hook that waited for it, if any did. -/
def takeReturn (pc : UInt32) : Program ρ Unit := do
  match ← modifyGet (onReturns (Returns.arrive pc)) with
  | .unknown => return
  | .returned due last =>
    if last then notice (.disarmed pc)
    callDue due

def returned : Program ρ Unit := do
  let pc ← request .programCounter
  takeReturn pc

end TrapHooks.Engine
