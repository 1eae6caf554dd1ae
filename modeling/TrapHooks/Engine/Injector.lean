import TrapHooks.Engine.AppSwitch

/-!
Posting events to a guest that is about to wait for one. The host must never block in such a wait, so
an event is taken from the first source that has something to give: replayed input, random input, the
user, or a switch of applications that was asked for.
-/

namespace TrapHooks

/-- What came of it: whether the guest's wait still runs, and whether it may run without end. -/
structure Injection where
  decision : Decision := .execute
  clearTimeout : Bool := false
deriving DecidableEq, Repr

namespace Injection

/-- The wait goes on as the guest meant it. -/
def proceed : Injection := {}

/-- The wait goes on, but must end. -/
def hurry : Injection := { clearTimeout := true }

end Injection

namespace Engine

open Program

variable {ρ : Type}

/-- One source of events: when it is to be used, and how. -/
structure Rule (ρ : Type) where
  name : String
  applies : Program ρ Bool
  act : Program ρ Injection

/-- Has the guest's event fetch return the empty event: its wait is skipped, as if it had timed out. -/
def emptyEvent : Program ρ Injection := do
  request (.setResult timedOut)
  return { decision := .skip }

def lastEventTrap : Program ρ UInt16 := do
  return (← get).state.lastEventTrap

def reports : Program ρ Bool := do
  return (← get).config.logInjection

/-- Replays what was recorded for the trap that the guest is in. Only an event fetch is told that
    there was nothing. -/
def replay : Program ρ Injection := do
  let trap ← lastEventTrap
  if trap = Trap.getEvent then
    if ← request .replayEvent then return .hurry
    notice .replayEmpty
    emptyEvent
  else
    if trap = Trap.getPen then
      let _ ← request .replayPen
    return .hurry

/-- Posts random input that suits the trap that the guest is in. -/
def stress : Program ρ Injection := do
  let log ← reports
  let trap ← lastEventTrap
  if trap = Trap.getEvent then
    if ← request .stressEvent then return .hurry
    if log then notice .stressEmpty
    emptyEvent
  else
    if trap = Trap.getPen then
      let _ ← request .stressPen
    else if log then
      notice (.stressOutOfPlace trap)
    return .hurry

def deliverKey : Program ρ Injection := do
  let event ← request .takeKey
  notice (.keyPosted event.key event.modifiers)
  request (.postKey event.key 0 event.modifiers)
  return .proceed

def deliverPen : Program ρ Injection := do
  let event ← request .takePen
  notice (.penPosted event.reported)
  request (.postPen event.reported)
  return .proceed

/-- Switches to the application that was asked for. The request is withdrawn whether or not the
    switch succeeds. -/
def switchPending : Program ρ Injection := do
  match (← get).state.nextApp with
  | none => pure ()
  | some app =>
    match ← switchTo app with
    | .ok _ => pure ()
    | .error e => notice (.switchFailed app e)
  modify fun e => { e with state := e.state.withdrawApp }
  return .hurry

/-- The sources, first come first served. Inside a call of the host nothing is posted at all. -/
def rules : List (Rule ρ) :=
  [ { name := "nested", applies := request .isNested, act := emptyEvent },
    { name := "replay", applies := request .replaying, act := replay },
    { name := "hordes", applies := request .stressing, act := stress },
    { name := "key", applies := request .hasKey, act := deliverKey },
    { name := "pen", applies := request .hasPen, act := deliverPen },
    { name := "app_switch", applies := return (← get).state.nextApp.isSome, act := switchPending } ]

/-- Uses the first rule that applies; without one the guest just waits. -/
def applyFirst : List (Rule ρ) → Program ρ Injection
  | [] => return .proceed
  | rule :: rest => do
    if ← rule.applies then
      notice (.ruleApplied rule.name)
      rule.act
    else
      applyFirst rest

/-- Posts an event to a guest that waits for one. The result is set first, so that a wait which is
    skipped has succeeded unless a rule says otherwise. -/
def inject : Program ρ Injection := do
  request (.setResult 0)
  if ← request .isIdle then
    if (← lastEventTrap) = Trap.getEvent then
      request .signalIdle
    applyFirst rules
  else
    if ← reports then
      if ← request .stressing then
        notice .notIdle
    return .proceed

/-- The hook of the event traps: notes in which of them the guest is. -/
def noteEventTrap (call : Call) : Program ρ Decision := do
  modify fun e => { e with state := { e.state with lastEventTrap := call.trap } }
  return .execute

/-- The hook of the waits: posts an event, and gives an end to a wait without one if it must have
    one. -/
def idleWait : Program ρ Decision := do
  let outcome ← inject
  if outcome.clearTimeout then
    if (← request .waitTimeout) = waitForever then
      let ticks := (← get).config.forcedWait
      notice (.waitShortened ticks)
      request (.setWaitTimeout ticks)
  return outcome.decision

end Engine

end TrapHooks
