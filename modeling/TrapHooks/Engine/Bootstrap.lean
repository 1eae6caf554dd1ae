import TrapHooks.Engine.Program

/-!
What is mended in a guest after its session was loaded. It is done at the guest's first trap, since
only then can the guest's routines be called. No step depends on whether another one failed.
-/

namespace TrapHooks.Engine

open Program

variable {ρ : Type}

/-- The first version of the ROM, counted in the version's highest byte, whose international manager
    can check strictly. -/
def intlMajor : UInt32 := 4

/-- Whether the guest has an international manager, by the version of its ROM; a ROM that does not
    tell its version counts as the oldest. -/
def hasIntl : Program ρ Bool := do
  match ← request (.getFeature Creator.system Feature.romVersion) with
  | .ok version => return intlMajor ≤ (version >>> 24) &&& 0xFF
  | .error _ => return false

/-- The guest's answer is worth a notice only if it refused. -/
def reportDebugger (attached : Bool) : Except ErrorCode Unit → Program ρ Unit
  | .ok _ => return
  | .error e => notice (.debuggerFeatureFailed attached e)

def announceDebugger : Program ρ Unit := do
  let attached ← request .debuggerAttached
  let answer ←
    if attached then request (.setFeature Creator.debugger 0 Feature.debuggerPresent)
    else request (.removeFeature Creator.debugger 0)
  reportDebugger attached answer

/-- Tells the guest's international manager how strict it is to be, if there is one. -/
def assertStrictChecks : Program ρ Unit := do
  let strict ← request (.preference .strictIntlChecks)
  if ← hasIntl then
    request (.setStrictChecks strict)

def assertOverlayErrors : Program ρ Unit := do
  let wanted ← request (.preference .overlayErrors)
  match ← request (.setFeature Creator.overlays Feature.showOverlayErrors (if wanted then 1 else 0)) with
  | .ok _ => return
  | .error e => notice (.overlayFeatureFailed e)

/-- Takes over the user's name from the desktop link, if the guest has one. -/
def takeUserName : Program ρ Unit := do
  if ← request (.trapExists Trap.syncInfo) then
    match ← request .syncUserName with
    | .ok name => request (.setUserName name)
    | .error e => notice (.userNameUnreadable e)

def installFiles : Program ρ Unit := do
  match ← request .autoload with
  | .ok _ => return
  | .error reason => notice (.autoloadFailed reason)

def setTime : Program ρ Unit := do
  let now ← request .hostTime
  request (.setClock (Clock.ofUnix now))

/-- Opens a line again if it was in use. -/
def reopenLine (line : Line) : Program ρ Unit := do
  if ← request (.lineActive line) then
    match ← request (.openTransport line) with
    | .ok _ => return
    | .error reason => notice (.transportFailed line reason)

/-- What needs a running user interface. -/
def mendGuest : Program ρ Unit := do
  notice .bootstrapping
  announceDebugger
  assertStrictChecks
  assertOverlayErrors
  takeUserName
  installFiles
  setTime
  request .wakeEvents

/-- Mends the guest, if its user interface has started, and opens the lines again in any case. -/
def bootstrap : Program ρ Unit := do
  let e ← get
  if e.state.uiReady then mendGuest
  Line.all.forM reopenLine

end TrapHooks.Engine
