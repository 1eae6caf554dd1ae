import TrapHooks.Engine.Program

/-!
Switching the guest to another application, or to the application that a document belongs to.
-/

namespace TrapHooks.Engine

open Program

variable {ρ : Type}

/-- Starts the owner of a document on it. The block that names the document is handed to the guest,
    card first and database behind it. -/
def launchOwner (owner document : DatabaseRef) : Program ρ (Except ErrorCode Unit) := do
  match ← request (.allocate Launch.openDatabaseSize) with
  | none => return .error .notEnoughSpace
  | some block =>
    request (.setOwner block 0)
    request (.writeWord block document.card)
    let behind ← sum block 2
    request (.writeLong behind document.id)
    notice (.launchingOwner owner.id document.id)
    request (.switchApp owner Launch.openDatabase (some block))

/-- Switches to a database: a program is started itself, anything else is opened by the first
    application of the same creator. The first step that fails ends it, with its error. -/
def switchTo (app : DatabaseRef) : Program ρ (Except ErrorCode Unit) := do
  match ← request (.databaseInfo app) with
  | .error e => return .error e
  | .ok info =>
    if info.isExecutable then
      notice (.launching app)
      request (.switchApp app Launch.normal none)
    else
      match ← request (.findDatabase DatabaseType.application info.creator) with
      | .error e => return .error e
      | .ok owner => launchOwner owner app

end TrapHooks.Engine
