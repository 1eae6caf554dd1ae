import TrapHooks.Guest.Database
import TrapHooks.Guest.Input

/-!
What the engine asks of those around it: the processor, the running session, the routines of the
guest, and the two sources of made-up input. A request names its reply's type, and that is all the
engine knows of it: whoever serves a request may enter the engine again before replying.
-/

namespace TrapHooks

/-- A preference of the user that outlives a session. -/
inductive Preference
  | strictIntlChecks
  | overlayErrors
deriving DecidableEq, Repr

inductive Line
  | serial
  | infrared
deriving DecidableEq, Repr

namespace Line

/-- The lines, in the order in which they are opened. -/
def all : List Line :=
  [serial, infrared]

def name : Line → String
  | serial => "Serial"
  | infrared => "Infrared"

end Line

inductive Request
  | programCounter
  | setResult (value : UInt32)
  /-- The timeout of the wait that the guest is in. -/
  | waitTimeout
  | setWaitTimeout (ticks : Int32)
  /-- Whether the session was loaded and its guest not yet mended. -/
  | bootstrapDue
  | setBootstrapDue (due : Bool)
  /-- Whether the guest runs on behalf of the host, inside a call that the host made. -/
  | isNested
  /-- Whether the guest's event manager waits for an event. -/
  | isIdle
  | hasKey
  | takeKey
  | hasPen
  | takePen
  /-- Tells those who wait for the guest to be idle that it is. -/
  | signalIdle
  | debuggerAttached
  | preference (p : Preference)
  | setUserName (name : String)
  /-- Installs the files that lie ready for it. -/
  | autoload
  | lineActive (line : Line)
  | openTransport (line : Line)
  /-- Sets whether time is being measured, and tells whether it was. -/
  | setProfiling (on : Bool)
  | hostTime
  | trapExists (trap : UInt16)
  | getFeature (creator : UInt32) (number : UInt16)
  | setFeature (creator : UInt32) (number : UInt16) (value : UInt32)
  | removeFeature (creator : UInt32) (number : UInt16)
  | setStrictChecks (on : Bool)
  /-- The user's name as the desktop link knows it. -/
  | syncUserName
  /-- Wakes a guest that waits for an event. -/
  | wakeEvents
  /-- Sets the guest's clock, in seconds since 1904. -/
  | setClock (seconds : UInt32)
  | postKey (key code modifiers : UInt16)
  | postPen (point : Point)
  /-- The name of the library that has a handle now. -/
  | libraryName (refnum : UInt16)
  | databaseInfo (db : DatabaseRef)
  | findDatabase (type creator : UInt32)
  | allocate (size : UInt32)
  | setOwner (block : UInt32) (owner : UInt16)
  | writeWord (address : UInt32) (value : UInt16)
  | writeLong (address : UInt32) (value : UInt32)
  /-- Has the guest leave its application for another. -/
  | switchApp (app : DatabaseRef) (command : UInt16) (parameter : Option UInt32)
  | replaying
  | replayEvent
  | replayPen
  /-- Whether the guest is being tried with random input. -/
  | stressing
  | stressEvent
  | stressPen
deriving DecidableEq, Repr

/-- The type of the reply to a request. What can fail in the guest replies with the guest's code for
    it, and what can fail in the host with a text. -/
abbrev Request.Reply : Request → Type
  | programCounter => UInt32
  | setResult _ => Unit
  | waitTimeout => Int32
  | setWaitTimeout _ => Unit
  | bootstrapDue => Bool
  | setBootstrapDue _ => Unit
  | isNested => Bool
  | isIdle => Bool
  | hasKey => Bool
  | takeKey => KeyEvent
  | hasPen => Bool
  | takePen => PenEvent
  | signalIdle => Unit
  | debuggerAttached => Bool
  | preference _ => Bool
  | setUserName _ => Unit
  | autoload => Except String Unit
  | lineActive _ => Bool
  | openTransport _ => Except String Unit
  | setProfiling _ => Bool
  | hostTime => UInt64
  | trapExists _ => Bool
  | getFeature _ _ => Except ErrorCode UInt32
  | setFeature _ _ _ => Except ErrorCode Unit
  | removeFeature _ _ => Except ErrorCode Unit
  | setStrictChecks _ => Unit
  | syncUserName => Except ErrorCode String
  | wakeEvents => Unit
  | setClock _ => Unit
  | postKey _ _ _ => Unit
  | postPen _ => Unit
  | libraryName _ => Option String
  | databaseInfo _ => Except ErrorCode DatabaseInfo
  | findDatabase _ _ => Except ErrorCode DatabaseRef
  | allocate _ => Option UInt32
  | setOwner _ _ => Unit
  | writeWord _ _ => Unit
  | writeLong _ _ => Unit
  | switchApp _ _ _ => Except ErrorCode Unit
  | replaying => Bool
  | replayEvent => Bool
  | replayPen => Bool
  | stressing => Bool
  | stressEvent => Bool
  | stressPen => Bool

/-- A request is a query if it only asks for something that the host has at hand; all others do
    something, or run a routine of the guest. -/
def Request.isQuery : Request → Bool
  | programCounter | waitTimeout | bootstrapDue | setBootstrapDue _ | isNested | isIdle | hasKey | takeKey
  | hasPen | takePen | debuggerAttached | preference _ | lineActive _ | hostTime | trapExists _
  | replaying | stressing => true
  | _ => false

end TrapHooks
