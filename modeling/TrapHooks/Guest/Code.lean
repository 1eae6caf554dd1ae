import TrapHooks.Text.BigEndian
import TrapHooks.Text.Hex

/-!
The numbers by which the guest names things: four-character codes for creators, types and features,
launch commands, error codes and the start of its calendar.
-/

namespace TrapHooks

/-- A four-character code is its bytes read as one number, first character highest. -/
def fourCC (bytes : List UInt8) : UInt32 :=
  UInt32.ofNat (BigEndian.decode bytes)

namespace Creator

/-- The system itself, `psys`. -/
def system : UInt32 := 0x70737973

/-- The stub of the remote debugger, `gdbS`. -/
def debugger : UInt32 := 0x67646253

/-- The manager of localised overlays, `ovly`. -/
def overlays : UInt32 := 0x6F766C79

end Creator

namespace DatabaseType

def application : UInt32 := 0x6170706C

def panel : UInt32 := 0x70616E6C

end DatabaseType

namespace Feature

/-- The number under which the system keeps the version of its ROM. -/
def romVersion : UInt16 := 1

/-- The value that announces an attached debugger. -/
def debuggerPresent : UInt32 := 0x12BEEF34

/-- The number under which the overlay manager keeps whether it reports errors. -/
def showOverlayErrors : UInt16 := 0

end Feature

namespace Launch

/-- Starts an application as the user would. -/
def normal : UInt16 := 0

/-- Starts an application on a given database. -/
def openDatabase : UInt16 := 28

/-- The size of the block that names the database: a card number and a database number. -/
def openDatabaseSize : UInt32 := 6

end Launch

/-- A guest routine's answer that it failed, by the guest's own number for the reason. -/
structure ErrorCode where
  value : UInt16
deriving DecidableEq, Repr

namespace ErrorCode

def notEnoughSpace : ErrorCode := ⟨0x0102⟩

def cannotFind : ErrorCode := ⟨0x0207⟩

def noSuchFeature : ErrorCode := ⟨0x0C02⟩

def message (e : ErrorCode) : String :=
  "客户机错误: " ++ Hex.word e.value

end ErrorCode

/-- The value of a wait's timeout that means no end. -/
def waitForever : Int32 := -1

/-- The result of a wait that ran into its timeout, on which an event fetch returns the empty event. -/
def timedOut : UInt32 := 4

namespace Clock

/-- Seconds from the start of the guest's calendar, 1904, to the start of the host's, 1970. -/
def epochOffset : UInt64 := 2082844800

/-- The host's time as the guest counts it, in the thirty-two bits that the guest has for it. The host's clock ends
    before 2^63 seconds, so that the sum is the true one. -/
def ofUnix (seconds : UInt64) : UInt32 :=
  (seconds + epochOffset).toUInt32

end Clock

end TrapHooks
