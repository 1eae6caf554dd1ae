/-!
Trap words: the sixteen-bit words by which the guest calls a routine of its system or of a shared
library. The words of the system form one interval, and a routine's number in it is its distance
from the start.
-/

namespace TrapHooks.Trap

/-- The first word of the system's interval. -/
def systemBase : UInt16 := 0xA000

/-- The first word behind the system's interval, where calls into shared libraries start. -/
def libraryBase : UInt16 := 0xA800

def getEvent : UInt16 := 0xA11D

def getPen : UInt16 := 0xA11E

def semaphoreWait : UInt16 := 0xA0B2

def groupWait : UInt16 := 0xA2CB

/-- Reads what the desktop link knows of the last synchronisation. -/
def syncInfo : UInt16 := 0xA2A6

/-- A routine's number in the system's interval; the distance wraps below its start. -/
def systemIndex (word : UInt16) : UInt16 :=
  word - systemBase

/-- A word is the system's if its distance from the start, which wraps, is within the interval. -/
def isSystem (word : UInt16) : Bool :=
  systemIndex word < libraryBase - systemBase

end TrapHooks.Trap
