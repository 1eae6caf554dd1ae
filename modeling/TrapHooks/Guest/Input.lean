/-!
Input of the host's user: keys and pen movements, and what the guest is told of them.
-/

namespace TrapHooks

/-- A key of the host's keyboard, and what was held down with it. -/
structure KeyEvent where
  key : UInt16 := 0
  shift : Bool := false
  capsLock : Bool := false
  numLock : Bool := false
  command : Bool := false
  option : Bool := false
  control : Bool := false
  alt : Bool := false
  windows : Bool := false
deriving DecidableEq, Repr

namespace Modifier

def shift : UInt16 := 0x0001
def capsLock : UInt16 := 0x0002
def numLock : UInt16 := 0x0004
def option : UInt16 := 0x0010
def control : UInt16 := 0x0020

def given (held : Bool) (bit : UInt16) : UInt16 :=
  if held then bit else 0

end Modifier

/-- The modifier bits of a key. The command bit means something else to the guest, and the keys alt
    and windows have none, so these three are left out. -/
def KeyEvent.modifiers (e : KeyEvent) : UInt16 :=
  Modifier.given e.shift Modifier.shift
    ||| Modifier.given e.capsLock Modifier.capsLock
    ||| Modifier.given e.numLock Modifier.numLock
    ||| Modifier.given e.option Modifier.option
    ||| Modifier.given e.control Modifier.control

structure Point where
  x : Int16 := 0
  y : Int16 := 0
deriving DecidableEq, Repr

/-- The position that stands for a lifted pen. -/
def Point.penUp : Point := ⟨-1, -1⟩

structure PenEvent where
  point : Point := {}
  down : Bool := false
deriving DecidableEq, Repr

/-- Where the guest is told the pen is. -/
def PenEvent.reported (e : PenEvent) : Point :=
  if e.down then e.point else Point.penUp

end TrapHooks
