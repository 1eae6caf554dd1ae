import TrapHooks.Guest.Trap
import TrapHooks.Text.Hex

/-!
Intercepted calls: the snapshot that the interpreter takes at a trap, the text it is reported under,
and the two ways in which a call goes on.
-/

namespace TrapHooks

/-- Whether the routine in the ROM still has to run. -/
inductive Decision
  | execute
  | skip
deriving DecidableEq, Repr

def Decision.name : Decision → String
  | execute => "Execute"
  | skip => "Skip"

/-- The snapshot of one trap. -/
structure Call where
  /-- Where the trap instruction stands. -/
  pc : UInt32 := 0
  /-- Where the guest goes on when the routine returns. -/
  returnPc : UInt32 := 0
  dest : UInt32 := 0
  secondDest : UInt32 := 0
  trap : UInt16 := 0
  /-- The routine's number in its module. -/
  index : UInt16 := 0
  /-- The handle of a shared library, or the mark of a protocol. -/
  extra : UInt32 := 0
deriving DecidableEq, Repr

namespace Call

/-- A call of the system: the routine's number is read off the trap word. -/
def system (trap : UInt16) (pc returnPc : UInt32) : Call :=
  { pc := pc, returnPc := returnPc, dest := returnPc, secondDest := returnPc, trap := trap,
    index := Trap.systemIndex trap, extra := 0 }

/-- A call of a shared library, by the library's handle. -/
def library (trap index : UInt16) (handle pc returnPc : UInt32) : Call :=
  { pc := pc, returnPc := returnPc, dest := returnPc, secondDest := returnPc, trap := trap,
    index := index, extra := handle }

/-- The text under which a call is reported. -/
def text (c : Call) : String :=
  "trap " ++ Hex.word c.trap ++ "[" ++ toString c.index.toNat ++ "] extra=" ++ Hex.number c.extra.toNat
    ++ " pc=" ++ Hex.long c.pc ++ " ret=" ++ Hex.long c.returnPc

/-- Whose hooks a call belongs to. -/
inductive Home
  | system
  | protocol
  | library (refnum : UInt16)
  | nowhere
deriving DecidableEq, Repr

/-- A system trap belongs to the system whatever else the call carries; then comes the mark of the
    protocol, then a library's handle; a number that is no handle leads nowhere. -/
def home (mark : UInt32) (c : Call) : Home :=
  if Trap.isSystem c.trap then .system
  else if c.extra = mark then .protocol
  else if c.extra.toNat < UInt16.size then .library c.extra.toUInt16
  else .nowhere

end Call

end TrapHooks
