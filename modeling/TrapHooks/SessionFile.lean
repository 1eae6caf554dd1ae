/-!
The part of a session's file that the engine reads and writes.
-/

namespace TrapHooks

structure SessionFile where
  chunk : Option (List UInt8) := none
  /-- Whether the session can safely be loaded again. -/
  canReload : Bool := true
deriving DecidableEq, Repr

namespace SessionFile

def write (chunk : List UInt8) (f : SessionFile) : SessionFile :=
  { f with chunk := some chunk }

/-- A session that holds nothing but a chunk. -/
def ofChunk (chunk : List UInt8) : SessionFile :=
  write chunk {}

end SessionFile

end TrapHooks
