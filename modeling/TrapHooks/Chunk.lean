import TrapHooks.Call
import TrapHooks.GuestState

/-!
Chunks: what a session keeps of the engine. A hook is not data, so a record holds only its call and
its count, and the hook is looked up again when the session is loaded.
-/

namespace TrapHooks

/-- A waiting tail hook as a session keeps it. -/
structure SavedTail where
  call : Call
  count : UInt32
deriving DecidableEq, Repr

structure Chunk where
  version : Int32
  state : GuestState
  tails : List SavedTail
deriving DecidableEq, Repr

inductive ChunkError
  | truncated
  | recordCount (found : Int32)
  /-- A record waits for no return, or for a negative number. -/
  | useCount (address : UInt32) (found : Int32)
deriving DecidableEq, Repr

namespace ChunkError

/-- What the reader of bytes says when they end too early. -/
def endOfBytes : String :=
  "failed to fill whole buffer"

def message : ChunkError → String
  | truncated => "补丁数据块读写错误: " ++ endOfBytes
  | recordCount found => "尾补丁记录数无效: " ++ toString found.toInt
  | useCount address found =>
    "尾补丁引用计数无效: 返回地址 " ++ Hex.number address.toNat ++ ", 计数 " ++ toString found.toInt

/-- The error with what it came from: too early an end has the reader's own text for a cause. -/
def chain : ChunkError → String
  | truncated => message truncated ++ ": " ++ endOfBytes
  | e => e.message

end ChunkError

end TrapHooks
