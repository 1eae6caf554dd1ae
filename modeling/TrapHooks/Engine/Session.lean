import TrapHooks.Chunk.Codec
import TrapHooks.Engine.Resolve
import TrapHooks.SessionFile

/-!
Saving the engine with a session, and loading it again.
-/

namespace TrapHooks.Engine

open Program

variable {ρ : Type}

def save (file : SessionFile) : Program ρ SessionFile := do
  let chunk := (← get).chunk
  notice (.saved chunk.version chunk.tails.length)
  return file.write chunk.encode

/-- Puts a record back; that it takes the place of another is worth a notice. -/
def putBack (record : PendingTail ρ) : Program ρ Unit := do
  match ← modifyGet (onReturns (Returns.restore record)) with
  | .stored true => notice (.recordReplaced record.call.returnPc)
  | .stored false => return
  | .nothingDue => return

/-- Puts a saved record back, with the tail hook that its call has now. -/
def restoreTail (saved : SavedTail) : Program ρ Unit := do
  let hooks ← resolve saved.call
  if hooks.tail.isNone then notice (.hookGone saved.call)
  putBack { call := saved.call, hook := hooks.tail, count := saved.count }

/-- Takes over a chunk's records and guest state, in the place of all that was there. -/
def adopt (chunk : Chunk) : Program ρ Unit := do
  modify fun e => { e with libraries := {}, returns := e.returns.clear }
  chunk.tails.forM restoreTail
  modify fun e => { e with state := chunk.state }

def loadFailure (e : ChunkError) : String :=
  "补丁数据块损坏: " ++ e.chain

/-- Loads the engine from a session's file. A file without a chunk, or with a broken one, is one that
    cannot be loaded again; a chunk of a version without records changes nothing. -/
def load (file : SessionFile) : Program ρ (SessionFile × Except ChunkError Unit) := do
  match file.chunk with
  | none =>
    notice .noChunk
    return ({ file with canReload := false }, .ok ())
  | some bytes =>
    match Chunk.decode bytes with
    | .error e => return ({ file with canReload := false }, .error e)
    | .ok chunk =>
      if Chunk.hasRecords chunk.version then adopt chunk
      notice (.loaded chunk.version (← get).returns.records.size)
      return (file, .ok ())

end TrapHooks.Engine
