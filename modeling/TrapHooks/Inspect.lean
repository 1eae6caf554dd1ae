import TrapHooks.Chunk.Codec
import TrapHooks.Config.File
import TrapHooks.Inspect.Report

/-!
Inspecting a session's chunk: the settings are read and checked, and then the chunk is reported, if
there is one to look at. Nothing is printed unless all of it succeeds.
-/

namespace TrapHooks

structure Inspection where
  /-- The path of the settings, and the file there. -/
  configPath : String
  config : FileContents
  /-- The path of the chunk, and the file there, if a chunk is to be looked at. -/
  chunk : Option (String × FileContents) := none
  hex : Bool := false
  colour : Bool := false

namespace Inspection

inductive Failure
  | config (error : Config.FileError)
  | chunkUnreadable (path : String) (fault : FileFault)
  | chunkBroken (path : String) (error : ChunkError)
deriving DecidableEq, Repr

/-- The text under which a failure is reported, with all that it came from. -/
def Failure.message (i : Inspection) : Failure → String
  | config error => error.message i.configPath
  | chunkUnreadable path fault => "无法读取补丁数据块: " ++ Quoted.text path ++ ": " ++ fault.message
  | chunkBroken path error => "无法解码补丁数据块: " ++ path ++ ": " ++ error.chain

def report (i : Inspection) (config : Config) (bytes : List UInt8) (c : Chunk) : List String :=
  Report.chunkLines i.colour config.saveVersion c ++ if i.hex then Report.hexLines i.colour bytes else []

def run (i : Inspection) : Except Failure (List String) := do
  let config ← (Config.ofFile i.config).mapError .config
  match i.chunk with
  | none => return []
  | some (path, file) =>
    let bytes ← file.mapError (.chunkUnreadable path)
    let chunk ← (Chunk.decode bytes).mapError (.chunkBroken path)
    return i.report config bytes chunk

def output (i : Inspection) : Except Failure String :=
  i.run.map Report.print

end Inspection

end TrapHooks
