import TrapHooks.Config.Decode
import TrapHooks.FileTree
import TrapHooks.Text.Quoted
import TrapHooks.Toml.Document

/-!
Settings as a file has them, from the file's bytes to accepted settings, and what can go wrong on the
way. The bytes of a file, or why there are none, come from whoever reads files.
-/

namespace TrapHooks

def utf8? (bytes : List UInt8) : Option String :=
  String.fromUTF8? ⟨bytes.toArray⟩

namespace Config

inductive FileError
  | unreadable (fault : FileFault)
  | notText
  | malformed (fault : Toml.Fault)
  | mismatch (m : Mismatch)
  | unacceptable (fault : Fault)
deriving DecidableEq, Repr

/-- The text under which an error of the file at a path is reported: what failed, and why. -/
def FileError.message (path : String) : FileError → String
  | unreadable fault => "无法读取配置文件: " ++ Quoted.text path ++ ": " ++ fault.message
  | notText => "无法读取配置文件: " ++ Quoted.text path ++ ": stream did not contain valid UTF-8"
  | malformed fault => "无法解析配置文件: " ++ Quoted.text path ++ ": " ++ fault.message
  | mismatch m => "无法解析配置文件: " ++ Quoted.text path ++ ": " ++ m.message
  | unacceptable fault => "配置文件无效: " ++ Quoted.text path ++ ": " ++ fault.message

def ofText (text : String) : Except FileError Config := do
  let document ← (Toml.parse text).mapError .malformed
  let config ← (decode document).mapError .mismatch
  config.validate.mapError .unacceptable
  return config

def ofFile (file : FileContents) : Except FileError Config := do
  let bytes ← file.mapError .unreadable
  match utf8? bytes with
  | none => throw .notText
  | some text => ofText text

end Config

end TrapHooks
