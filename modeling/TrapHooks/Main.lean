import TrapHooks.Inspect
import TrapHooks.Inspect.CommandLine

/-!
The inspection tool as a program: it reads the files that its command line names and prints what the
inspection says. Everything that is decided is decided elsewhere.
-/

namespace TrapHooks

def readFile (path : String) : IO FileContents := do
  match ← (IO.FS.readBinFile path).toBaseIO with
  | .ok bytes => return .ok bytes.toList
  | .error (.noFileOrDirectory ..) => return .error .notFound
  | .error (.inappropriateType _ 20 _) => return .error .notADirectory
  | .error (.inappropriateType ..) => return .error .directory
  | .error error => return .error (.other (toString error))

/-- Reads the settings; the ones that come with the engine need not be there as a file. -/
def readConfig (path : String) : IO FileContents := do
  match ← readFile path with
  | .error .notFound => return Config.shipped path
  | file => return file

def mayColour : IO Bool := do
  return (← (← IO.getStdout).isTty) && (← IO.getEnv "NO_COLOR").isNone

def Inspection.ofCommandLine (line : CommandLine) : IO Inspection := do
  let config ← readConfig line.config
  let chunk ← line.chunk.mapM fun path => return (path, ← readFile path)
  return { configPath := line.config, config, chunk, hex := line.hex, colour := ← mayColour }

end TrapHooks

open TrapHooks in
/-- Inspects what the arguments ask for; a refused command line ends with 2, a failure with 1. -/
def main (args : List String) : IO UInt32 := do
  match CommandLine.parse args with
  | .error .help => IO.print CommandLine.usage; return 0
  | .error .version => IO.print CommandLine.versionText; return 0
  | .error (.fault f) => IO.eprint (f.message ++ "\n\n" ++ CommandLine.usage); return 2
  | .ok line =>
    let inspection ← Inspection.ofCommandLine line
    match inspection.output with
    | .ok text => IO.print text; return 0
    | .error failure => IO.eprintln (failure.message inspection); return 1
