/-!
Files in directories, and what reading a path gives. A place remembers the directories that it lies
in, so that a path can lead out of it again.
-/

namespace TrapHooks

inductive FileFault
  | notFound
  | directory
  /-- The path goes on behind a file. -/
  | notADirectory
  /-- The path, or one name in it, is longer than the system allows. -/
  | tooLong
  /-- The path holds a NUL character, which ends paths. -/
  | nul
  | other (reason : String)
deriving DecidableEq, Repr

def FileFault.message : FileFault → String
  | notFound => "No such file or directory (os error 2)"
  | directory => "Is a directory (os error 21)"
  | notADirectory => "Not a directory (os error 20)"
  | tooLong => "File name too long (os error 36)"
  | nul => "file name contained an unexpected NUL byte"
  | other reason => reason

abbrev FileContents := Except FileFault (List UInt8)

/-- A file with its bytes, or a directory with what stands in it under each name. -/
inductive FileTree
  | file (bytes : List UInt8)
  | directory (entries : List (String × FileTree))

/-- A place where a path may lead. -/
structure Place where
  tree : FileTree
  /-- The directories that it lies in, the nearest first. -/
  above : List FileTree := []

namespace Place

/-- The place that this one lies in; the root lies in itself. -/
def parent (p : Place) : Place :=
  match p.above with
  | [] => p
  | tree :: above => { tree, above }

/-- The place that paths lead from which start with a slash. -/
def root (p : Place) : Place :=
  match p.above.getLast? with
  | none => p
  | some tree => { tree }

def longestName : Nat := 255

def missing (name : String) : FileFault :=
  if longestName < name.utf8ByteSize then .tooLong else .notFound

/-- Where a name leads. Nothing and one dot stay, and two dots go to the parent; none of them leads
    anywhere from a file. -/
def step (p : Place) (name : String) : Except FileFault Place :=
  match p.tree with
  | .file _ => .error .notADirectory
  | .directory entries =>
    if name = "" ∨ name = "." then .ok p
    else if name = ".." then .ok p.parent
    else
      match entries.lookup name with
      | some tree => .ok { tree, above := p.tree :: p.above }
      | none => .error (missing name)

def longestPath : Nat := 4095

def follow (p : Place) (path : String) : Except FileFault Place :=
  if path.contains '\x00' then .error .nul
  else if longestPath < path.utf8ByteSize then .error .tooLong
  else (path.splitOn "/").foldlM step (if path.startsWith "/" then p.root else p)

def read (p : Place) (path : String) : FileContents := do
  match (← p.follow path).tree with
  | .file bytes => return bytes
  | .directory _ => throw .directory

end Place

end TrapHooks
