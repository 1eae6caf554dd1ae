import TrapHooks.FileTree

/-!
The settings that come with the engine, and the directory that they come in. Paths that do not start
at the root start there.
-/

namespace TrapHooks.Config

def shippedDirectory : String := "profile"

def shippedName : String := "config.toml"

def shippedPath : String := shippedDirectory ++ "/" ++ shippedName

/-- The settings that come with the engine, as a file. -/
def shippedText : String :=
  "# 补丁引擎默认配置\n\n"
    ++ "[patch]\nsystem_module = \"~system\"\nhtal_module = \"~Htal\"\nhtal_magic_refnum = 0x666\n\n"
    ++ "[persist]\nsave_version = 5\n\n"
    ++ "[puppet]\nlog_enqueued_events = false\nforced_wait_ticks = 1\n"

def shippedEntries : List (String × FileTree) :=
  [(shippedDirectory, .directory [(shippedName, .file shippedText.toUTF8.toList)])]

/-- The engine's own directory, in one that holds nothing else. -/
def shippedPlace : Place where
  tree := .directory shippedEntries
  above := [.directory []]

/-- What reading a file gives where there are only those that come with the engine. -/
def shipped (path : String) : FileContents :=
  shippedPlace.read path

end TrapHooks.Config
