import TrapHooks.Guest.Code

/-!
Databases of the guest, and which of them are programs.
-/

namespace TrapHooks

/-- What the guest tells of one of its databases. -/
structure DatabaseInfo where
  attributes : UInt16 := 0
  type : UInt32 := 0
  creator : UInt32 := 0
deriving DecidableEq, Repr

/-- A database can be launched itself if its type is that of an application or a panel; neither its
    creator nor its attributes matter. -/
def DatabaseInfo.isExecutable (d : DatabaseInfo) : Bool :=
  d.type == DatabaseType.application || d.type == DatabaseType.panel

/-- Where the guest keeps a database: the number of its memory card and its number there. -/
structure DatabaseRef where
  card : UInt16
  id : UInt32
deriving DecidableEq, Repr

end TrapHooks
