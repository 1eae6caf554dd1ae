/-!
The settings of the engine, the values they have when nothing is said, and what makes them
unacceptable.
-/

namespace TrapHooks

structure Config where
  /-- The table whose hooks the system's traps take. -/
  systemTable : String := "~system"
  /-- The table whose hooks the calls of the marked protocol take. -/
  protocolTable : String := "~Htal"
  /-- The mark by which a call shows that it belongs to that protocol. -/
  protocolMark : UInt32 := 0x666
  saveVersion : Int32 := 5
  /-- Whether the injector reports why it posted nothing. -/
  logInjection : Bool := false
  /-- The timeout, in ticks, that takes the place of a wait without end. -/
  forcedWait : Int32 := 1
deriving DecidableEq, Repr

namespace Config

def newestVersion : Int32 := 5

inductive Fault
  | saveVersion (found : Int32)
deriving DecidableEq, Repr

def Fault.message : Fault → String
  | saveVersion found =>
    "persist.save_version 须在 1..=" ++ toString newestVersion.toInt ++ " 之间, 实际为 " ++ toString found.toInt

/-- Settings are accepted if the version to be written is one of the known ones that hold records. -/
def validate (c : Config) : Except Fault Unit :=
  if 1 ≤ c.saveVersion ∧ c.saveVersion ≤ newestVersion then .ok () else .error (.saveVersion c.saveVersion)

/-- Settings are accepted exactly if they write a version from one to the newest. -/
theorem validate_eq_ok_iff {c : Config} : c.validate = .ok () ↔ 1 ≤ c.saveVersion ∧ c.saveVersion ≤ newestVersion := by
  unfold validate
  split <;> simp_all

end Config

end TrapHooks
