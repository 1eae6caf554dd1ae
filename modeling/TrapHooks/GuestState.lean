import TrapHooks.Guest.Database

/-!
What the hooks have learnt of the guest. It is saved with a session, and starts at its defaults.
-/

namespace TrapHooks

structure GuestState where
  uiReady : Bool := false
  heapReady : Bool := false
  /-- The event trap that the guest entered last. -/
  lastEventTrap : UInt16 := 0
  romVersion : UInt32 := 0
  /-- The card of the application to switch to. -/
  nextCard : UInt16 := 0
  /-- The database of the application to switch to; zero if there is none. -/
  nextId : UInt32 := 0
deriving DecidableEq, Repr

namespace GuestState

/-- The application that the guest is to switch to when it is next idle. -/
def nextApp (s : GuestState) : Option DatabaseRef :=
  if s.nextId = 0 then none else some ⟨s.nextCard, s.nextId⟩

/-- Asks for a switch, in the place of an earlier request. -/
def requestApp (app : DatabaseRef) (s : GuestState) : GuestState :=
  { s with nextCard := app.card, nextId := app.id }

def withdrawApp (s : GuestState) : GuestState :=
  s.requestApp ⟨0, 0⟩

end GuestState

end TrapHooks
