import TrapHooks.GuestState
import TrapHooks.Text.BigEndian

/-!
The written form of the guest state. Each field came in with a version of the format and is written
in one of two phases, of which the first stands before the records of a chunk and the second behind
them. One table of fields serves writing and reading.
-/

namespace TrapHooks

/-- The two places of a chunk at which fields of the guest state stand. -/
inductive Phase
  | beforeRecords
  | afterRecords
deriving DecidableEq, Repr

namespace GuestState

/-- The fields, in the order in which they are written. -/
inductive Field
  | uiReady
  | heapReady
  | lastEventTrap
  | romVersion
  | nextCard
  | nextId
deriving DecidableEq, Repr

namespace Field

def all : List Field :=
  [uiReady, heapReady, lastEventTrap, romVersion, nextCard, nextId]

def since : Field → Int32
  | uiReady => 1
  | heapReady => 1
  | lastEventTrap => 2
  | romVersion => 4
  | nextCard => 3
  | nextId => 3

def phase : Field → Phase
  | uiReady => .beforeRecords
  | heapReady => .beforeRecords
  | lastEventTrap => .beforeRecords
  | romVersion => .beforeRecords
  | nextCard => .afterRecords
  | nextId => .afterRecords

def width : Field → Nat
  | uiReady => 1
  | heapReady => 1
  | lastEventTrap => 2
  | romVersion => 4
  | nextCard => 2
  | nextId => 4

def get : Field → GuestState → Nat
  | uiReady, s => s.uiReady.toNat
  | heapReady, s => s.heapReady.toNat
  | lastEventTrap, s => s.lastEventTrap.toNat
  | romVersion, s => s.romVersion.toNat
  | nextCard, s => s.nextCard.toNat
  | nextId, s => s.nextId.toNat

/-- Sets a field from its number; any number but zero is a yes. -/
def set : Field → Nat → GuestState → GuestState
  | uiReady, n, s => { s with uiReady := n != 0 }
  | heapReady, n, s => { s with heapReady := n != 0 }
  | lastEventTrap, n, s => { s with lastEventTrap := UInt16.ofNat n }
  | romVersion, n, s => { s with romVersion := UInt32.ofNat n }
  | nextCard, n, s => { s with nextCard := UInt16.ofNat n }
  | nextId, n, s => { s with nextId := UInt32.ofNat n }

def encode (s : GuestState) (f : Field) : List UInt8 :=
  BigEndian.encode f.width (f.get s)

end Field

/-- The fields that a version writes in a phase. -/
def fieldsOf (version : Int32) (phase : Phase) : List Field :=
  Field.all.filter fun f => f.since ≤ version ∧ f.phase = phase

def encode (version : Int32) (phase : Phase) (s : GuestState) : List UInt8 :=
  (fieldsOf version phase).flatMap (Field.encode s)

/-- Reads fields in order off the front of some bytes. The bytes left over are `none` once they have
    run out; the fields before that point are set, and the others stay as they were. -/
def decodeFields : List Field → List UInt8 → GuestState → GuestState × Option (List UInt8)
  | [], bytes, s => (s, some bytes)
  | f :: fields, bytes, s =>
    match BigEndian.read? f.width bytes with
    | none => (s, none)
    | some (n, rest) => decodeFields fields rest (f.set n s)

/-- Reads one phase; the fields that the version does not have stay as they were. -/
def decode (version : Int32) (phase : Phase) (bytes : List UInt8) (s : GuestState) :
    GuestState × Option (List UInt8) :=
  decodeFields (fieldsOf version phase) bytes s

/-- The bytes of several phases, one after the other. -/
def encodePhases (version : Int32) (phases : List Phase) (s : GuestState) : List UInt8 :=
  phases.flatMap fun phase => s.encode version phase

/-- Reads several phases one after the other, up to the point where the bytes run out. -/
def decodePhases (version : Int32) (phases : List Phase) (bytes : List UInt8) (s : GuestState) :
    GuestState × Option (List UInt8) :=
  decodeFields (phases.flatMap (fieldsOf version)) bytes s

end GuestState

end TrapHooks
