import Std.Data.ExtTreeMap
import Std.Data.ExtTreeSet
import TrapHooks.Hook
import TrapHooks.Sum

/-!
Calls whose tail hook waits for the guest's routine to return. There is at most one record for a
return address; a call that is entered again before it returns only counts. The interpreter stops
at an address that is marked, so every operation here moves the marks along with the records.
-/

namespace TrapHooks

/-- A tail hook that waits for a return. -/
structure PendingTail (ρ : Type) where
  call : Call
  /-- What runs at the return; a record that comes from a session whose hook is gone has nothing. -/
  hook : Option (TailHook ρ)
  /-- How many returns are still to come. -/
  count : UInt32
deriving DecidableEq, Repr

/-- The addresses at which the interpreter stops. -/
abbrev Marks := Std.ExtTreeSet UInt32

structure Returns (ρ : Type) where
  /-- The waiting tail hooks by return address. -/
  records : Std.ExtTreeMap UInt32 (PendingTail ρ) := ∅
  marks : Marks := ∅

/-- What came of a tail hook that is to wait. -/
inductive Armed
  /-- It is the first to wait at its address. -/
  | first
  /-- The address has a record, which now waits for this many returns. -/
  | again (count : UInt32)
  /-- The address has a record whose count can grow no more, and it is left as it is. -/
  | overflow
deriving DecidableEq, Repr

/-- How many returns the address now waits for. -/
def Armed.count? : Armed → Option UInt32
  | first => some 1
  | again count => some count
  | overflow => none

/-- What a stop at an address found. -/
inductive Arrival (ρ : Type)
  /-- No record: somebody else marked the address. -/
  | unknown
  /-- A record, what it had to run, and whether this was its last return. -/
  | returned (due : Option (TailHook ρ × Call)) (last : Bool)

/-- What came of a record that was to be put back. -/
inductive Restored
  /-- The record waits for no return, so there is none. -/
  | nothingDue
  /-- The record is there, possibly in the place of another. -/
  | stored (replaced : Bool)
deriving DecidableEq, Repr

namespace Returns

variable {ρ : Type}

/-- Marks an address for somebody other than the records. -/
def mark (address : UInt32) (r : Returns ρ) : Returns ρ :=
  { r with marks := r.marks.insert address }

def unmark (address : UInt32) (r : Returns ρ) : Returns ρ :=
  { r with marks := r.marks.erase address }

/-- Lets a tail hook wait for the return of a call. A record that is already there keeps its own call
    and hook, and waits for one return more, unless that is more than its count can tell. -/
def arm (hook : TailHook ρ) (call : Call) (r : Returns ρ) : Armed × Returns ρ :=
  match r.records[call.returnPc]? with
  | some record =>
    match sum? record.count 1 with
    | some count =>
      (.again count, { r with records := r.records.insert call.returnPc { record with count := count } })
    | none => (.overflow, r)
  | none =>
    (.first,
      { records := r.records.insert call.returnPc { call := call, hook := some hook, count := 1 },
        marks := r.marks.insert call.returnPc })

/-- One return fewer, never below none. -/
def remaining (count : UInt32) : UInt32 :=
  if count = 0 then 0 else count - 1

/-- Takes one return from the record of an address; the record and the mark go with the last. -/
def arrive (address : UInt32) (r : Returns ρ) : Arrival ρ × Returns ρ :=
  match r.records[address]? with
  | none => (.unknown, r)
  | some record =>
    let due := record.hook.map fun hook => (hook, record.call)
    let count := remaining record.count
    if count = 0 then
      (.returned due true, { records := r.records.erase address, marks := r.marks.erase address })
    else
      (.returned due false, { r with records := r.records.insert address { record with count := count } })

/-- Puts a record of a session back as it was; it takes the place of one with the same address. -/
def restore (record : PendingTail ρ) (r : Returns ρ) : Restored × Returns ρ :=
  if record.count = 0 then (.nothingDue, r)
  else
    let address := record.call.returnPc
    (.stored (r.records.contains address),
      { records := r.records.insert address record, marks := r.marks.insert address })

def install (r : Returns ρ) : Returns ρ :=
  { r with marks := r.records.keys.foldl (fun marks address => marks.insert address) r.marks }

def uninstall (r : Returns ρ) : Returns ρ :=
  { r with marks := r.records.keys.foldl (fun marks address => marks.erase address) r.marks }

def clear (r : Returns ρ) : Returns ρ :=
  { r.uninstall with records := ∅ }

def get? (address : UInt32) (r : Returns ρ) : Option (PendingTail ρ) :=
  r.records[address]?

theorem get?_arm_of_ne {hook : TailHook ρ} {call : Call} {address : UInt32} (ne : address ≠ call.returnPc)
    (r : Returns ρ) : (r.arm hook call).2.get? address = r.get? address := by
  unfold arm get?
  split
  · split <;> simp [Std.ExtTreeMap.getElem?_insert, ne.symm]
  · simp [Std.ExtTreeMap.getElem?_insert, ne.symm]

/-- A record that waits for a return is put back as it is, and all others stay. -/
theorem get?_restore {record : PendingTail ρ} (waits : record.count ≠ 0) (address : UInt32) (r : Returns ρ) :
    (r.restore record).2.get? address = if record.call.returnPc = address then some record else r.get? address := by
  simp [restore, get?, waits, Std.ExtTreeMap.getElem?_insert]

@[simp] theorem get?_clear (address : UInt32) (r : Returns ρ) : r.clear.get? address = none := by
  simp [clear, get?]

/-- The records, by ascending return address. -/
def toList (r : Returns ρ) : List (PendingTail ρ) :=
  r.records.values

def isMarked (address : UInt32) (r : Returns ρ) : Bool :=
  r.marks.contains address

def marked (r : Returns ρ) : List UInt32 :=
  r.marks.toList

end Returns

end TrapHooks
