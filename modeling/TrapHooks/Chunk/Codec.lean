import TrapHooks.Chunk
import TrapHooks.GuestState.Codec

/-!
The bytes of a chunk. All numbers have their most significant byte first.

* the version;
* from version one on: the first phase of the guest state, the number of records, the records;
* the second phase of the guest state.

A record is its target address, extra word, return address, address, call number, trap word and
count. The second target address is not written: it is nearly always the first, and is read as that.
-/

namespace TrapHooks.Chunk

def encodeLong (v : UInt32) : List UInt8 :=
  BigEndian.encode 4 v.toNat

def encodeWord (w : UInt16) : List UInt8 :=
  BigEndian.encode 2 w.toNat

def encodeInt (n : Int32) : List UInt8 :=
  encodeLong n.toUInt32

def encodeTail (t : SavedTail) : List UInt8 :=
  encodeLong t.call.dest ++ encodeLong t.call.extra ++ encodeLong t.call.returnPc ++ encodeLong t.call.pc
    ++ encodeWord t.call.index ++ encodeWord t.call.trap ++ encodeLong t.count

/-- Versions below one have no records, and no first phase. -/
def hasRecords (version : Int32) : Bool :=
  1 ≤ version

def encode (c : Chunk) : List UInt8 :=
  encodeInt c.version
    ++ (if hasRecords c.version then
          c.state.encode c.version .beforeRecords ++ BigEndian.encode 4 c.tails.length
            ++ c.tails.flatMap encodeTail
        else [])
    ++ c.state.encode c.version .afterRecords

/-- A reader takes what it reads off the front of the bytes. -/
abbrev Reader := StateT (List UInt8) (Except ChunkError)

namespace Reader

def number (width : Nat) : Reader Nat := fun bytes =>
  match BigEndian.read? width bytes with
  | none => .error .truncated
  | some found => .ok found

def long : Reader UInt32 := do
  return UInt32.ofNat (← number 4)

def word : Reader UInt16 := do
  return UInt16.ofNat (← number 2)

def int : Reader Int32 := do
  return (← long).toInt32

def phase (version : Int32) (p : Phase) (s : GuestState) : Reader GuestState := fun bytes =>
  match s.decode version p bytes with
  | (_, none) => .error .truncated
  | (s, some rest) => .ok (s, rest)

/-- One record; it must wait for at least one return. -/
def tail : Reader SavedTail := do
  let dest ← long
  let extra ← long
  let returnPc ← long
  let pc ← long
  let index ← word
  let trap ← word
  let count ← int
  if count ≤ 0 then throw (.useCount returnPc count)
  return {
    call := { pc := pc, returnPc := returnPc, dest := dest, secondDest := dest, trap := trap,
              index := index, extra := extra }
    count := count.toUInt32 }

def tails : Nat → Reader (List SavedTail)
  | 0 => return []
  | n + 1 => do
    let t ← tail
    return t :: (← tails n)

def countedTails : Reader (List SavedTail) := do
  let n ← int
  if n < 0 then throw (.recordCount n)
  tails n.toInt.toNat

/-- What stands between the version and the second phase: the guest state, so far as it stands there,
    and the records. -/
def body (version : Int32) : Reader (GuestState × List SavedTail) := do
  if hasRecords version then
    let s ← phase version .beforeRecords {}
    return (s, ← countedTails)
  else
    return ({}, [])

def chunk : Reader Chunk := do
  let version ← int
  let (s, tails) ← body version
  return { version := version, state := ← phase version .afterRecords s, tails := tails }

end Reader

/-- Reads a chunk off the front of some bytes; what follows it is ignored. -/
def decode (bytes : List UInt8) : Except ChunkError Chunk :=
  (Reader.chunk bytes).map (·.1)

end TrapHooks.Chunk
