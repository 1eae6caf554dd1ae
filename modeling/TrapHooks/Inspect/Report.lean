import TrapHooks.Chunk

/-!
The report on a chunk, as lines of text that may be coloured: the version and the guest state, a line
for each record, and, if wanted, the bytes in rows of sixteen.
-/

namespace TrapHooks

inductive Style
  | bold
  | dimmed
  | red
  | green
  | yellow
  | cyan
deriving DecidableEq, Repr

def Style.code : Style → String
  | bold => "1"
  | dimmed => "2"
  | red => "31"
  | green => "32"
  | yellow => "33"
  | cyan => "36"

/-- Text in a style, if there are colours. -/
def Style.paint (colour : Bool) (style : Style) (text : String) : String :=
  if colour then "\x1b[" ++ style.code ++ "m" ++ text ++ "\x1b[0m" else text

namespace Report

def rowLength : Nat := 16

/-- A version is green if it is the one that would be written now, and yellow otherwise. -/
def versionLine (colour : Bool) (current : Int32) (c : Chunk) : String :=
  Style.bold.paint colour "Patch info version:" ++ " "
    ++ (if c.version = current then Style.green else Style.yellow).paint colour (toString c.version.toInt)

def nextApp (colour : Bool) (s : GuestState) : String :=
  match s.nextApp with
  | some app => Style.cyan.paint colour ("card " ++ toString app.card.toNat ++ " db " ++ Hex.long app.id)
  | none => "-"

def stateLines (colour : Bool) (s : GuestState) : List String :=
  [ "  UI initialized:   " ++ toString s.uiReady,
    "  Heap initialized: " ++ toString s.heapReady,
    "  Last event trap:  " ++ Hex.word s.lastEventTrap,
    "  OS version:       " ++ Hex.long s.romVersion,
    "  Next app:         " ++ nextApp colour s ]

/-- A record's call and count; a count above one is red. -/
def tailLine (colour : Bool) (t : SavedTail) : String :=
  let count := "x" ++ toString t.count.toNat
  "  " ++ t.call.text ++ " " ++ (if 1 < t.count then Style.red.paint colour count else count)

def chunkLines (colour : Bool) (current : Int32) (c : Chunk) : List String :=
  versionLine colour current c :: stateLines colour c.state
    ++ (Style.bold.paint colour "Pending tailpatches:" ++ " " ++ toString c.tails.length)
      :: c.tails.map (tailLine colour)

/-- One row: where it starts, in at least six digits, and its bytes. -/
def row (colour : Bool) (start : Nat) (bytes : List UInt8) : String :=
  "  " ++ String.ofList (Hex.padded 6 start) ++ "  " ++ Style.dimmed.paint colour (Hex.ofBytes bytes)

/-- How many rows some bytes take, of which the last may be short. -/
def rowCount (bytes : List UInt8) : Nat :=
  (bytes.length + (rowLength - 1)) / rowLength

def rows (colour : Bool) (bytes : List UInt8) : List String :=
  (List.range (rowCount bytes)).map fun i =>
    row colour (i * rowLength) ((bytes.drop (i * rowLength)).take rowLength)

def hexLines (colour : Bool) (bytes : List UInt8) : List String :=
  Style.bold.paint colour "Raw chunk:" :: rows colour bytes

/-- Lines as they are printed, each with its end. -/
def print (lines : List String) : String :=
  String.join (lines.map (· ++ "\n"))

end Report

end TrapHooks
