import TrapHooks.Toml.Literal
import TrapHooks.Toml.Quotation
import TrapHooks.Toml.Tree

/-!
Reading a TOML document: lines that hold a header, a key with its value, or nothing. The readers that
call themselves take a measure that is at least the length of the text, and every call of theirs has
taken something off it.
-/

namespace TrapHooks.Toml

namespace Reader

def fail {α : Type} (f : Fault) : Reader α :=
  fun _ => .error f

def blanks : Reader Unit :=
  modify fun cs => cs.dropWhile fun c => c = ' ' ∨ c = '\t'

/-- Takes a mark off the front of the text, or fails. -/
def mark (c : Char) : Reader Unit := do
  match ← get with
  | d :: rest => if d = c then set rest else fail (.expected (String.singleton c))
  | [] => fail (.expected (String.singleton c))

/-- Whether a mark stands at the front of the text, which it is then taken off. -/
def mark? (c : Char) : Reader Bool := do
  match ← get with
  | d :: rest => if d = c then set rest; return true else return false
  | [] => return false

/-- The text behind a comment, which ends before the end of its line. -/
def skipComment : List Char → Except Fault (List Char)
  | [] => .ok []
  | '\n' :: rest => .ok ('\n' :: rest)
  | '\r' :: '\n' :: rest => .ok ('\r' :: '\n' :: rest)
  | c :: rest => if isText c then skipComment rest else .error (.badCharacter c)

/-- Drops a comment, if one starts here. -/
def comment : Reader Unit := do
  match ← get with
  | '#' :: rest => set (← skipComment rest)
  | _ => return

/-- Drops the end of a line; the end of the text is one as well. -/
def lineEnd : Reader Unit := do
  match ← get with
  | [] => return
  | '\n' :: rest => set rest
  | '\r' :: '\n' :: rest => set rest
  | _ => fail (.expected "the end of the line")

/-- Drops what may stand behind the contents of a line, and the line's end. -/
def endOfLine : Reader Unit := do
  blanks
  comment
  lineEnd

/-- Drops blanks, comments and ends of lines, as they may stand between the parts of an array or of a
    table between braces. -/
def gap : Nat → Reader Unit
  | 0 => return
  | n + 1 => do
    blanks
    comment
    match ← get with
    | '\n' :: rest => set rest; gap n
    | '\r' :: '\n' :: rest => set rest; gap n
    | _ => return

def isBare (c : Char) : Bool :=
  c.isAlphanum || c = '_' || c = '-'

def keyPart : Reader String := do
  match ← get with
  | '"' :: rest => let (cs, rest) ← basic rest; set rest; return String.ofList cs
  | '\'' :: rest => let (cs, rest) ← literal rest; set rest; return String.ofList cs
  | cs =>
    let (key, rest) := cs.span isBare
    if key.isEmpty then fail (.expected "a key")
    set rest
    return String.ofList key

/-- The further parts of a key, each behind a dot. -/
def keyRest : Nat → Reader (List String)
  | 0 => return []
  | n + 1 => do
    blanks
    if ← mark? '.' then
      blanks
      let part ← keyPart
      return part :: (← keyRest n)
    else return []

/-- The deepest nesting: of arrays and tables within one value, and of tables along one key. -/
def deepest : Nat := 80

/-- A key: the path to a table, and the key in it. -/
def key : Reader (List String × String) := do
  let first ← keyPart
  let rest ← keyRest (← get).length
  let parts := first :: rest
  if deepest < parts.length then fail .tooDeep
  return (parts.dropLast, rest.getLast?.getD first)

def endsWord (c : Char) : Bool :=
  ['\n', '\r', '#', ',', '=', '[', ']', '\x7b', '\x7d'].contains c

/-- Splits a text where a word ends. A quote ends it as well if it stands behind a blank, for there it
    opens a string. -/
def splitWord : Bool → List Char → List Char × List Char
  | _, [] => ([], [])
  | isBehindBlank, c :: rest =>
    if endsWord c || (isBehindBlank && (c = '"' || c = '\'')) then ([], c :: rest)
    else
      let (front, back) := splitWord (c = ' ' || c = '\t') rest
      (c :: front, back)

def dropTrailingBlanks (cs : List Char) : List Char :=
  (cs.reverse.dropWhile fun c => c = ' ' ∨ c = '\t').reverse

/-- A value without quotes around it. Blanks within it belong to it, as a date may have one in front
    of its time, but those behind it do not. -/
def word : Reader Item := do
  let (front, rest) := splitWord false (← get)
  set rest
  ofWord (dropTrailingBlanks front)

mutual

/-- A value, with so many levels of nesting left. -/
def valueWithin : Nat → Nat → Reader Item
  | 0, _ => fail (.expected "a value")
  | n + 1, depth => do
    let cs ← get
    match quotation? cs with
    | some read => let (text, rest) ← read; set rest; return .string (String.ofList text)
    | none =>
      match cs, depth with
      | '[' :: _, 0 => fail .tooDeep
      | '\x7b' :: _, 0 => fail .tooDeep
      | '[' :: rest, depth + 1 => set rest; return .array (← itemsWithin n depth)
      | '\x7b' :: rest, depth + 1 => set rest; return .table .inline (← entriesWithin n depth [])
      | _, _ => word

/-- The items of an array, up to its closing bracket; a comma may stand behind the last. -/
def itemsWithin : Nat → Nat → Reader (List Item)
  | 0, _ => fail (.expected "]")
  | n + 1, depth => do
    gap (← get).length
    if ← mark? ']' then return []
    let item ← valueWithin n depth
    gap (← get).length
    if ← mark? ',' then return item :: (← itemsWithin n depth)
    mark ']'
    return [item]

/-- The entries of a table between braces, up to its closing brace and behind those that were read
    already; a comma may stand behind the last. -/
def entriesWithin : Nat → Nat → Entries → Reader Entries
  | 0, _, _ => fail (.expected "\x7d")
  | n + 1, depth, entries => do
    gap (← get).length
    if ← mark? '\x7d' then return entries
    let (path, last) ← key
    gap (← get).length
    mark '='
    gap (← get).length
    let item ← valueWithin n depth
    let entries ← Toml.insert path last item .inline entries
    gap (← get).length
    if ← mark? ',' then entriesWithin n depth entries
    else
      mark '\x7d'
      return entries

end

def value : Reader Item := do
  valueWithin ((← get).length + 1) deepest

def header : Reader (List String × String) := do
  blanks
  let path ← key
  blanks
  mark ']'
  return path

/-- What a document holds so far, and the path of the table that keys are added to. -/
structure State where
  root : Entries := []
  path : List String := []

def line (s : State) : Reader State := do
  blanks
  match ← get with
  | [] => return s
  | '#' :: _ => return s
  | '\n' :: _ => return s
  | '\r' :: '\n' :: _ => return s
  | '[' :: '[' :: rest =>
    set rest
    let (path, last) ← header
    mark ']'
    return { root := ← descend .implied (openElement last) path .header s.root, path := path ++ [last] }
  | '[' :: rest =>
    set rest
    let (path, last) ← header
    return { root := ← descend .implied (openTable last) path .header s.root, path := path ++ [last] }
  | _ =>
    let (path, last) ← key
    blanks
    mark '='
    blanks
    let item ← value
    return { s with root := ← descend .implied (Toml.insert path last item) s.path .header s.root }

def lines : Nat → State → Reader State
  | 0, s => return s
  | n + 1, s => do
    if (← get).isEmpty then return s
    let s ← line s
    endOfLine
    lines n s

end Reader

/-- Reads a document, which may start with a byte-order mark. -/
def parse (text : String) : Except Fault Entries :=
  let cs :=
    match text.toList with
    | '\ufeff' :: rest => rest
    | cs => cs
  (Reader.lines (cs.length + 1) {} cs).map fun (s, _) => s.root

end TrapHooks.Toml
