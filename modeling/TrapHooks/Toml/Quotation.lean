import TrapHooks.Toml
import TrapHooks.Toml.Digits

/-!
Strings between quotes: with or without escapes, on one line or on several.
-/

namespace TrapHooks.Toml

/-- What may stand in a string or a comment: anything but the control characters other than the
    tabulator. -/
def isText (c : Char) : Bool :=
  c = '\t' || (0x20 ≤ c.toNat && c.toNat ≠ 0x7F)

def letterEscape? : Char → Option Char
  | 'b' => some '\x08'
  | 't' => some '\t'
  | 'n' => some '\n'
  | 'f' => some '\x0c'
  | 'r' => some '\r'
  | 'e' => some '\x1b'
  | '"' => some '"'
  | '\\' => some '\\'
  | _ => none

/-- The character whose code point is given in hexadecimal digits. -/
def codePoint? (cs : List Char) : Option Char := do
  let n := value 16 (← cs.mapM (digit? 16))
  if n.isValidChar then some (Char.ofNat n) else none

abbrev Read := Except Fault (List Char × List Char)

namespace Read

def cons (c : Char) (r : Read) : Read :=
  r.map fun (cs, rest) => (c :: cs, rest)

/-- Puts a character in front of what is read, if it is one. -/
def escaped (c : Option Char) (r : Read) : Read :=
  match c with
  | some c => r.cons c
  | none => .error .badEscape

end Read

/-- The rest of a string on one line with escapes, up to its closing quote. -/
def basic : List Char → Read
  | [] => .error .unterminated
  | '"' :: rest => .ok ([], rest)
  | '\\' :: 'x' :: a :: b :: rest => (basic rest).escaped (codePoint? [a, b])
  | '\\' :: 'u' :: a :: b :: c :: d :: rest => (basic rest).escaped (codePoint? [a, b, c, d])
  | '\\' :: 'U' :: a :: b :: c :: d :: e :: f :: g :: h :: rest =>
    (basic rest).escaped (codePoint? [a, b, c, d, e, f, g, h])
  | '\\' :: c :: rest => (basic rest).escaped (letterEscape? c)
  | c :: rest => if isText c then (basic rest).cons c else .error (.badCharacter c)

/-- The rest of a string on one line without escapes, up to its closing quote. -/
def literal : List Char → Read
  | [] => .error .unterminated
  | '\'' :: rest => .ok ([], rest)
  | c :: rest => if isText c then (literal rest).cons c else .error (.badCharacter c)

/-- Whether nothing but blanks stands before the end of the line. -/
def endsLine (cs : List Char) : Bool :=
  match cs.dropWhile fun c => c = ' ' ∨ c = '\t' with
  | '\n' :: _ => true
  | '\r' :: '\n' :: _ => true
  | _ => false

/-- The rest of a string on several lines with escapes. A backslash at the end of a line drops all
    blanks and ends of lines that follow: `dropping` says that this is under way. One or two quotes
    may stand before the three that close the string. -/
def multiBasic : Bool → List Char → Read
  | _, [] => .error .unterminated
  | true, ' ' :: rest => multiBasic true rest
  | true, '\t' :: rest => multiBasic true rest
  | true, '\n' :: rest => multiBasic true rest
  | true, '\r' :: '\n' :: rest => multiBasic true rest
  | _, '"' :: '"' :: '"' :: '"' :: '"' :: rest => .ok (['"', '"'], rest)
  | _, '"' :: '"' :: '"' :: '"' :: rest => .ok (['"'], rest)
  | _, '"' :: '"' :: '"' :: rest => .ok ([], rest)
  | _, '\\' :: 'x' :: a :: b :: rest => (multiBasic false rest).escaped (codePoint? [a, b])
  | _, '\\' :: 'u' :: a :: b :: c :: d :: rest => (multiBasic false rest).escaped (codePoint? [a, b, c, d])
  | _, '\\' :: 'U' :: a :: b :: c :: d :: e :: f :: g :: h :: rest =>
    (multiBasic false rest).escaped (codePoint? [a, b, c, d, e, f, g, h])
  | _, '\\' :: c :: rest =>
    if endsLine (c :: rest) then multiBasic true rest else (multiBasic false rest).escaped (letterEscape? c)
  | _, '\n' :: rest => (multiBasic false rest).cons '\n'
  | _, '\r' :: '\n' :: rest => ((multiBasic false rest).cons '\n').cons '\r'
  | _, c :: rest => if isText c then (multiBasic false rest).cons c else .error (.badCharacter c)

/-- The rest of a string on several lines without escapes. -/
def multiLiteral : List Char → Read
  | [] => .error .unterminated
  | '\'' :: '\'' :: '\'' :: '\'' :: '\'' :: rest => .ok (['\'', '\''], rest)
  | '\'' :: '\'' :: '\'' :: '\'' :: rest => .ok (['\''], rest)
  | '\'' :: '\'' :: '\'' :: rest => .ok ([], rest)
  | '\n' :: rest => (multiLiteral rest).cons '\n'
  | '\r' :: '\n' :: rest => ((multiLiteral rest).cons '\n').cons '\r'
  | c :: rest => if isText c then (multiLiteral rest).cons c else .error (.badCharacter c)

/-- The text behind the end of a line that follows opening quotes directly. -/
def dropLineEnd : List Char → List Char
  | '\n' :: rest => rest
  | '\r' :: '\n' :: rest => rest
  | cs => cs

/-- A string with any of the four kinds of quotes, if one starts here. -/
def quotation? : List Char → Option Read
  | '"' :: '"' :: '"' :: rest => some (multiBasic false (dropLineEnd rest))
  | '"' :: rest => some (basic rest)
  | '\'' :: '\'' :: '\'' :: rest => some (multiLiteral (dropLineEnd rest))
  | '\'' :: rest => some (literal rest)
  | _ => none

end TrapHooks.Toml
