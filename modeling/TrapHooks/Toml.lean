/-!
Values of a TOML document, as the reader of documents makes them.
-/

namespace TrapHooks.Toml

/-- How a table came to be, which decides what may still be added to it. -/
inductive Origin
  | header
  /-- On the way to another table, in that one's header. -/
  | implied
  /-- By a key with dots in it. -/
  | dotted
  /-- Between braces; such a table is complete. -/
  | inline
deriving DecidableEq, Repr

inductive Item
  | string (s : String)
  | integer (n : Int)
  | float (literal : String)
  /-- What looks like a number and stands for none: with digits that its base does not have, with no
      digits at all, or too large. It is a fault only where it is looked at. -/
  | unreadable (literal : String)
  | boolean (b : Bool)
  /-- A date, a time or both, as they are written. -/
  | datetime (literal : String)
  | array (items : List Item)
  | table (origin : Origin) (entries : List (String × Item))
  /-- An array of tables, each by a header of its own. -/
  | tables (items : List (List (String × Item)))

/-- The entries of a table, in the order in which they were made. -/
abbrev Entries := List (String × Item)

mutual

/-- Whether a value can be looked at, with all that it holds. -/
def Item.isReadable : Item → Bool
  | .unreadable _ => false
  | .array items => areReadable items
  | .table _ entries => isReadableTable entries
  | .tables items => areReadableTables items
  | _ => true

def areReadable : List Item → Bool
  | [] => true
  | item :: items => item.isReadable && areReadable items

def isReadableTable : List (String × Item) → Bool
  | [] => true
  | (_, item) :: entries => item.isReadable && isReadableTable entries

def areReadableTables : List (List (String × Item)) → Bool
  | [] => true
  | entries :: tables => isReadableTable entries && areReadableTables tables

end

inductive Fault
  | unterminated
  | badCharacter (c : Char)
  | badEscape
  | badLiteral (text : String)
  | expected (what : String)
  | duplicateKey (key : String)
  | notATable (key : String)
  | tooDeep
deriving DecidableEq, Repr

def Fault.message : Fault → String
  | unterminated => "unterminated string"
  | badCharacter c => "character " ++ toString c.toNat ++ " is not allowed here"
  | badEscape => "invalid escape sequence"
  | badLiteral text => "invalid value " ++ text
  | expected what => "expected " ++ what
  | duplicateKey key => "duplicate key " ++ key
  | notATable key => "not a table: " ++ key
  | tooDeep => "values are nested too deeply"

/-- A reader takes what it reads off the front of the text. -/
abbrev Reader := StateT (List Char) (Except Fault)

end TrapHooks.Toml
