import TrapHooks.Text.Hex
import TrapHooks.Text.Unseen

/-!
Text between double quotes, with every character that would end or blur the quotation written as an
escape.
-/

namespace TrapHooks.Quoted

/-- A character by its code point, as `\u` and the digits in braces. -/
def codePoint (c : Char) : List Char :=
  '\\' :: 'u' :: '\x7b' :: (Hex.digits c.toNat ++ ['\x7d'])

/-- The written form of one character: the two marks of the quotation behind a backslash, the usual
    letters for the common controls, the code point of what shows nothing, and all else itself. -/
def escape (c : Char) : List Char :=
  if c = '"' then ['\\', '"']
  else if c = '\\' then ['\\', '\\']
  else if c = '\n' then ['\\', 'n']
  else if c = '\r' then ['\\', 'r']
  else if c = '\t' then ['\\', 't']
  else if c.toNat = 0 then ['\\', '0']
  else if Text.isUnseen c then codePoint c
  else [c]

def text (s : String) : String :=
  String.ofList ('"' :: (s.toList.flatMap escape ++ ['"']))

end TrapHooks.Quoted
