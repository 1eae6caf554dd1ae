import TrapHooks.Toml.Number

/-!
Words: values that are written without marks around them. These are booleans, numbers, dates and
times.
-/

namespace TrapHooks.Toml

def monthLength (year month : Nat) : Nat :=
  if month = 2 then
    if year % 4 = 0 ∧ (year % 100 ≠ 0 ∨ year % 400 = 0) then 29 else 28
  else if month = 4 ∨ month = 6 ∨ month = 9 ∨ month = 11 then 30
  else 31

def date? : List Char → Option (List Char)
  | y₁ :: y₂ :: y₃ :: y₄ :: '-' :: m₁ :: m₂ :: '-' :: d₁ :: d₂ :: rest => do
    let year ← field? 0 9999 [y₁, y₂, y₃, y₄]
    let month ← field? 1 12 [m₁, m₂]
    let _ ← field? 1 (monthLength year month) [d₁, d₂]
    return rest
  | _ => none

/-- Takes the fraction of a second off the front of a text, if there is one. -/
def fraction? : List Char → Option (List Char)
  | '.' :: rest =>
    let (digits, rest) := rest.span Char.isDigit
    if digits.isEmpty then none else some rest
  | cs => some cs

/-- Takes the seconds of a time off the front of a text, if there are any; a minute may have a leap
    second. -/
def seconds? : List Char → Option (List Char)
  | ':' :: s₁ :: s₂ :: rest => do
    let _ ← field? 0 60 [s₁, s₂]
    fraction? rest
  | cs => some cs

def time? : List Char → Option (List Char)
  | h₁ :: h₂ :: ':' :: m₁ :: m₂ :: rest => do
    let _ ← field? 0 23 [h₁, h₂]
    let _ ← field? 0 59 [m₁, m₂]
    seconds? rest
  | _ => none

/-- Whether a text is nothing, or the distance of a time zone. -/
def isOffset : List Char → Bool
  | [] => true
  | ['Z'] => true
  | ['z'] => true
  | [sign, h₁, h₂, ':', m₁, m₂] =>
    (sign = '+' || sign = '-') && (field? 0 23 [h₁, h₂]).isSome && (field? 0 59 [m₁, m₂]).isSome
  | _ => false

/-- Whether a text is a date, a time, or a date with a time behind it. -/
def isDatetime (cs : List Char) : Bool :=
  match date? cs with
  | some [] => true
  | some (mark :: rest) =>
    (mark = 'T' || mark = 't' || mark = ' ') &&
      match time? rest with
      | some rest => isOffset rest
      | none => false
  | none => time? cs = some []

def ofWord (word : List Char) : Except Fault Item :=
  if word = "true".toList then .ok (.boolean true)
  else if word = "false".toList then .ok (.boolean false)
  else if isDatetime word then .ok (.datetime (String.ofList word))
  else
    match (integer word).or (float word) with
    | some item => .ok item
    | none => .error (.badLiteral (String.ofList word))

end TrapHooks.Toml
