/-!
Digits of several bases, and the underscores between them.
-/

namespace TrapHooks.Toml

def digit? (base : Nat) (c : Char) : Option Nat :=
  let n :=
    if '0' ≤ c ∧ c ≤ '9' then c.toNat - '0'.toNat
    else if 'a' ≤ c ∧ c ≤ 'f' then c.toNat - 'a'.toNat + 10
    else if 'A' ≤ c ∧ c ≤ 'F' then c.toNat - 'A'.toNat + 10
    else base
  if n < base then some n else none

def isDigit (base : Nat) (c : Char) : Bool :=
  (digit? base c).isSome

/-- The number that digits stand for, most significant first. -/
def value (base : Nat) (digits : List Nat) : Nat :=
  digits.foldl (fun n d => n * base + d) 0

/-- The number that a row of digits stands for; there is at least one. -/
def number? (base : Nat) (cs : List Char) : Option Nat :=
  if cs.isEmpty then none else (cs.mapM (digit? base)).map (value base)

/-- The number that a row of exactly `width` decimal digits stands for, if it lies between bounds. -/
def field? (least most : Nat) (cs : List Char) : Option Nat := do
  let digits ← cs.mapM (digit? 10)
  let n := value 10 digits
  if least ≤ n ∧ n ≤ most then some n else none

/-- Whether every underscore stands between two digits of a base, where `before` is the character in
    front of the text. -/
def separates (base : Nat) : Char → List Char → Bool
  | _, [] => true
  | before, '_' :: rest => isDigit base before && rest.head?.any (isDigit base) && separates base '_' rest
  | _, c :: rest => separates base c rest

def dropSeparators (cs : List Char) : List Char :=
  cs.filter (· ≠ '_')

end TrapHooks.Toml
