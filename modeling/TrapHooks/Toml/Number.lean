import TrapHooks.Toml
import TrapHooks.Toml.Digits

/-!
Integers and floating-point numbers. What a word looks like says which of them it is, and only then is
it asked what number it stands for. Some words look like a number and stand for none; they are kept
as they are, for a fault that is never looked at is none.
-/

namespace TrapHooks.Toml

def splitSign : List Char → Option Char × List Char
  | '-' :: rest => (some '-', rest)
  | '+' :: rest => (some '+', rest)
  | cs => (none, cs)

/-- Whether a zero stands in front of further digits. -/
def hasSpareZero : List Char → Bool
  | '0' :: c :: _ => c.isDigit || c = '_'
  | _ => false

/-- Whether every underscore of a text that has no sign stands between two digits of a base. -/
def isSpaced (base : Nat) (body : List Char) : Bool :=
  separates base '_' body

/-! ### Integers -/

/-- The integers that a document may hold: those that some type of a hundred and twenty-eight bits
    can, signed or not. -/
def isStorable (n : Int) : Bool :=
  decide ((-n).toNat ≤ 1 <<< 127) && decide (n.toNat < 1 <<< 128)

def integer? (base : Nat) (sign : Option Char) (digits : List Char) : Option Int := do
  let n := Int.ofNat (← number? base digits)
  let n := if sign = some '-' then -n else n
  if isStorable n then some n else none

/-- The base that a word's mark names, and what follows the mark. -/
def based? : List Char → Option (Nat × List Char)
  | '0' :: 'x' :: rest => some (16, rest)
  | '0' :: 'o' :: rest => some (8, rest)
  | '0' :: 'b' :: rest => some (2, rest)
  | _ => none

/-- Whether a text behind the mark of a base looks like an integer; there need not be any digits. -/
def looksBased (base : Nat) (cs : List Char) : Bool :=
  cs.all (fun c => isDigit base c || c = '_') && isSpaced base cs

/-- Whether a word looks like a decimal integer. Behind the first underscore anything may follow but a
    space and what belongs to floating-point numbers, and an underscore may have letters beside it
    that are digits of base sixteen. -/
def looksDecimal (word : List Char) : Bool :=
  let (_, body) := splitSign word
  !body.isEmpty && !hasSpareZero body && isSpaced 16 body &&
    match body.dropWhile Char.isDigit with
    | [] => true
    | '_' :: rest => rest.all fun c => c ≠ ' ' && c ≠ '.' && c ≠ 'e' && c ≠ 'E'
    | _ => false

/-- The integer that a word stands for, if it looks like one. -/
def integer (word : List Char) : Option Item :=
  let item (base : Nat) (sign : Option Char) (digits : List Char) : Item :=
    match integer? base sign (dropSeparators digits) with
    | some n => .integer n
    | none => .unreadable (String.ofList word)
  match based? word with
  | some (base, digits) => if looksBased base digits then some (item base none digits) else none
  | none =>
    if looksDecimal word then
      let (sign, digits) := splitSign word
      some (item 10 sign digits)
    else none

/-! ### Floating-point numbers -/

/-- The least number that is not rounded to a finite double: it lies half a unit above the largest
    one. -/
def doubleLimit : Nat := (1 <<< 54 - 1) <<< 970

/-- Whether a number with the given decimal digits, times a power of ten, is rounded to a finite
    double. A number below one and one of more than four hundred places are settled by their size. -/
def isFinite (digits : List Nat) (exponent : Int) : Bool :=
  let digits := digits.dropWhile (· = 0)
  let places := exponent + (digits.length : Int)
  if digits.isEmpty || places ≤ 0 then true
  else if 400 < places then false
  else value 10 digits * Nat.pow 10 exponent.toNat < doubleLimit * Nat.pow 10 (-exponent).toNat

def exponent? (cs : List Char) : Option Int :=
  let (sign, digits) := splitSign cs
  (number? 10 digits).map fun n => if sign = some '-' then -Int.ofNat n else Int.ofNat n

/-- A row of decimal digits; there is at least one. -/
def digits? (cs : List Char) : Option (List Nat) :=
  if cs.isEmpty then none else cs.mapM (digit? 10)

/-- The digits before the exponent mark, and how many of them stand behind the point. -/
def significand? (cs : List Char) : Option (List Nat × Nat) :=
  match cs.span (· ≠ '.') with
  | (whole, []) => (digits? whole).map fun digits => (digits, 0)
  | (whole, _ :: fraction) => do
    let before ← digits? whole
    let behind ← digits? fraction
    return (before ++ behind, behind.length)

/-- The digits of a number with a point, an exponent or both, and the power of ten they are taken
    times. -/
def scientific? (cs : List Char) : Option (List Nat × Int) :=
  match cs.span fun c => c ≠ 'e' && c ≠ 'E' with
  | (front, []) => do
    let (digits, behind) ← significand? front
    if behind = 0 then none else return (digits, -(behind : Int))
  | (front, _ :: back) => do
    let (digits, behind) ← significand? front
    return (digits, (← exponent? back) - (behind : Int))

/-- The floating-point number that a word stands for, if it looks like one. One that is too large for
    a double stands for none. -/
def float (word : List Char) : Option Item :=
  let (_, body) := splitSign word
  if body = "inf".toList ∨ body = "nan".toList then some (.float (String.ofList word))
  else if hasSpareZero body || !isSpaced 10 body then none
  else (scientific? (dropSeparators body)).map fun (digits, exponent) =>
    if isFinite digits exponent then .float (String.ofList word) else .unreadable (String.ofList word)

end TrapHooks.Toml
