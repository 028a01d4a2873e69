import NumericSteps.Decimal.Numeral
import NumericSteps.Text.Cut

namespace NumericSteps.Toml

open Text

/-- Digits with the underscores between them left out. -/
def groups (isDigit : Char → Bool) (cs : List Char) : Option (List Char) :=
  let pieces := cut '_' cs
  if pieces.all fun p => p ≠ [] && p.all isDigit then some pieces.flatten else none

def digits (cs : List Char) : Option (List Char) := groups Char.isDigit cs

/-- Digits without a leading zero, or a zero. -/
def wholeDigits (cs : List Char) : Option (List Char) :=
  match digits cs with
  | some ['0'] => some ['0']
  | some ('0' :: _) => none
  | ds => ds

/-- One more than the largest integer of 64 bits with a sign. -/
def limit : Int := 0x8000000000000000

def fits (n : Int) : Bool := -limit ≤ n && n < limit

def bounded (n : Int) : Option Int := if fits n then some n else none

def digitValue (c : Char) : Nat :=
  if c.isDigit then c.toNat - '0'.toNat else c.toLower.toNat - 'a'.toNat + 10

def isHexDigit (c : Char) : Bool :=
  c.isDigit || ('a' ≤ c && c ≤ 'f') || ('A' ≤ c && c ≤ 'F')

/-- Digits in a base, which `isDigit` tells. -/
def based (base : Nat) (isDigit : Char → Bool) (cs : List Char) : Option Int := do
  let ds ← groups isDigit cs
  bounded (ds.foldl (fun n d => n * base + digitValue d) 0 : Nat)

def decimalInteger (cs : List Char) : Option Int := do
  let (negative, rest) := Numeral.sign cs
  let n := Numeral.natural (← wholeDigits rest)
  bounded (if negative then -(n : Int) else n)

def integer? : List Char → Option Int
  | '0' :: 'x' :: cs => based 16 isHexDigit cs
  | '0' :: 'o' :: cs => based 8 (fun c => '0' ≤ c && c ≤ '7') cs
  | '0' :: 'b' :: cs => based 2 (fun c => c == '0' || c == '1') cs
  | cs => decimalInteger cs

def isPower (c : Char) : Bool := c == 'e' || c == 'E'

/-- The exponent from its letter on. -/
def power? : List Char → Option Int
  | [] => some 0
  | _ :: cs => do
    let (negative, rest) := Numeral.sign cs
    let n := Numeral.natural (← digits rest)
    return if negative then -(n : Int) else n

/-- The digits after the point, from the point on. -/
def fraction? : List Char → Option (List Char)
  | [] => some []
  | _ :: cs => digits cs

/-- A number with a fraction or an exponent or both. -/
def decimalFloat (negative : Bool) (cs : List Char) : Option Numeral.Reading := do
  let mantissa := cs.takeWhile fun c => !isPower c
  let power := cs.dropWhile fun c => !isPower c
  let point := mantissa.dropWhile (· ≠ '.')
  let whole ← wholeDigits (mantissa.takeWhile (· ≠ '.'))
  let part ← fraction? point
  let e ← power? power
  if point = [] ∧ power = [] then none
  else return .decimal negative ⟨Numeral.natural (whole ++ part), e - part.length⟩

/-- A number above all doubles is refused; one below all is minus infinity. -/
def float? (cs : List Char) : Option Float :=
  let (negative, rest) := Numeral.sign cs
  if rest = ['i', 'n', 'f'] then some (Numeral.Reading.infinity negative).float
  else if rest = ['n', 'a', 'n'] then some Numeral.Reading.nan.float
  else
    match decimalFloat negative rest with
    | none => none
    | some r => if r.float.isInf ∧ negative = false then none else some r.float

end NumericSteps.Toml
