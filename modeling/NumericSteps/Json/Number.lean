import NumericSteps.Decimal.Notation
import NumericSteps.Json.Basic

namespace NumericSteps.Json

open Decimal Double

/-- Positional from `0.00001` and below `1e16`. -/
def layout : Notation where
  tie := .even
  lowest := -5
  highest := 16
  wholeSuffix := ['.', '0']
  exponentSign := ['+']
  nan := ['n', 'u', 'l', 'l']
  infinity := []

def writeNumber (x : Float) : List Char :=
  if x.isFinite then layout.write x else ['n', 'u', 'l', 'l']

/-- A number taken apart: as many leading digits as fit 64 bits, and the power of ten. -/
structure Parts where
  significand : Nat
  power : Int
deriving DecidableEq, Repr

/-- One more than the largest natural of 64 bits. -/
def wordLimit : Nat := UInt64.size

/-- Adds digits while they fit; the other digits count in `skipped`. -/
def takeDigits : Nat → List Char → Nat × Nat
  | s, [] => (s, 0)
  | s, d :: ds =>
    let next := s * 10 + (d.toNat - '0'.toNat)
    if next < wordLimit then takeDigits next ds else (s, ds.length + 1)

def wholeDigits (cs : List Char) : List Char := cs.takeWhile Char.isDigit

/-- The digits after the point of a spelling, if it has one. -/
def fractionDigits (cs : List Char) : Option (List Char) :=
  match cs.dropWhile Char.isDigit with
  | '.' :: rest => some (rest.takeWhile Char.isDigit)
  | _ => none

/-- The exponent of a spelling: its sign, which is `true` for a minus, and its digits. -/
def exponentDigits (cs : List Char) : Option (Bool × List Char) :=
  match cs.dropWhile (· ≠ 'e') with
  | _ :: '-' :: ds => some (true, ds)
  | _ :: '+' :: ds => some (false, ds)
  | _ :: ds => some (false, ds)
  | [] => none

/-- The digits of a spelling without its sign and exponent. Once a digit does not fit, those after
it add to the power if they stand before the point, and are dropped if they stand after it. -/
def partsOf (cs : List Char) : Parts :=
  let whole := takeDigits 0 (wholeDigits cs)
  match fractionDigits cs with
  | none => ⟨whole.1, whole.2⟩
  | some ds =>
    let more := takeDigits whole.1 ds
    ⟨more.1, (whole.2 : Int) - (ds.length - more.2 : Nat)⟩

def powerOfTen (n : Nat) : Float := ofCode false (Decimal.nearest ⟨1, n⟩)

def significandFloat (n : Nat) : Float := (UInt64.ofNat n).toFloat

/-- Scales by powers of ten of at most 308; `none` if the result is too large. A significand is
down to zero after three steps. -/
def scale : Nat → Float → Int → Option Float
  | 0, x, _ => some x
  | fuel + 1, x, e =>
    if e.natAbs ≤ 308 then
      if 0 ≤ e then
        let y := x * powerOfTen e.toNat
        if y.isInf then none else some y
      else some (x / powerOfTen (-e).toNat)
    else if x == 0.0 then some x
    else if 0 ≤ e then none
    else scale fuel (x / powerOfTen 308) (e + 308)

def maxExponent : Nat := 0x7fffffff

def naturalOf (ds : List Char) : Nat := Nat.ofDigitChars 10 ds 0

/-- The magnitude that a spelling without its sign gives. -/
def magnitudeOf (cs : List Char) : Option Float :=
  let p := partsOf (cs.takeWhile (· ≠ 'e'))
  match exponentDigits cs with
  | none => scale 5 (significandFloat p.significand) p.power
  | some (negative, ds) =>
    let e := naturalOf ds
    if maxExponent < e then
      if p.significand ≠ 0 ∧ negative = false then none else some 0.0
    else
      let power := if negative then p.power - e else p.power + e
      scale 5 (significandFloat p.significand) power

/-- What a spelling stands for: an integer of 64 bits, or a double. -/
inductive Number
  | natural (n : Nat)
  | negative (n : Nat)
  | float (x : Float)

def integerNumber (negative : Bool) (n : Nat) : Number :=
  if negative then
    if n = 0 ∨ Double.signBit < n then .float (-(significandFloat n)) else .negative n
  else .natural n

def isWhole (cs : List Char) : Bool := cs.all Char.isDigit

def ofSpelling (cs : List Char) : Option Number :=
  let negative := cs.head? = some '-'
  let rest := if negative then cs.drop 1 else cs
  let whole := takeDigits 0 (wholeDigits rest)
  if isWhole rest ∧ whole.2 = 0 then some (integerNumber negative whole.1)
  else (magnitudeOf rest).map fun x => .float (if negative then -x else x)

def Number.toFloat : Number → Float
  | .natural n => significandFloat n
  | .negative n => -(significandFloat n)
  | .float x => x

end NumericSteps.Json
