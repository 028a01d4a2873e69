import NumericSteps.Decimal.Shortest

namespace NumericSteps

open Decimal Double

namespace Numeral

/-- A number as written, before its value is taken. -/
inductive Reading
  | nan
  | infinity (negative : Bool)
  | decimal (negative : Bool) (d : Decimal)
deriving DecidableEq, Repr

def Reading.float : Reading → Float
  | .nan => 0.0 / 0.0
  | .infinity negative => ofCode negative infinityCode
  | .decimal negative d => ofCode negative d.nearest

/-- Splits off a sign; `true` for a minus. -/
def sign : List Char → Bool × List Char
  | '-' :: cs => (true, cs)
  | '+' :: cs => (false, cs)
  | cs => (false, cs)

def natural (cs : List Char) : Nat := Nat.ofDigitChars 10 cs 0

/-- The exponent part that ends a numeral. -/
def tail : List Char → Option Int
  | [] => some 0
  | c :: cs =>
    if c = 'e' ∨ c = 'E' then
      let (negative, ds) := sign cs
      if ds ≠ [] ∧ ds.all Char.isDigit then
        some (if negative then -(natural ds : Int) else natural ds)
      else none
    else none

/-- The digits after the point, if there is one, and what follows them. -/
def fraction : List Char → List Char × List Char
  | '.' :: cs => (cs.takeWhile Char.isDigit, cs.dropWhile Char.isDigit)
  | cs => ([], cs)

/-- Digits with at most one point, at least one of them, and an optional exponent. -/
def magnitude (cs : List Char) : Option Decimal :=
  let whole := cs.takeWhile Char.isDigit
  let (part, rest) := fraction (cs.dropWhile Char.isDigit)
  if whole ++ part = [] then none
  else (tail rest).map fun e => ⟨natural (whole ++ part), e - part.length⟩

def lower (cs : List Char) : List Char := cs.map Char.toLower

/-- An optional sign, then `inf`, `infinity` or `nan` in any case, or a magnitude. -/
def reading (cs : List Char) : Option Reading :=
  let (negative, rest) := sign cs
  if lower rest = ['n', 'a', 'n'] then some .nan
  else if lower rest = ['i', 'n', 'f'] ∨ lower rest = ['i', 'n', 'f', 'i', 'n', 'i', 't', 'y'] then
    some (.infinity negative)
  else (magnitude rest).map (.decimal negative)

def read (cs : List Char) : Option Float := (reading cs).map Reading.float

end Numeral

end NumericSteps
