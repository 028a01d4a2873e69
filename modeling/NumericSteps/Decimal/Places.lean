import NumericSteps.Decimal.Notation

namespace NumericSteps

open Decimal Double

namespace Places

/-- The value of a finite code in units of `10 ^ (-places)`. -/
def units (places : Nat) (c : Nat) : Nat :=
  let v := value c
  Tie.even.roundDiv (v.1 * Nat.pow 10 places) v.2

/-- The nearest decimal with so many places, read as a double. Zero is positive, and NaN and the
infinities stay. -/
def round (places : Nat) (x : Float) : Float :=
  if infinityCode ≤ code x then x
  else
    let n := units places (code x)
    if n = 0 then ofCode false 0 else ofCode (isNegative x) (nearest ⟨n, -places⟩)

/-- The digits and the leading power of ten with `places` digits after the first. -/
def leadingDigits (places : Nat) (c : Nat) : Nat × Int :=
  if c = 0 then (0, 0)
  else
    let v := value c
    let top := Decimal.magnitude v.1 v.2
    let scaled := divPow 10 v.1 v.2 (top - places - 1)
    let n := Tie.even.roundDiv scaled.1 scaled.2
    if n < Nat.pow 10 (places + 1) then (n, top - 1) else (n / 10, top)

def padded (width : Nat) (n : Nat) : List Char :=
  let ds := Nat.toDigits 10 n
  zeros (width - ds.length) ++ ds

/-- Exponent form with `places` digits after the point: `1.000e-5`. -/
def scientific (places : Nat) (x : Float) : List Char :=
  if x.isNaN then ['N', 'a', 'N']
  else
    let sign := if isNegative x then ['-'] else []
    if code x = infinityCode then sign ++ ['i', 'n', 'f']
    else
      let d := leadingDigits places (code x)
      sign ++ Decimal.scientific [] (padded (places + 1) d.1) d.2

def scientificText (places : Nat) (x : Float) : String := String.ofList (scientific places x)

end Places

end NumericSteps
