import NumericSteps.Decimal.Shortest

namespace NumericSteps

open Decimal Double

/-- A leading power of ten `p` is written positionally where `lowest ≤ p` and `p < highest`, and
with an exponent otherwise. -/
structure Notation where
  tie : Tie
  lowest : Int
  highest : Int
  /-- What follows the digits of a whole number in positional form. -/
  wholeSuffix : List Char
  /-- The sign of an exponent that is not negative. -/
  exponentSign : List Char
  nan : List Char
  infinity : List Char

namespace Decimal

/-- Drops the zeros at the end of the digits, one per unit of `fuel` at most. -/
def trimCore : Nat → Decimal → Decimal
  | 0, d => d
  | fuel + 1, d =>
    if d.digits ≠ 0 ∧ d.digits % 10 = 0 then trimCore fuel ⟨d.digits / 10, d.exponent + 1⟩ else d

/-- The same number with the fewest digits. -/
def trim (d : Decimal) : Decimal := trimCore (d.digits.log2 + 1) d

def digitChars (d : Decimal) : List Char := Nat.toDigits 10 d.digits

/-- The power of ten of the first digit. -/
def lead (d : Decimal) : Int := d.exponent + d.digitChars.length - 1

def zeros (n : Nat) : List Char := List.replicate n '0'

/-- Digits `ds` with the point after the first `point` of them, or that many zeros before. -/
def positional (suffix : List Char) (ds : List Char) (point : Int) : List Char :=
  if point ≤ 0 then '0' :: '.' :: (zeros (-point).toNat ++ ds)
  else if ds.length ≤ point.toNat then ds ++ zeros (point.toNat - ds.length) ++ suffix
  else ds.take point.toNat ++ '.' :: ds.drop point.toNat

def exponentText (sign : List Char) (e : Int) : List Char :=
  (if e < 0 then ['-'] else sign) ++ Nat.toDigits 10 e.natAbs

/-- One digit, a point if more follow, and the exponent. -/
def scientific (sign : List Char) (ds : List Char) (e : Int) : List Char :=
  let rest := match ds.drop 1 with
    | [] => []
    | more => '.' :: more
  ds.take 1 ++ rest ++ 'e' :: exponentText sign e

end Decimal

namespace Notation

def decimal (n : Notation) (d : Decimal) : List Char :=
  let t := d.trim
  if n.lowest ≤ t.lead ∧ t.lead < n.highest then
    positional n.wholeSuffix t.digitChars (t.lead + 1)
  else scientific n.exponentSign t.digitChars t.lead

/-- The text of the magnitude with code `c`. -/
def magnitude (n : Notation) (c : Nat) : List Char :=
  if c = infinityCode then n.infinity
  else if c = 0 then n.decimal ⟨0, 0⟩
  else n.decimal (shortest n.tie c)

def write (n : Notation) (x : Float) : List Char :=
  if x.isNaN then n.nan
  else (if isNegative x then ['-'] else []) ++ n.magnitude (code x)

def text (n : Notation) (x : Float) : String := String.ofList (n.write x)

/-- Every number positionally, with no suffix: `0.001`, `5`, `-1`. -/
def plain : Notation where
  tie := .up
  lowest := -400
  highest := 400
  wholeSuffix := []
  exponentSign := []
  nan := ['N', 'a', 'N']
  infinity := ['i', 'n', 'f']

/-- Every number with an exponent: `1e-5`, `2.5e0`. -/
def exponential : Notation := { plain with lowest := 0, highest := 0 }

end Notation

end NumericSteps
