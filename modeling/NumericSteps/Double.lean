import NumericSteps.Decimal.Rounding

namespace NumericSteps.Double

/-- The code of the least normal double, 2 ^ 52. So many codes further the value is twice as
large, from there on. -/
def normalCode : Nat := 0x10000000000000

def infinityCode : Nat := 2047 * normalCode

/-- The bit of the sign, above all codes. -/
def signBit : Nat := 0x8000000000000000

/-- The bits of a double without its sign. Codes grow with the magnitude: that of infinity follows the
largest finite one, and NaN lies above it. -/
def code (x : Float) : Nat := x.toBits.toNat % signBit

def isNegative (x : Float) : Bool := signBit ≤ x.toBits.toNat

/-- The double with a sign and a code. -/
def ofCode (negative : Bool) (c : Nat) : Float :=
  Float.ofBits (UInt64.ofNat (c + if negative then signBit else 0))

/-- A finite code stands for `mantissa c * 2 ^ exponent c`. -/
def mantissa (c : Nat) : Nat :=
  if c < normalCode then c else normalCode + c % normalCode

def exponent (c : Nat) : Int :=
  if c < normalCode then -1074 else (c / normalCode : Nat) - 1075

theorem mantissa_pos {c : Nat} (hc : c ≠ 0) : 0 < mantissa c := by
  unfold mantissa normalCode
  split <;> omega

theorem mantissa_lt (c : Nat) : mantissa c < 2 * normalCode := by
  unfold mantissa normalCode
  split <;> omega

theorem exponent_least (c : Nat) : -1074 ≤ exponent c := by
  unfold exponent normalCode
  split <;> omega

theorem exponent_or_full (c : Nat) : exponent c = -1074 ∨ normalCode ≤ mantissa c := by
  unfold exponent mantissa
  split
  · exact Or.inl rfl
  · exact Or.inr (Nat.le_add_right _ _)

theorem code_parts (c : Nat) : (exponent c + 1074).toNat * normalCode + mantissa c = c := by
  unfold exponent mantissa normalCode
  split <;> omega

/-- `num / den` divided by `base ^ power`, as a quotient of naturals. -/
def divPow (base : Nat) (num den : Nat) (power : Int) : Nat × Nat :=
  if 0 ≤ power then (num, den * Nat.pow base power.toNat)
  else (num * Nat.pow base (-power).toNat, den)

/-- The value of a finite code as a quotient. -/
def value (c : Nat) : Nat × Nat := divPow 2 (mantissa c) 1 (-exponent c)

/-- The power of two that leaves a quotient of at least 53 bits, or the least there is. -/
def bottomExponent (num den : Nat) : Int :=
  let low : Int := num.log2 - den.log2 - 53
  let scaled := divPow 2 num den low
  max (if scaled.1 / scaled.2 < 2 * normalCode then low else low + 1) (-1074)

/-- The code nearest to `num / den`; a tie goes to the even one. -/
def nearestCode (num den : Nat) : Nat :=
  if num = 0 then 0
  else
    let e := bottomExponent num den
    let scaled := divPow 2 num den e
    min ((e + 1074).toNat * normalCode + Tie.even.roundDiv scaled.1 scaled.2) infinityCode

end NumericSteps.Double
