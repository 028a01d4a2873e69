import NumericSteps.Double

namespace NumericSteps

/-- The number `digits * 10 ^ exponent`. -/
structure Decimal where
  digits : Nat
  exponent : Int
deriving DecidableEq, Repr

namespace Decimal

open Double

/-- The code nearest to a decimal. Exponents far outside the range of doubles are decided
without computing the power. -/
def nearest (d : Decimal) : Nat :=
  if d.digits = 0 then 0
  else if 400 < d.exponent then infinityCode
  else if d.exponent + d.digits.log2 / 3 + 1 < -400 then 0
  else
    let scaled := divPow 10 d.digits 1 (-d.exponent)
    nearestCode scaled.1 scaled.2

/-- The value of a finite code in full. -/
def exact (c : Nat) : Decimal :=
  let e := Double.exponent c
  if 0 ≤ e then ⟨mantissa c * Nat.pow 2 e.toNat, 0⟩
  else ⟨mantissa c * Nat.pow 5 (-e).toNat, e⟩

def belowPower (num den : Nat) (k : Int) : Bool :=
  let scaled := divPow 10 num den k
  scaled.1 < scaled.2

/-- The first of `k, k + 1, ...` with `num / den < 10 ^ k`, looking at most `steps` further. -/
def raise (num den : Nat) : Nat → Int → Int
  | 0, k => k
  | steps + 1, k => if belowPower num den k then k else raise num den steps (k + 1)

/-- The least `k` with `num / den < 10 ^ k`, for positive `num` and `den`. -/
def magnitude (num den : Nat) : Int :=
  raise num den 3 ((((num.log2 : Int) - den.log2 - 1) * 30103).fdiv 100000)

/-- A neighbour of `num / den` among the multiples of `10 ^ k` that reads back as `c`, the nearer
one if both do; `num / den` is counted in units of `10 ^ k`. -/
def neighbour (tie : Tie) (c : Nat) (k : Int) (num den : Nat) : Option Decimal :=
  match nearest ⟨num / den, k⟩ == c, nearest ⟨num / den + 1, k⟩ == c with
  | true, true => some ⟨tie.roundDiv num den, k⟩
  | true, false => some ⟨num / den, k⟩
  | false, true => some ⟨num / den + 1, k⟩
  | false, false => none

/-- The search for `neighbour` on the grid of multiples of `10 ^ k`. -/
def onGrid (tie : Tie) (c : Nat) (k : Int) : Option Decimal :=
  let scaled := divPow 10 (value c).1 (value c).2 k
  neighbour tie c k scaled.1 scaled.2

/-- The shortest decimal that reads back as the finite code `c`, where there is one of at most 17
digits. -/
def shortest? (tie : Tie) (c : Nat) : Option Decimal :=
  let top := magnitude (value c).1 (value c).2
  (List.range 17).findSome? fun (n : Nat) => onGrid tie c (top - n - 1)

def shortest (tie : Tie) (c : Nat) : Decimal := (shortest? tie c).getD (exact c)

theorem nearest_of_neighbour {tie : Tie} {c : Nat} {k : Int} {num den : Nat} {d : Decimal}
    (h : neighbour tie c k num den = some d) : d.nearest = c := by
  unfold neighbour at h
  split at h
  · rename_i hl hu
    simp only [beq_iff_eq] at hl hu
    cases h
    rcases tie.roundDiv_eq num den with hr | hr
    · rw [hr, hl]
    · rw [hr, hu]
  · rename_i hl _
    cases h
    simpa using hl
  · rename_i _ hu
    cases h
    simpa using hu
  · cases h

/-- The shortest decimal reads back, or it is the value in full. -/
theorem nearest_shortest (tie : Tie) (c : Nat) :
    (shortest tie c).nearest = c ∨ shortest tie c = exact c := by
  cases hs : shortest? tie c with
  | none => exact Or.inr (by simp [shortest, hs])
  | some d =>
    obtain ⟨n, _, hn⟩ := List.exists_of_findSome?_eq_some hs
    exact Or.inl (by simpa [shortest, hs] using nearest_of_neighbour hn)

end Decimal

end NumericSteps
