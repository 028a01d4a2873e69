namespace NumericSteps

/-- How a value half way between two neighbours is rounded. -/
inductive Tie
  | even
  | up
deriving DecidableEq, Repr

/-- The neighbour of `num / den` that is nearer, the lower one being `below`. -/
def Tie.choose (tie : Tie) (below rest den : Nat) : Nat :=
  if 2 * rest < den then below
  else if den < 2 * rest then below + 1
  else match tie with
    | .up => below + 1
    | .even => below + below % 2

/-- The integer nearest to `num / den`. -/
def Tie.roundDiv (tie : Tie) (num den : Nat) : Nat :=
  tie.choose (num / den) (num % den) den

theorem Tie.choose_zero (tie : Tie) (below den : Nat) (hd : 0 < den) :
    tie.choose below 0 den = below := by
  simp [Tie.choose, hd]

theorem Tie.roundDiv_eq (tie : Tie) (num den : Nat) :
    tie.roundDiv num den = num / den ∨ tie.roundDiv num den = num / den + 1 := by
  unfold roundDiv Tie.choose
  have h := Nat.mod_two_eq_zero_or_one (num / den)
  cases tie <;> dsimp only <;> split <;> try split
  all_goals omega

theorem Tie.roundDiv_mul (tie : Tie) (n den : Nat) (hd : 0 < den) :
    tie.roundDiv (n * den) den = n := by
  rw [roundDiv, Nat.mul_mod_left, Nat.mul_div_cancel n hd, Tie.choose_zero tie n den hd]

end NumericSteps
