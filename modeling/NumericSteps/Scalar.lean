import NumericSteps.Decimal.Notation
import NumericSteps.Decimal.Numeral
import NumericSteps.Failure
import NumericSteps.Text.Blank
import NumericSteps.Text.Cut
import NumericSteps.Text.Utf8

namespace NumericSteps.Scalar

open Text

/-- Positional from `0.0001` and below `1e16`, always with a point there. -/
def layout : Notation where
  tie := .up
  lowest := -4
  highest := 16
  wholeSuffix := ['.', '0']
  exponentSign := []
  nan := ['N', 'a', 'N']
  infinity := ['i', 'n', 'f']

def chars (x : Float) : List Char := layout.write x

def text (x : Float) : String := String.ofList (chars x)

/-- What a scalar file holds. -/
def line (x : Float) : List Char := chars x ++ ['\n']

/-- The value of a word on line `n`. -/
def ofWord (n : Nat) (w : List Char) : Except Failure Float :=
  match Numeral.read w with
  | some x => .ok x
  | none => .error (.notANumber n (String.ofList w))

/-- The value on the first line of a text, blanks around it aside. -/
def ofText (cs : List Char) : Except Failure Float :=
  let w := trim (firstPiece '\n' cs)
  if w = [] then .error .noScalar else ofWord 1 w

/-- Nothing but what stands before the first line feed is looked at. -/
theorem ofText_of_first {l t : List Char} (hl : '\n' ∉ l)
    (ht : t = l ∨ ∃ rest, t = l ++ '\n' :: rest) :
    ofText t = if trim l = [] then .error .noScalar else ofWord 1 (trim l) := by
  have hfeed : ∀ c ∈ l, decide (c ≠ '\n') = true := by
    intro c hc
    rw [decide_eq_true_iff]
    intro he
    exact hl (he ▸ hc)
  have hfirst : firstPiece '\n' t = l := by
    unfold firstPiece
    rcases ht with rfl | ⟨rest, rfl⟩
    · have hall : (t ++ []).takeWhile (· ≠ '\n') = t ++ [].takeWhile (· ≠ '\n') :=
        List.takeWhile_append_of_pos hfeed
      simpa using hall
    · rw [List.takeWhile_append_of_pos hfeed]
      simp
  rw [ofText, hfirst]

/-- There is no number on the line, or what is on it is none. -/
theorem error_of_ofText {cs : List Char} {e : Failure} (h : ofText cs = .error e) :
    e = .noScalar ∨ ∃ token, e = .notANumber 1 token := by
  unfold ofText ofWord at h
  dsimp only at h
  split at h
  · cases h
    exact Or.inl rfl
  · split at h
    · cases h
    · cases h
      exact Or.inr ⟨_, rfl⟩

end NumericSteps.Scalar
