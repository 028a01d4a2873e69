import NumericSteps.Matrix.Basic
import NumericSteps.Scalar

namespace NumericSteps.Matrix

open Text

def rowChars (xs : List Float) : List Char := [' '].intercalate (xs.map Scalar.chars)

/-- A line for every row, the empty ones too. -/
def rowLines (m : Matrix Float) : List (List Char) := m.rowList.map fun r => rowChars r ++ ['\n']

def chars (m : Matrix Float) : List Char := m.rowLines.flatten

def text (m : Matrix Float) : String := String.ofList m.chars

/-- The values on line `n`. -/
def lineValues (n : Nat) (bytes : Bytes) : Except Failure (List Float) :=
  match decode bytes with
  | none => .error (.stream .notText)
  | some cs => (words cs).mapM (Scalar.ofWord n)

/-- The rows on the lines from line `n` on, where `width` is that of the first row if there was
one already. -/
def readRows (width : Option Nat) (n : Nat) : List Bytes → Except Failure (List (List Float))
  | [] => .ok []
  | line :: lines =>
    match lineValues n line with
    | .error e => .error e
    | .ok [] => readRows width (n + 1) lines
    | .ok (x :: xs) =>
      let found := (x :: xs).length
      let expected := width.getD found
      if found = expected then
        (readRows (some expected) (n + 1) lines).map ((x :: xs) :: ·)
      else .error (.raggedRow n expected found)

/-- Blank lines are skipped, but counted. The first offence decides: a line that is no text, then a word
that is no number, then a row of another width than the first. -/
def ofBytes (bytes : Bytes) : Except Failure (Matrix Float) := do
  ofRows (← readRows none 1 (lines carriageReturn lineFeed bytes))

def ofText (cs : List Char) : Except Failure (Matrix Float) := ofBytes (encode cs)

theorem wellFormed_of_ofBytes {bytes : Bytes} {m : Matrix Float} (h : ofBytes bytes = .ok m) :
    m.WellFormed := by
  unfold ofBytes at h
  obtain ⟨rows, -, hrows⟩ := bind_ok_iff.1 h
  exact wellFormed_of_ofRows hrows

end NumericSteps.Matrix
