import NumericSteps.Matrix.Reflection

namespace NumericSteps

/-- The matrix is the product of the reflections on the left, of the reduced matrix, and of those
on the right. -/
structure Bidiagonal where
  left : List Reflection
  /-- These leave the first entry of a vector alone. -/
  right : List Reflection
  diagonal : List Float
  above : List Float
  /-- The products of each row, as the reflection of the columns leaves it, with the rows that were
  below it. They are of the size of squares of entries. -/
  sums : List Float

namespace Bidiagonal

/-- The first `n` entries of vectors, by place. -/
def crosswise : Nat → List (List Float) → List (List Float)
  | 0, _ => []
  | n + 1, xs => xs.map (·.headD 0.0) :: crosswise n (xs.map List.tail)

/-- The sum of columns of `m` entries, each times its weight. -/
def weightedSum (m : Nat) (weights : List Float) (columns : List (List Float)) : List Float :=
  (crosswise m columns).map (Matrix.dot weights)

/-- Reduces the matrix with the given `n` columns of `m` entries. -/
def reduce (m : Nat) : Nat → List (List Float) → Bidiagonal
  | n + 1, x :: xs =>
    let (l, d) := Reflection.clearing x
    match crosswise m (xs.map l.apply) with
    | row :: below =>
      let (r, e) := Reflection.clearing row
      let rest := reduce (m - 1) n (crosswise n (below.map r.apply))
      { left := l :: rest.left
        right := r :: rest.right
        diagonal := d :: rest.diagonal
        above := e :: rest.above
        sums := weightedSum (m - 1) row (xs.map List.tail) ++ rest.sums }
    | [] => ⟨[l], [], [d], [], []⟩
  | _, _ => ⟨[], [], [], [], []⟩

/-- Whether no entry and no sum is too large for a double; otherwise the matrix counts as too large
to be reduced. -/
def isFinite (b : Bidiagonal) : Bool := (b.diagonal ++ b.above ++ b.sums).all Float.isFinite

def entry (b : Bidiagonal) (i j : Nat) : Float :=
  if i = j then b.diagonal.getD i 0.0
  else if i + 1 = j then b.above.getD i 0.0
  else 0.0

/-- The columns of the reduced matrix, as far as they are not zero. -/
def columns (b : Bidiagonal) : List (List Float) :=
  let places := List.range b.diagonal.length
  places.map fun j => places.map fun i => b.entry i j

/-- The image of a vector under the reflections on the left. -/
def applyLeft (b : Bidiagonal) (v : List Float) : List Float := Reflection.product b.left v

/-- The image of a vector under the reflections on the right. -/
def applyRight (b : Bidiagonal) : List Float → List Float
  | [] => []
  | x :: xs => x :: Reflection.product b.right xs

end Bidiagonal

end NumericSteps
