import NumericSteps.Failure
import NumericSteps.Matrix.Grid

namespace NumericSteps

variable {α : Type}

namespace Matrix

/-- A chain, multiplied from the left; it has at least one factor. -/
def chainOf {m : Type → Type} [Monad m] [MonadExceptOf Failure m]
    (mul : Matrix α → Matrix α → m (Matrix α)) : List (Matrix α) → m (Matrix α)
  | [] => throw .emptyChain
  | first :: rest => rest.foldlM mul first

section Routines

variable [OfNat α 0] (times : Grid α → Grid α → Grid α)

/-- What a routine with a layout of its own makes of two matrices. -/
def productWith (l r : Matrix α) : Matrix α := (times l.grid r.grid).copy

/-- The product of two matrices whose inner dimensions agree. -/
def multiplyWith (l r : Matrix α) : Except Failure (Matrix α) :=
  if l.cols = r.rows then .ok (productWith times l r)
  else .error (.shapeMismatch .multiply l.shape r.shape)

def chainWith (fs : List (Matrix α)) : Except Failure (Matrix α) := chainOf (multiplyWith times) fs

theorem wellFormed_productWith (l r : Matrix α) : (productWith times l r).WellFormed :=
  wellFormed_ofFn _ _ _

end Routines

/-- The sum of the products of two lists, added from zero and from the left. -/
def dot [OfNat α 0] [Add α] [Mul α] (xs ys : List α) : α :=
  (List.zipWith (· * ·) xs ys).foldl (· + ·) 0

end Matrix

variable [OfNat α 0] [Add α] [Mul α]

/-- The routine of the workflow adds the products of a row and a column. -/
def Grid.times (a b : Grid α) : Grid α where
  rows := a.rows
  cols := b.cols
  entry i j := Matrix.dot ((List.range a.cols).map (a.entry i)) ((List.range b.rows).map (b.entry · j))

namespace Matrix

def multiply : Matrix α → Matrix α → Except Failure (Matrix α) := multiplyWith Grid.times

def chain : List (Matrix α) → Except Failure (Matrix α) := chainWith Grid.times

end Matrix

end NumericSteps
