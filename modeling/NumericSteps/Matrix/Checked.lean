import NumericSteps.Matrix.Norm
import NumericSteps.Matrix.Product
import NumericSteps.Matrix.Text

namespace NumericSteps.Matrix

variable {α : Type}

/-- The values reach to the end of the shape. Where they do not, what follows has no result; values
beyond the shape are left out. -/
def Backed (m : Matrix α) : Prop := m.rows * m.cols ≤ m.data.length

instance (m : Matrix α) : Decidable m.Backed := inferInstanceAs (Decidable (_ ≤ _))

theorem WellFormed.backed {m : Matrix α} (h : m.WellFormed) : m.Backed := Nat.le_of_eq h.symm

def row? (m : Matrix α) (i : Nat) : Option (List α) :=
  if (i + 1) * m.cols ≤ m.data.length then some (m.row i) else none

def rowList? (m : Matrix α) : Option (List (List α)) := if m.Backed then some m.rowList else none

def transpose? [OfNat α 0] (m : Matrix α) : Option (Matrix α) :=
  if m.Backed then some m.transpose else none

section Products

variable [OfNat α 0] (times : Grid α → Grid α → Grid α)

/-- The copies of the operands are made once the shapes agree. -/
def multiplyWith? (l r : Matrix α) : Option (Except Failure (Matrix α)) :=
  if l.cols = r.rows ∧ ¬ (l.Backed ∧ r.Backed) then none else some (multiplyWith times l r)

def chainWith? (fs : List (Matrix α)) : Option (Except Failure (Matrix α)) :=
  (chainOf (fun l r => ExceptT.mk (multiplyWith? times l r)) fs).run

/-- The product of the factors with what has been multiplied so far. -/
def chainFromWith? (acc : Matrix α) (fs : List (Matrix α)) : Option (Except Failure (Matrix α)) :=
  (fs.foldlM (fun l r => ExceptT.mk (multiplyWith? times l r)) acc).run

theorem chainWith?_nil : chainWith? times [] = some (.error .emptyChain) := rfl

theorem chainWith?_cons (first : Matrix α) (rest : List (Matrix α)) :
    chainWith? times (first :: rest) = chainFromWith? times first rest := rfl

end Products

def multiply? [OfNat α 0] [Add α] [Mul α] : Matrix α → Matrix α → Option (Except Failure (Matrix α)) :=
  multiplyWith? Grid.times

def chain? [OfNat α 0] [Add α] [Mul α] : List (Matrix α) → Option (Except Failure (Matrix α)) :=
  chainWith? Grid.times

def text? (m : Matrix Float) : Option String := if m.Backed then some m.text else none

/-- What an element can be: there, outside the shape, or inside it but without a value. -/
inductive Element (α : Type)
  | value (a : α)
  | outside
  | absent

def element (m : Matrix α) (i j : Nat) : Element α :=
  if i < m.rows ∧ j < m.cols then
    match m.data[i * m.cols + j]? with
    | some a => .value a
    | none => .absent
  else .outside

end NumericSteps.Matrix
