import NumericSteps.Matrix.Basic

namespace NumericSteps

variable {α : Type}

/-- A matrix in the layout of a routine, of which only the entries inside its shape count. -/
structure Grid (α : Type) where
  rows : Nat
  cols : Nat
  entry : Nat → Nat → α

/-- The entries row by row. -/
def Grid.copy (g : Grid α) : Matrix α := Matrix.ofFn g.rows g.cols g.entry

namespace Matrix

variable [OfNat α 0]

/-- The value at a row and column, zero where there is none. -/
def entry (m : Matrix α) (i j : Nat) : α := m.data.getD (i * m.cols + j) 0

/-- The values in an array, where each is at hand. -/
def grid (m : Matrix α) : Grid α :=
  let values := m.data.toArray
  ⟨m.rows, m.cols, fun i j => values.getD (i * m.cols + j) 0⟩

@[simp]
theorem grid_entry (m : Matrix α) : m.grid.entry = m.entry := by
  funext i j
  simp [grid, entry, List.getD_eq_getElem?_getD]

theorem grid_eq (m : Matrix α) : m.grid = ⟨m.rows, m.cols, m.entry⟩ :=
  congrArg (Grid.mk m.rows m.cols) (grid_entry m)

end Matrix

end NumericSteps
