import NumericSteps.Proofs.Matrix.Built

namespace NumericSteps.Matrix

variable {α : Type}

section Definitions

/-- A way to store matrices. One is made of a function that has the value for each row and column, or stops
where there is none; it tells its shape and its values. -/
structure Layout (α : Type) where
  Stored : Type
  make : Nat → Nat → (Nat → Nat → Option α) → Option Stored
  rows : Stored → Nat
  cols : Stored → Nat
  read : Stored → Nat → Nat → Option α

/-- What is promised of a layout: of a function with a value for every row and column it makes a matrix of
that shape, from which these values are read. -/
def Layout.Faithful (L : Layout α) : Prop :=
  ∀ (rows cols : Nat) (f : Nat → Nat → Option α) (g : Nat → Nat → α),
    (∀ i < rows, ∀ j < cols, f i j = some (g i j)) →
      ∃ s, L.make rows cols f = some s ∧ L.rows s = rows ∧ L.cols s = cols ∧
        ∀ i < rows, ∀ j < cols, L.read s i j = some (g i j)

/-- The value at the index of a row and column. -/
def valueAt? (m : Matrix α) (i j : Nat) : Option α := (place? m.cols i j).bind fun k => m.data[k]?

def Layout.copyIn? (L : Layout α) (m : Matrix α) : Option L.Stored :=
  L.make m.rows m.cols m.valueAt?

/-- Reads row by row, once there is room for all values. -/
def Layout.copyOut? (L : Layout α) (s : L.Stored) : Option (Matrix α) := do
  let _ ← Size.mul? (L.rows s) (L.cols s)
  return ⟨L.rows s, L.cols s, ← (cells (L.rows s) (L.cols s)).mapM fun c => L.read s c.1 c.2⟩

/-- The values of a matrix column by column. -/
structure Columns (α : Type) where
  rows : Nat
  cols : Nat
  data : List α

/-- The layout that keeps each column in one piece. -/
def Layout.byColumns (α : Type) : Layout α where
  Stored := Columns α
  make rows cols f := do return ⟨rows, cols, ← (cells cols rows).mapM fun c => f c.2 c.1⟩
  rows := Columns.rows
  cols := Columns.cols
  read s i j := if i < s.rows ∧ j < s.cols then s.data[j * s.rows + i]? else none

/-- The layout of the routines for products. -/
def Layout.grids (α : Type) [OfNat α 0] : Layout α where
  Stored := Grid α
  make rows cols f :=
    if ∀ c ∈ cells rows cols, (f c.1 c.2).isSome then some ⟨rows, cols, fun i j => (f i j).getD 0⟩ else none
  rows := Grid.rows
  cols := Grid.cols
  read g i j := if i < g.rows ∧ j < g.cols then some (g.entry i j) else none

/-- Rows and columns have changed places and the values have stayed what they were. The index of each value
is one of its buffer before and afterwards, and every index afterwards is that of just one value. -/
structure Turned (m t : Matrix α) : Prop where
  shape : t.shape = (m.cols, m.rows)
  value : ∀ i < m.rows, ∀ j < m.cols, ∃ v, m.cellAt? i j = some v ∧ t.cellAt? j i = some v
  inside : ∀ i < m.rows, ∀ j < m.cols,
    (∃ k < m.data.length, place? m.cols i j = some k) ∧ ∃ k < t.data.length, place? t.cols j i = some k
  onto : ∀ k < t.data.length, ∃! c : Nat × Nat, c.1 < m.rows ∧ c.2 < m.cols ∧ c.2 * m.rows + c.1 = k

end Definitions

variable {m : Matrix α} {L : Layout α} {rows cols i j : Nat}

theorem exists_place? (h : m.WellFormed) (hs : m.Sized) (hi : i < m.rows) (hj : j < m.cols) :
    ∃ k < m.data.length, place? m.cols i j = some k := by
  have hcount := hs.count
  rw [h] at hcount
  refine ⟨i * m.cols + j, ?_, place?_eq hi hj hcount⟩
  rw [h]
  exact index_lt hi hj

/-- Values that are there for all cells are gathered row by row. -/
theorem mapM_cells {f : Nat → Nat → Option α} {g : Nat → Nat → α}
    (h : ∀ i < rows, ∀ j < cols, f i j = some (g i j)) :
    (cells rows cols).mapM (fun c => f c.1 c.2) = some (ofFn rows cols g).data := by
  have hcells : ∀ c ∈ cells rows cols, f c.1 c.2 = some (g c.1 c.2) := by
    intro c hc
    obtain ⟨hi, hj⟩ := mem_cells.1 hc
    exact h c.1 hi c.2 hj
  rw [mapM_some hcells]
  simp [cells, ofFn, List.map_flatMap, Function.comp_def]

/-- The place of a value in its column is that of its row in the transpose. -/
theorem faithful_byColumns : (Layout.byColumns α).Faithful := by
  intro rows cols f g h
  have hdata : (cells cols rows).mapM (fun c => f c.2 c.1) =
      some (ofFn cols rows fun j i => g i j).data :=
    mapM_cells (f := fun j i => f i j) fun j hj i hi => h i hi j hj
  refine ⟨⟨rows, cols, (ofFn cols rows fun j i => g i j).data⟩, ?_, rfl, rfl, ?_⟩
  · simp [Layout.byColumns, hdata]
  · intro i hi j hj
    have hplace := getElem?_ofFn (fun j i => g i j) hj hi
    exact (if_pos ⟨hi, hj⟩).trans hplace

variable [OfNat α 0]

section Values

theorem valueAt?_eq (h : m.WellFormed) (hs : m.Sized) (hi : i < m.rows) (hj : j < m.cols) :
    m.valueAt? i j = some (m.entry i j) := by
  have hcount := hs.count
  rw [h] at hcount
  have hget := get?_eq_entry h.backed hi hj
  rw [get?, if_pos ⟨hi, hj⟩] at hget
  rw [valueAt?, place?_eq hi hj hcount]
  exact hget

theorem cellAt?_eq (h : m.WellFormed) (hs : m.Sized) (hi : i < m.rows) (hj : j < m.cols) :
    m.cellAt? i j = some (m.entry i j) := by
  rw [cellAt?, if_pos ⟨hi, hj⟩]
  exact valueAt?_eq h hs hi hj

theorem Sized.transpose (hs : m.Sized) (h : m.WellFormed) : m.transpose.Sized := by
  refine ⟨hs.cols, hs.rows, ?_⟩
  have hlength : m.transpose.data.length = m.cols * m.rows := wellFormed_transpose m
  rw [hlength, Nat.mul_comm, ← h]
  exact hs.count

theorem valueAt?_getD (hs : m.Sized) : (m.valueAt? i j).getD 0 = m.entry i j := by
  rw [valueAt?, entry, List.getD_eq_getElem?_getD]
  cases hplace : place? m.cols i j with
  | some k =>
    obtain ⟨rfl, -⟩ := place?_eq_some.1 hplace
    rfl
  | none =>
    have hcount := hs.count
    -- an index that does not fit is behind all values
    have hlimit : ¬ i * m.cols + j < Size.limit := by
      intro hlt
      rw [place?_eq_some.2 ⟨rfl, hlt⟩] at hplace
      cases hplace
    have hbehind : m.data[i * m.cols + j]? = none := List.getElem?_eq_none (by omega)
    rw [hbehind]
    rfl

end Values

section Copies

theorem faithful_grids : (Layout.grids α).Faithful := by
  intro rows cols f g h
  have hall : ∀ c ∈ cells rows cols, (f c.1 c.2).isSome := by
    intro c hc
    obtain ⟨hi, hj⟩ := mem_cells.1 hc
    rw [h c.1 hi c.2 hj]
    rfl
  refine ⟨⟨rows, cols, fun i j => (f i j).getD 0⟩, if_pos hall, rfl, rfl, ?_⟩
  intro i hi j hj
  have hentry : (f i j).getD 0 = g i j := by
    rw [h i hi j hj]
    rfl
  exact (if_pos ⟨hi, hj⟩).trans (congrArg some hentry)

theorem copyIn?_grids (h : m.WellFormed) (hs : m.Sized) : (Layout.grids α).copyIn? m = some m.grid := by
  have hall : ∀ c ∈ cells m.rows m.cols, (m.valueAt? c.1 c.2).isSome := by
    intro c hc
    obtain ⟨hi, hj⟩ := mem_cells.1 hc
    rw [valueAt?_eq h hs hi hj]
    rfl
  have hentry : (fun i j => (m.valueAt? i j).getD 0) = m.entry := by
    funext i j
    exact valueAt?_getD hs
  rw [grid_eq, ← hentry]
  exact if_pos hall

/-- The copy has the shape of the matrix, and its values where they were. -/
theorem exists_copyIn? (hL : L.Faithful) (h : m.WellFormed) (hs : m.Sized) :
    ∃ s, L.copyIn? m = some s ∧ L.rows s = m.rows ∧ L.cols s = m.cols ∧
      ∀ i < m.rows, ∀ j < m.cols, L.read s i j = some (m.entry i j) :=
  hL m.rows m.cols m.valueAt? m.entry fun _ hi _ hj => valueAt?_eq h hs hi hj

theorem copyOut?_eq {s : L.Stored} (h : m.WellFormed) (hs : m.Sized) (hrows : L.rows s = m.rows)
    (hcols : L.cols s = m.cols)
    (hread : ∀ i < m.rows, ∀ j < m.cols, L.read s i j = some (m.entry i j)) :
    L.copyOut? s = some m := by
  have hcount := hs.count
  rw [h] at hcount
  rw [Layout.copyOut?, hrows, hcols, Size.mul?_of_lt hcount, mapM_cells hread]
  exact congrArg some (ofFn_entry h)

theorem exists_copies (hL : L.Faithful) (h : m.WellFormed) (hs : m.Sized) :
    ∃ s, L.copyIn? m = some s ∧ L.copyOut? s = some m := by
  obtain ⟨s, hin, hrows, hcols, hread⟩ := exists_copyIn? hL h hs
  exact ⟨s, hin, copyOut?_eq h hs hrows hcols hread⟩

theorem copyOut?_grid (h : m.WellFormed) (hs : m.Sized) : (Layout.grids α).copyOut? m.grid = some m := by
  obtain ⟨g, hin, hout⟩ := exists_copies faithful_grids h hs
  rw [copyIn?_grids h hs] at hin
  obtain rfl : m.grid = g := Option.some.inj hin
  exact hout

end Copies

theorem turned_transpose (h : m.WellFormed) (hs : m.Sized) : Turned m m.transpose where
  shape := rfl
  value := by
    intro i hi j hj
    refine ⟨m.entry i j, cellAt?_eq h hs hi hj, ?_⟩
    rw [cellAt?_eq (wellFormed_transpose m) (hs.transpose h) hj hi, entry_transpose hi hj]
  inside := by
    intro i hi j hj
    exact ⟨exists_place? h hs hi hj, exists_place? (wellFormed_transpose m) (hs.transpose h) hj hi⟩
  onto := by
    intro k hk
    have hcount : k < m.cols * m.rows := by
      rwa [wellFormed_transpose m] at hk
    obtain ⟨j, hj, i, hi, rfl⟩ := exists_cell hcount
    refine ⟨(i, j), ⟨hi, hj, rfl⟩, ?_⟩
    rintro ⟨i', j'⟩ ⟨hi', -, hsame⟩
    obtain ⟨rfl, rfl⟩ := index_inj hi' hi hsame
    rfl

/-- Value by value, the transpose is made without an index that does not fit or has no value. It has each
value in the place of its row and column changed over, and the transpose of it is the matrix. The copy for
the routines of products, read back, is the matrix too, and so is a copy into any other layout. -/
theorem transposed_and_copied (h : m.WellFormed) (hs : m.Sized) :
    (∃ t, m.transposeAt? = some t ∧ m.transpose? = some t ∧ Turned m t ∧ t.transposeAt? = some m) ∧
    ((Layout.grids α).copyIn? m = some m.grid ∧ (Layout.grids α).copyOut? m.grid = some m ∧
      m.grid.copy = m) ∧
    ∀ L : Layout α, L.Faithful → ∃ s, L.copyIn? m = some s ∧ L.copyOut? s = some m := by
  refine ⟨⟨m.transpose, ?_, ?_, turned_transpose h hs, ?_⟩,
    ⟨copyIn?_grids h hs, copyOut?_grid h hs, copy_grid h⟩, fun L hL => exists_copies hL h hs⟩
  · exact (transposeAt?_eq h hs).1
  · exact (transposeAt?_eq h hs).2
  · rw [(transposeAt?_eq (wellFormed_transpose m) (hs.transpose h)).1, transpose_transpose h]

/-- Two rows, and as many rows as can be counted without a value in them. -/
theorem transposed_and_copied_tallest :
    (⟨2, 3, [1, 2, 3, 4, 5, 6]⟩ : Matrix Float).WellFormed ∧
      (⟨2, 3, [1, 2, 3, 4, 5, 6]⟩ : Matrix Float).Sized ∧
      (⟨3, 2, [1, 4, 2, 5, 3, 6]⟩ : Matrix Float).transposeAt? = some ⟨2, 3, [1, 2, 3, 4, 5, 6]⟩ ∧
      (Layout.byColumns Float).Faithful ∧
      (Layout.byColumns Float).copyOut? ⟨2, 3, [1, 4, 2, 5, 3, 6]⟩ = some ⟨2, 3, [1, 2, 3, 4, 5, 6]⟩ ∧
      tallest.WellFormed ∧ tallest.Sized ∧ ∃ t, tallest.transposeAt? = some t ∧ Turned tallest t := by
  let m : Matrix Float := ⟨2, 3, [1, 2, 3, 4, 5, 6]⟩
  have hsized : m.Sized := ⟨by decide, by decide, by decide⟩
  have htall : tallest.Sized := ⟨by decide, by decide, by decide⟩
  obtain ⟨⟨t, ht, -, -, hback⟩, -, hcopies⟩ := transposed_and_copied (m := m) rfl hsized
  obtain ⟨s, hin, hout⟩ := hcopies (Layout.byColumns Float) faithful_byColumns
  obtain ⟨⟨t', ht', -, hturned, -⟩, -, -⟩ := transposed_and_copied (m := tallest) rfl htall
  obtain rfl : ⟨3, 2, [1, 4, 2, 5, 3, 6]⟩ = t := Option.some.inj ht
  obtain rfl : (⟨2, 3, [1, 4, 2, 5, 3, 6]⟩ : Columns Float) = s := Option.some.inj hin
  exact ⟨rfl, hsized, hback, faithful_byColumns, hout, rfl, htall, t', ht', hturned⟩

end NumericSteps.Matrix
