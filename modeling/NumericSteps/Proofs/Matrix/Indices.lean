import NumericSteps.Matrix.Checked
import NumericSteps.Proofs.Matrix.ReadBack

namespace NumericSteps.Matrix

variable {α : Type} {m : Matrix α} {rows cols i j : Nat}

section Definitions

/-- The shape and the number of the values are sizes of a machine. -/
structure Sized (m : Matrix α) : Prop where
  rows : m.rows < Size.limit
  cols : m.cols < Size.limit
  count : m.data.length < Size.limit

/-- The index of column `j` of row `i`, where the rows have a width. -/
def place? (width i j : Nat) : Option Nat := do Size.add? (← Size.mul? i width) j

def cellAt? (m : Matrix α) (i j : Nat) : Option α :=
  if i < m.rows ∧ j < m.cols then (place? m.cols i j).bind fun k => m.data[k]? else none

/-- The index of the first value of a row, and the one behind its last. -/
def bounds? (m : Matrix α) (i : Nat) : Option (Nat × Nat) := do
  return (← Size.mul? i m.cols, ← Size.mul? (← Size.add? i 1) m.cols)

/-- The values from one index up to another. -/
def slice? (xs : List α) (b : Nat × Nat) : Option (List α) :=
  if b.1 ≤ b.2 ∧ b.2 ≤ xs.length then some ((xs.drop b.1).take (b.2 - b.1)) else none

def rowAt? (m : Matrix α) (i : Nat) : Option (List α) := (m.bounds? i).bind (slice? m.data)

def rowsAt? (m : Matrix α) : Option (List (List α)) := (List.range m.rows).mapM m.rowAt?

def textAt? (m : Matrix Float) : Option String :=
  m.rowsAt?.map fun rs => String.ofList (rs.flatMap fun r => rowChars r ++ ['\n'])

/-- The rows and columns of a shape, row by row. -/
def cells (rows cols : Nat) : List (Nat × Nat) :=
  (List.range rows).flatMap fun i => (List.range cols).map fun j => (i, j)

/-- Copies the value at a row and column of a matrix to its place in the transpose. -/
def moveCell? (m : Matrix α) (t : List α) (c : Nat × Nat) : Option (List α) := do
  let v ← m.data[← place? m.cols c.1 c.2]?
  let k ← place? m.rows c.2 c.1
  if k < t.length then some (t.set k v) else none

/-- Starts from zeros and copies value by value. -/
def transposeAt? [OfNat α 0] (m : Matrix α) : Option (Matrix α) := do
  let count ← Size.mul? m.cols m.rows
  return ⟨m.cols, m.rows, ← (cells m.rows m.cols).foldlM m.moveCell? (List.replicate count 0)⟩

end Definitions

section Indices

theorem index_lt (hi : i < rows) (hj : j < cols) : i * cols + j < rows * cols := by
  calc i * cols + j < i * cols + cols := by omega
    _ = (i + 1) * cols := (Nat.succ_mul i cols).symm
    _ ≤ rows * cols := Nat.mul_le_mul_right cols hi

theorem index_inj {i' j' : Nat} (hj : j < cols) (hj' : j' < cols)
    (h : i * cols + j = i' * cols + j') : i = i' ∧ j = j' := by
  have hcols : 0 < cols := by omega
  have hrow (a b : Nat) (hb : b < cols) : (a * cols + b) / cols = a := by
    rw [Nat.mul_comm, Nat.mul_add_div hcols, Nat.div_eq_of_lt hb, Nat.add_zero]
  have hi : i = i' := by rw [← hrow i j hj, ← hrow i' j' hj', h]
  subst hi
  exact ⟨rfl, by omega⟩

theorem place?_eq_some {width k : Nat} :
    place? width i j = some k ↔ i * width + j = k ∧ k < Size.limit := by
  simp only [place?, Option.bind_eq_bind, Option.bind_eq_some_iff, Size.mul?_eq_some, Size.add?_eq_some]
  constructor
  · rintro ⟨row, ⟨rfl, -⟩, hsum⟩
    exact hsum
  · rintro ⟨hsum, hk⟩
    exact ⟨i * width, ⟨rfl, by omega⟩, hsum, hk⟩

theorem place?_eq (hi : i < rows) (hj : j < cols) (hcount : rows * cols < Size.limit) :
    place? cols i j = some (i * cols + j) := by
  have hlt : i * cols + j < rows * cols := index_lt hi hj
  exact place?_eq_some.2 ⟨rfl, hlt.trans hcount⟩

theorem getElem?_ofFn (f : Nat → Nat → α) (hi : i < rows) (hj : j < cols) :
    (ofFn rows cols f).data[i * cols + j]? = some (f i j) := by
  have hlength (n : Nat) : ((List.range n).flatMap fun i => (List.range cols).map (f i)).length =
      n * cols := by
    rw [length_flatMap_const _ _ cols (by simp), List.length_range]
  induction rows with
  | zero => omega
  | succ n ih =>
    change ((List.range (n + 1)).flatMap fun i => (List.range cols).map (f i))[i * cols + j]? = _
    rw [List.range_succ, List.flatMap_append]
    by_cases hlast : i = n
    · subst hlast
      rw [List.getElem?_append_right (by rw [hlength]; omega), hlength]
      simp [hj]
    · have hlt : i * cols + j < n * cols := index_lt (by omega) hj
      rw [List.getElem?_append_left (by rw [hlength]; exact hlt)]
      exact ih (by omega)

/-- Every index below the count of a shape is that of a row and a column. -/
theorem exists_cell {k : Nat} (hk : k < rows * cols) : ∃ i < rows, ∃ j < cols, i * cols + j = k := by
  have hcols : 0 < cols := Nat.pos_of_ne_zero fun hz => by simp [hz] at hk
  have hrow : k / cols < rows := Nat.div_lt_of_lt_mul (by rwa [Nat.mul_comm])
  exact ⟨k / cols, hrow, k % cols, Nat.mod_lt k hcols, Nat.div_add_mod' k cols⟩

/-- Lists of the length of a shape are equal if they agree at every row and column. -/
theorem eq_of_cells {xs ys : List α} (hx : xs.length = rows * cols) (hy : ys.length = rows * cols)
    (h : ∀ i < rows, ∀ j < cols, xs[i * cols + j]? = ys[i * cols + j]?) : xs = ys := by
  apply List.ext_getElem?
  intro k
  by_cases hk : k < rows * cols
  · obtain ⟨i, hi, j, hj, rfl⟩ := exists_cell hk
    exact h i hi j hj
  · rw [List.getElem?_eq_none (by omega), List.getElem?_eq_none (by omega)]

theorem ofFn_congr {f g : Nat → Nat → α} (h : ∀ i < rows, ∀ j < cols, f i j = g i j) :
    ofFn rows cols f = ofFn rows cols g := by
  have hdata : (ofFn rows cols f).data = (ofFn rows cols g).data := by
    refine eq_of_cells (wellFormed_ofFn rows cols f) (wellFormed_ofFn rows cols g) ?_
    intro i (hi : i < rows) j (hj : j < cols)
    change (ofFn rows cols f).data[i * cols + j]? = (ofFn rows cols g).data[i * cols + j]?
    rw [getElem?_ofFn f hi hj, getElem?_ofFn g hi hj, h i hi j hj]
  exact congrArg (Matrix.mk rows cols) hdata

end Indices

section Entries

variable [OfNat α 0]

theorem entry_ofFn (f : Nat → Nat → α) (hi : i < rows) (hj : j < cols) :
    (ofFn rows cols f).entry i j = f i j := by
  have hcell : (ofFn rows cols f).data[i * cols + j]? = some (f i j) := getElem?_ofFn f hi hj
  change (ofFn rows cols f).data.getD (i * cols + j) 0 = f i j
  rw [List.getD_eq_getElem?_getD, hcell, Option.getD_some]

theorem entry_transpose (hi : i < m.rows) (hj : j < m.cols) : m.transpose.entry j i = m.entry i j :=
  entry_ofFn (fun j i => m.entry i j) hj hi

theorem transpose_ofFn (f : Nat → Nat → α) :
    (ofFn rows cols f).transpose = ofFn cols rows fun j i => f i j :=
  ofFn_congr fun _ hj _ hi => entry_ofFn f hi hj

theorem get?_eq_entry (h : m.Backed) (hi : i < m.rows) (hj : j < m.cols) :
    m.get? i j = some (m.entry i j) := by
  have hlt : i * m.cols + j < m.data.length := Nat.lt_of_lt_of_le (index_lt hi hj) h
  rw [get?, if_pos ⟨hi, hj⟩, entry, List.getD_eq_getElem?_getD, List.getElem?_eq_getElem hlt,
    Option.getD_some]

/-- Copied entry by entry, a matrix is the same again. -/
theorem ofFn_entry (h : m.WellFormed) : ofFn m.rows m.cols m.entry = m := by
  have hdata : (ofFn m.rows m.cols m.entry).data = m.data := by
    apply eq_of_cells (wellFormed_ofFn _ _ _) h
    intro i (hi : i < m.rows) j (hj : j < m.cols)
    change (ofFn m.rows m.cols m.entry).data[i * m.cols + j]? = m.data[i * m.cols + j]?
    have hget := get?_eq_entry h.backed hi hj
    rw [get?, if_pos ⟨hi, hj⟩] at hget
    rw [getElem?_ofFn _ hi hj, hget]
  exact congrArg (Matrix.mk m.rows m.cols) hdata

theorem copy_grid (h : m.WellFormed) : m.grid.copy = m := by
  rw [grid_eq]
  exact ofFn_entry h

/-- Rows and columns that change places twice are back. -/
theorem transpose_transpose (h : m.WellFormed) : m.transpose.transpose = m :=
  (transpose_ofFn fun j i => m.entry i j).trans (ofFn_entry h)

end Entries

section Reading

theorem exists_cellAt? (h : m.WellFormed) (hs : m.Sized) (hi : i < m.rows) (hj : j < m.cols) :
    ∃ v, m.data[i * m.cols + j]? = some v ∧ m.cellAt? i j = some v ∧ m.element i j = .value v := by
  have hcount := hs.count
  rw [h] at hcount
  have hlt : i * m.cols + j < m.data.length := by
    rw [h]
    exact index_lt hi hj
  have hvalue : m.data[i * m.cols + j]? = some m.data[i * m.cols + j] := List.getElem?_eq_getElem hlt
  refine ⟨m.data[i * m.cols + j], hvalue, ?_, ?_⟩
  · rw [cellAt?, if_pos ⟨hi, hj⟩, place?_eq hi hj hcount]
    exact hvalue
  · rw [element, if_pos ⟨hi, hj⟩, hvalue]

/-- The indices around a row fit, and no row reaches behind the values. -/
theorem bounds?_eq (h : m.WellFormed) (hs : m.Sized) (hi : i < m.rows) :
    m.bounds? i = some (i * m.cols, (i + 1) * m.cols) ∧ (i + 1) * m.cols ≤ m.data.length := by
  have hrows := hs.rows
  have hcount := hs.count
  have hend : (i + 1) * m.cols ≤ m.data.length := by
    rw [h]
    exact Nat.mul_le_mul_right m.cols hi
  have hnext : (i + 1) * m.cols = i * m.cols + m.cols := Nat.succ_mul i m.cols
  refine ⟨?_, hend⟩
  rw [bounds?, Size.mul?_of_lt (by omega), Size.add?_of_lt (by omega)]
  simp only [Option.bind_eq_bind, Option.bind_some]
  rw [Size.mul?_of_lt (by omega)]
  rfl

theorem rowAt?_eq (h : m.WellFormed) (hs : m.Sized) (hi : i < m.rows) :
    m.rowAt? i = some (m.row i) ∧ m.row? i = some (m.row i) := by
  obtain ⟨hbounds, hend⟩ := bounds?_eq h hs hi
  have hnext : (i + 1) * m.cols = i * m.cols + m.cols := Nat.succ_mul i m.cols
  constructor
  · have hwidth : (i + 1) * m.cols - i * m.cols = m.cols := by omega
    rw [rowAt?, hbounds, Option.bind_some, slice?, if_pos ⟨by dsimp only; omega, hend⟩, hwidth, row]
  · rw [row?, if_pos hend]

theorem mapM_some {β : Type} {f : β → Option α} {g : β → α} {xs : List β}
    (h : ∀ x ∈ xs, f x = some (g x)) : xs.mapM f = some (xs.map g) := by
  induction xs with
  | nil => rfl
  | cons x xs ih =>
    rw [List.mapM_cons, h x List.mem_cons_self, ih fun y hy => h y (List.mem_cons_of_mem _ hy)]
    rfl

theorem rowsAt?_eq (h : m.WellFormed) (hs : m.Sized) :
    m.rowsAt? = some m.rowList ∧ m.rowList? = some m.rowList := by
  constructor
  · rw [rowsAt?, rowList_eq_map_row]
    apply mapM_some
    intro i hi
    exact (rowAt?_eq h hs (List.mem_range.1 hi)).1
  · rw [rowList?, if_pos h.backed]

theorem textAt?_eq {m : Matrix Float} (h : m.WellFormed) (hs : m.Sized) :
    m.textAt? = some m.text ∧ m.text? = some m.text := by
  constructor
  · rw [textAt?, (rowsAt?_eq h hs).1]
    rfl
  · rw [text?, if_pos h.backed]

end Reading

section Transposing

variable [OfNat α 0] {t : List α} {done cs : List (Nat × Nat)} {c : Nat × Nat}

theorem mem_cells : c ∈ cells rows cols ↔ c.1 < rows ∧ c.2 < cols := by
  obtain ⟨i, j⟩ := c
  simp [cells]

/-- The values of the cells that are done stand in their places in the transpose, and zeros elsewhere. -/
structure Moved (m : Matrix α) (done : List (Nat × Nat)) (t : List α) : Prop where
  length : t.length = m.cols * m.rows
  cell : ∀ i < m.rows, ∀ j < m.cols, t[j * m.rows + i]? =
    some (if (i, j) ∈ done then m.data.getD (i * m.cols + j) 0 else 0)

theorem moved_nil (m : Matrix α) : Moved m [] (List.replicate (m.cols * m.rows) 0) := by
  refine ⟨List.length_replicate, ?_⟩
  intro i hi j hj
  have hlt : j * m.rows + i < m.cols * m.rows := index_lt hj hi
  simp [hlt]

theorem Moved.moveCell? (h : m.WellFormed) (hs : m.Sized) (hm : Moved m done t) (hi : c.1 < m.rows)
    (hj : c.2 < m.cols) : ∃ t', m.moveCell? t c = some t' ∧ Moved m (done ++ [c]) t' := by
  obtain ⟨i, j⟩ := c
  have hcount := hs.count
  rw [h] at hcount
  obtain ⟨v, hv, -, -⟩ := exists_cellAt? h hs hi hj
  have hsource : place? m.cols i j = some (i * m.cols + j) := place?_eq hi hj hcount
  have htarget : place? m.rows j i = some (j * m.rows + i) :=
    place?_eq hj hi (by rwa [Nat.mul_comm])
  have hlt : j * m.rows + i < t.length := by
    rw [hm.length]
    exact index_lt hj hi
  refine ⟨t.set (j * m.rows + i) v, ?_, ?_, ?_⟩
  · simp [Matrix.moveCell?, hsource, htarget, hv, hlt]
  · rw [List.length_set]
    exact hm.length
  · intro i' hi' j' hj'
    rw [List.getElem?_set]
    by_cases hsame : j * m.rows + i = j' * m.rows + i'
    · obtain ⟨rfl, rfl⟩ := index_inj hi hi' hsame
      rw [if_pos rfl, if_pos hlt, if_pos (by simp), List.getD_eq_getElem?_getD, hv]
      rfl
    · have hne : (i', j') ≠ (i, j) := by
        rintro he
        cases he
        exact hsame rfl
      rw [if_neg hsame, hm.cell i' hi' j' hj']
      simp [hne]

theorem Moved.foldlM (h : m.WellFormed) (hs : m.Sized) (hm : Moved m done t)
    (hcs : ∀ c ∈ cs, c.1 < m.rows ∧ c.2 < m.cols) :
    ∃ t', cs.foldlM m.moveCell? t = some t' ∧ Moved m (done ++ cs) t' := by
  induction cs generalizing done t with
  | nil => exact ⟨t, rfl, by simpa using hm⟩
  | cons c cs ih =>
    obtain ⟨⟨hi, hj⟩, hrest⟩ := List.forall_mem_cons.1 hcs
    obtain ⟨t₁, hcell, hm₁⟩ := hm.moveCell? h hs hi hj
    obtain ⟨t₂, hcells, hm₂⟩ := ih hm₁ hrest
    refine ⟨t₂, ?_, by simpa using hm₂⟩
    rw [List.foldlM_cons, hcell]
    exact hcells

theorem transposeAt?_eq (h : m.WellFormed) (hs : m.Sized) :
    m.transposeAt? = some m.transpose ∧ m.transpose? = some m.transpose := by
  constructor
  · obtain ⟨t, hrun, hm⟩ := (moved_nil m).foldlM h hs fun c hc => mem_cells.1 hc
    have ht : t = m.transpose.data := by
      apply eq_of_cells hm.length (wellFormed_transpose m)
      intro j hj i hi
      have hmem : (i, j) ∈ cells m.rows m.cols := mem_cells.2 ⟨hi, hj⟩
      rw [hm.cell i hi j hj, List.nil_append, if_pos hmem]
      exact (getElem?_ofFn (fun j i => m.data.getD (i * m.cols + j) 0) hj hi).symm
    have hcount : m.cols * m.rows < Size.limit := by
      have hlength : m.data.length = m.rows * m.cols := h
      rw [Nat.mul_comm, ← hlength]
      exact hs.count
    rw [transposeAt?, Size.mul?_of_lt hcount]
    simp only [Option.bind_eq_bind, Option.bind_some, hrun, ht]
    rfl
  · rw [transpose?, if_pos h.backed]

end Transposing

end NumericSteps.Matrix
