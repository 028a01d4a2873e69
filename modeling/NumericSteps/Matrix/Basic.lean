import NumericSteps.Failure
import NumericSteps.Size

namespace NumericSteps

/-- A shape and the values in row-major order. -/
structure Matrix (α : Type) where
  rows : Nat
  cols : Nat
  data : List α
deriving DecidableEq

namespace Matrix

variable {α β : Type}

def shape (m : Matrix α) : Nat × Nat := (m.rows, m.cols)

/-- The values fill the shape. Every way to build a matrix inside the workflow keeps that. -/
def WellFormed (m : Matrix α) : Prop := m.data.length = m.rows * m.cols

instance (m : Matrix α) : Decidable m.WellFormed := inferInstanceAs (Decidable (_ = _))

def isEmpty (m : Matrix α) : Bool := m.data.isEmpty

def map (f : α → β) (m : Matrix α) : Matrix β := ⟨m.rows, m.cols, m.data.map f⟩

/-- Row `i` of the values. -/
def row (m : Matrix α) (i : Nat) : List α := (m.data.drop (i * m.cols)).take m.cols

/-- Cuts values into `n` rows of one width. -/
def cutRows (width : Nat) : Nat → List α → List (List α)
  | 0, _ => []
  | n + 1, xs => xs.take width :: cutRows width n (xs.drop width)

@[simp]
theorem length_cutRows (width n : Nat) (xs : List α) : (cutRows width n xs).length = n := by
  induction n generalizing xs with
  | zero => rfl
  | succ n ih => simp [cutRows, ih]

/-- All rows in order; a matrix without columns has empty ones. -/
def rowList (m : Matrix α) : List (List α) := cutRows m.cols m.rows m.data

theorem cutRows_eq_map (width n : Nat) (xs : List α) :
    cutRows width n xs = (List.range n).map fun i => (xs.drop (i * width)).take width := by
  induction n generalizing xs with
  | zero => rfl
  | succ n ih =>
    simp [cutRows, ih, List.range_succ_eq_map, List.drop_drop, Nat.succ_mul, Nat.add_comm,
      Function.comp_def]

theorem rowList_eq_map_row (m : Matrix α) : m.rowList = (List.range m.rows).map m.row :=
  cutRows_eq_map _ _ _

def get? (m : Matrix α) (i j : Nat) : Option α :=
  if i < m.rows ∧ j < m.cols then m.data[i * m.cols + j]? else none

/-- The values in row-major order, from a function of row and column. -/
def ofFn (rows cols : Nat) (f : Nat → Nat → α) : Matrix α where
  rows := rows
  cols := cols
  data := (List.range rows).flatMap fun i => (List.range cols).map (f i)

theorem length_flatMap_const (xs : List Nat) (f : Nat → List α) (n : Nat)
    (h : ∀ x ∈ xs, (f x).length = n) : (xs.flatMap f).length = xs.length * n := by
  induction xs with
  | nil => simp
  | cons x xs ih =>
    rw [List.flatMap_cons, List.length_append, h x (by simp),
      ih (fun y hy => h y (List.mem_cons_of_mem _ hy)), List.length_cons, Nat.succ_mul, Nat.add_comm]

theorem wellFormed_ofFn (rows cols : Nat) (f : Nat → Nat → α) :
    (ofFn rows cols f).WellFormed := by
  show ((List.range rows).flatMap fun i => (List.range cols).map (f i)).length = rows * cols
  rw [length_flatMap_const _ _ cols (by simp)]
  simp

def zeros [OfNat α 0] (rows cols : Nat) : Matrix α :=
  ⟨rows, cols, List.replicate (rows * cols) 0⟩

theorem wellFormed_zeros [OfNat α 0] (rows cols : Nat) :
    (zeros rows cols : Matrix α).WellFormed := by
  simp [zeros, WellFormed]

/-- The square matrix with the given values on its diagonal. -/
def diagonal [OfNat α 0] (ds : List α) : Matrix α :=
  ofFn ds.length ds.length fun i j => if i = j then ds.getD i 0 else 0

theorem wellFormed_diagonal [OfNat α 0] (ds : List α) : (diagonal ds).WellFormed :=
  wellFormed_ofFn _ _ _

def identity [OfNat α 0] [OfNat α 1] (n : Nat) : Matrix α := diagonal (List.replicate n 1)

theorem wellFormed_identity [OfNat α 0] [OfNat α 1] (n : Nat) :
    (identity n : Matrix α).WellFormed :=
  wellFormed_diagonal _

/-- A matrix from a flat buffer, which has to fill the shape; none fills one whose size does not fit. -/
def ofData (rows cols : Nat) (data : List α) : Except Failure (Matrix α) :=
  if Size.mul? rows cols = some data.length then .ok ⟨rows, cols, data⟩
  else .error (.bufferLength rows cols data.length)

theorem ofData_ok {rows cols : Nat} {data : List α} {m : Matrix α}
    (h : ofData rows cols data = .ok m) : m = ⟨rows, cols, data⟩ ∧ m.WellFormed := by
  unfold ofData at h
  split at h
  · rename_i hsize
    cases h
    exact ⟨rfl, (Size.mul?_eq_some.1 hsize).1.symm⟩
  · cases h

theorem wellFormed_of_ofData {rows cols : Nat} {data : List α} {m : Matrix α}
    (h : ofData rows cols data = .ok m) : m.WellFormed := (ofData_ok h).2

/-- Appends rows of one width, `line` being the number of the next one. -/
def joinRows (width : Nat) (line : Nat) : List (List α) → Except Failure (List α)
  | [] => .ok []
  | r :: rs =>
    if r.length = width then (joinRows width (line + 1) rs).map (r ++ ·)
    else .error (.raggedRow line width r.length)

/-- The length of the first list, zero if there is none. -/
def headLength : List (List α) → Nat
  | [] => 0
  | r :: _ => r.length

/-- A matrix from its rows, which must all have the length of the first, where there is room for their
values. -/
def ofRows (rs : List (List α)) : Except Failure (Matrix α) :=
  (joinRows (headLength rs) 1 rs).map fun data => ⟨rs.length, headLength rs, data⟩

/-- A matrix from its rows on a machine that gives a buffer at most `memory` bytes. Before a row is looked
at, a buffer is asked for that holds as many rows of the length of the first. Without it nothing comes of
the rows, not even a failure. -/
def ofRows? (memory : Nat) (rs : List (List α)) : Option (Except Failure (Matrix α)) := do
  let count ← Size.mul? rs.length (headLength rs)
  if Size.fits count ∧ count * 8 ≤ memory then some (ofRows rs) else none

theorem joinRows_length {width line : Nat} {rs : List (List α)} {data : List α}
    (h : joinRows width line rs = .ok data) : data.length = rs.length * width := by
  induction rs generalizing line data with
  | nil =>
    cases h
    simp
  | cons r rs ih =>
    simp only [joinRows] at h
    split at h
    · rename_i hr
      obtain ⟨tail, hj, rfl⟩ := map_ok_iff.1 h
      simp only [List.length_append, List.length_cons, hr, ih hj, Nat.succ_mul, Nat.add_comm]
    · cases h

theorem wellFormed_of_ofRows {rs : List (List α)} {m : Matrix α} (h : ofRows rs = .ok m) :
    m.WellFormed := by
  unfold ofRows at h
  obtain ⟨data, hj, rfl⟩ := map_ok_iff.1 h
  exact joinRows_length hj

/-- Rows and columns change places. -/
def transpose [OfNat α 0] (m : Matrix α) : Matrix α :=
  ofFn m.cols m.rows fun j i => m.data.getD (i * m.cols + j) 0

theorem wellFormed_transpose [OfNat α 0] (m : Matrix α) : m.transpose.WellFormed :=
  wellFormed_ofFn _ _ _

/-- The differences of the values of two matrices of one shape. -/
def sub [Sub α] (a b : Matrix α) : Except Failure (Matrix α) :=
  if a.shape = b.shape then .ok ⟨a.rows, a.cols, List.zipWith (· - ·) a.data b.data⟩
  else .error (.shapeMismatch .subtract a.shape b.shape)

/-- The equality of the values as numbers, under which NaN differs from itself. -/
def sameValues (a b : Matrix Float) : Bool :=
  a.shape == b.shape && a.data.length == b.data.length &&
    (List.zipWith (· == ·) a.data b.data).all id

end Matrix

end NumericSteps
