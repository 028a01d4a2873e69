import NumericSteps.Proofs.Double.Arithmetic
import NumericSteps.Proofs.Matrix.Indices

namespace NumericSteps.Matrix

open Double

variable {a b : Matrix Float} {acc x y : Float} {ds xs ys : List Float} {i j : Nat}

section Elements

theorem get?_eq_some (h : a.get? i j = some x) :
    i < a.rows ∧ j < a.cols ∧ a.data[i * a.cols + j]? = some x := by
  unfold get? at h
  split at h
  · rename_i hin
    exact ⟨hin.1, hin.2, h⟩
  · cases h

/-- Where one of two matrices of a shape has an element, so has the other. -/
theorem exists_getElem? (h : a.get? i j = some x) (hb : b.Backed) (hshape : a.shape = b.shape) :
    ∃ y, b.data[i * a.cols + j]? = some y := by
  obtain ⟨hi, hj, -⟩ := get?_eq_some h
  obtain ⟨hrows, hcols⟩ := Prod.mk.inj hshape
  have hlt : i * a.cols + j < b.data.length := by
    calc i * a.cols + j < a.rows * a.cols := index_lt hi hj
      _ = b.rows * b.cols := by rw [hrows, hcols]
      _ ≤ b.data.length := hb
  exact ⟨_, List.getElem?_eq_getElem hlt⟩

/-- An element of one of two matrices has a counterpart in the other. -/
theorem exists_counterparts (ha : a.Backed) (hb : b.Backed) (hshape : a.shape = b.shape)
    (h : a.get? i j = some x ∨ b.get? i j = some x) :
    ∃ y z, a.data[i * a.cols + j]? = some y ∧ b.data[i * a.cols + j]? = some z ∧ (x = y ∨ x = z) := by
  rcases h with hx | hx
  · obtain ⟨z, hz⟩ := exists_getElem? hx hb hshape
    exact ⟨x, z, (get?_eq_some hx).2.2, hz, Or.inl rfl⟩
  · obtain ⟨y, hy⟩ := exists_getElem? hx ha hshape.symm
    have hcols : a.cols = b.cols := (Prod.mk.inj hshape).2
    rw [hcols]
    exact ⟨y, x, hy, (get?_eq_some hx).2.2, Or.inr rfl⟩

theorem exists_get?_of_mem (h : a.WellFormed) (hx : x ∈ a.data) : ∃ i j, a.get? i j = some x := by
  obtain ⟨k, hk⟩ := List.mem_iff_getElem?.1 hx
  have hlt : k < a.rows * a.cols := by
    rw [← h]
    exact (List.getElem?_eq_some_iff.1 hk).1
  obtain ⟨i, hi, j, hj, rfl⟩ := exists_cell hlt
  refine ⟨i, j, ?_⟩
  rw [get?, if_pos ⟨hi, hj⟩, hk]

end Elements

section Sums

/-- Wherever a value that is not finite is added, and whatever after it. -/
theorem lost_foldl (h : Lost acc ∨ ∃ d ∈ ds, d.isFinite = false) :
    Lost (ds.foldl (fun acc v => acc + v * v) acc) := by
  induction ds generalizing acc with
  | nil => exact h.resolve_right (by simp)
  | cons d ds ih =>
    rw [List.foldl_cons]
    apply ih
    rcases h with hacc | ⟨v, hv, hnot⟩
    · exact Or.inl (hacc.add_left _)
    · rcases List.mem_cons.1 hv with rfl | hv
      · exact Or.inl ((lost_square hnot).add_right acc)
      · exact Or.inr ⟨v, hv, hnot⟩

theorem null_foldl (hacc : Null acc) (h : ∀ d ∈ ds, Null d) :
    Null (ds.foldl (fun acc v => acc + v * v) acc) := by
  induction ds generalizing acc with
  | nil => exact hacc
  | cons d ds ih =>
    obtain ⟨hd, hds⟩ := List.forall_mem_cons.1 h
    rw [List.foldl_cons]
    exact ih (hacc.add_square hd) hds

theorem sumSquares_eq (xs : List Float) :
    sumSquares xs = (xs.map fun v => v * v).foldl (· + ·) (-0.0) :=
  List.foldl_map.symm

/-- The squares are the same one by one, and so is their sum, in the order of the values. -/
theorem sumSquares_sub_comm (xs ys : List Float) :
    sumSquares (List.zipWith (· - ·) xs ys) = sumSquares (List.zipWith (· - ·) ys xs) := by
  have hsquares : List.zipWith (fun x y : Float => (x - y) * (x - y)) xs ys =
      List.zipWith (fun x y => (x - y) * (x - y)) ys xs :=
    List.zipWith_comm_of_comm square_sub_comm
  rw [sumSquares_eq, sumSquares_eq, List.map_zipWith, List.map_zipWith, hsquares]

theorem mem_zipWith_sub {k : Nat} (hx : xs[k]? = some x) (hy : ys[k]? = some y) :
    x - y ∈ List.zipWith (· - ·) xs ys := by
  refine List.mem_of_getElem? (i := k) ?_
  rw [List.getElem?_zipWith, hx, hy]

end Sums

section Distances

theorem distance_comm (h : a.shape = b.shape) : a.distance b = b.distance a := by
  rw [distance_of_shape h, distance_of_shape h.symm, sumSquares_sub_comm]

theorem lost_distance {k : Nat} {norm : Float} (hx : a.data[k]? = some x) (hy : b.data[k]? = some y)
    (hnot : x.isFinite = false ∨ y.isFinite = false) (h : a.distance b = .ok norm) : Lost norm := by
  by_cases hshape : a.shape = b.shape
  · rw [distance_of_shape hshape] at h
    cases h
    exact (lost_foldl (Or.inr ⟨x - y, mem_zipWith_sub hx hy, isFinite_sub_eq_false hnot⟩)).sqrt
  · rw [distance_of_shape_ne hshape] at h
    cases h

theorem null_distance_self (h : ∀ x ∈ a.data, x.isFinite = true) :
    ∃ norm, a.distance a = .ok norm ∧ Null norm := by
  refine ⟨_, distance_of_shape rfl, (null_foldl ⟨.negative, rfl⟩ ?_).sqrt⟩
  rw [List.zipWith_self]
  intro d hd
  obtain ⟨x, hx, rfl⟩ := List.mem_map.1 hd
  exact null_sub_self (h x hx)

end Distances

end NumericSteps.Matrix
