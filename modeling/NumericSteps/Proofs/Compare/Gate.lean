import NumericSteps.Proofs.Matrix.Distance
import NumericSteps.Proofs.Matrix.Grammar
import NumericSteps.Proofs.Workspace.Files
import NumericSteps.Step.Compare

namespace NumericSteps

namespace Compare

open Text Double

variable {w : Workspace} {d : Disk} {a b : Matrix Float} {tolerance higher norm x : Float} {i j : Nat}

/-- Matrices of one shape with an element that is not finite have a distance that is not finite either. -/
theorem refused_of_get? (tolerance : Float) (ha : a.Backed) (hb : b.Backed)
    (hx : a.get? i j = some x ∨ b.get? i j = some x) (hnot : x.isFinite = false) :
    a.shape ≠ b.shape ∧ compare a b tolerance = .error (.shapeMismatch .subtract a.shape b.shape) ∨
      ∃ norm, norm.isFinite = false ∧
        compare a b tolerance = .error (.toleranceExceeded norm tolerance) := by
  by_cases hshape : a.shape = b.shape
  · obtain ⟨y, z, hy, hz, heq⟩ := Matrix.exists_counterparts ha hb hshape hx
    have hbad : y.isFinite = false ∨ z.isFinite = false := by
      rcases heq with rfl | rfl
      · exact Or.inl hnot
      · exact Or.inr hnot
    have hdistance := Matrix.distance_of_shape hshape
    have hlost := Matrix.lost_distance hy hz hbad hdistance
    refine Or.inr ⟨_, hlost.isFinite, ?_⟩
    rw [compare_of_distance hdistance, if_neg (hlost.not_lt tolerance)]
  · exact Or.inl ⟨hshape, compare_mismatch hshape⟩

/-- A norm is returned for two files only where both hold a matrix. -/
theorem run_ok (h : ((run w tolerance).run d).1.result = .ok norm) :
    ∃ computed expected, ((w.readMatrix .matrixIn).run d).1 = .ok computed ∧
      ((w.readMatrix .matrixOut).run d).1 = .ok expected ∧
      compare computed expected tolerance = .ok norm := by
  obtain ⟨course, hrun⟩ : ∃ course, Script.Ends (fun _ _ => False) (run w tolerance) d course _ _ :=
    Script.ends_run _ _
  rcases Script.Ends.of_bind_read hrun (Workspace.only_readMatrix w .matrixIn) fun _ => rfl with
    ⟨⟨g, hg⟩, -, -⟩ | ⟨computed, hcomputed, hrun⟩
  · rw [hg] at h
    cases h
  rcases Script.Ends.of_bind_read hrun (Workspace.only_readMatrix w .matrixOut) fun _ => rfl with
    ⟨⟨g, hg⟩, -, -⟩ | ⟨expected, hexpected, hrun⟩
  · rw [hg] at h
    cases h
  obtain ⟨hout, -, -⟩ := hrun.of_done
  rw [hout] at h
  exact ⟨computed, expected, hcomputed, hexpected, h⟩

/-- A word of a file that reads as an infinity or as no number. -/
def HoldsNonFinite (bytes : Bytes) : Prop :=
  ∃ line ∈ lines carriageReturn lineFeed bytes, ∃ word ∈ Matrix.lineWords line,
    ∃ x, Numeral.read word = some x ∧ x.isFinite = false

theorem exists_get?_of_holds {bytes : Bytes} (h : HoldsNonFinite bytes)
    (ha : Matrix.ofBytes bytes = .ok a) : ∃ i j x, a.get? i j = some x ∧ x.isFinite = false := by
  obtain ⟨line, hline, word, hword, x, hx, hnot⟩ := h
  obtain ⟨i, j, hget⟩ := Matrix.exists_get?_of_mem (Matrix.wellFormed_of_ofBytes ha)
    (Matrix.mem_data_of_word ha hline hword hx)
  exact ⟨i, j, x, hget, hnot⟩

/-- An element that is not finite, in any place of either matrix, is refused at every tolerance, and so is
a word for such an element in either file. -/
theorem refused_of_not_finite :
    (∀ (a b : Matrix Float) (tolerance x : Float) (i j : Nat), a.Backed → b.Backed →
      (a.get? i j = some x ∨ b.get? i j = some x) → x.isFinite = false →
      a.shape ≠ b.shape ∧
          compare a b tolerance = .error (.shapeMismatch .subtract a.shape b.shape) ∨
        ∃ norm, norm.isFinite = false ∧
          compare a b tolerance = .error (.toleranceExceeded norm tolerance)) ∧
    ∀ (w : Workspace) (d : Disk) (tolerance : Float) (s : Slot) (bytes : Bytes),
      s = .matrixIn ∨ s = .matrixOut → d.read (w.path s) = .ok bytes → HoldsNonFinite bytes →
      ∀ norm, ((run w tolerance).run d).1.result ≠ .ok norm := by
  constructor
  · intro a b tolerance x i j ha hb hx hnot
    exact refused_of_get? tolerance ha hb hx hnot
  · intro w d tolerance s bytes hs hread hholds norm hok
    obtain ⟨a, b, ha, hb, hcompare⟩ := run_ok hok
    have hbad : ∃ i j x, (a.get? i j = some x ∨ b.get? i j = some x) ∧ x.isFinite = false := by
      rcases hs with rfl | rfl
      · rw [Workspace.run_readMatrix_bytes hread] at ha
        obtain ⟨i, j, x, hx, hnot⟩ := exists_get?_of_holds hholds ha
        exact ⟨i, j, x, Or.inl hx, hnot⟩
      · rw [Workspace.run_readMatrix_bytes hread] at hb
        obtain ⟨i, j, x, hx, hnot⟩ := exists_get?_of_holds hholds hb
        exact ⟨i, j, x, Or.inr hx, hnot⟩
    obtain ⟨i, j, x, hx, hnot⟩ := hbad
    have hrefused := refused_of_get? tolerance (Workspace.wellFormed_of_readMatrix ha).backed
      (Workspace.wellFormed_of_readMatrix hb).backed hx hnot
    rw [hcompare] at hrefused
    rcases hrefused with ⟨-, herror⟩ | ⟨_, -, herror⟩
    · cases herror
    · cases herror

/-- Infinities of one sign at one place, whose difference is no number, at an infinite tolerance; and files
of which one holds a word for an infinity. -/
theorem refused_of_not_finite_infinite :
    (⟨1, 2, [1, 1.0 / 0.0]⟩ : Matrix Float).Backed ∧
      (⟨1, 2, [1, 1.0 / 0.0]⟩ : Matrix Float).get? 0 1 = some (1.0 / 0.0) ∧
      (1.0 / 0.0 : Float).isFinite = false ∧
      (∃ norm, norm.isFinite = false ∧
        compare ⟨1, 2, [1, 1.0 / 0.0]⟩ ⟨1, 2, [1, 1.0 / 0.0]⟩ (1.0 / 0.0) =
          .error (.toleranceExceeded norm (1.0 / 0.0))) ∧
      HoldsNonFinite (encode "1 2\n3 -inf\n".toList) ∧
      ∀ norm, ((run Workspace.top (1.0 / 0.0)).run (Workspace.topDisk
        [("matrix_in", .file (encode "1 2\n3 4\n".toList)),
          ("matrix_out", .file (encode "1 2\n3 -inf\n".toList))])).1.result ≠ .ok norm := by
  obtain ⟨hmatrices, hfiles⟩ := refused_of_not_finite
  have hbacked : (⟨1, 2, [1, 1.0 / 0.0]⟩ : Matrix Float).Backed := by decide +kernel
  have hget : (⟨1, 2, [1, 1.0 / 0.0]⟩ : Matrix Float).get? 0 1 = some (1.0 / 0.0) := by decide +kernel
  have hinf : (1.0 / 0.0 : Float).isFinite = false := by decide +kernel
  have hholds : HoldsNonFinite (encode "1 2\n3 -inf\n".toList) :=
    ⟨encode "3 -inf".toList, by decide +kernel, "-inf".toList, by decide +kernel, -1.0 / 0.0,
      by decide +kernel, by decide +kernel⟩
  refine ⟨hbacked, hget, hinf, ?_, hholds, ?_⟩
  · rcases hmatrices _ _ (1.0 / 0.0) _ 0 1 hbacked hbacked (Or.inl hget) hinf with ⟨hne, -⟩ | hexceeded
    · exact absurd rfl hne
    · exact hexceeded
  · exact hfiles Workspace.top _ (1.0 / 0.0) .matrixOut _ (Or.inr rfl) (by decide +kernel) hholds

/-- What two matrices give either way round. -/
inductive Mirrored (left right : Nat × Nat) (tolerance : Float) :
    Except Failure Float → Except Failure Float → Prop
  | passed (norm : Float) : Mirrored left right tolerance (.ok norm) (.ok norm)
  | exceeded (norm : Float) : Mirrored left right tolerance
      (.error (.toleranceExceeded norm tolerance)) (.error (.toleranceExceeded norm tolerance))
  | mismatched : Mirrored left right tolerance
      (.error (.shapeMismatch .subtract left right)) (.error (.shapeMismatch .subtract right left))

theorem mirrored_compare (a b : Matrix Float) (tolerance : Float) :
    Mirrored a.shape b.shape tolerance (compare a b tolerance) (compare b a tolerance) := by
  by_cases hshape : a.shape = b.shape
  · have hdistance := Matrix.distance_of_shape hshape
    have hswapped := (Matrix.distance_comm hshape).symm.trans hdistance
    rw [compare_of_distance hdistance, compare_of_distance hswapped]
    split
    · exact .passed _
    · exact .exceeded _
  · rw [compare_mismatch hshape, compare_mismatch (Ne.symm hshape)]
    exact .mismatched

theorem passed_of_le (h : compare a b tolerance = .ok norm) (hle : tolerance ≤ higher) :
    compare a b higher = .ok norm := by
  obtain ⟨hdistance, hlt⟩ := compare_ok_iff.1 h
  exact compare_ok_iff.2 ⟨hdistance, Double.lt_of_lt_of_le hlt hle⟩

/-- A matrix without elements has negative zero as its distance, which is below the same tolerances. -/
theorem passed_self (h : ∀ x ∈ a.data, x.isFinite = true) (hpos : 0 < tolerance) :
    ∃ norm, compare a a tolerance = .ok norm := by
  obtain ⟨norm, hdistance, hnull⟩ := Matrix.null_distance_self h
  have hzero : Null 0 := ⟨.positive, rfl⟩
  exact ⟨norm, compare_ok_iff.2 ⟨hdistance, (hnull.lt_iff hzero tolerance).2 hpos⟩⟩

/-- The gate is symmetric, monotone in the tolerance, and reflexive on finite matrices. -/
theorem symmetric_monotone_reflexive :
    (∀ (a b : Matrix Float) (tolerance : Float),
      Mirrored a.shape b.shape tolerance (compare a b tolerance) (compare b a tolerance)) ∧
    (∀ (a b : Matrix Float) (tolerance higher norm : Float), tolerance ≤ higher →
      compare a b tolerance = .ok norm → compare a b higher = .ok norm) ∧
    ∀ (a : Matrix Float) (tolerance : Float), (∀ x ∈ a.data, x.isFinite = true) → 0 < tolerance →
      ∃ norm, compare a a tolerance = .ok norm :=
  ⟨mirrored_compare, fun _ _ _ _ _ hle h => passed_of_le h hle, fun _ _ h hpos => passed_self h hpos⟩

/-- Shapes that differ, a tolerance raised to infinity, and the least positive tolerance for a matrix of
three columns and no rows. -/
theorem symmetric_monotone_reflexive_edges :
    Mirrored (2, 1) (1, 2) 1 (compare ⟨2, 1, [1, 2]⟩ ⟨1, 2, [1, 2]⟩ 1)
        (compare ⟨1, 2, [1, 2]⟩ ⟨2, 1, [1, 2]⟩ 1) ∧
      (5.5 : Float) ≤ 1.0 / 0.0 ∧ compare ⟨1, 2, [0, 0]⟩ ⟨1, 2, [3, -4]⟩ 5.5 = .ok 5 ∧
      compare ⟨1, 2, [0, 0]⟩ ⟨1, 2, [3, -4]⟩ (1.0 / 0.0) = .ok 5 ∧
      0 < Double.ofCode false 1 ∧
      ∃ norm, compare ⟨0, 3, []⟩ ⟨0, 3, []⟩ (Double.ofCode false 1) = .ok norm := by
  obtain ⟨hsymmetric, hmonotone, hreflexive⟩ := symmetric_monotone_reflexive
  have hle : (5.5 : Float) ≤ 1.0 / 0.0 := by decide +kernel
  have hpassed : compare ⟨1, 2, [0, 0]⟩ ⟨1, 2, [3, -4]⟩ 5.5 = .ok 5 := by decide +kernel
  have hpos : 0 < Double.ofCode false 1 := by decide +kernel
  exact ⟨hsymmetric ⟨2, 1, [1, 2]⟩ ⟨1, 2, [1, 2]⟩ 1, hle, hpassed, hmonotone _ _ _ _ _ hle hpassed,
    hpos, hreflexive ⟨0, 3, []⟩ _ (by simp) hpos⟩

end Compare

end NumericSteps
