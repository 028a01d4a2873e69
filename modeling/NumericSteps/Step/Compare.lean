import NumericSteps.Matrix.Norm
import NumericSteps.Step.Outcome
import NumericSteps.Workspace.Basic

namespace NumericSteps.Compare

def defaultTolerance : Float := 1.0e-5

/-- The Frobenius norm of the difference, where it is below the tolerance. NaN is not. -/
def compare (computed expected : Matrix Float) (tolerance : Float) : Except Failure Float :=
  match computed.distance expected with
  | .error e => .error e
  | .ok norm => if norm < tolerance then .ok norm else .error (.toleranceExceeded norm tolerance)

def compared (norm tolerance : Float) (passed : Bool) : Event :=
  ⟨.compare, .compared norm tolerance passed⟩

/-- A norm is reported whether or not it passes. -/
def verdict (result : Except Failure Float) (tolerance : Float) : List Event :=
  match result with
  | .ok norm => [compared norm tolerance true]
  | .error (.toleranceExceeded norm _) => [compared norm tolerance false]
  | .error _ => []

def run (w : Workspace) (tolerance : Float) : Script (Outcome Float) := do
  match ← w.readMatrix .matrixIn with
  | .error e => return .failed e []
  | .ok computed =>
    match ← w.readMatrix .matrixOut with
    | .error e => return .failed e []
    | .ok expected =>
      let result := compare computed expected tolerance
      return ⟨result, verdict result tolerance, []⟩

section Results

variable {a b : Matrix Float} {norm tolerance : Float}

theorem compare_of_distance (h : a.distance b = .ok norm) :
    compare a b tolerance =
      if norm < tolerance then .ok norm else .error (.toleranceExceeded norm tolerance) := by
  rw [compare, h]

theorem compare_mismatch (h : a.shape ≠ b.shape) :
    compare a b tolerance = .error (.shapeMismatch .subtract a.shape b.shape) := by
  rw [compare, Matrix.distance_of_shape_ne h]

theorem compare_ok_iff :
    compare a b tolerance = .ok norm ↔ a.distance b = .ok norm ∧ norm < tolerance := by
  cases hd : a.distance b with
  | error g => simp [compare, hd]
  | ok distance =>
    rw [compare_of_distance hd]
    by_cases hlt : distance < tolerance
    · rw [if_pos hlt]
      constructor
      · intro h
        cases h
        exact ⟨rfl, hlt⟩
      · exact fun h => h.1
    · rw [if_neg hlt]
      constructor
      · intro h
        cases h
      · rintro ⟨h, hpass⟩
        cases h
        exact absurd hpass hlt

theorem verdict_of_distance (h : a.distance b = .ok norm) :
    verdict (compare a b tolerance) tolerance = [compared norm tolerance (norm < tolerance)] := by
  rw [compare_of_distance h]
  split
  · rw [verdict, decide_eq_true ‹_›]
  · rw [verdict, decide_eq_false ‹_›]

theorem verdict_mismatch (h : a.shape ≠ b.shape) : verdict (compare a b tolerance) tolerance = [] := by
  rw [compare_mismatch h]
  rfl

end Results

end NumericSteps.Compare
