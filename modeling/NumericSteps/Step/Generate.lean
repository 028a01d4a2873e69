import NumericSteps.Matrix.Text
import NumericSteps.Random
import NumericSteps.Step.Output

namespace NumericSteps.Generate

/-- Draws the values of a square matrix in row-major order, or nothing if it is too large. -/
def generate {σ : Type} (next : σ → Float × σ) (n : Nat) (s : σ) :
    Except Failure (Matrix Float) × σ :=
  match Size.mul? n n with
  | none => (.error (.tooLarge n n), s)
  | some length =>
    if Size.fits length then
      let drawn := Random.draw next length s
      (Matrix.ofData n n drawn.1, drawn.2)
    else (.error (.tooLarge n n), s)

theorem ofData_of_generate {σ : Type} {next : σ → Float × σ} {n : Nat} {s : σ}
    {m : Matrix Float} (h : (generate next n s).1 = .ok m) :
    ∃ data, Matrix.ofData n n data = .ok m := by
  unfold generate at h
  split at h
  · cases h
  · split at h
    · exact ⟨_, h⟩
    · cases h

theorem wellFormed_generate {σ : Type} {next : σ → Float × σ} {n : Nat} {s : σ}
    {m : Matrix Float} (h : (generate next n s).1 = .ok m) : m.WellFormed := by
  obtain ⟨data, hdata⟩ := ofData_of_generate h
  exact Matrix.wellFormed_of_ofData hdata

def written (n : Nat) : Event := ⟨.generate, .matrixWritten standardStream n n⟩

def run {σ : Type} (next : σ → Float × σ) (n : Nat) (s : σ) : Outcome (Matrix Float) :=
  match (generate next n s).1 with
  | .error e => .failed e []
  | .ok m => ⟨.ok m, [written n], m.chars⟩

/-- The run with an output that may refuse the matrix. -/
def runTo {σ τ : Type} (next : σ → Float × σ) (n : Nat) (s : σ) (o : Output τ) (t : τ) :
    Outcome (Matrix Float) × τ :=
  match (generate next n s).1 with
  | .error e => (.failed e [], t)
  | .ok m => o.conclude t m [] (written n)

theorem run_eq {σ : Type} (next : σ → Float × σ) (n : Nat) (s : σ) :
    run next n s = Output.gather (runTo next n s .memory []) := by
  unfold run runTo
  cases (generate next n s).1 with
  | error e => rfl
  | ok m => exact (Output.gather_conclude m [] (written n)).symm

/-- The run whose numbers come from a seed. -/
def seeded (n : Nat) (seed : UInt64) : Outcome (Matrix Float) :=
  run Random.Stream.nextFloat n (Random.Stream.ofSeed seed)

end NumericSteps.Generate
