import NumericSteps.Step.Outcome
import NumericSteps.Workspace.Basic

namespace NumericSteps

inductive Descent
  | moved (old : Float) (new : Float)
  | converged (value : Float)
deriving DecidableEq

namespace Descent

/-- The magnitude of the gradient above which a descent goes on, unless set otherwise. -/
def defaultThreshold : Float := 1.0e-3

def defaultRate : Float := 0.1

/-- Above the threshold the gradient moves the approximation, otherwise the approximation is the solution. -/
def decide (old grad threshold rate : Float) : Descent :=
  if threshold < grad.abs then .moved old (old - rate * grad) else .converged old

def isConverged : Descent → Bool
  | .moved _ _ => false
  | .converged _ => true

/-- The next approximation, if there is one. -/
def new? : Descent → Option Float
  | .moved _ new => some new
  | .converged _ => none

/-- The lines that the log of approximations gains. -/
def logLines : Descent → List String
  | .moved old new => ["old: " ++ Scalar.text old, "new: " ++ Scalar.text new]
  | .converged value => ["old: " ++ Scalar.text value]

/-- The file that tells the outcome. -/
def slot : Descent → Slot
  | .moved _ _ => .approxNew
  | .converged _ => .solution

/-- The number written to that file. -/
def value : Descent → Float
  | .moved _ new => new
  | .converged value => value

def event (old grad : Float) (step : Descent) : Event :=
  ⟨.update, .descent old grad step.new? step.isConverged⟩

/-- Writes the outcome, then the log. -/
def record (w : Workspace) (step : Descent) : Script (Except Failure Unit) := do
  match ← w.writeScalar step.slot step.value with
  | .error e => return .error e
  | .ok () => w.appendLines .approxLog step.logLines

/-- Both inputs are read before anything is written. -/
def run (w : Workspace) (threshold rate : Float) : Script (Outcome Descent) := do
  match ← w.readScalar .approxOld with
  | .error e => return .failed e []
  | .ok old =>
    match ← w.readScalar .grad with
    | .error e => return .failed e []
    | .ok grad =>
      let step := decide old grad threshold rate
      match ← record w step with
      | .error e => return .failed e []
      | .ok () => return .passed step [event old grad step]

end Descent

end NumericSteps
