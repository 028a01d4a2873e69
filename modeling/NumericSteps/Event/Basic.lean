namespace NumericSteps

/-- The steps of the workflow. -/
inductive StepName
  | decompose
  | recompose
  | compare
  | update
  | generate
deriving DecidableEq, Repr

namespace StepName

def all : List StepName := [.decompose, .recompose, .compare, .update, .generate]

/-- The word for the step on the command line. -/
def command : StepName → String
  | .decompose => "svd"
  | .recompose => "mult"
  | .compare => "cmp"
  | .update => "subtract"
  | .generate => "gen"

/-- The word for the step in the event log. -/
def key : StepName → String
  | .decompose => "decompose"
  | .recompose => "recompose"
  | .compare => "compare"
  | .update => "update"
  | .generate => "generate"

def title : StepName → String
  | .decompose => "Decompose"
  | .recompose => "Recompose"
  | .compare => "Compare"
  | .update => "Update"
  | .generate => "Generate"

def ofKey? (k : String) : Option StepName := all.find? fun s => s.key == k

theorem ofKey?_key (s : StepName) : ofKey? s.key = some s := by
  cases s <;> decide

end StepName

/-- What happened. -/
inductive Occurrence
  /-- `-` is the source on standard input. -/
  | matrixRead (source : String) (rows : Nat) (cols : Nat)
  /-- `-` is the target on standard output. -/
  | matrixWritten (target : String) (rows : Nat) (cols : Nat)
  | decomposed (rankBound : Nat) (largest : Float) (smallest : Float)
  | compared (norm : Float) (tolerance : Float) (passed : Bool)
  /-- There is no next approximation once the descent has converged. -/
  | descent (old : Float) (grad : Float) (new : Option Float) (converged : Bool)
deriving DecidableEq

structure Event where
  step : StepName
  what : Occurrence
deriving DecidableEq

end NumericSteps
