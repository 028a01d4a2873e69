import NumericSteps.Matrix.Svd
import NumericSteps.Step.Compare
import NumericSteps.Step.Descent
import NumericSteps.Workspace.Names

namespace NumericSteps

/-- What the steps can be told; all of it has defaults. -/
structure Settings where
  compareTolerance : Float := Compare.defaultTolerance
  gradThreshold : Float := Descent.defaultThreshold
  learningRate : Float := Descent.defaultRate
  svdMode : SvdMode := .full
  files : FileNames := {}
deriving DecidableEq

namespace Settings

def isUsable (x : Float) : Bool := x.isFinite && 0.0 < x

def checkNumber (field : String) (x : Float) : Except SettingFault Unit :=
  if isUsable x then .ok () else .error (.notPositive field x)

/-- Checks the numbers first, and then the names. -/
def check (s : Settings) : Except SettingFault Unit := do
  checkNumber "compare_tolerance" s.compareTolerance
  checkNumber "grad_threshold" s.gradThreshold
  checkNumber "learning_rate" s.learningRate
  s.files.check

def validate (s : Settings) : Except Failure Unit := s.check.mapError .unusable

/-- A working directory with these names of files. -/
def workspace (s : Settings) (root : Path) : Workspace := ⟨root, s.files⟩

/-- Compares as numbers do: the zeros are the same, and NaN differs from itself. -/
def sameValues (s t : Settings) : Bool :=
  s.compareTolerance == t.compareTolerance && s.gradThreshold == t.gradThreshold &&
    s.learningRate == t.learningRate && s.svdMode == t.svdMode && s.files == t.files

end Settings

end NumericSteps
