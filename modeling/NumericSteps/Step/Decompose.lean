import NumericSteps.Step.Factors
import NumericSteps.Step.Outcome
import NumericSteps.Workspace.Basic

namespace NumericSteps.Decompose

def read (a : Matrix Float) : Event :=
  ⟨.decompose, .matrixRead standardStream a.rows a.cols⟩

def decomposed (f : Svd) : Event :=
  ⟨.decompose, .decomposed f.rankBound f.largest f.smallest⟩

def written (w : Workspace) (entry : Slot × Matrix Float) : Event :=
  ⟨.decompose, .matrixWritten (w.names.name entry.1) entry.2.rows entry.2.cols⟩

/-- The factors by the files they go to. -/
def entries (f : Factors) : List (Slot × Matrix Float) :=
  [(.factorU, f.u), (.factorS, f.s), (.factorVt, f.vt)]

/-- The step for any way to decompose a matrix. -/
def runWith (svd : Matrix Float → SvdMode → Except Failure Svd) (input : Bytes) (w : Workspace)
    (mode : SvdMode) : Script (Outcome Factors) :=
  match Matrix.ofBytes input with
  | .error e => return .failed e []
  | .ok a =>
    match svd a mode with
    | .error e => return .failed e [read a]
    | .ok f => do
      let factors := Factors.ofSvd f
      match ← w.writeMatrices (entries factors) with
      | .error e => return .failed e [read a, decomposed f]
      | .ok () => return .passed factors (read a :: decomposed f :: (entries factors).map (written w))

def run (input : Bytes) (w : Workspace) (mode : SvdMode) : Script (Outcome Factors) :=
  runWith Svd.decompose input w mode

end NumericSteps.Decompose
