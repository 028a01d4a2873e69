import NumericSteps.Step.Factors
import NumericSteps.Step.Output
import NumericSteps.Workspace.Basic

namespace NumericSteps.Recompose

def read (w : Workspace) (s : Slot) (m : Matrix Float) : Event :=
  ⟨.recompose, .matrixRead (w.names.name s) m.rows m.cols⟩

def written (m : Matrix Float) : Event :=
  ⟨.recompose, .matrixWritten standardStream m.rows m.cols⟩

/-- Reads factor files in order, up to the first that fails. -/
def readFactors (w : Workspace) : List Slot → Script (List Event × Except Failure (List (Matrix Float)))
  | [] => return ([], .ok [])
  | s :: ss => do
    match ← w.readMatrix s with
    | .error e => return ([], .error e)
    | .ok m =>
      let (events, rest) ← readFactors w ss
      return (read w s m :: events, rest.map (m :: ·))

section Products

variable (times : Grid Float → Grid Float → Grid Float)

def runWith (w : Workspace) : Script (Outcome (Matrix Float)) := do
  let (events, factors) ← readFactors w [.factorU, .factorS, .factorVt]
  match factors.bind (Matrix.chainWith times) with
  | .error e => return .failed e events
  | .ok a => return ⟨.ok a, events ++ [written a], a.chars⟩

/-- The step with an output that may refuse the product. -/
def runToWith {σ : Type} (o : Output σ) (s : σ) (w : Workspace) : Script (Outcome (Matrix Float) × σ) := do
  let (events, factors) ← readFactors w [.factorU, .factorS, .factorVt]
  match factors.bind (Matrix.chainWith times) with
  | .error e => return (.failed e events, s)
  | .ok a => return o.conclude s a events (written a)

theorem runWith_eq (w : Workspace) : runWith times w = Output.gather <$> runToWith times .memory [] w := by
  refine Eq.trans ?_ (bind_pure_comp _ _)
  unfold runWith runToWith
  rw [bind_assoc]
  refine congrArg (readFactors w _ >>= ·) (funext fun ⟨events, factors⟩ => ?_)
  dsimp only
  cases factors.bind (Matrix.chainWith times) with
  | error e => rfl
  | ok a => exact congrArg Script.done (Output.gather_conclude a events (written a)).symm

end Products

def run : Workspace → Script (Outcome (Matrix Float)) := runWith Grid.times

end NumericSteps.Recompose
