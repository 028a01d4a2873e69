import NumericSteps.Proofs.Descent.Call
import NumericSteps.Proofs.Workspace.Instants
import NumericSteps.Step.Compare
import NumericSteps.Step.Decompose
import NumericSteps.Step.Recompose

namespace NumericSteps

open Script

/-- The path is that of a file of the workspace, or of one where it is prepared. -/
def Workspace.Contains (w : Workspace) (path : Path) : Prop :=
  ∃ s, path = w.path s ∨ path = w.stagingPath s

namespace Workspace

variable {w : Workspace} {path : Path} {P : Path → Prop} {s : Slot}

theorem contains_path (w : Workspace) (s : Slot) : w.Contains (w.path s) := ⟨s, Or.inl rfl⟩

theorem contains_stagingPath (w : Workspace) (s : Slot) : w.Contains (w.stagingPath s) :=
  ⟨s, Or.inr rfl⟩

theorem uses_readText (hp : P path) : (readText path).Uses P := by
  refine ⟨hp, fun r => ?_⟩
  cases r with
  | error f => trivial
  | ok bytes =>
    dsimp only
    cases Text.decode bytes <;> trivial

theorem uses_readMatrix (w : Workspace) (s : Slot) : (w.readMatrix s).Uses w.Contains := by
  refine ⟨w.contains_path s, fun r => ?_⟩
  cases r with
  | error f => cases f <;> trivial
  | ok bytes => trivial

theorem uses_readScalar (w : Workspace) (s : Slot) : (w.readScalar s).Uses w.Contains :=
  (uses_readText (w.contains_path s)).bind fun _ => trivial

end Workspace

open Workspace

theorem Decompose.uses_runWith (svd : Matrix Float → SvdMode → Except Failure Svd) (input : Bytes)
    (w : Workspace) (mode : SvdMode) : (Decompose.runWith svd input w mode).Uses w.Contains := by
  unfold Decompose.runWith
  cases Matrix.ofBytes input with
  | error g => trivial
  | ok a =>
    dsimp only
    cases svd a mode with
    | error g => trivial
    | ok f =>
      have hfiles := fun x : Slot × Matrix Float => And.intro (w.contains_path x.1) (w.contains_stagingPath x.1)
      refine (uses_writeMatrices fun x _ => hfiles x).bind fun res => ?_
      cases res with
      | error g => trivial
      | ok u => trivial

theorem Recompose.uses_readFactors (w : Workspace) (ss : List Slot) :
    (Recompose.readFactors w ss).Uses w.Contains := by
  induction ss with
  | nil => trivial
  | cons s ss ih =>
    refine (uses_readMatrix w s).bind fun res => ?_
    cases res with
    | error g => trivial
    | ok m => exact ih.bind fun _ => trivial

theorem Recompose.uses_run (w : Workspace) : (Recompose.run w).Uses w.Contains := by
  refine (Recompose.uses_readFactors w _).bind fun read => ?_
  obtain ⟨events, factors⟩ := read
  dsimp only
  cases factors.bind (Matrix.chainWith Grid.times) with
  | error g => trivial
  | ok a => trivial

theorem Compare.uses_run (w : Workspace) (tolerance : Float) :
    (Compare.run w tolerance).Uses w.Contains := by
  refine (uses_readMatrix w .matrixIn).bind fun first => ?_
  cases first with
  | error g => trivial
  | ok computed =>
    refine (uses_readMatrix w .matrixOut).bind fun second => ?_
    cases second with
    | error g => trivial
    | ok expected => trivial

theorem Descent.uses_run (w : Workspace) (threshold rate : Float) :
    (Descent.run w threshold rate).Uses w.Contains := by
  refine (uses_readScalar w .approxOld).bind fun first => ?_
  cases first with
  | error g => trivial
  | ok old =>
    refine (uses_readScalar w .grad).bind fun second => ?_
    cases second with
    | error g => trivial
    | ok grad =>
      have hrecord (step : Descent) : (Descent.record w step).Uses w.Contains :=
        uses_record (w.contains_path step.slot) (w.contains_path .approxLog)
      refine (hrecord _).bind fun written => ?_
      cases written with
      | error g => trivial
      | ok u => trivial

end NumericSteps
