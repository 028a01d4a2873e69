import NumericSteps.Disk.Script
import NumericSteps.Matrix.Text
import NumericSteps.Workspace.Slot

namespace NumericSteps

/-- The text in a file. -/
def Script.readText (path : Path) : Script (Except Failure (List Char)) :=
  .read path fun
    | .error e => .done (.error (.file path.text e.fault))
    | .ok bytes =>
      match Text.decode bytes with
      | none => .done (.error (.file path.text .notText))
      | some cs => .done (.ok cs)

/-- A working directory with the names of the files in it. -/
structure Workspace where
  root : Path
  names : FileNames := {}
deriving DecidableEq

namespace Workspace

open Text

def path (w : Workspace) (s : Slot) : Path := w.root.join (.ofText (w.names.name s))

def stagingName (name : String) : String := "." ++ name ++ ".partial"

/-- Where a file is written before it takes over its name. -/
def stagingPath (w : Workspace) (s : Slot) : Path :=
  w.root.join (.ofText (stagingName (w.names.name s)))

def has (w : Workspace) (s : Slot) : Script Bool := .isFile (w.path s) .done

def fileFailure (p : Path) (f : OsFault) : Failure := .file p.text f

def readMatrix (w : Workspace) (s : Slot) : Script (Except Failure (Matrix Float)) :=
  .read (w.path s) fun
    | .error (.unopened f) => .done (.error (fileFailure (w.path s) f))
    | .error (.unreadable f) => .done (.error (.stream f))
    | .ok bytes => .done (Matrix.ofBytes bytes)

def readScalar (w : Workspace) (s : Slot) : Script (Except Failure Float) := do
  return (← Script.readText (w.path s)).bind Scalar.ofText

/-- Writes lines one by one to a file that has been opened, up to the first that fails. -/
def writeLines (p : Path) : List Bytes → Script (Except OsFault Unit)
  | [] => .done (.ok ())
  | line :: lines =>
    .change (.write p line) fun
      | .error f => .done (.error f)
      | .ok () => writeLines p lines

def matrixLines (m : Matrix Float) : List Bytes := m.rowLines.map encode

/-- Empties a file and writes lines to it. -/
def writeFile (p : Path) (lines : List Bytes) : Script (Except Failure Unit) :=
  .change (.create p) fun
    | .error f => .done (.error (fileFailure p f))
    | .ok () => return (← writeLines p lines).mapError .stream

def writeMatrix (w : Workspace) (s : Slot) (m : Matrix Float) : Script (Except Failure Unit) :=
  writeFile (w.path s) (matrixLines m)

def writeScalar (w : Workspace) (s : Slot) (x : Float) : Script (Except Failure Unit) :=
  writeFile (w.path s) [encode (Scalar.line x)]

def appendLines (w : Workspace) (s : Slot) (lines : List String) : Script (Except Failure Unit) :=
  .change (.openAppend (w.path s)) fun
    | .error f => .done (.error (fileFailure (w.path s) f))
    | .ok () => do
      let written ← writeLines (w.path s) (lines.map fun l => encode (l.toList ++ ['\n']))
      return written.mapError (fileFailure (w.path s))

/-- Removes files, whether or not that works. -/
def removeAll : List Path → Script Unit
  | [] => .done ()
  | p :: ps => .change (.remove p) fun _ => removeAll ps

/-- Takes back what has been staged, and the file whose staging failed if it is there. -/
def unstage (staged : List Path) (failed : Path) : Script Unit := do
  removeAll staged
  .isFile failed fun there => if there then removeAll [failed] else .done ()

/-- Writes the staging files in order; after a failure none of them is left. -/
def stage (w : Workspace) (staged : List Path) :
    List (Slot × Matrix Float) → Script (Except Failure Unit)
  | [] => .done (.ok ())
  | (s, m) :: entries => do
    match ← writeFile (w.stagingPath s) (matrixLines m) with
    | .ok () => stage w (staged ++ [w.stagingPath s]) entries
    | .error e =>
      unstage staged (w.stagingPath s)
      return .error e

/-- Moves the staging files onto their names, up to the first that fails. -/
def takeOver (w : Workspace) : List Slot → Script (Except Failure Unit)
  | [] => .done (.ok ())
  | s :: ss =>
    .change (.rename (w.stagingPath s) (w.path s)) fun
      | .error f => .done (.error (fileFailure (w.path s) f))
      | .ok () => takeOver w ss

/-- Writes several matrices as one unit. -/
def writeMatrices (w : Workspace) (entries : List (Slot × Matrix Float)) :
    Script (Except Failure Unit) := do
  match ← stage w [] entries with
  | .error e => return .error e
  | .ok () => takeOver w (entries.map Prod.fst)

end Workspace

end NumericSteps
