import NumericSteps.Event.Basic
import NumericSteps.Scalar
import NumericSteps.Text.Quoted

namespace NumericSteps

open Text

/-- A field of an event as the log shows it. -/
inductive Shown
  | text (s : String)
  | nat (n : Nat)
  | float (x : Float)
  | bool (b : Bool)
  | maybe (x : Option Float)
  | plain (s : String)

namespace Shown

def chars : Shown → List Char
  | .text s => quoted s
  | .nat n => Nat.toDigits 10 n
  | .float x => Scalar.chars x
  | .bool b => (if b then "true" else "false").toList
  | .maybe none => "None".toList
  | .maybe (some x) => "Some(".toList ++ Scalar.chars x ++ [')']
  | .plain s => s.toList

/-- A title and named fields between braces. -/
def braced (title : String) (fields : List (String × Shown)) : List Char :=
  let shown := fields.map fun (name, value) => name.toList ++ ':' :: ' ' :: value.chars
  title.toList ++ ' ' :: '\x7b' :: ' ' :: ([',', ' '].intercalate shown ++ [' ', '\x7d'])

end Shown

def Occurrence.chars : Occurrence → List Char
  | .matrixRead source rows cols =>
    Shown.braced "MatrixRead" [("source", .text source), ("rows", .nat rows), ("cols", .nat cols)]
  | .matrixWritten target rows cols =>
    Shown.braced "MatrixWritten"
      [("target", .text target), ("rows", .nat rows), ("cols", .nat cols)]
  | .decomposed rankBound largest smallest =>
    Shown.braced "Decomposed"
      [("rank_bound", .nat rankBound), ("largest", .float largest), ("smallest", .float smallest)]
  | .compared norm tolerance passed =>
    Shown.braced "Compared"
      [("norm", .float norm), ("tolerance", .float tolerance), ("passed", .bool passed)]
  | .descent old grad new converged =>
    Shown.braced "Descent"
      [("old", .float old), ("grad", .float grad), ("new", .maybe new),
        ("converged", .bool converged)]

def Occurrence.text (w : Occurrence) : String := String.ofList w.chars

def Event.text (e : Event) : String :=
  String.ofList (Shown.braced "StepEvent"
    [("step", .plain e.step.title), ("kind", .plain e.what.text)])

end NumericSteps
