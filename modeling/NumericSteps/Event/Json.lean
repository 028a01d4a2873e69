import NumericSteps.Event.Basic
import NumericSteps.Json.Decode
import NumericSteps.Json.Write

namespace NumericSteps

open Json

namespace Occurrence

def fields : Occurrence → String × List (String × List Char)
  | .matrixRead source rows cols =>
    ("MatrixRead", [("source", writeText source), ("rows", writeNat rows),
      ("cols", writeNat cols)])
  | .matrixWritten target rows cols =>
    ("MatrixWritten", [("target", writeText target), ("rows", writeNat rows),
      ("cols", writeNat cols)])
  | .decomposed rankBound largest smallest =>
    ("Decomposed", [("rank_bound", writeNat rankBound), ("largest", writeNumber largest),
      ("smallest", writeNumber smallest)])
  | .compared norm tolerance passed =>
    ("Compared", [("norm", writeNumber norm), ("tolerance", writeNumber tolerance),
      ("passed", writeBool passed)])
  | .descent old grad new converged =>
    ("Descent", [("old", writeNumber old), ("grad", writeNumber grad),
      ("new", (new.map writeNumber).getD ['n', 'u', 'l', 'l']),
      ("converged", writeBool converged)])

def json (w : Occurrence) : List Char := writeObject [(w.fields.1, writeObject w.fields.2)]

def matrixReadOf (j : Json) : Option Occurrence :=
  match record ["source", "rows", "cols"] j with
  | some [some s, some r, some c] => do
    return .matrixRead (← toText s) (← toNat r) (← toNat c)
  | _ => none

def matrixWrittenOf (j : Json) : Option Occurrence :=
  match record ["target", "rows", "cols"] j with
  | some [some t, some r, some c] => do
    return .matrixWritten (← toText t) (← toNat r) (← toNat c)
  | _ => none

def decomposedOf (j : Json) : Option Occurrence :=
  match record ["rank_bound", "largest", "smallest"] j with
  | some [some k, some l, some s] => do
    return .decomposed (← toNat k) (← toFloat l) (← toFloat s)
  | _ => none

def comparedOf (j : Json) : Option Occurrence :=
  match record ["norm", "tolerance", "passed"] j with
  | some [some n, some t, some p] => do
    return .compared (← toFloat n) (← toFloat t) (← toBool p)
  | _ => none

/-- The next approximation may be absent. -/
def descentOf (j : Json) : Option Occurrence :=
  match record ["old", "grad", "new", "converged"] j with
  | some [some o, some g, n, some c] => do
    return .descent (← toFloat o) (← toFloat g) (← toOption toFloat (n.getD .null)) (← toBool c)
  | _ => none

def ofJson (j : Json) : Option Occurrence :=
  match choice j with
  | some (title, some content) =>
    if title = "MatrixRead".toList then matrixReadOf content
    else if title = "MatrixWritten".toList then matrixWrittenOf content
    else if title = "Decomposed".toList then decomposedOf content
    else if title = "Compared".toList then comparedOf content
    else if title = "Descent".toList then descentOf content
    else none
  | _ => none

end Occurrence

namespace Event

def json (e : Event) : List Char :=
  writeObject [("step", writeText e.step.key), ("kind", e.what.json)]

def jsonText (e : Event) : String := String.ofList e.json

def ofJson (j : Json) : Option Event :=
  match record ["step", "kind"] j with
  | some [some s, some k] => do
    return ⟨← StepName.ofKey? (← word s), ← Occurrence.ofJson k⟩
  | _ => none

/-- The event that a text of JSON holds. -/
def read (cs : List Char) : Option Event := (Json.read cs).bind ofJson

end Event

end NumericSteps
