import NumericSteps.Json.Decode
import NumericSteps.Json.Write
import NumericSteps.Matrix.Basic

namespace NumericSteps.Matrix

open NumericSteps.Json

def json (m : Matrix Float) : List Char :=
  writeObject [("rows", writeNat m.rows), ("cols", writeNat m.cols),
    ("data", writeArray (m.data.map writeNumber))]

/-- The shape and the values as they stand; they are not compared. -/
def ofJson (j : Json) : Option (Matrix Float) :=
  match record ["rows", "cols", "data"] j with
  | some [some r, some c, some d] => do
    return ⟨← toNat r, ← toNat c, ← toList toFloat d⟩
  | _ => none

def readJson (cs : List Char) : Option (Matrix Float) := (Json.read cs).bind ofJson

end NumericSteps.Matrix
