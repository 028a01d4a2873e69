import NumericSteps.Json.Number
import NumericSteps.Json.Read

namespace NumericSteps.Json

def toText : Json → Option String
  | .text (some cs) => some (String.ofList cs)
  | _ => none

def toBool : Json → Option Bool
  | .bool b => some b
  | _ => none

def toFloat : Json → Option Float
  | .number spelling => (ofSpelling spelling).map Number.toFloat
  | _ => none

/-- A natural number of 64 bits, spelled without a point and an exponent. -/
def toNat : Json → Option Nat
  | .number spelling =>
    match ofSpelling spelling with
    | some (.natural n) => some n
    | _ => none
  | _ => none

def toList (item : Json → Option α) : Json → Option (List α)
  | .array js => js.mapM item
  | _ => none

/-- `null` stands for nothing. -/
def toOption (item : Json → Option α) : Json → Option (Option α)
  | .null => some none
  | j => (item j).map some

def named (name : String) (m : Option (List Char) × Json) : Bool := m.1 == some name.toList

/-- The values of the named fields, `none` for an absent one. -/
def record (names : List String) : Json → Option (List (Option Json))
  | .object ms =>
    if ms.all (fun m => m.1.isSome) ∧ names.all (fun n => (ms.filter (named n)).length ≤ 1) then
      some (names.map fun n => (ms.find? (named n)).map Prod.snd)
    else none
  | .array js => if js.length = names.length then some (js.map some) else none
  | _ => none

/-- A choice among named cases: a text, or an object with the name and a value. -/
def choice : Json → Option (List Char × Option Json)
  | .text (some cs) => some (cs, none)
  | .object [(some cs, j)] => some (cs, some j)
  | _ => none

/-- A named case without a value; `null` may stand in its place. -/
def word (j : Json) : Option String :=
  match choice j with
  | some (cs, none) => some (String.ofList cs)
  | some (cs, some .null) => some (String.ofList cs)
  | _ => none

end NumericSteps.Json
