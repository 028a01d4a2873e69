import NumericSteps.Settings.Basic
import NumericSteps.Toml.Read
import NumericSteps.Toml.Write
import NumericSteps.Workspace.Basic

namespace NumericSteps

open Toml

namespace Settings

/-- An integer stands for the nearest double. -/
def toNumber : Value → Option Float
  | .float x => some x
  | .integer n => some (Numeral.Reading.decimal (decide (n < 0)) ⟨n.natAbs, 0⟩).float
  | _ => none

def toName : Value → Option String
  | .text cs => some (String.ofList cs)
  | _ => none

/-- Tables and arrays that hold nothing. -/
def isVoid : Value → Bool
  | .table _ [] => true
  | .array [] => true
  | _ => false

/-- A mode is a word, or the only key of a table, under which there is nothing. -/
def toMode : Value → Option SvdMode
  | .text cs => SvdMode.ofKey? (String.ofList cs)
  | .table _ [(k, v)] => if isVoid v then SvdMode.ofKey? (String.ofList k) else none
  | _ => none

/-- The value under a key, or a default where there is none. -/
def field (t : Table) (key : String) (read : Value → Option α) (default : α) : Option α :=
  match t.get? key.toList with
  | none => some default
  | some v => read v

def namesOfTable (t : Table) : Option FileNames :=
  Slot.all.foldlM (fun names s => (field t s.key toName (names.name s)).map (names.rename s)) {}

/-- Names in the order of the slots; those that are missing have their defaults, and what follows
the last slot has no effect. -/
def namesOfList (vs : List Value) : Option FileNames :=
  (Slot.all.zip vs).foldlM (fun names (s, v) => (toName v).map (names.rename s)) {}

/-- A date is a table without any of the names. -/
def toNames : Value → Option FileNames
  | .table _ t => namesOfTable t
  | .array vs => namesOfList vs
  | .moment => some {}
  | _ => none

/-- The defaults, overlaid with what a table holds. -/
def ofTable (t : Table) : Option Settings := do
  return {
    compareTolerance := ← field t "compare_tolerance" toNumber Compare.defaultTolerance
    gradThreshold := ← field t "grad_threshold" toNumber Descent.defaultThreshold
    learningRate := ← field t "learning_rate" toNumber Descent.defaultRate
    svdMode := ← field t "svd_mode" toMode .full
    files := ← field t "files" toNames {} }

/-- Why a document gives no settings, if the reason is not in the values. -/
def notSettings : Failure := .malformed "not a table of settings"

/-- What a document does not mention keeps its default, and what it mentions besides has no effect. -/
def ofToml (cs : List Char) : Except Failure Settings :=
  match (Toml.read cs).bind ofTable with
  | none => .error notSettings
  | some s => s.validate.map fun () => s

/-- The settings in a file. -/
def load (path : Path) : Script (Except Failure Settings) := do
  return (← Script.readText path).bind ofToml

/-- All settings as a document. -/
def toToml (s : Settings) : List Char :=
  entryLine "compare_tolerance" (writeFloat s.compareTolerance) ++
    entryLine "grad_threshold" (writeFloat s.gradThreshold) ++
    entryLine "learning_rate" (writeFloat s.learningRate) ++
    entryLine "svd_mode" (writeText s.svdMode.key.toList) ++
    "\n[files]\n".toList ++
    Slot.all.flatMap fun slot => entryLine slot.key (writeText (s.files.name slot).toList)

end Settings

end NumericSteps
