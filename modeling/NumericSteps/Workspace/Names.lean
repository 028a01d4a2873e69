import NumericSteps.Failure
import NumericSteps.Text.Blank

namespace NumericSteps.FileNames

open Text

/-- What is wrong with a name by itself. -/
def nameFault (s : Slot) (n : String) : Option SettingFault :=
  if trim n.toList = [] then some (.blankName s)
  else if '/' ∈ n.toList ∨ '\\' ∈ n.toList then some (.separatorInName s n)
  else if n = "." ∨ n = ".." then some (.reservedName s n)
  else none

/-- Checks slots in order, `seen` being the names of those before. -/
def checkSlots (t : FileNames) (seen : List String) : List Slot → Except SettingFault Unit
  | [] => .ok ()
  | s :: ss =>
    match nameFault s (t.name s) with
    | some f => .error f
    | none =>
      if t.name s ∈ seen then .error (.sharedName (t.name s))
      else checkSlots t (t.name s :: seen) ss

def check (t : FileNames) : Except SettingFault Unit := checkSlots t [] Slot.all

def validate (t : FileNames) : Except Failure Unit := t.check.mapError .unusable

end NumericSteps.FileNames
