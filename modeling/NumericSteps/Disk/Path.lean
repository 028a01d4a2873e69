import NumericSteps.Text.Cut

namespace NumericSteps

/-- The pieces between the slashes. An empty first piece makes a path absolute; empty and `.` pieces lead
nowhere. -/
structure Path where
  pieces : List String
deriving DecidableEq, Repr

namespace Path

open Text

def ofText (s : String) : Path := ⟨(cut '/' s.toList).map String.ofList⟩

def text (p : Path) : String := "/".intercalate p.pieces

def isAbsolute (p : Path) : Bool :=
  match p.pieces with
  | "" :: _ :: _ => true
  | _ => false

/-- A path ends with a slash, or is empty. -/
def isOpen (pieces : List String) : Bool := pieces.getLast? == some ""

/-- The path `n` as seen from `r`; an absolute one stays as it is. -/
def join (r n : Path) : Path :=
  if n.isAbsolute then n
  else ⟨(if isOpen r.pieces then r.pieces.dropLast else r.pieces) ++ n.pieces⟩

/-- A slash ends the path. -/
def endsWithSlash (p : Path) : Bool := isOpen p.pieces && 1 < p.pieces.length

def isEmpty (p : Path) : Bool := p.pieces.all (· == "") && p.pieces.length ≤ 1

/-- The names and dots to follow. -/
def route (p : Path) : List String := p.pieces.filter (· ≠ "")

def hasNul (p : Path) : Bool := p.pieces.any fun s => s.toList.contains '\x00'

/-- What follows the last dot of the last name, unless the dot starts the name. -/
def extension (p : Path) : Option String :=
  match (p.route.filter (· ≠ ".")).getLast? with
  | none => none
  | some name =>
    if name = ".." then none
    else
      match (cut '.' name.toList).reverse with
      | last :: stem =>
        if stem = [] ∨ stem = [[]] then none else some (String.ofList last)
      | [] => none

theorem ofText_of_plain (s : String) (h : '/' ∉ s.toList) : ofText s = ⟨[s]⟩ := by
  simp [ofText, cut_of_not_mem '/' s.toList h]

end Path

end NumericSteps
