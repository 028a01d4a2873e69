import NumericSteps.Decimal.Notation
import NumericSteps.Decimal.Places
import NumericSteps.Disk.Fault
import NumericSteps.Workspace.Slot

namespace NumericSteps

/-- The operation on two matrices whose shapes do not fit. -/
inductive Pairing
  | multiply
  | subtract
deriving DecidableEq, Repr

/-- What makes a setting unusable. -/
inductive SettingFault
  | notPositive (field : String) (value : Float)
  | blankName (slot : Slot)
  | separatorInName (slot : Slot) (name : String)
  | reservedName (slot : Slot) (name : String)
  | sharedName (name : String)
  | stated (text : String)
deriving DecidableEq

namespace SettingFault

def message : SettingFault → String
  | .notPositive field value =>
    field ++ " must be positive and finite, got " ++ Notation.plain.text value
  | .blankName slot => "File name for " ++ slot.title ++ " is empty"
  | .separatorInName slot name =>
    "File name for " ++ slot.title ++ " must not contain a path separator: '" ++ name ++ "'"
  | .reservedName slot name => "File name for " ++ slot.title ++ " must not be '" ++ name ++ "'"
  | .sharedName name => "File name '" ++ name ++ "' is used by more than one slot"
  | .stated text => text

end SettingFault

/-- Everything that can go wrong in the workflow, by its cause. -/
inductive Failure
  /-- A stream without a path could not be read or written. -/
  | stream (fault : OsFault)
  | file (path : String) (fault : OsFault)
  /-- A word on a line, counted from 1, is not a number. -/
  | notANumber (line : Nat) (token : String)
  | raggedRow (line : Nat) (expected : Nat) (found : Nat)
  /-- A scalar was expected where there is none. -/
  | noScalar
  | shapeMismatch (pairing : Pairing) (left : Nat × Nat) (right : Nat × Nat)
  | bufferLength (rows : Nat) (cols : Nat) (length : Nat)
  | emptyChain
  | tooLarge (rows : Nat) (cols : Nat)
  | noDecomposition (reason : String)
  | toleranceExceeded (norm : Float) (tolerance : Float)
  | unusable (fault : SettingFault)
  /-- A text that should hold settings does not read as such. -/
  | malformed (reason : String)
deriving DecidableEq

namespace Failure

def shapeText (s : Nat × Nat) : String := toString s.1 ++ "x" ++ toString s.2

def message : Failure → String
  | .stream fault => "I/O error: " ++ fault.message
  | .file path fault => path ++ ": " ++ fault.message
  | .notANumber line token =>
    "Line " ++ toString line ++ ": cannot parse '" ++ token ++ "' as a number"
  | .raggedRow line expected found =>
    "Line " ++ toString line ++ ": expected " ++ toString expected ++ " values, found " ++
      toString found
  | .noScalar => "Expected a single number, found empty input"
  | .shapeMismatch pairing left right =>
    "Shape mismatch in " ++ (match pairing with | .multiply => "multiply" | .subtract => "subtract")
      ++ ": " ++ shapeText left ++ " vs " ++ shapeText right
  | .bufferLength rows cols length =>
    "Buffer of " ++ toString length ++ " values cannot fill a " ++ shapeText (rows, cols) ++
      " matrix"
  | .emptyChain => "Cannot multiply an empty chain of matrices"
  | .tooLarge rows cols => "Matrix of " ++ shapeText (rows, cols) ++ " is too large to allocate"
  | .noDecomposition reason => "Decomposition failed: " ++ reason
  | .toleranceExceeded norm tolerance =>
    "Matrices differ: Frobenius norm " ++ Places.scientificText 3 norm ++ " is not below " ++
      Places.scientificText 3 tolerance
  | .unusable fault => "Invalid configuration: " ++ fault.message
  | .malformed reason => "Serialization error: " ++ reason

end Failure

section Results

variable {ε α β : Type} {x : Except ε α} {b : β}

/-- A computation goes on only with a result. -/
theorem bind_ok_iff {f : α → Except ε β} : (x >>= f) = .ok b ↔ ∃ a, x = .ok a ∧ f a = .ok b := by
  cases x with
  | error e => exact iff_of_false (fun h => nomatch h) fun ⟨_, h, _⟩ => nomatch h
  | ok a =>
    constructor
    · intro h
      exact ⟨a, rfl, h⟩
    · rintro ⟨_, ha, h⟩
      cases ha
      exact h

theorem map_ok_iff {f : α → β} : x.map f = .ok b ↔ ∃ a, x = .ok a ∧ f a = b := by
  cases x with
  | error e => exact iff_of_false (fun h => nomatch h) fun ⟨_, h, _⟩ => nomatch h
  | ok a =>
    constructor
    · intro h
      exact ⟨a, rfl, Except.ok.inj h⟩
    · rintro ⟨_, ha, rfl⟩
      cases ha
      rfl

end Results

section Checks

variable {ε δ : Type} {x y : Except ε Unit}

/-- A check passes however its refusals are worded. -/
theorem mapError_ok_iff {f : ε → δ} : x.mapError f = .ok () ↔ x = .ok () := by
  cases x with
  | error e => exact iff_of_false (fun h => nomatch h) fun h => nomatch h
  | ok u => exact iff_of_true rfl rfl

theorem mapError_error_iff {f : ε → δ} {e : δ} :
    x.mapError f = .error e ↔ ∃ a, x = .error a ∧ f a = e := by
  cases x with
  | error a =>
    constructor
    · intro h
      exact ⟨a, rfl, Except.error.inj h⟩
    · rintro ⟨b, hb, rfl⟩
      cases hb
      rfl
  | ok u => exact iff_of_false (fun h => nomatch h) fun ⟨_, h, _⟩ => nomatch h

/-- Two checks in a row pass if both do. -/
theorem then_ok_iff : (x >>= fun _ => y) = .ok () ↔ x = .ok () ∧ y = .ok () := by
  cases x with
  | error e => exact iff_of_false (fun h => nomatch h) fun h => nomatch h.1
  | ok u => exact (and_iff_right rfl).symm

/-- Of two checks in a row the first that refuses decides. -/
theorem then_error_iff {e : ε} :
    (x >>= fun _ => y) = .error e ↔ x = .error e ∨ x = .ok () ∧ y = .error e := by
  cases x with
  | error a => exact (or_iff_left fun h => nomatch h.1).symm
  | ok u =>
    constructor
    · intro h
      exact Or.inr ⟨rfl, h⟩
    · rintro (h | h)
      · cases h
      · exact h.2

end Checks

end NumericSteps
