import NumericSteps.Event.Basic
import NumericSteps.Failure

namespace NumericSteps

/-- What a step leaves behind besides the disk: its result, the events it reported, and what it wrote to
its output. -/
structure Outcome (α : Type) where
  result : Except Failure α
  events : List Event := []
  output : List Char := []

namespace Outcome

variable {α : Type}

def failed (e : Failure) (events : List Event) : Outcome α := ⟨.error e, events, []⟩

def passed (a : α) (events : List Event) : Outcome α := ⟨.ok a, events, []⟩

end Outcome

/-- The name of standard input and output in events. -/
def standardStream : String := "-"

end NumericSteps
