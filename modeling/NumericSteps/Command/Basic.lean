namespace NumericSteps

/-- The commands by name. -/
inductive CommandName
  | svd
  | mult
  | cmp
  | subtract
  | gen
  | validate
deriving DecidableEq, Repr

namespace CommandName

def all : List CommandName := [.svd, .mult, .cmp, .subtract, .gen, .validate]

def text : CommandName → String
  | .svd => "svd"
  | .mult => "mult"
  | .cmp => "cmp"
  | .subtract => "subtract"
  | .gen => "gen"
  | .validate => "validate"

def ofText? (s : String) : Option CommandName := all.find? fun c => c.text == s

theorem ofText?_text (c : CommandName) : ofText? c.text = some c := by
  cases c <;> decide

end CommandName

/-- A command with what it needs. -/
inductive Command
  | svd (thin : Bool)
  | mult
  | cmp
  | subtract
  | gen (size : Nat) (seed : Option UInt64)
  | validate (path : String)
deriving DecidableEq

/-- What can be said with any command. -/
structure Options where
  workdir : String := "."
  config : Option String := none
  events : Option String := none
  verbose : Bool := false
deriving DecidableEq

/-- Why a command line asks for no command. -/
inductive NoCommand
  /-- It asks for help, on one command or on all. -/
  | help (command : Option CommandName)
  | version
  /-- It cannot be understood. -/
  | misuse
deriving DecidableEq

end NumericSteps
