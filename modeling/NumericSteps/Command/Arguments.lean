import NumericSteps.Command.Basic
import NumericSteps.Decimal.Numeral

namespace NumericSteps

/-- What an argument can give. -/
inductive Parameter
  | workdir
  | config
  | events
  | verbose
  | help
  | version
  | thin
  | seed
  | size
  | path
deriving DecidableEq, Repr

namespace Parameter

/-- The parameters that every command has. -/
def ofLong? : String → Option Parameter
  | "workdir" => some .workdir
  | "config" => some .config
  | "events" => some .events
  | "verbose" => some .verbose
  | "help" => some .help
  | _ => none

def ofShort? : Char → Option Parameter
  | 'C' => some .workdir
  | 'c' => some .config
  | 'v' => some .verbose
  | 'h' => some .help
  | _ => none

/-- A word after two dashes, on the left side or on that of a command. -/
def long? (side : Option CommandName) (word : String) : Option Parameter :=
  match side, word with
  | none, "version" => some .version
  | some .svd, "thin" => some .thin
  | some .gen, "seed" => some .seed
  | _, word => ofLong? word

/-- A letter after one dash. -/
def short? (side : Option CommandName) (letter : Char) : Option Parameter :=
  match side, letter with
  | none, 'V' => some .version
  | some .gen, 's' => some .seed
  | _, letter => ofShort? letter

/-- The parameter that an argument without a dash gives. -/
def plain? : Option CommandName → Option Parameter
  | some .gen => some .size
  | some .validate => some .path
  | _ => none

def takesValue : Parameter → Bool
  | .workdir => true
  | .config => true
  | .events => true
  | .seed => true
  | .size => true
  | .path => true
  | _ => false

/-- A number of 64 bits, in decimal digits after a plus or none. -/
def number? (s : String) : Option Nat :=
  let ds := match s.toList with
    | '+' :: cs => cs
    | cs => cs
  if ds ≠ [] ∧ ds.all Char.isDigit ∧ Numeral.natural ds < UInt64.size then
    some (Numeral.natural ds)
  else none

def accepts (p : Parameter) (value : String) : Bool :=
  match p with
  | .seed => (number? value).isSome
  | .size => (number? value).isSome
  | .workdir => value ≠ ""
  | .config => value ≠ ""
  | .events => value ≠ ""
  | .path => value ≠ ""
  | _ => true

end Parameter

/-- The arguments of one side so far. -/
structure Reading where
  side : Option CommandName
  given : List (Parameter × String) := []
  /-- The parameter given last, if its value is still missing or has not been looked at. -/
  pending : Option (Parameter × Option String) := none
  /-- After two dashes alone no argument is an option. -/
  plainOnly : Bool := false

namespace Reading

def get? (r : Reading) (p : Parameter) : Option String := r.given.lookup p

/-- No option is given twice on one side of the command. -/
def set (r : Reading) (p : Parameter) (value : String) : Except NoCommand Reading :=
  if (r.get? p).isSome ∨ p.accepts value = false then .error .misuse
  else .ok { r with given := (p, value) :: r.given }

/-- Looks at the pending parameter. -/
def settle (r : Reading) : Except NoCommand Reading :=
  match r.pending with
  | none => .ok r
  | some (_, none) => .error .misuse
  | some (p, some value) => { r with pending := none }.set p value

def awaits (r : Reading) : Bool :=
  match r.pending with
  | some (_, none) => true
  | _ => false

def flag (r : Reading) (p : Parameter) : Except NoCommand Reading := do
  let r ← r.settle
  match p with
  | .help => .error (.help r.side)
  | .version => .error .version
  | p => r.set p ""

/-- An option whose value is attached to it, or comes with the next argument. -/
def option (r : Reading) (p : Parameter) (attached : Option String) : Except NoCommand Reading := do
  let r ← r.settle
  match attached with
  | some value => r.set p value
  | none => return { r with pending := some (p, none) }

/-- An argument after two dashes. -/
def long (r : Reading) (cs : List Char) : Except NoCommand Reading :=
  let word := cs.takeWhile (· ≠ '=')
  let value := match cs.dropWhile (· ≠ '=') with
    | [] => none
    | _ :: value => some (String.ofList value)
  match Parameter.long? r.side (String.ofList word) with
  | none => .error .misuse
  | some p =>
    if p.takesValue then r.option p value
    else if value.isSome then .error .misuse
    else r.flag p

/-- Letters after one dash. What follows the letter of an option with a value is the value. -/
def shorts : Reading → List Char → Except NoCommand Reading
  | r, [] => .ok r
  | r, c :: cs =>
    match Parameter.short? r.side c with
    | none => .error .misuse
    | some p =>
      if p.takesValue then
        r.option p (match cs with
          | [] => none
          | '=' :: value => some (String.ofList value)
          | value => some (String.ofList value))
      else
        match r.flag p with
        | .error e => .error e
        | .ok r => shorts r cs

/-- An argument that is no option. -/
def plain (r : Reading) (value : String) : Except NoCommand Reading := do
  match Parameter.plain? r.side with
  | none => .error .misuse
  | some p =>
    let r ← r.settle
    if (r.get? p).isSome then .error .misuse
    else return { r with pending := some (p, some value) }

def step (r : Reading) (arg : String) : Except NoCommand Reading :=
  if r.plainOnly then r.plain arg
  else
    match arg.toList with
    | ['-', '-'] => .ok { r with plainOnly := true }
    | '-' :: '-' :: cs => r.long cs
    | '-' :: c :: cs => r.shorts (c :: cs)
    | _ =>
      match r.pending with
      | some (p, none) => .ok { r with pending := some (p, some arg) }
      | _ => r.plain arg

/-- All arguments of a side. -/
def all (r : Reading) : List String → Except NoCommand Reading
  | [] => r.settle
  | arg :: args => do (← r.step arg).all args

/-- What is asked for on the right side has priority. -/
def either (left right : Reading) (p : Parameter) : Option String :=
  (right.get? p).or (left.get? p)

def options (left right : Reading) : Options where
  workdir := (either left right .workdir).getD "."
  config := either left right .config
  events := either left right .events
  verbose := (either left right .verbose).isSome

def command (r : Reading) : CommandName → Except NoCommand Command
  | .svd => .ok (.svd (r.get? .thin).isSome)
  | .mult => .ok .mult
  | .cmp => .ok .cmp
  | .subtract => .ok .subtract
  | .gen =>
    match (r.get? .size).bind Parameter.number? with
    | none => .error .misuse
    | some n => .ok (.gen n (((r.get? .seed).bind Parameter.number?).map UInt64.ofNat))
  | .validate =>
    match r.get? .path with
    | none => .error .misuse
    | some path => .ok (.validate path)

end Reading

/-- The names after `help`: none, or that of one command. -/
def helpOn : List String → NoCommand
  | [] => .help none
  | ["help"] => .help none
  | [name] =>
    match CommandName.ofText? name with
    | some c => .help (some c)
    | none => .misuse
  | _ => .misuse

/-- The arguments from the left side on. The right side is looked at before what is pending on the
left. -/
def readArguments (left : Reading) : List String → Except NoCommand (Options × Command)
  | [] => .error .misuse
  | arg :: args =>
    if left.plainOnly ∨ left.awaits then do readArguments (← left.step arg) args
    else
      match CommandName.ofText? arg with
      | some c => do
        let right ← ({ side := some c } : Reading).all args
        let command ← right.command c
        let left ← left.settle
        return (left.options right, command)
      | none =>
        if arg = "help" then .error (helpOn args)
        else do readArguments (← left.step arg) args

/-- The command line without the name of the program. -/
def parseArguments (args : List String) : Except NoCommand (Options × Command) :=
  readArguments { side := none } args

end NumericSteps
