import NumericSteps.Command.Arguments
import NumericSteps.Event.Sink
import NumericSteps.Settings.Toml
import NumericSteps.Step.Compare
import NumericSteps.Step.Decompose
import NumericSteps.Step.Descent
import NumericSteps.Step.Generate
import NumericSteps.Step.Recompose

namespace NumericSteps

/-- What a command leaves behind besides the disk and the log. -/
structure Answer where
  output : List Char := []
  result : Except Failure Unit := .ok ()

namespace Options

/-- The handle of the file of events. -/
def eventsHandle : Nat := 0

def busOf (sinks : List Sink) : Bus Sink := { enabled := !sinks.isEmpty, sinks := sinks }

def logSinks (o : Options) : List Sink := if o.verbose then [.log .info] else []

/-- A bus with the sinks that are asked for; without any it drops all events. -/
def openBus (o : Options) : Script (Except Failure (Bus Sink)) :=
  match o.events with
  | none => return .ok (busOf o.logSinks)
  | some file => do
    let path := Path.ofText file
    match ← Sink.jsonLinesAt eventsHandle path with
    | .error f => return .error (.file path.text f)
    | .ok sink => return .ok (busOf (o.logSinks ++ [sink]))

/-- Runs a step on a fresh bus, and hands on what it reported, whether or not the step worked. -/
def withBus {α : Type} (o : Options) (step : Script (Outcome α)) :
    Journaling (Except Failure α × List Char) := do
  match ← o.openBus with
  | .error e => return (.error e, [])
  | .ok bus =>
    let outcome ← step
    let bus ← (bus.emitAll outcome.events).finishSinks
    bus.drop
    return (outcome.result, outcome.output)

def loadSettings (o : Options) : Script (Except Failure Settings) :=
  match o.config with
  | none => return .ok {}
  | some file => Settings.load (.ofText file)

def workspace (o : Options) (s : Settings) : Workspace := s.workspace (.ofText o.workdir)

end Options

/-- A remark on how a step went. -/
def LogLine.remark (text : String) : LogLine := ⟨.debug, "polyflow::commands", text⟩

namespace Command

/-- What a step gives, and a remark if it worked. -/
def conclude {α : Type} (remark : α → List String) (r : Except Failure α × List Char) :
    Journaling Answer := do
  match r.1 with
  | .error e => return ⟨r.2, .error e⟩
  | .ok a =>
    (remark a).forM fun text => modify fun j => j.say (.remark text)
    return ⟨r.2, .ok ()⟩

def matched (tolerance norm : Float) : List String :=
  ["matrices match norm=" ++ Scalar.text norm ++ " tolerance=" ++ Scalar.text tolerance]

def descended : Descent → List String
  | .moved old new => ["descent continues old=" ++ Scalar.text old ++ " new=" ++ Scalar.text new]
  | .converged value => ["descent converged value=" ++ Scalar.text value]

/-- Runs a step with the settings, or fails if they cannot be had. -/
def withSettings (o : Options) (f : Settings → Journaling Answer) : Journaling Answer := do
  match ← o.loadSettings with
  | .error e => return ⟨[], .error e⟩
  | .ok s => f s

def isConfig (path : Path) : Bool := path.extension == some "toml"

def banner : String := "polyflow Validator\n──────────────────\n\n"

def validConfig (s : Settings) : String :=
  "✅ Config is valid (tolerance " ++ Notation.exponential.text s.compareTolerance ++
    ", threshold " ++ Notation.exponential.text s.gradThreshold ++ ", learning rate " ++
    Notation.plain.text s.learningRate ++ ").\n"

def validMatrix (m : Matrix Float) : String :=
  "✅ Matrix is valid (" ++ Failure.shapeText m.shape ++ ").\n"

/-- What is said about a file that has been looked at. -/
def verdict (kind : String) (path : Path) (r : Except Failure String) : Answer :=
  let start := banner ++ "Validating " ++ kind ++ ": " ++ path.text ++ "\n"
  match r with
  | .error e => ⟨start.toList, .error e⟩
  | .ok praise => ⟨(start ++ praise).toList, .ok ()⟩

/-- The matrix in a file that is read as a whole. -/
def readMatrixFile (path : Path) : Script (Except Failure (Matrix Float)) := do
  return (← Script.readText path).bind Matrix.ofText

/-- Looks at a file, as settings or as a matrix. -/
def check (path : Path) : Script Answer := do
  if isConfig path then
    return verdict "config" path ((← Settings.load path).map validConfig)
  else
    return verdict "matrix" path ((← readMatrixFile path).map validMatrix)

/-- Runs a command on an input. `entropy` is the seed where none is given. -/
def run (o : Options) (input : Bytes) (entropy : UInt64) : Command → Journaling Answer
  | .svd thin => withSettings o fun s => do
    let mode := if thin then .thin else s.svdMode
    conclude (fun _ => []) (← o.withBus (Decompose.run input (o.workspace s) mode))
  | .mult => withSettings o fun s => do
    conclude (fun _ => []) (← o.withBus (Recompose.run (o.workspace s)))
  | .cmp => withSettings o fun s => do
    conclude (matched s.compareTolerance)
      (← o.withBus (Compare.run (o.workspace s) s.compareTolerance))
  | .subtract => withSettings o fun s => do
    conclude descended
      (← o.withBus (Descent.run (o.workspace s) s.gradThreshold s.learningRate))
  | .gen size seed => do
    conclude (fun _ => []) (← o.withBus (return Generate.seeded size (seed.getD entropy)))
  | .validate path => check (.ofText path)

end Command

end NumericSteps
