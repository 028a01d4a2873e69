import NumericSteps.Event.Text

namespace NumericSteps

/-- How much a line of the log matters, the gravest first. -/
inductive LogLevel
  | error
  | warn
  | info
  | debug
  | trace
deriving DecidableEq, Repr

namespace LogLevel

def all : List LogLevel := [.error, .warn, .info, .debug, .trace]

def title : LogLevel → String
  | .error => "ERROR"
  | .warn => "WARN"
  | .info => "INFO"
  | .debug => "DEBUG"
  | .trace => "TRACE"

def rank : LogLevel → Nat
  | .error => 0
  | .warn => 1
  | .info => 2
  | .debug => 3
  | .trace => 4

end LogLevel

structure LogLine where
  level : LogLevel
  /-- The part of the program that speaks. -/
  origin : String
  text : String
deriving DecidableEq, Repr

namespace LogLine

def sinks : String := "polyflow_telemetry::sinks"

def ofEvent (level : LogLevel) (e : Event) : LogLine :=
  ⟨level, sinks,
    "step_event step=" ++ String.ofList (Text.quoted e.step.command) ++ " event=" ++ e.what.text⟩

def lostEvent (fault : OsFault) : LogLine :=
  ⟨.warn, sinks, "failed to write event error=" ++ fault.message⟩

def lostFlush (fault : OsFault) : LogLine :=
  ⟨.warn, sinks, "failed to flush event log error=" ++ fault.message⟩

end LogLine

end NumericSteps
