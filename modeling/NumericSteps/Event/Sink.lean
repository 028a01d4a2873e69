import NumericSteps.Disk.Appender
import NumericSteps.Event.Bus
import NumericSteps.Event.Json
import NumericSteps.Event.Log

namespace NumericSteps

/-- What sinks leave behind besides the disk. -/
structure Journal where
  log : List LogLine := []
  /-- The events that were collected, each with the name of its collection. -/
  collected : List (String × Event) := []
deriving DecidableEq

namespace Journal

def say (j : Journal) (l : LogLine) : Journal := { j with log := j.log ++ [l] }

def collect (j : Journal) (name : String) (e : Event) : Journal :=
  { j with collected := j.collected ++ [(name, e)] }

/-- The events in a collection. -/
def collection (j : Journal) (name : String) : List Event :=
  (j.collected.filter fun c => c.1 = name).map Prod.snd

end Journal

abbrev Journaling := StateT Journal Script

inductive Sink
  /-- Sinks of one name share one collection. -/
  | collector (name : String)
  | log (level : LogLevel)
  | jsonLines (file : Appender)

namespace Sink

def title : Sink → String
  | .collector _ => "vec_sink"
  | .log _ => "tracing_sink"
  | .jsonLines _ => "json_lines_sink"

/-- Goes on with a file, and tells the log if something failed. -/
def goOn (complaint : OsFault → LogLine) (s : Script (Except OsFault Unit × Appender)) :
    Journaling Sink := do
  let (r, file) ← s
  match r with
  | .ok () => return .jsonLines file
  | .error f =>
    modify fun j => j.say (complaint f)
    return .jsonLines file

def handle (e : Event) : Sink → Journaling Sink
  | .collector name => do
    modify fun j => j.collect name e
    return .collector name
  | .log level => do
    modify fun j => j.say (.ofEvent level e)
    return .log level
  | .jsonLines file => goOn .lostEvent (file.addLine (Text.encode e.json))

def finalize : Sink → Journaling Sink
  | .jsonLines file => goOn .lostFlush file.flush
  | s => return s

/-- Lets a sink go: a file that is closed still gets what waited for it, if that works. -/
def drop : Sink → Script Unit
  | .jsonLines file => do
    let _ ← file.flush
  | _ => return ()

/-- A sink that appends to the file at a path; the file is made if it is missing. -/
def jsonLinesAt (handle : Nat) (path : Path) : Script (Except OsFault Sink) := do
  return (← Appender.openAt handle path).map .jsonLines

end Sink

namespace Bus

def flushSinks (b : Bus Sink) : Journaling (Bus Sink) := b.flush Sink.handle

def finishSinks (b : Bus Sink) : Journaling (Bus Sink) := b.finish Sink.handle Sink.finalize

def drop (b : Bus Sink) : Script Unit := b.sinks.forM Sink.drop

end Bus

end NumericSteps
