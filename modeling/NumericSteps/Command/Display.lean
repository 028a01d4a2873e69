import NumericSteps.Command.Run
import NumericSteps.Command.Usage

namespace NumericSteps

/-- What the program shows when it has ended. -/
structure Display where
  exit : Nat
  output : List Char := []
  /-- The lines of the log. -/
  log : List LogLine := []
  /-- What is said last, on the error stream. -/
  complaint : List Char := []

namespace Display

/-- The log is shown on request, without its finest lines. -/
def shown (verbose : Bool) (log : List LogLine) : List LogLine :=
  if verbose then log.filter fun l => l.level.rank ≤ LogLevel.debug.rank else []

def ofAnswer (verbose : Bool) (a : Answer) (log : List LogLine) : Display :=
  match a.result with
  | .ok () => ⟨0, a.output, shown verbose log, []⟩
  | .error e => ⟨1, a.output, shown verbose log, ("Error: " ++ e.message ++ "\n").toList⟩

def ofNoCommand : NoCommand → Display
  | .help c => ⟨0, (Usage.help c).toList, [], []⟩
  | .version => ⟨0, Usage.version.toList, [], []⟩
  | .misuse => ⟨2, [], [], Usage.misuse.toList⟩

end Display

/-- Runs what the command line asks for. -/
def runCommandLine (args : List String) (input : Bytes) (entropy : UInt64) : Script Display :=
  match parseArguments args with
  | .error n => return .ofNoCommand n
  | .ok (o, c) => do
    let (a, journal) ← (c.run o input entropy).run {}
    return .ofAnswer o.verbose a journal.log

end NumericSteps
