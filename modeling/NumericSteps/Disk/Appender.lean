import NumericSteps.Disk.Script

namespace NumericSteps

/-- A file that is held open and gains lines at its end. What is written waits in a buffer, which goes to
the file when the next piece does not fit. -/
structure Appender where
  handle : Nat
  waiting : Bytes := []
deriving DecidableEq, Repr

namespace Appender

def capacity : Nat := 8192

def openAt (handle : Nat) (path : Path) : Script (Except OsFault Appender) :=
  .change (.hold handle path) fun r => .done (r.map fun () => ⟨handle, []⟩)

/-- Empties the buffer into the file; what cannot be written stays. -/
def flush (a : Appender) : Script (Except OsFault Unit × Appender) :=
  if a.waiting = [] then .done (.ok (), a)
  else
    .change (.writeHeld a.handle a.waiting) fun
      | .ok () => .done (.ok (), { a with waiting := [] })
      | .error f => .done (.error f, a)

/-- Puts a piece behind what waits; one that fills a buffer by itself goes straight to the file. -/
def put (a : Appender) (piece : Bytes) : Script (Except OsFault Unit × Appender) :=
  if piece.length < capacity then .done (.ok (), { a with waiting := a.waiting ++ piece })
  else .change (.writeHeld a.handle piece) fun r => .done (r, a)

def add (a : Appender) (piece : Bytes) : Script (Except OsFault Unit × Appender) :=
  if a.waiting.length + piece.length ≤ capacity then a.put piece
  else do
    match ← a.flush with
    | (.ok (), a) => a.put piece
    | (.error f, a) => return (.error f, a)

/-- A line and its end are two pieces; after a failure the rest is not written. -/
def addLine (a : Appender) (line : Bytes) : Script (Except OsFault Unit × Appender) := do
  match ← a.add line with
  | (.ok (), a) => a.add [Text.lineFeed]
  | (.error f, a) => return (.error f, a)

end Appender

end NumericSteps
