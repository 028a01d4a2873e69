import NumericSteps.Command.Display
import Std.Time.Format

namespace NumericSteps.Program

/-- The number of an error of the operating system. -/
def errorNumber : IO.Error → Option UInt32
  | .alreadyExists _ n _ => some n
  | .otherError n _ => some n
  | .resourceBusy n _ => some n
  | .resourceVanished n _ => some n
  | .unsupportedOperation n _ => some n
  | .hardwareFault n _ => some n
  | .unsatisfiedConstraints n _ => some n
  | .illegalOperation n _ => some n
  | .protocolError n _ => some n
  | .timeExpired n _ => some n
  | .interrupted _ n _ => some n
  | .noFileOrDirectory _ n _ => some n
  | .invalidArgument _ n _ => some n
  | .permissionDenied _ n _ => some n
  | .resourceExhausted _ n _ => some n
  | .inappropriateType _ n _ => some n
  | .noSuchThing _ n _ => some n
  | _ => none

def fault (e : IO.Error) : OsFault :=
  match errorNumber e with
  | some n => .system n.toNat
  | none => .other (toString e)

def attempt (act : IO Unit) : IO (Except OsFault Unit) := do
  match ← act.toBaseIO with
  | .ok () => return .ok ()
  | .error e => return .error (fault e)

/-- The files that are held open, by handle. -/
abbrev Held := IO.Ref (List (Nat × IO.FS.Handle))

def append (h : IO.FS.Handle) (bytes : Bytes) : IO Unit := do
  h.write (ByteArray.mk bytes.toArray)
  h.flush

def carryOut (held : Held) : Change → IO Unit
  | .create path => do
    let _ ← IO.FS.Handle.mk path.text .write
  | .openAppend path => do
    let _ ← IO.FS.Handle.mk path.text .append
  | .write path bytes => do
    append (← IO.FS.Handle.mk path.text .append) bytes
  | .hold handle path => do
    let h ← IO.FS.Handle.mk path.text .append
    held.modify fun hs => (handle, h) :: hs
  | .writeHeld handle bytes => do
    match (← held.get).lookup handle with
    | some h => append h bytes
    | none => return ()
  | .remove path => IO.FS.removeFile path.text
  | .rename source target => IO.FS.rename source.text target.text

def readFile (path : Path) : IO (Except Disk.ReadFault Bytes) := do
  match ← (IO.FS.Handle.mk path.text .read).toBaseIO with
  | .error e => return .error (.unopened (fault e))
  | .ok h =>
    match ← h.readBinToEnd.toBaseIO with
    | .error e => return .error (.unreadable (fault e))
    | .ok bytes => return .ok bytes.toList

def isFile (path : Path) : IO Bool := do
  return (← readFile path) matches .ok _

/-- Carries a script out, operation by operation. -/
def execute {α : Type} (held : Held) : Script α → IO α
  | .done a => return a
  | .read path next => do execute held (next (← readFile path))
  | .isFile path next => do execute held (next (← isFile path))
  | .change c next => do execute held (next (← attempt (carryOut held c)))

def timestamp : IO String := do
  let now ← Std.Time.Timestamp.now
  return (Std.Time.PlainDateTime.ofWallTime (now.toWallTime .zero)).format "uuuu-MM-dd'T'HH:mm:ss.SSSSSS'Z'"

def showLog (line : LogLine) : IO Unit := do
  let title := line.level.title
  let level := String.ofList (List.replicate (5 - title.length) ' ') ++ title
  IO.eprintln ((← timestamp) ++ " " ++ level ++ " " ++ line.origin ++ ": " ++ line.text)

/-- Only a decomposition has an input. -/
def readInput (args : List String) : IO Bytes := do
  match parseArguments args with
  | .ok (_, .svd _) => return (← (← IO.getStdin).readBinToEnd).toList
  | _ => return []

def seedFromSystem : IO UInt64 := do
  let bytes ← IO.getRandomBytes 8
  return bytes.toList.foldl (fun n b => n * 256 + b.toUInt64) 0

end NumericSteps.Program

open NumericSteps Program in
def main (args : List String) : IO UInt32 := do
  let held ← IO.mkRef []
  let shown ← execute held (runCommandLine args (← readInput args) (← seedFromSystem))
  shown.log.forM showLog
  IO.print (String.ofList shown.output)
  IO.eprint (String.ofList shown.complaint)
  return UInt32.ofNat shown.exit
