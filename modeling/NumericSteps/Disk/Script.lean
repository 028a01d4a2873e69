import NumericSteps.Disk.Basic

namespace NumericSteps

/-- An operation that can change the disk. -/
inductive Change
  | create (path : Path)
  | openAppend (path : Path)
  | write (path : Path) (bytes : Bytes)
  /-- Opens a file for additions and keeps it open. -/
  | hold (handle : Nat) (path : Path)
  | writeHeld (handle : Nat) (bytes : Bytes)
  | remove (path : Path)
  | rename (source : Path) (target : Path)
deriving DecidableEq

def Change.apply (d : Disk) : Change → Except OsFault Disk
  | .create path => d.create path
  | .openAppend path => d.openAppend path
  | .write path bytes => d.write path bytes
  | .hold handle path => d.hold handle path
  | .writeHeld handle bytes => d.writeHeld handle bytes
  | .remove path => d.remove path
  | .rename source target => d.rename source target

/-- The reply to a change, and the disk after it; a change that fails leaves the disk as it was. -/
def Change.perform (d : Disk) (c : Change) : Except OsFault Unit × Disk :=
  match c.apply d with
  | .ok d' => (.ok (), d')
  | .error f => (.error f, d)

/-- A program over a disk as a tree of operations: each is asked for, and the reply decides how the
program goes on. -/
inductive Script (α : Type)
  | done (a : α)
  | read (path : Path) (next : Except Disk.ReadFault Bytes → Script α)
  | isFile (path : Path) (next : Bool → Script α)
  | change (c : Change) (next : Except OsFault Unit → Script α)

namespace Script

variable {α β : Type}

def bind : Script α → (α → Script β) → Script β
  | .done a, f => f a
  | .read path next, f => .read path fun r => (next r).bind f
  | .isFile path next, f => .isFile path fun r => (next r).bind f
  | .change c next, f => .change c fun r => (next r).bind f

instance : Monad Script where
  pure := .done
  bind := bind

/-- The result of a script, and the disk after it. -/
def run : Script α → Disk → α × Disk
  | .done a, d => (a, d)
  | .read path next, d => (next (d.read path)).run d
  | .isFile path next, d => (next (d.isFile path)).run d
  | .change c next, d => (next (c.perform d).1).run (c.perform d).2

/-- The disks before, between and after the changes of a script. An entry of `fates` is the fate of
one change: forced to fail, or left to the disk. The script is cut off where they end. -/
def states : Script α → List (Option OsFault) → Disk → List Disk
  | .done _, _, d => [d]
  | .read path next, fates, d => (next (d.read path)).states fates d
  | .isFile path next, fates, d => (next (d.isFile path)).states fates d
  | .change _ _, [], d => [d]
  | .change _ next, some f :: fates, d => d :: (next (.error f)).states fates d
  | .change c next, none :: fates, d =>
    d :: (next (c.perform d).1).states fates (c.perform d).2

/-- A change that is asked for on its own. -/
def perform (c : Change) : Script (Except OsFault Unit) := .change c .done

theorem run_done (a : α) (d : Disk) : (Script.done a).run d = (a, d) := rfl

theorem run_bind (s : Script α) (f : α → Script β) (d : Disk) :
    (s >>= f).run d = (f (s.run d).1).run (s.run d).2 := by
  show (s.bind f).run d = _
  induction s generalizing d with
  | done a => rfl
  | read path next ih => exact ih _ d
  | isFile path next ih => exact ih _ d
  | change c next ih => exact ih _ _

theorem bind_pure' (s : Script α) : s.bind .done = s := by
  induction s with
  | done a => rfl
  | read path next ih => exact congrArg (Script.read path) (funext ih)
  | isFile path next ih => exact congrArg (Script.isFile path) (funext ih)
  | change c next ih => exact congrArg (Script.change c) (funext ih)

theorem bind_assoc' {γ : Type} (s : Script α) (f : α → Script β) (g : β → Script γ) :
    (s.bind f).bind g = s.bind fun a => (f a).bind g := by
  induction s with
  | done a => rfl
  | read path next ih => exact congrArg (Script.read path) (funext ih)
  | isFile path next ih => exact congrArg (Script.isFile path) (funext ih)
  | change c next ih => exact congrArg (Script.change c) (funext ih)

instance : LawfulMonad Script :=
  LawfulMonad.mk' Script (fun s => bind_pure' s) (fun _ _ => rfl) (fun s f g => bind_assoc' s f g)

end Script

end NumericSteps
