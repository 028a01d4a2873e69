import NumericSteps.Disk.Fault
import NumericSteps.Disk.Path
import NumericSteps.Text.Utf8

namespace NumericSteps

/-- The names from the top of the tree down. -/
abbrev Place := List String

inductive Node
  | file (bytes : Bytes)
  | directory
  /-- A device that reads as empty, and either takes everything or nothing that is written. -/
  | device (full : Bool)
deriving DecidableEq, Repr

/-- A tree of files and directories as a map from places to what is there. -/
structure Disk where
  entries : List (Place × Node)
  /-- Where relative paths start. -/
  here : Place
  /-- Where the files that are held open stand, by handle. One that has lost its name is missing. -/
  held : List (Nat × Place) := []
deriving DecidableEq, Repr

namespace Disk

/-- What is at a place; the top is always a directory. -/
def get? (d : Disk) (p : Place) : Option Node :=
  if p = [] then some .directory else d.entries.lookup p

def erase (d : Disk) (p : Place) : Disk :=
  { d with entries := d.entries.filter fun e => e.1 ≠ p }

def set (d : Disk) (p : Place) (n : Node) : Disk :=
  { d with entries := (p, n) :: (d.erase p).entries }

theorem lookup_cons_eq (e : Place × Node) (es : List (Place × Node)) (q : Place) :
    (e :: es).lookup q = if q = e.1 then some e.2 else es.lookup q := by
  rw [List.lookup_cons]
  by_cases h : q = e.1
  · simp [h]
  · rw [beq_false_of_ne h, if_neg h]

theorem lookup_filter (es : List (Place × Node)) (p q : Place) :
    (es.filter fun e => e.1 ≠ p).lookup q = if q = p then none else es.lookup q := by
  induction es with
  | nil => simp
  | cons e es ih =>
    rw [List.filter_cons, lookup_cons_eq]
    by_cases hr : e.1 = p
    · rw [if_neg (by simp [hr]), ih]
      by_cases hq : q = p
      · simp [hq]
      · rw [if_neg hq, if_neg hq, if_neg (fun h => hq (h.trans hr))]
    · rw [if_pos (by simp [hr]), lookup_cons_eq, ih]
      by_cases hq : q = p
      · rw [if_pos hq, if_neg (fun h => hr (h.symm.trans hq)), if_pos hq]
      · simp [hq]

theorem get?_erase (d : Disk) (p q : Place) (hp : p ≠ []) :
    (d.erase p).get? q = if q = p then none else d.get? q := by
  unfold get? erase
  by_cases hq : q = []
  · rw [if_pos hq, if_pos hq, if_neg (fun h => hp (h.symm.trans hq))]
  · rw [if_neg hq, if_neg hq, lookup_filter]

theorem get?_set (d : Disk) (p q : Place) (n : Node) (hp : p ≠ []) :
    (d.set p n).get? q = if q = p then some n else d.get? q := by
  unfold get? set erase
  by_cases hq : q = []
  · rw [if_pos hq, if_pos hq, if_neg (fun h => hp (h.symm.trans hq))]
  · rw [if_neg hq, if_neg hq, lookup_cons_eq, lookup_filter]
    by_cases h : q = p
    · rw [if_pos h, if_pos h]
    · rw [if_neg h, if_neg h, if_neg h]

theorem get?_held (d : Disk) (h : List (Nat × Place)) (p : Place) :
    ({ d with held := h } : Disk).get? p = d.get? p := rfl

/-- The longest name and the longest path, in bytes. -/
def maxName : Nat := 255

def maxPath : Nat := 4095

/-- Where a path leads. -/
structure Target where
  place : Place
  /-- The last piece is a name, and neither `.` nor `..`. -/
  named : Bool
  /-- Only a directory may stand there. -/
  slash : Bool

/-- Follows names from a place. What stands at the last one does not matter, but all before it
have to be directories. -/
def walk (d : Disk) (p : Place) : List String → Except OsFault Place
  | [] => .ok p
  | c :: cs =>
    match d.get? p with
    | none => .error .notFound
    | some .directory =>
      if c = "." then walk d p cs
      else if c = ".." then walk d p.dropLast cs
      else if maxName < c.utf8ByteSize then .error .nameTooLong
      else walk d (p ++ [c]) cs
    | some _ => .error .notADirectory

def isDots (name : Option String) : Bool :=
  name == none || name == some "." || name == some ".."

def locate (d : Disk) (path : Path) : Except OsFault Target :=
  if path.hasNul then .error .nulInPath
  else if path.isEmpty then .error .notFound
  else if maxPath < path.text.utf8ByteSize then .error .nameTooLong
  else
    (d.walk (if path.isAbsolute then [] else d.here) path.route).map fun place =>
      ⟨place, !isDots path.route.getLast?, path.endsWithSlash⟩

/-- Why a file could not be read: it was not opened, or it was and gave nothing. -/
inductive ReadFault
  | unopened (fault : OsFault)
  | unreadable (fault : OsFault)
deriving DecidableEq

def ReadFault.fault : ReadFault → OsFault
  | .unopened f => f
  | .unreadable f => f

def read (d : Disk) (path : Path) : Except ReadFault Bytes :=
  match d.locate path with
  | .error f => .error (.unopened f)
  | .ok t =>
    match d.get? t.place with
    | none => .error (.unopened .notFound)
    | some .directory => .error (.unreadable .isADirectory)
    | some (.file bytes) => if t.slash then .error (.unopened .notADirectory) else .ok bytes
    | some (.device _) => .ok []

def isFile (d : Disk) (path : Path) : Bool :=
  match d.locate path with
  | .error _ => false
  | .ok t =>
    match d.get? t.place with
    | some (.file _) => !t.slash
    | _ => false

/-- Opens a file for writing; `content` says what is kept of one that exists. -/
def openWith (content : Bytes → Bytes) (d : Disk) (path : Path) : Except OsFault Disk :=
  match d.locate path with
  | .error f => .error f
  | .ok t =>
    if t.named && t.slash then .error .isADirectory
    else
      match d.get? t.place with
      | none => .ok (d.set t.place (.file []))
      | some .directory => .error .isADirectory
      | some (.file bytes) => .ok (d.set t.place (.file (content bytes)))
      | some (.device _) => .ok d

/-- Makes a file empty, and makes it if it is missing. -/
def create (d : Disk) (path : Path) : Except OsFault Disk := d.openWith (fun _ => []) path

/-- Opens a file for additions, and makes it if it is missing. -/
def openAppend (d : Disk) (path : Path) : Except OsFault Disk := d.openWith id path

/-- Adds bytes at the end of what stands at a place. -/
def append (d : Disk) (p : Place) (bytes : Bytes) : Except OsFault Disk :=
  match d.get? p with
  | none => .error .notFound
  | some .directory => .error .isADirectory
  | some (.file old) => .ok (d.set p (.file (old ++ bytes)))
  | some (.device full) => if full && bytes ≠ [] then .error .noSpace else .ok d

/-- Adds bytes at the end of a file that has been opened. -/
def write (d : Disk) (path : Path) (bytes : Bytes) : Except OsFault Disk :=
  match d.locate path with
  | .error f => .error f
  | .ok t => d.append t.place bytes

/-- Opens a file for additions and keeps it open under a handle. -/
def hold (d : Disk) (handle : Nat) (path : Path) : Except OsFault Disk :=
  match d.locate path, d.openAppend path with
  | .error f, _ => .error f
  | _, .error f => .error f
  | .ok t, .ok d' =>
    .ok { d' with held := (handle, t.place) :: d'.held.filter fun e => e.1 ≠ handle }

/-- Adds bytes at the end of a file that is held open. They leave no trace in one without a
name. -/
def writeHeld (d : Disk) (handle : Nat) (bytes : Bytes) : Except OsFault Disk :=
  match d.held.lookup handle with
  | none => .ok d
  | some p => d.append p bytes

/-- Takes a name away; a file that is held open loses it. -/
def unlink (d : Disk) (p : Place) : Disk :=
  { d.erase p with held := d.held.filter fun e => e.2 ≠ p }

/-- Moves what stands at `p` to `q`; files that are held open go along, or lose their name. -/
def move (d : Disk) (p q : Place) (n : Node) : Disk :=
  { (d.erase p).set q n with
    held := d.held.filterMap fun (handle, r) =>
      if r = p then some (handle, q) else if r = q then none else some (handle, r) }

def remove (d : Disk) (path : Path) : Except OsFault Disk :=
  match d.locate path with
  | .error f => .error f
  | .ok t =>
    match d.get? t.place with
    | none => .error .notFound
    | some .directory => .error .isADirectory
    | some _ => if t.slash then .error .notADirectory else .ok (d.unlink t.place)

/-- Moves a file onto a name, in place of a file that may be there. -/
def rename (d : Disk) (source target : Path) : Except OsFault Disk :=
  match d.locate source, d.locate target with
  | .error f, _ => .error f
  | _, .error f => .error f
  | .ok s, .ok t =>
    if !(s.named && t.named) then .error .busy
    else
      match d.get? s.place with
      | none => .error .notFound
      | some .directory => .error .isADirectory
      | some node =>
        if s.slash || t.slash then .error .notADirectory
        else if t.place.isPrefixOf s.place && t.place ≠ s.place then .error .notEmpty
        else if d.get? t.place = some .directory then .error .isADirectory
        else .ok (d.move s.place t.place node)

end Disk

end NumericSteps
