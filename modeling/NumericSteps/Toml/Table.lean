namespace NumericSteps.Toml

abbrev Key := List Char

/-- How a table came to be. -/
inductive Origin
  /-- By a header of its own, or as the document. -/
  | header
  /-- On the way of the header of a table inside it. -/
  | implied
  /-- By a dotted key. -/
  | dotted
  /-- Between braces. -/
  | braces
deriving DecidableEq, Repr

inductive Value
  | text (cs : List Char)
  | integer (n : Int)
  | float (x : Float)
  | bool (b : Bool)
  /-- A date, a time of day, or both; which one makes no difference here. -/
  | moment
  | array (items : List Value)
  | table (origin : Origin) (entries : List (Key × Value))
  /-- Tables by headers of one name, the last of which is still open. -/
  | tables (front : List (List (Key × Value))) (last : List (Key × Value))

/-- The entries of a table in order. -/
abbrev Table := List (Key × Value)

namespace Table

def get? (t : Table) (k : Key) : Option Value := t.lookup k

def replace (t : Table) (k : Key) (v : Value) : Table :=
  t.map fun e => if e.1 = k then (k, v) else e

def erase (t : Table) (k : Key) : Table := t.filter fun e => e.1 ≠ k

def add (t : Table) (k : Key) (v : Value) : Table := t ++ [(k, v)]

/-- Changes the table at the end of a path. `passes` says through which tables the path may go;
those that are missing are made with origin `made`. The last of several tables stands for them. -/
def alter (passes : Origin → Bool) (made : Origin) (f : Origin → Table → Option Table) :
    List Key → Origin → Table → Option Table
  | [], origin, t => f origin t
  | k :: ks, _, t =>
    match t.get? k with
    | none => (alter passes made f ks made []).map fun s => t.add k (.table made s)
    | some (.table origin s) =>
      if passes origin then
        (alter passes made f ks origin s).map fun s' => t.replace k (.table origin s')
      else none
    | some (.tables front last) =>
      (alter passes made f ks .header last).map fun s => t.replace k (.tables front s)
    | some _ => none

/-- Dotted keys go through tables without a header of their own. -/
def passesKey : Origin → Bool
  | .implied => true
  | .dotted => true
  | _ => false

/-- Headers go through all tables that are not closed by a brace. -/
def passesHeader : Origin → Bool
  | .braces => false
  | _ => true

/-- Adds a value under a key that is new. -/
def put (k : Key) (v : Value) (t : Table) : Option Table :=
  match t.get? k with
  | none => some (t.add k v)
  | some _ => none

/-- Adds a value under a dotted key; its last table has to be one that dotted keys made. -/
def assign (path : List Key) (k : Key) (v : Value) (origin : Origin) (t : Table) : Option Table :=
  alter passesKey .dotted
    (fun o s => if path = [] ∨ o = .dotted then put k v s else none) path origin t

/-- Starts the table of a header, which may have come to be on the way of others. -/
def start (k : Key) (_ : Origin) (t : Table) : Option Table :=
  match t.get? k with
  | none => some (t.add k (.table .header []))
  | some (.table .implied s) => some ((t.erase k).add k (.table .header s))
  | some _ => none

/-- Starts the next one of several tables. -/
def startNext (k : Key) (_ : Origin) (t : Table) : Option Table :=
  match t.get? k with
  | none => some (t.add k (.tables [] []))
  | some (.tables front last) => some (t.replace k (.tables (front ++ [last]) []))
  | some _ => none

end Table

/-- A line of a document; the last key of a path is given apart. -/
inductive Statement
  | assign (path : List Key) (key : Key) (value : Value)
  | header (path : List Key) (key : Key)
  | nextHeader (path : List Key) (key : Key)

/-- A document so far, and the path of the table that is being filled. -/
structure Filling where
  document : Table := []
  current : List Key := []

namespace Filling

def under (f : Filling) (path : List Key) (g : Origin → Table → Option Table) : Option Table :=
  Table.alter Table.passesHeader .implied g path .header f.document

def step (f : Filling) : Statement → Option Filling
  | .assign path k v =>
    (f.under f.current (Table.assign path k v)).map fun d => { f with document := d }
  | .header path k => (f.under path (Table.start k)).map fun d => ⟨d, path ++ [k]⟩
  | .nextHeader path k => (f.under path (Table.startNext k)).map fun d => ⟨d, path ++ [k]⟩

end Filling

/-- The table that statements build, if they fit together. -/
def build (ss : List Statement) : Option Table :=
  (ss.foldlM Filling.step {}).map Filling.document

end NumericSteps.Toml
