import NumericSteps.Toml.Moment
import NumericSteps.Toml.Number
import NumericSteps.Toml.Table
import NumericSteps.Toml.Text

namespace NumericSteps.Toml

def isBareKey (c : Char) : Bool := c.isAlphanum || c == '-' || c == '_'

def keyPart : List Char → Option (Key × List Char)
  | '"' :: cs => quotedBody cs
  | '\'' :: cs => literalBody cs
  | cs =>
    match cs.takeWhile isBareKey with
    | [] => none
    | k => some (k, cs.dropWhile isBareKey)

/-- A key is a path of at most this many parts, and values are at most this deep. -/
def depth : Nat := 79

/-- Parts with points between them, and blanks around them all. The last part is given apart. -/
def keyPath : Nat → List Char → Option ((List Key × Key) × List Char)
  | 0, _ => none
  | n + 1, cs =>
    match keyPart (blanks cs) with
    | none => none
    | some (k, rest) =>
      match blanks rest with
      | '.' :: more => (keyPath n more).map fun ((ks, last), rest) => ((k :: ks, last), rest)
      | rest => some (([], k), rest)

/-- Characters of numbers, dates, times and names of values. -/
def isWordChar (c : Char) : Bool :=
  c.isAlphanum || c == '+' || c == '-' || c == '_' || c == '.' || c == ':'

def wordValue (w : List Char) : Option Value :=
  if w = ['t', 'r', 'u', 'e'] then some (.bool true)
  else if w = ['f', 'a', 'l', 's', 'e'] then some (.bool false)
  else if isMoment w then some .moment
  else
    match integer? w with
    | some n => some (.integer n)
    | none => (float? w).map .float

/-- A blank may stand between a date and a time. -/
def afterDate (cs : List Char) : List Char :=
  match cs with
  | ' ' :: rest =>
    if isTimeOfDate (rest.takeWhile isWordChar) then rest.dropWhile isWordChar else cs
  | _ => cs

def word (cs : List Char) : Option (Value × List Char) :=
  let w := cs.takeWhile isWordChar
  let rest := cs.dropWhile isWordChar
  (wordValue w).map fun v => (v, if isDate w then afterDate rest else rest)

/-- Drops blanks, line ends and comments. -/
def skipLines : Bool → List Char → List Char
  | _, [] => []
  | _, '\n' :: cs => skipLines false cs
  | _, '\r' :: '\n' :: cs => skipLines false cs
  | inComment, c :: cs =>
    if inComment then if isOpen c then skipLines true cs else c :: cs
    else if isGap c then skipLines false cs
    else if c = '#' then skipLines true cs
    else c :: cs

/-- The items of an array up to its end, at most `fuel` of them. -/
def items (value : List Char → Option (Value × List Char)) :
    Nat → List Char → Option (List Value × List Char)
  | 0, _ => none
  | fuel + 1, cs =>
    match skipLines false cs with
    | ']' :: rest => some ([], rest)
    | cs =>
      match value cs with
      | none => none
      | some (v, rest) =>
        match skipLines false rest with
        | ',' :: more => (items value fuel more).map fun (vs, rest) => (v :: vs, rest)
        | ']' :: rest => some ([v], rest)
        | _ => none

/-- A key, `=` and a value. -/
def assignment (value : List Char → Option (Value × List Char)) (cs : List Char) :
    Option (((List Key × Key) × Value) × List Char) :=
  match keyPath depth cs with
  | some (k, '=' :: rest) => (value (blanks rest)).map fun (v, rest) => ((k, v), rest)
  | _ => none

/-- The entries between braces up to the end, at most `fuel` of them, after those of `t`. -/
def entries (value : List Char → Option (Value × List Char)) :
    Nat → Table → List Char → Option (Table × List Char)
  | 0, _, _ => none
  | fuel + 1, t, cs =>
    match assignment value cs with
    | none => none
    | some (((path, k), v), rest) =>
      match Table.assign path k v .braces t, blanks rest with
      | some t, ',' :: more => entries value fuel t more
      | some t, c :: rest => if c = '\x7d' then some (t, rest) else none
      | _, _ => none

/-- A value that holds no others. -/
def leaf (cs : List Char) : Option (Value × List Char) :=
  match readText cs with
  | some (s, rest) => some (.text s, rest)
  | none => word cs

/-- A value and what follows it; `n` says how much deeper it may be. -/
def value : Nat → List Char → Option (Value × List Char)
  | 0, cs => leaf cs
  | n + 1, cs =>
    match cs with
    | '[' :: rest =>
      (items (value n) (rest.length + 1) rest).map fun (vs, rest) => (.array vs, rest)
    | '\x7b' :: rest =>
      match blanks rest with
      | '\x7d' :: rest => some (.table .braces [], rest)
      | rest =>
        (entries (value n) (rest.length + 1) [] rest).map fun (t, rest) => (.table .braces t, rest)
    | cs => leaf cs

/-- The end of a line, or of the document. -/
def lineEnd (cs : List Char) : Option (List Char) := if cs = [] then some [] else newline? cs

/-- What follows the rest of a line that says no more. -/
def endLine (cs : List Char) : Option (List Char) :=
  match blanks cs with
  | '#' :: rest => lineEnd (rest.dropWhile isOpen)
  | rest => lineEnd rest

/-- A line of a document; one without a statement is blank. -/
def line (cs : List Char) : Option (Option Statement × List Char) :=
  match blanks cs with
  | '[' :: '[' :: rest =>
    match keyPath depth rest with
    | some ((path, k), ']' :: ']' :: rest) =>
      (endLine rest).map fun rest => (some (.nextHeader path k), rest)
    | _ => none
  | '[' :: rest =>
    match keyPath depth rest with
    | some ((path, k), ']' :: rest) =>
      (endLine rest).map fun rest => (some (.header path k), rest)
    | _ => none
  | cs =>
    match endLine cs with
    | some rest => some (none, rest)
    | none =>
      match assignment (value depth) cs with
      | some (((path, k), v), rest) =>
        (endLine rest).map fun rest => (some (.assign path k v), rest)
      | none => none

/-- The statements on at most `fuel` lines. -/
def statements : Nat → List Char → Option (List Statement)
  | _, [] => some []
  | 0, _ => none
  | fuel + 1, cs =>
    match line cs with
    | none => none
    | some (s, rest) => (statements fuel rest).map fun ss => s.toList ++ ss

/-- A mark of the byte order may stand before a document. -/
def dropMark : List Char → List Char
  | '\ufeff' :: cs => cs
  | cs => cs

def read (cs : List Char) : Option Table := do
  let cs := dropMark cs
  build (← statements cs.length cs)

end NumericSteps.Toml
