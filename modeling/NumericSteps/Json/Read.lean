import NumericSteps.Json.Basic

namespace NumericSteps.Json

def isSpace (c : Char) : Bool := c == ' ' || c == '\n' || c == '\t' || c == '\r'

def skip (cs : List Char) : List Char := cs.dropWhile isSpace

def hexValue (c : Char) : Option Nat :=
  if c.isDigit then some (c.toNat - '0'.toNat)
  else if 'a' ≤ c ∧ c ≤ 'f' then some (c.toNat - 'a'.toNat + 10)
  else if 'A' ≤ c ∧ c ≤ 'F' then some (c.toNat - 'A'.toNat + 10)
  else none

def hex4 (a b c d : Char) : Option Nat := do
  return ((← hexValue a) * 16 + (← hexValue b)) * 256 + ((← hexValue c) * 16 + (← hexValue d))

/-- A piece of a text: a character that stands for itself or a 16-bit unit from an escape. -/
inductive Piece
  | char (c : Char)
  | unit (n : Nat)
deriving DecidableEq

def isHigh (n : Nat) : Bool := 0xd800 ≤ n && n < 0xdc00

def isLow (n : Nat) : Bool := 0xdc00 ≤ n && n < 0xe000

/-- The characters that pieces spell; a high unit has to be followed by a low one. -/
def joinPieces : List Piece → Option (List Char)
  | [] => some []
  | .char c :: ps => (joinPieces ps).map (c :: ·)
  | .unit n :: ps =>
    if isHigh n then
      match ps with
      | .unit m :: rest =>
        if isLow m then
          (joinPieces rest).map (Char.ofNat (0x10000 + (n - 0xd800) * 0x400 + (m - 0xdc00)) :: ·)
        else none
      | _ => none
    else if isLow n then none
    else (joinPieces ps).map (Char.ofNat n :: ·)

def simpleEscape (c : Char) : Option Char :=
  if c = '"' then some '"'
  else if c = '\\' then some '\\'
  else if c = '/' then some '/'
  else if c = 'b' then some '\x08'
  else if c = 'f' then some '\x0c'
  else if c = 'n' then some '\n'
  else if c = 'r' then some '\r'
  else if c = 't' then some '\t'
  else none

/-- The pieces up to the closing quote, and what follows it. -/
def pieces : List Char → Option (List Piece × List Char)
  | [] => none
  | '"' :: cs => some ([], cs)
  | '\\' :: 'u' :: a :: b :: c :: d :: cs => do
    let n ← hex4 a b c d
    let (ps, rest) ← pieces cs
    return (.unit n :: ps, rest)
  | '\\' :: c :: cs => do
    let e ← simpleEscape c
    let (ps, rest) ← pieces cs
    return (.char e :: ps, rest)
  | c :: cs =>
    if c = '\\' ∨ c.toNat < 0x20 then none
    else do
      let (ps, rest) ← pieces cs
      return (.char c :: ps, rest)

/-- A text whose opening quote has been read. -/
def textBody (cs : List Char) : Option (Option (List Char) × List Char) :=
  (pieces cs).map fun (ps, rest) => (joinPieces ps, rest)

/-- One digit or more. -/
def digits1 (cs : List Char) : Option (List Char × List Char) :=
  match cs.takeWhile Char.isDigit with
  | [] => none
  | ds => some (ds, cs.dropWhile Char.isDigit)

/-- The digits before the point: a lone zero, or digits that do not start with one. -/
def wholePart (cs : List Char) : Option (List Char × List Char) :=
  match digits1 cs with
  | some (['0'], rest) => some (['0'], rest)
  | some ('0' :: _, _) => none
  | other => other

def fractionPart : List Char → Option (List Char × List Char)
  | '.' :: cs => (digits1 cs).map fun (ds, rest) => ('.' :: ds, rest)
  | cs => some ([], cs)

def exponentSign : List Char → List Char × List Char
  | '+' :: cs => (['+'], cs)
  | '-' :: cs => (['-'], cs)
  | cs => ([], cs)

def exponentPart : List Char → Option (List Char × List Char)
  | [] => some ([], [])
  | c :: cs =>
    if c = 'e' ∨ c = 'E' then
      let (sign, afterSign) := exponentSign cs
      (digits1 afterSign).map fun (ds, rest) => ('e' :: sign ++ ds, rest)
    else some ([], c :: cs)

def unsigned (cs : List Char) : Option (List Char × List Char) := do
  let (whole, rest) ← wholePart cs
  let (part, rest) ← fractionPart rest
  let (power, rest) ← exponentPart rest
  return (whole ++ part ++ power, rest)

/-- The spelling of a number, with a small `e`, and what follows it. -/
def numberSpelling : List Char → Option (List Char × List Char)
  | '-' :: cs => (unsigned cs).map fun (ds, rest) => ('-' :: ds, rest)
  | cs => unsigned cs

def keyword (word : List Char) (value : Json) (cs : List Char) : Option (Json × List Char) :=
  if word.isPrefixOf cs then some (value, cs.drop word.length) else none

mutual

/-- A value and what follows it; `fuel` bounds the values still to be read. -/
def value : Nat → List Char → Option (Json × List Char)
  | 0, _ => none
  | fuel + 1, cs =>
    match skip cs with
    | [] => none
    | '"' :: rest => (textBody rest).map fun (t, after) => (.text t, after)
    | '[' :: rest =>
      match skip rest with
      | ']' :: after => some (.array [], after)
      | inside => (items fuel inside).map fun (js, after) => (.array js, after)
    | c :: rest =>
      if c = '\x7b' then
        match skip rest with
        | d :: after =>
          if d = '\x7d' then some (.object [], after)
          else (members fuel (d :: after)).map fun (ms, after) => (.object ms, after)
        | [] => none
      else if c = 'n' then keyword ['n', 'u', 'l', 'l'] .null (c :: rest)
      else if c = 't' then keyword ['t', 'r', 'u', 'e'] (.bool true) (c :: rest)
      else if c = 'f' then keyword ['f', 'a', 'l', 's', 'e'] (.bool false) (c :: rest)
      else (numberSpelling (c :: rest)).map fun (ds, after) => (.number ds, after)

/-- The items of an array up to its end. -/
def items : Nat → List Char → Option (List Json × List Char)
  | 0, _ => none
  | fuel + 1, cs =>
    match value fuel cs with
    | none => none
    | some (j, rest) =>
      match skip rest with
      | ',' :: more => (items fuel more).map fun (js, after) => (j :: js, after)
      | ']' :: after => some ([j], after)
      | _ => none

/-- The members of an object up to its end. -/
def members : Nat → List Char → Option (List (Option (List Char) × Json) × List Char)
  | 0, _ => none
  | fuel + 1, cs =>
    match skip cs with
    | '"' :: afterQuote =>
      match textBody afterQuote with
      | none => none
      | some (key, rest) =>
        match skip rest with
        | ':' :: afterColon =>
          match value fuel afterColon with
          | none => none
          | some (j, rest) =>
            match skip rest with
            | ',' :: more => (members fuel more).map fun (ms, after) => ((key, j) :: ms, after)
            | d :: after => if d = '\x7d' then some ([(key, j)], after) else none
            | [] => none
        | _ => none
    | _ => none

end

/-- Reads a text that holds one value and blanks around it. -/
def read (cs : List Char) : Option Json :=
  match value (2 * cs.length + 2) cs with
  | some (j, rest) => if skip rest = [] then some j else none
  | none => none

end NumericSteps.Json
