namespace NumericSteps.Toml

/-- Characters that texts and comments may hold: no controls but the tabulator. -/
def isOpen (c : Char) : Bool := c == '\t' || (0x20 ≤ c.toNat && c.toNat != 0x7f)

def isGap (c : Char) : Bool := c == ' ' || c == '\t'

def blanks (cs : List Char) : List Char := cs.dropWhile isGap

/-- A line feed, with a carriage return before it or not. -/
def newline? : List Char → Option (List Char)
  | '\n' :: cs => some cs
  | '\r' :: '\n' :: cs => some cs
  | _ => none

def simpleEscape (c : Char) : Option Char :=
  if c = 'b' then some '\x08'
  else if c = 't' then some '\t'
  else if c = 'n' then some '\n'
  else if c = 'f' then some '\x0c'
  else if c = 'r' then some '\r'
  else if c = '"' then some '"'
  else if c = '\\' then some '\\'
  else none

def hexDigit (c : Char) : Option Nat :=
  if c.isDigit then some (c.toNat - '0'.toNat)
  else if 'a' ≤ c ∧ c ≤ 'f' then some (c.toNat - 'a'.toNat + 10)
  else if 'A' ≤ c ∧ c ≤ 'F' then some (c.toNat - 'A'.toNat + 10)
  else none

/-- The character whose number is written in hexadecimal, if there is one. -/
def hexChar (ds : List Char) : Option Char := do
  let n ← ds.foldlM (fun n d => (hexDigit d).map (n * 16 + ·)) 0
  if n.isValidChar then some (Char.ofNat n) else none

def before (c : Option Char) (r : Option (List Char × List Char)) :
    Option (List Char × List Char) :=
  match c, r with
  | some c, some (cs, rest) => some (c :: cs, rest)
  | _, _ => none

/-- What stands before the closing quote, and what follows it. -/
def quotedBody : List Char → Option (List Char × List Char)
  | [] => none
  | '"' :: cs => some ([], cs)
  | '\\' :: 'u' :: a :: b :: c :: d :: cs => before (hexChar [a, b, c, d]) (quotedBody cs)
  | '\\' :: 'U' :: a :: b :: c :: d :: e :: f :: g :: h :: cs =>
    before (hexChar [a, b, c, d, e, f, g, h]) (quotedBody cs)
  | '\\' :: c :: cs => before (simpleEscape c) (quotedBody cs)
  | c :: cs => if isOpen c ∧ c ≠ '\\' then before (some c) (quotedBody cs) else none

/-- What stands before the closing apostrophe, and what follows it. -/
def literalBody : List Char → Option (List Char × List Char)
  | [] => none
  | c :: cs =>
    if c = '\'' then some ([], cs)
    else if isOpen c then before (some c) (literalBody cs)
    else none

/-- A text ends at three marks; up to two more before them belong to it. -/
def closing (mark : Char) : List Char → List Char × List Char
  | a :: b :: cs =>
    if a = mark ∧ b = mark then ([mark, mark], cs)
    else if a = mark then ([mark], b :: cs)
    else ([], a :: b :: cs)
  | [a] => if a = mark then ([mark], []) else ([], [a])
  | [] => ([], [])

/-- A line that ends with a backslash. -/
def isContinued (cs : List Char) : Bool := (newline? (blanks cs)).isSome

/-- What stands before three closing quotes, and what follows them. While `skipping`, blanks and
line ends are left out. -/
def longQuotedBody : Bool → List Char → Option (List Char × List Char)
  | _, [] => none
  | _, '"' :: '"' :: '"' :: cs => some (closing '"' cs)
  | _, '\\' :: 'u' :: a :: b :: c :: d :: cs =>
    before (hexChar [a, b, c, d]) (longQuotedBody false cs)
  | _, '\\' :: 'U' :: a :: b :: c :: d :: e :: f :: g :: h :: cs =>
    before (hexChar [a, b, c, d, e, f, g, h]) (longQuotedBody false cs)
  | _, '\\' :: c :: cs =>
    if isContinued (c :: cs) then longQuotedBody true cs
    else before (simpleEscape c) (longQuotedBody false cs)
  | skipping, '\r' :: '\n' :: cs =>
    if skipping then longQuotedBody true cs else before (some '\n') (longQuotedBody false cs)
  | skipping, c :: cs =>
    if skipping ∧ (c = '\n' ∨ isGap c) then longQuotedBody true cs
    else if (c = '\n' ∨ isOpen c) ∧ c ≠ '\\' then before (some c) (longQuotedBody false cs)
    else none

/-- What stands before three closing apostrophes, and what follows them. -/
def longLiteralBody : List Char → Option (List Char × List Char)
  | [] => none
  | '\'' :: '\'' :: '\'' :: cs => some (closing '\'' cs)
  | '\r' :: '\n' :: cs => before (some '\n') (longLiteralBody cs)
  | c :: cs => if c = '\n' ∨ isOpen c then before (some c) (longLiteralBody cs) else none

/-- A line end right after the opening marks does not count. -/
def dropFirstEnd (cs : List Char) : List Char := (newline? cs).getD cs

/-- A text of any kind. -/
def readText : List Char → Option (List Char × List Char)
  | '"' :: '"' :: '"' :: cs => longQuotedBody false (dropFirstEnd cs)
  | '"' :: cs => quotedBody cs
  | '\'' :: '\'' :: '\'' :: cs => longLiteralBody (dropFirstEnd cs)
  | '\'' :: cs => literalBody cs
  | _ => none

end NumericSteps.Toml
