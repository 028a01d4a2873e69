import NumericSteps.Decimal.Notation
import NumericSteps.Json.Write
import NumericSteps.Toml.Table

namespace NumericSteps.Toml

/-- The most marks in a row, after `run` of them. -/
def longestRun (mark : Char) : Nat → List Char → Nat
  | run, [] => run
  | run, c :: cs => if c = mark then longestRun mark (run + 1) cs else max run (longestRun mark 0 cs)

/-- Controls that only escapes can write. -/
def isControl (c : Char) : Bool :=
  (c.toNat < 0x20 && c != '\t' && c != '\n') || c.toNat == 0x7f

/-- How a text is written. -/
inductive Form
  | quoted
  | literal
  | longQuoted
  | longLiteral
deriving DecidableEq, Repr

/-- The first form that needs no escapes, tabulators aside. -/
def form (cs : List Char) : Form :=
  let quotes := longestRun '"' 0 cs
  let apostrophes := longestRun '\'' 0 cs
  let controls := cs.any isControl
  let escapes := controls || cs.contains '\\'
  let lines := cs.contains '\n'
  if !escapes && quotes = 0 && !lines then .quoted
  else if !controls && apostrophes = 0 && !lines then .literal
  else if !escapes && quotes ≤ 2 then .longQuoted
  else if !controls && apostrophes ≤ 2 then .longLiteral
  else if lines then .longQuoted
  else .quoted

def upperHex (n : Nat) : List Char :=
  (Json.padHex n).map Char.toUpper

/-- How a character other than a quote and a line feed is written between quotes. -/
def escapedChar (c : Char) : List Char :=
  if c = '\x08' then ['\\', 'b']
  else if c = '\t' then ['\\', 't']
  else if c = '\x0c' then ['\\', 'f']
  else if c = '\r' then ['\\', 'r']
  else if c = '\\' then ['\\', '\\']
  else if c.toNat < 0x20 ∨ c.toNat = 0x7f then '\\' :: 'u' :: upperHex c.toNat
  else [c]

def quotedChar (c : Char) : List Char :=
  if c = '"' then ['\\', '"']
  else if c = '\n' then ['\\', 'n']
  else escapedChar c

/-- Between three quotes a line feed stands for itself, and so do two quotes in a row, of which
`run` have been written. -/
def longQuotedChars : Nat → List Char → List Char
  | _, [] => []
  | run, c :: cs =>
    if c = '"' then
      if run < 2 then '"' :: longQuotedChars (run + 1) cs
      else '\\' :: '"' :: longQuotedChars 0 cs
    else if c = '\n' then '\n' :: longQuotedChars 0 cs
    else escapedChar c ++ longQuotedChars 0 cs

/-- A text of several lines starts on a line of its own. -/
def firstEnd (cs : List Char) : List Char := if cs.contains '\n' then ['\n'] else []

def longQuote : List Char := ['"', '"', '"']

def longApostrophe : List Char := ['\'', '\'', '\'']

def writeText (cs : List Char) : List Char :=
  match form cs with
  | .quoted => '"' :: (cs.flatMap quotedChar ++ ['"'])
  | .literal => '\'' :: (cs ++ ['\''])
  | .longQuoted => longQuote ++ firstEnd cs ++ longQuotedChars 0 cs ++ longQuote
  | .longLiteral => longApostrophe ++ firstEnd cs ++ cs ++ longApostrophe

/-- Always positional, with a point. -/
def layout : Notation := { Notation.plain with
  wholeSuffix := ['.', '0']
  nan := ['n', 'a', 'n'] }

def writeFloat (x : Float) : List Char := layout.write x

/-- A line that gives a key its value. -/
def entryLine (key : String) (written : List Char) : List Char :=
  key.toList ++ ' ' :: '=' :: ' ' :: (written ++ ['\n'])

end NumericSteps.Toml
