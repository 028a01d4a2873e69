import NumericSteps.Json.Number

namespace NumericSteps.Json

def padHex (n : Nat) : List Char :=
  let ds := Nat.toDigits 16 n
  List.replicate (4 - ds.length) '0' ++ ds

def textChar (c : Char) : List Char :=
  if c = '"' then ['\\', '"']
  else if c = '\\' then ['\\', '\\']
  else if c = '\n' then ['\\', 'n']
  else if c = '\r' then ['\\', 'r']
  else if c = '\t' then ['\\', 't']
  else if c = '\x08' then ['\\', 'b']
  else if c = '\x0c' then ['\\', 'f']
  else if c.toNat < 0x20 then '\\' :: 'u' :: padHex c.toNat
  else [c]

def writeText (s : String) : List Char := '"' :: (s.toList.flatMap textChar ++ ['"'])

def writeBool (b : Bool) : List Char :=
  if b then ['t', 'r', 'u', 'e'] else ['f', 'a', 'l', 's', 'e']

def writeNat (n : Nat) : List Char := Nat.toDigits 10 n

def commas (xs : List (List Char)) : List Char := [','].intercalate xs

/-- An object from its keys and the texts of their values, in order. -/
def writeObject (members : List (String × List Char)) : List Char :=
  '\x7b' :: (commas (members.map fun (k, v) => writeText k ++ ':' :: v) ++ ['\x7d'])

def writeArray (items : List (List Char)) : List Char := '[' :: (commas items ++ [']'])

end NumericSteps.Json
