namespace NumericSteps.Toml

/-- A number of just as many digits. -/
def fixed? (count : Nat) (cs : List Char) : Option Nat :=
  if cs.length = count ∧ cs.all Char.isDigit then some (Nat.ofDigitChars 10 cs 0) else none

def isLeap (year : Nat) : Bool := year % 4 = 0 ∧ (year % 100 ≠ 0 ∨ year % 400 = 0)

def daysIn (year month : Nat) : Nat :=
  if month = 2 then (if isLeap year then 29 else 28)
  else if month = 4 ∨ month = 6 ∨ month = 9 ∨ month = 11 then 30
  else 31

/-- Year, month and day: `1979-05-27`. -/
def isDate : List Char → Bool
  | a :: b :: c :: d :: '-' :: e :: f :: '-' :: g :: h :: [] =>
    match fixed? 4 [a, b, c, d], fixed? 2 [e, f], fixed? 2 [g, h] with
    | some year, some month, some day =>
      1 ≤ month && month ≤ 12 && 1 ≤ day && day ≤ daysIn year month
    | _, _, _ => false
  | _ => false

def below (limit : Nat) (a b : Char) : Bool := (fixed? 2 [a, b]).any (· < limit)

/-- Hours and minutes after a sign, or a letter for none. -/
def isOffset : List Char → Bool
  | [c] => c == 'Z' || c == 'z'
  | [s, a, b, ':', c, d] => (s == '+' || s == '-') && below 24 a b && below 60 c d
  | _ => false

/-- Takes off a point and one digit or more, if there is a point. -/
def afterFraction : List Char → Option (List Char)
  | '.' :: cs =>
    if cs.takeWhile Char.isDigit = [] then none else some (cs.dropWhile Char.isDigit)
  | cs => some cs

/-- Takes off a time of day: `07:32:00.5`. A minute may have a second more. -/
def afterTime : List Char → Option (List Char)
  | a :: b :: ':' :: c :: d :: ':' :: e :: f :: cs =>
    if below 24 a b && below 60 c d && below 61 e f then afterFraction cs else none
  | _ => none

def isTime (cs : List Char) : Bool := afterTime cs == some []

/-- A time of day that may be followed by an offset. -/
def isTimeOfDate (cs : List Char) : Bool :=
  match afterTime cs with
  | some [] => true
  | some rest => isOffset rest
  | none => false

/-- A date and a time with a letter between them. -/
def isDateTime (cs : List Char) : Bool :=
  match cs.drop 10 with
  | c :: rest => isDate (cs.take 10) && (c == 'T' || c == 't') && isTimeOfDate rest
  | [] => false

def isMoment (cs : List Char) : Bool := isDate cs || isTime cs || isDateTime cs

end NumericSteps.Toml
