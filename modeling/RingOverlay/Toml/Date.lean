import RingOverlay.Data.Reading
/-!
Dates and times: a date, a time of day, or both, and then perhaps the distance from universal time. No
setting is a date, so only their form is kept.
-/

set_option autoImplicit false
set_option relaxedAutoImplicit false

namespace RingOverlay.Toml

def readDigits (width : Nat) (cs : List Char) : Option (Nat × List Char) :=
  let ds := cs.take width
  if ds.length = width ∧ ds.all Char.isDigit then some (Value.decimalNumber ds, cs.drop width) else none

def readPair (least most : Nat) (cs : List Char) : Option (Nat × List Char) := do
  let (n, cs) ← readDigits 2 cs
  if least ≤ n ∧ n ≤ most then return (n, cs) else none

def after? (c : Char) : List Char → Option (List Char)
  | d :: cs => if d = c then some cs else none
  | [] => none

def isLeapYear (y : Nat) : Bool := y % 4 = 0 && (y % 100 != 0 || y % 400 = 0)

def daysIn (year month : Nat) : Nat :=
  if month = 2 then (if isLeapYear year then 29 else 28)
  else if month = 4 ∨ month = 6 ∨ month = 9 ∨ month = 11 then 30
  else 31

def startsDate (cs : List Char) : Bool :=
  match readDigits 4 cs with
  | some (_, '-' :: _) => true
  | _ => false

/-- Whether a text starts like a time of day: two digits for an hour and a colon. -/
def startsTime (cs : List Char) : Bool :=
  match readPair 0 23 cs with
  | some (_, ':' :: _) => true
  | _ => false

def skipDate? (cs : List Char) : Option (List Char) := do
  let (year, cs) ← readDigits 4 cs
  let (month, cs) ← readPair 1 12 (← after? '-' cs)
  let (day, cs) ← readPair 1 31 (← after? '-' cs)
  if day ≤ daysIn year month then return cs else none

def skipFraction : List Char → List Char
  | '.' :: cs => if cs.head?.any Char.isDigit then cs.dropWhile Char.isDigit else '.' :: cs
  | cs => cs

/-- The rest after a time of day. A minute may have a leap second. -/
def skipTime? (cs : List Char) : Option (List Char) := do
  let (_, cs) ← readPair 0 23 cs
  let (_, cs) ← readPair 0 59 (← after? ':' cs)
  let (_, cs) ← readPair 0 60 (← after? ':' cs)
  return skipFraction cs

def skipOffset? : List Char → Option (List Char)
  | 'Z' :: cs => some cs
  | 'z' :: cs => some cs
  | c :: cs =>
    if c = '+' ∨ c = '-' then do
      let (_, cs) ← readPair 0 23 cs
      let (_, cs) ← readPair 0 59 (← after? ':' cs)
      return cs
    else some (c :: cs)
  | [] => some []

def skipTimePart? : List Char → Option (List Char)
  | c :: cs =>
    if (c = 'T' ∨ c = 't' ∨ c = ' ') ∧ startsTime cs then do skipOffset? (← skipTime? cs)
    else some (c :: cs)
  | [] => some []

def date (text : List Char) : Value := .record [("date", .string (String.ofList text))]

def readDate? (cs : List Char) : Option (Value × List Char) := do
  let rest ← if startsDate cs then skipTimePart? (← skipDate? cs) else skipTime? cs
  return (date (cs.take (cs.length - rest.length)), rest)

end RingOverlay.Toml
