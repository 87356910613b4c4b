import RingOverlay.Toml.Date
import RingOverlay.Toml.Scan
/-!
Numbers: integers of 64 bits in four bases, and floats. Single underscores may stand between digits. A
float that is too large is an error, unless it is negative.
-/

set_option autoImplicit false
set_option relaxedAutoImplicit false

namespace RingOverlay.Toml

/-- Digits with single underscores between them, in order and without the underscores; an underscore
that no digit follows is an error. -/
def moreDigits (isDigit : Char → Bool) : List Char → Option (List Char × List Char)
  | '_' :: c :: cs => do
    if isDigit c then
      let (ds, cs) ← moreDigits isDigit cs
      return (c :: ds, cs)
    else none
  | ['_'] => none
  | c :: cs => do
    if isDigit c then
      let (ds, cs) ← moreDigits isDigit cs
      return (c :: ds, cs)
    else return ([], c :: cs)
  | [] => some ([], [])

def someDigits (isDigit : Char → Bool) : List Char → Option (List Char × List Char)
  | c :: cs => do
    if isDigit c then
      let (ds, cs) ← moreDigits isDigit cs
      return (c :: ds, cs)
    else none
  | [] => none

def readWhole : List Char → Option (List Char × List Char)
  | '0' :: cs => some (['0'], cs)
  | cs => someDigits Char.isDigit cs

def integer? (n : Int) : Option Value :=
  if Int64.minValue.toInt ≤ n ∧ n ≤ Int64.maxValue.toInt then some (.int n) else none

def readBased (base : Nat) (isDigit : Char → Bool) (cs : List Char) : Option (Value × List Char) := do
  let (ds, cs) ← someDigits isDigit cs
  let digits ← ds.mapM Value.hexDigit?
  return (← integer? (digits.foldl (fun n d => base * n + d) 0 : Nat), cs)

def continuesFloat : List Char → Bool
  | c :: _ => c = '.' || c = 'e' || c = 'E'
  | [] => false

def readFraction : List Char → Option (List Char × List Char)
  | '.' :: cs => someDigits Char.isDigit cs
  | cs => some ([], cs)

def readSigned : List Char → Option (Int × List Char)
  | '-' :: cs => do
    let (ds, cs) ← someDigits Char.isDigit cs
    return (-(Value.decimalNumber ds : Int), cs)
  | '+' :: cs => do
    let (ds, cs) ← someDigits Char.isDigit cs
    return ((Value.decimalNumber ds : Int), cs)
  | cs => do
    let (ds, cs) ← someDigits Char.isDigit cs
    return ((Value.decimalNumber ds : Int), cs)

def readExponent : List Char → Option (Int × List Char)
  | 'e' :: cs => readSigned cs
  | 'E' :: cs => readSigned cs
  | cs => some (0, cs)

def float? (negative : Bool) (x : Double) : Option Value :=
  if negative then some (.float x.neg) else if x = .infinity then none else some (.float x)

def readFloat (negative : Bool) (whole : List Char) (cs : List Char) : Option (Value × List Char) := do
  let (fraction, cs) ← readFraction cs
  let (exponent, cs) ← readExponent cs
  let digits := Value.decimalNumber (whole ++ fraction)
  return (← float? negative (.ofDecimal digits (exponent - fraction.length)), cs)

def readSpecial (negative : Bool) : List Char → Option (Value × List Char)
  | 'i' :: 'n' :: 'f' :: cs => some (.float (if negative then Double.infinity.neg else .infinity), cs)
  | 'n' :: 'a' :: 'n' :: cs => some (.float (if negative then Double.nan.neg else .nan), cs)
  | _ => none

def readDecimal (negative : Bool) (cs : List Char) : Option (Value × List Char) := do
  let (whole, rest) ← readWhole cs
  if continuesFloat rest then readFloat negative whole rest
  else
    let n : Int := Value.decimalNumber whole
    return (← integer? (if negative then -n else n), rest)

def readUnsigned (negative : Bool) (cs : List Char) : Option (Value × List Char) :=
  match cs with
  | 'i' :: _ | 'n' :: _ => readSpecial negative cs
  | _ => readDecimal negative cs

def readNumber? (cs : List Char) : Option (Value × List Char) :=
  match cs with
  | '+' :: rest => readUnsigned false rest
  | '-' :: rest => readUnsigned true rest
  | '0' :: 'x' :: rest => readBased 16 isHexDigit rest
  | '0' :: 'o' :: rest => readBased 8 (fun c => '0' ≤ c && c ≤ '7') rest
  | '0' :: 'b' :: rest => readBased 2 (fun c => c = '0' || c = '1') rest
  | _ => if startsDate cs || startsTime cs then readDate? cs else readUnsigned false cs

end RingOverlay.Toml
