import RingOverlay.Data.Value
/-!
Reading structured values from their text. A number written without a fraction and an exponent is an
integer if it fits 64 bits; every other number is a float. Keys may come in any order; of two equal
keys the later counts.
-/

set_option autoImplicit false
set_option relaxedAutoImplicit false

namespace RingOverlay.Value

def skipBlank (cs : List Char) : List Char :=
  cs.dropWhile fun c => c = ' ' || c = '\t' || c = '\r' || c = '\n'

def hexDigit? (c : Char) : Option Nat :=
  if c.toNat < 128 then Hex.digitValue? (UInt8.ofNat c.toNat) else none

def hexNumber? (cs : List Char) : Option Nat := cs.foldlM (fun n c => (16 * n + ·) <$> hexDigit? c) 0

def joinSurrogates (high low : Nat) : Char :=
  Char.ofNat (0x10000 + (high - 0xd800) * 0x400 + (low - 0xdc00))

/-- The number that the next four characters write as hexadecimal digits, and what follows them. -/
def readUnit (cs : List Char) : Option (Nat × List Char) :=
  if 4 ≤ cs.length then (hexNumber? (cs.take 4)).map (·, cs.drop 4) else none

/-- The character of an escape by number, and what follows it. Surrogate halves stand in pairs. -/
def readNumbered (cs : List Char) : Option (Char × List Char) := do
  let (unit, cs) ← readUnit cs
  if unit < 0xd800 ∨ 0xe000 ≤ unit then return (Char.ofNat unit, cs)
  else if unit < 0xdc00 ∧ cs.take 2 = ['\\', 'u'] then
    let (low, cs) ← readUnit (cs.drop 2)
    if 0xdc00 ≤ low ∧ low < 0xe000 then return (joinSurrogates unit low, cs) else none
  else none

def readEscape : List Char → Option (Char × List Char)
  | 'n' :: cs => some ('\n', cs)
  | 't' :: cs => some ('\t', cs)
  | 'r' :: cs => some ('\r', cs)
  | 'b' :: cs => some ('\x08', cs)
  | 'f' :: cs => some ('\x0c', cs)
  | 'u' :: cs => readNumbered cs
  | c :: cs => if c = '"' ∨ c = '\\' ∨ c = '/' then some (c, cs) else none
  | [] => none

/-- The rest of a quoted text after its opening quote. Control characters stand only as escapes. -/
def readQuoted : (fuel : Nat) → List Char → Option (List Char × List Char)
  | 0, _ => none
  | _ + 1, [] => none
  | _ + 1, '"' :: cs => some ([], cs)
  | n + 1, '\\' :: cs => do
    let (c, cs) ← readEscape cs
    let (s, cs) ← readQuoted n cs
    return (c :: s, cs)
  | n + 1, c :: cs =>
    if c.toNat < 0x20 then none else do
      let (s, cs) ← readQuoted n cs
      return (c :: s, cs)

def decimalNumber (ds : List Char) : Nat := ds.foldl (fun n c => 10 * n + (c.toNat - '0'.toNat)) 0

def readDigits (cs : List Char) : Option (List Char × List Char) :=
  let ds := cs.takeWhile Char.isDigit
  if ds.isEmpty then none else some (ds, cs.drop ds.length)

/-- The digits of a number before its point, and what follows them. Zero leads no other digits. -/
def readWhole (cs : List Char) : Option (List Char × List Char) := do
  let (ds, cs) ← readDigits cs
  if ds.head? = some '0' ∧ ds ≠ ['0'] then none else return (ds, cs)

def readFraction : List Char → Option (List Char × List Char)
  | '.' :: cs => readDigits cs
  | cs => some ([], cs)

def readExponent (cs : List Char) : Option (Option Int × List Char) :=
  if cs.head? = some 'e' ∨ cs.head? = some 'E' then
    match cs.drop 1 with
    | '-' :: cs => (readDigits cs).map fun (ds, cs) => (some (-(decimalNumber ds : Int)), cs)
    | '+' :: cs => (readDigits cs).map fun (ds, cs) => (some (decimalNumber ds), cs)
    | cs => (readDigits cs).map fun (ds, cs) => (some (decimalNumber ds), cs)
  else some (none, cs)

def readMagnitude (negative : Bool) (cs : List Char) : Option (Value × List Char) := do
  let (whole, cs) ← readWhole cs
  let (fraction, cs) ← readFraction cs
  let (exponent, cs) ← readExponent cs
  let n := decimalNumber (whole ++ fraction)
  let signed : Int := if negative then -(n : Int) else n
  if fraction.isEmpty ∧ exponent.isNone ∧ Int64.minValue.toInt ≤ signed ∧ signed < UInt64.size ∧
    ¬(negative ∧ n = 0) then return (.int signed, cs)
  else
    let x := Double.ofDecimal n (exponent.getD 0 - fraction.length)
    if x = .infinity then none else return (.float (if negative then x.neg else x), cs)

def readNumber : List Char → Option (Value × List Char)
  | '-' :: cs => readMagnitude true cs
  | cs => readMagnitude false cs

def deepest : Nat := 127

mutual

def readValue : (fuel depth : Nat) → List Char → Option (Value × List Char)
  | 0, _, _ => none
  | n + 1, d, cs => match skipBlank cs with
    | '"' :: cs => (readQuoted n cs).map fun (s, cs) => (.string (String.ofList s), cs)
    | '[' :: cs => if d = 0 then none else match skipBlank cs with
      | ']' :: cs => some (.list [], cs)
      | cs => (readItems n (d - 1) cs).map fun (vs, cs) => (.list vs, cs)
    | '\x7b' :: cs => if d = 0 then none else match skipBlank cs with
      | '\x7d' :: cs => some (.record [], cs)
      | cs => (readEntries n (d - 1) cs).map fun (es, cs) => (ofEntries es, cs)
    | 'n' :: 'u' :: 'l' :: 'l' :: cs => some (.null, cs)
    | 't' :: 'r' :: 'u' :: 'e' :: cs => some (.bool true, cs)
    | 'f' :: 'a' :: 'l' :: 's' :: 'e' :: cs => some (.bool false, cs)
    | cs => readNumber cs

def readItems : (fuel depth : Nat) → List Char → Option (List Value × List Char)
  | 0, _, _ => none
  | n + 1, d, cs => do
    let (v, cs) ← readValue n d cs
    match skipBlank cs with
    | ',' :: cs =>
      let (vs, cs) ← readItems n d cs
      return (v :: vs, cs)
    | ']' :: cs => return ([v], cs)
    | _ => none

def readEntries : (fuel depth : Nat) → List Char → Option (List (String × Value) × List Char)
  | 0, _, _ => none
  | n + 1, d, cs => match skipBlank cs with
    | '"' :: cs => do
      let (k, cs) ← readQuoted n cs
      match skipBlank cs with
      | ':' :: cs =>
        let (v, cs) ← readValue n d cs
        match skipBlank cs with
        | ',' :: cs =>
          let (es, cs) ← readEntries n d cs
          return ((String.ofList k, v) :: es, cs)
        | '\x7d' :: cs => return ([(String.ofList k, v)], cs)
        | _ => none
      | _ => none
    | _ => none

end

/-- The value that a text holds; what follows the value must be blank. -/
def ofText? (s : String) : Option Value :=
  match readValue (s.length + 1) deepest s.toList with
  | some (v, rest) => if skipBlank rest = [] then some v else none
  | none => none

end RingOverlay.Value
