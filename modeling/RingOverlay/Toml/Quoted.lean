import RingOverlay.Data.Reading
import RingOverlay.Toml.Scan
/-!
Quoted texts of four kinds: with or without escapes, on one line or on several. A text on several lines
does not hold the line end that directly follows its opening quotes, and every other line end in it is
read as a line feed. Up to two quotes may stand right before its closing ones.
-/

set_option autoImplicit false
set_option relaxedAutoImplicit false

namespace RingOverlay.Toml

def isLiteralChar (c : Char) : Bool := c != '\'' && isCommentChar c

def isBasicChar (c : Char) : Bool := c != '"' && c != '\\' && isCommentChar c

/-- The character of a number, unless it is half of a surrogate pair or too large. -/
def scalar? (n : Nat) : Option Char := if n.isValidChar then some (Char.ofNat n) else none

def readScalar (width : Nat) (cs : List Char) : Option (Char × List Char) := do
  let ds := cs.take width
  if ds.length = width ∧ ds.all isHexDigit then
    let c ← scalar? (← Value.hexNumber? ds)
    return (c, cs.drop width)
  else none

def readEscape : List Char → Option (Char × List Char)
  | 'b' :: cs => some ('\x08', cs)
  | 't' :: cs => some ('\t', cs)
  | 'n' :: cs => some ('\n', cs)
  | 'f' :: cs => some ('\x0c', cs)
  | 'r' :: cs => some ('\r', cs)
  | '"' :: cs => some ('"', cs)
  | '\\' :: cs => some ('\\', cs)
  | 'u' :: cs => readScalar 4 cs
  | 'U' :: cs => readScalar 8 cs
  | _ => none

def readBasic : (fuel : Nat) → List Char → Option (List Char × List Char)
  | 0, _ => none
  | _ + 1, [] => none
  | _ + 1, '"' :: cs => some ([], cs)
  | n + 1, '\\' :: cs => do
    let (c, cs) ← readEscape cs
    let (s, cs) ← readBasic n cs
    return (c :: s, cs)
  | n + 1, c :: cs => do
    if isBasicChar c then
      let (s, cs) ← readBasic n cs
      return (c :: s, cs)
    else none

def readLiteral (cs : List Char) : Option (List Char × List Char) :=
  match cs.dropWhile isLiteralChar with
  | '\'' :: rest => some (cs.takeWhile isLiteralChar, rest)
  | _ => none

def skipFirstLineEnd (cs : List Char) : List Char := (lineEnd? cs).getD cs

/-- What is read at quotes within a text on several lines: some quotes that belong to it, and whether
it ends after them. -/
def splitQuotes (quote : Char) (cs : List Char) : Option (List Char × Bool × List Char) :=
  let run := (cs.takeWhile (· = quote)).length
  let rest := cs.drop run
  if run < 3 then some (List.replicate run quote, false, rest)
  else if run < 6 then some (List.replicate (run - 3) quote, true, rest)
  else none

def skipBlankLines : (fuel : Nat) → List Char → List Char
  | 0, cs => cs
  | n + 1, cs =>
    match lineEnd? (skipBlank cs) with
    | some rest => skipBlankLines n rest
    | none => skipBlank cs

/-- The rest after a backslash that joins lines: blanks, a line end, and further blank lines. -/
def skipJoin? (cs : List Char) : Option (List Char) :=
  (lineEnd? (skipBlank cs)).map fun rest => skipBlankLines (rest.length + 1) rest

def readLongBasic : (fuel : Nat) → List Char → Option (List Char × List Char)
  | 0, _ => none
  | _ + 1, [] => none
  | n + 1, '"' :: cs => do
    let (quotes, last, cs) ← splitQuotes '"' ('"' :: cs)
    if last then return (quotes, cs)
    else
      let (s, cs) ← readLongBasic n cs
      return (quotes ++ s, cs)
  | n + 1, '\\' :: cs =>
    match skipJoin? cs with
    | some cs => readLongBasic n cs
    | none => do
      let (c, cs) ← readEscape cs
      let (s, cs) ← readLongBasic n cs
      return (c :: s, cs)
  | n + 1, c :: cs => do
    match lineEnd? (c :: cs) with
    | some cs =>
      let (s, cs) ← readLongBasic n cs
      return ('\n' :: s, cs)
    | none =>
      if isBasicChar c then
        let (s, cs) ← readLongBasic n cs
        return (c :: s, cs)
      else none

def readLongLiteral : (fuel : Nat) → List Char → Option (List Char × List Char)
  | 0, _ => none
  | _ + 1, [] => none
  | n + 1, '\'' :: cs => do
    let (quotes, last, cs) ← splitQuotes '\'' ('\'' :: cs)
    if last then return (quotes, cs)
    else
      let (s, cs) ← readLongLiteral n cs
      return (quotes ++ s, cs)
  | n + 1, c :: cs => do
    match lineEnd? (c :: cs) with
    | some cs =>
      let (s, cs) ← readLongLiteral n cs
      return ('\n' :: s, cs)
    | none =>
      if isLiteralChar c then
        let (s, cs) ← readLongLiteral n cs
        return (c :: s, cs)
      else none

def readLine? : List Char → Option (List Char × List Char)
  | '"' :: cs => readBasic (cs.length + 1) cs
  | '\'' :: cs => readLiteral cs
  | _ => none

def readQuoted? : List Char → Option (List Char × List Char)
  | '"' :: '"' :: '"' :: cs => readLongBasic (cs.length + 1) (skipFirstLineEnd cs)
  | '\'' :: '\'' :: '\'' :: cs => readLongLiteral (cs.length + 1) (skipFirstLineEnd cs)
  | cs => readLine? cs

end RingOverlay.Toml
