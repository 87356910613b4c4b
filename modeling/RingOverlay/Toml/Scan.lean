/-!
The characters of configuration texts: blanks, line ends and comments between the parts of a text.
Readers take the characters that remain and return what they read and the rest.
-/

set_option autoImplicit false
set_option relaxedAutoImplicit false

namespace RingOverlay.Toml

def isBlank (c : Char) : Bool := c = ' ' || c = '\t'

def isCommentChar (c : Char) : Bool := c = '\t' || (0x20 ≤ c.toNat && c.toNat != 0x7f)

def isBareKeyChar (c : Char) : Bool := c.isAlphanum || c = '-' || c = '_'

def isHexDigit (c : Char) : Bool := c.isDigit || ('a' ≤ c && c ≤ 'f') || ('A' ≤ c && c ≤ 'F')

def skipBlank (cs : List Char) : List Char := cs.dropWhile isBlank

def lineEnd? : List Char → Option (List Char)
  | '\n' :: cs => some cs
  | '\r' :: '\n' :: cs => some cs
  | _ => none

def skipComment : List Char → List Char
  | '#' :: cs => cs.dropWhile isCommentChar
  | cs => cs

/-- The rest after what may follow an entry on its line: blanks, a comment, and the end of the line or
of the text. -/
def finishLine? (cs : List Char) : Option (List Char) :=
  match skipComment (skipBlank cs) with
  | [] => some []
  | cs => lineEnd? cs

/-- The rest after blanks, line ends and comments that are followed by a line end. -/
def skipSpace : (fuel : Nat) → List Char → List Char
  | 0, cs => cs
  | n + 1, cs =>
    let cs := skipBlank cs
    match lineEnd? (skipComment cs) with
    | some rest => skipSpace n rest
    | none => cs

def skipSpaces (cs : List Char) : List Char := skipSpace cs.length cs

end RingOverlay.Toml
