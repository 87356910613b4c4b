import RingOverlay.Text.Unseen
/-!
Characters and texts between quotes, as they stand in messages. Line breaks and other characters
that cannot be seen are written with a backslash.
-/

set_option autoImplicit false
set_option relaxedAutoImplicit false

namespace RingOverlay.Quoted

def codePoint (c : Char) : List Char := Nat.toDigits 16 c.toNat

def byCode (c : Char) : List Char := ['\\', 'u', '\x7b'] ++ codePoint c ++ ['\x7d']

def escape (quote c : Char) : List Char :=
  if c = '\x00' then ['\\', '0']
  else if c = '\t' then ['\\', 't']
  else if c = '\r' then ['\\', 'r']
  else if c = '\n' then ['\\', 'n']
  else if c = '\\' ∨ c = quote then ['\\', c]
  else if Text.isUnseen c then byCode c
  else [c]

def char (c : Char) : String := String.ofList ('\'' :: escape '\'' c ++ ['\''])

def string (s : String) : String := String.ofList ('"' :: s.toList.flatMap (escape '"') ++ ['"'])

end RingOverlay.Quoted
