/-!
Characters that count as white space, and texts without them at their ends.
-/

set_option autoImplicit false
set_option relaxedAutoImplicit false

namespace RingOverlay.Text

/-- The numbers of all white space characters: tab to carriage return, the blank, the next-line and the
non-breaking blank, and the blanks and separators of typography. -/
def blanks : List Nat :=
  [0x09, 0x0a, 0x0b, 0x0c, 0x0d, 0x20, 0x85, 0xa0, 0x1680, 0x2000, 0x2001, 0x2002, 0x2003, 0x2004,
   0x2005, 0x2006, 0x2007, 0x2008, 0x2009, 0x200a, 0x2028, 0x2029, 0x202f, 0x205f, 0x3000]

def isBlank (c : Char) : Bool := blanks.contains c.toNat

def trim (cs : List Char) : List Char := ((cs.dropWhile isBlank).reverse.dropWhile isBlank).reverse

end RingOverlay.Text
