/-!
Binary floating-point numbers as their bit patterns: 32 bits wide (`Single`) and 64 bits wide
(`Double`). Comparison goes through the position on the number line; reading rounds a decimal to
the nearest value, a half to the even one.
-/

set_option autoImplicit false
set_option relaxedAutoImplicit false

namespace RingOverlay

inductive FloatMagnitude where
  | nan
  | infinite
  /-- The value `mantissa * 2 ^ exponent`; `narrowBelow` holds where the gap to the next smaller
  value is half the gap to the next larger one. -/
  | finite (mantissa : Nat) (exponent : Int) (narrowBelow : Bool)
  deriving DecidableEq, Repr

/-- Splits a magnitude's bits into an exponent field above a fraction of `width` bits. `special` is
the exponent field of the infinities, and `base` the exponent of the least positive value. -/
def FloatMagnitude.ofBits (width special : Nat) (base : Int) (bits : Nat) : FloatMagnitude :=
  let field := bits >>> width
  let fraction := bits % 1 <<< width
  if field = special then
    if fraction = 0 then .infinite else .nan
  else if field = 0 then .finite fraction base false
  else .finite (1 <<< width + fraction) (base + field - 1) (fraction == 0 && field > 1)

structure Single where
  bits : BitVec 32
  deriving DecidableEq, Repr

namespace Single

def low (x : Single) : Nat := x.bits.toNat % 1 <<< 31

def negative (x : Single) : Bool := x.bits.msb

def isNaN (x : Single) : Bool := 0x7f800000 < x.low

/-- The position on the number line, in steps from zero; both zeros stand at `0`. -/
def rank (x : Single) : Int := if x.negative then -(x.low : Int) else x.low

/-- Numeric order; it never holds of a pattern that is no number. -/
def lt (x y : Single) : Bool := !x.isNaN && !y.isNaN && x.rank < y.rank

def le (x y : Single) : Bool := !x.isNaN && !y.isNaN && x.rank ≤ y.rank

/-- Numeric equality: the two zeros are equal, and a pattern that is no number equals nothing. -/
def eq (x y : Single) : Bool := !x.isNaN && !y.isNaN && x.rank == y.rank

def zero : Single := ⟨0⟩

def one : Single := ⟨0x3f800000⟩

/-- The nearest value of the unit interval. What is no number stays as it is. -/
def clampUnit (x : Single) : Single :=
  if x.lt zero then zero else if one.lt x then one else x

def inUnit (x : Single) : Bool := zero.le x && x.le one

def magnitude (x : Single) : FloatMagnitude := .ofBits 23 255 (-149) x.low

def exceeds (x : Single) (n : Nat) : Bool :=
  match x.magnitude with
  | .nan => false
  | .infinite => !x.negative
  | .finite m e _ => !x.negative && n <<< 125 < m <<< (e + 149).toNat

end Single

structure Double where
  bits : BitVec 64
  deriving DecidableEq, Repr

namespace Double

def low (x : Double) : Nat := x.bits.toNat % 1 <<< 63

def negative (x : Double) : Bool := x.bits.msb

def magnitude (x : Double) : FloatMagnitude := .ofBits 52 2047 (-1074) x.low

def half : Double := ⟨0x3fe0000000000000⟩

def infinity : Double := ⟨0x7ff0000000000000⟩

def nan : Double := ⟨0x7ff8000000000000⟩

def neg (x : Double) : Double := ⟨x.bits ^^^ 0x8000000000000000⟩

def exceeds (x : Double) (n : Nat) : Bool :=
  match x.magnitude with
  | .nan => false
  | .infinite => !x.negative
  | .finite m e _ => !x.negative && n <<< 1021 < m <<< (e + 1074).toNat

/-- The quotient of two positive numbers, rounded to the nearest integer, a half to the even one. -/
def roundDiv (num den : Nat) : Nat :=
  let q := num / den
  let r := 2 * (num % den)
  if r < den then q else if den < r then q + 1 else q + q % 2

/-- The nearest value to the quotient of two positive numbers, as an infinity where it is too large. -/
def ofQuotient (num den : Nat) : Double :=
  let e : Int := max ((num.log2 : Int) - den.log2 - 53) (-1074)
  let e := if num <<< (-e).toNat < den <<< (e.toNat + 53) then e else e + 1
  let m := roundDiv (num <<< (-e).toNat) (den <<< e.toNat)
  let bits := (e + 1074).toNat <<< 52 + m
  if infinity.low ≤ bits then infinity else ⟨BitVec.ofNat 64 bits⟩

def ofDecimal (digits : Nat) (exponent : Int) : Double :=
  -- The bounds keep the powers of ten small; beyond them the answer is known.
  let top := (Nat.toDigits 10 digits).length + exponent
  if digits = 0 ∨ top < -330 then ⟨0⟩
  else if 330 < top then infinity
  else ofQuotient (digits * Nat.pow 10 exponent.toNat) (Nat.pow 10 (-exponent).toNat)

def ofInt (n : Int) : Double :=
  if n < 0 then (ofDecimal n.natAbs 0).neg else ofDecimal n.natAbs 0

end Double

end RingOverlay
