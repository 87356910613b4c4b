import RingOverlay.Number.Float
/-!
The shortest decimal that identifies a binary float: of all decimals in the interval of reals that
round to the value, one on the coarsest grid of a power of ten, and on that grid the nearest to the
value. `Notation` says how such a decimal is laid out.
-/

set_option autoImplicit false
set_option relaxedAutoImplicit false

namespace RingOverlay

structure Decimal where
  digits : Nat
  exponent : Int
  deriving DecidableEq, Repr

/-- Where a value goes that lies in the middle between two decimals of the same length. -/
inductive DecimalTie where
  | up
  | even
  deriving DecidableEq, Repr

namespace Decimal

/-- The best multiple of `10 ^ grid` among those that round to `m * 2 ^ e`, if there is one. The
numbers are compared in quarters of the value's last place. -/
def onGrid (tie : DecimalTie) (m : Nat) (e : Int) (narrowBelow : Bool) (grid : Int) : Option Decimal :=
  let unit := Nat.pow 10 (-grid).toNat <<< (e - 2).toNat
  let step := Nat.pow 10 grid.toNat <<< (2 - e).toNat
  let value := 4 * m * unit
  let least := (if narrowBelow then 4 * m - 1 else 4 * m - 2) * unit
  let greatest := (4 * m + 2) * unit
  let closed := m % 2 == 0
  let reads (n : Nat) : Bool :=
    (least < n * step || (closed && least == n * step)) &&
      (n * step < greatest || (closed && greatest == n * step))
  let n := value / step
  let below := value - n * step
  let above := (n + 1) * step - value
  let upper := above < below || (above == below && (tie == .up || n % 2 == 1))
  match reads n, reads (n + 1) with
  | true, true => some ⟨if upper then n + 1 else n, grid⟩
  | true, false => some ⟨n, grid⟩
  | false, true => some ⟨n + 1, grid⟩
  | false, false => none

def shortest (tie : DecimalTie) (m : Nat) (e : Int) (narrowBelow : Bool) : Decimal :=
  -- No value reaches `10 ^ top`, and the grid of `2 ^ (e - 2)`'s own decimal places always has one.
  let top := (m.log2 + e + 2).toNat / 3 + 1
  let grids := (List.range (top + (2 - e).toNat + 1)).map fun i => (top : Int) - (i : Nat)
  (grids.findSome? (onGrid tie m e narrowBelow)).getD ⟨m, 0⟩

def digitChars (n : Nat) : List Char := Nat.toDigits 10 n

/-- Positional layout without an exponent; an integral value has no point. -/
def positional (d : Decimal) : List Char :=
  let cs := digitChars d.digits
  if 0 ≤ d.exponent then cs ++ List.replicate d.exponent.toNat '0'
  else
    let places := d.exponent.natAbs
    if places < cs.length then
      cs.take (cs.length - places) ++ '.' :: cs.drop (cs.length - places)
    else '0' :: '.' :: List.replicate (places - cs.length) '0' ++ cs

def scientific (d : Decimal) : List Char :=
  let cs := digitChars d.digits
  let power := d.exponent + cs.length - 1
  let head := match cs with
    | c :: (r :: rest) => c :: '.' :: r :: rest
    | cs => cs
  head ++ 'e' :: (if power < 0 then '-' :: digitChars power.natAbs else digitChars power.natAbs)

/-- Positional layout, with `.0` after an integral value, for values from `10 ^ -5` to below
`10 ^ 16`; scientific layout for all others. -/
def general (d : Decimal) : List Char :=
  let top := d.exponent + (digitChars d.digits).length
  if -5 < top ∧ top ≤ 16 then
    if 0 ≤ d.exponent then d.positional ++ ['.', '0'] else d.positional
  else d.scientific

end Decimal

/-- The text of a 32-bit float: the shortest digits that identify it, never with an exponent. -/
def Single.text (x : Single) : String :=
  let sign := if x.negative then "-" else ""
  match x.magnitude with
  | .nan => "NaN"
  | .infinite => sign ++ "inf"
  | .finite m e narrow =>
    if m = 0 then sign ++ "0"
    else sign ++ String.ofList (Decimal.shortest .up m e narrow).positional

/-- The text of a finite 64-bit float in structured data: the shortest digits that identify it,
in positional or scientific layout by size. -/
def Double.text (x : Double) : String :=
  let sign := if x.negative then "-" else ""
  match x.magnitude with
  | .nan => "null"
  | .infinite => "null"
  | .finite m e narrow =>
    if m = 0 then sign ++ "0.0"
    else sign ++ String.ofList (Decimal.shortest .even m e narrow).general

end RingOverlay
