/-!
# Binary floating point

Finite binary floating-point numbers of 64 bits, held as `±significand · 2 ^ exponent`, with the
arithmetic that texts of numbers need: rounding an exact quotient, scaling by a power of ten,
comparison and truncation, and the decimals that numbers are written as. Everything is exact
natural-number arithmetic, so each operation can be reasoned about; infinities and not-a-number
have no representation.

## Canonical values

A value made by `ofRatio?` is *canonical*: its significand has 53 bits, or its exponent is the
least one. The two zeros are different values that compare equal.

## Writing

A number is written with the fewest digits that read back as the same number, positionally while
the exponent of the first digit lies in a fixed range and with an exponent otherwise. A positional
text always has a point, so that it cannot be mistaken for an integer.
-/

namespace ModelCatalog

/-! ## Arithmetic -/

/-- The finite number `±significand · 2 ^ exponent`. -/
structure Binary64 where
  /-- The sign, which zeros have too. -/
  negative : Bool
  significand : Nat
  exponent : Int
  deriving DecidableEq, Repr

/-- A quotient rounded to an integer, a half to the even neighbour. -/
def roundQuotient (num den : Nat) : Nat :=
  let floor := num / den
  let rest := 2 * (num % den)
  if rest < den || (rest == den && floor % 2 == 0) then floor else floor + 1

namespace Binary64

/-- The least exponent, that of the subnormal numbers. -/
def minExponent : Int := -1074

/-- The greatest exponent. -/
def maxExponent : Int := 971

/-- The least significand of 53 bits, `2 ^ 52`. -/
def hiddenBit : Nat := 4503599627370496

/-- The zero of a sign. -/
def zero (negative : Bool) : Binary64 := ⟨negative, 0, minExponent⟩

def one : Binary64 := ⟨false, hiddenBit, -52⟩

/-- Whether the value is zero, of either sign. -/
def isZero (x : Binary64) : Bool := x.significand == 0

def neg (x : Binary64) : Binary64 := { x with negative := !x.negative }

/-- The quotient `num / (den · 2 ^ e)` as numerator and denominator. -/
def shiftRatio (num den : Nat) (e : Int) : Nat × Nat :=
  if 0 ≤ e then (num, den * Nat.pow 2 e.toNat) else (num * Nat.pow 2 (-e).toNat, den)

/-- The exponent at which a positive quotient has a significand of 53 bits, or the least exponent
if that is greater. -/
def exponentOf (num den : Nat) : Int :=
  let guess := (num.log2 : Int) - (den.log2 : Int) - 53
  let (n, d) := shiftRatio num den guess
  let e := if n < 2 * hiddenBit * d then guess else guess + 1
  max e minExponent

/-- The number nearest to `num / den`, ties to the even significand; `none` if it is too large. -/
def ofRatio? (negative : Bool) (num den : Nat) : Option Binary64 :=
  if num = 0 then some (zero negative) else
    let e := exponentOf num den
    let (n, d) := shiftRatio num den e
    let m := roundQuotient n d
    let (m, e) := if m = 2 * hiddenBit then (hiddenBit, e + 1) else (m, e)
    if e ≤ maxExponent then some ⟨negative, m, e⟩ else none

/-- The magnitude as numerator and denominator. -/
def ratio (x : Binary64) : Nat × Nat := shiftRatio x.significand 1 (-x.exponent)

def ofInt? (n : Int) : Option Binary64 := ofRatio? (n < 0) n.natAbs 1

/-- The number nearest to `10 ^ k`, for `k ≤ 308`. -/
def powTen (k : Nat) : Binary64 := (ofRatio? false (Nat.pow 10 k) 1).getD one

/-- The rounded product with the number nearest to `10 ^ k`. -/
def mulPowTen? (x : Binary64) (k : Nat) : Option Binary64 :=
  let (n, d) := x.ratio
  let (n', d') := (powTen k).ratio
  ofRatio? x.negative (n * n') (d * d')

/-- The rounded quotient by the number nearest to `10 ^ k`. -/
def divPowTen (x : Binary64) (k : Nat) : Binary64 :=
  let (n, d) := x.ratio
  let (n', d') := (powTen k).ratio
  (ofRatio? x.negative (n * d') (d * n')).getD x

/-- Scale by a power of ten in the steps that the powers up to `10 ^ 308` allow, rounding after
each. A positive exponent above 308 is too large for any number but zero; three divisions by
`10 ^ 308` bring every integer of 64 bits to zero. -/
def scaleTen? (x : Binary64) (e : Int) : Nat → Option Binary64
  | 0 => some (zero x.negative)
  | fuel + 1 =>
    if e.natAbs ≤ 308 then
      if 0 ≤ e then x.mulPowTen? e.natAbs else some (x.divPowTen e.natAbs)
    else if x.isZero then some x
    else if 0 < e then none
    else (x.divPowTen 308).scaleTen? (e + 308) fuel

/-- The signed significand at an exponent not above that of the number. -/
def alignedAt (x : Binary64) (e : Int) : Int :=
  let magnitude : Int := (x.significand * Nat.pow 2 (x.exponent - e).toNat : Nat)
  if x.negative then -magnitude else magnitude

/-- Comparison of values; the two zeros are equal. -/
def le (x y : Binary64) : Bool :=
  let e := min x.exponent y.exponent
  x.alignedAt e ≤ y.alignedAt e

/-- The integral part, fractions cut off towards zero. -/
def truncate (x : Binary64) : Int :=
  let (n, d) := x.ratio
  let magnitude : Int := (n / d : Nat)
  if x.negative then -magnitude else magnitude

end Binary64

/-! ## Shortest decimals

The reals that round to a number form an interval around it, ends included if the significand is
even. For one, two, … digits the value has two neighbours on the decimal grid of that many digits;
the first grid with a neighbour inside the interval gives the digits, the nearer neighbour wins, and
a tie goes to the even one. Seventeen digits always suffice. -/

/-- The decimal number `0.d₁d₂… · 10 ^ (exponent + 1)`: its first digit stands for multiples of
`10 ^ exponent`. -/
structure Decimal where
  digits : List Char
  exponent : Int
  deriving DecidableEq, Repr

/-- The decimal digits of a number, most significant first. -/
def decimalDigits (n : Nat) : List Char := Nat.toDigits 10 n

/-- The greatest `e` with `10 ^ e ≤ num / den`, for a positive quotient. -/
def floorLogTen (num den : Nat) : Int :=
  if den ≤ num then (decimalDigits (num / den)).length - 1
  else -((decimalDigits ((den + num - 1) / num - 1)).length : Int)

namespace Binary64

/-- The interval of reals that round to a positive number, as numerators over one denominator:
lower end, value, upper end. Below the least significand of 53 bits the spacing halves. -/
def roundingInterval (x : Binary64) : (Nat × Nat × Nat) × Nat :=
  let (unitNum, unitDen) := shiftRatio 1 4 (-x.exponent)
  let below := if x.significand == hiddenBit && minExponent < x.exponent then 1 else 2
  ((unitNum * (4 * x.significand - below), unitNum * (4 * x.significand),
    unitNum * (4 * x.significand + 2)), unitDen)

/-- Scale the numerator or the denominator so that the quotient counts units of `10 ^ e`. -/
def inUnits (num den : Nat) (e : Int) : Nat × Nat :=
  if 0 ≤ e then (num, den * Nat.pow 10 e.toNat) else (num * Nat.pow 10 (-e).toNat, den)

/-- The best neighbour of the value on the grid of multiples of `10 ^ e`, if one lies in the
interval. -/
def gridPoint? (x : Binary64) (e : Int) : Option Nat :=
  let ((low, value, high), den) := x.roundingInterval
  let (value', den') := inUnits value den e
  let (low', _) := inUnits low den e
  let (high', _) := inUnits high den e
  let even := x.significand % 2 == 0
  let inside (n : Nat) : Bool :=
    (low' < n * den' || (even && low' == n * den')) &&
      (n * den' < high' || (even && n * den' == high'))
  let floor := value' / den'
  match inside floor, inside (floor + 1) with
  | true, true => some (roundQuotient value' den')
  | true, false => some floor
  | false, true => some (floor + 1)
  | false, false => none

/-- Search the grids of `count`, `count + 1`, … digits; `top` is the exponent of the first digit of
the value. -/
def shortestFrom (x : Binary64) (top : Int) : Nat → Nat → Nat × Int
  | _, 0 => (0, top)
  | count, fuel + 1 =>
    let e := top - (count : Int) + 1
    match x.gridPoint? e with
    | some n => (n, e)
    | none => shortestFrom x top (count + 1) fuel

/-- The shortest decimal of a positive number, without trailing zeros. -/
def shortest (x : Binary64) : Decimal :=
  let (num, den) := x.ratio
  let (n, e) := x.shortestFrom (floorLogTen num den) 1 17
  let digits := decimalDigits n
  ⟨(digits.reverse.dropWhile (· == '0')).reverse, e + digits.length - 1⟩

end Binary64

/-! ## Layouts -/

namespace Decimal

def leastPositional : Int := -5

def greatestPositional : Int := 15

private def zeros (n : Nat) : List Char := List.replicate n '0'

/-- Digits around a point, with `.0` for an integral value. -/
def positional (d : Decimal) : List Char :=
  if d.exponent < 0 then
    '0' :: '.' :: zeros ((-d.exponent).toNat - 1) ++ d.digits
  else
    let whole := d.exponent.toNat + 1
    let front := d.digits.take whole
    let back := d.digits.drop whole
    front ++ zeros (whole - front.length) ++ '.' :: (if back.isEmpty then ['0'] else back)

/-- One digit, the others behind a point, and a signed exponent. -/
def scientific (d : Decimal) : List Char :=
  let front := d.digits.take 1
  let back := d.digits.drop 1
  let sign := if d.exponent < 0 then '-' else '+'
  front ++ (if back.isEmpty then [] else '.' :: back) ++
    'e' :: sign :: decimalDigits d.exponent.natAbs

/-- The layout that the exponent calls for. -/
def text (d : Decimal) : List Char :=
  if leastPositional ≤ d.exponent && d.exponent ≤ greatestPositional then d.positional
  else d.scientific

end Decimal

/-- The text of a floating-point number; zeros keep their sign. -/
def Binary64.toText (x : Binary64) : String :=
  let magnitude := if x.isZero then ['0', '.', '0'] else x.shortest.text
  String.ofList (if x.negative then '-' :: magnitude else magnitude)

end ModelCatalog
