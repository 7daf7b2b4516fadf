/-!
# Binary floating point numbers

A finite decimal value is a whole number times a power of two.  `parts` takes
a number apart and `nearest` finds the number closest to a fraction, a tie
going to the even neighbour.
-/

namespace Variants.Decimal

inductive Parts where
  /-- The value is `mantissa * 2 ^ exponent`; `tight` when the next lower number is closer
  than the next higher one. -/
  | finite (negative : Bool) (mantissa : Nat) (exponent : Int) (tight : Bool)
  | infinite (negative : Bool)
  | notANumber
  deriving DecidableEq, Repr

def parts (x : Float) : Parts :=
  let bits := x.toBits.toNat
  let negative := bits / Nat.pow 2 63 == 1
  let scale : Nat := bits / Nat.pow 2 52 % Nat.pow 2 11
  let fraction : Nat := bits % Nat.pow 2 52
  if scale = 2047 then
    if fraction = 0 then .infinite negative else .notANumber
  else if scale = 0 then .finite negative fraction (-1074) false
  else
    .finite negative (Nat.pow 2 52 + fraction) ((scale : Int) - 1075)
      (fraction == 0 && scale != 1)

def roundHalfEven (numerator denominator : Nat) : Nat :=
  let quotient := numerator / denominator
  let twice := 2 * (numerator % denominator)
  if twice < denominator then quotient
  else if twice = denominator then quotient + quotient % 2
  else quotient + 1

def scaleBy (numerator denominator : Nat) (exponent : Int) : Nat × Nat :=
  (numerator * Nat.pow 2 (-exponent).toNat, denominator * Nat.pow 2 exponent.toNat)

def nearestBits (numerator denominator : Nat) : Nat :=
  let estimate : Int := (numerator.log2 : Int) - denominator.log2 - 53
  let quotient (exponent : Int) : Nat :=
    let (above, below) := scaleBy numerator denominator exponent
    above / below
  let exponent : Int := if quotient estimate < Nat.pow 2 53 then estimate else estimate + 1
  let exponent := max exponent (-1074)
  let (above, below) := scaleBy numerator denominator exponent
  let mantissa := roundHalfEven above below
  if mantissa < Nat.pow 2 52 then mantissa
  else
    let scale := (exponent + 1075).toNat
    min ((scale - 1) * Nat.pow 2 52 + mantissa) (2047 * Nat.pow 2 52)

/-- The number closest to `numerator / denominator`; one too large is infinite. -/
def nearest (numerator denominator : Nat) : Float :=
  if numerator = 0 then 0.0
  else Float.ofBits (UInt64.ofNat (nearestBits numerator denominator))

/--
The number closest to `digits * 10 ^ exponent`.  Exponents far outside the
range of floating point numbers are cut, which changes no result.
-/
def nearestScaled (digits : Nat) (exponent : Int) : Float :=
  if digits = 0 then 0.0
  else
    let length : Int := digits.log2 / 3 + 1
    if 400 < exponent then Float.ofBits 0x7FF0000000000000
    else if exponent + length < -400 then 0.0
    else nearest (digits * Nat.pow 10 exponent.toNat) (Nat.pow 10 (-exponent).toNat)

end Variants.Decimal
