import Variants.Decimal.Binary

/-!
# Shortest digits

The fewest decimal digits that read back to the same number.  All arithmetic is
exact.  On the grid of multiples of a power of ten only the two neighbours of
the value have to be tested; the coarsest grid with a neighbour in the interval
that rounds to the value has the fewest digits.
-/

namespace Variants.Decimal

inductive Tie where
  | toEven
  | upward
  deriving DecidableEq, Repr

/-- The value `digits * 10 ^ exponent`. -/
structure Digits where
  digits : Nat
  exponent : Int
  deriving DecidableEq, Repr

def Tie.takesLower (tie : Tie) (lower toLower toUpper : Nat) : Bool :=
  if toLower = toUpper then
    match tie with
    | .toEven => lower % 2 == 0
    | .upward => false
  else toLower < toUpper

/--
The neighbour of `mantissa * 2 ^ exponent` among the multiples of `10 ^ grid`
that reads back.  The interval around the value reaches half a unit up and half
a unit, or a quarter when `tight`, down; its ends belong to it when the mantissa
is even.
-/
def onGrid? (tie : Tie) (mantissa : Nat) (exponent : Int) (tight : Bool) (grid : Int) :
    Option Nat :=
  let factor := Nat.pow 2 (exponent - 2).toNat * Nat.pow 10 (-grid).toNat
  let unit := Nat.pow 2 (2 - exponent).toNat * Nat.pow 10 grid.toNat
  let value := 4 * mantissa * factor
  let low := (4 * mantissa - if tight then 1 else 2) * factor
  let high := (4 * mantissa + 2) * factor
  let closed := mantissa % 2 == 0
  let lower := value / unit
  let upper := lower + 1
  let lowerReads := 0 < lower && (low < lower * unit || (closed && low == lower * unit))
  let upperReads := upper * unit < high || (closed && upper * unit == high)
  if lowerReads && upperReads then
    if tie.takesLower lower (value - lower * unit) (upper * unit - value) then some lower
    else some upper
  else if lowerReads then some lower
  else if upperReads then some upper
  else none

def topGrid (mantissa : Nat) (exponent : Int) : Int :=
  ((mantissa.log2 : Int) + 1 + exponent) * 30103 / 100000 + 2

/-- Twenty-four grids below the top reach far beyond the seventeen digits that always suffice. -/
def shortest (tie : Tie) (mantissa : Nat) (exponent : Int) (tight : Bool) : Digits :=
  let top := topGrid mantissa exponent
  if mantissa = 0 then ⟨0, 0⟩
  else
    ((List.range 24).findSome? fun (below : Nat) =>
      (onGrid? tie mantissa exponent tight (top - below)).map fun digits =>
        ⟨digits, top - below⟩).getD ⟨mantissa, exponent⟩

end Variants.Decimal
