import Variants.Decimal.Shortest

/-!
# Layouts of decimal numbers

A layout says how the shortest digits of a number are written: how a tie is
broken, which exponents are written positionally, and the texts of the numbers
that have no digits.
-/

namespace Variants.Decimal

structure Layout where
  tie : Tie
  /-- The decimal exponents written without an exponent mark; `none` for all of them. -/
  positional : Option (Int × Int)
  keepsPoint : Bool
  plusSign : Bool
  notANumber : String
  infinity : String
  negativeInfinity : String

namespace Layout

/-- Digits with the point `exponent + 1` places after the start of the first one. -/
def writePositional (layout : Layout) (digits : List Char) (exponent : Int) : List Char :=
  if exponent < 0 then
    '0' :: '.' :: (List.replicate (-exponent - 1).toNat '0' ++ digits)
  else
    let width := exponent.toNat + 1
    let whole := digits.take width ++ List.replicate (width - digits.length) '0'
    match digits.drop width with
    | [] => if layout.keepsPoint then whole ++ ['.', '0'] else whole
    | fraction => whole ++ '.' :: fraction

def writeScientific (layout : Layout) (digits : List Char) (exponent : Int) : List Char :=
  let sign := if exponent < 0 then ['-'] else if layout.plusSign then ['+'] else []
  let fraction :=
    match digits.drop 1 with
    | [] => []
    | rest => '.' :: rest
  digits.take 1 ++ fraction ++ 'e' :: (sign ++ (toString exponent.natAbs).toList)

def writeDigits (layout : Layout) (number : Digits) : List Char :=
  let digits := (toString number.digits).toList
  let exponent := number.exponent + digits.length - 1
  match layout.positional with
  | none => layout.writePositional digits exponent
  | some (low, high) =>
      if low ≤ exponent && exponent ≤ high then layout.writePositional digits exponent
      else layout.writeScientific digits exponent

def write (layout : Layout) (x : Float) : List Char :=
  match parts x with
  | .notANumber => layout.notANumber.toList
  | .infinite negative =>
      (if negative then layout.negativeInfinity else layout.infinity).toList
  | .finite negative mantissa exponent tight =>
      let text := layout.writeDigits (shortest layout.tie mantissa exponent tight)
      if negative then '-' :: text else text

end Layout

/-! ## The layouts in use -/

def plain : Layout where
  tie := .upward
  positional := none
  keepsPoint := false
  plusSign := false
  notANumber := "NaN"
  infinity := "inf"
  negativeInfinity := "-inf"

/-- Decimals in written documents always show that they are decimals; what has no digits is null. -/
def serialized : Layout where
  tie := .toEven
  positional := some (-5, 15)
  keepsPoint := true
  plusSign := true
  notANumber := "null"
  infinity := "null"
  negativeInfinity := "null"

def outlined : Layout where
  tie := .upward
  positional := some (-4, 15)
  keepsPoint := true
  plusSign := false
  notANumber := "NaN"
  infinity := "inf"
  negativeInfinity := "-inf"

end Variants.Decimal
