import Variants.Text.Digits

/-!
# Numerals

The parts of a number as it is spelled: digits before and after the point, and
the digits of an exponent.
-/

namespace Variants.Decimal

structure Numeral where
  negative : Bool
  whole : List Nat
  fraction : Option (List Nat)
  exponent : Option (Bool × List Nat)
  deriving DecidableEq, Repr

def Numeral.isWhole (numeral : Numeral) : Bool :=
  numeral.fraction.isNone && numeral.exponent.isNone

end Variants.Decimal
