/-!
# Registers

A register is a numbered slot of a dimension; it is written `R` and its number.
-/

namespace Variants

structure Register where
  index : Nat
  deriving DecidableEq, Repr, Inhabited

def Register.text (register : Register) : String := "R" ++ toString register.index

end Variants
