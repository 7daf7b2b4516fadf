/-!
# Digits

The values of digit characters, and the number that a list of decimal digits
stands for.
-/

namespace Variants.Text

def digitValue? (c : Char) : Option Nat :=
  if '0' ≤ c && c ≤ '9' then some (c.toNat - '0'.toNat)
  else if 'a' ≤ c && c ≤ 'z' then some (c.toNat - 'a'.toNat + 10)
  else if 'A' ≤ c && c ≤ 'Z' then some (c.toNat - 'A'.toNat + 10)
  else none

def digitIn? (base : Nat) (c : Char) : Option Nat :=
  (digitValue? c).filter (· < base)

def natural? (base : Nat) (digits : List Char) : Option Nat :=
  digits.foldlM (fun number c => (digitIn? base c).map fun digit => number * base + digit) 0

def hexDigit (n : Nat) : Char := "0123456789abcdef".toList.getD n '0'

def readDigits (text : List Char) : List Nat × List Char :=
  ((text.takeWhile Char.isDigit).map fun c => c.toNat - '0'.toNat, text.dropWhile Char.isDigit)

def ofDigits (digits : List Nat) : Nat :=
  digits.foldl (fun number digit => 10 * number + digit) 0

end Variants.Text
