import Variants.Decimal.Layout
import Variants.Decimal.Numeral

/-!
# Numbers in JSON text

A numeral without point and exponent is an integer if it fits in 64 bits with a
sign, but `-0` is a decimal.  A decimal takes as many leading digits as fit in
64 bits and is scaled by a power of ten; digits after these only count by their
position, and not even that after the point.
-/

namespace Variants.Json

open Decimal (Numeral)

inductive Number where
  | integer (value : Int64)
  | decimal (value : Float)

/-! ## Integers -/

def integer? (numeral : Numeral) : Option Int :=
  let size := Text.ofDigits numeral.whole
  if !numeral.isWhole then none
  else if numeral.negative then
    if 0 < size && size ≤ Nat.pow 2 63 then some (-(size : Int)) else none
  else if size < Nat.pow 2 63 then some size
  else none

/-! ## Decimals -/

/-- Append digits while the number fits in 64 bits; the second part counts them. -/
def absorb (number : Nat) : List Nat → Nat × Nat
  | [] => (number, 0)
  | digit :: rest =>
      if 10 * number + digit < Nat.pow 2 64 then
        let (result, count) := absorb (10 * number + digit) rest
        (result, count + 1)
      else (number, 0)

def powerOfTen (exponent : Nat) : Float := Decimal.nearest (Nat.pow 10 exponent) 1

def divideByPower (x : Float) (exponent : Nat) : Float :=
  if exponent ≤ 308 then x / powerOfTen exponent
  else if x == 0.0 then x
  else divideByPower (x / powerOfTen 308) (exponent - 308)
  termination_by exponent

def scaled? (significand : Nat) (exponent : Int) : Option Float :=
  let x := Decimal.nearest significand 1
  if exponent < 0 then some (divideByPower x (-exponent).toNat)
  else if exponent ≤ 308 then
    let product := x * powerOfTen exponent.toNat
    if product.isInf then none else some product
  else if significand = 0 then some x
  else none

def exponentValue? (digits : List Nat) : Option Nat :=
  if Text.ofDigits digits < Nat.pow 2 31 then some (Text.ofDigits digits) else none

def excessDigits (number : Nat) : List Nat → Nat
  | [] => 0
  | digit :: rest =>
      if 10 * number + digit < Nat.pow 2 31 then excessDigits (10 * number + digit) rest
      else rest.length

def magnitude? (numeral : Numeral) : Option Float :=
  let (significand, taken) := absorb 0 numeral.whole
  let dropped : Int := (numeral.whole.length : Int) - taken
  let (significand, places) := absorb significand (numeral.fraction.getD [])
  let position := dropped - places
  match numeral.exponent with
  | none => scaled? significand position
  | some (negative, digits) =>
      match exponentValue? digits with
      | some shift =>
          scaled? significand (if negative then position - shift else position + shift)
      | none => if significand = 0 || negative then some 0.0 else none

/-! ## Numbers -/

def number? (numeral : Numeral) : Option Number :=
  match integer? numeral with
  | some number => some (.integer (Int64.ofInt number))
  | none =>
      (magnitude? numeral).map fun magnitude =>
        .decimal (if numeral.negative then -magnitude else magnitude)

end Variants.Json
