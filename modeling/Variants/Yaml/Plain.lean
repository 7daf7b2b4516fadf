import Variants.Decimal.Numeral
import Variants.Yaml.Error

/-!
# What plain scalars mean

A plain scalar is null, a boolean, an integer or a decimal if it is spelled like
one, and a string otherwise.  Digits after a leading zero are a string.
-/

namespace Variants.Yaml

/-! ## Words -/

def isNullWord (text : String) : Bool :=
  text ∈ ["", "~", "null", "Null", "NULL"]

def booleanWord? (text : String) : Option Bool :=
  if text ∈ ["true", "True", "TRUE"] then some true
  else if text ∈ ["false", "False", "FALSE"] then some false
  else none

/-! ## Integers -/

def takeSign (text : List Char) : Bool × List Char :=
  match text with
  | '-' :: rest => (true, rest)
  | '+' :: rest => (false, rest)
  | rest => (false, rest)

def hasLeadingZero (text : List Char) : Bool :=
  match (takeSign text).2 with
  | '0' :: c :: rest => (c :: rest).all Char.isDigit
  | _ => false

def digits? (base : Nat) (digits : List Char) : Option Nat :=
  if digits.isEmpty then none else Text.natural? base digits

/-- An integer in base ten, or after `0x`, `0o` or `0b` in another base. -/
def integer? (text : List Char) : Option Int :=
  let (negative, digits) := takeSign text
  let size :=
    match digits with
    | '0' :: 'x' :: digits => digits? 16 digits
    | '0' :: 'o' :: digits => digits? 8 digits
    | '0' :: 'b' :: digits => digits? 2 digits
    | digits => if hasLeadingZero text then none else digits? 10 digits
  size.map fun size => if negative then -(size : Int) else size

/-! ## Decimals -/

/-- Digits with or without a point and an exponent, at least one of them before the exponent. -/
def numeral? (text : List Char) : Option Decimal.Numeral :=
  let (negative, text) := takeSign text
  let (whole, text) := Text.readDigits text
  let (fraction, text) :=
    match text with
    | '.' :: rest => Text.readDigits rest
    | _ => ([], text)
  if whole.isEmpty && fraction.isEmpty then none
  else
    let exponent (rest : List Char) : Option Decimal.Numeral :=
      let (down, rest) := takeSign rest
      match Text.readDigits rest with
      | ([], _) => none
      | (digits, []) => some ⟨negative, whole, some fraction, some (down, digits)⟩
      | _ => none
    match text with
    | [] => some ⟨negative, whole, some fraction, none⟩
    | 'e' :: rest => exponent rest
    | 'E' :: rest => exponent rest
    | _ => none

def nearest? (numeral : Decimal.Numeral) : Option Float :=
  let fraction := numeral.fraction.getD []
  let digits := Text.ofDigits (numeral.whole ++ fraction)
  let shift : Int :=
    match numeral.exponent with
    | none => 0
    | some (true, exponent) => -(Text.ofDigits exponent : Int)
    | some (false, exponent) => (Text.ofDigits exponent : Int)
  let size := Decimal.nearestScaled digits (shift - fraction.length)
  if size.isInf then none else some (if numeral.negative then -size else size)

def infinity : Float := Float.ofBits 0x7FF0000000000000

def notANumber : Float := Float.ofBits 0x7FF8000000000000

def decimal? (text : String) : Option Float :=
  if text ∈ [".inf", ".Inf", ".INF", "+.inf", "+.Inf", "+.INF"] then some infinity
  else if text ∈ ["-.inf", "-.Inf", "-.INF"] then some (-infinity)
  else if text ∈ [".nan", ".NaN", ".NAN"] then some notANumber
  else (numeral? text.toList).bind nearest?

/-! ## Scalars -/

def decimalOrString (text : String) : Node :=
  if hasLeadingZero text.toList then .string text
  else ((decimal? text).map Node.decimal).getD (.string text)

/-- Integers with more than 64 bits are refused, those with more than 128 are none of these. -/
def integerNode? (text : List Char) : Option (Except Defect Node) :=
  (integer? text).bind fun value =>
    if -Int.pow 2 63 ≤ value && value < Int.pow 2 64 then some (.ok (.integer value))
    else if -Int.pow 2 127 ≤ value && value < Int.pow 2 128 then some (.error (.hugeInteger value))
    else none

def plainNode (text : String) : Except Defect Node :=
  if isNullWord text then .ok .null
  else
    match booleanWord? text with
    | some value => .ok (.boolean value)
    | none => (integerNode? text.toList).getD (.ok (decimalOrString text))

def coreNode (tag : String) (text : String) : Except Defect Node :=
  match tag with
  | "tag:yaml.org,2002:null" =>
      if isNullWord text && text != "" then .ok .null else .error (.notNull text)
  | "tag:yaml.org,2002:bool" =>
      ((booleanWord? text).map fun value => .ok (.boolean value)).getD (.error (.notBoolean text))
  | "tag:yaml.org,2002:int" => (integerNode? text.toList).getD (.error (.notInteger text))
  | "tag:yaml.org,2002:float" =>
      ((decimal? text).map fun value => .ok (.decimal value)).getD (.error (.notDecimal text))
  | _ => .ok (.string text)

end Variants.Yaml
