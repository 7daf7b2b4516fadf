import Variants.Brackets.Scan
import Variants.Expression

/-!
# Annotated keys

A mapping key may end in bracketed expressions of several dimensions.  Reading
it gives the key without them and the conditions they state.
-/

namespace Variants

structure KeyReading where
  text : List Char
  /-- Only blanks may stand from here on. -/
  nameEnd : Nat
  conditions : List Condition

namespace KeyReading

def ofKey (key : String) : KeyReading := ⟨key.toList, key.toList.length, []⟩

def addExpression (key : String) (dimension : Dimension) (conditions : List Condition)
    (expression : List Char) : Except Error (List Condition) :=
  match Text.trim expression with
  | [] => .ok conditions
  | name => do
      let more ← (Expression.conditions dimension name).mapError (.inKey key)
      return Condition.merge conditions more

def strip (key : String) (reading : KeyReading) (dimension : Dimension) :
    Except Error KeyReading := do
  let excision := dimension.brackets.excise reading.text
  let conditions ←
    excision.expressions.foldlM (addExpression key dimension) reading.conditions
  if excision.closed then
    return {
      text := excision.text
      nameEnd := (excision.first.map (min reading.nameEnd)).getD reading.nameEnd
      conditions }
  else throw (.unterminated key dimension.name)

end KeyReading

/-- The key without its bracketed expressions, not trimmed, and the conditions of all of them. -/
def parseKey (dimensions : List Dimension) (key : String) :
    Except Error (String × List Condition) := do
  let reading ← dimensions.foldlM (KeyReading.strip key) (.ofKey key)
  if (reading.text.drop reading.nameEnd).all Text.isBlank then
    return (String.ofList reading.text, reading.conditions)
  else throw (.trailingGarbage key)

def isAnonymous (name : List Char) : Bool := name.isEmpty || name == ['-']

end Variants
