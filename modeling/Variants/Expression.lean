import Variants.Dimension.Resolution
import Variants.Text.Blank

/-!
# Expressions

Annotations, declaration keys and filters share one grammar: segments between
colons, one for each register from the first on, and empty where a register is
left out.  A comma is never allowed.
-/

namespace Variants.Expression

def segments (expression : List Char) : Except Error (List (Register × List Char)) :=
  if ',' ∈ expression then .error (.commaInExpression (String.ofList expression))
  else
    .ok <| ((Text.splitAll ':' expression).map Text.trim).zipIdx.filterMap fun segment =>
      if segment.1.isEmpty then none else some (⟨segment.2⟩, segment.1)

def conditions (dimension : Dimension) (expression : List Char) :
    Except Error (List Condition) := do
  let segments ← segments expression
  segments.mapM fun (register, name) => do
    let domains ← dimension.resolve register name
    return ⟨dimension.name, register, domains⟩

def slot (expression : List Char) : Except Error (Register × String) := do
  match ← segments expression with
  | [(register, domain)] => return (register, String.ofList domain)
  | _ => throw (.registerCount (String.ofList expression))

/-! ## Filters -/

def splitFilter? (filter : String) : Option (String × List Char) :=
  match Text.splitOnce '=' filter.toList with
  | some (name, expression) =>
      if name.isEmpty || expression.isEmpty then none
      else some (String.ofList name, expression)
  | none => none

/-- The conditions of one filter.  Of two dimensions with one name the later is meant. -/
def filterConditions (dimensions : List Dimension) (filter : String) :
    Except Error (List Condition) :=
  match splitFilter? filter with
  | none => .error (.malformedFilter filter)
  | some (name, expression) =>
      match dimensions.reverse.find? (·.name == name) with
      | none => .error (.inFilter filter (.unknownDimension name))
      | some dimension => (conditions dimension expression).mapError (.inFilter filter)

def filtersConditions (dimensions : List Dimension) (filters : List String) :
    Except Error (List Condition) :=
  (filters.mapM (filterConditions dimensions)).map List.flatten

end Variants.Expression
