import Variants.Key
import Variants.Value

/-!
# Declarations of dimensions

A root key with a slash declares a dimension: the name before the first slash,
the marker after it.  Its value nests keys above lists of values.  On the way to
each list exactly one key names the register and domain, and every key may state
conditions on dimensions declared before.
-/

namespace Variants

def splitDeclaration? (key : String) : Option (String × String) :=
  (Text.splitOnce '/' key.toList).map fun (name, marker) =>
    (String.ofList name, String.ofList marker)

/-! ## Items of one declaration -/

/-- An item whose register and domain an enclosing key may still name. -/
structure PendingItem where
  slot : Option (Register × String)
  values : List String
  conditions : List Condition
  origin : String

namespace PendingItem

def inherit (conditions : List Condition) (item : PendingItem) : PendingItem :=
  { item with conditions := Condition.merge conditions item.conditions }

def assign (dimension key : String) (slot : Register × String) (item : PendingItem) :
    Except Error PendingItem :=
  match item.slot with
  | some _ => .error (.domainRedeclared dimension key)
  | none => .ok { item with slot := some slot }

def toItem (dimension : String) (item : PendingItem) : Except Error Item :=
  match item.slot with
  | some (register, domain) => .ok ⟨register, domain, item.values, item.conditions⟩
  | none => .error (.missingDomain dimension item.origin)

end PendingItem

def assignSlot (dimension key : String) (name : List Char) (items : List PendingItem) :
    Except Error (List PendingItem) :=
  if isAnonymous name then .ok items
  else do
    let slot ← (Expression.slot name).mapError (.inKey key)
    items.mapM (PendingItem.assign dimension key slot)

def scalarTexts (dimension key : String) (values : List Value) : Except Error (List String) :=
  values.mapM fun value =>
    match value.scalarText? with
    | some text => .ok text
    | none => .error (.invalidInitializer dimension key)

mutual

def readInitializer (dimension : String) (known : List Dimension) (key : String)
    (conditions : List Condition) : Value → Except Error (List PendingItem)
  | .object entries =>
      (readInitializers dimension known entries).map (·.map (PendingItem.inherit conditions))
  | .array values =>
      (scalarTexts dimension key values).map fun values => [⟨none, values, conditions, key⟩]
  | _ => .error (.invalidInitializer dimension key)

def readInitializers (dimension : String) (known : List Dimension) :
    List (String × Value) → Except Error (List PendingItem)
  | [] => .ok []
  | (key, value) :: rest => do
      let (name, conditions) ← parseKey known key
      let items ← readInitializer dimension known key conditions value
      let items ← assignSlot dimension key (Text.trim name.toList) items
      let others ← readInitializers dimension known rest
      return items ++ others

end

def readItems (dimension : String) (known : List Dimension) (entries : List (String × Value)) :
    Except Error (List Item) := do
  let items ← readInitializers dimension known entries
  items.mapM (PendingItem.toItem dimension)

/-! ## All declarations -/

/-- Dimensions with wide brackets come first, those of one width in the order of declaration. -/
def insertByWidth (dimension : Dimension) : List Dimension → List Dimension
  | [] => [dimension]
  | other :: rest =>
      if dimension.brackets.width ≤ other.brackets.width then
        other :: insertByWidth dimension rest
      else dimension :: other :: rest

structure Declarations where
  dimensions : List Dimension
  declared : List String

namespace Declarations

def declare (declarations : Declarations) (key name marker : String) (value : Value) :
    Except Error Declarations := do
  if name.isEmpty then throw (.malformedDeclaration key)
  let brackets ← Brackets.parse name marker
  if declarations.dimensions.any (·.name == name) then throw (.duplicateDimension name)
  match declarations.dimensions.find? (·.brackets == brackets) with
  | some existing => throw (.ambiguousBrackets name marker existing.name)
  | none =>
      match value.entries? with
      | none => throw (.invalidInitializer name key)
      | some entries =>
          let items ← readItems name declarations.dimensions entries
          return {
            dimensions :=
              insertByWidth (.ofItems name brackets items) declarations.dimensions
            declared := declarations.declared ++ [name] }

def addEntry (declarations : Declarations) (entry : String × Value) :
    Except Error Declarations :=
  match splitDeclaration? entry.1 with
  | none => .ok declarations
  | some (name, marker) => declarations.declare entry.1 name marker entry.2

def read (root : List (String × Value)) : Except Error Declarations :=
  root.foldlM addEntry ⟨[], []⟩

end Declarations

end Variants
