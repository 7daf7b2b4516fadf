import Variants.Value

/-!
# Serialized values

What a value hands over to be written, in whatever format.  Containers announce
how many parts they have before they hand over the first.
-/

namespace Variants

inductive Serialized where
  | unit
  | boolean (value : Bool)
  | integer (value : Int64)
  | decimal (value : Float)
  | string (text : String)
  | sequence (size : Nat) (items : List Serialized)
  | mapping (size : Nat) (entries : List (String × Serialized))

namespace Value

mutual

def serialize : Value → Serialized
  | .null => .unit
  | .boolean value => .boolean value
  | .integer value => .integer value
  | .decimal value => .decimal value
  | .string text => .string text
  | .array items => .sequence items.length (serializeItems items)
  | .object entries => .mapping entries.length (serializeEntries entries)

def serializeItems : List Value → List Serialized
  | [] => []
  | item :: rest => serialize item :: serializeItems rest

def serializeEntries : List (String × Value) → List (String × Serialized)
  | [] => []
  | (key, value) :: rest => (key, serialize value) :: serializeEntries rest

end

end Value

end Variants
