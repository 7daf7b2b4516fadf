import Variants.Serialized

/-!
# JSON libraries

What is asked of a library for JSON text.  It reads a text as a tree of nodes,
whose numbers are of a type of its own, and it writes what a value hands over.
Keys are strings, so writing cannot fail.
-/

namespace Variants

namespace Json

inductive Node (ν : Type) where
  | null
  | boolean (value : Bool)
  | number (value : ν)
  | string (text : String)
  | array (items : List (Node ν))
  | object (entries : List (String × Node ν))

inductive Style where
  | compact
  /-- Every item on a line of its own, two blanks further in than its container. -/
  | indented
  deriving DecidableEq, Repr

structure Library (ν : Type) where
  integer? : ν → Option Int64
  decimal? : ν → Option Float
  /-- An error is known by its message. -/
  read : String → Except String (Node ν)
  write : Style → Serialized → String

end Json

/-! ## Values of nodes -/

namespace Value

variable {ν : Type} (library : Json.Library ν)

def ofNumber (number : ν) : Value :=
  match library.integer? number with
  | some value => .integer value
  | none => .decimal ((library.decimal? number).getD (0.0 / 0.0))

mutual

def ofJson : Json.Node ν → Value
  | .null => .null
  | .boolean value => .boolean value
  | .number number => ofNumber library number
  | .string text => .string text
  | .array items => .array (ofJsonItems items)
  | .object entries => .object (Entries.ofList (ofJsonEntries entries))

def ofJsonItems : List (Json.Node ν) → List Value
  | [] => []
  | item :: rest => ofJson item :: ofJsonItems rest

def ofJsonEntries : List (String × Json.Node ν) → List (String × Value)
  | [] => []
  | (key, node) :: rest => (key, ofJson node) :: ofJsonEntries rest

end

end Value

end Variants
