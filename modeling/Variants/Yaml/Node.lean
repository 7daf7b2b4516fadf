import Variants.Value

/-!
# YAML nodes

What YAML text stands for: like a value, but integers may have 64 bits without a
sign, mappings may have any keys, and nodes may be tagged.  A node becomes a
value by turning keys into strings and dropping tags.
-/

namespace Variants

namespace Yaml

inductive Node where
  | null
  | boolean (value : Bool)
  | integer (value : Int)
  | decimal (value : Float)
  | string (text : String)
  | sequence (items : List Node)
  | mapping (entries : List (Node × Node))
  | tagged (tag : String) (content : Node)
  deriving Inhabited

def decimalLayout : Decimal.Layout where
  tie := .toEven
  positional := some (-5, 15)
  keepsPoint := true
  plusSign := false
  notANumber := ".nan"
  infinity := ".inf"
  negativeInfinity := "-.inf"

namespace Node

/-! ## Sameness

Two keys of a mapping must not be the same.  All numbers that are not a number
are one key, and nested mappings are compared without their order.
-/

/-- The exclamation mark before the name of a tag may be left out. -/
def tagName (tag : String) : String :=
  match tag.toList with
  | '!' :: c :: rest => String.ofList (c :: rest)
  | _ => tag

mutual

def same : Node → Node → Bool
  | .null, .null => true
  | .boolean a, .boolean b => a == b
  | .integer a, .integer b => a == b
  | .decimal a, .decimal b => a == b || (a.isNaN && b.isNaN)
  | .string a, .string b => a == b
  | .sequence a, .sequence b => sameItems a b
  | .mapping a, .mapping b => a.length == b.length && sameEntries a b
  | .tagged s a, .tagged t b => tagName s == tagName t && same a b
  | _, _ => false

def sameItems : List Node → List Node → Bool
  | [], [] => true
  | a :: as, b :: bs => same a b && sameItems as bs
  | _, _ => false

def sameEntries : List (Node × Node) → List (Node × Node) → Bool
  | [], _ => true
  | (key, value) :: rest, others =>
      (others.any fun other => same key other.1 && same value other.2) && sameEntries rest others

end

def insertEntry (key value : Node) : List (Node × Node) → List (Node × Node)
  | [] => [(key, value)]
  | (first, old) :: rest =>
      if first.same key then (first, value) :: rest
      else (first, old) :: insertEntry key value rest

def ofPairs (pairs : List (Node × Node)) : Node :=
  .mapping (pairs.foldl (fun entries (key, value) => insertEntry key value entries) [])

end Node

end Yaml

namespace Value

/-- An integer that has 64 bits with a sign; any other is a decimal. -/
def ofInteger (value : Int) : Value :=
  if -Int.pow 2 63 ≤ value && value < Int.pow 2 63 then .integer (Int64.ofInt value)
  else
    let magnitude := Decimal.nearest value.natAbs 1
    .decimal (if value < 0 then -magnitude else magnitude)

/-- Containers as keys all become the empty string. -/
def keyText (key : Value) : String := key.scalarText?.getD ""

mutual

def ofNode : Yaml.Node → Value
  | .null => .null
  | .boolean value => .boolean value
  | .integer value => ofInteger value
  | .decimal value => .decimal value
  | .string text => .string text
  | .sequence items => .array (ofNodes items)
  | .mapping entries => .object (Entries.ofList (ofEntries entries))
  | .tagged _ content => ofNode content

def ofNodes : List Yaml.Node → List Value
  | [] => []
  | item :: rest => ofNode item :: ofNodes rest

def ofEntries : List (Yaml.Node × Yaml.Node) → List (String × Value)
  | [] => []
  | (key, value) :: rest => (keyText (ofNode key), ofNode value) :: ofEntries rest

end

end Value

end Variants
