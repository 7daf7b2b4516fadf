import Variants.Decimal.Layout
import Variants.OrderedMap

/-!
# Values

The data that documents hold and that products consist of.  Objects keep the
order of their entries.  Two values are the same when they differ in that order
only; an integer is never the same as a decimal.
-/

namespace Variants

inductive Value where
  | null
  | boolean (value : Bool)
  | integer (value : Int64)
  | decimal (value : Float)
  | string (text : String)
  | array (items : List Value)
  | object (entries : List (String × Value))
  deriving Inhabited

namespace Value

/-- The text of a scalar, as which dimension values are compared; containers have none. -/
def scalarText? : Value → Option String
  | .null => some ""
  | .boolean value => some (if value then "true" else "false")
  | .integer value => some (toString value.toInt)
  | .decimal value => some (String.ofList (Decimal.plain.write value))
  | .string text => some text
  | .array _ => none
  | .object _ => none

def entries? : Value → Option (List (String × Value))
  | .object entries => some entries
  | _ => none

def ofStrings (texts : List String) : Value := .array (texts.map .string)

/-! ## Sameness -/

mutual

def same : Value → Value → Bool
  | .null, .null => true
  | .boolean a, .boolean b => a == b
  | .integer a, .integer b => a == b
  | .decimal a, .decimal b => a == b
  | .string a, .string b => a == b
  | .array a, .array b => sameItems a b
  | .object a, .object b => a.length == b.length && sameEntries a b
  | _, _ => false

def sameItems : List Value → List Value → Bool
  | [], [] => true
  | a :: as, b :: bs => same a b && sameItems as bs
  | _, _ => false

def sameEntries : List (String × Value) → List (String × Value) → Bool
  | [], _ => true
  | (key, value) :: rest, others =>
      (match Entries.get? key others with
        | none => false
        | some other => same value other) && sameEntries rest others

end

/-! ## Shape -/

mutual

def depth : Value → Nat
  | .array items => depthOfItems items + 1
  | .object entries => depthOfEntries entries + 1
  | _ => 0

def depthOfItems : List Value → Nat
  | [] => 0
  | item :: rest => max (depth item) (depthOfItems rest)

def depthOfEntries : List (String × Value) → Nat
  | [] => 0
  | (_, value) :: rest => max (depth value) (depthOfEntries rest)

end

mutual

def UniqueKeys : Value → Prop
  | .array items => UniqueKeysOfItems items
  | .object entries => (Entries.keys entries).Nodup ∧ UniqueKeysOfEntries entries
  | _ => True

def UniqueKeysOfItems : List Value → Prop
  | [] => True
  | item :: rest => UniqueKeys item ∧ UniqueKeysOfItems rest

def UniqueKeysOfEntries : List (String × Value) → Prop
  | [] => True
  | (_, value) :: rest => UniqueKeys value ∧ UniqueKeysOfEntries rest

end

end Value

end Variants
