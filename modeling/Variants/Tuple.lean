import Variants.Dimension

/-!
# Tuples

A tuple is one variant: for every dimension, in every register, a domain and a
value.  It is tested by conditions as a context and written as a list of
filters, one for each dimension.
-/

namespace Variants

abbrev Tuple := OrderedMap String Fragment

/-! ## Fragments -/

namespace Fragment

/-- One level for the register, one for the domain, and the value below. -/
def toContext (fragment : Fragment) : NestedSet :=
  .map (fragment.entries.map fun (register, selection) =>
    (register.text, .map [(selection.domain, .scalar selection.value)]))

/-- `domain.value` for each register up to the last that is set, with colons between. -/
def expression (fragment : Fragment) : String :=
  let last := (fragment.keys.map (·.index)).foldl max 0
  let segment (index : Nat) :=
    match fragment.get? ⟨index⟩ with
    | some selection => s!"{selection.domain}.{selection.value}"
    | none => ""
  ":".intercalate ((List.range (last + 1)).map segment)

end Fragment

/-! ## Tuples -/

namespace Tuple

def selection? (tuple : Tuple) (dimension : String) (register : Register) : Option Selection :=
  (tuple.get? dimension).bind (·.get? register)

def toContext (tuple : Tuple) : List (String × NestedSet) :=
  tuple.entries.map fun (name, fragment) => (name, Fragment.toContext fragment)

def filters (tuple : Tuple) : List String :=
  tuple.entries.map fun (name, fragment) => s!"{name}={Fragment.expression fragment}"

def text (tuple : Tuple) : String := ",".intercalate tuple.filters

def same (a b : Tuple) : Bool :=
  a.size == b.size && a.entries.all fun (name, fragment) =>
    match b.get? name with
    | none => false
    | some other => fragment.sameEntries other

end Tuple

end Variants
