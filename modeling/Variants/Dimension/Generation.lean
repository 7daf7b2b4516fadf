import Variants.Dimension

/-!
# Fragments of a dimension

A fragment sets every register of a dimension to a value that some item offers.
Registers combine freely; an item counts when its conditions hold in the
context of the dimensions set so far.
-/

namespace Variants.Dimension

def allowedItems (d : Dimension) (mode : Containment) (context : List (String × NestedSet))
    (register : Register) : List Item :=
  (d.itemsOf register).filter fun item => allHold mode context item.conditions

/-- What the register can be set to, once for every item and position that offers it. -/
def selections (d : Dimension) (mode : Containment) (context : List (String × NestedSet))
    (register : Register) : List Selection :=
  (d.allowedItems mode context register).flatMap fun item =>
    item.values.map fun value => ⟨item.domain, value⟩

def extend (d : Dimension) (mode : Containment) (context : List (String × NestedSet)) :
    List Register → Fragment → List Fragment
  | [], fragment => [fragment]
  | register :: rest, fragment =>
      (d.selections mode context register).flatMap fun selection =>
        d.extend mode context rest (fragment.insert register selection)

/-- A dimension without items has no fragment at all. -/
def fragments (d : Dimension) (mode : Containment) (context : List (String × NestedSet)) :
    List Fragment :=
  match d.registers with
  | [] => []
  | registers => d.extend mode context registers OrderedMap.empty

end Variants.Dimension
