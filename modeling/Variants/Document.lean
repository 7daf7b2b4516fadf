import Variants.Document.Properties

/-!
# Documents

A document is a mapping whose root entries declare dimensions or are
properties.  All declarations are read before the first property.
-/

namespace Variants

structure Document where
  dimensions : List Dimension
  declared : List String
  tree : Tree

def Document.parse (document : Value) : Except Error Document :=
  match document.entries? with
  | none => .error .rootNotMapping
  | some root => do
      let declarations ← Declarations.read root
      let tree ← Properties.tree declarations.dimensions root
      return ⟨declarations.dimensions, declarations.declared, tree⟩

end Variants
