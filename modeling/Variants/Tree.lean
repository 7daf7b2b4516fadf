import Variants.Condition
import Variants.Value

/-!
# Property trees

The mappings and arrays of a document, each a node of one table.  Nodes refer
to their children by position, and children come before their parents.
-/

namespace Variants

inductive Child where
  | node (id : Nat)
  | scalar (value : Value)
  deriving Inhabited

structure MapEntry where
  /-- An entry without a key stands for the whole mapping. -/
  key : Option String
  child : Child
  conditions : List Condition

structure ArrayEntry where
  child : Child
  conditions : List Condition

inductive Node where
  | map (entries : List MapEntry)
  | array (entries : List ArrayEntry)
  deriving Inhabited

structure Tree where
  nodes : Array Node
  root : Nat

namespace Tree

def size (tree : Tree) : Nat := tree.nodes.size

def rootNode? (tree : Tree) : Option Node := tree.nodes[tree.root]?

end Tree

end Variants
