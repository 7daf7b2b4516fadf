import Variants.Document.Declaration
import Variants.Tree

/-!
# Properties of a document

The root entries without a slash become the property tree.  The nodes below an
entry are appended to the table before the node that holds the entry.
-/

namespace Variants.Properties

def entryKey? (name : List Char) : Option String :=
  if isAnonymous name then none else some (String.ofList name)

mutual

def build (dimensions : List Dimension) (nodes : Array Node) :
    Value → Except Error (Array Node × Child)
  | .object entries => do
      let (nodes, entries) ← buildEntries dimensions nodes entries
      return (nodes.push (.map entries), .node nodes.size)
  | .array items => do
      let (nodes, entries) ← buildItems dimensions nodes items
      return (nodes.push (.array entries), .node nodes.size)
  | scalar => .ok (nodes, .scalar scalar)

def buildEntries (dimensions : List Dimension) (nodes : Array Node) :
    List (String × Value) → Except Error (Array Node × List MapEntry)
  | [] => .ok (nodes, [])
  | (key, value) :: rest => do
      let (name, conditions) ← parseKey dimensions key
      let (nodes, child) ← build dimensions nodes value
      let (nodes, entries) ← buildEntries dimensions nodes rest
      return (nodes, ⟨entryKey? (Text.trim name.toList), child, conditions⟩ :: entries)

def buildItems (dimensions : List Dimension) (nodes : Array Node) :
    List Value → Except Error (Array Node × List ArrayEntry)
  | [] => .ok (nodes, [])
  | item :: rest => do
      let (nodes, child) ← build dimensions nodes item
      let (nodes, entries) ← buildItems dimensions nodes rest
      return (nodes, ⟨child, []⟩ :: entries)

end

def ofRoot (root : List (String × Value)) : List (String × Value) :=
  root.filter fun entry => (splitDeclaration? entry.1).isNone

def tree (dimensions : List Dimension) (root : List (String × Value)) : Except Error Tree := do
  let (nodes, entries) ← buildEntries dimensions #[] (ofRoot root)
  return ⟨nodes.push (.map entries), nodes.size⟩

end Variants.Properties
