import Variants.Config.Generation
import Variants.Report

/-!
# Products of a configuration

Rendering keeps the entries whose conditions hold for the tuple and fills in
the placeholders of strings.  The nodes are rendered in the order of the table,
so the results of the children of a node are at hand.
-/

namespace Variants.Config

def interpolate (config : Config) (tuple : Tuple) (text : String) : Except Error String :=
  Variants.interpolate config.dimensions tuple text

/-! ## Nodes -/

def renderScalar (config : Config) (tuple : Tuple) : Value → Except Error Value
  | .string text => (config.interpolate tuple text).map .string
  | value => .ok value

/-- A child by the results of the nodes before its parent; one that is not there is empty. -/
def renderChild (config : Config) (tuple : Tuple) (results : Array (Except Error Value)) :
    Child → Except Error Value
  | .node id => results.getD id (.ok (.object []))
  | .scalar value => config.renderScalar tuple value

/--
Put a rendered entry into what the mapping is so far.  An entry without a key
takes the place of everything before it, any other needs a mapping to go into.
-/
def place (key : Option String) (value : Value) (result : Option Value) : Except Error Value :=
  match key, result with
  | none, _ => .ok value
  | some key, none => .ok (.object [(key, value)])
  | some key, some (.object entries) => .ok (.object (Entries.insert key value entries))
  | some key, some _ => .error (.keyIntoScalar key)

def renderEntries (render : Child → Except Error Value) :
    List MapEntry → Option Value → Except Error Value
  | [], result => .ok (result.getD (.object []))
  | entry :: rest, result => do
      let value ← render entry.child
      let placed ← place entry.key value result
      renderEntries render rest (some placed)

def activeEntries (config : Config) (context : List (String × NestedSet))
    (entries : List MapEntry) : List MapEntry :=
  entries.filter fun entry => allHold config.containment context entry.conditions

def activeItems (config : Config) (context : List (String × NestedSet))
    (entries : List ArrayEntry) : List ArrayEntry :=
  entries.filter fun entry => allHold config.containment context entry.conditions

def renderNode (config : Config) (tuple : Tuple) (context : List (String × NestedSet))
    (results : Array (Except Error Value)) : Node → Except Error Value
  | .map entries =>
      renderEntries (config.renderChild tuple results) (config.activeEntries context entries) none
  | .array entries =>
      ((config.activeItems context entries).mapM fun entry =>
        config.renderChild tuple results entry.child).map .array

/-! ## Trees -/

def renderNodes (config : Config) (tuple : Tuple) (nodes : Array Node) :
    Array (Except Error Value) :=
  let context := Tuple.toContext tuple
  nodes.foldl
    (fun results node => results.push (config.renderNode tuple context results node)) #[]

def render (config : Config) (tuple : Tuple) : Except Error Value :=
  (config.renderNodes tuple config.tree.nodes).getD config.tree.root (.ok (.object []))

def products (config : Config) : Except Error (List Product) :=
  config.generate.mapM fun variant => do
    let tree ← config.render variant
    return ⟨variant, tree⟩

end Variants.Config
