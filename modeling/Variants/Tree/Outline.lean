import Variants.Text.Quoted
import Variants.Tree

/-!
# Outlines

An outline shows a tree node by node: a group opens on one line, lists its parts
further in, each with a comma after it, and closes on a line of its own.
-/

namespace Variants

inductive Outline where
  | leaf (text : String)
  | group (opening : String) (parts : List (String × Outline)) (closing : String)

namespace Outline

def indent : List String → List String
  | [] => []
  | [line] => ["    " ++ line ++ ","]
  | line :: next :: rest => ("    " ++ line) :: indent (next :: rest)

mutual

/-- The lines of an outline, the first of them behind a label. -/
def lines (label : String) : Outline → List String
  | .leaf text => [label ++ text]
  | .group opening [] closing => [label ++ opening ++ closing]
  | .group opening (part :: rest) closing =>
      (label ++ opening) :: partLines (part :: rest) ++ [closing]

def partLines : List (String × Outline) → List String
  | [] => []
  | (label, part) :: rest => indent (lines label part) ++ partLines rest

end

def print (outline : Outline) : String := "\n".intercalate (outline.lines "")

/-! ## Parts -/

def string (text : String) : Outline := .leaf (Text.quote text)

def number (n : Nat) : Outline := .leaf (toString n)

def list (items : List Outline) : Outline := .group "[" (items.map fun item => ("", item)) "]"

def wrap (name : String) (content : Outline) : Outline := .group (name ++ "(") [("", content)] ")"

def record (name : String) (fields : List (String × Outline)) : Outline :=
  .group (name ++ " \x7b") (fields.map fun field => (field.1 ++ ": ", field.2)) "\x7d"

def dictionary (entries : List (String × Outline)) : Outline :=
  .group "\x7b" (entries.map fun entry => (Text.quote entry.1 ++ ": ", entry.2)) "\x7d"

end Outline

/-! ## Trees -/

mutual

def Value.outline : Value → Outline
  | .null => .leaf "Null"
  | .boolean value => .wrap "Boolean" (.leaf (if value then "true" else "false"))
  | .integer value => .wrap "Integer" (.leaf (toString value.toInt))
  | .decimal value => .wrap "Decimal" (.leaf (String.ofList (Decimal.outlined.write value)))
  | .string text => .wrap "String" (.string text)
  | .array items => .wrap "Array" (.group "[" (Value.outlineItems items) "]")
  | .object entries => .wrap "Object" (.group "\x7b" (Value.outlineEntries entries) "\x7d")

def Value.outlineItems : List Value → List (String × Outline)
  | [] => []
  | item :: rest => ("", Value.outline item) :: Value.outlineItems rest

def Value.outlineEntries : List (String × Value) → List (String × Outline)
  | [] => []
  | (key, value) :: rest =>
      (Text.quote key ++ ": ", Value.outline value) :: Value.outlineEntries rest

end

namespace Tree

def outlineCondition (condition : Condition) : Outline :=
  .record "Condition" [
    ("dimension", .string condition.dimension),
    ("register", .wrap "Register" (.number condition.register.index)),
    ("domains", .dictionary (condition.domains.entries.map fun (domain, values) =>
      (domain, .list (values.map .string))))]

def outlineId (id : Nat) : Outline := .wrap "NodeId" (.number id)

def outlineChild : Child → Outline
  | .node id => .wrap "Node" (outlineId id)
  | .scalar value => .wrap "Scalar" value.outline

def outlineKey : Option String → Outline
  | none => .leaf "None"
  | some key => .wrap "Some" (.string key)

def outlineNode : Node → Outline
  | .map entries =>
      .wrap "Map" (.list (entries.map fun entry =>
        .record "MapEntry" [
          ("key", outlineKey entry.key),
          ("child", outlineChild entry.child),
          ("conditions", .list (entry.conditions.map outlineCondition))]))
  | .array entries =>
      .wrap "Array" (.list (entries.map fun entry =>
        .record "ArrayEntry" [
          ("child", outlineChild entry.child),
          ("conditions", .list (entry.conditions.map outlineCondition))]))

def outline (tree : Tree) : Outline :=
  .record "Tree" [
    ("nodes", .list (tree.nodes.toList.map outlineNode)),
    ("root", outlineId tree.root)]

end Tree

end Variants
