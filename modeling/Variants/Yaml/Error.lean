import Variants.Text.Quoted
import Variants.Yaml.Cursor
import Variants.Yaml.Node

/-!
# What can be wrong with YAML text

A fault lies in how the text is laid out; it is reported with the place where it
is noticed and what was being read there.  Other errors lie in what well laid out
text stands for, and are reported with the path to the node.
-/

namespace Variants.Yaml

/-! ## Faults -/

inductive Problem where
  | misplacedEntry
  | misplacedKey
  | misplacedValue
  | missingColon
  | unknownStart
  | missingTagEnd
  | missingTagBracket
  | missingTag
  | badTagEscape
  | badLeadingByte
  | badTrailingByte
  | unknownHandle
  | markInQuotes
  | endInQuotes
  | unknownEscape
  | badHexadecimal
  | badCharacterCode
  | unexpectedColon
  | misplacedTab
  | missingNode
  | missingHyphen
  | missingKey
  | missingListSeparator
  | missingEntrySeparator
  deriving DecidableEq, Repr

def Problem.message : Problem → String
  | .misplacedEntry => "block sequence entries are not allowed in this context"
  | .misplacedKey => "mapping keys are not allowed in this context"
  | .misplacedValue => "mapping values are not allowed in this context"
  | .missingColon => "could not find expected ':'"
  | .unknownStart => "found character that cannot start any token"
  | .missingTagEnd => "did not find expected whitespace or line break"
  | .missingTagBracket => "did not find the expected '>'"
  | .missingTag => "did not find expected tag URI"
  | .badTagEscape => "did not find URI escaped octet"
  | .badLeadingByte => "found an incorrect leading UTF-8 octet"
  | .badTrailingByte => "found an incorrect trailing UTF-8 octet"
  | .unknownHandle => "found undefined tag handle"
  | .markInQuotes => "found unexpected document indicator"
  | .endInQuotes => "found unexpected end of stream"
  | .unknownEscape => "found unknown escape character"
  | .badHexadecimal => "did not find expected hexadecimal number"
  | .badCharacterCode => "found invalid Unicode character escape code"
  | .unexpectedColon => "found unexpected ':'"
  | .misplacedTab => "found a tab character that violates indentation"
  | .missingNode => "did not find expected node content"
  | .missingHyphen => "did not find expected '-' indicator"
  | .missingKey => "did not find expected key"
  | .missingListSeparator => "did not find expected ',' or ']'"
  | .missingEntrySeparator => "did not find expected ',' or '\x7d'"

inductive Context where
  | simpleKey
  | token
  | tag
  | tagText
  | quoted
  | escape
  | plain
  | node
  | blockNode
  | flowNode
  | blockSequence
  | blockMapping
  | flowSequence
  | flowMapping
  deriving DecidableEq, Repr

def Context.message : Context → String
  | .simpleKey => "while scanning a simple key"
  | .token => "while scanning for the next token"
  | .tag => "while scanning a tag"
  | .tagText => "while parsing a tag"
  | .quoted => "while scanning a quoted scalar"
  | .escape => "while parsing a quoted scalar"
  | .plain => "while scanning a plain scalar"
  | .node => "while parsing a node"
  | .blockNode => "while parsing a block node"
  | .flowNode => "while parsing a flow node"
  | .blockSequence => "while parsing a block collection"
  | .blockMapping => "while parsing a block mapping"
  | .flowSequence => "while parsing a flow sequence"
  | .flowMapping => "while parsing a flow mapping"

structure Fault where
  problem : Problem
  position : Position
  context : Option (Context × Position)
  deriving DecidableEq, Repr

/-- How a place is mentioned at the end of a message; the start of the text is not mentioned. -/
def Position.mention (position : Position) : String :=
  if position.line = 0 && position.column = 0 then ""
  else s!" at line {position.line + 1} column {position.column + 1}"

def Fault.message (fault : Fault) : String :=
  fault.problem.message ++ fault.position.mention ++
    match fault.context with
    | none => ""
    | some (context, start) =>
        ", " ++ context.message ++
          if start.line = fault.position.line && start.column = fault.position.column then ""
          else start.mention

/-! ## Paths -/

inductive Step where
  | item (index : Nat)
  | entry (key : String)
  | unnamed
  deriving DecidableEq, Repr

/-- The steps from the whole document to a node, the last one first. -/
abbrev Path := List Step

namespace Path

def text : Path → String
  | [] => "."
  | .item index :: parent => text parent ++ s!"[{index}]"
  | .entry key :: parent => below parent ++ key
  | .unnamed :: parent => below parent ++ "?"
where
  below (parent : Path) : String := if parent.isEmpty then "" else text parent ++ "."

def mention (path : Path) : String := if path.text = "." then "" else path.text ++ ": "

end Path

/-! ## Errors -/

inductive Defect where
  | repeatedKey (key : Node)
  | notBoolean (text : String)
  | notInteger (text : String)
  | notDecimal (text : String)
  | notNull (text : String)
  | hugeInteger (value : Int)

namespace Defect

def keyMessage : Node → String
  | .null => "with null key"
  | .boolean value => s!"with key `{value}`"
  | .integer value => s!"with key {value}"
  | .decimal value => "with key " ++ String.ofList (decimalLayout.write value)
  | .string text => "with key " ++ Text.quote text
  | _ => "in YAML map"

def message : Defect → String
  | .repeatedKey key => "duplicate entry " ++ keyMessage key
  | .notBoolean text => unsuitable text "a boolean"
  | .notInteger text => unsuitable text "an integer"
  | .notDecimal text => unsuitable text "a float"
  | .notNull text => unsuitable text "null"
  | .hugeInteger value =>
      let kind := if value < 0 then "i128" else "u128"
      s!"invalid type: integer `{value}` as {kind}, expected any YAML value"
where
  unsuitable (text kind : String) : String :=
    s!"invalid value: string {Text.quote text}, expected {kind}"

end Defect

inductive Error where
  /-- A control character stands behind that many bytes. -/
  | control (offset : Nat)
  | layout (fault : Fault)
  | content (defect : Defect) (path : Path) (position : Position)
  | tooDeep (position : Position)
  | moreDocuments

def Error.message : Error → String
  | .control offset =>
      "control characters are not allowed" ++
        if offset = 0 then "" else s!" at position {offset}"
  | .layout fault => fault.message
  | .content defect path position => path.mention ++ defect.message ++ position.mention
  | .tooDeep position => "recursion limit exceeded" ++ position.mention
  | .moreDocuments =>
      "deserializing from YAML containing more than one document is not supported"

end Variants.Yaml
