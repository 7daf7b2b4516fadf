import Variants.Json.Printer
import Variants.Json.Reader
import Variants.Text.Cut
import Variants.Yaml.Printer
import Variants.Yaml.Reader

/-!
# Text formats

Documents are read from, and products written to, one of two formats.
-/

namespace Variants

/-! ## JSON text -/

namespace Json

def library : Library Number where
  integer?
    | .integer value => some value
    | .decimal _ => none
  decimal?
    | .integer value => some value.toFloat
    | .decimal value => some value
  read text := (parse text).mapError Error.message
  write style data := String.ofList (write style data)

def compact (value : Value) : String := library.write .compact value.serialize

def indented (value : Value) : String := library.write .indented value.serialize

end Json

/-! ## Loading and printing -/

inductive TextFormat where
  | json
  | yaml
  deriving DecidableEq, Repr

inductive LoadError where
  | unreadable (reason : String)
  | malformedJson (reason : String)
  | malformedYaml (reason : String)

namespace LoadError

def message : LoadError → String
  | .unreadable _ => "IO error"
  | .malformedJson _ => "Unable to parse json document"
  | .malformedYaml _ => "Unable to parse yaml document"

def reason : LoadError → String
  | .unreadable reason => reason
  | .malformedJson reason => reason
  | .malformedYaml reason => reason

def messages (error : LoadError) : List String := [error.message, error.reason]

end LoadError

namespace TextFormat

def loadJson {ν : Type} (library : Json.Library ν) (text : String) : Except LoadError Value :=
  ((library.read text).map (Value.ofJson library)).mapError .malformedJson

def loadYaml (text : String) : Except LoadError Value :=
  ((Yaml.parse text).map Value.ofNode).mapError fun error => .malformedYaml error.message

def load : TextFormat → String → Except LoadError Value
  | .json => loadJson Json.library
  | .yaml => loadYaml

def print (format : TextFormat) (value : Value) : String :=
  match format with
  | .json => Json.indented value
  | .yaml => Yaml.print value.serialize

/-! ## File names -/

/-- The part of a file name after its last point, unless the name starts with that point. -/
def extension? (path : List Char) : Option (List Char) :=
  let name := ((Text.splitAll '/' path).getLast?).getD []
  match (Text.splitAll '.' name).reverse with
  | extension :: stem :: rest => if stem.isEmpty && rest.isEmpty then none else some extension
  | _ => none

def ofFileName (path : String) : TextFormat :=
  match extension? path.toList with
  | some extension => if extension.map Char.toLower = "json".toList then .json else .yaml
  | none => .yaml

end TextFormat

end Variants
