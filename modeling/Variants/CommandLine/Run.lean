import Variants.CommandLine.Directory
import Variants.Config.Filtering
import Variants.Config.Rendering
import Variants.Tree.Outline

/-!
# Running the command line

What a run prints and the code it ends with, as a function of the invocation and
the text it reads.
-/

namespace Variants.CommandLine

structure Outcome where
  code : Nat
  output : String
  errors : String
  deriving DecidableEq, Repr

inductive Failure where
  | loading (error : LoadError)
  | config (error : Error)

namespace Failure

def messages : Failure → List String
  | .loading error => error.messages
  | .config error => error.messages

def outcome (failure : Failure) : Outcome :=
  ⟨1, "", String.join (failure.messages.map (· ++ "\n"))⟩

end Failure

/-! ## Documents -/

def Invocation.file? : Invocation → Option String
  | .render options => options.file
  | .inspect file _ => file
  | _ => none

def Invocation.input (invocation : Invocation) : Input :=
  match invocation with
  | .render options => (options.file.map Input.file).getD .standard
  | .inspect file _ => (file.map Input.file).getD .standard
  | _ => .nothing

/-- Standard input is YAML. -/
def Invocation.format (invocation : Invocation) : TextFormat :=
  (invocation.file?.map TextFormat.ofFileName).getD .yaml

def loadConfig (invocation : Invocation) (containment : Containment)
    (text : Except ReadFailure String) : Except Failure Config :=
  match text with
  | .error failure => .error (.loading (.unreadable failure.message))
  | .ok text =>
      match invocation.format.load text with
      | .error error => .error (.loading error)
      | .ok document => (Config.parse containment document).mapError .config

/-! ## Commands -/

def render (options : RenderOptions) (config : Config) : Except Error String := do
  let filtered ← config.filter options.filters
  let products ← filtered.products
  return options.format.print (report products)

def describeDimension (d : Dimension) : String :=
  let depends := ", ".intercalate (d.depends.map Text.quote)
  s!"{d.name} {d.brackets.marker} (depends: [{depends}])\n" ++ Yaml.print d.info.serialize

def inspect (config : Config) : Inspection → String
  | .dimensions => String.join (config.dimensions.map describeDimension)
  | .tree => config.tree.outline.print ++ "\n"
  | .tuples => String.join (config.generate.map fun tuple => Tuple.text tuple ++ "\n")

def versionText : String := "dimcfg 0.1.0\n"

def helpText : String :=
  "Usage: dimcfg <COMMAND>\n\n" ++
  "Commands:\n" ++
  "  render  Render every variant product\n" ++
  "  dev     Print debug information for development\n" ++
  "  help    Print this message or the help of the given subcommand(s)\n"

/-- `text` is what the input of the invocation holds, or why it cannot be read. -/
def run (invocation : Invocation) (text : Except ReadFailure String) : Outcome :=
  let finish : Except Failure String → Outcome
    | .ok output => ⟨0, output, ""⟩
    | .error failure => failure.outcome
  match invocation with
  | .help => ⟨0, helpText, ""⟩
  | .version => ⟨0, versionText, ""⟩
  | .invalid => ⟨2, "", helpText⟩
  | .render options =>
      let containment := if options.allKeys then .allKeys else .firstKey
      finish do
        let config ← loadConfig invocation containment text
        (render options config).mapError .config
  | .inspect _ inspection =>
      finish do
        let config ← loadConfig invocation .firstKey text
        return inspect config inspection

end Variants.CommandLine
