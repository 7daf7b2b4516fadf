import Variants.TextFormat

/-!
# Arguments of the command line

Options stand before the name of a subcommand or after it, each known at its
place only.  An option takes its value from its own argument or from the next
one, which then must not look like an option.  Arguments are read from left to
right, and the first that asks for help or makes no sense decides.
-/

namespace Variants.CommandLine

/-! ## Invocations -/

structure RenderOptions where
  file : Option String
  format : TextFormat
  filters : List String
  allKeys : Bool
  deriving DecidableEq, Repr

inductive Inspection where
  | dimensions
  | tree
  | tuples
  deriving DecidableEq, Repr

inductive Invocation where
  | help
  | version
  | invalid
  | render (options : RenderOptions)
  | inspect (file : Option String) (inspection : Inspection)
  deriving DecidableEq, Repr

/-! ## Options -/

inductive Flag where
  | file
  | format
  | filter
  | allKeys
  | help
  | version
  deriving DecidableEq, Repr

namespace Flag

def letter? : Flag → Option Char
  | .file => some 'f'
  | .format => some 'F'
  | .filter => some 'x'
  | .allKeys => none
  | .help => some 'h'
  | .version => some 'V'

def name : Flag → String
  | .file => "input-file"
  | .format => "output-format"
  | .filter => "filter"
  | .allKeys => "all-keys"
  | .help => "help"
  | .version => "version"

end Flag

inductive Argument where
  | option (flag : Flag) (value : Option String)
  | unknown
  | endOfOptions
  | word (text : String)
  deriving DecidableEq, Repr

def attachedValue? (text : List Char) : Option String :=
  match text with
  | [] => none
  | '=' :: value => some (String.ofList value)
  | value => some (String.ofList value)

def readLong (flags : List Flag) (text : List Char) : Argument :=
  let (name, value) :=
    match Text.splitOnce '=' text with
    | some (name, value) => (name, some (String.ofList value))
    | none => (text, none)
  match flags.find? fun flag => flag.name == String.ofList name with
  | some flag => .option flag value
  | none => .unknown

def readArgument (flags : List Flag) (argument : String) : Argument :=
  match argument.toList with
  | ['-', '-'] => .endOfOptions
  | '-' :: '-' :: text => readLong flags text
  | '-' :: letter :: text =>
      match flags.find? fun flag => flag.letter? == some letter with
      | some flag => .option flag (attachedValue? text)
      | none => .unknown
  | _ => .word argument

def looksLikeOption (argument : String) : Bool :=
  match argument.toList with
  | '-' :: _ :: _ => true
  | _ => false

/-! ## Values of options -/

structure Given where
  file : Option String
  format : Option TextFormat
  filters : List String
  allKeys : Bool
  deriving DecidableEq, Repr

namespace Given

def nothing : Given := ⟨none, none, [], false⟩

def formatOfName? (name : String) : Option TextFormat :=
  match name with
  | "json" => some .json
  | "yaml" => some .yaml
  | _ => none

/-- Filters add up; every other option is given once, and no file has an empty name. -/
def assign? (given : Given) (flag : Flag) (value : String) : Option Given :=
  match flag with
  | .file => if given.file.isNone && !value.isEmpty then some { given with file := value } else none
  | .format =>
      if given.format.isNone then
        (formatOfName? value).map fun format => { given with format := format }
      else none
  | .filter => some { given with filters := given.filters ++ [value] }
  | _ => none

def render (given : Given) : Invocation :=
  .render ⟨given.file, given.format.getD .yaml, given.filters, given.allKeys⟩

end Given

inductive Reading where
  /-- The options before the first word, and the arguments from that word on. -/
  | options (given : Given) (rest : List String)
  | decided (invocation : Invocation)

def readOptions (flags : List Flag) (given : Given) : List String → Reading
  | [] => .options given []
  | argument :: rest =>
      match readArgument flags argument with
      | .word _ => .options given (argument :: rest)
      | .endOfOptions => if rest.isEmpty then .options given [] else .decided .invalid
      | .unknown => .decided .invalid
      | .option .help value =>
          match value with
          | some _ => if argument.startsWith "--" then .decided .invalid else .decided .help
          | none => .decided .help
      | .option .version value =>
          match value with
          | some _ => if argument.startsWith "--" then .decided .invalid else .decided .version
          | none => .decided .version
      | .option .allKeys value =>
          if given.allKeys || value.isSome then .decided .invalid
          else readOptions flags { given with allKeys := true } rest
      | .option flag (some value) =>
          match given.assign? flag value with
          | some given => readOptions flags given rest
          | none => .decided .invalid
      | .option flag none =>
          match rest with
          | [] => .decided .invalid
          | value :: rest =>
              if looksLikeOption value then .decided .invalid
              else
                match given.assign? flag value with
                | some given => readOptions flags given rest
                | none => .decided .invalid

/-! ## Commands -/

def readRender (arguments : List String) : Invocation :=
  match readOptions [.file, .format, .filter, .allKeys, .help] .nothing arguments with
  | .options given [] => given.render
  | .options _ _ => .invalid
  | .decided invocation => invocation

def inspectionOfName? (name : String) : Option Inspection :=
  match name with
  | "dimensions" => some .dimensions
  | "tree" => some .tree
  | "tuples" => some .tuples
  | _ => none

def readInspectionHelp (arguments : List String) : Invocation :=
  match arguments with
  | [] => .help
  | ["help"] => .help
  | [name] => if (inspectionOfName? name).isSome then .help else .invalid
  | _ => .invalid

def readInspect (arguments : List String) : Invocation :=
  match readOptions [.file, .help] .nothing arguments with
  | .options _ [] => .invalid
  | .options given (name :: rest) =>
      match inspectionOfName? name with
      | some inspection =>
          match readOptions [.help] .nothing rest with
          | .options _ [] => .inspect given.file inspection
          | .options _ _ => .invalid
          | .decided invocation => invocation
      | none => if name == "help" then readInspectionHelp rest else .invalid
  | .decided invocation => invocation

def readHelp (arguments : List String) : Invocation :=
  match arguments with
  | [] => .help
  | ["render"] => .help
  | ["r"] => .help
  | ["help"] => .help
  | "dev" :: rest => readInspectionHelp rest
  | _ => .invalid

def Invocation.ofArguments (arguments : List String) : Invocation :=
  match readOptions [.help, .version] .nothing arguments with
  | .options _ [] => .invalid
  | .options _ (name :: rest) =>
      match name with
      | "render" => readRender rest
      | "r" => readRender rest
      | "dev" => readInspect rest
      | "help" => readHelp rest
      | _ => .invalid
  | .decided invocation => invocation

end Variants.CommandLine
