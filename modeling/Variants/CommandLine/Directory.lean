import Variants.CommandLine.Arguments
import Variants.Text.Cut

/-!
# Reading files

What a path leads to from a working directory whose files are known.  A run can
then be computed without a file system.
-/

namespace Variants.CommandLine

inductive Input where
  | nothing
  | standard
  | file (path : String)
  deriving DecidableEq, Repr

/-! ## Failures -/

inductive ReadFailure where
  | missing
  | directory
  | notDirectory
  | longName
  | other (reason : String)
  deriving DecidableEq, Repr

def ReadFailure.message : ReadFailure → String
  | .missing => "No such file or directory (os error 2)"
  | .directory => "Is a directory (os error 21)"
  | .notDirectory => "Not a directory (os error 20)"
  | .longName => "File name too long (os error 36)"
  | .other reason => reason

/-! ## Paths -/

/-- What a path leads to.  Outside of the working directory only directories are known. -/
inductive Place where
  | inside
  | outside
  | file (text : String)
  deriving DecidableEq, Repr

def maxNameSize : Nat := 255

structure Directory where
  files : List (String × String)

namespace Directory

variable (directory : Directory)

def follow (place : Place) (name : String) : Except ReadFailure Place :=
  match place with
  | .file _ => .error .notDirectory
  | _ =>
      if name == "" || name == "." then .ok place
      else if name == ".." then .ok .outside
      else if maxNameSize < name.utf8ByteSize then .error .longName
      else
        match place, directory.files.lookup name with
        | .inside, some text => .ok (.file text)
        | _, _ => .error .missing

def read (path : String) : Except ReadFailure String :=
  if path.isEmpty then .error .missing
  else do
    let start := if path.startsWith "/" then Place.outside else .inside
    let names := (Text.splitAll '/' path.toList).map String.ofList
    match ← names.foldlM directory.follow start with
    | .file text => return text
    | _ => .error .directory

def readInput (standard : String) : Input → Except ReadFailure String
  | .nothing => .ok ""
  | .standard => .ok standard
  | .file path => directory.read path

end Directory

end Variants.CommandLine
