/-!
# What can be wrong with JSON text

A fault is noticed at some place of the text and reported with its line and its
column there, counted in bytes.
-/

namespace Variants.Json

inductive Problem where
  | endInList
  | endInObject
  | endInString
  | endInValue
  | missingColon
  | missingListSeparator
  | missingEntrySeparator
  | unknownWord
  | missingValue
  | badEscape
  | badNumber
  | numberTooLarge
  | controlCharacter
  | keyNotString
  | loneSurrogate
  | trailingComma
  | trailingText
  | missingSurrogate
  | tooDeep
  deriving DecidableEq, Repr

def Problem.message : Problem → String
  | .endInList => "EOF while parsing a list"
  | .endInObject => "EOF while parsing an object"
  | .endInString => "EOF while parsing a string"
  | .endInValue => "EOF while parsing a value"
  | .missingColon => "expected `:`"
  | .missingListSeparator => "expected `,` or `]`"
  | .missingEntrySeparator => "expected `,` or `\x7d`"
  | .unknownWord => "expected ident"
  | .missingValue => "expected value"
  | .badEscape => "invalid escape"
  | .badNumber => "invalid number"
  | .numberTooLarge => "number out of range"
  | .controlCharacter => "control character (\\u0000-\\u001F) found while parsing a string"
  | .keyNotString => "key must be a string"
  | .loneSurrogate => "lone leading surrogate in hex escape"
  | .trailingComma => "trailing comma"
  | .trailingText => "trailing characters"
  | .missingSurrogate => "unexpected end of hex escape"
  | .tooDeep => "recursion limit exceeded"

/-! ## Faults -/

/-- A problem that is noticed `reach` bytes into what is left of the text. -/
structure Fault where
  problem : Problem
  rest : List Char
  reach : Nat
  deriving DecidableEq, Repr

namespace Fault

def behind (problem : Problem) (rest : List Char) : Fault := ⟨problem, rest, 0⟩

def facing (problem : Problem) (rest : List Char) : Fault :=
  ⟨problem, rest, if rest.isEmpty then 0 else 1⟩

def missing (atEnd otherwise : Problem) (rest : List Char) : Fault :=
  facing (if rest.isEmpty then atEnd else otherwise) rest

end Fault

/-! ## Errors -/

structure Error where
  problem : Problem
  line : Nat
  /-- The number of bytes of the line up to where the problem is noticed. -/
  column : Nat
  deriving DecidableEq, Repr

def Error.message (error : Error) : String :=
  s!"{error.problem.message} at line {error.line} column {error.column}"

def byteCount (text : List Char) : Nat := text.foldl (fun count c => count + c.utf8Size) 0

def placeFrom (line column : Nat) : (bytes : Nat) → List Char → Nat × Nat
  | bytes, [] => (line, column + bytes)
  | bytes, c :: rest =>
      if bytes < c.utf8Size then (line, column + bytes)
      else if c = '\n' then placeFrom (line + 1) 0 (bytes - 1) rest
      else placeFrom line (column + c.utf8Size) (bytes - c.utf8Size) rest

def Fault.error (fault : Fault) (text : List Char) : Error :=
  let bytes := byteCount text - byteCount fault.rest + fault.reach
  let (line, column) := placeFrom 1 0 bytes text
  ⟨fault.problem, line, column⟩

end Variants.Json
