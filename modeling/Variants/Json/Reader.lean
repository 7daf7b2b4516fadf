import Variants.Json.Error
import Variants.Json.Library
import Variants.Json.Number

/-!
# Reading JSON text

A strict reader: one value, blanks around it, and nothing else.  A repeated key
keeps its first position and takes its last value.  Every step returns what it
read and the text that is left.
-/

namespace Variants.Json

/-! ## Tokens -/

def isSpace (c : Char) : Bool := c == ' ' || c == '\t' || c == '\n' || c == '\r'

def skipSpace (text : List Char) : List Char := text.dropWhile isSpace

def unit? (a b c d : Char) : Option Nat := Text.natural? 16 [a, b, c, d]

def unescape? (c : Char) : Option Char :=
  match c with
  | '"' => some '"'
  | '\\' => some '\\'
  | '/' => some '/'
  | 'b' => some '\x08'
  | 'f' => some '\x0c'
  | 'n' => some '\n'
  | 'r' => some '\r'
  | 't' => some '\t'
  | _ => none

def isHighSurrogate (unit : Nat) : Bool := 0xD800 ≤ unit && unit < 0xDC00

def isLowSurrogate (unit : Nat) : Bool := 0xDC00 ≤ unit && unit < 0xE000

def pairOfSurrogates (high low : Nat) : Char :=
  Char.ofNat (0x10000 + (high - 0xD800) * 0x400 + (low - 0xDC00))

/-- Where a unit should stand there are too few bytes, or some are no hexadecimal digits. -/
def badUnit (text : List Char) : Fault :=
  if byteCount (text.take 4) < 4 then .behind .endInString [] else ⟨.badEscape, text, 4⟩

def missingUnit (text : List Char) : Fault :=
  match text with
  | '\\' :: 'u' :: rest => badUnit rest
  | '\\' :: rest => .missing .endInString .missingSurrogate rest
  | rest => .missing .endInString .missingSurrogate rest

def readString : List Char → Except Fault (List Char × List Char)
  | [] => .error (.behind .endInString [])
  | '"' :: rest => .ok ([], rest)
  | '\\' :: 'u' :: a :: b :: c :: d :: rest =>
      match unit? a b c d with
      | none => .error (badUnit (a :: b :: c :: d :: rest))
      | some unit =>
          if isHighSurrogate unit then
            match rest with
            | '\\' :: 'u' :: e :: f :: g :: h :: rest =>
                match unit? e f g h with
                | none => .error (badUnit (e :: f :: g :: h :: rest))
                | some low =>
                    if isLowSurrogate low then
                      (readString rest).map fun (text, rest) =>
                        (pairOfSurrogates unit low :: text, rest)
                    else .error (.behind .loneSurrogate rest)
            | rest => .error (missingUnit rest)
          else if isLowSurrogate unit then .error (.behind .loneSurrogate rest)
          else (readString rest).map fun (text, rest) => (Char.ofNat unit :: text, rest)
  | '\\' :: 'u' :: rest => .error (badUnit rest)
  | '\\' :: c :: rest =>
      match unescape? c with
      | none => .error (.facing .badEscape (c :: rest))
      | some c => (readString rest).map fun (text, rest) => (c :: text, rest)
  | c :: rest =>
      if c = '\\' then .error (.behind .endInString [])
      else if c.toNat < 0x20 then .error (.facing .controlCharacter (c :: rest))
      else (readString rest).map fun (text, rest) => (c :: text, rest)

/-! ## Numbers -/

def readWhole (text : List Char) : Except Fault (List Nat × List Char) :=
  match Text.readDigits text with
  | ([], _) => .error (.missing .endInValue .badNumber text)
  | (0 :: _ :: _, _) => .error (.facing .badNumber (text.drop 1))
  | result => .ok result

def readFraction (text : List Char) : Except Fault (Option (List Nat) × List Char) :=
  match text with
  | '.' :: rest =>
      match Text.readDigits rest with
      | ([], _) => .error (.missing .endInValue .badNumber rest)
      | (digits, rest) => .ok (some digits, rest)
  | _ => .ok (none, text)

def readExponent (text : List Char) : Except Fault (Option (Bool × List Nat) × List Char) :=
  let signed (negative : Bool) (rest : List Char) :=
    match Text.readDigits rest with
    | ([], _) => .error (.missing .endInValue .badNumber rest)
    | (digits, rest) => .ok (some (negative, digits), rest)
  let marked (rest : List Char) :=
    match rest with
    | '-' :: rest => signed true rest
    | '+' :: rest => signed false rest
    | rest => signed false rest
  match text with
  | 'e' :: rest => marked rest
  | 'E' :: rest => marked rest
  | _ => .ok (none, text)

/-- A number that is too large is noticed as soon as its exponent has more than 31 bits. -/
def tooLarge (numeral : Decimal.Numeral) (text rest : List Char) : Fault :=
  let unread := (numeral.exponent.map fun exponent => excessDigits 0 exponent.2).getD 0
  .behind .numberTooLarge (text.drop (text.length - (rest.length + unread)))

def readUnsigned (negative : Bool) (text : List Char) :
    Except Fault (Node Number × List Char) := do
  let (whole, rest) ← readWhole text
  let (fraction, rest) ← readFraction rest
  let (exponent, rest) ← readExponent rest
  let numeral : Decimal.Numeral := ⟨negative, whole, fraction, exponent⟩
  match number? numeral with
  | some number => return (.number number, rest)
  | none => throw (tooLarge numeral text rest)

def readNumber (text : List Char) : Except Fault (Node Number × List Char) :=
  match text with
  | '-' :: rest => readUnsigned true rest
  | text =>
      if text.head?.any Char.isDigit then readUnsigned false text
      else .error (.missing .endInValue .missingValue text)

/-! ## Values without parts -/

def readWord (value : Node Number) :
    (letters : List Char) → List Char → Except Fault (Node Number × List Char)
  | [], rest => .ok (value, rest)
  | _ :: _, [] => .error (.behind .endInValue [])
  | letter :: letters, c :: rest =>
      if c = letter then readWord value letters rest
      else .error (.facing .unknownWord (c :: rest))

def readScalar (text : List Char) : Except Fault (Node Number × List Char) :=
  match text with
  | 'n' :: rest => readWord .null ['u', 'l', 'l'] rest
  | 't' :: rest => readWord (.boolean true) ['r', 'u', 'e'] rest
  | 'f' :: rest => readWord (.boolean false) ['a', 'l', 's', 'e'] rest
  | '"' :: rest => (readString rest).map fun (text, rest) => (.string (String.ofList text), rest)
  | text => readNumber text

/-! ## Containers -/

/-- A value reader, used for the items of a container.  No blank stands before the value. -/
abbrev Reader := List Char → Except Fault (Node Number × List Char)

def afterComma (closing : Char) (rest : List Char) : Except Fault (List Char) :=
  let rest := skipSpace rest
  if rest.head? == some closing then .error (.facing .trailingComma rest) else .ok rest

def readItems (item : Reader) :
    (bound : Nat) → List Char → Except Fault (List (Node Number) × List Char)
  | 0, text => .error (.missing .endInList .missingListSeparator text)
  | bound + 1, text => do
      let (value, rest) ← item text
      match skipSpace rest with
      | ',' :: rest =>
          let (values, rest) ← readItems item bound (← afterComma ']' rest)
          return (value :: values, rest)
      | ']' :: rest => return ([value], rest)
      | rest => throw (.missing .endInList .missingListSeparator rest)

def readEntry (item : Reader) (text : List Char) :
    Except Fault ((String × Node Number) × List Char) :=
  match text with
  | '"' :: rest => do
      let (key, rest) ← readString rest
      match skipSpace rest with
      | ':' :: rest =>
          let (value, rest) ← item (skipSpace rest)
          return ((String.ofList key, value), rest)
      | rest => throw (.missing .endInObject .missingColon rest)
  | text => .error (.missing .endInValue .keyNotString text)

def readEntries (item : Reader) :
    (bound : Nat) → List Char → Except Fault (List (String × Node Number) × List Char)
  | 0, text => .error (.missing .endInObject .missingEntrySeparator text)
  | bound + 1, text => do
      let (entry, rest) ← readEntry item text
      match skipSpace rest with
      | ',' :: rest =>
          let (entries, rest) ← readEntries item bound (← afterComma '}' rest)
          return (entry :: entries, rest)
      | '}' :: rest => return ([entry], rest)
      | rest => throw (.missing .endInObject .missingEntrySeparator rest)

def readArray (item : Reader) (bound : Nat) (text : List Char) :
    Except Fault (Node Number × List Char) :=
  match skipSpace text with
  | [] => .error (.behind .endInList [])
  | ']' :: rest => .ok (.array [], rest)
  | text => (readItems item bound text).map fun (items, rest) => (.array items, rest)

def readObject (item : Reader) (bound : Nat) (text : List Char) :
    Except Fault (Node Number × List Char) :=
  match skipSpace text with
  | [] => .error (.behind .endInObject [])
  | '}' :: rest => .ok (.object [], rest)
  | text => (readEntries item bound text).map fun (entries, rest) =>
      (.object (Entries.ofList entries), rest)

/--
A value that starts the text, with containers at most `depth` deep and at most
`bound` parts in each.
-/
def readValue (bound : Nat) : (depth : Nat) → Reader
  | 0, text =>
      match text with
      | '[' :: _ => .error (.facing .tooDeep text)
      | '{' :: _ => .error (.facing .tooDeep text)
      | text => readScalar text
  | depth + 1, text =>
      match text with
      | '[' :: rest => readArray (readValue bound depth) bound rest
      | '{' :: rest => readObject (readValue bound depth) bound rest
      | text => readScalar text

/-! ## Documents -/

def maxDepth : Nat := 127

def readAll (text : List Char) : Except Fault (Node Number) := do
  let (value, rest) ← readValue text.length maxDepth (skipSpace text)
  match skipSpace rest with
  | [] => return value
  | rest => throw (.facing .trailingText rest)

def parse (text : String) : Except Error (Node Number) :=
  (readAll text.toList).mapError fun fault => fault.error text.toList

end Variants.Json
