import Variants.Serialized
import Variants.Yaml.Plain
import Variants.Yaml.Scalar

/-!
# Writing YAML text

Collections are written as indented lines.  What belongs to a mapping entry is
indented by two blanks, but the marks of a sequence stand in the column of its
key.  Strings are written without quotes where they read back as they are, and
a long key stands on a line of its own after a question mark.
-/

namespace Variants.Yaml

/-! ## Scalars -/

/-- No colon at the end of a word, no comment, and no blank at the end. -/
def plainInside : List Char → Bool
  | [] => true
  | [c] => !isGap c && c != ':'
  | ':' :: c :: rest => !isGap c && plainInside (c :: rest)
  | ' ' :: '#' :: _ => false
  | _ :: rest => plainInside rest

def startsWithMark (text : List Char) : Bool :=
  ['-', '-', '-'].isPrefixOf text || ['.', '.', '.'].isPrefixOf text

def isWritten (c : Char) : Bool :=
  let n := c.toNat
  (0x20 ≤ n && n ≤ 0x7E) || (0xA0 ≤ n && n ≤ 0xFFFD && n != 0xFEFF && !isBreak c) || 0x10000 ≤ n

/-- The string is what a plain scalar of these characters means, and it has no leading zero. -/
def isPlain (text : String) : Bool :=
  startsPlain text.toList && plainInside text.toList && text.toList.all isWritten &&
    !startsWithMark text.toList && !hasLeadingZero text.toList &&
    match plainNode text with
    | .ok (.string _) => true
    | _ => false

def escapeLetter? (c : Char) : Option Char :=
  match c with
  | '\x00' => some '0'
  | '\x07' => some 'a'
  | '\x08' => some 'b'
  | '\t' => some 't'
  | '\n' => some 'n'
  | '\x0b' => some 'v'
  | '\x0c' => some 'f'
  | '\r' => some 'r'
  | '\x1b' => some 'e'
  | '\u0085' => some 'N'
  | '\u2028' => some 'L'
  | '\u2029' => some 'P'
  | _ => none

def upperHex (width n : Nat) : List Char :=
  (List.range width).map fun i => (Text.hexDigit (n / Nat.pow 16 (width - 1 - i) % 16)).toUpper

def escapeChar (c : Char) : List Char :=
  if c = '"' || c = '\\' then ['\\', c]
  else if isWritten c then [c]
  else
    match escapeLetter? c with
    | some letter => ['\\', letter]
    | none =>
        let n := c.toNat
        if n < 0x100 then ['\\', 'x'] ++ upperHex 2 n
        else if n < 0x10000 then ['\\', 'u'] ++ upperHex 4 n
        else ['\\', 'U'] ++ upperHex 8 n

def stringText (text : String) : List Char :=
  if isPlain text then text.toList
  else if text.toList.all isWritten then
    '\'' :: (text.toList.flatMap (fun c => if c = '\'' then ['\'', '\''] else [c]) ++ ['\''])
  else '"' :: (text.toList.flatMap escapeChar ++ ['"'])

def lineText? : Serialized → Option (List Char)
  | .unit => some "null".toList
  | .boolean value => some (if value then "true" else "false").toList
  | .integer value => some (toString value.toInt).toList
  | .decimal value => some (decimalLayout.write value)
  | .string text => some (stringText text)
  | .sequence _ [] => some "[]".toList
  | .sequence _ _ => none
  | .mapping _ [] => some "{}".toList
  | .mapping _ _ => none

/-! ## Lines -/

def markLines (mark : List Char) : List (List Char) → List (List Char)
  | [] => [mark]
  | line :: rest => (mark ++ line) :: rest.map (List.replicate mark.length ' ' ++ ·)

def shortKeySize : Nat := 128

/-- A key with the value below it, or behind it when that is one line. -/
def entryLines (key : String) (value : Serialized) (below : List (List Char)) : List (List Char) :=
  let mark := stringText key ++ [':']
  if shortKeySize < key.utf8ByteSize then
    (['?', ' '] ++ stringText key) :: markLines [':', ' '] below
  else
    match lineText? value, value with
    | some text, _ => [mark ++ ' ' :: text]
    | none, .sequence _ _ => mark :: below
    | none, _ => mark :: below.map ([' ', ' '] ++ ·)

mutual

def lines : Serialized → List (List Char)
  | .sequence _ (item :: rest) => itemLines (item :: rest)
  | .mapping _ (entry :: rest) => entriesLines (entry :: rest)
  | value => [(lineText? value).getD []]

def itemLines : List Serialized → List (List Char)
  | [] => []
  | item :: rest => markLines ['-', ' '] (lines item) ++ itemLines rest

def entriesLines : List (String × Serialized) → List (List Char)
  | [] => []
  | (key, value) :: rest => entryLines key value (lines value) ++ entriesLines rest

end

def print (value : Serialized) : String :=
  String.ofList ((lines value).flatMap fun line => line ++ ['\n'])

end Variants.Yaml
