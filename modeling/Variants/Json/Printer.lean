import Variants.Json.Library
import Variants.Text.Digits

/-!
# Writing JSON text

One printer for the compact text and for the indented text: a style says how a
container encloses the texts of its parts.  Quotes, backslashes and the
characters below the space are escaped, nothing else.
-/

namespace Variants.Json

/-! ## Strings -/

def escape (c : Char) : List Char :=
  match c with
  | '"' => ['\\', '"']
  | '\\' => ['\\', '\\']
  | '\x08' => ['\\', 'b']
  | '\x0c' => ['\\', 'f']
  | '\n' => ['\\', 'n']
  | '\r' => ['\\', 'r']
  | '\t' => ['\\', 't']
  | c =>
      if c.toNat < 0x20 then
        ['\\', 'u', '0', '0', Text.hexDigit (c.toNat / 16), Text.hexDigit (c.toNat % 16)]
      else [c]

def quote (text : String) : List Char := '"' :: (text.toList.flatMap escape ++ ['"'])

/-! ## Containers -/

/-- Two blanks at the start of every line after the first. -/
def shift (text : List Char) : List Char :=
  text.flatMap fun c => if c = '\n' then ['\n', ' ', ' '] else [c]

def indent (text : List Char) : List Char := ' ' :: ' ' :: shift text

namespace Style

def enclose (style : Style) (opening closing : Char) (parts : List (List Char)) : List Char :=
  match style, parts with
  | .compact, _ => opening :: ([','].intercalate parts ++ [closing])
  | .indented, [] => [opening, closing]
  | .indented, _ =>
      opening :: '\n' :: ([',', '\n'].intercalate (parts.map indent) ++ ['\n', closing])

def colon : Style → List Char
  | .compact => [':']
  | .indented => [':', ' ']

end Style

/-! ## Values -/

mutual

def write (style : Style) : Serialized → List Char
  | .unit => ['n', 'u', 'l', 'l']
  | .boolean true => ['t', 'r', 'u', 'e']
  | .boolean false => ['f', 'a', 'l', 's', 'e']
  | .integer value => (toString value.toInt).toList
  | .decimal value => Decimal.serialized.write value
  | .string text => quote text
  | .sequence _ items => style.enclose '[' ']' (writeItems style items)
  | .mapping _ entries => style.enclose '{' '}' (writeEntries style entries)

def writeItems (style : Style) : List Serialized → List (List Char)
  | [] => []
  | item :: rest => write style item :: writeItems style rest

def writeEntries (style : Style) : List (String × Serialized) → List (List Char)
  | [] => []
  | (key, value) :: rest =>
      (quote key ++ style.colon ++ write style value) :: writeEntries style rest

end

end Variants.Json
