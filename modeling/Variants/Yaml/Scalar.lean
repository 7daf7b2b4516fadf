import Variants.Text.Digits
import Variants.Yaml.Error

/-!
# The text of scalars

Scalars may run over several lines.  A line feed between two lines of a scalar
counts as a space, further line breaks count as themselves, and blanks around
line breaks are dropped.
-/

namespace Variants.Yaml

structure Lexeme where
  text : String
  stop : Cursor
  /-- A line was ended behind the text, so that a key may start. -/
  fresh : Bool

/-! ## Gaps -/

structure Gap where
  blanks : List Char
  breaks : List Char
  /-- The line break was escaped and counts for nothing. -/
  escaped : Bool

namespace Gap

def start : Gap := ⟨[], [], false⟩

def isEmpty (gap : Gap) : Bool := gap.blanks.isEmpty && gap.breaks.isEmpty && !gap.escaped

def addBlank (gap : Gap) (c : Char) : Gap :=
  if gap.breaks.isEmpty && !gap.escaped then { gap with blanks := c :: gap.blanks } else gap

def addBreak (gap : Gap) (c : Char) : Gap := { gap with blanks := [], breaks := c :: gap.breaks }

/-- What the gap counts for, the last character first. -/
def fold (gap : Gap) : List Char :=
  if gap.escaped then gap.breaks
  else
    match gap.breaks.reverse with
    | [] => gap.blanks
    | ['\n'] => [' ']
    | '\n' :: breaks => breaks.reverse
    | breaks => breaks.reverse

end Gap

def startsDocumentMark (text : List Char) : Bool :=
  match text with
  | '-' :: '-' :: '-' :: rest => endsWord rest
  | '.' :: '.' :: '.' :: rest => endsWord rest
  | _ => false

/-! ## Plain scalars -/

def isFlowMark (c : Char) : Bool := c ∈ [',', '[', ']', '{', '}']

/-- A plain scalar can start here, unless the hyphen, question mark or colon is taken for a mark. -/
def startsPlain (text : List Char) : Bool :=
  match text with
  | [] => false
  | c :: rest =>
      if c ∈ ['-', '?', ':'] then !endsWord rest
      else
        !(isGap c || isBreak c || c ∈ [',', '[', ']', '{', '}', '#', '&', '*', '!', '|', '>', '\'',
          '"', '%', '@', '\x60'])

/--
Read on in a plain scalar; `text` has its last character first.  The scalar ends
before a colon at the end of a word, and after a gap before a comment, a document
mark or less than `least` columns.  Between brackets it ends before a mark of the
collection, whatever the column.
-/
def plainFrom (bracketed : Bool) (least : Nat) (gap : Gap) (text : List Char)
    (position : Position) : List Char → Except (Problem × Position) (List Char × Cursor × Bool)
  | [] => .ok (text, ⟨[], position⟩, !gap.breaks.isEmpty)
  | c :: rest =>
      let next := position.after c
      let stop := (text, Cursor.mk (c :: rest) position, !gap.breaks.isEmpty)
      if isBreak c then plainFrom bracketed least (gap.addBreak c) text next rest
      else if isGap c then
        if c = '\t' && !gap.breaks.isEmpty && position.column < least then
          .error (.misplacedTab, position)
        else plainFrom bracketed least (gap.addBlank c) text next rest
      else if !gap.isEmpty && ((!bracketed && position.column < least) || c = '#' ||
          (position.column = 0 && startsDocumentMark (c :: rest))) then
        .ok stop
      else if bracketed && c = ':' && (rest.head?.any fun d => isFlowMark d || d == '?') then
        .error (.unexpectedColon, position)
      else if (c = ':' && endsWord rest) || (bracketed && isFlowMark c) then .ok stop
      else plainFrom bracketed least Gap.start (c :: (gap.fold ++ text)) next rest

def readPlain (bracketed : Bool) (least : Nat) (cursor : Cursor) : Except Fault Lexeme :=
  match plainFrom bracketed least Gap.start [] cursor.position cursor.rest with
  | .ok (text, stop, fresh) => .ok ⟨String.ofList text.reverse, stop, fresh⟩
  | .error (problem, position) => .error ⟨problem, position, some (.plain, cursor.position)⟩

/-! ## Quoted scalars -/

def breaksOff (position : Position) (text : List Char) : Bool :=
  position.column = 0 && startsDocumentMark text

structure QuotedFault where
  problem : Problem
  position : Position
  escape : Bool

def singleFrom (gap : Gap) (text : List Char) (position : Position) :
    List Char → Except QuotedFault (List Char × Cursor)
  | [] => .error ⟨.endInQuotes, position, false⟩
  | '\'' :: '\'' :: rest =>
      singleFrom Gap.start ('\'' :: (gap.fold ++ text)) (position.afterAll ['\'', '\'']) rest
  | '\'' :: rest => .ok (gap.fold ++ text, ⟨rest, position.after '\''⟩)
  | c :: rest =>
      let next := position.after c
      if breaksOff position (c :: rest) then .error ⟨.markInQuotes, position, false⟩
      else if isBreak c then singleFrom (gap.addBreak c) text next rest
      else if isGap c then singleFrom (gap.addBlank c) text next rest
      else singleFrom Gap.start (c :: (gap.fold ++ text)) next rest

def escaped? (c : Char) : Option Char :=
  match c with
  | '0' => some '\x00'
  | 'a' => some '\x07'
  | 'b' => some '\x08'
  | 't' => some '\t'
  | '\t' => some '\t'
  | 'n' => some '\n'
  | 'v' => some '\x0b'
  | 'f' => some '\x0c'
  | 'r' => some '\r'
  | 'e' => some '\x1b'
  | ' ' => some ' '
  | '"' => some '"'
  | '/' => some '/'
  | '\\' => some '\\'
  | 'N' => some '\u0085'
  | '_' => some '\u00a0'
  | 'L' => some '\u2028'
  | 'P' => some '\u2029'
  | _ => none

def codePoint (position : Position) (digits : List Char) : Except QuotedFault Char :=
  match Text.natural? 16 digits with
  | none => .error ⟨.badHexadecimal, position, true⟩
  | some n =>
      if n < 0xD800 || (0xE000 ≤ n && n < 0x110000) then .ok (Char.ofNat n)
      else .error ⟨.badCharacterCode, position, true⟩

def unescapable (position : Position) (c : Char) : QuotedFault :=
  if c ∈ ['x', 'u', 'U'] then ⟨.badHexadecimal, position.afterAll ['\\', c], true⟩
  else ⟨.unknownEscape, position, true⟩

/-- Backslashes start escapes, also of line breaks. -/
def doubleFrom (gap : Gap) (text : List Char) (position : Position) :
    List Char → Except QuotedFault (List Char × Cursor)
  | [] => .error ⟨.endInQuotes, position, false⟩
  | '"' :: rest => .ok (gap.fold ++ text, ⟨rest, position.after '"'⟩)
  | '\\' :: 'x' :: a :: b :: rest => do
      let d ← codePoint (position.afterAll ['\\', 'x']) [a, b]
      doubleFrom Gap.start (d :: (gap.fold ++ text)) (position.afterAll ['\\', 'x', a, b]) rest
  | '\\' :: 'u' :: a :: b :: c :: d :: rest => do
      let e ← codePoint (position.afterAll ['\\', 'u']) [a, b, c, d]
      doubleFrom Gap.start (e :: (gap.fold ++ text))
        (position.afterAll ['\\', 'u', a, b, c, d]) rest
  | '\\' :: 'U' :: a :: b :: c :: d :: e :: f :: g :: h :: rest => do
      let i ← codePoint (position.afterAll ['\\', 'U']) [a, b, c, d, e, f, g, h]
      doubleFrom Gap.start (i :: (gap.fold ++ text))
        (position.afterAll ['\\', 'U', a, b, c, d, e, f, g, h]) rest
  | '\\' :: c :: rest =>
      let next := position.afterAll ['\\', c]
      if isBreak c then doubleFrom ⟨[], [], true⟩ (gap.fold ++ text) next rest
      else
        match escaped? c with
        | some d => doubleFrom Gap.start (d :: (gap.fold ++ text)) next rest
        | none => .error (unescapable position c)
  | c :: rest =>
      let next := position.after c
      if breaksOff position (c :: rest) then .error ⟨.markInQuotes, position, false⟩
      else if isBreak c then doubleFrom (gap.addBreak c) text next rest
      else if isGap c then doubleFrom (gap.addBlank c) text next rest
      else if c = '\\' then .error (unescapable position c)
      else doubleFrom Gap.start (c :: (gap.fold ++ text)) next rest

def readQuoted (cursor : Cursor) : Except Fault Lexeme :=
  let start := cursor.position
  let result :=
    match cursor.rest with
    | '\'' :: rest => singleFrom Gap.start [] (start.after '\'') rest
    | '"' :: rest => doubleFrom Gap.start [] (start.after '"') rest
    | _ => .error ⟨.endInQuotes, start, false⟩
  match result with
  | .ok (text, stop) => .ok ⟨String.ofList text.reverse, stop, false⟩
  | .error fault =>
      let context := if fault.escape then .escape else .quoted
      .error ⟨fault.problem, fault.position, some (context, start)⟩

end Variants.Yaml
