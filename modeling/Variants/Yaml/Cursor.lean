/-!
# Positions in YAML text

Lines and columns matter in YAML, so the text that is left to read is kept
together with its position.  This module also skips what stands between tokens.
-/

namespace Variants.Yaml

/-! ## Characters -/

/-- Line feeds and the two separators of Unicode end a line. -/
def isBreak (c : Char) : Bool := c == '\n' || c == '\u2028' || c == '\u2029'

def normalizeBreaks : List Char → List Char
  | [] => []
  | '\r' :: '\n' :: rest => '\n' :: normalizeBreaks rest
  | '\r' :: rest => '\n' :: normalizeBreaks rest
  | c :: rest => (if c.toNat = 0x85 then '\n' else c) :: normalizeBreaks rest

def isAllowed (c : Char) : Bool :=
  let n := c.toNat
  n = 0x09 || n = 0x0A || n = 0x0D || (0x20 ≤ n && n ≤ 0x7E) || n = 0x85 ||
    (0xA0 ≤ n && n ≤ 0xFFFD) || 0x10000 ≤ n

def isGap (c : Char) : Bool := c == ' ' || c == '\t'

def endsWord (text : List Char) : Bool :=
  match text with
  | [] => true
  | c :: _ => isGap c || isBreak c

/-! ## Positions -/

structure Position where
  line : Nat
  column : Nat
  offset : Nat
  deriving DecidableEq, Repr

namespace Position

def start : Position := ⟨0, 0, 0⟩

def after (position : Position) (c : Char) : Position :=
  if isBreak c then ⟨position.line + 1, 0, position.offset + c.utf8Size⟩
  else ⟨position.line, position.column + 1, position.offset + c.utf8Size⟩

def afterAll (position : Position) (text : List Char) : Position := text.foldl after position

end Position

structure Cursor where
  rest : List Char
  position : Position

def Cursor.advance (cursor : Cursor) (count : Nat) : Cursor :=
  ⟨cursor.rest.drop count, cursor.position.afterAll (cursor.rest.take count)⟩

/-! ## Between tokens -/

/--
Move over blanks, line breaks and comments.  Outside brackets a new line is
`fresh`: a key may start there, and tabs may not stand before it.  A byte order
mark may stand at the start of a line.
-/
def skipFrom (bracketed fresh comment : Bool) (position : Position) : List Char → Bool × Cursor
  | [] => (fresh, ⟨[], position⟩)
  | c :: rest =>
      let next := position.after c
      if isBreak c then skipFrom bracketed (fresh || !bracketed) false next rest
      else if comment || c = ' ' || (c = '\t' && (bracketed || !fresh)) then
        skipFrom bracketed fresh comment next rest
      else if c = '#' then skipFrom bracketed fresh true next rest
      else if c = '\uFEFF' && position.column = 0 then skipFrom bracketed fresh false next rest
      else (fresh, ⟨c :: rest, position⟩)

def Cursor.skip (bracketed fresh : Bool) (cursor : Cursor) : Bool × Cursor :=
  skipFrom bracketed fresh false cursor.position cursor.rest

end Variants.Yaml
