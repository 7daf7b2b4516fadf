import Variants.Yaml.Scalar
import Variants.Yaml.Token

/-!
# Streams of tokens

A text is read as far as the tokens that are taken need it and no further, so
that a fault is only noticed once what stands before it has been taken.
-/

namespace Variants.Yaml

/-! ## Reading tokens -/

def readScalar (nesting : Nesting) (plain : Bool) (cursor : Cursor) :
    Except Fault (Nesting × Cursor) := do
  let started ← nesting.startKey cursor.position
  let lexeme ←
    if plain then readPlain nesting.bracketed nesting.least cursor else readQuoted cursor
  let scalar := Token.scalar plain lexeme.text
  return ({ started.push scalar cursor.position with fresh := lexeme.fresh }, lexeme.stop)

def readTagToken (nesting : Nesting) (cursor : Cursor) : Except Fault (Nesting × Cursor) := do
  let started ← nesting.startKey cursor.position
  let (tag, stop) ← readTag nesting.bracketed cursor
  return ({ started.push (.tag tag) cursor.position with fresh := false }, stop)

def readEnd (nesting : Nesting) (position : Position) : Except Fault (Nesting × Cursor) := do
  let stop : Position :=
    if position.column = 0 then position else ⟨position.line + 1, 0, position.offset⟩
  return (← nesting.endDocument .textEnd stop, ⟨[], stop⟩)

def readToken (nesting : Nesting) (cursor : Cursor) : Except Fault (Nesting × Cursor) :=
  let position := cursor.position
  let mark (size : Nat) (result : Except Fault Nesting) : Except Fault (Nesting × Cursor) :=
    result.map fun nesting => (nesting, cursor.advance size)
  if position.column = 0 && startsDocumentMark cursor.rest then
    let token := if cursor.rest.head? == some '-' then .documentStart else .documentEnd
    mark 3 (nesting.endDocument token position)
  else
    match cursor.rest with
    | [] => readEnd nesting position
    | '[' :: _ => mark 1 (nesting.openBracket .flowSequence position)
    | '{' :: _ => mark 1 (nesting.openBracket .flowMapping position)
    | ']' :: _ => mark 1 (nesting.closeBracket .flowSequenceEnd position)
    | '}' :: _ => mark 1 (nesting.closeBracket .flowMappingEnd position)
    | ',' :: _ => mark 1 (nesting.separate position)
    | '!' :: _ => readTagToken nesting cursor
    | '\'' :: _ => readScalar nesting false cursor
    | '"' :: _ => readScalar nesting false cursor
    | c :: rest =>
        let ends := nesting.bracketed || endsWord rest
        if c = '-' && endsWord rest then mark 1 (nesting.startEntry position)
        else if c = '?' && ends then mark 1 (nesting.markKey position)
        else if c = ':' && ends then mark 1 (nesting.startValue position)
        else if startsPlain (c :: rest) then readScalar nesting true cursor
        else .error ⟨.unknownStart, position, some (.token, position)⟩

/-! ## Streams -/

structure Stream where
  nesting : Nesting
  cursor : Cursor
  /-- More tokens than the text can hold. -/
  bound : Nat

namespace Stream

def ofText (text : List Char) : Stream :=
  ⟨Nesting.start, ⟨text, Position.start⟩, text.length + 3⟩

variable (stream : Stream)

def read : Except Fault Stream := do
  let (fresh, cursor) := stream.cursor.skip stream.nesting.bracketed stream.nesting.fresh
  let nesting ← { stream.nesting with fresh }.dropExpired cursor.position
  let nesting := nesting.close (cursor.position.column < ·) cursor.position
  let (nesting, cursor) ← readToken nesting cursor
  return { stream with nesting, cursor }

/-- Read on until the first token that waits cannot turn into a key. -/
def settleWithin : (bound : Nat) → Stream → Except Fault Stream
  | 0, stream => .ok stream
  | bound + 1, stream =>
      if stream.nesting.waiting.isEmpty then do settleWithin bound (← stream.read)
      else do
        let nesting ← stream.nesting.dropExpired stream.cursor.position
        if nesting.isPending then settleWithin bound (← { stream with nesting }.read)
        else return { stream with nesting }

def peek : Except Fault (Placed × Stream) := do
  let stream ← settleWithin stream.bound stream
  return (stream.nesting.waiting.headD ⟨.textEnd, stream.cursor.position⟩, stream)

def take : Stream := { stream with nesting := stream.nesting.take }

end Stream

end Variants.Yaml
