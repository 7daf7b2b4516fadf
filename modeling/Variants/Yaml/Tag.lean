import Variants.Text.Digits
import Variants.Yaml.Error

/-!
# Tags

A tag that starts with an exclamation mark is the document's own and becomes part
of the node behind it.  Any other tag is general; the core tags among them say
what a scalar means.
-/

namespace Variants.Yaml

inductive Tag where
  | own (name : String)
  /-- The document's own, but its name is no text; it has no effect. -/
  | nameless
  | general (text : String)
  deriving DecidableEq, Repr

/-! ## Characters -/

def isHandleChar (c : Char) : Bool := c.isAlphanum || c == '-' || c == '_'

def isTagChar (c : Char) : Bool :=
  isHandleChar c || c ∈ [';', '/', '?', ':', '@', '&', '=', '+', '$', '.', '!', '~', '*', '\'',
    '(', ')', '%']

/-! ## Escapes -/

def width? (first : Nat) : Option Nat :=
  if first < 0x80 then some 1
  else if first < 0xC0 then none
  else if first < 0xE0 then some 2
  else if first < 0xF0 then some 3
  else if first < 0xF8 then some 4
  else none

def bytesAfter (missing byte : Nat) : Except Problem Nat :=
  match missing with
  | 0 => ((width? byte).map fun width => .ok (width - 1)).getD (.error .badLeadingByte)
  | missing + 1 => if byte / 0x40 = 2 then .ok missing else .error .badTrailingByte

/--
The bytes of a tag, where a percent sign and two hexadecimal digits are a byte.
A character that is escaped is escaped in all its bytes, and `missing` bytes of
the last one are still to come.  A fault comes with the number of characters
before it.
-/
def tagBytes (before : Nat) : (missing : Nat) → List Char → Except (Problem × Nat) (List UInt8)
  | missing, '%' :: high :: low :: rest => do
      let byte ← ((Text.natural? 16 [high, low]).map .ok).getD (.error (.badTagEscape, before))
      let missing ← (bytesAfter missing byte).mapError (·, before)
      return byte.toUInt8 :: (← tagBytes (before + 3) missing rest)
  | 0, [] => .ok []
  | 0, c :: rest =>
      if c = '%' then .error (.badTagEscape, before)
      else (tagBytes (before + 1) 0 rest).map (c.toNat.toUInt8 :: ·)
  | _ + 1, _ => .error (.badTagEscape, before)

/-! ## Forms -/

def exclamation : UInt8 := 0x21

def textOfBytes? (bytes : List UInt8) : Option String := String.fromUTF8? ⟨bytes.toArray⟩

/-- A tag ends at a zero byte, and a lone exclamation mark is its own name. -/
def Tag.ofBytes (bytes : List UInt8) : Tag :=
  let bytes := bytes.takeWhile (· != 0)
  if bytes.head? == some exclamation then
    let name := if bytes.tail.isEmpty then bytes else bytes.tail
    ((textOfBytes? name).map Tag.own).getD .nameless
  else .general ((textOfBytes? bytes).getD "")

def corePrefix : String := "tag:yaml.org,2002:"

/-! ## Reading -/

def readTagPart (optional : Bool) (start : Position) (part : List Char) (position : Position) :
    Except Fault (List UInt8) :=
  let fault (problem : Problem) (count : Nat) : Fault :=
    ⟨problem, position.afterAll (part.take count), some (.tagText, start)⟩
  if part.isEmpty && !optional then .error (fault .missingTag 0)
  else (tagBytes 0 0 part).mapError fun (problem, count) => fault problem count

def readVerbatim (start : Position) (cursor : Cursor) : Except Fault (Tag × Cursor) := do
  let written := cursor.rest.takeWhile fun c => isTagChar c || c ∈ [',', '[', ']']
  let bytes ← readTagPart false start written cursor.position
  let stop := cursor.advance written.length
  if stop.rest.head? == some '>' then return (.ofBytes bytes, stop.advance 1)
  else throw ⟨.missingTagBracket, stop.position, some (.tag, start)⟩

/--
The tag behind its first exclamation mark.  One behind a further exclamation mark
is a core tag; no other handles are known, and there is no tag behind one.
-/
def readShorthand (start : Position) (cursor : Cursor) : Except Fault (Option Tag × Cursor) := do
  let written := cursor.rest.takeWhile isTagChar
  let stop := cursor.advance written.length
  let handle := written.takeWhile isHandleChar
  match written.drop handle.length with
  | '!' :: suffix =>
      let bytes ← readTagPart false start suffix (cursor.advance (handle.length + 1)).position
      let tag := Tag.ofBytes (corePrefix.toUTF8.toList ++ bytes)
      return (if handle.isEmpty then some tag else none, stop)
  | _ =>
      let bytes ← readTagPart true start written cursor.position
      return (some (.ofBytes (exclamation :: bytes)), stop)

def readTag (bracketed : Bool) (cursor : Cursor) : Except Fault (Option Tag × Cursor) := do
  let start := cursor.position
  let (tag, stop) ←
    match cursor.rest.drop 1 with
    | '<' :: _ => (readVerbatim start (cursor.advance 2)).map fun (tag, stop) => (some tag, stop)
    | _ => readShorthand start (cursor.advance 1)
  if endsWord stop.rest || (bracketed && stop.rest.head? == some ',') then
    return (tag, stop)
  else throw ⟨.missingTagEnd, stop.position, some (.tag, start)⟩

end Variants.Yaml
