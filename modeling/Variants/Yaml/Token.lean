import Variants.Yaml.Tag

/-!
# Tokens of YAML text

Tokens make the layout of a text explicit: columns become tokens that open and
close block collections, and a colon puts a key token before what it turns into
a key.  A token is therefore only known once it can no longer turn into a key,
and waits until then.
-/

namespace Variants.Yaml

inductive Token where
  | documentStart
  | documentEnd
  | textEnd
  | blockSequence
  | blockMapping
  | blockEnd
  | flowSequence
  | flowSequenceEnd
  | flowMapping
  | flowMappingEnd
  | entry
  | separator
  | key
  | value
  /-- No tag stands for one whose handle is not known. -/
  | tag (tag : Option Tag)
  | scalar (plain : Bool) (text : String)
  deriving DecidableEq, Repr

structure Placed where
  token : Token
  position : Position
  deriving DecidableEq, Repr

/-! ## Nesting -/

structure KeyStart where
  position : Position
  index : Nat
  required : Bool

namespace KeyStart

/-- A key stands on one line, with at most this many bytes up to its colon. -/
def maxSize : Nat := 1024

def expired (start : KeyStart) (position : Position) : Bool :=
  start.position.line < position.line || start.position.offset + maxSize < position.offset

def fault (start : KeyStart) (position : Position) : Fault :=
  ⟨.missingColon, position, some (.simpleKey, start.position)⟩

end KeyStart

structure Nesting where
  waiting : List Placed
  taken : Nat
  /-- The columns of the open block collections, the innermost first. -/
  columns : List Nat
  keyStart : Option KeyStart
  /-- For each open bracket, the innermost first, the key that may have started before it. -/
  outer : List (Option KeyStart)
  fresh : Bool

namespace Nesting

def start : Nesting := ⟨[], 0, [], none, [], true⟩

variable (nesting : Nesting)

def bracketed : Bool := !nesting.outer.isEmpty

def least : Nat :=
  match nesting.columns with
  | [] => 0
  | column :: _ => column + 1

def keyStarts : List KeyStart := (nesting.keyStart :: nesting.outer).filterMap id

def isPending : Bool := nesting.keyStarts.any (·.index = nesting.taken)

/-! ### Tokens -/

def count : Nat := nesting.taken + nesting.waiting.length

def push (token : Token) (position : Position) : Nesting :=
  { nesting with waiting := nesting.waiting ++ [⟨token, position⟩] }

def insert (index : Nat) (token : Token) (position : Position) : Nesting :=
  let earlier := index - nesting.taken
  { nesting with
    waiting := nesting.waiting.take earlier ++ ⟨token, position⟩ :: nesting.waiting.drop earlier }

def take : Nesting :=
  { nesting with waiting := nesting.waiting.drop 1, taken := nesting.taken + 1 }

/-! ### Block collections -/

/-- Outside brackets a column further in than all others opens a collection. -/
def openColumn (index : Nat) (token : Token) (position : Position) : Nesting :=
  if nesting.bracketed || position.column < nesting.least then nesting
  else { nesting.insert index token position with columns := position.column :: nesting.columns }

def close (closes : Nat → Bool) (position : Position) : Nesting :=
  if nesting.bracketed then nesting
  else
    let closed := (nesting.columns.takeWhile closes).length
    { nesting with
      waiting := nesting.waiting ++ List.replicate closed ⟨.blockEnd, position⟩
      columns := nesting.columns.drop closed }

/-! ### Keys -/

def dropKey (position : Position) : Except Fault Nesting :=
  match nesting.keyStart with
  | some start =>
      if start.required then .error (start.fault position)
      else .ok { nesting with keyStart := none }
  | none => .ok nesting

def dropExpired (position : Position) : Except Fault Nesting :=
  match nesting.keyStarts.find? fun start => start.required && start.expired position with
  | some start => .error (start.fault position)
  | none =>
      let remaining (start : Option KeyStart) := start.filter (!·.expired position)
      .ok { nesting with
        keyStart := remaining nesting.keyStart
        outer := nesting.outer.map remaining }

def startKey (position : Position) : Except Fault Nesting :=
  if nesting.fresh then do
    let required := !nesting.bracketed && nesting.columns.head? == some position.column
    let nesting ← nesting.dropKey position
    return { nesting with keyStart := some ⟨position, nesting.count, required⟩ }
  else .ok nesting

/-! ### Marks -/

def openBracket (token : Token) (position : Position) : Except Fault Nesting := do
  let nesting ← nesting.startKey position
  return { nesting.push token position with
    keyStart := none, outer := nesting.keyStart :: nesting.outer, fresh := true }

/-- A bracket that closes nothing is left to be refused later. -/
def closeBracket (token : Token) (position : Position) : Except Fault Nesting := do
  let nesting ← nesting.dropKey position
  let nesting := { nesting.push token position with fresh := false }
  match nesting.outer with
  | [] => return nesting
  | keyStart :: outer => return { nesting with keyStart, outer }

def separate (position : Position) : Except Fault Nesting := do
  let nesting ← nesting.dropKey position
  return { nesting.push .separator position with fresh := true }

def startEntry (position : Position) : Except Fault Nesting :=
  if nesting.bracketed || nesting.fresh then do
    let nesting ← (nesting.openColumn nesting.count .blockSequence position).dropKey position
    return { nesting.push .entry position with fresh := true }
  else .error ⟨.misplacedEntry, position, none⟩

def markKey (position : Position) : Except Fault Nesting :=
  if nesting.bracketed || nesting.fresh then do
    let nesting ← (nesting.openColumn nesting.count .blockMapping position).dropKey position
    return { nesting.push .key position with fresh := !nesting.bracketed }
  else .error ⟨.misplacedKey, position, none⟩

def startValue (position : Position) : Except Fault Nesting :=
  match nesting.keyStart with
  | some start =>
      let nesting := (nesting.insert start.index .key start.position).openColumn start.index
        .blockMapping start.position
      .ok { nesting.push .value position with keyStart := none, fresh := false }
  | none =>
      if nesting.bracketed || nesting.fresh then
        let nesting := nesting.openColumn nesting.count .blockMapping position
        .ok { nesting.push .value position with fresh := !nesting.bracketed }
      else .error ⟨.misplacedValue, position, none⟩

def endDocument (token : Token) (position : Position) : Except Fault Nesting := do
  let nesting ← (nesting.close (fun _ => true) position).dropKey position
  return { nesting.push token position with fresh := false }

end Nesting

end Variants.Yaml
