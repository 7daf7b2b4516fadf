import Variants.Yaml.Plain
import Variants.Yaml.Stream

/-!
# Reading YAML text

Tokens are read into the one node they stand for.  What is left out where a node
may stand is null.  Of several things that are wrong with a text, the one that is
met first is reported.
-/

namespace Variants.Yaml

/-! ## Steps -/

abbrev Reading := StateT Stream (Except Error)

namespace Reading

def peek : Reading Placed := fun stream => stream.peek.mapError .layout

def take : Reading Unit := modify Stream.take

def fault {α : Type} (problem : Problem) (position : Position) (context : Context)
    (start : Position) : Reading α :=
  throw (.layout ⟨problem, position, some (context, start)⟩)

end Reading

/-! ## Tags -/

def applyTag (tag : Option Tag) (node : Node) : Node :=
  match tag with
  | some (.own name) => .tagged name node
  | _ => node

/-- The node of a scalar; without a general tag only plain ones may be more than a string. -/
def scalarNode (tag : Option Tag) (plain : Bool) (text : String) : Except Defect Node :=
  match tag with
  | some (.general tag) => coreNode tag text
  | tag => (if plain then plainNode text else .ok (.string text)).map (applyTag tag)

/-! ## Parts of a node -/

inductive Place where
  | entry
  /-- In a block mapping, where the entries of a sequence may stand in the column of the keys. -/
  | mapping
  | brackets
  /-- From the key token of a sequence in brackets on: a mapping of one pair. -/
  | pair
  deriving DecidableEq, Repr

def Place.admits (place : Place) : Token → Bool
  | .scalar _ _ => true
  | .flowSequence => true
  | .flowMapping => true
  | .blockSequence => place != .brackets
  | .blockMapping => place != .brackets
  | .entry => place = .mapping
  | _ => false

/-- A node, and how a path goes on to the value that it is the key of. -/
structure Found where
  node : Node
  step : Step

def Found.null : Found := ⟨.null, .entry ""⟩

abbrev NodeReader := Place → Path → Reading Found

def readOrNull (node : NodeReader) (place : Place) (path : Path) (ends : List Token) :
    Reading Found := do
  let next ← Reading.peek
  if ends.contains next.token then return .null else node place path

def readValue (node : NodeReader) (place : Place) (path : Path) (ends : List Token) :
    Reading Node := do
  let next ← Reading.peek
  if next.token = .value then
    Reading.take
    return (← readOrNull node place path ends).node
  else return .null

/-- No two keys of a mapping are the same; `entries` are those before this key. -/
def checkKey (path : Path) (start : Position) (entries : List (Node × Node)) (key : Node) :
    Reading Unit :=
  match entries.find? fun entry => entry.1.same key with
  | some (first, _) => throw (.content (.repeatedKey first) path start)
  | none => return

/-! ## Block collections -/

/--
The entries of a sequence that has a column of its own, from number `index` on.
Those before them are `items`, the last one first.
-/
def readBlockItems (node : NodeReader) (path : Path) (start : Position) :
    (bound : Nat) → (index : Nat) → (items : List Node) → Reading (List Node)
  | 0, _, items => return items.reverse
  | bound + 1, index, items => do
      let next ← Reading.peek
      match next.token with
      | .entry =>
          Reading.take
          let item ← readOrNull node .entry (.item index :: path) [.entry, .blockEnd]
          readBlockItems node path start bound (index + 1) (item.node :: items)
      | .blockEnd =>
          Reading.take
          return items.reverse
      | _ => Reading.fault .missingHyphen next.position .blockSequence start

def readAlignedItems (node : NodeReader) (path : Path) :
    (bound : Nat) → (index : Nat) → (items : List Node) → Reading (List Node)
  | 0, _, items => return items.reverse
  | bound + 1, index, items => do
      let next ← Reading.peek
      match next.token with
      | .entry =>
          Reading.take
          let item ← readOrNull node .entry (.item index :: path)
            [.entry, .key, .value, .blockEnd]
          readAlignedItems node path bound (index + 1) (item.node :: items)
      | _ => return items.reverse

/--
The entries of a mapping that starts at `start`, and behind its tag at `inside`.
Those before them are `entries`, the last one first.
-/
def readBlockEntries (node : NodeReader) (path : Path) (start inside : Position) :
    (bound : Nat) → (entries : List (Node × Node)) → Reading (List (Node × Node))
  | 0, entries => return entries.reverse
  | bound + 1, entries => do
      let next ← Reading.peek
      match next.token with
      | .key =>
          Reading.take
          let ends := [.key, .value, .blockEnd]
          let key ← readOrNull node .mapping path ends
          checkKey path start entries key.node
          let value ← readValue node .mapping (key.step :: path) ends
          readBlockEntries node path start inside bound ((key.node, value) :: entries)
      | .blockEnd =>
          Reading.take
          return entries.reverse
      | _ => Reading.fault .missingKey next.position .blockMapping inside

/-! ## Collections in brackets -/

/-- The key and value of a single pair; a key that is left out takes the next token with it. -/
def readPair (node : NodeReader) (path : Path) : Reading Node := do
  let next ← Reading.peek
  let key ←
    if [Token.value, .separator, .flowSequenceEnd].contains next.token then do
      Reading.take
      pure Found.null
    else node .brackets path
  let value ← readValue node .brackets (key.step :: path) [.separator, .flowSequenceEnd]
  return .mapping [(key.node, value)]

def readFlowItems (node : NodeReader) (path : Path) (inside : Position) :
    (bound : Nat) → (index : Nat) → (items : List Node) → Reading (List Node)
  | 0, _, items => return items.reverse
  | bound + 1, index, items => do
      let next ← Reading.peek
      if next.token = .flowSequenceEnd then
        Reading.take
        return items.reverse
      let place := if next.token = .key then Place.pair else .brackets
      let item ← node place (.item index :: path)
      let next ← Reading.peek
      match next.token with
      | .separator =>
          Reading.take
          readFlowItems node path inside bound (index + 1) (item.node :: items)
      | .flowSequenceEnd =>
          Reading.take
          return (item.node :: items).reverse
      | _ => Reading.fault .missingListSeparator next.position .flowSequence inside

def readFlowKey (node : NodeReader) (path : Path) (marked : Bool) : Reading Found := do
  if marked then
    Reading.take
    readOrNull node .brackets path [.value, .separator, .flowMappingEnd]
  else node .brackets path

def readFlowEntries (node : NodeReader) (path : Path) (start inside : Position) :
    (bound : Nat) → (entries : List (Node × Node)) → Reading (List (Node × Node))
  | 0, entries => return entries.reverse
  | bound + 1, entries => do
      let next ← Reading.peek
      if next.token = .flowMappingEnd then
        Reading.take
        return entries.reverse
      let marked := next.token = .key
      let key ← readFlowKey node path marked
      checkKey path start entries key.node
      let value ←
        if marked then
          readValue node .brackets (key.step :: path) [.separator, .flowMappingEnd]
        else pure .null
      let entries := (key.node, value) :: entries
      let next ← Reading.peek
      match next.token with
      | .separator =>
          Reading.take
          readFlowEntries node path start inside bound entries
      | .flowMappingEnd =>
          Reading.take
          return entries.reverse
      | _ => Reading.fault .missingEntrySeparator next.position .flowMapping inside

/-! ## Nodes -/

def readScalarNode (path : Path) (start : Position) (tag : Option Tag) (plain : Bool)
    (text : String) : Reading Found :=
  match scalarNode tag plain text with
  | .ok node => return ⟨node, .entry text⟩
  | .error defect => throw (.content defect path start)

def readCollection (inner : Option NodeReader) (start : Position) (tag : Option Tag)
    (read : NodeReader → Reading Node) : Reading Found :=
  match inner with
  | some node => return ⟨applyTag tag (← read node), .unnamed⟩
  | none => throw (.tooDeep start)

/-- A node behind its tag.  With a tag, a node that is left out is an empty scalar. -/
def readContent (bound : Nat) (inner : Option NodeReader) (place : Place) (path : Path)
    (start : Position) (tag : Option Tag) : Reading Found := do
  let next ← Reading.peek
  let inside := next.position
  let collection := readCollection inner start tag
  if place.admits next.token then
    match next.token with
    | .scalar plain text =>
        Reading.take
        readScalarNode path start tag plain text
    | .flowSequence =>
        collection fun node => do
          Reading.take
          return .sequence (← readFlowItems node path inside bound 0 [])
    | .flowMapping =>
        collection fun node => do
          Reading.take
          return .mapping (← readFlowEntries node path start inside bound [])
    | .blockSequence =>
        collection fun node => do
          Reading.take
          return .sequence (← readBlockItems node path inside bound 0 [])
    | .blockMapping =>
        collection fun node => do
          Reading.take
          return .mapping (← readBlockEntries node path start inside bound [])
    | _ => collection fun node => return .sequence (← readAlignedItems node path bound 0 [])
  else if tag.isSome then readScalarNode path start tag true ""
  else
    let context := if place = .brackets then .flowNode else .blockNode
    Reading.fault .missingNode inside context inside

def readNodeWith (bound : Nat) (inner : Option NodeReader) : NodeReader := fun place path => do
  let next ← Reading.peek
  let start := next.position
  match place, next.token with
  | .pair, _ =>
      readCollection inner start none fun node => do
        Reading.take
        readPair node path
  | place, .tag tag =>
      Reading.take
      let _ ← Reading.peek
      if tag.isNone then Reading.fault .unknownHandle start .node start
      else readContent bound inner place path start tag
  | place, _ => readContent bound inner place path start none

/-- A node with collections at most `depth` deep and with fewer than `bound` parts in each. -/
def readNode (bound : Nat) : (depth : Nat) → NodeReader
  | 0 => readNodeWith bound none
  | depth + 1 => readNodeWith bound (some (readNode bound depth))

/-! ## Documents -/

def maxDepth : Nat := 128

def readDocument (bound : Nat) : Reading Node := do
  let node := readNode bound maxDepth
  let next ← Reading.peek
  match next.token with
  | .textEnd => return .null
  | .documentStart =>
      Reading.take
      return (← readOrNull node .entry [] [.documentStart, .documentEnd, .textEnd]).node
  | _ => return (← node .entry []).node

def isFinished : (bound : Nat) → Stream → Bool
  | 0, _ => false
  | bound + 1, stream =>
      match stream.peek with
      | .error _ => false
      | .ok (next, stream) =>
          match next.token with
          | .textEnd => true
          | .documentEnd => isFinished bound stream.take
          | _ => false

/-- The one node of a text whose line breaks are normalized; a text without one is null. -/
def readAll (text : List Char) : Except Error Node := do
  let stream := Stream.ofText text
  let (node, stream) ← readDocument stream.bound stream
  let (_, stream) ← stream.peek.mapError Error.layout
  if isFinished stream.bound stream then return node else throw .moreDocuments

def controlOffset? (text : List Char) : Option Nat :=
  match text.dropWhile isAllowed with
  | [] => none
  | _ => some (Position.start.afterAll (text.takeWhile isAllowed)).offset

def parse (text : String) : Except Error Node :=
  match controlOffset? text.toList with
  | some offset => .error (.control offset)
  | none => readAll (normalizeBreaks text.toList)

end Variants.Yaml
