import Variants.Brackets
import Variants.Text.Occurrence

/-!
# Bracketed expressions in a text

`scan` reads a text character by character until it has read an expression
between the delimiters of a marker.  It goes through phases, and takes none of
them back: a delimiter is entered only where all of it stands.  `excise` takes
all such expressions out of a text.
-/

namespace Variants

/-- Positions count characters; `stop` is one past the right delimiter. -/
structure Bracketed where
  start : Nat
  stop : Nat
  expression : List Char
  start_lt_stop : start < stop

inductive Scan where
  | notFound
  | unterminated
  | found (bracketed : Bracketed)

structure Excision where
  text : List Char
  expressions : List (List Char)
  first : Option Nat
  closed : Bool

/-! ## Phases of a scan -/

inductive ScanPhase where
  | outside
  /-- That many characters of the left delimiter have been read. -/
  | opening (matched : Nat)
  | inside
  | closing (matched : Nat)
  | closed
  deriving DecidableEq, Repr

namespace ScanPhase

def firstClosing (width : Nat) : ScanPhase := if width = 1 then .closed else .closing 1

/--
The phase behind one more character, by whether a left and a right delimiter
stand there.  A scan that is closed reads no more.
-/
def next? (width : Nat) (opens closes : Bool) : ScanPhase → Option ScanPhase
  | .outside => some (if opens then .opening 1 else .outside)
  | .opening matched =>
      if matched < width then some (.opening (matched + 1))
      else some (if closes then firstClosing width else .inside)
  | .inside => some (if closes then firstClosing width else .inside)
  | .closing matched => some (if matched + 1 = width then .closed else .closing (matched + 1))
  | .closed => none

theorem isSome_next? {phase : ScanPhase} (h : phase ≠ .closed) (width : Nat)
    (opens closes : Bool) : (phase.next? width opens closes).isSome = true := by
  cases phase with
  | opening matched => simp only [next?]; split <;> rfl
  | closed => exact absurd rfl h
  | _ => rfl

end ScanPhase

namespace Brackets

/--
Read on in a phase.  The expression opened at position `start`, or opens there
at the earliest, and `length` characters have been read from there on.  There is
no result only if a closed scan were to read on.
-/
def scanFrom? (brackets : Brackets) (start length : Nat) (expression : List Char) :
    ScanPhase → List Char → Option Scan
  | .outside, [] => some .notFound
  | _, [] => some .unterminated
  | phase, c :: rest =>
      match phase.next? brackets.width (brackets.left.isPrefixOf (c :: rest))
          (brackets.right.isPrefixOf (c :: rest)) with
      | none => none
      | some .outside => brackets.scanFrom? (start + 1) 0 expression .outside rest
      | some .inside => brackets.scanFrom? start (length + 1) (expression ++ [c]) .inside rest
      | some .closed =>
          some (.found ⟨start, start + length + 1, expression, by omega⟩)
      | some next => brackets.scanFrom? start (length + 1) expression next rest

theorem isSome_scanFrom? (brackets : Brackets) (text : List Char) (start length : Nat)
    (expression : List Char) {phase : ScanPhase} (h : phase ≠ .closed) :
    (brackets.scanFrom? start length expression phase text).isSome = true := by
  induction text generalizing start length expression phase with
  | nil => cases phase <;> rfl
  | cons c rest ih =>
      obtain ⟨next, hnext⟩ := Option.isSome_iff_exists.mp (ScanPhase.isSome_next? h brackets.width
        (brackets.left.isPrefixOf (c :: rest)) (brackets.right.isPrefixOf (c :: rest)))
      rw [scanFrom?, hnext]
      cases next with
      | closed => rfl
      | _ => exact ih _ _ _ (by simp)

def scan? (brackets : Brackets) (start : Nat) (text : List Char) : Option Scan :=
  brackets.scanFrom? start 0 [] .outside (text.drop start)

def scan (brackets : Brackets) (start : Nat) (text : List Char) : Scan :=
  (brackets.scan? start text).get (brackets.isSome_scanFrom? _ _ _ _ (by simp))

/--
Take the bracketed expressions out from left to right.  The search goes on
after each of them, so delimiters that only meet by the cut are not read as one.
-/
def excise (brackets : Brackets) : List Char → Excision
  | [] => ⟨[], [], none, true⟩
  | c :: rest =>
      match scan brackets 0 (c :: rest) with
      | .notFound => ⟨c :: rest, [], none, true⟩
      | .unterminated => ⟨c :: rest, [], none, false⟩
      | .found bracketed =>
          let after := excise brackets ((c :: rest).drop bracketed.stop)
          { text := (c :: rest).take bracketed.start ++ after.text
            expressions := bracketed.expression :: after.expressions
            first := some bracketed.start
            closed := after.closed }
  termination_by text => text.length
  decreasing_by
    have := bracketed.start_lt_stop
    simp only [List.length_drop, List.length_cons]
    omega

end Brackets

end Variants
