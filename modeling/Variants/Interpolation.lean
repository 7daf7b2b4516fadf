import Variants.Tuple

/-!
# Placeholders in strings

A placeholder is a pair of brackets around colons, which count the register,
and one character that says what is put there: the name of the dimension, the
selected value or the selected domain.
-/

namespace Variants

inductive Emission where
  | name
  | value
  | domain
  deriving DecidableEq, Repr

def Emission.ofChar? (c : Char) : Option Emission :=
  match c with
  | '.' => some .name
  | '@' => some .value
  | '$' => some .domain
  | _ => none

structure Placeholder where
  emission : Emission
  register : Register
  deriving DecidableEq, Repr

namespace Placeholder

/-- The placeholder that starts the text, and how many characters it has. -/
def read? (brackets : Brackets) (text : List Char) : Option (Placeholder × Nat) :=
  if brackets.left.isPrefixOf text then
    let body := text.drop brackets.width
    let colons := (body.takeWhile (· == ':')).length
    match body.drop colons with
    | [] => none
    | c :: rest =>
        match Emission.ofChar? c with
        | none => none
        | some emission =>
            if brackets.right.isPrefixOf rest then
              some (⟨emission, ⟨colons⟩⟩, brackets.width + colons + 1 + brackets.width)
            else none
  else none

def text (dimension : Dimension) (tuple : Tuple) (placeholder : Placeholder) :
    Except Error String :=
  let selection := Tuple.selection? tuple dimension.name placeholder.register
  let emitted : Option String :=
    match placeholder.emission with
    | .name => some dimension.name
    | .value => selection.map Selection.value
    | .domain => selection.map Selection.domain
  if dimension.hasRegister placeholder.register then
    match emitted with
    | none => .error (.emptyInterpolation dimension.name placeholder.register)
    | some text =>
        if text.isEmpty then .error (.emptyInterpolation dimension.name placeholder.register)
        else .ok text
  else .error (.unknownRegister dimension.name placeholder.register)

end Placeholder

/-! ## Filling in -/

def interpolateDimension (tuple : Tuple) (dimension : Dimension) :
    List Char → Except Error (List Char)
  | [] => .ok []
  | c :: rest =>
      match Placeholder.read? dimension.brackets (c :: rest) with
      | none => (interpolateDimension tuple dimension rest).map (c :: ·)
      | some (placeholder, length) =>
          match placeholder.text dimension tuple with
          | .error error => .error error
          | .ok text =>
              (interpolateDimension tuple dimension (rest.drop (length - 1))).map
                (text.toList ++ ·)
  termination_by text => text.length
  decreasing_by all_goals (simp only [List.length_drop, List.length_cons]; omega)

def interpolate (dimensions : List Dimension) (tuple : Tuple) (value : String) :
    Except Error String :=
  ((dimensions.foldlM (fun text dimension => interpolateDimension tuple dimension text)
    value.toList).mapError (.inInterpolation value)).map String.ofList

end Variants
