import Variants.Error

/-!
# Brackets

The marker of a dimension is a left and a right delimiter of the same length,
written one after the other: `[[]]` is `[[` and `]]`.
-/

namespace Variants

structure Brackets where
  left : List Char
  right : List Char
  same_width : left.length = right.length
  width_pos : 0 < left.length

namespace Brackets

instance : DecidableEq Brackets := fun a b =>
  decidable_of_iff (a.left = b.left ∧ a.right = b.right) (by cases a; cases b; simp)

def width (brackets : Brackets) : Nat := brackets.left.length

def marker (brackets : Brackets) : String := String.ofList (brackets.left ++ brackets.right)

def ofMarker? (marker : List Char) : Option Brackets :=
  if h : marker.length % 2 = 0 ∧ 0 < marker.length then
    some ⟨marker.take (marker.length / 2), marker.drop (marker.length / 2),
      by simp; omega, by simp; omega⟩
  else none

def parse (name marker : String) : Except Error Brackets :=
  match ofMarker? marker.toList with
  | some brackets => .ok brackets
  | none => .error (.malformedBrackets name marker)

theorem ofMarker?_eq_some_iff {marker : List Char} {brackets : Brackets} :
    ofMarker? marker = some brackets ↔ marker = brackets.left ++ brackets.right := by
  constructor
  · intro h
    simp only [ofMarker?] at h
    split at h
    · cases Option.some.inj h
      exact (List.take_append_drop _ _).symm
    · contradiction
  · rintro rfl
    have hsame := brackets.same_width
    have hpos := brackets.width_pos
    have hlen : (brackets.left ++ brackets.right).length =
        brackets.left.length + brackets.left.length := by
      simp [hsame]
    have hhalf : (brackets.left ++ brackets.right).length / 2 = brackets.left.length := by
      omega
    rw [ofMarker?, dif_pos ⟨by omega, by omega⟩]
    cases brackets
    simp only [Option.some.injEq, Brackets.mk.injEq, hhalf]
    simp

end Brackets

end Variants
