/-!
# Occurrences of a pattern

`indexOf?` is the least position at which a pattern occurs.
-/

namespace Variants.Text

def OccursAt (pattern text : List Char) (index : Nat) : Prop := pattern <+: text.drop index

def indexOf? (pattern : List Char) : List Char → Option Nat
  | [] => if pattern.isEmpty then some 0 else none
  | c :: rest =>
      if pattern.isPrefixOf (c :: rest) then some 0
      else (indexOf? pattern rest).map (· + 1)

/-! ## Leftmost occurrence -/

theorem indexOf?_eq_none_iff {pattern text : List Char} :
    indexOf? pattern text = none ↔ ∀ index, ¬ OccursAt pattern text index := by
  induction text with
  | nil => simp [indexOf?, OccursAt]
  | cons c rest ih =>
      simp only [indexOf?]
      by_cases h : pattern.isPrefixOf (c :: rest) = true
      · simp only [h, if_true, reduceCtorEq, false_iff]
        intro hall
        exact hall 0 (List.isPrefixOf_iff_prefix.1 h)
      · simp only [h]
        simp only [Bool.false_eq_true, if_false, Option.map_eq_none_iff, ih]
        constructor
        · intro hall index
          cases index with
          | zero => exact fun hp => h (List.isPrefixOf_iff_prefix.2 hp)
          | succ index => exact hall index
        · intro hall index
          exact hall (index + 1)

theorem indexOf?_eq_some_iff {pattern text : List Char} {index : Nat} :
    indexOf? pattern text = some index ↔
      OccursAt pattern text index ∧ ∀ earlier < index, ¬ OccursAt pattern text earlier := by
  induction text generalizing index with
  | nil =>
      by_cases h : pattern = []
      · simp only [indexOf?, h, List.isEmpty_nil, if_true, Option.some.injEq, OccursAt,
          List.drop_nil, List.nil_prefix, true_and, not_true]
        constructor
        · rintro rfl earlier hlt
          exact absurd hlt (Nat.not_lt_zero _)
        · intro hall
          cases index with
          | zero => rfl
          | succ index => exact absurd (Nat.succ_pos _) (hall 0)
      · simp [indexOf?, OccursAt, h]
  | cons c rest ih =>
      simp only [indexOf?]
      by_cases h : pattern.isPrefixOf (c :: rest) = true
      · have h0 : OccursAt pattern (c :: rest) 0 := List.isPrefixOf_iff_prefix.1 h
        simp only [h, if_true, Option.some.injEq]
        constructor
        · rintro rfl
          exact ⟨h0, fun earlier hlt => absurd hlt (Nat.not_lt_zero _)⟩
        · rintro ⟨-, hall⟩
          cases index with
          | zero => rfl
          | succ index => exact absurd h0 (hall 0 (Nat.succ_pos _))
      · have h0 : ¬ OccursAt pattern (c :: rest) 0 := fun hp =>
          h (List.isPrefixOf_iff_prefix.2 hp)
        simp only [h, Bool.false_eq_true, if_false, Option.map_eq_some_iff]
        constructor
        · rintro ⟨found, hfound, rfl⟩
          obtain ⟨hat, hall⟩ := ih.1 hfound
          refine ⟨hat, fun earlier hlt => ?_⟩
          cases earlier with
          | zero => exact h0
          | succ earlier => exact hall earlier (Nat.lt_of_succ_lt_succ hlt)
        · rintro ⟨hat, hall⟩
          cases index with
          | zero => exact absurd hat h0
          | succ index =>
              exact ⟨index, ih.2 ⟨hat, fun earlier hlt => hall (earlier + 1)
                (Nat.succ_lt_succ hlt)⟩, rfl⟩

end Variants.Text
