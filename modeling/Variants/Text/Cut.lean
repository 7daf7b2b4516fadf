/-!
# Cutting text at a character

`splitOnce` cuts at the first occurrence of a character, `splitAll` at every
one.  Both drop the character itself and keep empty parts.
-/

namespace Variants.Text

def splitOnce (mark : Char) : List Char → Option (List Char × List Char)
  | [] => none
  | c :: rest =>
      if c = mark then some ([], rest)
      else (splitOnce mark rest).map fun parts => (c :: parts.1, parts.2)

def splitAll (mark : Char) : List Char → List (List Char)
  | [] => [[]]
  | c :: rest =>
      if c = mark then [] :: splitAll mark rest
      else
        match splitAll mark rest with
        | [] => [[c]]
        | part :: parts => (c :: part) :: parts

def join (separator : List Char) : List (List Char) → List Char
  | [] => []
  | [part] => part
  | part :: next :: parts => part ++ separator ++ join separator (next :: parts)

/-! ## Small facts -/

theorem splitOnce_eq_none_iff {mark : Char} {text : List Char} :
    splitOnce mark text = none ↔ mark ∉ text := by
  induction text with
  | nil => simp [splitOnce]
  | cons c rest ih =>
      by_cases h : c = mark
      · simp [splitOnce, h]
      · simp [splitOnce, h, ih, Ne.symm h]

theorem eq_append_of_splitOnce {mark : Char} {text before after : List Char}
    (h : splitOnce mark text = some (before, after)) :
    text = before ++ mark :: after ∧ mark ∉ before := by
  induction text generalizing before with
  | nil => simp [splitOnce] at h
  | cons c rest ih =>
      by_cases hc : c = mark
      · simp only [splitOnce, hc, if_true, Option.some.injEq, Prod.mk.injEq] at h
        obtain ⟨rfl, rfl⟩ := h
        simp [hc]
      · simp only [splitOnce, hc, if_false, Option.map_eq_some_iff] at h
        obtain ⟨⟨first, second⟩, hparts, heq⟩ := h
        simp only [Prod.mk.injEq] at heq
        obtain ⟨rfl, rfl⟩ := heq
        obtain ⟨hrest, hnot⟩ := ih hparts
        exact ⟨by simp [hrest], by simp [hnot, Ne.symm hc]⟩

theorem splitAll_ne_nil (mark : Char) (text : List Char) : splitAll mark text ≠ [] := by
  induction text with
  | nil => simp [splitAll]
  | cons c rest ih =>
      simp only [splitAll]
      split
      · simp
      · split <;> simp

theorem join_splitAll (mark : Char) (text : List Char) :
    join [mark] (splitAll mark text) = text := by
  induction text with
  | nil => rfl
  | cons c rest ih =>
      cases hparts : splitAll mark rest with
      | nil => exact absurd hparts (splitAll_ne_nil mark rest)
      | cons part parts =>
          rw [hparts] at ih
          by_cases hc : c = mark
          · subst hc
            simp only [splitAll, if_true, hparts, join, List.nil_append]
            rw [ih]
            rfl
          · cases parts <;> simp_all [splitAll, join]

end Variants.Text
