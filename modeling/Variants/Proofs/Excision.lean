import Mathlib.Data.List.Infix
import Variants.Proofs.Scan

/-!
# Bracketed expressions in marked text

A text is clear of a delimiter when the delimiter neither occurs in it nor
reaches into it from what stands after.  Behind a clear text the first delimiter
is found where it stands, so a bracketed expression is taken out as a whole and
the search goes on after it.
-/

namespace Variants

/-! ## Clear text -/

namespace Text

theorem exists_occursAt_iff {pattern text : List Char} :
    (∃ index, OccursAt pattern text index) ↔ pattern <:+: text := by
  constructor
  · rintro ⟨index, h⟩
    exact h.isInfix.trans (List.drop_suffix index text).isInfix
  · rintro ⟨before, after, rfl⟩
    exact ⟨before.length, by simp [OccursAt]⟩

/-- The last character of the text keeps the delimiter from reaching over its end. -/
structure Clear (delimiter text : List Char) : Prop where
  absent : ¬ delimiter <:+: text
  last_not_mem : ∀ c, text.getLast? = some c → c ∉ delimiter

variable {delimiter text more : List Char}

theorem Clear.not_occursAt (h : Clear delimiter text) (more : List Char) {index : Nat}
    (hindex : index < text.length) : ¬ OccursAt delimiter (text ++ more) index := by
  intro hoccurs
  rw [OccursAt, List.drop_append_of_le_length (Nat.le_of_lt hindex)] at hoccurs
  rcases Nat.le_total delimiter.length (text.drop index).length with hle | hle
  · have hwithin := List.prefix_of_prefix_length_le hoccurs (List.prefix_append _ more) hle
    exact h.absent (exists_occursAt_iff.mp ⟨index, hwithin⟩)
  · have hover := List.prefix_of_prefix_length_le (List.prefix_append _ more) hoccurs hle
    have hne : text.drop index ≠ [] := by simpa using hindex
    have hlast : text.getLast? = some ((text.drop index).getLast hne) := by
      rw [List.getLast_drop, List.getLast?_eq_some_getLast]
    exact h.last_not_mem _ hlast (hover.subset (List.getLast_mem hne))

theorem Clear.append (h : Clear delimiter text) (hmore : Clear delimiter more) :
    Clear delimiter (text ++ more) where
  absent := by
    rw [← exists_occursAt_iff]
    rintro ⟨index, hoccurs⟩
    rcases Nat.lt_or_ge index text.length with hlt | hge
    · exact h.not_occursAt more hlt hoccurs
    · refine hmore.absent (exists_occursAt_iff.mp ⟨index - text.length, ?_⟩)
      simpa [OccursAt, List.drop_append, List.drop_of_length_le hge] using hoccurs
  last_not_mem := by
    intro c hc
    cases hlast : more.getLast? with
    | none => exact h.last_not_mem c (by simpa [List.getLast?_append, hlast] using hc)
    | some last =>
        exact hmore.last_not_mem c (by simpa [List.getLast?_append, hlast] using hc)

theorem Clear.of_forall_not_mem (hne : delimiter ≠ []) (h : ∀ c ∈ text, c ∉ delimiter) :
    Clear delimiter text where
  absent := by
    intro hpart
    obtain ⟨c, hc⟩ := List.exists_mem_of_ne_nil _ hne
    exact h c (hpart.subset hc) hc
  last_not_mem := fun c hc => h c (List.mem_of_getLast? hc)

theorem Clear.of_short {short rest : List Char} (hshort : short.length < delimiter.length)
    (hne : rest ≠ []) (h : ∀ c ∈ rest, c ∉ delimiter) : Clear delimiter (short ++ rest) where
  absent := by
    rw [← exists_occursAt_iff]
    rintro ⟨index, after, hoccurs⟩
    -- The character of the delimiter at this position stands in the rest.
    have hget : delimiter[short.length]? = rest[index]? := by
      have hpos := congrArg (fun text => text[short.length]?) hoccurs
      simpa [List.getElem?_append_left hshort, List.getElem?_append_right,
        Nat.add_comm index] using hpos
    have hmem : delimiter[short.length] ∈ delimiter := List.getElem_mem hshort
    rw [List.getElem?_eq_getElem hshort] at hget
    exact h _ (List.mem_of_getElem? hget.symm) hmem
  last_not_mem := by
    intro c hc
    have hlast := List.getLast?_eq_some_getLast hne
    refine h c (List.mem_of_getLast? ?_)
    simpa [List.getLast?_append, hlast] using hc

theorem indexOf?_of_clear (h : Clear delimiter text) (more : List Char) :
    indexOf? delimiter (text ++ (delimiter ++ more)) = some text.length :=
  indexOf?_eq_some_iff.mpr
    ⟨by simp [OccursAt], fun _ hearlier => h.not_occursAt _ hearlier⟩

end Text

/-! ## Taking expressions out -/

namespace Brackets

variable (brackets : Brackets)

theorem excise_eq (text : List Char) :
    brackets.excise text =
      match brackets.scan 0 text with
      | .notFound => ⟨text, [], none, true⟩
      | .unterminated => ⟨text, [], none, false⟩
      | .found bracketed =>
          { text := text.take bracketed.start ++ (brackets.excise (text.drop bracketed.stop)).text
            expressions :=
              bracketed.expression :: (brackets.excise (text.drop bracketed.stop)).expressions
            first := some bracketed.start
            closed := (brackets.excise (text.drop bracketed.stop)).closed } := by
  cases text with
  | nil => simp [excise, scan_eq, Text.indexOf?, brackets.left_ne_nil]
  | cons c rest => cases hscan : brackets.scan 0 (c :: rest) <;> simp [excise, hscan]

theorem excise_of_absent {text : List Char} (h : ¬ brackets.left <:+: text) :
    brackets.excise text = ⟨text, [], none, true⟩ := by
  have hindex : Text.indexOf? brackets.left text = none := by
    rw [Text.indexOf?_eq_none_iff]
    exact fun index hoccurs => h (Text.exists_occursAt_iff.mp ⟨index, hoccurs⟩)
  rw [excise_eq, scan_eq]
  simp [hindex]

variable {before expression : List Char}

theorem excise_of_clear (hbefore : Text.Clear brackets.left before)
    (hexpression : Text.Clear brackets.right expression) (after : List Char) :
    brackets.excise
        (before ++ (brackets.left ++ (expression ++ (brackets.right ++ after)))) =
      { text := before ++ (brackets.excise after).text
        expressions := expression :: (brackets.excise after).expressions
        first := some before.length
        closed := (brackets.excise after).closed } := by
  have hbody : List.drop (0 + before.length + brackets.width)
      (before ++ (brackets.left ++ (expression ++ (brackets.right ++ after)))) =
        expression ++ (brackets.right ++ after) := by
    simp [width, List.drop_append]
  have hstop : List.drop
      (0 + before.length + brackets.width + expression.length + brackets.width)
      (before ++ (brackets.left ++ (expression ++ (brackets.right ++ after)))) = after := by
    rw [Nat.add_assoc _ expression.length, ← List.drop_drop, hbody]
    simp [width, brackets.same_width, List.drop_append]
  rw [excise_eq, scan_eq]
  simp only [List.drop_zero, Text.indexOf?_of_clear hbefore, hbody,
    Text.indexOf?_of_clear hexpression, hstop]
  simp

end Brackets

end Variants
