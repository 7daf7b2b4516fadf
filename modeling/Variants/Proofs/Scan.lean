import Variants.Brackets.Scan

/-!
# Scans as searches

A scan reads each character once and counts its way through the delimiters.  It
ends up where two searches would: one for the left delimiter, and one for the
right delimiter behind it.  Delimiters that overlap themselves or each other
make no difference, because a phase counts to the width of a delimiter before
the next one is looked for.
-/

namespace Variants

/-! ## First occurrences -/

namespace Text

/-- The pattern occurs at `index`, and not between `start` and there. -/
structure FirstAt (pattern text : List Char) (start index : Nat) : Prop where
  start_le : start ≤ index
  occursAt : OccursAt pattern text index
  first : ∀ earlier, start ≤ earlier → earlier < index → ¬ OccursAt pattern text earlier

variable {pattern text : List Char} {start index : Nat}

theorem occursAt_drop_iff : OccursAt pattern (text.drop start) index ↔
    OccursAt pattern text (start + index) := by
  rw [OccursAt, OccursAt, List.drop_drop]

theorem indexOf?_drop_eq_none_iff :
    indexOf? pattern (text.drop start) = none ↔
      ∀ index, start ≤ index → ¬ OccursAt pattern text index := by
  simp only [indexOf?_eq_none_iff, occursAt_drop_iff]
  constructor
  · intro h index hle
    simpa [Nat.add_sub_cancel' hle] using h (index - start)
  · exact fun h index => h (start + index) (Nat.le_add_right _ _)

theorem indexOf?_drop_eq_some_iff :
    indexOf? pattern (text.drop start) = some index ↔
      FirstAt pattern text start (start + index) := by
  simp only [indexOf?_eq_some_iff, occursAt_drop_iff]
  constructor
  · rintro ⟨hoccurs, hfirst⟩
    refine ⟨Nat.le_add_right _ _, hoccurs, fun earlier hle hlt => ?_⟩
    simpa [Nat.add_sub_cancel' hle] using hfirst (earlier - start) (by omega)
  · intro h
    exact ⟨h.occursAt, fun earlier hlt =>
      h.first (start + earlier) (Nat.le_add_right _ _) (by omega)⟩

theorem indexOf?_cons_of_isPrefixOf {c : Char} {rest : List Char}
    (h : pattern.isPrefixOf (c :: rest) = true) : indexOf? pattern (c :: rest) = some 0 := by
  rw [indexOf?, if_pos h]

theorem indexOf?_cons_of_not_isPrefixOf {c : Char} {rest : List Char}
    (h : pattern.isPrefixOf (c :: rest) = false) :
    indexOf? pattern (c :: rest) = (indexOf? pattern rest).map (· + 1) := by
  rw [indexOf?, h]
  simp

end Text

namespace Brackets

variable (brackets : Brackets)

theorem left_ne_nil : brackets.left ≠ [] :=
  List.ne_nil_of_length_pos brackets.width_pos

theorem right_ne_nil : brackets.right ≠ [] :=
  List.ne_nil_of_length_pos (brackets.same_width ▸ brackets.width_pos)

variable {brackets}

theorem width_le_of_left_isPrefixOf {text : List Char}
    (h : brackets.left.isPrefixOf text = true) : brackets.width ≤ text.length :=
  (List.isPrefixOf_iff_prefix.mp h).length_le

theorem width_le_of_right_isPrefixOf {text : List Char}
    (h : brackets.right.isPrefixOf text = true) : brackets.width ≤ text.length :=
  Nat.le_trans (Nat.le_of_eq brackets.same_width) (List.isPrefixOf_iff_prefix.mp h).length_le

/-! ## What is read in each phase -/

theorem scanFrom?_closing {text expression : List Char} {start length matched : Nat}
    (hmatched : matched < brackets.width) (hlength : brackets.width ≤ matched + text.length) :
    brackets.scanFrom? start length expression (.closing matched) text =
      some (.found ⟨start, start + length + (brackets.width - matched), expression, by omega⟩) := by
  induction text generalizing length matched with
  | nil =>
      rw [List.length_nil] at hlength
      omega
  | cons c rest ih =>
      rw [List.length_cons] at hlength
      rw [scanFrom?, ScanPhase.next?]
      by_cases hlast : matched + 1 = brackets.width
      · simp only [hlast, if_true, Option.some.injEq, Scan.found.injEq, Bracketed.mk.injEq,
          true_and, and_true]
        omega
      · simp only [hlast, if_false]
        rw [ih (by omega) (by omega)]
        simp only [Option.some.injEq, Scan.found.injEq, Bracketed.mk.injEq, true_and, and_true]
        omega

theorem scanFrom?_inside {text : List Char} {start length : Nat} {expression : List Char} :
    brackets.scanFrom? start length expression .inside text =
      match Text.indexOf? brackets.right text with
      | none => some .unterminated
      | some skipped =>
          some (.found
            { start := start
              stop := start + length + skipped + brackets.width
              expression := expression ++ text.take skipped
              start_lt_stop := by have := brackets.width_pos; simp only [width]; omega }) := by
  have hwidth : 0 < brackets.width := brackets.width_pos
  induction text generalizing length expression with
  | nil => simp [scanFrom?, Text.indexOf?, brackets.right_ne_nil]
  | cons c rest ih =>
      rw [scanFrom?, ScanPhase.next?]
      cases hcloses : brackets.right.isPrefixOf (c :: rest) with
      | true =>
          rw [Text.indexOf?_cons_of_isPrefixOf hcloses]
          have hlength := width_le_of_right_isPrefixOf hcloses
          rw [List.length_cons, Nat.add_comm] at hlength
          by_cases hone : brackets.width = 1
          · simp [ScanPhase.firstClosing, hone]
          · simp only [ScanPhase.firstClosing, hone, if_true, if_false]
            rw [scanFrom?_closing (by omega) hlength]
            simp only [List.take_zero, List.append_nil, Option.some.injEq, Scan.found.injEq,
              Bracketed.mk.injEq, true_and, and_true]
            omega
      | false =>
          rw [Text.indexOf?_cons_of_not_isPrefixOf hcloses]
          simp only [Bool.false_eq_true, if_false]
          rw [ih]
          cases Text.indexOf? brackets.right rest with
          | none => rfl
          | some skipped =>
              simp only [Option.map_some, List.take_succ_cons, List.append_assoc,
                List.singleton_append, Option.some.injEq, Scan.found.injEq, Bracketed.mk.injEq,
                true_and, and_true]
              omega

theorem scanFrom?_opened {text expression : List Char} {start length : Nat} :
    brackets.scanFrom? start length expression (.opening brackets.width) text =
      brackets.scanFrom? start length expression .inside text := by
  cases text with
  | nil => rfl
  | cons c rest => simp [scanFrom?, ScanPhase.next?]

theorem scanFrom?_opening {text expression : List Char} {start length matched : Nat}
    (hmatched : matched ≤ brackets.width) (hlength : brackets.width ≤ matched + text.length) :
    brackets.scanFrom? start length expression (.opening matched) text =
      brackets.scanFrom? start (length + (brackets.width - matched)) expression .inside
        (text.drop (brackets.width - matched)) := by
  induction text generalizing length matched with
  | nil =>
      rw [List.length_nil] at hlength
      obtain rfl : matched = brackets.width := by omega
      simp [scanFrom?_opened]
  | cons c rest ih =>
      rw [List.length_cons] at hlength
      rcases Nat.eq_or_lt_of_le hmatched with rfl | hlt
      · simp [scanFrom?_opened]
      · have hleft : brackets.width - matched = brackets.width - (matched + 1) + 1 := by omega
        rw [scanFrom?, ScanPhase.next?, if_pos hlt]
        simp only
        rw [ih hlt (by omega), hleft, List.drop_succ_cons, Nat.add_right_comm, Nat.add_assoc]

theorem scanFrom?_outside {text expression : List Char} {start : Nat} :
    brackets.scanFrom? start 0 expression .outside text =
      match Text.indexOf? brackets.left text with
      | none => some .notFound
      | some skipped =>
          brackets.scanFrom? (start + skipped) brackets.width expression .inside
            (text.drop (skipped + brackets.width)) := by
  have hwidth : 0 < brackets.width := brackets.width_pos
  induction text generalizing start with
  | nil => simp [scanFrom?, Text.indexOf?, brackets.left_ne_nil]
  | cons c rest ih =>
      rw [scanFrom?, ScanPhase.next?]
      cases hopens : brackets.left.isPrefixOf (c :: rest) with
      | true =>
          have hlength := width_le_of_left_isPrefixOf hopens
          rw [List.length_cons, Nat.add_comm] at hlength
          obtain ⟨others, hothers⟩ := Nat.exists_eq_add_of_le' hwidth
          rw [Text.indexOf?_cons_of_isPrefixOf hopens]
          simp only [if_true]
          rw [scanFrom?_opening (by omega) hlength]
          simp [hothers, Nat.add_comm]
      | false =>
          rw [Text.indexOf?_cons_of_not_isPrefixOf hopens]
          simp only [Bool.false_eq_true, if_false]
          rw [ih]
          cases Text.indexOf? brackets.left rest with
          | none => rfl
          | some skipped =>
              simp only [Option.map_some]
              rw [Nat.add_right_comm skipped 1, List.drop_succ_cons, Nat.add_assoc start,
                Nat.add_comm 1]

/-! ## Two searches -/

variable (brackets)

theorem scan?_eq_some_scan (start : Nat) (text : List Char) :
    brackets.scan? start text = some (brackets.scan start text) :=
  (Option.some_get _).symm

theorem scan_eq (start : Nat) (text : List Char) :
    brackets.scan start text =
      match Text.indexOf? brackets.left (text.drop start) with
      | none => .notFound
      | some skipped =>
          let body := text.drop (start + skipped + brackets.width)
          match Text.indexOf? brackets.right body with
          | none => .unterminated
          | some length =>
              .found
                { start := start + skipped
                  stop := start + skipped + brackets.width + length + brackets.width
                  expression := body.take length
                  start_lt_stop := by have := brackets.width_pos; simp only [width]; omega } := by
  refine Option.some.inj ((brackets.scan?_eq_some_scan start text).symm.trans ?_)
  rw [scan?, scanFrom?_outside]
  cases Text.indexOf? brackets.left (text.drop start) with
  | none => rfl
  | some skipped =>
      simp only [scanFrom?_inside, List.drop_drop, Nat.add_assoc]
      cases Text.indexOf? brackets.right (text.drop (start + (skipped + brackets.width))) with
      | none => rfl
      | some length => simp

theorem scan_eq_notFound_iff {start : Nat} {text : List Char} :
    brackets.scan start text = .notFound ↔
      ∀ index, start ≤ index → ¬ Text.OccursAt brackets.left text index := by
  rw [scan_eq, ← Text.indexOf?_drop_eq_none_iff]
  cases Text.indexOf? brackets.left (text.drop start) with
  | none => simp
  | some skipped => dsimp only; split <;> simp

/--
A scan never reads on when it is closed.  It finds nothing if there is no left
delimiter from `start` on.  Otherwise the expression opens at the first one and
closes at the first right delimiter behind that; without one it is unterminated.
-/
theorem scan_leftmost (start : Nat) (text : List Char) :
    brackets.scan? start text = some (brackets.scan start text) ∧
    (brackets.scan start text = .notFound ↔
      ∀ index, start ≤ index → ¬ Text.OccursAt brackets.left text index) ∧
    ∀ opened, Text.FirstAt brackets.left text start opened →
      (brackets.scan start text = .unterminated ↔
        ∀ index, opened + brackets.width ≤ index → ¬ Text.OccursAt brackets.right text index) ∧
      ∀ closes, Text.FirstAt brackets.right text (opened + brackets.width) closes →
        ∃ bracketed, brackets.scan start text = .found bracketed ∧
          bracketed.start = opened ∧ bracketed.stop = closes + brackets.width ∧
          bracketed.expression =
            (text.drop (opened + brackets.width)).take (closes - (opened + brackets.width)) := by
  refine ⟨brackets.scan?_eq_some_scan start text, brackets.scan_eq_notFound_iff,
    fun opened hopened => ?_⟩
  obtain ⟨skipped, rfl⟩ := Nat.exists_eq_add_of_le hopened.start_le
  rw [scan_eq, Text.indexOf?_drop_eq_some_iff.mpr hopened, ← Text.indexOf?_drop_eq_none_iff]
  refine ⟨?_, fun closes hcloses => ?_⟩
  · cases hclosing : Text.indexOf? brackets.right
      (text.drop (start + skipped + brackets.width)) <;> simp [hclosing]
  · obtain ⟨length, rfl⟩ := Nat.exists_eq_add_of_le hcloses.start_le
    simp only [Text.indexOf?_drop_eq_some_iff.mpr hcloses]
    exact ⟨_, rfl, rfl, rfl, by rw [Nat.add_sub_cancel_left]⟩

example : scan ⟨['a', 'a'], ['a', 'a'], rfl, by decide⟩ 1 ['a', 'a', 'a', 'a', 'b', 'a', 'a', 'a'] =
    .found ⟨1, 7, ['a', 'b'], by decide⟩ := rfl

end Brackets

end Variants
